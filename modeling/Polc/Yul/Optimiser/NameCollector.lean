import Polc.Yul.AsmAnalysis
import Polc.Yul.Optimiser.Semantics

/-!
# Collectors of names

`libyul/optimiser/NameCollector.cpp`: the variables that code assigns to, those it assigns to
from its first `continue` on, and all names it references. Sets of names and counters of names
are lists here.
-/

namespace Yul

open List
open Bool (and_eq_true)

mutual

/-- The variables that are assigned to, at any depth (`Assignments`). -/
def Statement.assignments : Statement → List YulString
  | .assignment xs _ => xs
  | .functionDefinition _ _ _ body => assignmentsOfStatements body
  | .if _ body => assignmentsOfStatements body
  | .switch _ cases => assignmentsOfCases cases
  | .forLoop pre _ post body =>
    assignmentsOfStatements pre ++ assignmentsOfStatements body ++ assignmentsOfStatements post
  | .block ss => assignmentsOfStatements ss
  | _ => []

def assignmentsOfStatements : List Statement → List YulString
  | [] => []
  | s :: ss => s.assignments ++ assignmentsOfStatements ss

def assignmentsOfCases : List Case → List YulString
  | [] => []
  | .mk _ body :: cs => assignmentsOfStatements body ++ assignmentsOfCases cs

end

/-- The state of `AssignmentsSinceContinue`: whether a `continue` was found, and the names. -/
structure SinceContinue where
  continueFound : Bool
  names : List YulString

mutual

/-- Visit a statement; `depth` counts the loops around it (`m_forLoopDepth`). There is no result
for function definitions, at which the source asserts. -/
def Statement.sinceContinue (depth : Nat) (c : SinceContinue) :
    Statement → Option SinceContinue
  | .assignment xs _ => some (if c.continueFound then { c with names := c.names ++ xs } else c)
  | .functionDefinition _ _ _ _ => none
  | .if _ body => sinceContinueOfStatements depth c body
  | .switch _ cases => sinceContinueOfCases depth c cases
  | .forLoop pre _ post body =>
    (sinceContinueOfStatements (depth + 1) c pre).bind fun c =>
      (sinceContinueOfStatements (depth + 1) c body).bind fun c =>
        sinceContinueOfStatements (depth + 1) c post
  | .continue => some (if depth = 0 then { c with continueFound := true } else c)
  | .block ss => sinceContinueOfStatements depth c ss
  | _ => some c

def sinceContinueOfStatements (depth : Nat) (c : SinceContinue) :
    List Statement → Option SinceContinue
  | [] => some c
  | s :: ss => (s.sinceContinue depth c).bind fun c => sinceContinueOfStatements depth c ss

def sinceContinueOfCases (depth : Nat) (c : SinceContinue) : List Case → Option SinceContinue
  | [] => some c
  | .mk _ body :: cs =>
    (sinceContinueOfStatements depth c body).bind fun c => sinceContinueOfCases depth c cs

end

/-- The variables assigned to from the first `continue` of a loop body on. -/
def assignmentsSinceContinue (body : Block) : Option (List YulString) :=
  (sinceContinueOfStatements 0 ⟨false, []⟩ body).map (·.names)

mutual

/-- The variables that are declared at any depth, function definitions apart. -/
def Statement.declarations : Statement → List YulString
  | .variableDeclaration xs _ => xs.map (·.name)
  | .if _ body => declarationsOfStatements body
  | .switch _ cases => declarationsOfCases cases
  | .forLoop pre _ post body =>
    declarationsOfStatements pre ++ declarationsOfStatements body ++
      declarationsOfStatements post
  | .block ss => declarationsOfStatements ss
  | _ => []

def declarationsOfStatements : List Statement → List YulString
  | [] => []
  | s :: ss => s.declarations ++ declarationsOfStatements ss

def declarationsOfCases : List Case → List YulString
  | [] => []
  | .mk _ body :: cs => declarationsOfStatements body ++ declarationsOfCases cs

end

mutual

/-- The variables and functions that an expression references, once for each reference
(`ReferencesCounter`). -/
def Expression.references : Expression → List YulString
  | .functionalInstruction _ args => argumentsReferences args
  | .functionCall f args => f :: argumentsReferences args
  | .identifier x => [x]
  | .literal _ => []

def argumentsReferences : List Expression → List YulString
  | [] => []
  | e :: es => e.references ++ argumentsReferences es

end

mutual

/-- The variables and functions that code references, once for each reference. -/
def Statement.references : Statement → List YulString
  | .expressionStatement e => e.references
  | .assignment xs e => xs ++ e.references
  | .variableDeclaration _ none => []
  | .variableDeclaration _ (some e) => e.references
  | .functionDefinition _ _ _ body => referencesOfStatements body
  | .if c body => c.references ++ referencesOfStatements body
  | .switch e cases => e.references ++ referencesOfCases cases
  | .forLoop pre c post body =>
    referencesOfStatements pre ++ c.references ++ referencesOfStatements body ++
      referencesOfStatements post
  | .break | .continue => []
  | .block ss => referencesOfStatements ss

def referencesOfStatements : List Statement → List YulString
  | [] => []
  | s :: ss => s.references ++ referencesOfStatements ss

def referencesOfCases : List Case → List YulString
  | [] => []
  | .mk _ body :: cs => referencesOfStatements body ++ referencesOfCases cs

end

/-- How often each name is referenced (`ReferencesCounter::countReferences`). -/
def countReferences (references : List YulString) : YulString → Nat :=
  fun x => references.count x

attribute [simp] Statement.assignments assignmentsOfStatements assignmentsOfCases
  Statement.declarations declarationsOfStatements declarationsOfCases

lemma namesOfStatements_eq : namesOfStatements = List.flatMap (·.names) := by
  funext ss
  induction ss with
  | nil => rfl
  | cons s ss ih => rw [namesOfStatements, ih, flatMap_cons]

lemma names_perm {ss ts : List Statement} (h : ss.Perm ts) :
    (namesOfStatements ss).Perm (namesOfStatements ts) := by
  rw [namesOfStatements_eq]
  exact h.flatMap_right _

lemma names_sublist {ss ts : List Statement} (h : ss.Sublist ts) :
    (namesOfStatements ss).Sublist (namesOfStatements ts) := by
  rw [namesOfStatements_eq]
  exact h.flatMap _

variable (ss : List Statement) (s : Statement) (ts : List Statement)

lemma names_singleton : namesOfStatements [s] = s.names :=
  append_nil _

lemma names_append :
    namesOfStatements (ss ++ ts) = namesOfStatements ss ++ namesOfStatements ts := by
  induction ss with
  | nil => rfl
  | cons s ss ih => rw [cons_append, namesOfStatements, namesOfStatements, ih, append_assoc]

lemma assignments_append :
    assignmentsOfStatements (ss ++ ts) =
      assignmentsOfStatements ss ++ assignmentsOfStatements ts := by
  induction ss with
  | nil => rfl
  | cons s ss ih =>
    rw [cons_append, assignmentsOfStatements, assignmentsOfStatements, ih,
      append_assoc]

lemma declarations_append :
    declarationsOfStatements (ss ++ ts) =
      declarationsOfStatements ss ++ declarationsOfStatements ts := by
  induction ss with
  | nil => rfl
  | cons s ss ih =>
    rw [cons_append, declarationsOfStatements, declarationsOfStatements, ih,
      append_assoc]

/-! ### Collected names are names of the code -/

lemma append_subset_append {xs ys xs' ys' : List YulString} (h : xs ⊆ xs') (h' : ys ⊆ ys') :
    xs ++ ys ⊆ xs' ++ ys' :=
  fun _ hx => mem_append.mpr ((mem_append.mp hx).imp (@h _) (@h' _))

mutual

lemma Expression.referenced_subset_references (e : Expression) :
    e.referencedVariables ⊆ e.references := by
  match e with
  | .functionalInstruction i args => exact argumentsReferenced_subset_references args
  | .functionCall f args =>
    exact subset_cons_of_subset _ (argumentsReferenced_subset_references args)
  | .identifier x => exact List.Subset.refl _
  | .literal l => exact nil_subset _

lemma argumentsReferenced_subset_references (es : List Expression) :
    argumentsReferencedVariables es ⊆ argumentsReferences es := by
  match es with
  | [] => exact nil_subset _
  | e :: es =>
    exact append_subset_append e.referenced_subset_references
      (argumentsReferenced_subset_references es)

end

lemma declares_subset_declarations : s.declares ⊆ s.declarations := by
  cases s <;> first | exact List.Subset.refl _ | exact nil_subset _

mutual

lemma declarations_subset_names (s : Statement) : s.declarations ⊆ s.names := by
  match s with
  | .variableDeclaration xs e => exact List.Subset.refl _
  | .if c body => exact declarationsOfStatements_subset_names body
  | .switch e cs => exact declarationsOfCases_subset_names cs
  | .forLoop pre c post body =>
    rw [Statement.declarations]
    exact append_subset_append (append_subset_append
      (declarationsOfStatements_subset_names pre) (declarationsOfStatements_subset_names body))
      (declarationsOfStatements_subset_names post)
  | .block ss => exact declarationsOfStatements_subset_names ss
  | .expressionStatement _ | .assignment _ _ | .functionDefinition _ _ _ _ | .break
  | .continue => exact nil_subset _

lemma declarationsOfStatements_subset_names (ss : List Statement) :
    declarationsOfStatements ss ⊆ namesOfStatements ss := by
  match ss with
  | [] => exact nil_subset _
  | s :: ss =>
    exact append_subset_append (declarations_subset_names s)
      (declarationsOfStatements_subset_names ss)

lemma declarationsOfCases_subset_names (cs : List Case) :
    declarationsOfCases cs ⊆ namesOfCases cs := by
  match cs with
  | [] => exact nil_subset _
  | .mk value body :: cs =>
    exact append_subset_append (declarationsOfStatements_subset_names body)
      (declarationsOfCases_subset_names cs)

end

lemma declares_subset_names : s.declares ⊆ s.names :=
  List.Subset.trans (declares_subset_declarations s) (declarations_subset_names s)

lemma flatMap_declares_subset_declarations :
    ss.flatMap (·.declares) ⊆ declarationsOfStatements ss := by
  induction ss with
  | nil => exact nil_subset _
  | cons s ss ih =>
    rw [flatMap_cons]
    exact append_subset_append (declares_subset_declarations s) ih

lemma flatMap_declares_subset_names : ss.flatMap (·.declares) ⊆ namesOfStatements ss :=
  List.Subset.trans (flatMap_declares_subset_declarations ss)
    (declarationsOfStatements_subset_names ss)

section

variable {dialect : Dialect} {x : YulString}

mutual

lemma mem_of_mem_assignments (s : Statement) {Γ : Scope} (h : s.valid dialect Γ)
    (hx : x ∈ s.assignments) : x ∈ s.names ∨ x ∈ Γ.locals := by
  match s with
  | .assignment xs e =>
    rw [valid_assignment, and_eq_true, and_eq_true, all_eq_true] at h
    exact .inr (of_decide_eq_true (h.1.1 x hx))
  | .functionDefinition f ps rs body =>
    rw [valid_function, and_eq_true] at h
    rcases mem_of_mem_assignmentsOfStatements body h.2 hx with hx | hx
    · exact .inl (mem_cons_of_mem _ (mem_append_right _ hx))
    · rw [Scope.locals_register, map_append] at hx
      exact .inl (mem_cons_of_mem _ (mem_append_left _ hx))
  | .if c body =>
    rw [valid_if, and_eq_true] at h
    exact (mem_of_mem_assignmentsOfStatements body h.2 hx).imp_right (by simp)
  | .switch e cs =>
    rw [valid_switch, and_eq_true] at h
    exact mem_of_mem_assignmentsOfCases cs h.2 hx
  | .forLoop pre c post body =>
    simp only [valid_forLoop, and_eq_true] at h
    obtain ⟨⟨⟨⟨hpre, -⟩, -⟩, hpost⟩, hbody⟩ := h
    have houter (hx : x ∈ (Γ.declare (pre.flatMap (·.declares))).locals) :
        x ∈ (Statement.forLoop pre c post body).names ∨ x ∈ Γ.locals := by
      refine (mem_append.mp hx).imp_left fun hx => ?_
      exact mem_append_left _ (mem_append_left _ (flatMap_declares_subset_names pre hx))
    rw [Statement.assignments, mem_append, mem_append] at hx
    rcases hx with (hx | hx) | hx
    · refine (mem_of_mem_assignmentsOfStatements pre hpre hx).imp_left fun hx => ?_
      exact mem_append_left _ (mem_append_left _ hx)
    · rcases mem_of_mem_assignmentsOfStatements body hbody hx with hx | hx
      · exact .inl (mem_append_left _ (mem_append_right _ hx))
      · rw [Scope.locals_register] at hx
        exact houter hx
    · rcases mem_of_mem_assignmentsOfStatements post hpost hx with hx | hx
      · exact .inl (mem_append_right _ hx)
      · rw [Scope.locals_register] at hx
        exact houter hx
  | .block ss =>
    rw [valid_block] at h
    exact (mem_of_mem_assignmentsOfStatements ss h hx).imp_right (by simp)
  | .expressionStatement _ | .variableDeclaration _ _ | .break | .continue => cases hx

lemma mem_of_mem_assignmentsOfStatements (ss : List Statement) {Γ : Scope}
    (h : statementsValid dialect Γ ss) (hx : x ∈ assignmentsOfStatements ss) :
    x ∈ namesOfStatements ss ∨ x ∈ Γ.locals := by
  match ss with
  | [] => cases hx
  | s :: ss =>
    rw [statementsValid, and_eq_true] at h
    rcases mem_append.mp hx with hx | hx
    · exact (mem_of_mem_assignments s h.1 hx).imp_left (mem_append_left _)
    · rcases mem_of_mem_assignmentsOfStatements ss h.2 hx with hx | hx
      · exact .inl (mem_append_right _ hx)
      · exact (mem_append.mp hx).imp_left fun hx =>
          mem_append_left _ (declares_subset_names s hx)

lemma mem_of_mem_assignmentsOfCases (cs : List Case) {Γ : Scope}
    (h : casesValid dialect Γ cs) (hx : x ∈ assignmentsOfCases cs) :
    x ∈ namesOfCases cs ∨ x ∈ Γ.locals := by
  match cs with
  | [] => cases hx
  | .mk value body :: cs =>
    simp only [casesValid, and_eq_true] at h
    rcases mem_append.mp hx with hx | hx
    · refine (mem_of_mem_assignmentsOfStatements body h.1.2 hx).imp (mem_append_left _) ?_
      simp
    · exact (mem_of_mem_assignmentsOfCases cs h.2 hx).imp_left (mem_append_right _)

end

end

section

variable {dialect : Dialect} {x : YulString}

mutual

lemma not_mem_declarations_of_valid {Γ : Scope} (hx : x ∈ Γ.locals) (s : Statement)
    (h : s.valid dialect Γ) : x ∉ s.declarations := by
  match s with
  | .variableDeclaration xs e =>
    simp only [valid_declaration, and_eq_true, all_eq_true,
      decide_eq_true_eq] at h
    simp only [Statement.declarations, mem_map, not_exists, not_and]
    rintro y hy rfl
    exact h.1.2 y hy hx
  | .if c body =>
    rw [valid_if, and_eq_true] at h
    exact not_mem_declarationsOfStatements_of_valid (by simpa using hx) body h.2
  | .switch e cases =>
    rw [valid_switch, and_eq_true] at h
    exact not_mem_declarationsOfCases_of_valid hx cases h.2
  | .forLoop pre c post body =>
    simp only [valid_forLoop, and_eq_true] at h
    obtain ⟨⟨⟨⟨hpre, -⟩, -⟩, hpost⟩, hbody⟩ := h
    simp only [Statement.declarations, mem_append, not_or]
    refine ⟨⟨not_mem_declarationsOfStatements_of_valid (by simpa using hx) pre hpre, ?_⟩, ?_⟩
    · exact not_mem_declarationsOfStatements_of_valid (by simp [hx]) body hbody
    · exact not_mem_declarationsOfStatements_of_valid (by simp [hx]) post hpost
  | .block ss =>
    rw [valid_block] at h
    exact not_mem_declarationsOfStatements_of_valid (by simpa using hx) ss h
  | .expressionStatement _ | .assignment _ _ | .functionDefinition _ _ _ _ | .break
  | .continue => exact not_mem_nil

lemma not_mem_declarationsOfStatements_of_valid {Γ : Scope} (hx : x ∈ Γ.locals)
    (ss : List Statement) (h : statementsValid dialect Γ ss) :
    x ∉ declarationsOfStatements ss := by
  match ss with
  | [] => exact not_mem_nil
  | s :: ss =>
    rw [statementsValid, and_eq_true] at h
    rw [declarationsOfStatements, mem_append, not_or]
    exact ⟨not_mem_declarations_of_valid hx s h.1,
      not_mem_declarationsOfStatements_of_valid (by simp [hx]) ss h.2⟩

lemma not_mem_declarationsOfCases_of_valid {Γ : Scope} (hx : x ∈ Γ.locals) (cs : List Case)
    (h : casesValid dialect Γ cs) : x ∉ declarationsOfCases cs := by
  match cs with
  | [] => exact not_mem_nil
  | .mk value body :: cs =>
    simp only [casesValid, and_eq_true] at h
    rw [declarationsOfCases, mem_append, not_or]
    exact ⟨not_mem_declarationsOfStatements_of_valid (by simpa using hx) body h.1.2,
      not_mem_declarationsOfCases_of_valid hx cs h.2⟩

end

end

end Yul
