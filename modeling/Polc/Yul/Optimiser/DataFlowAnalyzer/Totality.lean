import Polc.Yul.Optimiser.DataFlowAnalyzer.ProgramPoints
import Mathlib.Algebra.Order.PUnit
import Mathlib.Algebra.Order.BigOperators.Group.List

/-!
# The analysis does not fail

The analyser demands of loops that their initialisation is empty and that no functions are
defined in their bodies. Apart from that it fails only where visiting an expression fails. Where
the state of the visits counts references, it counts those of the code that comes out.
-/

namespace Yul

open DataFlowAnalyzer Bool

mutual

/-- Loops are as the analyser demands. -/
def Statement.loopsAnalyzable : Statement → Bool
  | .functionDefinition _ _ _ body => loopsAnalyzableOfStatements body
  | .if _ body => loopsAnalyzableOfStatements body
  | .switch _ cases => loopsAnalyzableOfCases cases
  | .forLoop pre _ post body =>
    pre.isEmpty && (assignmentsSinceContinue body).isSome && loopsAnalyzableOfStatements body &&
      loopsAnalyzableOfStatements post
  | .block ss => loopsAnalyzableOfStatements ss
  | _ => true

def loopsAnalyzableOfStatements : List Statement → Bool
  | [] => true
  | s :: ss => s.loopsAnalyzable && loopsAnalyzableOfStatements ss

def loopsAnalyzableOfCases : List Case → Bool
  | [] => true
  | .mk _ body :: cs => loopsAnalyzableOfStatements body && loopsAnalyzableOfCases cs

end

section

variable {c : Expression} {s : Statement} {ss body pre post : List Statement} {cs : List Case}

lemma loopsAnalyzable_forLoop :
    (Statement.forLoop pre c post body).loopsAnalyzable =
      (pre.isEmpty && (assignmentsSinceContinue body).isSome &&
        loopsAnalyzableOfStatements body && loopsAnalyzableOfStatements post) := rfl

end

/-! ### Consistent knowledge -/

namespace DataFlowAnalyzer

/-- The recorded references are those of the recorded values, and no value leads back to its
variable. -/
structure Consistent (S : DataFlowAnalyzer) : Prop where
  exact_references : ∀ x e, S.value x = some e → ∀ y, (x, y) ∈ S.references →
    y ∈ e.referencedVariables
  acyclic : ∃ rank : YulString → Nat, ∀ x e, S.value x = some e →
    ∀ y ∈ e.referencedVariables, rank y < rank x

section

variable {dialect : Dialect} {Γ : Scope} {S S' : DataFlowAnalyzer} {vars ds : List YulString}
  {x y : YulString} {e : Expression} {value : Option Expression}

lemma Consistent.of_subset (h : S.Consistent)
    (hvalue : ∀ x e, S'.value x = some e → S.value x = some e)
    (href : S'.references ⊆ S.references) : S'.Consistent where
  exact_references x e he y hy := h.exact_references x e (hvalue x e he) y (href hy)
  acyclic := by
    obtain ⟨rank, hrank⟩ := h.acyclic
    exact ⟨rank, fun x e he => hrank x e (hvalue x e he)⟩

lemma Consistent.clearValues (h : S.Consistent) (vars : List YulString) :
    (S.clearValues vars).Consistent :=
  h.of_subset (fun _ _ he => (value_clearValues he).1) fun _ h => List.mem_of_mem_filter h

lemma Consistent.popScope (h : S'.Consistent)
    (hscopes : S'.variableScopes = declareIn ds (S.pushScope false).variableScopes) :
    S'.popScope.Consistent := by
  rw [popScope_eq hscopes]
  exact (h.clearValues ds).of_subset (fun _ _ => id) (List.Subset.refl _)

lemma references_clearValues_of_mem (hx : x ∈ vars) :
    (x, y) ∉ (S.clearValues vars).references := by
  intro h
  have hnot := (List.mem_filter.mp h).2
  rw [decide_eq_true_eq] at hnot
  exact hnot (mem_toBeCleared hx)

lemma Consistent.handleAssignment (h : S.Consistent) (hS : S.WellFormed dialect Γ)
    (vars : List YulString) (value : Option Expression) :
    (S.handleAssignment dialect vars value).Consistent where
  exact_references x e he y hy := by
    rw [references_handleAssignment] at hy
    rcases value_handleAssignment he with he | ⟨hx, hnew⟩
    · rcases List.mem_append.mp hy with hy | hy
      · exact (h.clearValues vars).exact_references x e he y hy
      · obtain ⟨name, hname, hpair⟩ := List.mem_flatMap.mp hy
        obtain ⟨z, -, heq⟩ := List.mem_map.mp hpair
        obtain rfl : name = x := congrArg Prod.fst heq
        exact absurd hname (value_clearValues he).2.1
    · obtain ⟨name, -, hpair⟩ := List.mem_flatMap.mp
        ((List.mem_append.mp hy).resolve_left (references_clearValues_of_mem hx))
      obtain ⟨z, hz, heq⟩ := List.mem_map.mp hpair
      obtain rfl : z = y := congrArg Prod.snd heq
      rcases hnew with ⟨rfl, rfl⟩ | ⟨-, rfl, -⟩
      · cases hz
      · exact hz
  acyclic := by
    obtain ⟨rank, hrank⟩ := h.acyclic
    -- The assigned variables come after all that the value references.
    let top := ((assignedReferences value).map rank).sum + 1
    refine ⟨fun x => if x ∈ vars then top else rank x, fun x e he y hy => ?_⟩
    rcases value_handleAssignment he with he | ⟨hx, ⟨-, rfl⟩ | ⟨hdedup, rfl, -, hnot⟩⟩
    · obtain ⟨hx, hvars⟩ := hS.not_mem_of_clearValues he
      simp only [if_neg hx, if_neg (hvars y hy)]
      exact hrank x e (value_clearValues he).1 y hy
    · cases hy
    · have hyvars : y ∉ vars := by
        rw [← List.mem_dedup, hdedup, List.mem_singleton]
        rintro rfl
        exact hnot hy
      simp only [if_pos hx, if_neg hyvars]
      exact Nat.lt_succ_of_le (List.le_sum_of_mem (List.mem_map_of_mem hy))

lemma consistent_init : init.Consistent := ⟨nofun, fun _ => 0, nofun⟩

/-- What an expression can be visited in: well-formed and consistent knowledge about variables in
scope. -/
structure Ready (dialect : Dialect) (Γ : Scope) (S : DataFlowAnalyzer) : Prop where
  wellFormed : S.WellFormed dialect Γ
  inScope : S.InScope Γ
  consistent : S.Consistent

lemma Ready.of_locals_eq {Γ' : Scope} (h : S.Ready dialect Γ) (hΓ : Γ'.locals = Γ.locals) :
    S.Ready dialect Γ' :=
  ⟨h.wellFormed.of_subset (by simp [hΓ]), h.inScope.of_locals (by simp [hΓ]), h.consistent⟩

lemma Ready.clearValues (h : S.Ready dialect Γ) (vars : List YulString) :
    (S.clearValues vars).Ready dialect Γ :=
  ⟨h.wellFormed.clearValues vars, h.inScope.of_scopes rfl, h.consistent.clearValues vars⟩

lemma Ready.declare (h : S.Ready dialect Γ) (vars : List YulString) :
    (S.declare vars).Ready dialect Γ :=
  ⟨h.wellFormed.declare vars,
    (h.inScope.of_declareIn rfl).of_locals (List.subset_append_right vars _),
    h.consistent.of_subset (fun _ _ => id) (List.Subset.refl _)⟩

lemma Ready.pushScope (h : S.Ready dialect Γ) : (S.pushScope false).Ready dialect Γ :=
  ⟨h.wellFormed.pushScope false, h.inScope.pushScope,
    h.consistent.of_subset (fun _ _ => id) (List.Subset.refl _)⟩

lemma Ready.enterFunction (S : DataFlowAnalyzer) (ps rs : List YulString)
    (fs : List (YulString × Nat × Nat)) (c : ForLoopComponent) :
    (S.enterFunction dialect ps rs).Ready dialect ⟨ps ++ rs, fs, c⟩ := by
  refine ⟨.enterFunction _ _ fun x hx => List.mem_append_right _ hx,
    InScope.enterFunction S ps rs fs c, ?_⟩
  have hfold (qs : List YulString) (S : DataFlowAnalyzer) (hS : S.Consistent)
      (hwf : S.WellFormed dialect ⟨qs ++ rs, fs, c⟩) :
      (rs.foldl (fun S r => (S.declare [r]).handleAssignment dialect [r] none) S).Consistent := by
    induction rs generalizing S qs with
    | nil => exact hS
    | cons r rs ih =>
      have hS' : (S.declare [r]).Consistent :=
        hS.of_subset (fun _ _ => id) (List.Subset.refl _)
      have hwf' := hwf.declare [r]
      refine ih (qs ++ [r]) _ (hS'.handleAssignment hwf' [r] none) ?_
      refine (hwf'.handleAssignment ⟨qs, fs, c⟩ ?_ rfl ?_).of_subset ?_
      · simp
      · simp
      · simp
  exact hfold [] _ ⟨nofun, fun _ => 0, nofun⟩ (fun _ _ h => nomatch h)

end

end DataFlowAnalyzer

/-! ### The analysis succeeds -/

/-- The references of code can be counted one part after the other. -/
structure CountsReferences {ξ : Type} [AddCommMonoid ξ] (φ : List YulString → ξ) : Prop where
  nil : φ [] = 0
  append : ∀ xs ys, φ (xs ++ ys) = φ xs + φ ys

/-- Visiting an expression succeeds. If the state of the visits counts the references of the
expression and `r` others, it counts those of the new expression and the others afterwards. -/
def TotalVisit {ξ : Type} [AddCommMonoid ξ] (dialect : Dialect) (φ : List YulString → ξ)
    (visit : DataFlowAnalyzer → ξ → Expression → Option (Expression × ξ)) : Prop :=
  ∀ (Γ : Scope) S e t r, S.Ready dialect Γ → e.valid dialect Γ = true → t = φ e.references + r →
    ∃ e' t', visit S t e = some (e', t') ∧ t' = φ e'.references + r

section

variable {ξ : Type} [AddCommMonoid ξ] {φ : List YulString → ξ} {dialect : Dialect}
  {visit : DataFlowAnalyzer → ξ → Expression → Option (Expression × ξ)}

lemma DataFlowAnalyzer.Ready.of_step {Γ : Scope} {ds declarations assignments : List YulString}
    {S S' : DataFlowAnalyzer} (h : S.Ready dialect Γ)
    (hstep : AnalysisStep dialect Γ ds declarations assignments S S') (hS' : S'.Consistent) :
    S'.Ready dialect (Γ.declare ds) :=
  ⟨hstep.wellFormed, h.inScope.of_declareIn hstep.scopes, hS'⟩

lemma count_swap {a b r t : ξ} (ht : t = a + (b + r)) : t = b + (a + r) := by
  rw [ht, add_left_comm]

lemma CountsReferences.split (hφ : CountsReferences φ) {xs ys : List YulString} {r t : ξ} :
    t = φ (xs ++ ys) + r ↔ t = φ xs + (φ ys + r) := by
  rw [hφ.append, add_assoc]

mutual

lemma Statement.analyze_total (hφ : CountsReferences φ) (hv : VisitValid dialect visit)
    (htotal : TotalVisit dialect φ visit) (s : Statement) {Γ : Scope} {S : DataFlowAnalyzer}
    {t r : ξ} (h : S.Ready dialect Γ) (hvalid : s.valid dialect Γ)
    (hloops : s.loopsAnalyzable) (ht : t = φ s.references + r) :
    ∃ s' S' t', s.analyze visit dialect S t = some (s', S', t') ∧ t' = φ s'.references + r ∧
      S'.Consistent := by
  match s with
  | .expressionStatement e =>
    rw [valid_expression, and_eq_true] at hvalid
    obtain ⟨e', t', he, ht'⟩ := htotal Γ S e t r h hvalid.1 ht
    exact ⟨.expressionStatement e', S, t', Option.bind_eq_some_iff.mpr ⟨_, he, rfl⟩, ht',
      h.consistent⟩
  | .assignment xs e =>
    simp only [valid_assignment, and_eq_true] at hvalid
    obtain ⟨e', t', he, ht'⟩ := htotal Γ S e t (φ xs + r) h hvalid.1.2 (count_swap (hφ.split.mp ht))
    exact ⟨.assignment xs e', _, t', Option.bind_eq_some_iff.mpr ⟨_, he, rfl⟩,
      hφ.split.mpr (count_swap ht'), h.consistent.handleAssignment h.wellFormed xs (some e')⟩
  | .variableDeclaration xs none =>
    have h' := h.declare (xs.map (·.name))
    exact ⟨_, _, t, rfl, ht, h'.consistent.handleAssignment h'.wellFormed _ none⟩
  | .variableDeclaration xs (some e) =>
    simp only [valid_declaration, valueValid, and_eq_true] at hvalid
    have h' := h.declare (xs.map (·.name))
    obtain ⟨e', t', he, ht'⟩ := htotal Γ _ e t r h' hvalid.2.1 ht
    exact ⟨.variableDeclaration xs (some e'), _, t', Option.bind_eq_some_iff.mpr ⟨_, he, rfl⟩,
      ht', h'.consistent.handleAssignment h'.wellFormed (xs.map (·.name)) (some e')⟩
  | .functionDefinition f ps rs body =>
    simp only [valid_function, and_eq_true] at hvalid
    have h' : Ready dialect ⟨ps.map (·.name) ++ rs.map (·.name), Γ.functions, .none⟩
        (S.enterFunction dialect (ps.map (·.name)) (rs.map (·.name))) := .enterFunction S _ _ _ _
    obtain ⟨body', S', t', hbody, ht', -⟩ := analyzeStatements_total hφ hv htotal body
      (h'.pushScope.of_locals_eq (by simp)) hvalid.2 hloops ht
    exact ⟨.functionDefinition f ps rs body', S, t',
      Option.bind_eq_some_iff.mpr ⟨_, hbody, rfl⟩, ht', h.consistent⟩
  | .if c body =>
    simp only [valid_if, and_eq_true] at hvalid
    obtain ⟨⟨hvc, -⟩, hvbody⟩ := hvalid
    obtain ⟨c', t₁, hc, ht₁⟩ := htotal Γ S c t _ h hvc (hφ.split.mp ht)
    obtain ⟨body', S', t', hbody, ht', hS'⟩ := analyzeStatements_total hφ hv htotal body
      (h.pushScope.of_locals_eq (by simp)) hvbody hloops (count_swap ht₁)
    obtain ⟨hstep, -⟩ := analyzeStatements_step hv body hbody hvbody
      (h.wellFormed.enterBlock body)
    exact ⟨.if c' body', _, t', Option.bind_eq_some_iff.mpr ⟨_, hc,
      Option.bind_eq_some_iff.mpr ⟨_, hbody, rfl⟩⟩, hφ.split.mpr (count_swap ht'),
      (hS'.popScope hstep.scopes).clearValues _⟩
  | .switch e cases =>
    simp only [valid_switch, and_eq_true] at hvalid
    obtain ⟨⟨hve, -⟩, hvcs⟩ := hvalid
    obtain ⟨e', t₁, he, ht₁⟩ := htotal Γ S e t _ h hve (hφ.split.mp ht)
    obtain ⟨cs', S', t', hcs, ht', hS'⟩ := analyzeCases_total hφ hv htotal cases h hvcs hloops
      (count_swap ht₁)
    exact ⟨.switch e' cs', _, t', Option.bind_eq_some_iff.mpr ⟨_, he,
      Option.bind_eq_some_iff.mpr ⟨_, hcs, rfl⟩⟩, hφ.split.mpr (count_swap ht'), hS'.clearValues _⟩
  | .forLoop (_ :: _) c post body => cases hloops
  | .forLoop [] c post body =>
    simp only [valid_forLoop_nil, and_eq_true] at hvalid
    obtain ⟨⟨⟨hvc, -⟩, hvpost⟩, hvbody⟩ := hvalid
    simp only [loopsAnalyzable_forLoop, and_eq_true] at hloops
    obtain ⟨⟨⟨-, hsince⟩, hlbody⟩, hlpost⟩ := hloops
    obtain ⟨since, hsince⟩ := Option.isSome_iff_exists.mp hsince
    have h₀ := h.clearValues (assignmentsOfStatements body ++ assignmentsOfStatements post)
    have ht : t = φ (c.references ++ referencesOfStatements body) +
      (φ (referencesOfStatements post) + r) := hφ.split.mp ht
    obtain ⟨c', t₁, hc, ht₁⟩ := htotal Γ _ c t _ h₀ hvc (hφ.split.mp ht)
    obtain ⟨body', S₁, t₂, hbody, ht₂, hS₁⟩ := analyzeStatements_total hφ hv htotal body
      (h₀.pushScope.of_locals_eq (by simp)) hvbody hlbody (count_swap ht₁)
    obtain ⟨hstep₁, -⟩ := analyzeStatements_step hv body hbody hvbody
      ((h₀.wellFormed.enterBlock body).of_subset (by simp))
    have h₁ : (S₁.popScope.clearValues since).Ready dialect Γ :=
      (h₀.of_step (hstep₁.block (by simp)) (hS₁.popScope hstep₁.scopes)).clearValues since
    have ht₂ : t₂ = φ (c'.references ++ referencesOfStatements body') +
      (φ (referencesOfStatements post) + r) := hφ.split.mpr (count_swap ht₂)
    obtain ⟨post', S₂, t₃, hpost, ht₃, hS₂⟩ := analyzeStatements_total hφ hv htotal post
      (h₁.pushScope.of_locals_eq (by simp)) hvpost hlpost (count_swap ht₂)
    obtain ⟨hstep₂, -⟩ := analyzeStatements_step hv post hpost hvpost
      ((h₁.wellFormed.enterBlock post).of_subset (by simp))
    exact ⟨.forLoop [] c' post' body', _, t₃, Option.bind_eq_some_iff.mpr ⟨_, hsince,
      Option.bind_eq_some_iff.mpr ⟨_, hc, Option.bind_eq_some_iff.mpr ⟨_, hbody,
      Option.bind_eq_some_iff.mpr ⟨_, hpost, rfl⟩⟩⟩⟩, hφ.split.mpr (count_swap ht₃),
      (hS₂.popScope hstep₂.scopes).clearValues _⟩
  | .break => exact ⟨.break, S, t, rfl, ht, h.consistent⟩
  | .continue => exact ⟨.continue, S, t, rfl, ht, h.consistent⟩
  | .block ss =>
    obtain ⟨ss', S', t', hss, ht', hS'⟩ := analyzeStatements_total hφ hv htotal ss
      (h.pushScope.of_locals_eq (by simp)) hvalid hloops ht
    obtain ⟨hstep, -⟩ := analyzeStatements_step hv ss hss hvalid (h.wellFormed.enterBlock ss)
    exact ⟨.block ss', S'.popScope, t', Option.bind_eq_some_iff.mpr ⟨_, hss, rfl⟩, ht',
      hS'.popScope hstep.scopes⟩

lemma analyzeStatements_total (hφ : CountsReferences φ) (hv : VisitValid dialect visit)
    (htotal : TotalVisit dialect φ visit) (ss : List Statement) {Γ : Scope}
    {S : DataFlowAnalyzer} {t r : ξ} (h : S.Ready dialect Γ)
    (hvalid : statementsValid dialect Γ ss)
    (hloops : loopsAnalyzableOfStatements ss)
    (ht : t = φ (referencesOfStatements ss) + r) :
    ∃ ss' S' t', analyzeStatements visit dialect S t ss = some (ss', S', t') ∧
      t' = φ (referencesOfStatements ss') + r ∧ S'.Consistent := by
  match ss with
  | [] => exact ⟨[], S, t, rfl, ht, h.consistent⟩
  | s :: ss =>
    rw [statementsValid, and_eq_true] at hvalid
    rw [loopsAnalyzableOfStatements, and_eq_true] at hloops
    obtain ⟨s', S₁, t₁, hs, ht₁, hS₁⟩ := Statement.analyze_total hφ hv htotal s h hvalid.1
      hloops.1 (hφ.split.mp ht)
    obtain ⟨hstep, -⟩ := analyze_step hv s hs hvalid.1 h.wellFormed
    obtain ⟨ss', S₂, t₂, hss, ht₂, hS₂⟩ := analyzeStatements_total hφ hv htotal ss
      (h.of_step hstep hS₁) hvalid.2 hloops.2 (count_swap ht₁)
    exact ⟨s' :: ss', S₂, t₂, Option.bind_eq_some_iff.mpr ⟨_, hs,
      Option.bind_eq_some_iff.mpr ⟨_, hss, rfl⟩⟩, hφ.split.mpr (count_swap ht₂), hS₂⟩

lemma analyzeCases_total (hφ : CountsReferences φ) (hv : VisitValid dialect visit)
    (htotal : TotalVisit dialect φ visit) (cs : List Case) {Γ : Scope} {S : DataFlowAnalyzer}
    {t r : ξ} (h : S.Ready dialect Γ) (hvalid : casesValid dialect Γ cs)
    (hloops : loopsAnalyzableOfCases cs) (ht : t = φ (referencesOfCases cs) + r) :
    ∃ cs' S' t', analyzeCases visit dialect S t cs = some (cs', S', t') ∧
      t' = φ (referencesOfCases cs') + r ∧ S'.Consistent := by
  match cs with
  | [] => exact ⟨[], S, t, rfl, ht, h.consistent⟩
  | .mk value body :: cs =>
    simp only [casesValid, and_eq_true] at hvalid
    obtain ⟨⟨-, hvbody⟩, hvcs⟩ := hvalid
    rw [loopsAnalyzableOfCases, and_eq_true] at hloops
    obtain ⟨body', S₁, t₁, hbody, ht₁, hS₁⟩ := analyzeStatements_total hφ hv htotal body
      (h.pushScope.of_locals_eq (by simp)) hvbody hloops.1 (hφ.split.mp ht)
    obtain ⟨hstep, -⟩ := analyzeStatements_step hv body hbody hvbody
      (h.wellFormed.enterBlock body)
    have h₁ := (h.of_step (hstep.block (by simp)) (hS₁.popScope hstep.scopes)).clearValues
      (assignmentsOfStatements body')
    obtain ⟨cs', S₂, t₂, hcs, ht₂, hS₂⟩ := analyzeCases_total hφ hv htotal cs h₁ hvcs hloops.2
      (count_swap ht₁)
    exact ⟨.mk value body' :: cs', S₂, t₂, Option.bind_eq_some_iff.mpr ⟨_, hbody,
      Option.bind_eq_some_iff.mpr ⟨_, hcs, rfl⟩⟩, hφ.split.mpr (count_swap ht₂), hS₂⟩

end

end

lemma ready_init (dialect : Dialect) (ss : Block) :
    (init.pushScope false).Ready dialect (Scope.empty.register ss) where
  wellFormed _ _ h := nomatch h
  inScope := ⟨List.cons_ne_nil _ _, fun x hx => by simp [Scope.empty] at hx⟩
  consistent := consistent_init.of_subset (fun _ _ => id) (List.Subset.refl _)

/-! ### The code during the analysis -/

section

variable {ξ : Type} (visit : DataFlowAnalyzer → ξ → Expression → Option (Expression × ξ))
  (dialect : Dialect)

mutual

/-- At some time during the analysis of the statement, between the visits of two expressions, it
has become the second one and the visits have the state that comes last. -/
inductive Statement.AnalysedPartly : DataFlowAnalyzer → ξ → Statement → Statement → ξ → Prop where
  | start {S t s} : Statement.AnalysedPartly S t s s t
  | finish {S t s s' S' t'} (h : s.analyze visit dialect S t = some (s', S', t')) :
      Statement.AnalysedPartly S t s s' t'
  | functionBody {S t f ps rs body body' t'}
      (h : StatementsAnalysedPartly
        ((S.enterFunction dialect (ps.map (·.name)) (rs.map (·.name))).pushScope false) t body
        body' t') :
      Statement.AnalysedPartly S t (.functionDefinition f ps rs body)
        (.functionDefinition f ps rs body') t'
  | ifBody {S t c c' t₁ body body' t'} (hc : visit S t c = some (c', t₁))
      (h : StatementsAnalysedPartly (S.pushScope false) t₁ body body' t') :
      Statement.AnalysedPartly S t (.if c body) (.if c' body') t'
  | switchCases {S t e e' t₁ cs cs' t'} (he : visit S t e = some (e', t₁))
      (h : CasesAnalysedPartly S t₁ cs cs' t') :
      Statement.AnalysedPartly S t (.switch e cs) (.switch e' cs') t'
  | loopBody {S t c c' t₁ post body body' t'}
      (hc : visit (S.clearValues (assignmentsOfStatements body ++ assignmentsOfStatements post)) t
        c = some (c', t₁))
      (h : StatementsAnalysedPartly ((S.clearValues
        (assignmentsOfStatements body ++ assignmentsOfStatements post)).pushScope false) t₁ body
        body' t') :
      Statement.AnalysedPartly S t (.forLoop [] c post body) (.forLoop [] c' post body') t'
  | loopPost {S t c c' t₁ post body body' S₁ t₂ since post' t'}
      (hsince : assignmentsSinceContinue body = some since)
      (hc : visit (S.clearValues (assignmentsOfStatements body ++ assignmentsOfStatements post)) t
        c = some (c', t₁))
      (hbody : analyzeStatements visit dialect ((S.clearValues
        (assignmentsOfStatements body ++ assignmentsOfStatements post)).pushScope false) t₁ body =
          some (body', S₁, t₂))
      (h : StatementsAnalysedPartly ((S₁.popScope.clearValues since).pushScope false) t₂ post
        post' t') :
      Statement.AnalysedPartly S t (.forLoop [] c post body) (.forLoop [] c' post' body') t'
  | block {S t ss ss' t'} (h : StatementsAnalysedPartly (S.pushScope false) t ss ss' t') :
      Statement.AnalysedPartly S t (.block ss) (.block ss') t'

inductive StatementsAnalysedPartly :
    DataFlowAnalyzer → ξ → List Statement → List Statement → ξ → Prop where
  | nil {S t} : StatementsAnalysedPartly S t [] [] t
  | head {S t s ss s' t'} (h : Statement.AnalysedPartly S t s s' t') :
      StatementsAnalysedPartly S t (s :: ss) (s' :: ss) t'
  | tail {S t s ss s' S₁ t₁ ss' t'} (hs : s.analyze visit dialect S t = some (s', S₁, t₁))
      (h : StatementsAnalysedPartly S₁ t₁ ss ss' t') :
      StatementsAnalysedPartly S t (s :: ss) (s' :: ss') t'

inductive CasesAnalysedPartly : DataFlowAnalyzer → ξ → List Case → List Case → ξ → Prop where
  | nil {S t} : CasesAnalysedPartly S t [] [] t
  | head {S t value body cs body' t'}
      (h : StatementsAnalysedPartly (S.pushScope false) t body body' t') :
      CasesAnalysedPartly S t (.mk value body :: cs) (.mk value body' :: cs) t'
  | tail {S t value body cs body' S₁ t₁ cs' t'}
      (hbody : analyzeStatements visit dialect (S.pushScope false) t body = some (body', S₁, t₁))
      (h : CasesAnalysedPartly (S₁.popScope.clearValues (assignmentsOfStatements body')) t₁ cs
        cs' t') :
      CasesAnalysedPartly S t (.mk value body :: cs) (.mk value body' :: cs') t'

end

end

section

variable {ξ : Type} [AddCommMonoid ξ] {φ : List YulString → ξ} {dialect : Dialect}
  {visit : DataFlowAnalyzer → ξ → Expression → Option (Expression × ξ)}

lemma TotalVisit.count (htotal : TotalVisit dialect φ visit) {Γ : Scope} {S : DataFlowAnalyzer}
    {e e' : Expression} {t t' r : ξ} (h : visit S t e = some (e', t')) (hS : S.Ready dialect Γ)
    (hvalid : e.valid dialect Γ) (ht : t = φ e.references + r) :
    t' = φ e'.references + r := by
  obtain ⟨e₁, t₁, he, ht₁⟩ := htotal Γ S e t r hS hvalid ht
  cases h.symm.trans he
  exact ht₁

lemma analyze_count (hφ : CountsReferences φ) (hv : VisitValid dialect visit)
    (htotal : TotalVisit dialect φ visit) {ss ss' : List Statement} {Γ : Scope}
    {S S' : DataFlowAnalyzer} {t t' r : ξ}
    (h : analyzeStatements visit dialect S t ss = some (ss', S', t')) (hS : S.Ready dialect Γ)
    (hvalid : statementsValid dialect Γ ss)
    (hloops : loopsAnalyzableOfStatements ss)
    (ht : t = φ (referencesOfStatements ss) + r) :
    t' = φ (referencesOfStatements ss') + r ∧
      S'.Ready dialect (Γ.declare (declaresOfStatements ss)) := by
  obtain ⟨ss₁, S₁, t₁, hss, ht₁, hS₁⟩ :=
    analyzeStatements_total hφ hv htotal ss hS hvalid hloops ht
  cases h.symm.trans hss
  exact ⟨ht₁, hS.of_step (analyzeStatements_step hv ss h hvalid hS.wellFormed).1 hS₁⟩

lemma analyzeBlock_count (hφ : CountsReferences φ) (hv : VisitValid dialect visit)
    (htotal : TotalVisit dialect φ visit) {ss ss' : List Statement} {Γ Γ' : Scope}
    {S S' : DataFlowAnalyzer} {t t' r : ξ}
    (h : analyzeStatements visit dialect (S.pushScope false) t ss = some (ss', S', t'))
    (hS : S.Ready dialect Γ) (hvalid : statementsValid dialect (Γ'.register ss) ss)
    (hΓ : Γ'.locals = Γ.locals) (hloops : loopsAnalyzableOfStatements ss)
    (ht : t = φ (referencesOfStatements ss) + r) :
    t' = φ (referencesOfStatements ss') + r ∧ S'.popScope.Ready dialect Γ := by
  have hS' : (S.pushScope false).Ready dialect (Γ'.register ss) :=
    hS.pushScope.of_locals_eq (by simp [hΓ])
  obtain ⟨ht', hready⟩ := analyze_count hφ hv htotal h hS' hvalid hloops ht
  have hstep := (analyzeStatements_step hv ss h hvalid hS'.wellFormed).1
  exact ⟨ht', hS.of_step (hstep.block (by simp [hΓ])) (hready.consistent.popScope hstep.scopes)⟩

mutual

lemma Statement.AnalysedPartly.count (hφ : CountsReferences φ) (hv : VisitValid dialect visit)
    (htotal : TotalVisit dialect φ visit) {s s' : Statement} {S : DataFlowAnalyzer} {t t' : ξ}
    (h : Statement.AnalysedPartly visit dialect S t s s' t') {Γ : Scope} {r : ξ}
    (hS : S.Ready dialect Γ) (hvalid : s.valid dialect Γ)
    (hloops : s.loopsAnalyzable) (ht : t = φ s.references + r) :
    t' = φ s'.references + r := by
  match h with
  | .start => exact ht
  | .finish h =>
    obtain ⟨s₁, S₁, t₁, hs, ht₁, -⟩ := s.analyze_total hφ hv htotal hS hvalid hloops ht
    cases h.symm.trans hs
    exact ht₁
  | .functionBody h =>
    simp only [valid_function, and_eq_true] at hvalid
    exact h.count hφ hv htotal
      ((Ready.enterFunction S _ _ Γ.functions .none).pushScope.of_locals_eq (by simp)) hvalid.2 hloops
      ht
  | .ifBody hc h =>
    simp only [valid_if, and_eq_true] at hvalid
    have ht₁ := htotal.count hc hS hvalid.1.1 (hφ.split.mp ht)
    exact hφ.split.mpr (count_swap (h.count hφ hv htotal (hS.pushScope.of_locals_eq (by simp))
      hvalid.2 hloops (count_swap ht₁)))
  | .switchCases he h =>
    simp only [valid_switch, and_eq_true] at hvalid
    have ht₁ := htotal.count he hS hvalid.1.1 (hφ.split.mp ht)
    exact hφ.split.mpr (count_swap (h.count hφ hv htotal hS hvalid.2 hloops (count_swap ht₁)))
  | .loopBody hc h =>
    simp only [valid_forLoop_nil, and_eq_true] at hvalid
    obtain ⟨⟨⟨hvc, -⟩, hvpost⟩, hvbody⟩ := hvalid
    simp only [loopsAnalyzable_forLoop, and_eq_true] at hloops
    have ht₁ := htotal.count hc (hS.clearValues _) hvc (hφ.split.mp (hφ.split.mp ht))
    have ht₂ := h.count hφ hv htotal ((hS.clearValues _).pushScope.of_locals_eq (by simp)) hvbody
      hloops.1.2 (count_swap ht₁)
    exact hφ.split.mpr (hφ.split.mpr (count_swap ht₂))
  | .loopPost hsince hc hbody h =>
    simp only [valid_forLoop_nil, and_eq_true] at hvalid
    obtain ⟨⟨⟨hvc, -⟩, hvpost⟩, hvbody⟩ := hvalid
    simp only [loopsAnalyzable_forLoop, and_eq_true] at hloops
    have ht₁ := htotal.count hc (hS.clearValues _) hvc (hφ.split.mp (hφ.split.mp ht))
    obtain ⟨ht₂, hready⟩ := analyzeBlock_count hφ hv htotal hbody (hS.clearValues _) hvbody rfl
      hloops.1.2 (count_swap ht₁)
    have ht₃ := h.count hφ hv htotal ((hready.clearValues _).pushScope.of_locals_eq (by simp))
      hvpost hloops.2 (count_swap (hφ.split.mpr (count_swap ht₂)))
    exact hφ.split.mpr (count_swap ht₃)
  | .block h =>
    exact h.count hφ hv htotal (hS.pushScope.of_locals_eq (by simp)) hvalid hloops ht

lemma StatementsAnalysedPartly.count (hφ : CountsReferences φ) (hv : VisitValid dialect visit)
    (htotal : TotalVisit dialect φ visit) {ss ss' : List Statement} {S : DataFlowAnalyzer}
    {t t' : ξ} (h : StatementsAnalysedPartly visit dialect S t ss ss' t') {Γ : Scope} {r : ξ}
    (hS : S.Ready dialect Γ) (hvalid : statementsValid dialect Γ ss)
    (hloops : loopsAnalyzableOfStatements ss)
    (ht : t = φ (referencesOfStatements ss) + r) : t' = φ (referencesOfStatements ss') + r := by
  match h with
  | .nil => exact ht
  | .head h =>
    rw [statementsValid, and_eq_true] at hvalid
    rw [loopsAnalyzableOfStatements, and_eq_true] at hloops
    exact hφ.split.mpr (h.count hφ hv htotal hS hvalid.1 hloops.1 (hφ.split.mp ht))
  | .tail (s := s) hs h =>
    rw [statementsValid, and_eq_true] at hvalid
    rw [loopsAnalyzableOfStatements, and_eq_true] at hloops
    obtain ⟨s₁, S₁, t₁, hs₁, ht₁, hS₁⟩ :=
      s.analyze_total hφ hv htotal hS hvalid.1 hloops.1 (hφ.split.mp ht)
    cases hs.symm.trans hs₁
    have hstep := (analyze_step hv s hs hvalid.1 hS.wellFormed).1
    exact hφ.split.mpr (count_swap (h.count hφ hv htotal (hS.of_step hstep hS₁) hvalid.2
      hloops.2 (count_swap ht₁)))

lemma CasesAnalysedPartly.count (hφ : CountsReferences φ) (hv : VisitValid dialect visit)
    (htotal : TotalVisit dialect φ visit) {cs cs' : List Case} {S : DataFlowAnalyzer}
    {t t' : ξ} (h : CasesAnalysedPartly visit dialect S t cs cs' t') {Γ : Scope} {r : ξ}
    (hS : S.Ready dialect Γ) (hvalid : casesValid dialect Γ cs)
    (hloops : loopsAnalyzableOfCases cs) (ht : t = φ (referencesOfCases cs) + r) :
    t' = φ (referencesOfCases cs') + r := by
  match h with
  | .nil => exact ht
  | .head h =>
    simp only [casesValid, and_eq_true] at hvalid
    rw [loopsAnalyzableOfCases, and_eq_true] at hloops
    exact hφ.split.mpr (h.count hφ hv htotal (hS.pushScope.of_locals_eq (by simp)) hvalid.1.2
      hloops.1 (hφ.split.mp ht))
  | .tail hbody h =>
    simp only [casesValid, and_eq_true] at hvalid
    rw [loopsAnalyzableOfCases, and_eq_true] at hloops
    obtain ⟨ht₁, hready⟩ := analyzeBlock_count hφ hv htotal hbody hS hvalid.1.2 rfl hloops.1
      (hφ.split.mp ht)
    exact hφ.split.mpr (count_swap (h.count hφ hv htotal (hready.clearValues _) hvalid.2
      hloops.2 (count_swap ht₁)))

end

end

section

variable {ξ : Type} {visit visit' : DataFlowAnalyzer → ξ → Expression → Option (Expression × ξ)}
  {dialect : Dialect}

mutual

/-- The analysis gives the same result with visits that agree where the first ones succeed. -/
lemma Statement.analyze_mono (hle : ∀ S t e r, visit S t e = some r → visit' S t e = some r)
    (s : Statement) {s' : Statement} {S S' : DataFlowAnalyzer} {t t' : ξ}
    (h : s.analyze visit dialect S t = some (s', S', t')) :
    s.analyze visit' dialect S t = some (s', S', t') := by
  match s with
  | .expressionStatement e =>
    obtain ⟨e', he, rfl, rfl⟩ := analyze_expression h
    exact Option.bind_eq_some_iff.mpr ⟨_, hle _ _ _ _ he, rfl⟩
  | .assignment xs e =>
    obtain ⟨e', he, rfl, rfl⟩ := analyze_assignment h
    exact Option.bind_eq_some_iff.mpr ⟨_, hle _ _ _ _ he, rfl⟩
  | .variableDeclaration xs none => exact h
  | .variableDeclaration xs (some e) =>
    obtain ⟨r, he, heq⟩ := Option.bind_eq_some_iff.mp h
    exact Option.bind_eq_some_iff.mpr ⟨r, hle _ _ _ _ he, heq⟩
  | .functionDefinition f ps rs body =>
    obtain ⟨body', S₁, hbody, rfl, rfl⟩ := analyze_function h
    exact Option.bind_eq_some_iff.mpr ⟨_, analyzeStatements_mono hle body hbody, rfl⟩
  | .if c body =>
    obtain ⟨c', t₁, body', S₁, hc, hbody, rfl, rfl⟩ := analyze_if h
    exact Option.bind_eq_some_iff.mpr ⟨_, hle _ _ _ _ hc,
      Option.bind_eq_some_iff.mpr ⟨_, analyzeStatements_mono hle body hbody, rfl⟩⟩
  | .switch e cases =>
    obtain ⟨e', t₁, cs', S₁, he, hcs, rfl, rfl⟩ := analyze_switch h
    exact Option.bind_eq_some_iff.mpr ⟨_, hle _ _ _ _ he,
      Option.bind_eq_some_iff.mpr ⟨_, analyzeCases_mono hle cases hcs, rfl⟩⟩
  | .forLoop pre c post body =>
    obtain ⟨since, c', t₁, body', S₁, t₂, post', S₂, rfl, hsince, hc, hbody, hpost, rfl, rfl⟩ :=
      analyze_forLoop h
    exact Option.bind_eq_some_iff.mpr ⟨_, hsince, Option.bind_eq_some_iff.mpr
      ⟨_, hle _ _ _ _ hc, Option.bind_eq_some_iff.mpr ⟨_, analyzeStatements_mono hle body hbody,
      Option.bind_eq_some_iff.mpr ⟨_, analyzeStatements_mono hle post hpost, rfl⟩⟩⟩⟩
  | .break | .continue => exact h
  | .block ss =>
    obtain ⟨ss', S₁, hss, rfl, rfl⟩ := analyze_block h
    exact Option.bind_eq_some_iff.mpr ⟨_, analyzeStatements_mono hle ss hss, rfl⟩

lemma analyzeStatements_mono (hle : ∀ S t e r, visit S t e = some r → visit' S t e = some r)
    (ss : List Statement) {ss' : List Statement} {S S' : DataFlowAnalyzer} {t t' : ξ}
    (h : analyzeStatements visit dialect S t ss = some (ss', S', t')) :
    analyzeStatements visit' dialect S t ss = some (ss', S', t') := by
  match ss with
  | [] => exact h
  | s :: ss =>
    obtain ⟨s₁, S₁, t₁, ss₁, hs, hss, rfl⟩ := analyze_cons h
    exact Option.bind_eq_some_iff.mpr ⟨_, Statement.analyze_mono hle s hs,
      Option.bind_eq_some_iff.mpr ⟨_, analyzeStatements_mono hle ss hss, rfl⟩⟩

lemma analyzeCases_mono (hle : ∀ S t e r, visit S t e = some r → visit' S t e = some r)
    (cs : List Case) {cs' : List Case} {S S' : DataFlowAnalyzer} {t t' : ξ}
    (h : analyzeCases visit dialect S t cs = some (cs', S', t')) :
    analyzeCases visit' dialect S t cs = some (cs', S', t') := by
  match cs with
  | [] => exact h
  | .mk value body :: cs =>
    obtain ⟨body', S₁, t₁, cs₁, hbody, hcs, rfl⟩ := analyzeCases_cons h
    exact Option.bind_eq_some_iff.mpr ⟨_, analyzeStatements_mono hle body hbody,
      Option.bind_eq_some_iff.mpr ⟨_, analyzeCases_mono hle cs hcs, rfl⟩⟩

end

end

end Yul
