import Polc.Yul.Optimiser.ExpressionJoiner.Properties

/-!
# The expression joiner keeps programs valid

A joined variable has no other reference, so it need not be visible any more.
-/

namespace Yul

open List Expression Scope
open Bool (and_eq_true)

namespace ExpressionJoiner

section

variable {references : YulString → Nat} {dialect : Dialect} {Γ Γ' : Scope}

/-! ### Expressions -/

lemma valid_of_mem_joined {joined : List Statement}
    (hvalid : statementsValid dialect Γ joined.reverse)
    (hjoined : ∀ x ∈ joined.flatMap (·.declares), x ∉ referencesOfStatements joined)
    {x t : YulString} {v : Expression}
    (hmem : Statement.variableDeclaration [⟨x, t⟩] (some v) ∈ joined) :
    v.valid dialect Γ ∧ v.returns dialect Γ = 1 := by
  obtain ⟨earlier, later, hsplit⟩ := append_of_mem (mem_reverse.mpr hmem)
  rw [hsplit, statementsValid_append_iff, statementsValid, and_eq_true] at hvalid
  have hdeclaration := hvalid.2.1
  simp only [valid_declaration, valueValid, and_eq_true] at hdeclaration
  obtain ⟨-, hv, hreturns⟩ := hdeclaration
  have hvisible : ∀ y ∈ v.referencedVariables,
      y ∈ (Γ.declare (earlier.flatMap (·.declares))).locals → y ∈ Γ.locals := by
    intro y hy hlocals
    refine (mem_append.mp hlocals).resolve_left fun hearlier => hjoined y ?_ ?_
    · obtain ⟨s, hs, hys⟩ := mem_flatMap.mp hearlier
      refine mem_flatMap.mpr ⟨s, mem_reverse.mp ?_, hys⟩
      rw [hsplit]
      exact mem_append_left _ hs
    · exact mem_references hmem (v.referenced_subset_references hy)
  obtain ⟨hv', hreturns'⟩ := valid_of_visible (by exact fun _ _ h => h) v hv hvisible
  exact ⟨hv', hreturns'.trans (of_decide_eq_true hreturns)⟩

mutual

lemma Joins.valid {e e' : Expression} {joined : List Statement}
    (h : Joins references e e' joined)
    (hfunctions : Γ'.functions = Γ.functions)
    (he : e.valid dialect Γ) (hone : JoinedOnce joined e.references)
    (hlocals : ∀ x ∈ e.references, x ∈ Γ.locals → x ∉ joined.flatMap (·.declares) →
      x ∈ Γ'.locals)
    (hvalues : ∀ x t v, .variableDeclaration [⟨x, t⟩] (some v) ∈ joined →
      v.valid dialect Γ' ∧ v.returns dialect Γ' = 1) :
    e'.valid dialect Γ' ∧ e'.returns dialect Γ' = e.returns dialect Γ := by
  match h with
  | .refl e =>
    exact e.valid_of_visible (fun _ _ h => by rwa [hfunctions]) he fun x hx hmem =>
      hlocals x (e.referenced_subset_references hx) hmem not_mem_nil
  | .identifier hx => exact hvalues _ _ _ mem_cons_self
  | .functionalInstruction h =>
    rw [valid_instruction, and_eq_true] at he ⊢
    obtain ⟨hargs, hlength⟩ := h.valid hfunctions he.2 hone hlocals hvalues
    rw [hlength]
    exact ⟨⟨he.1, hargs⟩, rfl⟩
  | @Joins.functionCall _ f args args' joined h =>
    have hcall := valid_functionCall.symm.trans he
    rw [and_eq_true, and_eq_true] at hcall
    obtain ⟨hargs, hlength⟩ := h.valid hfunctions hcall.2 hone.functionCall
      (fun x hx => hlocals x (mem_cons_of_mem _ hx)) hvalues
    have hliteral : literalArgumentsValid dialect f args' = true := by
      by_cases hf : dialect.requiresLiterals f = true
      · rw [(h.eq_of_literals (exists_literal_of_valid hcall.1.2 hf)).1]
        exact hcall.1.2
      · exact literalArgumentsValid_of_not hf _
    rw [Expression.returns, Expression.returns, valid_functionCall,
      arity_congr hfunctions, hlength, and_eq_true, and_eq_true]
    exact ⟨⟨⟨hcall.1.1, hliteral⟩, hargs⟩, rfl⟩

lemma ArgumentsJoin.valid {es es' : List Expression} {joined : List Statement}
    (h : ArgumentsJoin references es es' joined)
    (hfunctions : Γ'.functions = Γ.functions)
    (hes : argumentsValid dialect Γ es) (hone : JoinedOnce joined (argumentsReferences es))
    (hlocals : ∀ x ∈ argumentsReferences es, x ∈ Γ.locals → x ∉ joined.flatMap (·.declares) →
      x ∈ Γ'.locals)
    (hvalues : ∀ x t v, .variableDeclaration [⟨x, t⟩] (some v) ∈ joined →
      v.valid dialect Γ' ∧ v.returns dialect Γ' = 1) :
    argumentsValid dialect Γ' es' ∧ es'.length = es.length := by
  match h with
  | .nil => exact ⟨rfl, rfl⟩
  | .visited hrest h h' =>
    simp only [argumentsValid, and_eq_true, decide_eq_true_eq] at hes ⊢
    obtain ⟨⟨hjoined, hjoined'⟩, hes', he'⟩ := hone.visited h h'
    simp only [argumentsReferences, mem_append, flatMap_append, not_or] at hlocals
    obtain ⟨hv, hreturns⟩ := h.valid hfunctions hes.1.2 hjoined
      (fun x hx hΓ hx' => hlocals x (.inl hx) hΓ ⟨hx', fun hmem => (he' x hmem).1 hx⟩)
      fun x t v hmem => hvalues x t v (mem_append_left _ hmem)
    obtain ⟨hvs, hlength⟩ := h'.valid hfunctions hes.1.1 hjoined'
      (fun x hx hΓ hx' => hlocals x (.inr hx) hΓ ⟨fun hmem => hes' x hmem hx, hx'⟩)
      fun x t v hmem => hvalues x t v (mem_append_right _ hmem)
    exact ⟨⟨⟨hvs, hv⟩, hreturns.trans hes.2⟩, congrArg (· + 1) hlength⟩
  | .later h =>
    simp only [argumentsValid, and_eq_true, decide_eq_true_eq] at hes ⊢
    obtain ⟨hjoined, he⟩ := hone.later h
    simp only [argumentsReferences, mem_append] at hlocals
    obtain ⟨hv, hreturns⟩ := valid_of_visible
      (fun _ _ h => by rwa [hfunctions]) _ hes.1.2 fun x hx hΓ =>
      have hx' := referenced_subset_references _ hx
      hlocals x (.inl hx') hΓ fun hmem => he x hmem hx'
    obtain ⟨hvs, hlength⟩ := h.valid hfunctions hes.1.1 hjoined
      (fun x hx => hlocals x (.inr hx)) hvalues
    exact ⟨⟨⟨hvs, hv⟩, hreturns.trans hes.2⟩, congrArg (· + 1) hlength⟩

end

/-! ### Visible variables -/

/-- In the second scope some variables of the first one are missing, but none of those to which the
code that comes refers. -/
structure Visible (references : YulString → Nat) (Γ Γ' : Scope) (refs : List YulString) :
    Prop where
  count : ∀ x, refs.count x ≤ references x
  visible : ∀ x ∈ Γ.locals, x ∈ refs → x ∈ Γ'.locals
  locals : Γ'.locals ⊆ Γ.locals
  functions : Γ'.functions = Γ.functions
  component : Γ'.component = Γ.component

namespace Visible

variable {refs rest : List YulString}

lemma refl (Γ : Scope) (h : ∀ x, refs.count x ≤ references x) : Visible references Γ Γ refs :=
  ⟨h, fun _ hx _ => hx, List.Subset.refl _, rfl, rfl⟩

lemma of_sublist (h : Visible references Γ Γ' refs) (hrest : ∀ x, rest.count x ≤ refs.count x) :
    Visible references Γ Γ' rest where
  count x := le_trans (hrest x) (h.count x)
  visible x hx hmem := by
    have hpos := count_pos_iff.mpr hmem
    exact h.visible x hx (count_pos_iff.mp (lt_of_lt_of_le hpos (hrest x)))
  locals := h.locals
  functions := h.functions
  component := h.component

lemma left (h : Visible references Γ Γ' (refs ++ rest)) : Visible references Γ Γ' refs :=
  h.of_sublist fun _ => (sublist_append_left _ _).count_le _

lemma right (h : Visible references Γ Γ' (refs ++ rest)) : Visible references Γ Γ' rest :=
  h.of_sublist fun _ => (sublist_append_right _ _).count_le _

lemma enter (h : Visible references Γ Γ' refs) (c : ForLoopComponent) :
    Visible references (Γ.enter c) (Γ'.enter c) refs :=
  ⟨h.count, h.visible, h.locals, h.functions, rfl⟩

lemma register (h : Visible references Γ Γ' refs) {ss ss' : Block}
    (hss : visibleFunctions ss' = visibleFunctions ss) :
    Visible references (Γ.register ss) (Γ'.register ss') refs := by
  rw [register_eq, register_eq, hss, h.functions]
  exact ⟨h.count, h.visible, h.locals, rfl, h.component⟩

lemma function (h : Visible references Γ Γ' refs) (xs : List YulString) :
    Visible references ⟨xs, Γ.functions, .none⟩ ⟨xs, Γ'.functions, .none⟩ refs :=
  ⟨h.count, fun _ hx _ => hx, List.Subset.refl _, h.functions, rfl⟩

lemma declare (h : Visible references Γ Γ' refs) (xs : List YulString) :
    Visible references (Γ.declare xs) (Γ'.declare xs) refs where
  count := h.count
  visible x hx hmem := by
    rw [locals_declare, mem_append] at hx ⊢
    exact hx.imp_right fun hx => h.visible x hx hmem
  locals := append_subset_append (List.Subset.refl _) h.locals
  functions := h.functions
  component := h.component

lemma congr {Γ₁ Γ₁' : Scope} (h : Visible references Γ Γ' refs)
    (hΓ : ∀ x, x ∈ Γ₁.locals ↔ x ∈ Γ.locals) (hΓ' : ∀ x, x ∈ Γ₁'.locals ↔ x ∈ Γ'.locals)
    (hfunctions : Γ₁'.functions = Γ₁.functions) (hcomponent : Γ₁'.component = Γ₁.component) :
    Visible references Γ₁ Γ₁' refs where
  count := h.count
  visible x hx hmem := (hΓ' x).mpr (h.visible x ((hΓ x).mp hx) hmem)
  locals x hx := (hΓ x).mpr (h.locals ((hΓ' x).mp hx))
  functions := hfunctions
  component := hcomponent

lemma leave (h : Visible references Γ Γ' refs) {c : ForLoopComponent} {xs ys : List YulString}
    (hinit : Visible references ((Γ.enter c).declare xs) ((Γ'.enter c).declare ys) rest) :
    Visible references (Γ.declare xs) (Γ'.declare ys) rest :=
  hinit.congr (fun _ => Iff.rfl) (fun _ => Iff.rfl) hinit.functions h.component

lemma valid {e : Expression} (h : Visible references Γ Γ' e.references)
    (he : e.valid dialect Γ) :
    e.valid dialect Γ' ∧ e.returns dialect Γ' = e.returns dialect Γ :=
  e.valid_of_visible (fun _ _ hf => by rwa [h.functions]) he fun x hx hΓ =>
    h.visible x hΓ (e.referenced_subset_references hx)

end Visible

/-- The joiner visits code with the references `refs` behind the statements `before`. -/
structure Joinable (references : YulString → Nat) (dialect : Dialect) (Γ Γ' : Scope)
    (before : List Statement) (refs : List YulString) : Prop where
  visible : Visible references Γ (Γ'.declare (before.flatMap (·.declares))) refs
  count : ∀ x, (referencesOfStatements before).count x + refs.count x ≤ references x
  valid : statementsValid dialect Γ' before.reverse = true

namespace Joinable

variable {before left joined : List Statement} {refs rest : List YulString}

lemma start (h : Visible references Γ Γ' refs) : Joinable references dialect Γ Γ' [] refs :=
  ⟨h, fun x => by simpa [referencesOfStatements] using h.count x, rfl⟩

lemma of_perm (h : Joinable references dialect Γ Γ' before refs) (hperm : refs.Perm rest) :
    Joinable references dialect Γ Γ' before rest where
  visible := h.visible.of_sublist fun x => (hperm.count_eq x).ge
  count x := by
    rw [← hperm.count_eq]
    exact h.count x
  valid := h.valid

lemma mem_left (h : Joinable references dialect Γ Γ' (joined ++ left) refs) {x : YulString}
    (hx : x ∈ Γ.locals) (hmem : x ∈ refs) (hjoined : x ∉ joined.flatMap (·.declares)) :
    x ∈ (Γ'.declare (left.flatMap (·.declares))).locals := by
  have hvisible := h.visible.visible x hx hmem
  rw [locals_declare, flatMap_append, append_assoc, mem_append] at hvisible
  exact hvisible.resolve_left hjoined

lemma taken (h : Joinable references dialect Γ Γ' (joined ++ left) (refs ++ rest))
    (hjoined : ∀ x ∈ joined.flatMap (·.declares), x ∈ refs ∧ references x = 1) :
    JoinedOnce joined refs ∧ (∀ x ∈ joined.flatMap (·.declares), x ∉ rest) ∧
      Visible references Γ (Γ'.declare (left.flatMap (·.declares))) rest := by
  have hcount := h.count
  simp only [references_append, count_append] at hcount
  have hrest (x : YulString) (hx : x ∈ joined.flatMap (·.declares)) : x ∉ rest := by
    have hle := hcount x
    have hpos := count_pos_iff.mpr (hjoined x hx).1
    rw [(hjoined x hx).2] at hle
    rw [← count_eq_zero]
    omega
  refine ⟨fun x hx => ?_, hrest, ⟨fun x => ?_, fun x hx hmem => ?_, ?_, ?_, ?_⟩⟩
  · have hle := hcount x
    rw [(hjoined x hx).2] at hle
    rw [count_append]
    omega
  · have hle := hcount x
    omega
  · exact h.mem_left hx (mem_append_right _ hmem) fun hmem' => hrest x hmem' hmem
  · refine List.Subset.trans ?_ h.visible.locals
    rw [locals_declare, locals_declare, flatMap_append, append_assoc]
    exact subset_append_right _ _
  · exact h.visible.functions
  · exact h.visible.component

lemma left_valid (h : Joinable references dialect Γ Γ' (joined ++ left) refs) :
    statementsValid dialect Γ' left.reverse ∧
      statementsValid dialect (Γ'.declare (left.flatMap (·.declares))) joined.reverse := by
  have hvalid := h.valid
  rw [reverse_append, statementsValid_append_iff] at hvalid
  refine ⟨hvalid.1, ?_⟩
  rw [← hvalid.2]
  refine statementsValid_congr (fun x => ?_) rfl rfl
  simp

/-- Neither the scope nor the code up to the next statement has a variable of a joined name. -/
lemma apart {s : Statement}
    (h : Joinable references dialect Γ Γ' (joined ++ left) (s.references ++ rest))
    (hvalid : s.valid dialect Γ) {x : YulString} (hx : x ∈ joined.flatMap (·.declares)) :
    x ∉ Γ'.locals ∧ x ∉ left.flatMap (·.declares) ∧ x ∉ s.declares := by
  have hnew : x ∉ (Γ'.declare (left.flatMap (·.declares))).locals := by
    intro hmem
    refine not_mem_declarationsOfStatements_of_valid hmem joined.reverse h.left_valid.2 ?_
    refine flatMap_declares_subset_declarations joined.reverse ?_
    simpa only [mem_flatMap, mem_reverse] using hx
  rw [locals_declare, mem_append, not_or] at hnew
  refine ⟨hnew.2, hnew.1, fun hmem => ?_⟩
  have hΓ : x ∈ Γ.locals := h.visible.locals (by
    rw [locals_declare, flatMap_append]
    exact mem_append_left _ (mem_append_left _ hx))
  exact not_mem_declarations_of_valid hΓ s hvalid (declares_subset_declarations s hmem)

end Joinable

lemma visit_valid {before : List Statement} {e : Expression} {rest : List YulString}
    (h : Joinable references dialect Γ Γ' before (e.references ++ rest))
    (he : e.valid dialect Γ) :
    (visit references before e).1.valid dialect
        (Γ'.declare ((visit references before e).2.flatMap (·.declares))) ∧
      (visit references before e).1.returns dialect
        (Γ'.declare ((visit references before e).2.flatMap (·.declares))) =
          e.returns dialect Γ ∧
      Visible references Γ (Γ'.declare ((visit references before e).2.flatMap (·.declares)))
        rest := by
  obtain ⟨joined, hbefore, hjoins⟩ := visit_joins references before e
  rw [hbefore] at h
  obtain ⟨hone, -, hvisible⟩ := h.taken hjoins.declared
  have hvalues (x t : YulString) (v : Expression) :=
    valid_of_mem_joined (x := x) (t := t) (v := v) h.left_valid.2
      (hone.not_mem fun x hx => (hjoins.declared x hx).1)
  obtain ⟨hvalid, hreturns⟩ := hjoins.valid hvisible.functions he hone
    (fun x hx hΓ hx' => h.mem_left hΓ (mem_append_left _ hx) hx') hvalues
  exact ⟨hvalid, hreturns, hvisible⟩

/-- The second function is what the joiner makes of the first one. -/
structure Joined (references : YulString → Nat) (dialect : Dialect) (d d' : FunctionDefinition) :
    Prop where
  parameters : d'.parameters = d.parameters
  returnVariables : d'.returnVariables = d.returnVariables
  count : ∀ x, (referencesOfStatements d.body).count x ≤ references x
  valid : ∃ Γ : Scope, Γ.locals = (d.parameters ++ d.returnVariables).map (·.name) ∧
    statementsValid dialect (Γ.register d.body) d.body = true
  body : d'.body = block references d.body

lemma definesRelated_statement {s : Statement} (before : List Statement)
    (hcount : ∀ x, s.references.count x ≤ references x) (hvalid : s.valid dialect Γ) :
    DefinesRelated (Joined references dialect) [s] [(statement references before s).1] := by
  cases s with
  | functionDefinition f ps rs body =>
    rw [valid_function, and_eq_true] at hvalid
    exact List.Forall₂.cons ⟨rfl, rfl, rfl, hcount, ⟨_, rfl, hvalid.2⟩, rfl⟩ .nil
  | _ => exact .nil

lemma definitions_replicate (n : Nat) :
    functionDefinitions (List.replicate n (.block [])) = [] := by
  induction n with
  | zero => rfl
  | succ n ih => exact ih

lemma definitions_reverse_advance (before : List Statement) (s : Statement) :
    functionDefinitions (advance before (statement references before s).2
        (statement references before s).1).reverse =
      functionDefinitions (before.reverse ++ [(statement references before s).1]) := by
  obtain ⟨joined, hbefore, hjoins⟩ := statement_joins references before s
  have hjoined : ∀ d ∈ joined.reverse, IsDeclaration d := fun d hd =>
    hjoins.isDeclaration d (mem_reverse.mp hd)
  have hnone := (declarations_of_isDeclaration hjoined).1
  have hsplit := congrArg (fun ss => functionDefinitions ss.reverse) hbefore
  simp only [reverse_append, definitions_append, hnone, append_nil] at hsplit
  rw [reverse_advance, definitions_append, definitions_append,
    definitions_append, definitions_replicate, hsplit, nil_append]

lemma definesRelated_statements (ss : List Statement) {before ts : List Statement} {Γ : Scope}
    (hbefore : DefinesRelated (Joined references dialect) ts before.reverse)
    (hcount : ∀ x, (referencesOfStatements ss).count x ≤ references x)
    (hvalid : statementsValid dialect Γ ss) :
    DefinesRelated (Joined references dialect) (ts ++ ss) (statements references before ss) := by
  induction ss generalizing before ts Γ with
  | nil =>
    rw [append_nil]
    exact hbefore
  | cons s ss ih =>
    rw [statementsValid, and_eq_true] at hvalid
    simp only [referencesOfStatements, count_append] at hcount
    have hs := definesRelated_statement before
      (fun x => le_trans (Nat.le_add_right _ _) (hcount x)) hvalid.1
    have hadvance : DefinesRelated (Joined references dialect) (ts ++ [s])
        (advance before (statement references before s).2
          (statement references before s).1).reverse := by
      rw [DefinesRelated, definitions_reverse_advance]
      exact hbefore.append hs
    have hss := ih hadvance (fun x => le_trans (Nat.le_add_left _ _) (hcount x)) hvalid.2
    rw [append_assoc] at hss
    exact hss

lemma definesRelated_block {ss : Block}
    (hcount : ∀ x, (referencesOfStatements ss).count x ≤ references x)
    (hvalid : statementsValid dialect Γ ss) :
    DefinesRelated (Joined references dialect) ss (block references ss) := by
  rw [DefinesRelated, block, definitions_removeEmptyBlocks]
  have hnil : DefinesRelated (Joined references dialect) [] (List.reverse []) := .nil
  exact definesRelated_statements ss hnil hcount hvalid

/-! ### Statements -/

lemma declares_advance (before left : List Statement) (s : Statement) :
    (advance before left s).flatMap (·.declares) =
      s.declares ++ left.flatMap (·.declares) := by
  have hreplicate (n : Nat) : (List.replicate n (Statement.block [])).flatMap (·.declares) = [] :=
    flatMap_eq_nil_iff.mpr fun s hs => by
      rw [eq_of_mem_replicate hs]
      rfl
  rw [advance, flatMap_cons, flatMap_append, hreplicate, nil_append]

lemma statementsValid_replicate (n : Nat) :
    statementsValid dialect Γ (List.replicate n (.block [])) := by
  induction n with
  | zero => rfl
  | succ n ih => exact ih

lemma statementsValid_removeEmpty (ss : Block) :
    statementsValid dialect Γ (removeEmptyBlocks ss) = statementsValid dialect Γ ss := by
  induction ss generalizing Γ with
  | nil => rfl
  | cons s ss ih =>
    rw [removeEmptyBlocks, filter_cons]
    split
    · rw [statementsValid, statementsValid, ← ih]
      rfl
    · rename_i hs
      obtain rfl := eq_of_isEmptyBlock hs
      exact ih

lemma declares_removeEmpty (ss : Block) :
    (removeEmptyBlocks ss).flatMap (·.declares) = ss.flatMap (·.declares) := by
  induction ss with
  | nil => rfl
  | cons s ss ih =>
    rw [removeEmptyBlocks, filter_cons]
    split
    · rw [flatMap_cons, flatMap_cons, ← ih]
      rfl
    · rename_i hs
      obtain rfl := eq_of_isEmptyBlock hs
      exact ih

lemma StatementJoins.declared_of_visited {s s' : Statement} {joined : List Statement}
    (h : StatementJoins references (statement references [] s).1 s' joined) :
    ∀ x ∈ joined.flatMap (·.declares), x ∈ s.references ∧ references x = 1 := by
  intro x hx
  obtain ⟨hmem, hone⟩ := h.declared x hx
  have hcount := count_statement references x [] s
  have hpos := count_pos_iff.mpr hmem
  simp only [referencesOfStatements, count_nil] at hcount
  exact ⟨count_pos_iff.mp (by omega), hone⟩

lemma Joinable.step {before : List Statement} {s : Statement} {rest : List YulString}
    (h : Joinable references dialect Γ Γ' before (s.references ++ rest))
    (hs : (statement references before s).1.valid dialect
      (Γ'.declare ((statement references before s).2.flatMap (·.declares)))) :
    Joinable references dialect (Γ.declare s.declares) Γ'
      (advance before (statement references before s).2 (statement references before s).1)
      rest := by
  obtain ⟨joined, hbefore, hjoins⟩ := statement_joins references before s
  have hcount (x : YulString) := count_statement references x before s
  have hdeclares := statement_declares references before s
  have htaken : Joinable references dialect Γ Γ' (joined ++ (statement references before s).2)
      (s.references ++ rest) := by
    rw [← hbefore]
    exact h
  obtain ⟨-, -, hvisible⟩ := htaken.taken hjoins.declared_of_visited
  refine ⟨?_, fun x => ?_, ?_⟩
  · rw [declares_advance, hdeclares]
    have hdeclare := hvisible.declare s.declares
    exact ⟨hdeclare.count, fun x hx hmem => by
      simpa only [locals_declare, append_assoc] using hdeclare.visible x hx hmem,
      by simpa only [locals_declare, append_assoc] using hdeclare.locals,
      hdeclare.functions, hdeclare.component⟩
  · have hle := h.count x
    have hle' := hcount x
    rw [count_append] at hle
    rw [references_advance, count_append]
    omega
  · rw [reverse_advance, statementsValid_append_iff, statementsValid_append_iff]
    refine ⟨htaken.left_valid.1, statementsValid_replicate _, ?_⟩
    have hs' : statementsValid dialect
        (Γ'.declare ((statement references before s).2.flatMap (·.declares)))
        [(statement references before s).1] = true := by
      rw [statementsValid, hs, statementsValid, Bool.and_true]
    rw [← hs']
    refine statementsValid_congr (fun x => ?_) rfl rfl
    simp [Statement.declares]

lemma Visible.block {ss : Block} (h : Visible references Γ Γ' (referencesOfStatements ss))
    (hvalid : statementsValid dialect (Γ.register ss) ss) :
    Joinable references dialect (Γ.register ss) (Γ'.register (block references ss)) []
      (referencesOfStatements ss ++ []) := by
  have hfunctions : visibleFunctions (ExpressionJoiner.block references ss) =
      visibleFunctions ss := by
    refine visibleFunctions_eq_of_definesRelated (fun d d' hd => ?_)
      (definesRelated_block h.count hvalid)
    rw [hd.parameters, hd.returnVariables]
    exact ⟨rfl, rfl⟩
  rw [append_nil]
  exact .start (h.register hfunctions)

lemma blockValid_joined_of {ss : Block} (h : Visible references Γ Γ' (referencesOfStatements ss))
    (hvalid : statementsValid dialect (Γ.register ss) ss)
    (hss : ∀ {Γ Γ' : Scope}, Joinable references dialect Γ Γ' [] (referencesOfStatements ss ++ []) →
      statementsValid dialect Γ ss →
        statementsValid dialect Γ' (statements references [] ss)) :
    statementsValid dialect (Γ'.register (block references ss)) (block references ss) := by
  have hstatements := hss (h.block hvalid) hvalid
  rw [← statementsValid_removeEmpty] at hstatements
  exact hstatements

mutual

lemma statement_valid (s : Statement) {before : List Statement} {rest : List YulString}
    {Γ Γ' : Scope} (h : Joinable references dialect Γ Γ' before (s.references ++ rest))
    (hvalid : s.valid dialect Γ) :
    (statement references before s).1.valid dialect
      (Γ'.declare ((statement references before s).2.flatMap (·.declares))) := by
  match s with
  | .expressionStatement e =>
    rw [valid_expression, and_eq_true] at hvalid
    obtain ⟨he, hreturns, -⟩ := visit_valid h hvalid.1
    rw [statement, valid_expression, he, hreturns]
    exact hvalid.2
  | .assignment xs e =>
    rw [valid_assignment, and_eq_true, and_eq_true, all_eq_true] at hvalid
    have hperm : ((Statement.assignment xs e).references ++ rest).Perm
        (e.references ++ (xs ++ rest)) := by
      rw [← append_assoc]
      exact perm_append_comm.append_right rest
    obtain ⟨he, hreturns, hvisible⟩ := visit_valid (h.of_perm hperm) hvalid.1.2
    rw [statement, valid_assignment, he, hreturns, hvalid.2, Bool.and_true, Bool.and_true,
      all_eq_true]
    exact fun x hx => decide_eq_true
      (hvisible.visible x (of_decide_eq_true (hvalid.1.1 x hx)) (mem_append_left _ hx))
  | .variableDeclaration xs none =>
    rw [valid_declaration, and_eq_true, and_eq_true, all_eq_true] at hvalid
    rw [statement, visitValue, valid_declaration, hvalid.1.1, Bool.true_and, valueValid,
      Bool.and_true, all_eq_true]
    exact fun x hx => decide_eq_true fun hmem =>
      of_decide_eq_true (hvalid.1.2 x hx) (h.visible.locals hmem)
  | .variableDeclaration xs (some e) =>
    rw [valid_declaration, and_eq_true, and_eq_true, all_eq_true, valueValid,
      and_eq_true] at hvalid
    obtain ⟨he, hreturns, hvisible⟩ := visit_valid h hvalid.2.1
    rw [statement, visitValue, valid_declaration, hvalid.1.1, valueValid, he, hreturns,
      hvalid.2.2, Bool.true_and, Bool.and_true, Bool.and_true, all_eq_true]
    exact fun x hx => decide_eq_true fun hmem =>
      of_decide_eq_true (hvalid.1.2 x hx) (hvisible.locals hmem)
  | .functionDefinition f ps rs body =>
    rw [valid_function, and_eq_true] at hvalid
    rw [statement, valid_function, and_eq_true, h.visible.component]
    exact ⟨hvalid.1, blockValid_joined_of (h.visible.left.function _) hvalid.2 fun h hvalid =>
      (statements_valid body h hvalid).1⟩
  | .if c body =>
    rw [valid_if, and_eq_true, and_eq_true] at hvalid
    have hassoc : (Statement.if c body).references ++ rest =
        c.references ++ (referencesOfStatements body ++ rest) := append_assoc _ _ _
    rw [hassoc] at h
    obtain ⟨hc, hreturns, hvisible⟩ := visit_valid h hvalid.1.1
    rw [statement, valid_if, hc, hreturns, hvalid.1.2]
    exact blockValid_joined_of hvisible.left hvalid.2 fun h hvalid =>
      (statements_valid body h hvalid).1
  | .switch e cs =>
    rw [valid_switch, and_eq_true, and_eq_true] at hvalid
    have hassoc : (Statement.switch e cs).references ++ rest =
        e.references ++ (referencesOfCases cs ++ rest) := append_assoc _ _ _
    rw [hassoc] at h
    obtain ⟨he, hreturns, hvisible⟩ := visit_valid h hvalid.1.1
    rw [statement, valid_switch, he, hreturns, hvalid.1.2]
    exact cases_valid cs hvisible.left hvalid.2
  | .forLoop pre c post body =>
    simp only [valid_forLoop, and_eq_true, decide_eq_true_eq] at hvalid
    obtain ⟨⟨⟨⟨hpre, hc⟩, hreturns⟩, hpost⟩, hbody⟩ := hvalid
    have hassoc : (Statement.forLoop pre c post body).references =
        referencesOfStatements pre ++ (c.references ++
          (referencesOfStatements body ++ referencesOfStatements post)) := by
      simp only [Statement.references, append_assoc]
    have hleft := h.visible.left
    rw [hassoc] at hleft
    obtain ⟨hpre', hvisible⟩ := statements_valid pre (.start (hleft.enter .forLoopPre)) hpre
    have hloop := hleft.leave hvisible
    obtain ⟨hc', hreturns'⟩ := hloop.left.valid hc
    rw [statement, visit_nil, valid_forLoop,
      statementsValid_removeEmpty (statements references [] pre),
      declares_removeEmpty (statements references [] pre)]
    simp only [and_eq_true, decide_eq_true_eq]
    refine ⟨⟨⟨⟨hpre', hc'⟩, hreturns'.trans hreturns⟩, ?_⟩, ?_⟩
    · exact blockValid_joined_of (hloop.right.right.enter .forLoopPost) hpost fun h hvalid =>
        (statements_valid post h hvalid).1
    · exact blockValid_joined_of (hloop.right.left.enter .forLoopBody) hbody fun h hvalid =>
        (statements_valid body h hvalid).1
  | .break | .continue =>
    exact decide_eq_true (h.visible.component.trans (of_decide_eq_true hvalid))
  | .block ss =>
    exact blockValid_joined_of h.visible.left hvalid fun h hvalid =>
      (statements_valid ss h hvalid).1

lemma statements_valid (ss : List Statement) {before : List Statement} {rest : List YulString}
    {Γ Γ' : Scope}
    (h : Joinable references dialect Γ Γ' before (referencesOfStatements ss ++ rest))
    (hvalid : statementsValid dialect Γ ss) :
    statementsValid dialect Γ' (statements references before ss) ∧
      Visible references (Γ.declare (ss.flatMap (·.declares)))
        (Γ'.declare ((statements references before ss).flatMap (·.declares))) rest := by
  match ss with
  | [] =>
    exact ⟨h.valid, h.visible.congr (fun x => Iff.rfl) (fun x => by simp [statements])
      h.visible.functions h.visible.component⟩
  | s :: ss =>
    rw [statementsValid, and_eq_true] at hvalid
    rw [referencesOfStatements, append_assoc] at h
    obtain ⟨hss, hvisible⟩ :=
      statements_valid ss (h.step (statement_valid s h hvalid.1)) hvalid.2
    refine ⟨hss, hvisible.congr (fun x => ?_) (fun x => Iff.rfl) hvisible.functions
      hvisible.component⟩
    simp only [locals_declare, flatMap_cons, mem_append, or_assoc, or_left_comm]

lemma cases_valid (cs : List Case) {Γ Γ' : Scope}
    (h : Visible references Γ Γ' (referencesOfCases cs))
    (hvalid : casesValid dialect Γ cs) :
    casesValid dialect Γ' (cases references cs) := by
  match cs with
  | [] => rfl
  | .mk value body :: cs =>
    simp only [casesValid, and_eq_true] at hvalid
    rw [cases, casesValid, and_eq_true, and_eq_true]
    refine ⟨⟨hvalid.1.1, ?_⟩, cases_valid cs h.right hvalid.2⟩
    exact blockValid_joined_of h.left hvalid.1.2 fun h hvalid =>
      (statements_valid body h hvalid).1

end

lemma count_countReferences (refs : List YulString) (x : YulString) :
    refs.count x ≤ countReferences refs x := Nat.le_refl _

lemma disambiguated_run {ss : Block} (hss : Block.Disambiguated dialect ss) :
    Block.Disambiguated dialect (run ss) where
  valid := blockValid_joined_of (.refl .empty (count_countReferences _)) hss.valid
    fun h hvalid => (statements_valid ss h hvalid).1
  nodup := by
    rw [run, block, names_removeEmptyBlocks]
    exact (names_statements [] ss).nodup hss.nodup

end

end ExpressionJoiner

end Yul
