import Polc.Yul.Optimiser.ExpressionJoiner.Validity
import Polc.Yul.Optimiser.ExpressionSplitter.Validity

/-!
# The expression joiner keeps the order of evaluation

Between the declaration of a joined variable and its only reference there are just reads of
variables that nothing in between changes.
-/

namespace Yul

open Sof Semantics List Traced
open Bool (and_eq_true)

namespace ExpressionJoiner

variable {World : Type}

/-! ### Expressions -/

/-- The values of `e`, and those of what replaces it: the same single value, and for calls the same
values. -/
def SameValues (e : Expression) (vs vs' : List Word) : Prop :=
  vs.headD 0 = vs'.headD 0 ∧ ((∀ x, e ≠ .identifier x) → vs = vs')

variable {joined : List Statement} {V V' : Variables} {dialect : Dialect} {Γ Γ' : Scope}
  {s : Statement}

section

variable {references : YulString → Nat} {I : Tracer World} {F : Functions} {U W : Variables}

/-- Identifiers and literals have values without operations. -/
def value (V : Variables) : Expression → Word
  | .identifier x => (V x).getD 0
  | .literal l => l.word
  | _ => 0

lemma tracedArgs_of_isIdentifierOrLiteral {es : List Expression}
    (hes : es.all isIdentifierOrLiteral) (V : Variables) (m : SvmState World) :
    tracedArgs I F V es m = .ok (es.map (value V)) m := by
  induction es with
  | nil => rfl
  | cons e es ih =>
    rw [all_cons, and_eq_true] at hes
    rw [tracedArgs, ih hes.2, ok_bind]
    cases e with
    | identifier x | literal l => rfl
    | functionalInstruction i args | functionCall f args => cases hes.1

lemma map_value_agreeOff {es : List Expression} {names : List YulString}
    (hes : ∀ x ∈ names, x ∉ argumentsReferences es) (hW : Variables.AgreeOff names U W) :
    es.map (value W) = es.map (value U) := by
  refine map_congr_left fun e he => ?_
  cases e with
  | identifier x =>
    have hx : x ∉ names := fun hmem => hes x hmem (mem_argumentsReferences he mem_cons_self)
    rw [value, value, hW x hx]
  | _ => rfl

lemma agreeOff_of_isDeclaration (h : ∀ s ∈ joined, IsDeclaration s) {r : LoopState × Variables}
    {m m₁ : SvmState World} (hr : (tracedStatements I F V joined.reverse m).result = .ok r m₁) :
    Variables.AgreeOff (joined.flatMap (·.declares)) V r.2 := by
  have hreverse : ∀ s ∈ joined.reverse, IsDeclaration s :=
    fun s hs => h s (mem_reverse.mp hs)
  obtain ⟨-, hassignments, -, hdeclarations⟩ := declarations_of_isDeclaration hreverse
  rw [result_tracedStatements] at hr
  intro x hx
  refine exec_unchanged _ V m r m₁ hr x ?_ ?_
  · rw [hassignments]
    exact not_mem_nil
  · rw [hdeclarations]
    simpa only [mem_flatMap, mem_reverse] using hx

/-- Behind the joined declarations the code is executed as the joined code without them, whatever
comes next: `run` with the changed variables and `run'`. -/
def JoinedAlike (I : Tracer World) (F : Functions) (U : Variables) (joined : List Statement)
    {α β : Type} (run : Variables → SvmState World → TracedRun World α)
    (run' : SvmState World → TracedRun World β) (A : α → β → Prop) : Prop :=
  ∀ {γ δ : Type} {R : γ → δ → Prop} (K : Variables → α → SvmState World → TracedRun World γ)
    (L : LoopState × Variables → SvmState World → TracedRun World γ)
    (K' : β → SvmState World → TracedRun World δ),
    (∀ W a b m, Variables.AgreeOff (joined.flatMap (·.declares)) U W → A a b →
      Traced.Rel R (K W a m) (K' b m)) →
    ∀ m, Traced.Rel R
      ((tracedStatements I F U joined.reverse m).bind fun r m =>
        if r.1 = .default then (run r.2 m).bind (K r.2) else L r m)
      ((run' m).bind K')

mutual

lemma Joins.traced {e e' : Expression} {joined : List Statement}
    (h : Joins references e e' joined) {Γ : Scope} (hvalid : e.valid I.dialect Γ)
    (hone : JoinedOnce joined e.references) (U : Variables) :
    JoinedAlike I F U joined (fun W m => e.traced I F W m) (fun m => e'.traced I F U m)
      (SameValues e) := by
  intro γ δ R K L K' hK m
  match h with
  | .refl e =>
    rw [reverse_nil, tracedStatements, ok_bind, if_pos rfl]
    refine (Traced.Rel.refl _).bind ?_
    rintro vs _ m₁ rfl
    exact hK U vs vs m₁ (.refl _ U) ⟨rfl, fun _ => rfl⟩
  | .identifier (x := x) hx =>
    rw [reverse_singleton, traced_singleton, Statement.traced,
      Expression.tracedMulti, map_bind]
    refine (Traced.Rel.refl _).bind ?_
    rintro vs _ m₁ rfl
    rw [if_pos rfl]
    simp only [traced_identifier, ok_bind]
    refine hK _ _ vs m₁ (fun y hy => ?_) ⟨?_, fun hne => absurd rfl (hne x)⟩
    · exact Variables.assign_of_not_mem hy
    · simp [Variables.assign, Variables.set]
  | .functionalInstruction (i := i) h =>
    rw [Expression.valid_instruction, and_eq_true] at hvalid
    simp only [Expression.traced, bind_assoc]
    have hargs := h.traced hvalid.2 hone U (R := R)
      (fun W vs m => Traced.bind ⟨[.instruction i vs], execInstruction I.env i vs m⟩ (K W)) L
      (fun vs m => Traced.bind ⟨[.instruction i vs], execInstruction I.env i vs m⟩ K')
    refine hargs ?_ m
    rintro W vs _ m₁ hW rfl
    refine (Traced.Rel.refl _).bind ?_
    rintro vs _ m₁ rfl
    exact hK W vs vs m₁ hW ⟨rfl, fun _ => rfl⟩
  | @Joins.functionCall _ f args args' _ h =>
    rw [Expression.valid_functionCall, and_eq_true, and_eq_true] at hvalid
    simp only [traced_functionCall, bind_assoc]
    have hargs := h.traced hvalid.2 hone.functionCall U (R := R)
      (fun W vs m => (tracedCall I F f args vs m).bind (K W)) L
      (fun vs m => (tracedCall I F f args' vs m).bind K')
    refine hargs ?_ m
    rintro W vs _ m₁ hW rfl
    rw [tracedCall_eq (.refl I) (.refl (fun _ => rfl) F) fun hf =>
      (h.eq_of_literals (exists_literal_of_valid hvalid.1.2 hf)).1]
    refine (Traced.Rel.refl _).bind ?_
    rintro vs _ m₁ rfl
    exact hK W vs vs m₁ hW ⟨rfl, fun _ => rfl⟩

lemma ArgumentsJoin.traced {es es' : List Expression} {joined : List Statement}
    (h : ArgumentsJoin references es es' joined) {Γ : Scope}
    (hvalid : argumentsValid I.dialect Γ es)
    (hone : JoinedOnce joined (argumentsReferences es)) (U : Variables) :
    JoinedAlike I F U joined (fun W m => tracedArgs I F W es m)
      (fun m => tracedArgs I F U es' m) Eq := by
  intro γ δ R K L K' hK m
  match h with
  | .nil =>
    rw [reverse_nil, tracedStatements, ok_bind, if_pos rfl]
    simp only [tracedArgs, ok_bind]
    exact hK U [] [] m (.refl _ U) rfl
  | @ArgumentsJoin.visited _ e e' es es' joined joined' hes h h' =>
    simp only [argumentsValid, and_eq_true] at hvalid
    obtain ⟨⟨hjoined, hjoined'⟩, hes', he'⟩ := hone.visited h h'
    let K₁ (W : Variables) (vs : List Word) (m : SvmState World) : TracedRun World γ :=
      (tracedStatements I F W joined.reverse m).bind fun r m =>
        if r.1 = .default then
          (e.traced I F r.2 m).bind fun v m => K r.2 (v.headD 0 :: vs) m
        else L r m
    have hleft : ((tracedStatements I F U (joined ++ joined').reverse m).bind fun r m =>
        if r.1 = .default then (tracedArgs I F r.2 (e :: es) m).bind (K r.2) else L r m) =
        (tracedStatements I F U joined'.reverse m).bind fun r m =>
          if r.1 = .default then (tracedArgs I F r.2 es m).bind (K₁ r.2) else L r m := by
      rw [reverse_append, traced_append, bind_assoc]
      refine bind_congr _ fun r m₁ _ => ?_
      by_cases hr : r.1 = .default
      · rw [if_pos hr, if_pos hr, tracedArgs_of_isIdentifierOrLiteral hes, ok_bind]
        refine bind_congr _ fun r' m₂ hr' => ?_
        have hvalues := map_value_agreeOff hes' (agreeOff_of_isDeclaration h.isDeclaration hr')
        rw [tracedArgs, tracedArgs_of_isIdentifierOrLiteral hes, ok_bind, hvalues,
          map_bind]
      · rw [if_neg hr, if_neg hr, ok_bind, if_neg hr]
    rw [hleft]
    simp only [tracedArgs, bind_assoc]
    refine h'.traced hvalid.1.1 hjoined' U (R := R) K₁ L
      (fun vs m => ((e'.traced I F U m).map fun v => v.headD 0 :: vs).bind K') ?_ m
    rintro W vs _ m₁ hW rfl
    rw [map_bind, e'.traced_agreeOff (fun x hx => (he' x hx).2) F hW]
    refine h.traced hvalid.1.2 hjoined W (R := R) (fun W v m => K W (v.headD 0 :: vs) m) L
      (fun v m => K' (v.headD 0 :: vs) m) ?_ m₁
    rintro W' v v' m₂ hW' ⟨hv, -⟩
    rw [hv]
    refine hK W' _ _ m₂ (fun x hx => ?_) rfl
    rw [flatMap_append, mem_append, not_or] at hx
    rw [hW' x hx.1, hW x hx.2]
  | @ArgumentsJoin.later _ e es es' joined h =>
    simp only [argumentsValid, and_eq_true] at hvalid
    obtain ⟨hjoined, he⟩ := hone.later h
    simp only [tracedArgs, bind_assoc]
    refine h.traced hvalid.1.1 hjoined U (R := R)
      (fun W vs m => ((e.traced I F W m).map fun v => v.headD 0 :: vs).bind (K W)) L
      (fun vs m => ((e.traced I F U m).map fun v => v.headD 0 :: vs).bind K') ?_ m
    rintro W vs _ m₁ hW rfl
    rw [e.traced_agreeOff he F hW]
    refine (Traced.Rel.refl _).bind ?_
    rintro ws _ m₂ rfl
    exact hK W ws ws m₂ hW rfl

end

/-! ### One statement -/

/-- The head expression of a statement is valid and has as many values as are assigned. -/
def HeadValid (dialect : Dialect) (Γ : Scope) : Statement → Prop
  | .expressionStatement e | .if e _ | .switch e _ => e.valid dialect Γ = true
  | .assignment xs e => e.valid dialect Γ = true ∧ e.returns dialect Γ = xs.length
  | .variableDeclaration xs (some e) =>
    e.valid dialect Γ = true ∧ e.returns dialect Γ = xs.length
  | _ => True

lemma headValid_of_valid (h : s.valid dialect Γ) :
    HeadValid dialect Γ (statement references [] s).1 := by
  cases s with
  | expressionStatement e =>
    rw [valid_expression, and_eq_true] at h
    rw [statement, visit_nil]
    exact h.1
  | assignment xs e =>
    rw [valid_assignment, and_eq_true, and_eq_true, decide_eq_true_eq] at h
    rw [statement, visit_nil]
    exact ⟨h.1.2, h.2⟩
  | variableDeclaration xs value =>
    cases value with
    | none => trivial
    | some e =>
      simp only [valid_declaration, valueValid, and_eq_true] at h
      rw [statement, visitValue, visit_nil]
      exact ⟨h.2.1, of_decide_eq_true h.2.2⟩
  | «if» c body =>
    rw [valid_if, and_eq_true, and_eq_true] at h
    rw [statement, visit_nil]
    exact h.1.1
  | «switch» e cs =>
    rw [valid_switch, and_eq_true, and_eq_true] at h
    rw [statement, visit_nil]
    exact h.1.1
  | _ => trivial

lemma SameValues.assign {e : Expression} {vs vs' : List Word} (h : SameValues e vs vs')
    {dialect : Dialect} {Γ : Scope} {xs : List YulString}
    (hxs : e.returns dialect Γ = xs.length) (V : Variables) : V.assign xs vs = V.assign xs vs' := by
  by_cases he : ∃ x, e = .identifier x
  · obtain ⟨x, rfl⟩ := he
    obtain ⟨y, rfl⟩ := length_eq_one_iff.mp hxs.symm
    rw [Variables.assign, Variables.assign, h.1]
    rfl
  · rw [h.2 fun x hx => he ⟨x, hx⟩]

/-- Behind the joined declarations a statement is executed as the joined statement without them. -/
lemma StatementJoins.traced {s s' : Statement} {joined : List Statement}
    (h : StatementJoins references s s' joined) {Γ : Scope} (hvalid : HeadValid I.dialect Γ s)
    (hone : JoinedOnce joined s.references) (U : Variables)
    (m : SvmState World) :
    Traced.Rel (SameOutcome (Variables.AgreeOff (joined.flatMap (·.declares))))
      (tracedStatements I F U (joined.reverse ++ [s]) m) (s'.traced I F U m) := by
  cases h with
  | refl =>
    rw [reverse_nil, nil_append, traced_singleton]
    refine (Traced.Rel.refl _).mono ?_
    rintro r _ rfl
    exact ⟨rfl, .refl _ _⟩
  | @head e e' _ hs h =>
    obtain ⟨hhead, hrest⟩ := hone.head hs h
    rw [traced_append]
    simp only [traced_singleton]
    cases s with
    | expressionStatement v =>
      cases hs
      simp only [setHeadExpression, Statement.traced, map_eq_bind]
      refine h.traced hvalid hhead U
        (fun W _ m => .ok (LoopState.default, W) m) (fun r m => .ok r m)
        (fun _ m => .ok (LoopState.default, U) m) (fun W vs vs' m hW _ => ?_) m
      exact .ok ⟨rfl, hW.symm⟩
    | assignment xs v =>
      cases hs
      simp only [setHeadExpression, Statement.traced, map_eq_bind]
      refine h.traced hvalid.1 hhead U
        (fun W vs m => .ok (LoopState.default, W.assign xs vs) m) (fun r m => .ok r m)
        (fun vs m => .ok (LoopState.default, U.assign xs vs) m) (fun W vs vs' m hW hvs => ?_) m
      rw [hvs.assign hvalid.2]
      exact .ok ⟨rfl, hW.symm.assign xs vs'⟩
    | variableDeclaration xs value =>
      cases value with
      | none => cases hs
      | some v =>
        cases hs
        simp only [setHeadExpression, Statement.traced, Expression.tracedMulti,
          map_eq_bind]
        refine h.traced hvalid.1 hhead U
          (fun W vs m => .ok (LoopState.default, W.assign (xs.map (·.name)) vs) m) (fun r m => .ok r m)
          (fun vs m => .ok (LoopState.default, U.assign (xs.map (·.name)) vs) m)
          (fun W vs vs' m hW hvs => ?_) m
        rw [hvs.assign (by rw [hvalid.2, length_map])]
        exact .ok ⟨rfl, hW.symm.assign _ vs'⟩
    | «if» v body =>
      cases hs
      simp only [setHeadExpression, traced_if]
      refine h.traced hvalid hhead U
        (fun W vs m => if vs.headD 0 ≠ 0 then tracedBlock I F W body m else .ok (.default, W) m)
        (fun r m => .ok r m)
        (fun vs m => if vs.headD 0 ≠ 0 then tracedBlock I F U body m else .ok (.default, U) m)
        (fun W vs vs' m hW hvs => ?_) m
      simp only [hvs.1]
      refine tracedBranch_rel (tracedBlock_agreeOff_of (tracedStatements_agreeOff body
        fun x hx => hrest x hx _ rfl) F hW.symm m) hW.symm
    | «switch» v cs =>
      cases hs
      simp only [setHeadExpression, traced_switch]
      refine h.traced hvalid hhead U
        (fun W vs m => tracedCases I F W (vs.headD 0) cs m) (fun r m => .ok r m)
        (fun vs m => tracedCases I F U (vs.headD 0) cs m) (fun W vs vs' m hW hvs => ?_) m
      simp only [hvs.1]
      exact tracedCases_agreeOff cs (fun x hx => hrest x hx _ rfl) F hW.symm _ m
    | _ => cases hs

lemma traced_emptyBlock (V : Variables) (m : SvmState World) :
    (Statement.block []).traced I F V m = .ok (.default, V) m := by
  rw [traced_block, tracedBlock, tracedStatements, ok_map, Variables.restrict_self]

lemma traced_replicate_append (n : Nat) (ss : List Statement) (V : Variables)
    (m : SvmState World) :
    tracedStatements I F V (List.replicate n (.block []) ++ ss) m =
      tracedStatements I F V ss m := by
  induction n with
  | zero => rfl
  | succ n ih =>
    rw [replicate_succ, cons_append, tracedStatements, traced_emptyBlock,
      ok_bind, if_pos rfl, ih]

lemma traced_removeEmptyBlocks (ss : Block) (V : Variables) (m : SvmState World) :
    tracedStatements I F V (removeEmptyBlocks ss) m = tracedStatements I F V ss m := by
  induction ss generalizing V m with
  | nil => rfl
  | cons s ss ih =>
    rw [removeEmptyBlocks, filter_cons, tracedStatements]
    split
    · rw [tracedStatements]
      refine bind_congr _ fun r m₁ _ => ?_
      by_cases hr : r.1 = .default
      · rw [if_pos hr, if_pos hr, ← ih]
        rfl
      · rw [if_neg hr, if_neg hr]
    · rename_i hs
      obtain rfl := eq_of_isEmptyBlock hs
      rw [traced_emptyBlock, ok_bind, if_pos rfl, ← ih]
      rfl

end

/-! ### Programs -/

/-- The visible variables of the joined program have the same values, also those that the
statements declare, if these were executed to their end. -/
def Behind (Γ : Scope) (ts : List Statement) (l : LoopState) (W W' : Variables) : Prop :=
  Variables.AgreeOn Γ.locals W W' ∧
    (l = .default → Variables.AgreeOn (ts.flatMap (·.declares)) W W')

section

variable {references : YulString → Nat} {I I' : Tracer World}

variable {rest : List YulString}

lemma JoinedOnce.mono {refs : List YulString} (h : JoinedOnce joined refs)
    (hrest : ∀ x, rest.count x ≤ refs.count x) : JoinedOnce joined rest := by
  intro x hx
  have hle := h x hx
  have hle' := hrest x
  rw [count_append] at hle ⊢
  omega

/-- The statements up to a visited one, of which the blocks are visited, and the same statements
behind the visit of its head expression. -/
lemma advance_rel (hI : I.dialect = dialect) {before : List Statement}
    (h : Joinable references dialect Γ Γ' before (s.references ++ rest))
    (hvalid : s.valid dialect Γ) (F : Functions) (V : Variables) (m : SvmState World)
    (hbefore : before = joined ++ (statement references before s).2)
    (hjoins : StatementJoins references (statement references [] s).1
      (statement references before s).1 joined) :
    Traced.Rel (SameOutcome (Variables.AgreeOff (joined.flatMap (·.declares))))
      (tracedStatements I F V (before.reverse ++ [(statement references [] s).1]) m)
      (tracedStatements I F V (advance before (statement references before s).2
        (statement references before s).1).reverse m) := by
  subst hI
  have htaken : Joinable references I.dialect Γ Γ'
      (joined ++ (statement references before s).2) (s.references ++ rest) := hbefore ▸ h
  have hone : JoinedOnce joined (statement references [] s).1.references := by
    refine (htaken.taken hjoins.declared_of_visited).1.mono fun x => ?_
    have hcount := count_statement references x [] s
    simp only [referencesOfStatements, count_nil] at hcount
    omega
  have hsplit := (congrArg List.reverse hbefore).trans reverse_append
  rw [hsplit, append_assoc, reverse_advance, traced_append, traced_append]
  refine (Traced.Rel.refl _).bind ?_
  rintro ⟨l, U⟩ _ m₁ rfl
  by_cases hl : l = .default
  · rw [if_pos hl, if_pos hl, traced_replicate_append, traced_singleton]
    exact hjoins.traced (headValid_of_valid hvalid) hone U m₁
  · rw [if_neg hl, if_neg hl]
    exact .ok ⟨rfl, .refl _ _⟩

variable {F F' : Functions}

lemma tracedBlock_joined_of {ss : Block} (h : Visible references Γ Γ' (referencesOfStatements ss))
    (hvalid : statementsValid I.dialect (Γ.register ss) ss)
    (hss : ∀ {Γ Γ' : Scope} {before : List Statement} {rest : List YulString},
      Joinable references I.dialect Γ Γ' before (referencesOfStatements ss ++ rest) →
      statementsValid I.dialect Γ ss → ∀ {F F' : Functions},
        F.Rel (Joined references I.dialect) F' → ∀ {X} {V' : Variables} {m},
          Traced.Rel (Outcome (Behind Γ' before)) X
            (tracedStatements I' F' V' before.reverse m) →
          Traced.Rel (Outcome (Behind Γ' (statements references before ss)))
            (X.bind fun r m =>
              if r.1 = .default then tracedStatements I F r.2 ss m else .ok r m)
            (tracedStatements I' F' V' (statements references before ss) m))
    (hF : F.Rel (Joined references I.dialect) F') (hV : Variables.AgreeOn Γ'.locals V V')
    (m : SvmState World) :
    Traced.Rel (SameOutcome (Variables.AgreeOn Γ'.locals)) (tracedBlock I F V ss m)
      (tracedBlock I' F' V' (block references ss) m) := by
  have hlocals : (Γ'.register (block references ss)).locals = Γ'.locals := Scope.locals_register
  refine tracedBlock_rel (A := Variables.AgreeOn Γ'.locals) hF
    (definesRelated_block h.count hvalid) (fun {_ G'} hG => ?_) fun W W' hW => hV.restrict hW
  have hstart : Traced.Rel (Outcome (Behind (Γ'.register (block references ss)) []))
      (Traced.ok (LoopState.default, V) m) (tracedStatements I' G' V' [] m) :=
    .ok ⟨rfl, by rwa [hlocals], fun _ _ hx => (not_mem_nil hx).elim⟩
  have hrun := hss (h.block hvalid) hvalid hG hstart
  rw [ok_bind, if_pos rfl] at hrun
  rw [block, traced_removeEmptyBlocks]
  refine hrun.mono fun r r' hr => ⟨hr.1, ?_⟩
  rw [← hlocals]
  exact hr.2.1

lemma Visible.traced (hI : I.Sim (Joined references I.dialect) I') {e : Expression}
    (h : Visible references Γ Γ' e.references) (he : e.valid I.dialect Γ)
    (hF : F.Rel (Joined references I.dialect) F') (hV : Variables.AgreeOn Γ'.locals V V')
    (m : SvmState World) : e.traced I F V m = e.traced I' F' V' m := by
  refine e.traced_eq hI hF (fun x hx => hV x ?_) m
  exact h.visible x (e.mem_locals_of_valid he hx) (e.referenced_subset_references hx)

lemma advance_step (hI : I.Sim (Joined references I.dialect) I') {before : List Statement}
    (h : Joinable references I.dialect Γ Γ' before (s.references ++ rest))
    (hvalid : s.valid I.dialect Γ)
    (hs : ∀ {V V' : Variables},
      Variables.AgreeOn (Γ'.declare (before.flatMap (·.declares))).locals V V' → ∀ m,
        Traced.Rel (SameOutcome (Variables.AgreeOn
            ((Γ'.declare (before.flatMap (·.declares))).declare s.declares).locals))
          (s.traced I F V m) ((statement references [] s).1.traced I' F' V' m))
    {X : TracedRun World (LoopState × Variables)} {m : SvmState World}
    (hX : Traced.Rel (Outcome (Behind Γ' before)) X (tracedStatements I' F' V' before.reverse m)) :
    Traced.Rel (Outcome (Behind Γ' (advance before (statement references before s).2
        (statement references before s).1)))
      (X.bind fun r m => if r.1 = .default then s.traced I F r.2 m else .ok r m)
      (tracedStatements I' F' V' (advance before (statement references before s).2
        (statement references before s).1).reverse m) := by
  obtain ⟨joined, hbefore, hjoins⟩ := statement_joins references before s
  have htaken : Joinable references I.dialect Γ Γ'
      (joined ++ (statement references before s).2) (s.references ++ rest) := hbefore ▸ h
  have hvisited : Traced.Rel (Outcome fun l W W' => Variables.AgreeOn Γ'.locals W W' ∧
        (l = .default → Variables.AgreeOn
          ((Γ'.declare (before.flatMap (·.declares))).declare s.declares).locals W W'))
      (X.bind fun r m => if r.1 = .default then s.traced I F r.2 m else .ok r m)
      (tracedStatements I' F' V' (before.reverse ++ [(statement references [] s).1]) m) := by
    rw [traced_append]
    refine hX.bind ?_
    rintro ⟨l, W⟩ ⟨_, W'⟩ m₁ ⟨rfl, hW, hdefault⟩
    by_cases hl : l = .default
    · rw [if_pos hl, if_pos hl, traced_singleton]
      have hW' : Variables.AgreeOn (Γ'.declare (before.flatMap (·.declares))).locals W W' :=
        fun x hx => (mem_append.mp hx).elim (hdefault hl x) (hW x)
      refine (hs hW' m₁).mono fun r r' hr => ⟨hr.1, fun x hx => hr.2 x ?_, fun _ => hr.2⟩
      exact mem_append_right _ (mem_append_right _ hx)
    · rw [if_neg hl, if_neg hl]
      exact .ok ⟨rfl, hW, fun h => absurd h hl⟩
  refine (hvisited.trans (advance_rel hI.dialect h hvalid F' V' m hbefore hjoins)).mono ?_
  rintro ⟨l, W⟩ ⟨_, W''⟩ ⟨⟨_, W'⟩, ⟨rfl, hW, hdefault⟩, rfl, hoff⟩
  refine ⟨rfl, fun x hx => ?_, fun hl x hx => ?_⟩
  · rw [hoff x fun hmem => (htaken.apart hvalid hmem).1 hx, hW x hx]
  · rw [declares_advance, statement_declares, mem_append] at hx
    have hnot : x ∉ joined.flatMap (·.declares) := by
      intro hmem
      obtain ⟨-, hleft, hs⟩ := htaken.apart hvalid hmem
      exact hx.elim hs hleft
    rw [hoff x hnot, hdefault hl x]
    rw [Scope.locals_declare, Scope.locals_declare, mem_append, mem_append]
    refine hx.imp_right fun hx => .inl ?_
    rw [hbefore, flatMap_append]
    exact mem_append_right _ hx

mutual

lemma statement_rel (hI : I.Sim (Joined references I.dialect) I') (s : Statement) {Γ Γ' : Scope}
    (h : Visible references Γ Γ' s.references) (hvalid : s.valid I.dialect Γ)
    {F F' : Functions} (hF : F.Rel (Joined references I.dialect) F') {V V' : Variables}
    (hV : Variables.AgreeOn Γ'.locals V V') (m : SvmState World) :
    Traced.Rel (SameOutcome (Variables.AgreeOn (Γ'.declare s.declares).locals)) (s.traced I F V m)
      ((statement references [] s).1.traced I' F' V' m) := by
  match s with
  | .expressionStatement e =>
    rw [valid_expression, and_eq_true] at hvalid
    rw [statement, visit_nil, Statement.traced, Statement.traced, h.traced hI hvalid.1 hF hV]
    exact (Traced.Rel.refl _).map fun _ _ _ => ⟨rfl, hV⟩
  | .assignment xs e =>
    rw [valid_assignment, and_eq_true, and_eq_true] at hvalid
    rw [statement, visit_nil, Statement.traced, Statement.traced,
      h.right.traced hI hvalid.1.2 hF hV]
    refine (Traced.Rel.refl _).map ?_
    rintro vs _ rfl
    exact ⟨rfl, hV.assign xs vs⟩
  | .variableDeclaration xs none => exact .ok ⟨rfl, hV.assign_append _ _⟩
  | .variableDeclaration xs (some e) =>
    rw [valid_declaration, and_eq_true, valueValid, and_eq_true,
      and_eq_true] at hvalid
    rw [statement, visitValue, visit_nil, Statement.traced, Statement.traced,
      Expression.tracedMulti, Expression.tracedMulti, h.traced hI hvalid.2.1 hF hV]
    refine (Traced.Rel.refl _).map ?_
    rintro vs _ rfl
    exact ⟨rfl, hV.assign_append _ vs⟩
  | .functionDefinition f ps rs body => exact .ok ⟨rfl, hV⟩
  | .if c body =>
    rw [valid_if, and_eq_true, and_eq_true] at hvalid
    rw [statement, visit_nil, traced_if, traced_if, h.left.traced hI hvalid.1.1 hF hV]
    refine (Traced.Rel.refl _).bind ?_
    rintro v _ m₁ rfl
    exact tracedBranch_rel
      (tracedBlock_joined_of h.right hvalid.2 (statements_rel hI body) hF hV m₁) hV
  | .switch e cs =>
    rw [valid_switch, and_eq_true, and_eq_true] at hvalid
    rw [statement, visit_nil, traced_switch, traced_switch, h.left.traced hI hvalid.1.1 hF hV]
    refine (Traced.Rel.refl _).bind ?_
    rintro v _ m₁ rfl
    exact cases_rel hI cs h.right hvalid.2 hF hV _ m₁
  | .forLoop pre c post body =>
    simp only [valid_forLoop, and_eq_true] at hvalid
    obtain ⟨⟨⟨⟨hpre, hc⟩, -⟩, hpost⟩, hbody⟩ := hvalid
    have hassoc : (Statement.forLoop pre c post body).references =
        referencesOfStatements pre ++ (c.references ++
          (referencesOfStatements body ++ referencesOfStatements post)) := by
      simp only [Statement.references, append_assoc]
    rw [hassoc] at h
    have hstart : Traced.Rel (Outcome (Behind (Γ'.enter .forLoopPre) []))
        (Traced.ok (LoopState.default, V) m) (tracedStatements I' F' V' [] m) :=
      .ok ⟨rfl, hV, fun _ _ hx => (not_mem_nil hx).elim⟩
    have hjoinable : Joinable references I.dialect (Γ.enter .forLoopPre) (Γ'.enter .forLoopPre) []
        _ := Joinable.start (h.enter .forLoopPre)
    have hrun := statements_rel hI pre hjoinable hpre hF hstart
    rw [ok_bind, if_pos rfl] at hrun
    have hloop := h.leave (statements_valid pre hjoinable hpre).2
    have hreturns : (tracedStatements I F V pre m).result.Returns fun r _ => r.1 = .default := by
      rw [result_tracedStatements]
      exact execStatements_default_of_valid (I := I.interpreter) pre (by nofun) hpre F V m
    rw [statement, visit_nil]
    refine traced_forLoop_rel (A := Variables.AgreeOn (Γ'.declare
      ((statements references [] pre).flatMap (·.declares))).locals) hI.fuel ?_ ?_ ?_ ?_ ?_
    · rw [traced_removeEmptyBlocks]
      refine hrun.mono_of_returns hreturns fun r r' _ hr h => ⟨h.1, fun x hx => ?_⟩
      exact (mem_append.mp hx).elim (h.2.2 hr x) (h.2.1 x)
    · exact fun W W' m hW => hloop.left.traced hI hc hF hW m
    · exact fun W W' m hW => tracedBlock_joined_of (hloop.right.left.enter .forLoopBody) hbody
        (statements_rel hI body) hF hW m
    · exact fun W W' m hW => tracedBlock_joined_of (hloop.right.right.enter .forLoopPost) hpost
        (statements_rel hI post) hF hW m
    · intro W W' hW
      exact hV.restrict fun x hx => hW x (mem_append_right _ hx)
  | .break | .continue => exact .ok ⟨rfl, hV⟩
  | .block ss => exact tracedBlock_joined_of h hvalid (statements_rel hI ss) hF hV m

lemma statements_rel (hI : I.Sim (Joined references I.dialect) I') (ss : List Statement)
    {Γ Γ' : Scope} {before : List Statement} {rest : List YulString}
    (h : Joinable references I.dialect Γ Γ' before (referencesOfStatements ss ++ rest))
    (hvalid : statementsValid I.dialect Γ ss) {F F' : Functions}
    (hF : F.Rel (Joined references I.dialect) F')
    {X : TracedRun World (LoopState × Variables)} {V' : Variables} {m : SvmState World}
    (hX : Traced.Rel (Outcome (Behind Γ' before)) X (tracedStatements I' F' V' before.reverse m)) :
    Traced.Rel (Outcome (Behind Γ' (statements references before ss)))
      (X.bind fun r m => if r.1 = .default then tracedStatements I F r.2 ss m else .ok r m)
      (tracedStatements I' F' V' (statements references before ss) m) := by
  match ss with
  | [] =>
    have hbind : (X.bind fun r m =>
        if r.1 = .default then tracedStatements I F r.2 [] m else .ok r m) = X := by
      refine Eq.trans (bind_congr _ ?_) X.bind_ok
      rintro ⟨l, W⟩ m₁ -
      by_cases hl : l = .default
      · rw [if_pos hl, tracedStatements, hl]
      · rw [if_neg hl]
    rw [hbind]
    refine hX.mono fun r r' hr => ⟨hr.1, hr.2.1, fun hl x hx => hr.2.2 hl x ?_⟩
    simpa [statements] using hx
  | s :: ss =>
    rw [statementsValid, and_eq_true] at hvalid
    rw [referencesOfStatements, append_assoc] at h
    have hs := statement_valid s h hvalid.1
    have hstep := advance_step hI h hvalid.1 (fun hV m => statement_rel hI s h.visible.left
      hvalid.1 hF hV m) hX
    have hss := statements_rel hI ss (h.step (statement_valid s h hvalid.1)) hvalid.2 hF hstep
    have hbind : (X.bind fun r m =>
        if r.1 = .default then tracedStatements I F r.2 (s :: ss) m else .ok r m) =
        (X.bind fun r m => if r.1 = .default then s.traced I F r.2 m else .ok r m).bind
          fun r m => if r.1 = .default then tracedStatements I F r.2 ss m else .ok r m := by
      rw [bind_assoc]
      refine bind_congr _ ?_
      rintro ⟨l, W⟩ m₁ -
      by_cases hl : l = .default
      · rw [if_pos hl, if_pos hl, tracedStatements]
      · rw [if_neg hl, if_neg hl, ok_bind, if_neg hl]
    rw [hbind]
    exact hss

lemma cases_rel (hI : I.Sim (Joined references I.dialect) I') (cs : List Case) {Γ Γ' : Scope}
    (h : Visible references Γ Γ' (referencesOfCases cs))
    (hvalid : casesValid I.dialect Γ cs) {F F' : Functions}
    (hF : F.Rel (Joined references I.dialect) F') {V V' : Variables}
    (hV : Variables.AgreeOn Γ'.locals V V') (v : Word) (m : SvmState World) :
    Traced.Rel (SameOutcome (Variables.AgreeOn Γ'.locals)) (tracedCases I F V v cs m)
      (tracedCases I' F' V' v (cases references cs) m) := by
  match cs with
  | [] => exact .ok ⟨rfl, hV⟩
  | .mk value body :: cs =>
    simp only [casesValid, and_eq_true] at hvalid
    exact tracedCases_cons_rel
      (tracedBlock_joined_of h.left hvalid.1.2 (statements_rel hI body) hF hV m)
      (cases_rel hI cs h.right hvalid.2 hF hV v m)

end

lemma traced_function (hI : I.Sim (Joined references I.dialect) I')
    (hF : F.Rel (Joined references I.dialect) F') {d d' : FunctionDefinition}
    (hd : Joined references I.dialect d d') (vs : List Word) (m : SvmState World) :
    Traced.Rel Eq (d.traced I F vs m) (d'.traced I' F' vs m) := by
  obtain ⟨hparameters, hreturns, hcount, ⟨Γ, hΓ, hvalid⟩, hbody⟩ := hd
  have hvars : d'.variables vs = d.variables vs := by
    rw [FunctionDefinition.variables, FunctionDefinition.variables, hparameters, hreturns]
  rw [FunctionDefinition.traced, FunctionDefinition.traced, hvars, hreturns, hbody]
  refine (tracedBlock_joined_of (.refl Γ hcount) hvalid (statements_rel hI d.body) hF
    (fun _ _ => rfl) m).map ?_
  rintro ⟨l, W⟩ ⟨l', W'⟩ ⟨-, hW⟩
  refine map_congr_left fun r hr => congrArg (·.getD 0) (hW r.name ?_).symm
  rw [hΓ, map_append]
  exact mem_append_right _ (mem_map_of_mem hr)

end

lemma sameOperations_run {ss : Block} (hss : Block.valid dialect ss)
    (env : Environment World) : SameOperations env dialect ss (run ss) := by
  refine SameOperations.of_rel (A := Variables.AgreeOn Scope.empty.locals) fun n m => ?_
  refine tracedBlock_joined_of (I := .ofBound env dialect n)
    (.refl .empty (count_countReferences _)) hss (statements_rel ?_ ss) (fun _ => .none)
    (fun _ _ => rfl) m
  refine Tracer.sim_ofBound ?_ n
  rintro I I' rfl hI F F' hF d d' hd vs m
  exact traced_function (I := I) hI hF hd vs m

lemma names_run (ss : Block) : namesOfStatements (run ss) ⊆ namesOfStatements ss := by
  rw [run, block, names_removeEmptyBlocks]
  exact (names_statements [] ss).subset

end ExpressionJoiner

/-- A pass keeps the order of evaluation of a program: the result is disambiguated, and from every
state it executes the same opcodes and calls on the same values in the same order. -/
structure KeepsOrder (dialect : Dialect) (ss ss' : Block) : Prop where
  disambiguated : Block.Disambiguated dialect ss'
  sameOperations : ∀ {World : Type} (env : Environment World), SameOperations env dialect ss ss'

lemma KeepsOrder.trans {dialect : Dialect} {ss ss' ss'' : Block} (h : KeepsOrder dialect ss ss')
    (h' : KeepsOrder dialect ss' ss'') : KeepsOrder dialect ss ss'' :=
  ⟨h'.disambiguated, fun env => (h.sameOperations env).trans (h'.sameOperations env)⟩

lemma ExpressionSplitter.keepsOrder {dialect : Dialect} {ss : Block}
    (hss : Block.Disambiguated dialect ss) {nameDispenser : NameDispenser}
    (hused : namesOfStatements ss ⊆ nameDispenser.usedNames) :
    KeepsOrder dialect ss (run dialect nameDispenser ss) :=
  ⟨disambiguated_run hss hused, fun env => sameOperations_run hss hused env⟩

lemma ExpressionJoiner.keepsOrder {dialect : Dialect} {ss : Block}
    (hss : Block.Disambiguated dialect ss) : KeepsOrder dialect ss (run ss) :=
  ⟨disambiguated_run hss, fun env => sameOperations_run hss.valid env⟩

/-- Splitting expressions, joining them, and doing one after the other keeps the order of
evaluation of every disambiguated program. -/
theorem expressionSplitter_expressionJoiner_keepOrder (dialect : Dialect) (ss : Block)
    (hss : Block.Disambiguated dialect ss) (nameDispenser : NameDispenser)
    (hused : namesOfStatements ss ⊆ nameDispenser.usedNames) :
    KeepsOrder dialect ss (ExpressionSplitter.run dialect nameDispenser ss) ∧
      KeepsOrder dialect ss (ExpressionJoiner.run ss) ∧
      KeepsOrder dialect ss
        (ExpressionJoiner.run (ExpressionSplitter.run dialect nameDispenser ss)) ∧
      KeepsOrder dialect ss
        (ExpressionSplitter.run dialect nameDispenser (ExpressionJoiner.run ss)) := by
  have hsplit := ExpressionSplitter.keepsOrder hss hused
  have hjoin := ExpressionJoiner.keepsOrder hss
  refine ⟨hsplit, hjoin, hsplit.trans (ExpressionJoiner.keepsOrder hsplit.disambiguated), ?_⟩
  refine hjoin.trans (ExpressionSplitter.keepsOrder hjoin.disambiguated ?_)
  exact List.Subset.trans (ExpressionJoiner.names_run ss) hused

/-- `function f(a, b) -> r { sstore(a, b)  r := add(a, b) }
let x := f(1, f(mload(0), 2))  sstore(f(3, x), calldataload(0))` -/
def nestedCalls : Block :=
  [.functionDefinition "f" [⟨"a", ""⟩, ⟨"b", ""⟩] [⟨"r", ""⟩]
      [.expressionStatement (.functionCall "sstore" [.identifier "a", .identifier "b"]),
        .assignment ["r"] (.functionCall "add" [.identifier "a", .identifier "b"])],
    .variableDeclaration [⟨"x", ""⟩] (some (.functionCall "f" [.literal (.number "1"),
      .functionCall "f" [.functionCall "mload" [.literal (.number "0")],
        .literal (.number "2")]])),
    .expressionStatement (.functionCall "sstore"
      [.functionCall "f" [.literal (.number "3"), .identifier "x"],
        .functionCall "calldataload" [.literal (.number "0")]])]

theorem expressionSplitter_expressionJoiner_keepOrder_nestedCalls :
    KeepsOrder .strictAssemblyForSVMObjects nestedCalls
      (ExpressionJoiner.run (ExpressionSplitter.run .strictAssemblyForSVMObjects
        (.ofBlock .strictAssemblyForSVMObjects nestedCalls) nestedCalls)) :=
  (expressionSplitter_expressionJoiner_keepOrder .strictAssemblyForSVMObjects nestedCalls
    (by decide) (.ofBlock .strictAssemblyForSVMObjects nestedCalls)
    (List.Subset.refl _)).2.2.1

end Yul
