import Polc.Yul.Optimiser.ExpressionSplitter.Meaning

/-!
# The expression splitter keeps programs valid

The outlined expressions are valid where they are declared, and the new variables are visible where
they are used.
-/

namespace Yul

open Sof Semantics NameDispenser List Expression Bool

namespace ExpressionSplitter

variable {dialect : Dialect}

/-! ### Expressions -/

section

variable {Γ Γ' : Scope} {D D' : NameDispenser} {e : Expression} {pre pre' : List Statement}

lemma Declarations.locals_subset (h : Declarations D D' pre) (hΓ : Γ.locals ⊆ D.usedNames) :
    (Γ.declare (pre.flatMap (·.declares))).locals ⊆ D'.usedNames := by
  rw [← h.declares]
  refine List.append_subset.mpr ⟨fun x hx => ?_, List.Subset.trans hΓ h.renewed.used⟩
  exact ((h.renewed.mem x hx).resolve_left not_mem_nil).2

/-- The expression is a single value of the new scope. -/
def SingleValid (dialect : Dialect) (Γ : Scope) (e : Expression) : Prop :=
  e.valid dialect Γ = true ∧ e.returns dialect Γ = 1

lemma SingleValid.mono (h : SingleValid dialect Γ e) (hΓ : Γ.Extends Γ') :
    SingleValid dialect Γ' e := by
  obtain ⟨hvalid, hreturns⟩ := e.valid_of_extends hΓ h.1
  exact ⟨hvalid, hreturns.trans h.2⟩

lemma extends_declare_append (Γ : Scope) (pre pre' : List Statement) :
    ((Γ.declare (pre.flatMap (·.declares))).declare (pre'.flatMap (·.declares))).Extends
      (Γ.declare ((pre ++ pre').flatMap (·.declares))) := by
  refine ⟨fun x hx => ?_, fun _ _ h => h⟩
  simp only [Scope.locals_declare, mem_append, flatMap_append] at hx ⊢
  rcases hx with hx | hx | hx
  · exact .inl (.inr hx)
  · exact .inl (.inl hx)
  · exact .inr hx

lemma singleValid_outline {q : Outlined Expression}
    (hdeclarations : Declarations D q.nameDispenser q.statementsToPrefix)
    (hΓ : Γ'.locals ⊆ D.usedNames) (he : SingleValid dialect Γ' e)
    (hpre : statementsValid dialect Γ' q.statementsToPrefix)
    (hq : SingleValid dialect (Γ'.declare (q.statementsToPrefix.flatMap (·.declares))) q.code) :
    statementsValid dialect Γ' (outline D e q).statementsToPrefix ∧
      SingleValid dialect
        (Γ'.declare ((outline D e q).statementsToPrefix.flatMap (·.declares)))
        (outline D e q).code := by
  have hnew (r : NameDispenser) (hr : q.nameDispenser.usedNames ⊆ r.usedNames) :
      statementsValid dialect Γ' (q.statementsToPrefix ++
          [.variableDeclaration [⟨(r.newName "").1, ""⟩] (some q.code)]) = true ∧
        SingleValid dialect (Γ'.declare ((q.statementsToPrefix ++
          [Statement.variableDeclaration [⟨(r.newName "").1, ""⟩] (some q.code)]).flatMap
            (·.declares)))
          (.identifier (r.newName "").1) := by
    refine ⟨statementsValid_append_iff.mpr ⟨hpre, ?_⟩, ?_, rfl⟩
    · have hfresh : (r.newName "").1 ∉
          (Γ'.declare (q.statementsToPrefix.flatMap (·.declares))).locals :=
        fun hmem => (r.fresh_newName "").notUsed (hr (hdeclarations.locals_subset hΓ hmem))
      rw [statementsValid, valid_declaration, valueValid, hq.1, hq.2]
      simpa using hfresh
    · simp [Statement.declares]
  cases e with
  | identifier x => exact ⟨rfl, he⟩
  | _ => exact hnew _ (List.Subset.refl _)

mutual

/-- The declarations in front of a visited expression are valid, and the expression behind them. -/
lemma visit_valid (e : Expression) {D : NameDispenser} {Γ : Scope}
    (hΓ : Γ.locals ⊆ D.usedNames) (hvalid : e.valid dialect Γ) :
    statementsValid dialect Γ (visit dialect D e).statementsToPrefix ∧
      (visit dialect D e).code.valid dialect
        (Γ.declare ((visit dialect D e).statementsToPrefix.flatMap (·.declares))) ∧
      (visit dialect D e).code.returns dialect
        (Γ.declare ((visit dialect D e).statementsToPrefix.flatMap (·.declares))) =
          e.returns dialect Γ := by
  match e with
  | .functionalInstruction i args =>
    rw [valid_instruction, and_eq_true] at hvalid
    obtain ⟨hpre, hargs, hlength⟩ := outlineArguments_valid args hΓ hvalid.2
    refine ⟨hpre, ?_, rfl⟩
    rw [visit, valid_instruction, and_eq_true, hlength]
    exact ⟨hvalid.1, hargs⟩
  | .functionCall f args =>
    rw [visit]
    by_cases hf : dialect.requiresLiterals f = true
    · rw [if_pos hf]
      exact ⟨rfl, hvalid, rfl⟩
    · rw [valid_functionCall, and_eq_true, and_eq_true] at hvalid
      obtain ⟨hpre, hargs, hlength⟩ := outlineArguments_valid args hΓ hvalid.2
      rw [if_neg hf]
      refine ⟨hpre, ?_, rfl⟩
      rw [valid_functionCall, and_eq_true, and_eq_true, hlength]
      exact ⟨⟨hvalid.1.1, literalArgumentsValid_of_not hf _⟩, hargs⟩
  | .identifier x | .literal l => exact ⟨rfl, hvalid, rfl⟩

lemma outlineArguments_valid (es : List Expression) {D : NameDispenser} {Γ : Scope}
    (hΓ : Γ.locals ⊆ D.usedNames) (hvalid : argumentsValid dialect Γ es) :
    statementsValid dialect Γ (outlineArguments dialect D es).statementsToPrefix ∧
      argumentsValid dialect
        (Γ.declare ((outlineArguments dialect D es).statementsToPrefix.flatMap (·.declares)))
        (outlineArguments dialect D es).code ∧
      (outlineArguments dialect D es).code.length = es.length := by
  match es with
  | [] => exact ⟨rfl, rfl, rfl⟩
  | e :: es =>
    simp only [argumentsValid, and_eq_true, decide_eq_true_eq] at hvalid
    obtain ⟨⟨hes, he⟩, hreturns⟩ := hvalid
    obtain ⟨hpre, hargs, hlength⟩ := outlineArguments_valid es hΓ hes
    have hdeclarations := declarations_outlineArguments dialect es D
    have hΓ' := hdeclarations.locals_subset hΓ
    obtain ⟨he', hreturns'⟩ := e.valid_of_extends (.declare_right Γ
      ((outlineArguments dialect D es).statementsToPrefix.flatMap (·.declares))) he
    obtain ⟨hvpre, hvcode, hvreturns⟩ := visit_valid e hΓ' he'
    obtain ⟨hopre, hocode⟩ := singleValid_outline (declarations_visit dialect e _) hΓ'
      ⟨he', hreturns'.trans hreturns⟩ hvpre ⟨hvcode, hvreturns.trans (hreturns'.trans hreturns)⟩
    refine ⟨statementsValid_append_iff.mpr ⟨hpre, hopre⟩, ?_, congrArg (· + 1) hlength⟩
    have happend := extends_declare_append Γ
      (outlineArguments dialect D es).statementsToPrefix
      (outline (outlineArguments dialect D es).nameDispenser e
        (visit dialect (outlineArguments dialect D es).nameDispenser e)).statementsToPrefix
    have hcode := hocode.mono happend
    rw [outlineArguments, argumentsValid, and_eq_true, and_eq_true]
    refine ⟨⟨argumentsValid_of_extends ?_ _ hargs, hcode.1⟩, decide_eq_true hcode.2⟩
    exact (Scope.Extends.declare_right _ _).trans happend

end

end

/-! ### Statements -/

section

variable {Γ Γ' : Scope} {D D' D'' : NameDispenser} {N : List YulString} {pre : List Statement}

lemma Declarations.declares_append (h : Declarations D D' pre) {xs : List YulString}
    (hD : D'.usedNames ⊆ D''.usedNames) : Renewed D D'' xs (pre.flatMap (·.declares) ++ xs) := by
  rw [← h.declares]
  exact h.cons ((Renewed.refl D' xs).after hD)

lemma statement_declares (dialect : Dialect) (s : Statement) (D : NameDispenser) :
    Renewed D (statement dialect D s).nameDispenser s.declares
      (((statement dialect D s).statementsToPrefix ++ [(statement dialect D s).code]).flatMap
        (·.declares)) := by
  rw [flatMap_append, flatMap_singleton]
  cases s with
  | expressionStatement e | assignment xs e =>
    exact (declarations_visit dialect e D).declares_append (List.Subset.refl _)
  | variableDeclaration xs value =>
    exact (declarations_visitValue dialect value D).declares_append (List.Subset.refl _)
  | «if» c body =>
    exact (declarations_outlineExpression dialect c D).declares_append (statements_renewed dialect body _).used
  | «switch» e cs =>
    exact (declarations_outlineExpression dialect e D).declares_append (cases_renewed dialect cs _).used
  | _ => exact (Renewed.refl D []).after (statement_renewed dialect _ D).used

lemma statements_declares (dialect : Dialect) (ss : List Statement) (D : NameDispenser) :
    Renewed D (statements dialect D ss).2 (ss.flatMap (·.declares))
      ((statements dialect D ss).1.flatMap (·.declares)) := by
  induction ss generalizing D with
  | nil => exact .refl _ _
  | cons s ss ih =>
    have h := (statement_declares dialect s D).append (ih _)
    rw [← flatMap_append, append_assoc] at h
    exact h

lemma visibleFunctions_statements (ss : List Statement) (hN : Bounded N Γ D (namesOfStatements ss))
    (hvalid : statementsValid dialect Γ ss) :
    visibleFunctions (statements dialect D ss).1 = visibleFunctions ss := by
  refine visibleFunctions_eq_of_definesRelated (fun d d' hd => ?_)
    (definesRelated_statements ss hN hvalid)
  rw [hd.parameters, hd.returnVariables]
  exact ⟨rfl, rfl⟩

lemma blockValid_split_of {ss : Block} (hN : Bounded N Γ D (namesOfStatements ss))
    (hvalid : statementsValid dialect (Γ.register ss) ss) (hscoped : Scoped N D Γ Γ')
    (hss : ∀ {Γ Γ'}, Bounded N Γ D (namesOfStatements ss) → statementsValid dialect Γ ss →
      Scoped N D Γ Γ' → statementsValid dialect Γ' (statements dialect D ss).1) :
    statementsValid dialect (Γ'.register (statements dialect D ss).1)
      (statements dialect D ss).1 := by
  have hN' : Bounded N (Γ.register ss) D (namesOfStatements ss) :=
    hN.of_locals_eq Scope.locals_register
  exact hss hN' hvalid (hscoped.register (visibleFunctions_statements ss hN' hvalid))

lemma visited_valid {e : Expression} {s' : Statement} (hscoped : Scoped N D Γ Γ')
    (he : e.valid dialect Γ)
    (hs' : ∀ Γ₁, Γ₁ = Γ'.declare ((visit dialect D e).statementsToPrefix.flatMap (·.declares)) →
      (visit dialect D e).code.valid dialect Γ₁ →
      (visit dialect D e).code.returns dialect Γ₁ = e.returns dialect Γ →
        s'.valid dialect Γ₁) :
    statementsValid dialect Γ' ((visit dialect D e).statementsToPrefix ++ [s']) := by
  obtain ⟨he', hreturns'⟩ := e.valid_of_extends hscoped.toExtends he
  obtain ⟨hpre, hcode, hreturns⟩ := visit_valid e hscoped.used he'
  refine statementsValid_append_iff.mpr ⟨hpre, ?_⟩
  rw [statementsValid, statementsValid, Bool.and_true]
  exact hs' _ rfl hcode (hreturns.trans hreturns')

lemma outlined_valid {e : Expression} {s' : Statement} (hscoped : Scoped N D Γ Γ')
    (he : e.valid dialect Γ) (hreturns : e.returns dialect Γ = 1)
    (hs' : ∀ Γ₁,
      Γ₁ = Γ'.declare ((outlineExpression dialect D e).statementsToPrefix.flatMap (·.declares)) →
      SingleValid dialect Γ₁ (outlineExpression dialect D e).code → s'.valid dialect Γ₁) :
    statementsValid dialect Γ' ((outlineExpression dialect D e).statementsToPrefix ++ [s']) =
      true := by
  have hsingle : SingleValid dialect Γ' e := SingleValid.mono ⟨he, hreturns⟩ hscoped.toExtends
  obtain ⟨hpre, hcode, hvreturns⟩ := visit_valid e hscoped.used hsingle.1
  obtain ⟨hopre, hocode⟩ := singleValid_outline (declarations_visit dialect e D) hscoped.used hsingle hpre
    ⟨hcode, hvreturns.trans hsingle.2⟩
  refine statementsValid_append_iff.mpr ⟨hopre, ?_⟩
  rw [statementsValid, statementsValid, Bool.and_true]
  exact hs' _ rfl hocode

lemma Declarations.scoped (h : Declarations D D' pre) (hscoped : Scoped N D Γ Γ')
    (hN : N ⊆ D.usedNames) : Scoped N D' Γ (Γ'.declare (pre.flatMap (·.declares))) := by
  rw [← h.declares]
  exact hscoped.declare h.renewed hN (nil_subset N)

mutual

lemma statement_valid (s : Statement) {Γ Γ' : Scope} {D : NameDispenser}
    (hN : Bounded N Γ D s.names) (hvalid : s.valid dialect Γ)
    (hscoped : Scoped N D Γ Γ') :
    statementsValid dialect Γ' ((statement dialect D s).statementsToPrefix ++
      [(statement dialect D s).code]) := by
  match s with
  | .expressionStatement e =>
    rw [valid_expression, and_eq_true] at hvalid
    rw [statement]
    refine visited_valid hscoped hvalid.1 fun Γ₁ _ hcode hreturns => ?_
    rw [valid_expression, hcode, hreturns]
    exact hvalid.2
  | .assignment xs e =>
    rw [valid_assignment, and_eq_true, and_eq_true, all_eq_true] at hvalid
    rw [statement]
    refine visited_valid hscoped hvalid.1.2 fun Γ₁ hΓ₁ hcode hreturns => ?_
    rw [valid_assignment, hcode, hreturns, hvalid.2, Bool.and_true, Bool.and_true,
      all_eq_true]
    subst hΓ₁
    exact fun x hx => decide_eq_true (mem_append_right _
      (hscoped.locals (of_decide_eq_true (hvalid.1.1 x hx))))
  | .variableDeclaration xs value =>
    rw [valid_declaration, and_eq_true, and_eq_true, all_eq_true] at hvalid
    obtain ⟨⟨hnodup, hnew⟩, hvalue⟩ := hvalid
    have hxs (pre : List Statement) {D' : NameDispenser} (h : Declarations D D' pre) :
        xs.all (fun x => decide (x.name ∉ (Γ'.declare (pre.flatMap (·.declares))).locals)) =
          true := by
      refine List.all_eq_true.mpr fun x hx => decide_eq_true fun hmem => ?_
      have hxN : x.name ∈ N := hN.subset (mem_map_of_mem hx)
      rcases (h.scoped hscoped hN.used).new x.name hmem with hmem | hmem
      · exact of_decide_eq_true (hnew x hx) hmem
      · exact hmem hxN
    cases value with
    | none =>
      have hnil : xs.all (fun x => decide (x.name ∉ Γ'.locals)) = true := hxs [] (.nil D)
      rw [statement, visitValue, nil_append, statementsValid, valid_declaration,
        hnodup, hnil]
      rfl
    | some e =>
      rw [valueValid, and_eq_true] at hvalue
      rw [statement, visitValue]
      refine visited_valid hscoped hvalue.1 fun Γ₁ hΓ₁ hcode hreturns => ?_
      subst hΓ₁
      rw [valid_declaration, hnodup, hxs _ (declarations_visit dialect e D), valueValid, hcode,
        hreturns, hvalue.2]
      rfl
  | .functionDefinition f ps rs body =>
    rw [valid_function, and_eq_true] at hvalid
    have hsubset : f :: ps.map (·.name) ++ rs.map (·.name) ++ namesOfStatements body ⊆ N :=
      hN.subset
    rw [append_subset] at hsubset
    have hlocals : (ps ++ rs).map (·.name) ⊆ N := by
      rw [map_append]
      exact fun x hx => hsubset.1 (mem_cons_of_mem _ hx)
    rw [statement, nil_append, statementsValid, statementsValid, Bool.and_true,
      valid_function, and_eq_true, hscoped.component, hscoped.functions]
    refine ⟨hvalid.1, ?_⟩
    exact blockValid_split_of ⟨hN.used, hlocals, hsubset.2⟩ hvalid.2
      ⟨List.Subset.refl _, rfl, rfl, fun _ h => .inl h, List.Subset.trans hlocals hN.used⟩
      (statements_valid body)
  | .if c body =>
    rw [valid_if, and_eq_true, and_eq_true, decide_eq_true_eq] at hvalid
    rw [statement]
    refine outlined_valid hscoped hvalid.1.1 hvalid.1.2 fun Γ₁ hΓ₁ hc => ?_
    subst hΓ₁
    rw [valid_if, hc.1, hc.2, and_eq_true]
    exact ⟨rfl, blockValid_split_of (hN.outlined dialect c) hvalid.2
      ((declarations_outlineExpression dialect c D).scoped hscoped hN.used) (statements_valid body)⟩
  | .switch e cs =>
    rw [valid_switch, and_eq_true, and_eq_true, decide_eq_true_eq] at hvalid
    rw [statement]
    refine outlined_valid hscoped hvalid.1.1 hvalid.1.2 fun Γ₁ hΓ₁ he => ?_
    subst hΓ₁
    rw [valid_switch, he.1, he.2, and_eq_true]
    exact ⟨rfl, cases_valid cs (hN.outlined dialect e) hvalid.2
      ((declarations_outlineExpression dialect e D).scoped hscoped hN.used)⟩
  | .forLoop pre c post body =>
    simp only [valid_forLoop, and_eq_true, decide_eq_true_eq] at hvalid
    obtain ⟨⟨⟨⟨hpre, hc⟩, hreturns⟩, hpost⟩, hbody⟩ := hvalid
    have hN' : Bounded N Γ D (namesOfStatements pre ++ namesOfStatements body ++
        namesOfStatements post) := hN
    have hsubset := List.Subset.trans (flatMap_declares_subset_names pre) hN'.left.left.subset
    have hscoped' := hscoped.declare (statements_declares dialect pre D) hN.used
      hsubset
    obtain ⟨hc', hreturns'⟩ := c.valid_of_extends hscoped'.toExtends hc
    have hpostN := (hN'.right.afterStatements dialect pre).declare hsubset
    have hbodyN := ((hN'.left.right.afterStatements dialect pre).afterStatements dialect
      post).declare hsubset
    rw [statement, nil_append, statementsValid, statementsValid, Bool.and_true]
    simp only [valid_forLoop, and_eq_true, decide_eq_true_eq]
    refine ⟨⟨⟨⟨statements_valid pre (hN'.left.left.enter _) hpre (hscoped.enter _), hc'⟩,
      hreturns'.trans hreturns⟩, ?_⟩, ?_⟩
    · exact blockValid_split_of (hpostN.enter _) hpost (hscoped'.enter _) (statements_valid post)
    · exact blockValid_split_of (hbodyN.enter _) hbody
        ((hscoped'.after (statements_renewed dialect post _).used).enter _) (statements_valid body)
  | .break | .continue =>
    rw [statement, nil_append, statementsValid, statementsValid, Bool.and_true]
    exact decide_eq_true (hscoped.component.trans (of_decide_eq_true hvalid))
  | .block ss =>
    rw [statement, nil_append, statementsValid, statementsValid, Bool.and_true,
      valid_block]
    exact blockValid_split_of hN hvalid hscoped (statements_valid ss)

lemma statements_valid (ss : List Statement) {D : NameDispenser} {Γ Γ' : Scope}
    (hN : Bounded N Γ D (namesOfStatements ss)) (hvalid : statementsValid dialect Γ ss)
    (hscoped : Scoped N D Γ Γ') : statementsValid dialect Γ' (statements dialect D ss).1 := by
  match ss with
  | [] => rfl
  | s :: ss =>
    rw [statementsValid, and_eq_true] at hvalid
    have hs := statement_valid s hN.left hvalid.1 hscoped
    have hscoped' := hscoped.declare (statement_declares dialect s D) hN.used
      (List.Subset.trans (declares_subset_names s) hN.left.subset)
    have hss := statements_valid ss (hN.statement dialect) hvalid.2 hscoped'
    have happend := statementsValid_append_iff.mpr ⟨hs, hss⟩
    rw [append_assoc] at happend
    exact happend

lemma cases_valid (cs : List Case) {D : NameDispenser} {Γ Γ' : Scope}
    (hN : Bounded N Γ D (namesOfCases cs)) (hvalid : casesValid dialect Γ cs)
    (hscoped : Scoped N D Γ Γ') : casesValid dialect Γ' (cases dialect D cs).1 := by
  match cs with
  | [] => rfl
  | .mk value body :: cs =>
    simp only [casesValid, and_eq_true] at hvalid
    have hN' : Bounded N Γ D (namesOfStatements body ++ namesOfCases cs) := hN
    rw [cases, casesValid, and_eq_true, and_eq_true]
    refine ⟨⟨hvalid.1.1, blockValid_split_of hN'.left hvalid.1.2 hscoped
      (statements_valid body)⟩, ?_⟩
    exact cases_valid cs (hN'.right.afterStatements dialect body) hvalid.2
      (hscoped.after (statements_renewed dialect body D).used)

end

end

lemma bounded_start {ss : Block} {nameDispenser : NameDispenser}
    (hused : namesOfStatements ss ⊆ nameDispenser.usedNames) :
    Bounded (namesOfStatements ss) .empty nameDispenser (namesOfStatements ss) :=
  ⟨hused, nil_subset _, List.Subset.refl _⟩

lemma disambiguated_run {ss : Block} (hss : Block.Disambiguated dialect ss)
    {nameDispenser : NameDispenser} (hused : namesOfStatements ss ⊆ nameDispenser.usedNames) :
    Block.Disambiguated dialect (run dialect nameDispenser ss) where
  valid := blockValid_split_of (bounded_start hused) hss.valid (.refl_empty _ _)
    (statements_valid ss)
  nodup := (statements_renewed dialect ss nameDispenser).nodup hused hss.nodup

variable {World : Type}

lemma traced_function {N : List YulString} {I I' : Tracer World}
    (hI : I.Sim (Split I.dialect N) I') {F F' : Functions}
    (hF : F.Rel (Split I.dialect N) F') {d d' : FunctionDefinition}
    (hd : Split I.dialect N d d') (vs : List Word) (m : SvmState World) :
    Traced.Rel Eq (d.traced I F vs m) (d'.traced I' F' vs m) := by
  obtain ⟨hparameters, hreturns, Γ, D, hΓ, hN, hvalid, hbody⟩ := hd
  have hvars : d'.variables vs = d.variables vs := by
    rw [FunctionDefinition.variables, FunctionDefinition.variables, hparameters, hreturns]
  rw [FunctionDefinition.traced, FunctionDefinition.traced, hvars, hreturns, hbody]
  refine (tracedBlock_split_of hN hvalid (statements_rel hI d.body) hF (fun _ _ => rfl) m).map ?_
  rintro ⟨l, W⟩ ⟨l', W'⟩ ⟨-, hW⟩
  refine map_congr_left fun r hr => ?_
  have hr' : r.name ∈ N := hN.locals (by
    rw [hΓ, map_append]
    exact mem_append_right _ (mem_map_of_mem hr))
  exact congrArg (·.getD 0) (hW r.name hr').symm

lemma sameOperations_run {ss : Block} (hss : Block.Disambiguated dialect ss)
    {nameDispenser : NameDispenser} (hused : namesOfStatements ss ⊆ nameDispenser.usedNames)
    (env : Environment World) :
    SameOperations env dialect ss (run dialect nameDispenser ss) := by
  refine SameOperations.of_rel (A := Variables.AgreeOn (namesOfStatements ss)) fun n m => ?_
  refine tracedBlock_split_of (I := .ofBound env dialect n) (bounded_start hused) hss.valid
    (statements_rel ?_ ss) (fun _ => .none) (fun _ _ => rfl) m
  refine Tracer.sim_ofBound ?_ n
  rintro I I' rfl hI F F' hF d d' hd vs m
  exact traced_function (I := I) hI hF hd vs m

end ExpressionSplitter

end Yul
