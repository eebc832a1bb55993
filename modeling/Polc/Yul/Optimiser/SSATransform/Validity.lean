import Polc.Yul.Optimiser.SSATransform.Meaning

/-!
# The SSA transform makes valid programs

New variables are declared before they are copied, and current values are cleared at the end of
the block that declares them.
-/

namespace Yul

open List Expression Scope Bool

namespace SSATransform

/-! ### Scopes -/

/-- The scope of transformed code: new variables come in addition, the current values included. -/
structure Scoped (N : List YulString) (Γ Γ' : Scope) (T : SSATransform) : Prop where
  locals : Γ.locals ⊆ Γ'.locals
  functions : Γ'.functions = Γ.functions
  component : Γ'.component = Γ.component
  new : ∀ x ∈ Γ'.locals, x ∈ Γ.locals ∨ x ∉ N
  used : Γ'.locals ⊆ T.nameDispenser.usedNames
  value : ∀ x y, T.currentVariableValues x = some y → x ∈ Γ.locals → y ∈ Γ'.locals

/-- From `T` to `T'`, over code that declares `ds` and becomes code that declares `ds'`. -/
structure Declares (T T' : SSATransform) (ds ds' : List YulString) : Prop where
  used : T.nameDispenser.usedNames ⊆ T'.nameDispenser.usedNames
  old : ds ⊆ ds'
  new : ∀ x ∈ ds', x ∈ ds ∨ x ∉ T.nameDispenser.usedNames ∧ x ∈ T'.nameDispenser.usedNames
  value : ∀ x y, T'.currentVariableValues x = some y → T.currentVariableValues x = some y ∨ y ∈ ds'

section

variable {dialect : Dialect} {N rest variablesToReplace : List YulString} {Γ Γ' Γ₁ Γ₁' : Scope}
  {T T' T'' U : SSATransform} {ds ds' ds₁ ds₁' : List YulString}

lemma Declares.refl (T : SSATransform) (ds : List YulString) : Declares T T ds ds :=
  ⟨List.Subset.refl _, List.Subset.refl _, fun _ h => .inl h, fun _ _ h => .inl h⟩

lemma Declares.append (h : Declares T T' ds ds') (h' : Declares T' T'' ds₁ ds₁') :
    Declares T T'' (ds ++ ds₁) (ds' ++ ds₁') where
  used := List.Subset.trans h.used h'.used
  old := append_subset_append h.old h'.old
  new x hx := by
    rw [mem_append]
    rcases mem_append.mp hx with hx | hx
    · rcases h.new x hx with hx | ⟨hnew, hused⟩
      · exact .inl (.inl hx)
      · exact .inr ⟨hnew, h'.used hused⟩
    · rcases h'.new x hx with hx | ⟨hnew, hused⟩
      · exact .inl (.inr hx)
      · exact .inr ⟨fun hmem => hnew (h.used hmem), hused⟩
  value x y hy := by
    rw [mem_append]
    rcases h'.value x y hy with hy | hy
    · exact (h.value x y hy).imp_right .inl
    · exact .inr (.inr hy)

lemma Scoped.declare {names : List YulString} (h : Scoped N Γ Γ' T)
    (hready : Ready N Γ T names) (hds : ds ⊆ names) (hdeclares : Declares T T' ds ds')
    (hU : ∀ x y, U.currentVariableValues x = some y → T'.currentVariableValues x = some y)
    (hUsed : U.nameDispenser = T'.nameDispenser) (hΓ₁ : Γ₁ = Γ.declare ds)
    (hlocals : ∀ x, x ∈ Γ₁'.locals ↔ x ∈ ds' ∨ x ∈ Γ'.locals)
    (hfunctions : Γ₁'.functions = Γ'.functions) (hcomponent : Γ₁'.component = Γ'.component) :
    Scoped N Γ₁ Γ₁' U := by
  subst hΓ₁
  refine ⟨fun x hx => (hlocals x).mpr ?_, hfunctions.trans h.functions,
    hcomponent.trans h.component, fun x hx => ?_, fun x hx => ?_, fun x y hy hx => ?_⟩
  · exact (mem_append.mp hx).imp (fun hx => hdeclares.old hx) fun hx => h.locals hx
  · rcases (hlocals x).mp hx with hx | hx
    · rcases hdeclares.new x hx with hx | ⟨hnew, -⟩
      · exact .inl (mem_append_left _ hx)
      · exact .inr fun hN => hnew (hready.used hN)
    · exact (h.new x hx).imp_left fun hx => mem_append_right _ hx
  · rw [hUsed]
    rcases (hlocals x).mp hx with hx | hx
    · rcases hdeclares.new x hx with hx | ⟨-, hused⟩
      · exact hdeclares.used (hready.used (hready.subset (hds hx)))
      · exact hused
    · exact hdeclares.used (h.used hx)
  · refine (hlocals y).mpr ?_
    rcases hdeclares.value x y (hU x y hy) with hy | hy
    · refine .inr (h.value x y hy ((mem_append.mp hx).resolve_left fun hx => ?_))
      rw [(hready.new x (hds hx)).2] at hy
      cases hy
    · exact .inl hy

lemma Scoped.enter (h : Scoped N Γ Γ' T) (k : ForLoopComponent) :
    Scoped N (Γ.enter k) (Γ'.enter k) T :=
  ⟨h.locals, h.functions, rfl, h.new, h.used, h.value⟩

lemma Scoped.register (h : Scoped N Γ Γ' T) {ss ts : Block}
    (hvisible : visibleFunctions ts = visibleFunctions ss) :
    Scoped N (Γ.register ss) (Γ'.register ts) T := by
  rw [register_eq, register_eq, hvisible, h.functions]
  exact ⟨h.locals, rfl, h.component, h.new, h.used, h.value⟩

lemma Scoped.of_value (h : Scoped N Γ Γ' T)
    (hused : T.nameDispenser.usedNames ⊆ U.nameDispenser.usedNames)
    (hU : ∀ x y, U.currentVariableValues x = some y → T.currentVariableValues x = some y) :
    Scoped N Γ Γ' U :=
  ⟨h.locals, h.functions, h.component, h.new, List.Subset.trans h.used hused,
    fun x y hy hx => h.value x y (hU x y hy) hx⟩

end

/-! ### Expressions -/

section

variable {dialect : Dialect} {N : List YulString} {Γ Γ' : Scope} {T : SSATransform}

lemma Scoped.arity (h : Scoped N Γ Γ' T) (f : YulString) :
    Γ'.arity dialect f = Γ.arity dialect f := by
  rw [Scope.arity, Scope.arity, h.functions]

lemma Scoped.returns (h : Scoped N Γ Γ' T) (e : Expression) (values : YulString → Option YulString) :
    (visit values e).returns dialect Γ' = e.returns dialect Γ := by
  cases e with
  | functionCall f args => rw [visit, Expression.returns, Expression.returns, h.arity]
  | _ => rfl

lemma literalArgumentsValid_visitArguments (f : YulString) (es : List Expression)
    (values : YulString → Option YulString) :
    literalArgumentsValid dialect f (visitArguments values es) =
      literalArgumentsValid dialect f es := by
  unfold literalArgumentsValid
  cases dialect.builtin f with
  | none => rfl
  | some b =>
    refine congrArg (!b.literalArguments || ·) ?_
    induction es with
    | nil => rfl
    | cons e es ih =>
      rw [visitArguments, all_cons, all_cons, ih]
      cases e <;> rfl

lemma length_visitArguments (values : YulString → Option YulString) (es : List Expression) :
    (visitArguments values es).length = es.length := by
  induction es with
  | nil => rfl
  | cons e es ih => rw [visitArguments, length_cons, length_cons, ih]

mutual

lemma valid_visit (h : Scoped N Γ Γ' T) (e : Expression) (hvalid : e.valid dialect Γ) :
    (visit T.currentVariableValues e).valid dialect Γ' := by
  match e with
  | .functionalInstruction i args =>
    rw [valid_instruction, and_eq_true] at hvalid
    rw [visit, valid_instruction, and_eq_true, length_visitArguments]
    exact ⟨hvalid.1, valid_visitArguments h args hvalid.2⟩
  | .functionCall f args =>
    rw [valid_functionCall, and_eq_true] at hvalid
    rw [visit, valid_functionCall, and_eq_true, h.arity,
      literalArgumentsValid_visitArguments, length_visitArguments]
    exact ⟨hvalid.1, valid_visitArguments h args hvalid.2⟩
  | .identifier x =>
    rw [valid_identifier, decide_eq_true_eq] at hvalid
    rw [visit, valid_identifier, decide_eq_true_eq]
    cases hvalue : T.currentVariableValues x with
    | none => exact h.locals hvalid
    | some y => exact h.value x y hvalue hvalid
  | .literal l => exact hvalid

lemma valid_visitArguments (h : Scoped N Γ Γ' T) (es : List Expression)
    (hvalid : argumentsValid dialect Γ es) :
    argumentsValid dialect Γ' (visitArguments T.currentVariableValues es) := by
  match es with
  | [] => rfl
  | e :: es =>
    simp only [argumentsValid, and_eq_true] at hvalid
    simp only [visitArguments, argumentsValid, and_eq_true, h.returns]
    exact ⟨⟨valid_visitArguments h es hvalid.1.1, valid_visit h e hvalid.1.2⟩, hvalid.2⟩

end

lemma valueValid_visit (h : Scoped N Γ Γ' T) {n : Nat} {value : Option Expression}
    (hvalid : valueValid dialect Γ n value) :
    valueValid dialect Γ' n (value.map (visit T.currentVariableValues)) := by
  cases value with
  | none => rfl
  | some e =>
    rw [valueValid, and_eq_true] at hvalid
    rw [Option.map_some, valueValid, and_eq_true, h.returns]
    exact ⟨valid_visit h e hvalid.1, hvalid.2⟩

end

section

variable {dialect : Dialect} {N : List YulString} {Γ Γ' : Scope} {T : SSATransform}
  {pairs : List (YulString × YulString)}

lemma valid_declareCopies {Γ : Scope} (hnew : ∀ p ∈ pairs, p.2 ∈ Γ.locals)
    (hold : ∀ p ∈ pairs, p.1 ∉ Γ.locals) (hnodup : (pairs.map (·.1)).Nodup) :
    statementsValid dialect Γ (declareCopies pairs) := by
  induction pairs generalizing Γ with
  | nil => rfl
  | cons p pairs ih =>
    rw [forall_mem_cons] at hnew hold
    rw [map_cons, nodup_cons] at hnodup
    rw [declareCopies, map_cons, statementsValid, and_eq_true]
    constructor
    · simp [valid_declaration, valueValid, hnew.1, hold.1, Expression.returns]
    · refine ih (fun q hq => mem_append_right _ (hnew.2 q hq)) (fun q hq hmem => ?_) hnodup.2
      rcases mem_append.mp hmem with hmem | hmem
      · have hq' : q.1 = p.1 := mem_singleton.mp hmem
        exact hnodup.1 (hq' ▸ mem_map_of_mem hq)
      · exact hold.2 q hq hmem

lemma valid_assignCopies {Γ : Scope} (h : ∀ p ∈ pairs, p.1 ∈ Γ.locals ∧ p.2 ∈ Γ.locals) :
    statementsValid dialect Γ (assignCopies pairs) := by
  induction pairs with
  | nil => rfl
  | cons p pairs ih =>
    rw [forall_mem_cons] at h
    rw [assignCopies, map_cons, statementsValid, and_eq_true]
    constructor
    · simp [valid_assignment, h.1, Expression.returns]
    · exact ih h.2

lemma valid_declareNew {xs : List YulString} {value : Option Expression}
    (hused : Γ'.locals ⊆ T.nameDispenser.usedNames)
    (hvalue : valueValid dialect Γ' xs.length value) :
    (declareNew (T.newVariables xs).1 value).valid dialect Γ' := by
  have hnew := T.newVariables_spec xs
  have hlength : (T.newVariables xs).1.length = xs.length := by
    rw [← length_map, hnew.old]
  rw [declareNew, valid_declaration, and_eq_true, and_eq_true, map_map,
    length_map, hlength]
  refine ⟨⟨decide_eq_true hnew.nodup, all_eq_true.mpr fun z hz => ?_⟩, hvalue⟩
  obtain ⟨p, hp, rfl⟩ := mem_map.mp hz
  exact decide_eq_true fun hmem => (hnew.fresh p hp).1.notUsed (hused hmem)

end

/-! ### Statements -/

section

variable {dialect : Dialect} {N rest variablesToReplace : List YulString}

lemma flatMap_declares_copies (pairs : List (YulString × YulString)) :
    (declareCopies pairs).flatMap (·.declares) = pairs.map (·.1) ∧
      (assignCopies pairs).flatMap (·.declares) = [] := by
  induction pairs with
  | nil => exact ⟨rfl, rfl⟩
  | cons p pairs ih => exact ⟨congrArg (p.1 :: ·) ih.1, ih.2⟩

lemma declares_newVariables (T : SSATransform) (xs ds : List YulString) {ds' : List YulString}
    (hds' : ds' = (T.newVariables xs).1.map (·.2) ++ ds) :
    Declares T (T.newVariables xs).2 ds ds' := by
  subst hds'
  have hnew := T.newVariables_spec xs
  refine ⟨hnew.used, subset_append_right _ _, fun x hx => ?_, fun x y hy => ?_⟩
  · refine (mem_append.mp hx).symm.imp_right fun hx => ?_
    obtain ⟨p, hp, rfl⟩ := mem_map.mp hx
    exact ⟨(hnew.fresh p hp).1.notUsed, (hnew.fresh p hp).2⟩
  · rw [hnew.values] at hy
    rcases setValues_eq_some hy with ⟨-, hy⟩ | hmem
    · exact .inl hy
    · have hmem' : y ∈ (T.newVariables xs).1.map (·.2) := mem_map_of_mem hmem
      exact .inr (mem_append_left _ hmem')

lemma statement_declares (s : Statement) (T : SSATransform) :
    Declares T (statement variablesToReplace T s).2.1 s.declares
      ((statement variablesToReplace T s).1.flatMap (·.declares)) := by
  have hstep := statement_step variablesToReplace s T
  have hnothing (hds : s.declares = [])
      (hds' : (statement variablesToReplace T s).1.flatMap (·.declares) = [])
      (hcleared : (statement variablesToReplace T s).2.2 = []) :
      Declares T (statement variablesToReplace T s).2.1 s.declares
        ((statement variablesToReplace T s).1.flatMap (·.declares)) := by
    rw [hds, hds']
    refine ⟨hstep.used, List.Subset.refl _, nofun, fun x y hy => .inl ?_⟩
    rw [hcleared] at hstep
    exact ((hstep.value x y hy).resolve_right fun h => not_mem_nil h.1).1
  cases s with
  | variableDeclaration xs value =>
    rw [statement]
    split
    · refine declares_newVariables T _ _ ?_
      rw [flatMap_cons, (flatMap_declares_copies _).1, (T.newVariables_spec _).old, declareNew,
        Statement.declares, map_map]
      rfl
    · rw [flatMap_cons, flatMap_nil, append_nil]
      exact .refl T _
  | assignment xs e =>
    rw [statement]
    refine declares_newVariables T xs [] ?_
    rw [flatMap_cons, (flatMap_declares_copies _).2, declareNew, Statement.declares,
      map_map]
    rfl
  | _ => exact hnothing rfl rfl rfl

lemma statements_declares (ss : List Statement) (T : SSATransform) :
    Declares T (statements variablesToReplace T ss).2.1 (ss.flatMap (·.declares))
      ((statements variablesToReplace T ss).1.flatMap (·.declares)) := by
  induction ss generalizing T with
  | nil => exact .refl T []
  | cons s ss ih =>
    rw [statements, flatMap_cons, flatMap_append]
    exact (statement_declares s T).append (ih _)

lemma visibleFunctions_statements (ss : List Statement) {Γ : Scope} {T : SSATransform}
    (hready : Ready N Γ T (namesOfStatements ss)) (hvalid : statementsValid dialect Γ ss) :
    visibleFunctions (statements variablesToReplace T ss).1 = visibleFunctions ss := by
  refine visibleFunctions_eq_of_definesRelated ?_ (definesRelated_statements ss hready hvalid)
  intro d d' hd
  rw [hd.parameters, hd.returnVariables]
  exact ⟨rfl, rfl⟩

lemma blockValid_transform_of {Γ Γ' : Scope} {T : SSATransform} {ss : Block}
    (hready : Ready N Γ T (namesOfStatements ss))
    (hvalid : statementsValid dialect (Γ.register ss) ss) (hscoped : Scoped N Γ Γ' T)
    (hss : ∀ {Γ Γ'}, Ready N Γ T (namesOfStatements ss) → statementsValid dialect Γ ss →
      Scoped N Γ Γ' T →
        statementsValid dialect Γ' (statements variablesToReplace T ss).1) :
    statementsValid dialect (Γ'.register (statements variablesToReplace T ss).1)
      (statements variablesToReplace T ss).1 := by
  have hready' : Ready N (Γ.register ss) T (namesOfStatements ss) :=
    hready.of_locals_eq locals_register
  exact hss hready' hvalid (hscoped.register (visibleFunctions_statements ss hready' hvalid))

mutual

lemma valid_transform (s : Statement) {Γ Γ' : Scope} {T : SSATransform}
    (hready : Ready N Γ T s.names) (hvalid : s.valid dialect Γ)
    (hscoped : Scoped N Γ Γ' T) :
    statementsValid dialect Γ' (statement variablesToReplace T s).1 := by
  match s with
  | .expressionStatement e =>
    rw [valid_expression, and_eq_true] at hvalid
    rw [statement, statementsValid, statementsValid, Bool.and_true,
      valid_expression, and_eq_true, hscoped.returns]
    exact ⟨valid_visit hscoped e hvalid.1, hvalid.2⟩
  | .assignment xs e =>
    rw [valid_assignment, and_eq_true, and_eq_true, all_eq_true] at hvalid
    have hnew := T.newVariables_spec xs
    rw [statement, statementsValid, and_eq_true]
    constructor
    · refine valid_declareNew hscoped.used ?_
      rw [valueValid, and_eq_true, hscoped.returns]
      exact ⟨valid_visit hscoped e hvalid.1.2, hvalid.2⟩
    · refine valid_assignCopies fun p hp => ⟨?_, ?_⟩
      · have hx : p.1 ∈ xs := hnew.old ▸ mem_map_of_mem hp
        exact mem_append_right _ (hscoped.locals (of_decide_eq_true (hvalid.1.1 p.1 hx)))
      · refine mem_append_left _ ?_
        rw [declareNew, Statement.declares, map_map]
        exact mem_map_of_mem hp
  | .variableDeclaration xs value =>
    rw [valid_declaration, and_eq_true, and_eq_true, all_eq_true,
      decide_eq_true_eq] at hvalid
    obtain ⟨⟨hnodup, hxs⟩, hvalue⟩ := hvalid
    have hnames : Ready N Γ T (xs.map (·.name)) := hready
    have hnotLocal {x : YulString} (hx : x ∈ xs.map (·.name)) : x ∉ Γ'.locals := by
      intro hmem
      rcases hscoped.new x hmem with hmem | hN
      · exact (hnames.new x hx).1 hmem
      · exact hN (hnames.subset hx)
    rw [statement]
    split
    · have hnew := T.newVariables_spec (xs.map (·.name))
      rw [statementsValid, and_eq_true]
      constructor
      · refine valid_declareNew hscoped.used ?_
        rw [length_map]
        exact valueValid_visit hscoped hvalue
      · refine valid_declareCopies (fun p hp => ?_) (fun p hp hmem => ?_)
          (by rw [hnew.old]; exact hnodup)
        · refine mem_append_left _ ?_
          rw [declareNew, Statement.declares, map_map]
          exact mem_map_of_mem hp
        · have hx : p.1 ∈ xs.map (·.name) := hnew.old ▸ mem_map_of_mem hp
          rw [locals_declare, declareNew, Statement.declares, map_map] at hmem
          rcases mem_append.mp hmem with hmem | hmem
          · obtain ⟨q, hq, heq⟩ := mem_map.mp hmem
            refine (hnew.fresh q hq).1.notUsed (hnames.used ?_)
            exact (show q.2 = p.1 from heq) ▸ hnames.subset hx
          · exact hnotLocal hx hmem
    · rw [statementsValid, statementsValid, Bool.and_true, valid_declaration,
        and_eq_true, and_eq_true, all_eq_true]
      refine ⟨⟨decide_eq_true hnodup, fun x hx => ?_⟩, valueValid_visit hscoped hvalue⟩
      exact decide_eq_true (hnotLocal (mem_map_of_mem hx))
  | .functionDefinition f ps rs body =>
    rw [valid_function, and_eq_true, and_eq_true] at hvalid
    obtain ⟨hbody, hnone⟩ := hready.function Γ.functions .none
    rw [statement, statementsValid, statementsValid, Bool.and_true,
      valid_function, and_eq_true, and_eq_true, hscoped.component,
      hscoped.functions]
    refine ⟨hvalid.1, blockValid_transform_of hbody hvalid.2 ?_ (valid_statements body)⟩
    refine ⟨List.Subset.refl _, rfl, rfl, fun _ hx => .inl hx,
      fun x hx => hready.used (hbody.locals hx), fun x y hy hx => ?_⟩
    rw [hnone x hx] at hy
    cases hy
  | .if c body =>
    rw [valid_if, and_eq_true, and_eq_true] at hvalid
    rw [statement, statementsValid, statementsValid, Bool.and_true, valid_if,
      and_eq_true, and_eq_true, hscoped.returns]
    exact ⟨⟨valid_visit hscoped c hvalid.1.1, hvalid.1.2⟩,
      blockValid_transform_of hready hvalid.2 hscoped (valid_statements body)⟩
  | .switch e cs =>
    rw [valid_switch, and_eq_true, and_eq_true] at hvalid
    rw [statement, statementsValid, statementsValid, Bool.and_true, valid_switch,
      and_eq_true, and_eq_true, hscoped.returns]
    exact ⟨⟨valid_visit hscoped e hvalid.1.1, hvalid.1.2⟩,
      valid_cases cs hready hvalid.2 hscoped⟩
  | .forLoop pre c post body =>
    simp only [valid_forLoop, and_eq_true] at hvalid
    obtain ⟨⟨⟨⟨hpre, hc⟩, hreturns⟩, hpost⟩, hbody⟩ := hvalid
    obtain ⟨hready₀, hready₁⟩ := hready.loop variablesToReplace
    have hscoped₁ : Scoped N (Γ.declare (pre.flatMap (·.declares)))
        (Γ'.declare ((statements variablesToReplace T pre).1.flatMap (·.declares)))
        (loopState variablesToReplace T pre post body) :=
      hscoped.declare hready₀ (flatMap_declares_subset_names pre) (statements_declares pre T)
        (fun x y hy => (erase_eq_some.mp (erase_eq_some.mp hy).2).2) rfl rfl
        (fun x => mem_append) rfl rfl
    have hstepBody := step_loopBodyState variablesToReplace T pre post body
    rw [statement, statementsValid, statementsValid, Bool.and_true]
    simp only [valid_forLoop, and_eq_true, hscoped₁.returns]
    refine ⟨⟨⟨⟨valid_statements pre (hready₀.enter _) hpre (hscoped.enter _),
      valid_visit hscoped₁ c hc⟩, hreturns⟩, ?_⟩, ?_⟩
    · refine blockValid_transform_of ((hready.loopPost variablesToReplace).enter _) hpost
        ((hscoped₁.of_value hstepBody.used fun x y hy => ?_).enter _) (valid_statements post)
      exact ((hstepBody.value x y hy).resolve_right fun h => not_mem_nil h.1).1
    · exact blockValid_transform_of (hready₁.left.enter _) hbody (hscoped₁.enter _)
        (valid_statements body)
  | .break | .continue =>
    rw [statement, statementsValid, statementsValid, Bool.and_true]
    exact decide_eq_true (hscoped.component.trans (of_decide_eq_true hvalid))
  | .block ss =>
    rw [statement, statementsValid, statementsValid, Bool.and_true, valid_block]
    exact blockValid_transform_of hready hvalid hscoped (valid_statements ss)

lemma valid_statements (ss : List Statement) {T : SSATransform} {Γ Γ' : Scope}
    (hready : Ready N Γ T (namesOfStatements ss)) (hvalid : statementsValid dialect Γ ss)
    (hscoped : Scoped N Γ Γ' T) :
    statementsValid dialect Γ' (statements variablesToReplace T ss).1 := by
  match ss with
  | [] => rfl
  | s :: ss =>
    rw [statementsValid, and_eq_true] at hvalid
    rw [statements, statementsValid_append, and_eq_true]
    refine ⟨valid_transform s hready.left hvalid.1 hscoped,
      valid_statements ss (hready.statement hvalid.1) hvalid.2 ?_⟩
    obtain ⟨hlocals, hfunctions, hcomponent⟩ :=
      foldl_declare_eq (statement variablesToReplace T s).1 Γ'
    exact hscoped.declare hready.left (declares_subset_names s) (statement_declares s T)
      (fun _ _ hy => hy) rfl rfl hlocals hfunctions hcomponent

lemma valid_cases (cs : List Case) {T : SSATransform} {Γ Γ' : Scope}
    (hready : Ready N Γ T (namesOfCases cs)) (hvalid : casesValid dialect Γ cs)
    (hscoped : Scoped N Γ Γ' T) :
    casesValid dialect Γ' (cases variablesToReplace T cs).1 := by
  match cs with
  | [] => rfl
  | .mk value body :: cs =>
    simp only [casesValid, and_eq_true] at hvalid
    have hready' : Ready N Γ T (namesOfStatements body ++ namesOfCases cs) := hready
    have hstep := (statements_step variablesToReplace body T).close
    rw [cases, casesValid, and_eq_true, and_eq_true]
    refine ⟨⟨hvalid.1.1, blockValid_transform_of hready'.left hvalid.1.2 hscoped
      (valid_statements body)⟩, ?_⟩
    refine valid_cases cs (hready'.close hstep) hvalid.2
      (hscoped.of_value hstep.used fun x y hy => ?_)
    exact ((hstep.value x y hy).resolve_right fun h => not_mem_nil h.1).1

end

end

end SSATransform

end Yul
