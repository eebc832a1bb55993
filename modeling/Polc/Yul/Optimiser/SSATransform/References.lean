import Polc.Yul.Optimiser.SSATransform.Validity

/-!
# Replaced references

The transformed program and the transform are followed together: each expression that is evaluated
is paired with the state of the transform when it visits the expression. Then each variable has
the value of its current variable.
-/

namespace Yul

open Sof Semantics List Scope Bool

namespace SSATransform

variable {World : Type}

section

variable (variablesToReplace : List YulString) (I : Interpreter World)

mutual

/-- What replaces the statement is run with the functions `F` and the variables `V`, from the
machine in state `m`, and the transform comes to the statement in the state that comes next. Then
the expression as visited in the last state is evaluated with the last variables. A function body
can be entered with any arguments, known functions and state of the machine. -/
inductive Evaluates : Functions → Variables → SvmState World → SSATransform → Statement →
    SSATransform → Expression → Variables → Prop where
  | expressionStatement {F V m T e} : Evaluates F V m T (.expressionStatement e) T e V
  | assignment {F V m T xs e} : Evaluates F V m T (.assignment xs e) T e V
  | value {F V m T xs e} : Evaluates F V m T (.variableDeclaration xs (some e)) T e V
  | functionBody {F V m T f ps rs body T' e V'} (F' : Functions) (vs : List Word)
      (m' : SvmState World)
      (h : StatementsEvaluate (F'.register (statements variablesToReplace T body).1)
        ((⟨ps, rs, body⟩ : FunctionDefinition).variables vs) m' T body T' e V') :
      Evaluates F V m T (.functionDefinition f ps rs body) T' e V'
  | ifCondition {F V m T c body} : Evaluates F V m T (.if c body) T c V
  | ifBody {F V m T c body v m₁ T' e V'}
      (hc : (visit T.currentVariableValues c).evaluate I F V m = .ok v m₁) (hv : v ≠ 0)
      (h : StatementsEvaluate (F.register (statements variablesToReplace T body).1) V m₁ T body
        T' e V') : Evaluates F V m T (.if c body) T' e V'
  | switchExpression {F V m T e cs} : Evaluates F V m T (.switch e cs) T e V
  | switchCase {F V m T e cs v m₁ T' e' V'}
      (he : (visit T.currentVariableValues e).evaluate I F V m = .ok v m₁)
      (h : CasesEvaluate F V v m₁ T cs T' e' V') : Evaluates F V m T (.switch e cs) T' e' V'
  | loopPre {F V m T pre c post body T' e V'} (h : StatementsEvaluate F V m T pre T' e V') :
      Evaluates F V m T (.forLoop pre c post body) T' e V'
  | loopCondition {F V m T pre c post body T₁ T₂ r m₁ V₂ m₂}
      (hT₁ : T₁ = loopState variablesToReplace T pre post body)
      (hT₂ : T₂ = loopBodyState variablesToReplace T pre post body)
      (hpre : execStatements I F V (statements variablesToReplace T pre).1 m = .ok r m₁)
      (hloop : LoopReaches I F (visit T₁.currentVariableValues c)
        (statements variablesToReplace T₂ post).1 (statements variablesToReplace T₁ body).1
        r.2 m₁ V₂ m₂) : Evaluates F V m T (.forLoop pre c post body) T₁ c V₂
  | loopBody {F V m T pre c post body T₁ T₂ r m₁ V₂ m₂ m₃ T' e V'}
      (hT₁ : T₁ = loopState variablesToReplace T pre post body)
      (hT₂ : T₂ = loopBodyState variablesToReplace T pre post body)
      (hpre : execStatements I F V (statements variablesToReplace T pre).1 m = .ok r m₁)
      (hloop : LoopReaches I F (visit T₁.currentVariableValues c)
        (statements variablesToReplace T₂ post).1 (statements variablesToReplace T₁ body).1
        r.2 m₁ V₂ m₂)
      (hc : Yul.loopCondition I F (visit T₁.currentVariableValues c) V₂ m₂ = .ok true m₃)
      (h : StatementsEvaluate (F.register (statements variablesToReplace T₁ body).1) V₂ m₃ T₁
        body T' e V') : Evaluates F V m T (.forLoop pre c post body) T' e V'
  | loopPost {F V m T pre c post body T₁ T₂ r m₁ V₂ m₂ m₃ V₃ m₄ T' e V'}
      (hT₁ : T₁ = loopState variablesToReplace T pre post body)
      (hT₂ : T₂ = loopBodyState variablesToReplace T pre post body)
      (hpre : execStatements I F V (statements variablesToReplace T pre).1 m = .ok r m₁)
      (hloop : LoopReaches I F (visit T₁.currentVariableValues c)
        (statements variablesToReplace T₂ post).1 (statements variablesToReplace T₁ body).1
        r.2 m₁ V₂ m₂)
      (hc : Yul.loopCondition I F (visit T₁.currentVariableValues c) V₂ m₂ = .ok true m₃)
      (hbody : Yul.loopBody I F (statements variablesToReplace T₁ body).1 V₂ m₃ =
        .ok (false, V₃) m₄)
      (h : StatementsEvaluate (F.register (statements variablesToReplace T₂ post).1) V₃ m₄ T₂
        post T' e V') : Evaluates F V m T (.forLoop pre c post body) T' e V'
  | block {F V m T ss T' e V'}
      (h : StatementsEvaluate (F.register (statements variablesToReplace T ss).1) V m T ss
        T' e V') : Evaluates F V m T (.block ss) T' e V'

inductive StatementsEvaluate : Functions → Variables → SvmState World → SSATransform →
    List Statement → SSATransform → Expression → Variables → Prop where
  | head {F V m T s ss T' e V'} (h : Evaluates F V m T s T' e V') :
      StatementsEvaluate F V m T (s :: ss) T' e V'
  | tail {F V m T s ss V₁ m₁ T' e V'}
      (hs : execStatements I F V (statement variablesToReplace T s).1 m = .ok (.default, V₁) m₁)
      (h : StatementsEvaluate F V₁ m₁ (statement variablesToReplace T s).2.1 ss T' e V') :
      StatementsEvaluate F V m T (s :: ss) T' e V'

inductive CasesEvaluate : Functions → Variables → Word → SvmState World → SSATransform →
    List Case → SSATransform → Expression → Variables → Prop where
  | head {F V v m T value body cs T' e V'} (hv : value.all (·.word = v) = true)
      (h : StatementsEvaluate (F.register (statements variablesToReplace T body).1) V m T body
        T' e V') : CasesEvaluate F V v m T (.mk value body :: cs) T' e V'
  | tail {F V v m T value body cs T' e V'} (hv : value.all (·.word = v) = false)
      (h : CasesEvaluate F V v m (closeBlock (statements variablesToReplace T body)) cs
        T' e V') : CasesEvaluate F V v m T (.mk value body :: cs) T' e V'

end

end

section

variable {variablesToReplace N : List YulString} {I : Interpreter World}

/-- The conclusion: the variables that the expression refers to have the values of their current
variables. -/
def Current (T : SSATransform) (e : Expression) (V : Variables) : Prop :=
  ∀ x ∈ e.referencedVariables, ∀ y, T.currentVariableValues x = some y → V y = V x ∧ (V x).isSome

lemma Holds.expression {Γ : Scope} {T : SSATransform} {V : Variables} {e : Expression}
    (h : Holds Γ T V) (he : e.valid I.dialect Γ) : Current T e V :=
  fun x hx y hy => h x y hy (e.mem_locals_of_valid he hx)

lemma Holds.of_locals_eq {Γ Γ' : Scope} {T : SSATransform} {V : Variables} (h : Holds Γ T V)
    (hΓ : Γ'.locals = Γ.locals) : Holds Γ' T V :=
  fun x y hy hx => h x y hy (hΓ ▸ hx)

lemma Holds.loopReaches {Γ : Scope} {T T₁ T₂ : SSATransform} {pre post body : Block}
    {c : Expression} {V V₂ : Variables} {m m₁ m₂ : SvmState World} {F : Functions}
    {r : LoopState × Variables} (h : Holds Γ T V)
    (hready : Ready N Γ T (Statement.forLoop pre c post body).names)
    (hvalid : (Statement.forLoop pre c post body).valid I.dialect Γ)
    (hT₁ : T₁ = loopState variablesToReplace T pre post body)
    (hT₂ : T₂ = SSATransform.loopBodyState variablesToReplace T pre post body)
    (hpre : execStatements I F V (statements variablesToReplace T pre).1 m = .ok r m₁)
    (hloop : LoopReaches I F (visit T₁.currentVariableValues c)
      (statements variablesToReplace T₂ post).1 (statements variablesToReplace T₁ body).1
      r.2 m₁ V₂ m₂) : Holds (Γ.declare (pre.flatMap (·.declares))) T₁ V₂ := by
  subst hT₁ hT₂
  refine hloop.invariant (fun V m hV => ?_) (fun V m hV => ?_) ?_
  · exact hV.loopBody hready hvalid m
  · exact hV.loopPost hready hvalid m
  · exact h.loopPre hready hvalid m r m₁ hpre

mutual

lemma Evaluates.current {F : Functions} {V V' : Variables} {m : SvmState World}
    {T T' : SSATransform} {s : Statement} {e : Expression}
    (h : Evaluates variablesToReplace I F V m T s T' e V') {Γ : Scope}
    (hready : Ready N Γ T s.names) (hvalid : s.valid I.dialect Γ) (hold : Holds Γ T V) :
    Current T' e V' := by
  match h with
  | .expressionStatement =>
    rw [valid_expression, and_eq_true] at hvalid
    exact hold.expression hvalid.1
  | .assignment =>
    rw [valid_assignment, and_eq_true, and_eq_true] at hvalid
    exact hold.expression hvalid.1.2
  | .value =>
    rw [valid_declaration, and_eq_true, valueValid, and_eq_true,
      and_eq_true] at hvalid
    exact hold.expression hvalid.2.1
  | .functionBody F' vs m' h =>
    rw [valid_function, and_eq_true] at hvalid
    obtain ⟨hbody, hnone⟩ := hready.function Γ.functions .none
    refine h.current (hbody.of_locals_eq locals_register) hvalid.2 fun x y hy hx => ?_
    rw [locals_register] at hx
    rw [hnone x hx] at hy
    cases hy
  | .ifCondition =>
    rw [valid_if, and_eq_true, and_eq_true] at hvalid
    exact hold.expression hvalid.1.1
  | .ifBody _ _ h =>
    rw [valid_if, and_eq_true] at hvalid
    exact h.current (hready.of_locals_eq locals_register) hvalid.2
      (hold.of_locals_eq locals_register)
  | .switchExpression =>
    rw [valid_switch, and_eq_true, and_eq_true] at hvalid
    exact hold.expression hvalid.1.1
  | .switchCase _ h =>
    rw [valid_switch, and_eq_true] at hvalid
    exact h.current hready hvalid.2 hold
  | .loopPre h =>
    simp only [valid_forLoop, and_eq_true] at hvalid
    exact h.current ((hready.loop variablesToReplace).1.enter _) hvalid.1.1.1.1
      (hold.of_locals_eq rfl)
  | .loopCondition hT₁ hT₂ hpre hloop =>
    have hhead := hold.loopReaches hready hvalid hT₁ hT₂ hpre hloop
    simp only [valid_forLoop, and_eq_true] at hvalid
    exact hhead.expression hvalid.1.1.1.2
  | .loopBody hT₁ hT₂ hpre hloop _ h =>
    have hhead := hold.loopReaches hready hvalid hT₁ hT₂ hpre hloop
    simp only [valid_forLoop, and_eq_true] at hvalid
    subst hT₁
    exact h.current (((hready.loop _).2.left.enter .forLoopBody).of_locals_eq
      locals_register) hvalid.2
      (hhead.of_locals_eq locals_register)
  | .loopPost hT₁ hT₂ hpre hloop _ hbody h =>
    have hhead := hold.loopReaches hready hvalid hT₁ hT₂ hpre hloop
    have hvalid' := hvalid
    simp only [valid_forLoop, and_eq_true] at hvalid
    subst hT₁ hT₂
    obtain ⟨r, hr, hr'⟩ := Result.map_eq_ok.mp hbody
    have hpost := (hhead.loopBody hready hvalid' _ r _ hr).loopBodyState
    rw [show r.2 = _ from (Prod.mk.inj hr').2] at hpost
    exact h.current (((hready.loopPost _).enter .forLoopPost).of_locals_eq
      locals_register) hvalid.1.2
      (hpost.of_locals_eq locals_register)
  | .block h =>
    exact h.current (hready.of_locals_eq locals_register) hvalid
      (hold.of_locals_eq locals_register)

lemma StatementsEvaluate.current {F : Functions} {V V' : Variables} {m : SvmState World}
    {T T' : SSATransform} {ss : List Statement} {e : Expression}
    (h : StatementsEvaluate variablesToReplace I F V m T ss T' e V') {Γ : Scope}
    (hready : Ready N Γ T (namesOfStatements ss)) (hvalid : statementsValid I.dialect Γ ss)
    (hold : Holds Γ T V) : Current T' e V' := by
  match h with
  | .head h =>
    rw [statementsValid, and_eq_true] at hvalid
    exact h.current hready.left hvalid.1 hold
  | .tail hs h =>
    rw [statementsValid, and_eq_true] at hvalid
    exact h.current (hready.statement hvalid.1) hvalid.2
      (hold.exec hready.left hvalid.1 m _ _ hs rfl)

lemma CasesEvaluate.current {F : Functions} {V V' : Variables} {v : Word} {m : SvmState World}
    {T T' : SSATransform} {cs : List Case} {e : Expression}
    (h : CasesEvaluate variablesToReplace I F V v m T cs T' e V') {Γ : Scope}
    (hready : Ready N Γ T (namesOfCases cs)) (hvalid : casesValid I.dialect Γ cs)
    (hold : Holds Γ T V) : Current T' e V' := by
  match h with
  | .head _ h =>
    simp only [casesValid, and_eq_true] at hvalid
    exact h.current (hready.left.of_locals_eq locals_register) hvalid.1.2
      (hold.of_locals_eq locals_register)
  | .tail _ h =>
    simp only [casesValid, and_eq_true] at hvalid
    refine h.current (hready.close (statements_step _ _ T).close) hvalid.2
      (hold.of_value fun x y hy => ?_)
    exact (((statements_step _ _ T).close.value x y hy).resolve_right
      fun h => not_mem_nil h.1).1

end

/-! ### The program -/

lemma Ready.start {dialect : Dialect} {ss : Block} (hss : Block.Disambiguated dialect ss)
    {nameDispenser : NameDispenser} (hused : namesOfStatements ss ⊆ nameDispenser.usedNames) :
    Ready (namesOfStatements ss) .empty ⟨nameDispenser, fun _ => none⟩ (namesOfStatements ss) where
  used := hused
  locals := nil_subset _
  value _ _ h := nomatch h
  subset := List.Subset.refl _
  nodup := hss.nodup
  new _ _ := ⟨not_mem_nil, rfl⟩

lemma run_transform {dialect : Dialect} {ss : Block} {N : List YulString} {T : SSATransform}
    (hready : Ready N .empty T (namesOfStatements ss)) (hvalid : Block.valid dialect ss)
    (env : Environment World) (n : Nat) (m : SvmState World) :
    Block.run env dialect n ss m =
      Block.run env dialect n (statements variablesToReplace T ss).1 m := by
  refine Result.Sim.eq (run_sim (execBlock_transform_of
    (I := .ofBound env dialect n) hready hvalid (fun hready hvalid hF hV hold m =>
      execStatements_transform ?_ ss hready hvalid hF hV hold m) Functions.Rel.none
    (fun _ _ => rfl) (fun _ _ _ h => nomatch h) m))
  refine sim_ofBound (k := 0) (.inl rfl) ?_ n
  rintro I I' rfl - hI F F' hF d d' ⟨hparameters, hreturns, Γ, T, hΓ, hready, hnone, hvalid, hbody⟩
    vs m
  have hvars : d'.variables vs = d.variables vs := by
    rw [FunctionDefinition.variables, FunctionDefinition.variables, hparameters, hreturns]
  rw [FunctionDefinition.run, FunctionDefinition.run, hvars, hreturns, hbody]
  refine (execBlock_transform_of (I := I) hready hvalid (execStatements_transform hI d.body) hF
    (fun _ _ => rfl) (fun x y hy hx => ?_) m).map ?_
  · rw [hnone x hx] at hy
    cases hy
  · rintro ⟨l, W⟩ ⟨l', W'⟩ ⟨-, hW⟩
    refine map_congr_left fun r hr => ?_
    have hr' : r.name ∈ N := hready.locals (by
      rw [hΓ, map_append]
      exact mem_append_right _ (mem_map_of_mem hr))
    exact congrArg (·.getD 0) (hW r.name hr').symm

end

end SSATransform

open SSATransform in
/-- The step keeps the meaning of every disambiguated program, and the result is a valid program.
Where the result evaluates an expression of the program, the current variable of each variable in
it has the value of the variable. -/
theorem ssaTransform_sameRuns (dialect : Dialect) (ss : Block)
    (hss : Block.Disambiguated dialect ss) (nameDispenser : NameDispenser)
    (hused : namesOfStatements ss ⊆ nameDispenser.usedNames) :
    ∃ ss', run nameDispenser ss = some ss' ∧ Block.valid dialect ss' = true ∧
      (∀ {World : Type} (env : Environment World), SameRuns env dialect ss ss') ∧
      ∀ {World : Type} (I : Interpreter World), I.dialect = dialect →
        ∀ (m : SvmState World) (T : SSATransform) (e : Expression) (V : Variables),
          StatementsEvaluate (assignmentsOfStatements ss) I (Functions.register (fun _ => none) ss')
            (fun _ => none) m ⟨nameDispenser, fun _ => none⟩ ss T e V →
          ∀ x ∈ e.referencedVariables, ∀ y, T.currentVariableValues x = some y →
            V y = V x ∧ (V x).isSome := by
  have hready := Ready.start hss hused
  refine ⟨_, run_eq nameDispenser ss, ?_, fun env => ?_, ?_⟩
  · refine blockValid_transform_of hready hss.valid ?_ (valid_statements ss)
    exact ⟨List.Subset.refl _, rfl, rfl, nofun, nil_subset _, nofun⟩
  · exact SameRuns.of_eq fun n m => run_transform hready hss.valid env n m
  · rintro World I rfl m T e V h
    exact h.current (hready.of_locals_eq locals_register) hss.valid fun _ _ h => nomatch h

/-- `let x := calldataload(0)  for {} lt(x, 10) { x := add(x, 1) } { if x { x := add(x, 2) }
sstore(x, x) }` -/
def assignmentsInLoop : Block :=
  [.variableDeclaration [⟨"x", ""⟩]
      (some (.functionCall "calldataload" [.literal (.number "0")])),
    .forLoop [] (.functionCall "lt" [.identifier "x", .literal (.number "10")])
      [.assignment ["x"] (.functionCall "add" [.identifier "x", .literal (.number "1")])]
      [.if (.identifier "x")
          [.assignment ["x"] (.functionCall "add" [.identifier "x", .literal (.number "2")])],
        .expressionStatement (.functionCall "sstore" [.identifier "x", .identifier "x"])]]

theorem ssaTransform_sameRuns_assignmentsInLoop :
    ∃ ss', SSATransform.run (.ofBlock .strictAssemblyForSVMObjects assignmentsInLoop)
        assignmentsInLoop = some ss' ∧
      ∀ (env : Environment Unit),
        SameRuns env .strictAssemblyForSVMObjects assignmentsInLoop ss' := by
  obtain ⟨ss', hrun, -, h, -⟩ := ssaTransform_sameRuns .strictAssemblyForSVMObjects
    assignmentsInLoop (by decide) (.ofBlock .strictAssemblyForSVMObjects assignmentsInLoop)
    (List.Subset.refl _)
  exact ⟨ss', hrun, h⟩

end Yul
