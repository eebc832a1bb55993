import Polc.Yul.Optimiser.DataFlowAnalyzer.ProgramPoints

/-!
# Steps that change expressions keep the meaning of programs

If every visited expression is replaced by one with the same values wherever what is recorded is
true, the program that comes out runs as the one that went in. The functions that the two
programs define are related: one is what the analysis makes of the other.
-/

namespace Yul

open Sof Semantics DataFlowAnalyzer

variable {World : Type}

section

variable {I : Interpreter World} {F F' : Functions} {V : Variables}

mutual

lemma Expression.eval_of_call_eq (h : I.call F' = I.call F) (e : Expression)
    (m : SvmState World) : e.eval I F' V m = e.eval I F V m := by
  match e with
  | .functionalInstruction i args =>
    rw [Expression.eval_instruction, Expression.eval_instruction,
      args_of_call_eq h args m]
  | .functionCall f args =>
    rw [Expression.eval_functionCall, Expression.eval_functionCall,
      args_of_call_eq h args m, h]
  | .identifier x => rfl
  | .literal l => rfl

lemma args_of_call_eq (h : I.call F' = I.call F) (es : List Expression)
    (m : SvmState World) : evaluateArgs I F' V es m = evaluateArgs I F V es m := by
  match es with
  | [] => rfl
  | e :: es =>
    rw [args_cons, args_cons, args_of_call_eq h es m]
    apply Result.bind_congr
    intro vs m₁ _
    rw [Expression.eval_of_call_eq h e m₁]

end

end

/-! ### Related functions -/

section

variable {ξ : Type} (visit : DataFlowAnalyzer → ξ → Expression → Option (Expression × ξ))
  (dialect : Dialect)

/-- The second function is what the analysis makes of the first one. -/
structure FunctionDefinition.Analysed (d d' : FunctionDefinition) : Prop where
  parameters : d'.parameters = d.parameters
  returnVariables : d'.returnVariables = d.returnVariables
  body : ∃ S t S' t', analyzeStatements visit dialect
    ((DataFlowAnalyzer.enterFunction dialect S (d.parameters.map (·.name))
      (d.returnVariables.map (·.name))).pushScope false) t d.body = some (d'.body, S', t')
  valid : ∃ fs, statementsValid dialect
    ((⟨(d.parameters ++ d.returnVariables).map (·.name), fs, .none⟩ : Scope).register d.body)
    d.body = true

/-- The same functions are known, up to the analysis. -/
def Functions.Analysed (F F' : Functions) : Prop :=
  ∀ f, Option.Rel (FunctionDefinition.Analysed visit dialect) (F f) (F' f)

end

section

variable {ξ : Type} {visit : DataFlowAnalyzer → ξ → Expression → Option (Expression × ξ)}
  {dialect : Dialect}

lemma Functions.Analysed.set {F F' : Functions} (h : F.Analysed visit dialect F')
    {d d' : FunctionDefinition} (hd : d.Analysed visit dialect d') (f : YulString) :
    (F.set f d).Analysed visit dialect (F'.set f d') := by
  intro g
  unfold Functions.set
  split
  · exact .some hd
  · exact h g

lemma Functions.Analysed.register {F F' : Functions} (h : F.Analysed visit dialect F')
    {ss ss' : List Statement} {Γ : Scope} {S S' : DataFlowAnalyzer} {t t' : ξ}
    (ha : analyzeStatements visit dialect S t ss = some (ss', S', t'))
    (hvalid : statementsValid dialect Γ ss) :
    (F.register ss).Analysed visit dialect (F'.register ss') := by
  induction ss generalizing F F' ss' Γ S t with
  | nil =>
    obtain ⟨rfl, -⟩ := analyze_nil ha
    exact h
  | cons s ss ih =>
    obtain ⟨s₁, S₁, t₁, ss₁, hs, hss, rfl⟩ := analyze_cons ha
    rw [statementsValid, Bool.and_eq_true] at hvalid
    obtain ⟨hvs, hvss⟩ := hvalid
    have hrest := ih h hss hvss
    cases s with
    | functionDefinition f ps rs body =>
      obtain ⟨body', S₂, hbody, rfl, rfl⟩ := analyze_function hs
      simp only [valid_function, Bool.and_eq_true] at hvs
      have hd : FunctionDefinition.Analysed visit dialect ⟨ps, rs, body⟩ ⟨ps, rs, body'⟩ :=
        ⟨rfl, rfl, ⟨_, _, _, _, hbody⟩, ⟨_, hvs.2⟩⟩
      exact ih (h.set hd f) hss hvss
    | expressionStatement e =>
      obtain ⟨e', -, rfl, -⟩ := analyze_expression hs
      exact hrest
    | assignment xs e =>
      obtain ⟨e', -, rfl, -⟩ := analyze_assignment hs
      exact hrest
    | variableDeclaration xs value =>
      obtain ⟨value', -, rfl, -⟩ := analyze_declaration hs
      exact hrest
    | «if» c body =>
      obtain ⟨-, -, -, -, -, -, rfl, -⟩ := analyze_if hs
      exact hrest
    | switch e cases =>
      obtain ⟨-, -, -, -, -, -, rfl, -⟩ := analyze_switch hs
      exact hrest
    | forLoop pre c post body =>
      obtain ⟨-, -, -, -, -, -, -, -, -, -, -, -, -, rfl, -⟩ := analyze_forLoop hs
      exact hrest
    | «break» =>
      obtain ⟨rfl, -⟩ := analyze_break hs
      exact hrest
    | «continue» =>
      obtain ⟨rfl, -⟩ := analyze_continue hs
      exact hrest
    | block ss =>
      obtain ⟨-, -, -, rfl, -⟩ := analyze_block hs
      exact hrest

end

/-! ### Executions of analysed code -/

section

variable {ξ : Type} {visit : DataFlowAnalyzer → ξ → Expression → Option (Expression × ξ)}
  {I : Interpreter World}

/-- Visited expressions have the values of the original ones, also when they call the functions
that were analysed. -/
lemma SoundVisit.eval_analysed (hv : SoundVisit I visit) {F F' : Functions}
    (hcall : I.call F' = I.call F) {Γ : Scope} {S : DataFlowAnalyzer} {t t' : ξ}
    {e e' : Expression} (he : visit S t e = some (e', t')) {V : Variables} (h : TrueAt I Γ S V)
    (hvalid : e.valid I.dialect Γ) (m : SvmState World) :
    e'.eval I F' V m = e.eval I F V m := by
  rw [e'.eval_of_call_eq hcall, hv.eval_eq Γ S t e e' t' he h.wellFormed hvalid V h.holds]

lemma execBlock_analysed {F F' : Functions} {V : Variables} {ss ss' : Block} {m : SvmState World}
    (h : execStatements I (F'.register ss') V ss' m = execStatements I (F.register ss) V ss m) :
    execBlock I F' V ss' m = execBlock I F V ss m :=
  congrArg (closeScope V) h

mutual

lemma Statement.exec_analysed (hv : SoundVisit I visit)
    (hcall : ∀ F F', Functions.Analysed visit I.dialect F F' → I.call F' = I.call F)
    (s : Statement) {s' : Statement} {Γ : Scope} {S S' : DataFlowAnalyzer} {t t' : ξ}
    (ha : s.analyze visit I.dialect S t = some (s', S', t')) {V : Variables}
    (h : TrueAt I Γ S V) (hvalid : s.valid I.dialect Γ) {F F' : Functions}
    (hF : F.Analysed visit I.dialect F') (m : SvmState World) :
    s'.exec I F' V m = s.exec I F V m := by
  match s with
  | .expressionStatement e =>
    obtain ⟨e', he, rfl, rfl⟩ := analyze_expression ha
    rw [valid_expression, Bool.and_eq_true] at hvalid
    rw [exec_expression, exec_expression,
      hv.eval_analysed (hcall F F' hF) he h hvalid.1]
  | .assignment xs e =>
    obtain ⟨e', he, rfl, rfl⟩ := analyze_assignment ha
    simp only [valid_assignment, Bool.and_eq_true] at hvalid
    rw [exec_assignment, exec_assignment, hv.eval_analysed (hcall F F' hF) he h hvalid.1.2]
  | .variableDeclaration xs value =>
    obtain ⟨value', he, rfl, rfl⟩ := analyze_declaration ha
    rw [exec_declaration, exec_declaration]
    cases value with
    | none =>
      cases he
      rfl
    | some e =>
      obtain ⟨⟨e', t₁⟩, hvisit, heq⟩ := Option.map_eq_some_iff.mp he
      cases heq
      simp only [valid_declaration, valueValid, Bool.and_eq_true] at hvalid
      simp only [Expression.evaluateMulti,
        hv.eval_analysed (hcall F F' hF) hvisit (h.declare _) hvalid.2.1]
  | .functionDefinition f ps rs body =>
    obtain ⟨body', S₁, -, rfl, -⟩ := analyze_function ha
    rfl
  | .if c body =>
    obtain ⟨c', t₁, body', S₁, hc, hbody, rfl, rfl⟩ := analyze_if ha
    simp only [valid_if, Bool.and_eq_true] at hvalid
    obtain ⟨⟨hvc, -⟩, hvbody⟩ := hvalid
    have hblock (m : SvmState World) : execBlock I F' V body' m = execBlock I F V body m :=
      execBlock_analysed (execStatements_analysed hv hcall body hbody
        (h.pushScope.of_locals_eq (by simp)) hvbody (hF.register hbody hvbody) m)
    simp only [exec_if, Expression.evaluate, hv.eval_analysed (hcall F F' hF) hc h hvc, hblock]
  | .switch e cases =>
    obtain ⟨e', t₁, cs', S₁, he, hcs, rfl, rfl⟩ := analyze_switch ha
    simp only [valid_switch, Bool.and_eq_true] at hvalid
    obtain ⟨⟨hve, -⟩, hvcs⟩ := hvalid
    rw [exec_switch, exec_switch, Expression.evaluate, Expression.evaluate,
      hv.eval_analysed (hcall F F' hF) he h hve]
    apply Result.bind_congr
    intro v m₁ _
    exact execCases_analysed hv hcall cases hcs h hvcs hF v m₁
  | .forLoop pre c post body =>
    obtain ⟨since, c', t₁, body', S₁, t₂, post', S₂, rfl, hsince, hc, hbody, hpost, rfl, rfl⟩ :=
      analyze_forLoop ha
    have hreaches {V₁ : Variables} {m₁ : SvmState World}
        (hloop : LoopReaches I F c post body V m V₁ m₁) := h.loopReaches hvalid hloop
    simp only [valid_forLoop_nil, Bool.and_eq_true] at hvalid
    obtain ⟨⟨⟨hvc, -⟩, hvpost⟩, hvbody⟩ := hvalid
    rw [exec_forLoop, exec_forLoop, execStatements_nil, execStatements_nil, Result.bind_ok,
      Result.bind_ok]
    refine congrArg (fun r : Run World Variables => closeScope V (r.map fun V => (.default, V))) ?_
    refine loop_congr (I := LoopReaches I F c post body V m) ?_ ?_ ?_ ?_ I.fuel .start
    · intro V₁ m₁ hloop
      rw [loopCondition, loopCondition, Expression.evaluate, Expression.evaluate,
        hv.eval_analysed (hcall F F' hF) hc (hreaches hloop) hvc]
    · intro V₁ m₁ m₂ hloop _
      exact congrArg (Result.map _) (execBlock_analysed (execStatements_analysed hv hcall body hbody
        ((hreaches hloop).pushScope.of_locals_eq (by simp)) hvbody (hF.register hbody hvbody) m₂))
    · intro V₁ m₁ m₂ V₂ m₃ hloop _ hb
      have htrue := trueAt_of_loopBody hv (hreaches hloop) hvbody rfl hbody hsince hb
      exact congrArg (Result.map _) (execBlock_analysed (execStatements_analysed hv hcall post hpost
        (htrue.pushScope.of_locals_eq (by simp)) hvpost (hF.register hpost hvpost) m₃))
    · intro V₁ m₁ m₂ V₂ m₃ V₃ m₄ hloop hcond hb hp
      exact hloop.iteration hcond hb hp
  | .break =>
    obtain ⟨rfl, -⟩ := analyze_break ha
    rfl
  | .continue =>
    obtain ⟨rfl, -⟩ := analyze_continue ha
    rfl
  | .block ss =>
    obtain ⟨ss', S₁, hss, rfl, rfl⟩ := analyze_block ha
    exact execBlock_analysed (execStatements_analysed hv hcall ss hss
      (h.pushScope.of_locals_eq (by simp)) hvalid (hF.register hss hvalid) m)

lemma execStatements_analysed (hv : SoundVisit I visit)
    (hcall : ∀ F F', Functions.Analysed visit I.dialect F F' → I.call F' = I.call F)
    (ss : List Statement) {ss' : List Statement} {Γ : Scope} {S S' : DataFlowAnalyzer}
    {t t' : ξ} (ha : analyzeStatements visit I.dialect S t ss = some (ss', S', t'))
    {V : Variables} (h : TrueAt I Γ S V) (hvalid : statementsValid I.dialect Γ ss)
    {F F' : Functions} (hF : F.Analysed visit I.dialect F') (m : SvmState World) :
    execStatements I F' V ss' m = execStatements I F V ss m := by
  match ss with
  | [] =>
    obtain ⟨rfl, -⟩ := analyze_nil ha
    rfl
  | s :: ss =>
    obtain ⟨s₁, S₁, t₁, ss₁, hs, hss, rfl⟩ := analyze_cons ha
    rw [statementsValid, Bool.and_eq_true] at hvalid
    rw [execStatements_cons, execStatements_cons,
      Statement.exec_analysed hv hcall s hs h hvalid.1 hF m]
    apply Result.bind_congr
    rintro ⟨l, V₁⟩ m₁ hr
    cases l with
    | default =>
      exact execStatements_analysed hv hcall ss hss (trueAt_of_exec hv h hvalid.1 hs hr)
        hvalid.2 hF m₁
    | «break» | «continue» => rfl

lemma execCases_analysed (hv : SoundVisit I visit)
    (hcall : ∀ F F', Functions.Analysed visit I.dialect F F' → I.call F' = I.call F)
    (cs : List Case) {cs' : List Case} {Γ : Scope} {S S' : DataFlowAnalyzer} {t t' : ξ}
    (ha : analyzeCases visit I.dialect S t cs = some (cs', S', t')) {V : Variables}
    (h : TrueAt I Γ S V) (hvalid : casesValid I.dialect Γ cs) {F F' : Functions}
    (hF : F.Analysed visit I.dialect F') (v : Word) (m : SvmState World) :
    execCases I F' V v cs' m = execCases I F V v cs m := by
  match cs with
  | [] =>
    obtain ⟨rfl, -⟩ := analyzeCases_nil ha
    rfl
  | .mk value body :: cs =>
    obtain ⟨body', S₁, t₁, cs₁, hbody, hcs, rfl⟩ := analyzeCases_cons ha
    simp only [casesValid, Bool.and_eq_true] at hvalid
    obtain ⟨⟨-, hvbody⟩, hvcs⟩ := hvalid
    rw [execCases_cons, execCases_cons]
    split
    · exact execBlock_analysed (execStatements_analysed hv hcall body hbody
        (h.pushScope.of_locals_eq (by simp)) hvbody (hF.register hbody hvbody) m)
    · exact execCases_analysed hv hcall cs hcs (trueAt_of_skip hv h hbody hvbody) hvcs hF v m

end

end

section

variable {ξ : Type} {visit : DataFlowAnalyzer → ξ → Expression → Option (Expression × ξ)}
  {env : Environment World} {dialect : Dialect}

lemma callFunction_analysed
    (hv : ∀ n, SoundVisit (Interpreter.ofBound env dialect n) visit) (n : Nat)
    {F F' : Functions} (hF : F.Analysed visit dialect F') :
    callFunction env dialect n F' = callFunction env dialect n F := by
  induction n generalizing F F' with
  | zero => rfl
  | succ n ih =>
    funext f vs m
    simp only [callFunction]
    match hf : F f, hf' : F' f, hF f with
    | none, none, _ => rfl
    | some d, some d', .some hd =>
      obtain ⟨hparameters, hreturns, ⟨S, t, S', t', hbody⟩, fs, hvalid⟩ := hd
      have htrue : TrueAt (Interpreter.ofBound env dialect n) _ _ (d.variables vs) :=
        TrueAt.enterFunction S d.parameters d.returnVariables d.body vs fs .none
      have hvars : d'.variables vs = d.variables vs := by
        rw [FunctionDefinition.variables, FunctionDefinition.variables, hparameters, hreturns]
      have hexec := execBlock_analysed (execStatements_analysed (hv n) (fun _ _ => ih) d.body
        hbody (htrue.pushScope.of_locals_eq (by simp)) hvalid (hF.register hbody hvalid) m)
      simp only [hvars, hreturns]
      exact congrArg (Result.map _) hexec

lemma run_analysed (hv : ∀ n, SoundVisit (Interpreter.ofBound env dialect n) visit)
    {ss ss' : Block} {S' : DataFlowAnalyzer} {t t' : ξ}
    (ha : analyzeStatements visit dialect (init.pushScope false) t ss = some (ss', S', t'))
    (hvalid : Block.valid dialect ss) (n : Nat) (m : SvmState World) :
    Block.run env dialect n ss' m = Block.run env dialect n ss m := by
  have hnone : Functions.Analysed visit dialect (fun _ => none) (fun _ => none) :=
    fun _ => .none
  have hcall : ∀ F F', Functions.Analysed visit dialect F F' →
      (Interpreter.ofBound env dialect n).call F' = (Interpreter.ofBound env dialect n).call F :=
    fun _ _ => callFunction_analysed hv n
  exact congrArg (Result.map (·.1)) (execBlock_analysed (execStatements_analysed (hv n) hcall ss ha
    (trueAt_init _ ss) hvalid (hnone.register ha hvalid) m))

end

end Yul
