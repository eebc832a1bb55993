import Polc.Yul.Optimiser.ControlFlowSimplifier

/-!
# Meaning of programs after the control flow simplifier

Simplified code is executed as the original one, as long as a loop that became a conditional may
run at all, and it is valid.
-/

namespace Yul

open Sof Semantics List Statement Scope Bool
open Option (bind_eq_some_iff isSome_iff_exists)

namespace ControlFlowSimplifier

/-! ### Executions of simplified code -/

/-- The second function is what the step makes of the first one. -/
structure Simplified (dialect : Dialect) (d d' : FunctionDefinition) : Prop where
  parameters : d'.parameters = d.parameters
  returnVariables : d'.returnVariables = d.returnVariables
  valid : everyStatement Statement.switchValid d.body = true
  body : ∃ jumps jumps', simplify dialect jumps d.body = some (d'.body, jumps')

section

variable {dialect : Dialect} {ss out : List Statement} {jumps jumps' : Jumps}

lemma definitions_simplifySwitch (e : Expression) (cases : List Case) :
    functionDefinitions (simplifySwitch e cases) = [] := by
  rw [simplifySwitch]
  generalize removeEmptyCasesFromSwitch (removeEmptyDefaultFromSwitch cases) = kept
  rcases kept with _ | ⟨⟨_ | l, body⟩, _ | ⟨c', cs⟩⟩
  all_goals rfl

lemma definitions_simplifyForLoop (c : Expression) (post body : Block) :
    functionDefinitions [simplifyForLoop dialect jumps c post body] = [] := by
  rw [simplifyForLoop]
  split <;> (try split) <;> rfl

lemma definesRelated_simplifyStatement {s : Statement}
    (h : simplifyStatement dialect jumps s = some (out, jumps'))
    (hvalid : s.every Statement.switchValid) :
    DefinesRelated (Simplified dialect) [s] out := by
  cases s with
  | functionDefinition f ps rs body =>
    obtain ⟨body', hbody, rfl⟩ := simplifyStatement_function h
    rw [every_function] at hvalid
    exact List.Forall₂.cons ⟨rfl, rfl, rfl, hvalid.2, jumps, jumps', hbody⟩ .nil
  | «if» c body =>
    rcases simplify_if h with ⟨-, rfl, -⟩ | ⟨body', -, rfl⟩
    · exact .of_eq_nil rfl rfl
    · exact .of_eq_nil rfl rfl
  | switch e cases =>
    obtain ⟨cases', -, rfl⟩ := simplify_switch h
    exact .of_eq_nil rfl (definitions_simplifySwitch e cases')
  | forLoop pre c post body =>
    obtain ⟨post', body', -, inner', -, -, -, rfl, -⟩ := simplify_forLoop h
    exact .of_eq_nil rfl (definitions_simplifyForLoop c post' body')
  | block ss =>
    obtain ⟨ss', -, rfl⟩ := simplify_block h
    exact .of_eq_nil rfl rfl
  | _ =>
    cases h
    exact .of_eq_nil rfl rfl

lemma definesRelated_simplify (h : simplify dialect jumps ss = some (out, jumps'))
    (hvalid : everyStatement Statement.switchValid ss) :
    DefinesRelated (Simplified dialect) ss out := by
  induction ss generalizing jumps out with
  | nil =>
    cases h
    exact .nil
  | cons s ss ih =>
    obtain ⟨out₁, jumps₁, out₂, hs, hss, rfl⟩ := simplify_cons h
    rw [everyStatement_cons] at hvalid
    exact (definesRelated_simplifyStatement hs hvalid.1).cons (ih hss hvalid.2)

lemma map_value_simplifyCases {cs cs' : List Case}
    (h : simplifyCases dialect jumps cs = some (cs', jumps')) :
    cs'.map (·.value) = cs.map (·.value) := by
  induction cs generalizing jumps cs' with
  | nil =>
    cases h
    rfl
  | cons c cs ih =>
    obtain ⟨value, body⟩ := c
    obtain ⟨body', jumps₁, cs₁, -, hcs, rfl⟩ := simplifyCases_cons h
    exact congrArg (value :: ·) (ih hcs)

lemma switchValid_congr {e e' : Expression} {cs cs' : List Case}
    (h : cs'.map (·.value) = cs.map (·.value)) :
    (Statement.switch e' cs').switchValid = (Statement.switch e cs).switchValid := by
  have hvalid (e : Expression) (cs : List Case) : (Statement.switch e cs).switchValid =
      ((cs.map (·.value)).dropLast.all Option.isSome &&
        ((cs.map (·.value)).filterMap (·.map Literal.word)).Nodup) := by
    rw [← map_dropLast, all_map, filterMap_map]
    rfl
  rw [hvalid, hvalid, h]

end

variable {jumps jumps' : Jumps} {ss : Block}

section

variable {World : Type} {I I' : Interpreter World} {p q : Prop}

variable {F F' : Functions}

lemma exec_if_nil_sim {V : Variables} {m : SvmState World} {c : Expression}
    (hsupported : Supported I'.dialect)
    (hc : Result.Sim p q Eq Eq (c.evaluate I F V m) (c.evaluate I' F' V m)) :
    Result.Sim p q Eq (Outcome fun _ => Eq) ((Statement.if c []).exec I F V m)
      ((makePopExpressionStatement c).exec I' F' V m) := by
  rw [exec_makePopExpressionStatement hsupported, exec_if]
  refine hc.bind ?_
  rintro v _ m₁ _ - - rfl rfl
  rw [execBlock_nil, ite_self]
  exact .ok ⟨rfl, rfl⟩ rfl

lemma exec_simplifyForLoop (hI : I.Sim p q (Simplified I.dialect) I') (hzero : I.fuel = 0 → p)
    {c : Expression} {post post' body body' : Block}
    (hcount : ∀ l, l ≠ .default → jumpsOfStatements l body' ≤ jumps.count l)
    (hc : ∀ V m, Result.Sim p q Eq Eq (c.evaluate I F V m) (c.evaluate I' F' V m))
    (hpost : ∀ V m, Result.Sim p q Eq (Outcome fun _ => Eq) (execBlock I F V post m)
      (execBlock I' F' V post' m))
    (hbody : ∀ V m, Result.Sim p q Eq (Outcome fun _ => Eq) (execBlock I F V body m)
      (execBlock I' F' V body' m)) (V : Variables) (m : SvmState World) :
    Result.Sim p q Eq (Outcome fun _ => Eq) ((Statement.forLoop [] c post body).exec I F V m)
      ((simplifyForLoop I.dialect jumps c post' body').exec I' F' V m) := by
  rcases simplifyForLoop_cases I.dialect c post' hcount with
    heq | ⟨ss, rfl, hss, heq⟩ | ⟨ss, e, rfl, he, hjumps, heq⟩
  · rw [heq, exec_forLoop, exec_forLoop, execStatements_nil, execStatements_nil,
      Result.bind_ok, Result.bind_ok]
    apply closeScope_sim (A := fun _ => Eq)
    · refine (exec_loop_sim (A := Eq) (B := fun _ => Eq) hI.fuel ?_ ?_ ?_ ?_ ?_ rfl m).map
        fun W W' hW => ⟨rfl, hW⟩
      · rintro W _ m rfl
        exact hc W m
      · exact fun _ _ => id
      · rintro W _ m rfl
        exact hbody W m
      · exact fun _ _ => id
      · rintro l W _ m - rfl
        exact hpost W m
    · rintro l W _ rfl
      rfl
  · rw [heq]
    exact exec_forLoop_if_sim hzero (hc V) (hbody V)
      (fun m => (execBlock_append_break hss).1) (fun m => (execBlock_append_break hss).2)
  · rw [heq]
    have hfalse (m : SvmState World) :
        (execBlock I' F' V (ss ++ [.expressionStatement e]) m).Returns fun _ _ => False :=
      execBlock_append_terminate hjumps (hI.dialect.symm ▸ he)
    refine exec_forLoop_if_sim hzero (hc V) (hbody V)
      (fun m => (hfalse m).mono fun _ _ hr => hr.elim) (fun m => ?_)
    cases hr : execBlock I' F' V (ss ++ [.expressionStatement e]) m with
    | ok r m₁ => exact (hfalse m r m₁ hr).elim
    | halt k m₁ => rfl
    | timeout => rfl

lemma execBlock_simplify_of (hF : F.Rel (Simplified I.dialect) F') {out : Block}
    (h : simplify I.dialect jumps ss = some (out, jumps'))
    (hvalid : everyStatement Statement.switchValid ss)
    (hss : ∀ {F F' : Functions}, F.Rel (Simplified I.dialect) F' → ∀ V m,
      Result.Sim p q Eq (Outcome fun _ => Eq) (execStatements I F V ss m)
        (execStatements I' F' V out m)) (V : Variables) (m : SvmState World) :
    Result.Sim p q Eq (Outcome fun _ => Eq) (execBlock I F V ss m) (execBlock I' F' V out m) :=
  execBlock_sim hF (definesRelated_simplify h hvalid) (fun hF => hss hF V m)
    fun _ _ _ hW => congrArg V.restrict hW

mutual

lemma exec_simplifyStatement (hI : I.Sim p q (Simplified I.dialect) I')
    (hsupported : Supported I.dialect) (hzero : I.fuel = 0 → p) (s : Statement)
    {jumps jumps' : Jumps} {out : List Statement}
    (h : simplifyStatement I.dialect jumps s = some (out, jumps'))
    (hvalid : s.every Statement.switchValid) {F F' : Functions}
    (hF : F.Rel (Simplified I.dialect) F') (V : Variables) (m : SvmState World) :
    Result.Sim p q Eq (Outcome fun _ => Eq) (s.exec I F V m)
      (execStatements I' F' V out m) := by
  have hsupported' : Supported I'.dialect := hI.dialect ▸ hsupported
  match s with
  | .expressionStatement e =>
    cases h
    rw [exec_singleton]
    exact (e.eval_sim hI hF (fun _ _ => rfl) m).map fun _ _ _ => ⟨rfl, rfl⟩
  | .assignment xs e =>
    cases h
    rw [exec_singleton]
    refine (e.eval_sim hI hF (fun _ _ => rfl) m).map ?_
    rintro vs _ rfl
    exact ⟨rfl, rfl⟩
  | .variableDeclaration xs value =>
    cases h
    rw [exec_singleton]
    refine (evaluateMulti_sim hI hF value (fun _ _ _ _ => rfl) m).map ?_
    rintro vs _ rfl
    exact ⟨rfl, rfl⟩
  | .functionDefinition f ps rs body =>
    obtain ⟨body', -, rfl⟩ := simplifyStatement_function h
    exact .ok ⟨rfl, rfl⟩ rfl
  | .if c body =>
    rw [every_if] at hvalid
    rcases simplify_if h with ⟨rfl, rfl, -⟩ | ⟨body', hbody, rfl⟩
    · rw [exec_singleton]
      exact exec_if_nil_sim hsupported' (c.evaluate_sim hI hF (fun _ _ => rfl) m)
    · rw [exec_singleton]
      exact exec_if_sim (c.evaluate_sim hI hF (fun _ _ => rfl) m)
        (execBlock_simplify_of hF hbody hvalid.2
          (exec_simplify hI hsupported hzero body hbody hvalid.2) V) rfl
  | .switch e cases =>
    obtain ⟨cases', hcases, rfl⟩ := simplify_switch h
    rw [every_switch] at hvalid
    rw [exec_simplifySwitch hsupported']
    · exact exec_switch_sim (e.evaluate_sim hI hF (fun _ _ => rfl) m)
        (execCases_simplify hI hsupported hzero cases hcases hvalid.2 hF V)
    · rw [switchValid_congr (map_value_simplifyCases hcases) (e := e)]
      exact hvalid.1
  | .forLoop pre c post body =>
    obtain ⟨post', body', inner, inner', hpost, hbody, rfl, rfl, -⟩ := simplify_forLoop h
    obtain ⟨-, -, hvpost, hvbody⟩ := every_forLoop.mp hvalid
    rw [exec_singleton]
    exact exec_simplifyForLoop hI hzero (jumps_le_count hbody)
      (fun W m => c.evaluate_sim hI hF (fun _ _ => rfl) m)
      (execBlock_simplify_of hF hpost hvpost
        (exec_simplify hI hsupported hzero post hpost hvpost))
      (execBlock_simplify_of hF hbody hvbody
        (exec_simplify hI hsupported hzero body hbody hvbody)) V m
  | .break =>
    cases h
    exact .ok ⟨rfl, rfl⟩ rfl
  | .continue =>
    cases h
    exact .ok ⟨rfl, rfl⟩ rfl
  | .block ss =>
    obtain ⟨ss', hss, rfl⟩ := simplify_block h
    rw [every_block] at hvalid
    rw [exec_singleton]
    exact execBlock_simplify_of hF hss hvalid.2
      (exec_simplify hI hsupported hzero ss hss hvalid.2) V m

lemma exec_simplify (hI : I.Sim p q (Simplified I.dialect) I')
    (hsupported : Supported I.dialect) (hzero : I.fuel = 0 → p) (ss : List Statement)
    {jumps jumps' : Jumps} {out : List Statement}
    (h : simplify I.dialect jumps ss = some (out, jumps'))
    (hvalid : everyStatement Statement.switchValid ss) {F F' : Functions}
    (hF : F.Rel (Simplified I.dialect) F') (V : Variables) (m : SvmState World) :
    Result.Sim p q Eq (Outcome fun _ => Eq) (execStatements I F V ss m)
      (execStatements I' F' V out m) := by
  match ss with
  | [] =>
    cases h
    exact .ok ⟨rfl, rfl⟩ rfl
  | s :: ss =>
    obtain ⟨out₁, jumps₁, out₂, hs, hss, rfl⟩ := simplify_cons h
    rw [everyStatement_cons] at hvalid
    refine exec_cons_sim (A := fun _ => Eq)
      (exec_simplifyStatement hI hsupported hzero s hs hvalid.1 hF V m) ?_ (fun _ _ _ _ => id)
    rintro W _ m₁ rfl
    exact exec_simplify hI hsupported hzero ss hss hvalid.2 hF W m₁

lemma execCases_simplify (hI : I.Sim p q (Simplified I.dialect) I')
    (hsupported : Supported I.dialect) (hzero : I.fuel = 0 → p) (cs : List Case)
    {jumps jumps' : Jumps} {out : List Case}
    (h : simplifyCases I.dialect jumps cs = some (out, jumps'))
    (hvalid : everyCase Statement.switchValid cs) {F F' : Functions}
    (hF : F.Rel (Simplified I.dialect) F') (V : Variables) (v : Word) (m : SvmState World) :
    Result.Sim p q Eq (Outcome fun _ => Eq) (execCases I F V v cs m)
      (execCases I' F' V v out m) := by
  match cs with
  | [] =>
    cases h
    exact .ok ⟨rfl, rfl⟩ rfl
  | .mk value body :: cs =>
    obtain ⟨body', jumps₁, cs₁, hbody, hcs, rfl⟩ := simplifyCases_cons h
    rw [everyCase_cons] at hvalid
    exact execCases_cons_sim
      (execBlock_simplify_of hF hbody hvalid.1
        (exec_simplify hI hsupported hzero body hbody hvalid.1) V m)
      (execCases_simplify hI hsupported hzero cs hcs hvalid.2 hF V v m)

end

lemma execBlock_simplify (hI : I.Sim p q (Simplified I.dialect) I')
    (hsupported : Supported I.dialect) (hzero : I.fuel = 0 → p) (ss : Block)
    {out : List Statement} (h : simplify I.dialect jumps ss = some (out, jumps'))
    (hvalid : everyStatement Statement.switchValid ss)
    (hF : F.Rel (Simplified I.dialect) F') (V : Variables) (m : SvmState World) :
    Result.Sim p q Eq (Outcome fun _ => Eq) (execBlock I F V ss m) (execBlock I' F' V out m) :=
  execBlock_simplify_of hF h hvalid (exec_simplify hI hsupported hzero ss h hvalid) V m

end

/-! ### Simplified code is valid -/

section

variable {dialect : Dialect} {Γ : Scope} {e c : Expression} {rest : List Statement}

lemma valid_makePopExpressionStatement (hsupported : Supported dialect)
    (he : e.valid dialect Γ) (hreturns : e.returns dialect Γ = 1) :
    (makePopExpressionStatement e).valid dialect Γ := by
  have harity : Γ.arity dialect "pop" = some (1, 0) := by
    rw [Scope.arity, hsupported.builtin_pop]
    rfl
  have hliteral : literalArgumentsValid dialect "pop" [e] = true := by
    rw [literalArgumentsValid, hsupported.builtin_pop]
    rfl
  rw [makePopExpressionStatement, valid_expression, Expression.valid_functionCall, harity,
    hliteral, argumentsValid, he, hreturns, Expression.returns, harity]
  rfl

lemma valid_eq (hsupported : Supported dialect) {l : Literal} (hl : (valueOfLiteral l).isSome)
    (he : e.valid dialect Γ) (hreturns : e.returns dialect Γ = 1) :
    (Expression.functionCall "eq" [.literal l, e]).valid dialect Γ ∧
      (Expression.functionCall "eq" [.literal l, e]).returns dialect Γ = 1 := by
  have harity : Γ.arity dialect "eq" = some (2, 1) := by
    rw [Scope.arity, hsupported.builtin_eq]
    rfl
  have hliteral : literalArgumentsValid dialect "eq" [.literal l, e] = true := by
    rw [literalArgumentsValid, hsupported.builtin_eq]
    rfl
  have hvalid : (Expression.literal l).valid dialect Γ = true := hl
  rw [Expression.valid_functionCall, harity, hliteral, argumentsValid, argumentsValid,
    he, hreturns, hvalid, Expression.returns, harity]
  exact ⟨rfl, rfl⟩

lemma casesValid_filter {cases : List Case} (p : Case → Bool)
    (h : casesValid dialect Γ cases) : casesValid dialect Γ (cases.filter p) := by
  induction cases with
  | nil => rfl
  | cons c cs ih =>
    obtain ⟨value, body⟩ := c
    rw [casesValid, and_eq_true] at h
    rw [filter_cons]
    split_ifs
    · rw [casesValid, and_eq_true]
      exact ⟨h.1, ih h.2⟩
    · exact ih h.2

lemma valid_simplifySwitch (hsupported : Supported dialect) {cases : List Case}
    (he : e.valid dialect Γ) (hreturns : e.returns dialect Γ = 1)
    (hcases : casesValid dialect Γ cases) (hrest : statementsValid dialect Γ rest) :
    statementsValid dialect Γ (simplifySwitch e cases ++ rest) := by
  have hpop := valid_makePopExpressionStatement hsupported he hreturns
  have hkept : casesValid dialect Γ
      (removeEmptyCasesFromSwitch (removeEmptyDefaultFromSwitch cases)) = true := by
    rw [removeEmptyCasesFromSwitch]
    split_ifs
    · exact casesValid_filter _ hcases
    · exact casesValid_filter _ (casesValid_filter _ hcases)
  rw [simplifySwitch]
  generalize removeEmptyCasesFromSwitch (removeEmptyDefaultFromSwitch cases) = kept at hkept
  rcases kept with _ | ⟨c, _ | ⟨c', cs⟩⟩
  · exact and_eq_true _ _ ▸ ⟨hpop, hrest⟩
  · rcases c with ⟨_ | l, body⟩
    all_goals rw [casesValid, and_eq_true, and_eq_true] at hkept
    · show statementsValid dialect Γ (makePopExpressionStatement e :: .block body :: rest) = true
      rw [statementsValid, statementsValid, and_eq_true, and_eq_true]
      exact ⟨hpop, hkept.1.2, hrest⟩
    · obtain ⟨heq, hone⟩ := valid_eq hsupported hkept.1.1 he hreturns
      show statementsValid dialect Γ (.if (.functionCall "eq" [.literal l, e]) body :: rest) = true
      rw [statementsValid, and_eq_true, valid_if, heq, hone, hkept.1.2]
      exact ⟨rfl, hrest⟩
  · show statementsValid dialect Γ (.switch e (c :: c' :: cs) :: rest) = true
    rw [statementsValid, and_eq_true, valid_switch, he, hreturns, hkept]
    exact ⟨rfl, hrest⟩

lemma statementsValid_loopBody (hΓ : Γ.component ≠ .forLoopPre)
    (hjumps : ∀ l, l ≠ .default → jumpsOfStatements l ss = 0)
    (hvalid : statementsValid dialect ((Γ.enter .forLoopBody).register ss) ss) :
    statementsValid dialect (Γ.register ss) ss := by
  rw [register_enter] at hvalid
  have hcomponent : (Γ.register ss).enter Γ.component = Γ.register ss := by
    rw [register_eq]
    rfl
  rw [← hcomponent]
  exact statementsValid_of_jumps hΓ ss hjumps hvalid

lemma declares_simplifyForLoop (jumps : Jumps) (post body : Block) :
    (simplifyForLoop dialect jumps c post body).declares = [] := by
  rw [simplifyForLoop]
  split <;> (try split) <;> rfl

lemma valid_simplifyForLoop {post body : Block}
    (hcount : ∀ l, l ≠ .default → jumpsOfStatements l body ≤ jumps.count l)
    (hΓ : Γ.component ≠ .forLoopPre)
    (hvalid : (Statement.forLoop [] c post body).valid dialect Γ) :
    (simplifyForLoop dialect jumps c post body).valid dialect Γ := by
  have hparts := hvalid
  rw [valid_forLoop_nil, and_eq_true, and_eq_true] at hparts
  obtain ⟨⟨hc, -⟩, hbody⟩ := hparts
  rcases simplifyForLoop_cases dialect c post hcount with
    heq | ⟨ss, rfl, hss, heq⟩ | ⟨ss, e, rfl, -, hjumps, heq⟩
  · rw [heq]
    exact hvalid
  · have hvisible : visibleFunctions (ss ++ [.break]) = visibleFunctions ss := by
      rw [visibleFunctions, definitions_append]
      exact congrArg (List.map _) (append_nil _)
    rw [register_congr hvisible, statementsValid_append, and_eq_true] at hbody
    rw [heq, valid_if, and_eq_true]
    exact ⟨hc, statementsValid_loopBody hΓ hss hbody.1⟩
  · rw [heq, valid_if, and_eq_true]
    exact ⟨hc, statementsValid_loopBody hΓ hjumps hbody⟩

lemma register_simplify {ss out : List Statement}
    (h : simplify dialect jumps ss = some (out, jumps'))
    (hss : everyStatement Statement.switchValid ss) : Γ.register out = Γ.register ss := by
  refine register_congr (visibleFunctions_eq_of_definesRelated (fun d d' hd => ?_)
    (definesRelated_simplify h hss))
  rw [hd.parameters, hd.returnVariables]
  exact ⟨rfl, rfl⟩

lemma valid_simplifyBlock_of {out : Block} (h : simplify dialect jumps ss = some (out, jumps'))
    (hss : everyStatement Statement.switchValid ss) (hΓ : Γ.component ≠ .forLoopPre)
    (hout : ∀ {Γ : Scope}, Γ.component ≠ .forLoopPre → statementsValid dialect Γ ss →
      statementsValid dialect Γ out)
    (hvalid : statementsValid dialect (Γ.register ss) ss) :
    statementsValid dialect (Γ.register out) out := by
  rw [register_simplify h hss]
  refine hout ?_ hvalid
  rw [register_eq]
  exact hΓ

mutual

/-- What replaces a statement is valid in front of code that is valid behind the statement. -/
lemma valid_simplifyStatement (hsupported : Supported dialect) (s : Statement)
    {jumps jumps' : Jumps} {out : List Statement}
    (h : simplifyStatement dialect jumps s = some (out, jumps'))
    (hs : s.every Statement.switchValid) {Γ : Scope} (hΓ : Γ.component ≠ .forLoopPre)
    (hvalid : s.valid dialect Γ) {rest : List Statement}
    (hrest : statementsValid dialect (Γ.declare s.declares) rest) :
    statementsValid dialect Γ (out ++ rest) := by
  match s with
  | .expressionStatement e | .assignment xs e | .variableDeclaration xs value | .break
  | .continue =>
    cases h
    exact and_eq_true _ _ ▸ ⟨hvalid, hrest⟩
  | .functionDefinition f ps rs body =>
    obtain ⟨body', hbody, rfl⟩ := simplifyStatement_function h
    rw [every_function] at hs
    rw [valid_function, and_eq_true] at hvalid
    rw [singleton_append, statementsValid, and_eq_true, valid_function,
      and_eq_true]
    exact ⟨⟨hvalid.1, valid_simplifyBlock_of hbody hs.2 nofun
      (valid_simplify hsupported body hbody hs.2) hvalid.2⟩, hrest⟩
  | .if c body =>
    rw [every_if] at hs
    rw [valid_if, and_eq_true, and_eq_true, decide_eq_true_eq] at hvalid
    obtain ⟨⟨hc, hreturns⟩, hvbody⟩ := hvalid
    rcases simplify_if h with ⟨-, rfl, -⟩ | ⟨body', hbody, rfl⟩
    · rw [singleton_append, statementsValid, and_eq_true]
      exact ⟨valid_makePopExpressionStatement hsupported hc hreturns, hrest⟩
    · rw [singleton_append, statementsValid, and_eq_true, valid_if, hc, hreturns,
        valid_simplifyBlock_of hbody hs.2 hΓ
          (valid_simplify hsupported body hbody hs.2) hvbody]
      exact ⟨rfl, hrest⟩
  | .switch e cases =>
    obtain ⟨cases', hcases, rfl⟩ := simplify_switch h
    rw [every_switch] at hs
    rw [valid_switch, and_eq_true, and_eq_true, decide_eq_true_eq] at hvalid
    exact valid_simplifySwitch hsupported hvalid.1.1 hvalid.1.2
      (valid_simplifyCases hsupported cases hcases hs.2 hΓ hvalid.2) hrest
  | .forLoop pre c post body =>
    obtain ⟨post', body', inner, inner', hpost, hbody, rfl, rfl, -⟩ := simplify_forLoop h
    obtain ⟨-, -, hspost, hsbody⟩ := every_forLoop.mp hs
    rw [valid_forLoop_nil, and_eq_true, and_eq_true] at hvalid
    obtain ⟨⟨hc, hvpost⟩, hvbody⟩ := hvalid
    rw [singleton_append, statementsValid, and_eq_true, declares_simplifyForLoop]
    refine ⟨valid_simplifyForLoop (jumps_le_count hbody) hΓ ?_, hrest⟩
    rw [valid_forLoop_nil, and_eq_true, and_eq_true]
    exact ⟨⟨hc, valid_simplifyBlock_of hpost hspost nofun
      (valid_simplify hsupported post hpost hspost) hvpost⟩,
      valid_simplifyBlock_of hbody hsbody nofun
        (valid_simplify hsupported body hbody hsbody) hvbody⟩
  | .block ss =>
    obtain ⟨ss', hss, rfl⟩ := simplify_block h
    rw [every_block] at hs
    rw [singleton_append, statementsValid, and_eq_true]
    exact ⟨valid_simplifyBlock_of hss hs.2 hΓ
      (valid_simplify hsupported ss hss hs.2) hvalid, hrest⟩

lemma valid_simplify (hsupported : Supported dialect) (ss : List Statement)
    {jumps jumps' : Jumps} {out : List Statement}
    (h : simplify dialect jumps ss = some (out, jumps'))
    (hss : everyStatement Statement.switchValid ss) {Γ : Scope}
    (hΓ : Γ.component ≠ .forLoopPre) (hvalid : statementsValid dialect Γ ss) :
    statementsValid dialect Γ out := by
  match ss with
  | [] =>
    cases h
    rfl
  | s :: ss =>
    obtain ⟨out₁, jumps₁, out₂, hs, hss', rfl⟩ := simplify_cons h
    rw [everyStatement_cons] at hss
    rw [statementsValid, and_eq_true] at hvalid
    exact valid_simplifyStatement hsupported s hs hss.1 hΓ hvalid.1
      (valid_simplify hsupported ss hss' hss.2 hΓ hvalid.2)

lemma valid_simplifyCases (hsupported : Supported dialect) (cs : List Case)
    {jumps jumps' : Jumps} {out : List Case}
    (h : simplifyCases dialect jumps cs = some (out, jumps'))
    (hcs : everyCase Statement.switchValid cs) {Γ : Scope}
    (hΓ : Γ.component ≠ .forLoopPre) (hvalid : casesValid dialect Γ cs) :
    casesValid dialect Γ out := by
  match cs with
  | [] =>
    cases h
    rfl
  | .mk value body :: cs =>
    obtain ⟨body', jumps₁, cs₁, hbody, hcs', rfl⟩ := simplifyCases_cons h
    rw [everyCase_cons] at hcs
    rw [casesValid, and_eq_true, and_eq_true] at hvalid ⊢
    exact ⟨⟨hvalid.1.1, valid_simplifyBlock_of hbody hcs.1 hΓ
      (valid_simplify hsupported body hbody hcs.1) hvalid.1.2⟩,
      valid_simplifyCases hsupported cs hcs' hcs.2 hΓ hvalid.2⟩

end

end

mutual

lemma simplifyStatement_isSome {dialect : Dialect} (s : Statement)
    (h : s.every Statement.initEmpty) (jumps : Jumps) :
    (simplifyStatement dialect jumps s).isSome := by
  match s with
  | .expressionStatement _ | .assignment _ _ | .variableDeclaration _ _ | .break | .continue => rfl
  | .functionDefinition f ps rs body =>
    rw [every_function] at h
    obtain ⟨r, hr⟩ := isSome_iff_exists.mp (simplify_isSome body h.2 jumps)
    exact isSome_iff_exists.mpr ⟨_, bind_eq_some_iff.mpr ⟨r, hr, rfl⟩⟩
  | .if c [] => rfl
  | .if c (s :: ss) =>
    rw [every_if] at h
    obtain ⟨r, hr⟩ := isSome_iff_exists.mp (simplify_isSome (s :: ss) h.2 jumps)
    exact isSome_iff_exists.mpr ⟨_, bind_eq_some_iff.mpr ⟨r, hr, rfl⟩⟩
  | .switch e cases =>
    rw [every_switch] at h
    obtain ⟨r, hr⟩ := isSome_iff_exists.mp (simplifyCases_isSome cases h.2 jumps)
    exact isSome_iff_exists.mpr ⟨_, bind_eq_some_iff.mpr ⟨r, hr, rfl⟩⟩
  | .forLoop (_ :: _) c post body =>
    rw [every_forLoop] at h
    cases h.1
  | .forLoop [] c post body =>
    rw [every_forLoop] at h
    obtain ⟨-, -, hpost, hbody⟩ := h
    obtain ⟨r, hr⟩ := isSome_iff_exists.mp (simplify_isSome post hpost ⟨0, 0⟩)
    obtain ⟨r', hr'⟩ := isSome_iff_exists.mp (simplify_isSome body hbody r.2)
    exact isSome_iff_exists.mpr ⟨_, bind_eq_some_iff.mpr
      ⟨r, hr, bind_eq_some_iff.mpr ⟨r', hr', rfl⟩⟩⟩
  | .block ss =>
    rw [every_block] at h
    obtain ⟨r, hr⟩ := isSome_iff_exists.mp (simplify_isSome ss h.2 jumps)
    exact isSome_iff_exists.mpr ⟨_, bind_eq_some_iff.mpr ⟨r, hr, rfl⟩⟩

lemma simplify_isSome {dialect : Dialect} (ss : List Statement)
    (h : everyStatement Statement.initEmpty ss) (jumps : Jumps) :
    (simplify dialect jumps ss).isSome := by
  match ss with
  | [] => rfl
  | s :: ss =>
    rw [everyStatement_cons] at h
    obtain ⟨r, hr⟩ := isSome_iff_exists.mp (simplifyStatement_isSome s h.1 jumps)
    obtain ⟨r', hr'⟩ := isSome_iff_exists.mp (simplify_isSome ss h.2 r.2)
    exact isSome_iff_exists.mpr ⟨_, bind_eq_some_iff.mpr
      ⟨r, hr, bind_eq_some_iff.mpr ⟨r', hr', rfl⟩⟩⟩

lemma simplifyCases_isSome {dialect : Dialect} (cs : List Case)
    (h : everyCase Statement.initEmpty cs) (jumps : Jumps) :
    (simplifyCases dialect jumps cs).isSome := by
  match cs with
  | [] => rfl
  | .mk value body :: cs =>
    rw [everyCase_cons] at h
    obtain ⟨r, hr⟩ := isSome_iff_exists.mp (simplify_isSome body h.1 jumps)
    obtain ⟨r', hr'⟩ := isSome_iff_exists.mp (simplifyCases_isSome cs h.2 r.2)
    exact isSome_iff_exists.mpr ⟨_, bind_eq_some_iff.mpr
      ⟨r, hr, bind_eq_some_iff.mpr ⟨r', hr', rfl⟩⟩⟩

end

section

variable {World : Type} {env : Environment World} {dialect : Dialect} {ss ss' : Block}

lemma run_simplify {p q : Prop} {k : Nat} (hk : k = 0 ∨ q) (hp : k = 0 → p)
    (hsupported : Supported dialect) (h : run dialect ss = some ss')
    (hvalid : everyStatement Statement.switchValid ss) (n : Nat) (m : SvmState World) :
    Result.Sim p q Eq Eq (Block.run env dialect (n + k) ss m) (Block.run env dialect n ss' m) := by
  obtain ⟨⟨out, jumps'⟩, hss, rfl⟩ := Option.map_eq_some_iff.mp h
  refine run_sim (execBlock_simplify ?_ hsupported ?_ ss hss hvalid Functions.Rel.none _ m)
  · refine sim_ofBound hk ?_ n
    rintro I I' rfl hzero hI F F' hF d d' hd vs m
    obtain ⟨hparameters, hreturns, hvbody, jumps, jumps', hbody⟩ := hd
    have hvars : d'.variables vs = d.variables vs := by
      rw [FunctionDefinition.variables, FunctionDefinition.variables, hparameters, hreturns]
    rw [FunctionDefinition.run, FunctionDefinition.run, hvars, hreturns]
    refine (execBlock_simplify hI hsupported (fun h => hp (hzero h)) d.body hbody hvbody hF
      (d.variables vs) m).map ?_
    rintro ⟨l, W⟩ ⟨l', W'⟩ ⟨-, hW⟩
    obtain rfl : W = W' := hW
    rfl
  · intro hzero
    exact hp (Nat.eq_zero_of_add_eq_zero_left hzero)

end

end ControlFlowSimplifier

open ControlFlowSimplifier in
/-- The step keeps the meaning of every program whose loops have no init part, and the result
passes the analysis if the program does. -/
theorem controlFlowSimplifier_sameRuns (dialect : Dialect) (ss : Block)
    (hsupported : Supported dialect) (hvalid : Block.valid dialect ss = true)
    (hswitches : everyStatement Statement.switchValid ss = true)
    (hloops : everyStatement Statement.initEmpty ss = true) :
    ∃ ss', run dialect ss = some ss' ∧ Block.valid dialect ss' = true ∧
      ∀ {World : Type} (env : Environment World), SameRuns env dialect ss ss' := by
  obtain ⟨⟨ss', jumps'⟩, hss⟩ := isSome_iff_exists.mp (simplify_isSome ss hloops ⟨0, 0⟩)
  have hrun : run dialect ss = some ss' := Option.map_eq_some_iff.mpr ⟨_, hss, rfl⟩
  refine ⟨ss', hrun, ?_, fun env => ?_⟩
  · exact valid_simplifyBlock_of hss hswitches nofun
      (valid_simplify hsupported ss hss hswitches) hvalid
  · exact SameRuns.of_sim id (· + 1)
      (run_simplify (.inl rfl) (fun _ => trivial) hsupported hrun hswitches)
      (run_simplify (.inr trivial) (fun h => nomatch h) hsupported hrun hswitches)

/-- `for {} calldataload(0) {} { for {} 1 {} { break }  sstore(0, 1)  break }
switch calldataload(1) case 0 {} case 1 { sstore(1, 2) }` -/
def loopInLoop : Block :=
  [.forLoop [] (.functionCall "calldataload" [.literal (.number "0")]) []
      [.forLoop [] (.literal (.number "1")) [] [.break],
        .expressionStatement
          (.functionCall "sstore" [.literal (.number "0"), .literal (.number "1")]),
        .break],
    .switch (.functionCall "calldataload" [.literal (.number "1")])
      [.mk (some (.number "0")) [],
        .mk (some (.number "1"))
          [.expressionStatement
            (.functionCall "sstore" [.literal (.number "1"), .literal (.number "2")])]]]

theorem controlFlowSimplifier_sameRuns_loopInLoop :
    ∃ ss', ControlFlowSimplifier.run .strictAssemblyForSVMObjects loopInLoop = some ss' ∧
      ∀ (env : Environment Unit), SameRuns env .strictAssemblyForSVMObjects loopInLoop ss' := by
  obtain ⟨ss', hrun, -, h⟩ := controlFlowSimplifier_sameRuns .strictAssemblyForSVMObjects
    loopInLoop ⟨rfl, rfl⟩ (by decide) (by decide) (by decide)
  exact ⟨ss', hrun, h⟩

end Yul
