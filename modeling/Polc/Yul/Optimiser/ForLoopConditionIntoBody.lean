import Polc.Yul.Optimiser.ForLoopInitRewriter

/-!
# Loop conditions in the body

`libyul/optimiser/ForLoopConditionIntoBody.cpp`: the condition of a loop, unless it is a literal,
becomes a conditional `break` at the start of its body.
-/

namespace Yul

open Sof Semantics List Scope Bool

namespace ForLoopConditionIntoBody

/-- `if iszero(condition) { break }` -/
def breakUnless (condition : Expression) : Statement :=
  .if (.functionalInstruction .iszero [condition]) [.break]

/-- The condition of a loop afterwards. -/
def newCondition : Expression → Expression
  | .literal l => .literal l
  | _ => .literal (.number "1")

/-- The body of a loop with the given condition afterwards. -/
def newBody (condition : Expression) (body : Block) : Block :=
  match condition with
  | .literal _ => body
  | _ => breakUnless condition :: body

mutual

/-- Rewrite the loops in a statement. There is nothing to rewrite in the statement that is
inserted into the body of a loop. -/
def rewriteStatement : Statement → Statement
  | .functionDefinition f ps rs body => .functionDefinition f ps rs (rewrite body)
  | .if c body => .if c (rewrite body)
  | .switch e cases => .switch e (rewriteCases cases)
  | .forLoop pre c post body =>
    .forLoop (rewrite pre) (newCondition c) (rewrite post) (newBody c (rewrite body))
  | .block ss => .block (rewrite ss)
  | s => s

def rewrite : List Statement → List Statement
  | [] => []
  | s :: ss => rewriteStatement s :: rewrite ss

def rewriteCases : List Case → List Case
  | [] => []
  | .mk value body :: cs => .mk value (rewrite body) :: rewriteCases cs

end

/-- Run the step on a program. -/
def run (ss : Block) : Block := rewrite ss

/-- The function afterwards. -/
def rewriteFunction (d : FunctionDefinition) : FunctionDefinition :=
  ⟨d.parameters, d.returnVariables, rewrite d.body⟩

/-! ### Names and functions -/

section

variable (c : Expression) (ss : List Statement)

lemma newBody_cases : newBody c ss = ss ∨ newBody c ss = breakUnless c :: ss := by
  cases c <;> first | exact .inl rfl | exact .inr rfl

@[simp] lemma names_newBody :
    namesOfStatements (newBody c ss) = namesOfStatements ss := by
  rcases newBody_cases c ss with h | h <;> rw [h]
  rfl

@[simp] lemma functions_newBody :
    functionsOfStatements (newBody c ss) = functionsOfStatements ss := by
  rcases newBody_cases c ss with h | h <;> rw [h]
  rfl

mutual

lemma names_rewriteStatement (s : Statement) : (rewriteStatement s).names = s.names := by
  match s with
  | .expressionStatement _ | .assignment _ _ | .variableDeclaration _ _ | .break | .continue => rfl
  | .functionDefinition f ps rs body =>
    rw [rewriteStatement, Statement.names, Statement.names, names_rewrite body]
  | .if c body => exact names_rewrite body
  | .switch e cases => exact namesOfCases_rewriteCases cases
  | .forLoop pre c post body =>
    rw [rewriteStatement, Statement.names, Statement.names, names_newBody,
      names_rewrite pre, names_rewrite post, names_rewrite body]
  | .block ss => exact names_rewrite ss

lemma names_rewrite (ss : List Statement) :
    namesOfStatements (rewrite ss) = namesOfStatements ss := by
  match ss with
  | [] => rfl
  | s :: ss =>
    rw [rewrite, namesOfStatements, namesOfStatements, names_rewriteStatement s,
      names_rewrite ss]

lemma namesOfCases_rewriteCases (cs : List Case) :
    namesOfCases (rewriteCases cs) = namesOfCases cs := by
  match cs with
  | [] => rfl
  | .mk value body :: cs =>
    rw [rewriteCases, namesOfCases, namesOfCases, names_rewrite body,
      namesOfCases_rewriteCases cs]

end

mutual

lemma functions_rewriteStatement (s : Statement) :
    (rewriteStatement s).functions = s.functions.map fun p => (p.1, rewriteFunction p.2) := by
  match s with
  | .expressionStatement _ | .assignment _ _ | .variableDeclaration _ _ | .break | .continue => rfl
  | .functionDefinition f ps rs body =>
    rw [rewriteStatement, Statement.functions, Statement.functions, map_cons,
      functions_rewrite body]
    rfl
  | .if c body => exact functions_rewrite body
  | .switch e cases => exact functionsOfCases_rewriteCases cases
  | .forLoop pre c post body =>
    rw [rewriteStatement, Statement.functions, Statement.functions, functions_newBody,
      functions_rewrite pre, functions_rewrite post,
      functions_rewrite body, map_append, map_append]
  | .block ss => exact functions_rewrite ss

lemma functions_rewrite (ss : List Statement) :
    functionsOfStatements (rewrite ss) =
      (functionsOfStatements ss).map fun p => (p.1, rewriteFunction p.2) := by
  match ss with
  | [] => rfl
  | s :: ss =>
    rw [rewrite, functionsOfStatements, functionsOfStatements, functions_rewriteStatement s,
      functions_rewrite ss, map_append]

lemma functionsOfCases_rewriteCases (cs : List Case) :
    functionsOfCases (rewriteCases cs) =
      (functionsOfCases cs).map fun p => (p.1, rewriteFunction p.2) := by
  match cs with
  | [] => rfl
  | .mk value body :: cs =>
    rw [rewriteCases, functionsOfCases, functionsOfCases, functions_rewrite body,
      functionsOfCases_rewriteCases cs, map_append]

end

lemma mapsFunctions_run (hss : Block.UniqueFunctions ss) :
    Block.MapsFunctions rewriteFunction ss (run ss) :=
  ⟨hss, List.Perm.of_eq (functions_rewrite ss)⟩

end

section

variable {World : Type} {I : Interpreter World} {G : Functions} {V : Variables}
  {m : SvmState World} {c : Expression} {pre post body : Block}

lemma evaluate_iszero :
    (Expression.functionalInstruction .iszero [c]).evaluate I G V m =
      (c.evaluate I G V m).map fun v => Word.ofBool (v = 0) := by
  rw [Expression.evaluate, Expression.eval_instruction, args_cons,
    args_nil, Result.bind_ok, Expression.evaluate]
  cases c.eval I G V m <;> rfl

lemma execBlock_breakUnless (hG : G.Holds (functionsOfStatements body)) :
    execBlock I G V (breakUnless c :: body) m =
      (c.evaluate I G V m).bind fun v m =>
        if v ≠ 0 then execBlock I G V body m else .ok (.break, V) m := by
  have hG' : G.Holds (functionsOfStatements (breakUnless c :: body)) := hG
  have hbreak : execBlock I G V [.break] = fun m => .ok (.break, V) m := by
    funext m
    rw [execBlock, exec_singleton, exec_break, closeScope, Result.map_ok,
      Variables.restrict_self]
  rw [hG'.execBlock_eq, execStatements_cons, breakUnless, exec_if, evaluate_iszero]
  cases c.evaluate I G V m with
  | ok v m₁ =>
    rw [Result.map_ok, Result.bind_ok, Result.bind_ok]
    by_cases hv : v = 0
    · subst hv
      rw [if_pos (by decide), hbreak, Result.bind_ok, if_neg (by rintro ⟨⟩), if_neg (by decide),
        closeScope, Result.map_ok, Variables.restrict_self]
    · have hzero : Word.ofBool (v = 0) = 0 := by rw [decide_eq_false hv]; rfl
      rw [hzero, if_neg (by decide), Result.bind_ok, if_pos rfl, if_pos hv, hG.execBlock_eq]
  | halt h m₁ => rfl
  | timeout => rfl

lemma exec_newCondition (hG : G.Holds (functionsOfStatements body)) :
    (Statement.forLoop pre (newCondition c) post (newBody c body)).exec I G V m =
      (Statement.forLoop pre c post body).exec I G V m := by
  have hloop (l : Expression) (hl : l = .literal (.number "1")) (n : Nat) (W : Variables)
      (m : SvmState World) :
      loop (loopCondition I G l) (loopBody I G (breakUnless c :: body)) (loopPost I G post) n W m =
        loop (loopCondition I G c) (loopBody I G body) (loopPost I G post) n W m := by
    refine loop_condition_into_body (fun W m => ?_) (fun W m => ?_) n W m
    · rw [hl]
      rfl
    · rw [loopBody, loopCondition, execBlock_breakUnless hG, Result.map, Result.bind_assoc,
        Result.map, Result.bind_assoc]
      refine Result.bind_congr _ fun v m₁ _ => ?_
      by_cases hv : v = 0
      · rw [if_neg (not_not.mpr hv), Result.bind_ok, Result.bind_ok, if_neg (by simpa using hv)]
        rfl
      · rw [if_pos hv, Result.bind_ok, if_pos (decide_eq_true hv)]
        rfl
  cases c with
  | literal l => rfl
  | _ =>
    rw [exec_forLoop, exec_forLoop, newCondition, newBody]
    · simp only [hloop _ rfl]
    all_goals nofun

end

/-! ### Executions -/

section

variable {World : Type} {p q : Prop} {G G' : Functions} {I I' : Interpreter World}

lemma holds_rewrite (hT : G.Maps rewriteFunction G') {ss : List Statement}
    (hG : G.Holds (functionsOfStatements ss)) : G'.Holds (functionsOfStatements (rewrite ss)) := by
  rw [functions_rewrite]
  exact hT.holds hG

lemma execBlock_rewrite_of (hT : G.Maps rewriteFunction G') {ss : Block}
    (hss : ∀ V m, Result.Sim p q Eq (Outcome fun _ => Eq) (execStatements I G V ss m)
      (execStatements I' G' V (rewrite ss) m)) (hG : G.Holds (functionsOfStatements ss))
    (V : Variables) (m : SvmState World) :
    Result.Sim p q Eq (Outcome fun _ => Eq) (execBlock I G V ss m)
      (execBlock I' G' V (rewrite ss) m) :=
  execBlock_simAt hG (holds_rewrite hT hG) (hss V m) fun _ _ _ hW => congrArg V.restrict hW

mutual

lemma exec_rewriteStatement (hT : G.Maps rewriteFunction G') (hI : I.SimAt p q G G' I')
    (s : Statement) (hG : G.Holds s.functions) (V : Variables) (m : SvmState World) :
    Result.Sim p q Eq (Outcome fun _ => Eq) (s.exec I G V m)
      ((rewriteStatement s).exec I' G' V m) := by
  match s with
  | .expressionStatement e =>
    exact (hI.eval e (fun _ _ => rfl) m).map fun _ _ _ => ⟨rfl, rfl⟩
  | .assignment xs e =>
    refine (hI.eval e (fun _ _ => rfl) m).map ?_
    rintro vs _ rfl
    exact ⟨rfl, rfl⟩
  | .variableDeclaration xs value =>
    refine (hI.evaluateMulti value (fun _ _ _ _ => rfl) m).map ?_
    rintro vs _ rfl
    exact ⟨rfl, rfl⟩
  | .functionDefinition f ps rs body => exact .ok ⟨rfl, rfl⟩ rfl
  | .if c body =>
    exact exec_if_sim (hI.evaluate c (fun _ _ => rfl) m)
      (execBlock_rewrite_of hT (exec_rewrite hT hI body hG) hG V) rfl
  | .switch e cases =>
    exact exec_switch_sim (hI.evaluate e (fun _ _ => rfl) m) (execCases_rewriteCases hT hI cases hG V)
  | .forLoop pre c post body =>
    have hbody := execBlock_rewrite_of hT (exec_rewrite hT hI body hG.left.right)
      hG.left.right
    have hpost := execBlock_rewrite_of hT (exec_rewrite hT hI post hG.right) hG.right
    rw [rewriteStatement, exec_newCondition (holds_rewrite hT hG.left.right), exec_forLoop,
      exec_forLoop]
    refine closeScope_sim (A := fun _ => Eq) ?_ fun _ _ _ hW => congrArg V.restrict hW
    refine (exec_rewrite hT hI pre hG.left.left V m).bind ?_
    rintro ⟨l, W⟩ ⟨_, _⟩ m₁ _ - - ⟨rfl, rfl⟩ rfl
    refine (exec_loop_sim (A := Eq) (B := fun _ => Eq) (C := Eq) hI.fuel ?_ ?_ ?_ ?_ ?_ rfl
      m₁).map fun W W' hW => ⟨rfl, hW⟩
    · rintro W _ m rfl
      exact hI.evaluate c (fun _ _ => rfl) m
    · exact fun _ _ => id
    · rintro W _ m rfl
      exact hbody W m
    · exact fun _ _ => id
    · rintro l W _ m - rfl
      exact hpost W m
  | .break | .continue => exact .ok ⟨rfl, rfl⟩ rfl
  | .block ss => exact execBlock_rewrite_of hT (exec_rewrite hT hI ss hG) hG V m

lemma exec_rewrite (hT : G.Maps rewriteFunction G') (hI : I.SimAt p q G G' I')
    (ss : List Statement) (hG : G.Holds (functionsOfStatements ss)) (V : Variables)
    (m : SvmState World) :
    Result.Sim p q Eq (Outcome fun _ => Eq) (execStatements I G V ss m)
      (execStatements I' G' V (rewrite ss) m) := by
  match ss with
  | [] => exact .ok ⟨rfl, rfl⟩ rfl
  | s :: ss =>
    have hs := exec_rewriteStatement hT hI s hG.left V m
    rw [← exec_singleton (rewriteStatement s)] at hs
    refine exec_cons_sim hs ?_ (fun _ _ _ _ => id)
    rintro W _ m₁ rfl
    exact exec_rewrite hT hI ss hG.right W m₁

lemma execCases_rewriteCases (hT : G.Maps rewriteFunction G') (hI : I.SimAt p q G G' I')
    (cs : List Case) (hG : G.Holds (functionsOfCases cs)) (V : Variables) (v : Word)
    (m : SvmState World) :
    Result.Sim p q Eq (Outcome fun _ => Eq) (execCases I G V v cs m)
      (execCases I' G' V v (rewriteCases cs) m) := by
  match cs with
  | [] => exact .ok ⟨rfl, rfl⟩ rfl
  | .mk value body :: cs =>
    exact execCases_cons_sim
      (execBlock_rewrite_of hT (exec_rewrite hT hI body hG.left) hG.left V m)
      (execCases_rewriteCases hT hI cs hG.right V v m)

end

lemma run_rewriteFunction (hT : G.Maps rewriteFunction G') (hI : I.SimAt p q G G' I')
    (d : FunctionDefinition) (hG : G.Holds (functionsOfStatements d.body)) (vs : List Word)
    (m : SvmState World) :
    Result.Sim p q Eq Eq (d.run I G vs m) ((rewriteFunction d).run I' G' vs m) := by
  refine (execBlock_rewrite_of hT (exec_rewrite hT hI d.body hG) hG (d.variables vs)
    m).map ?_
  rintro ⟨l, W⟩ ⟨_, _⟩ ⟨rfl, rfl⟩
  rfl

end

/-! ### Validity -/

section

variable {dialect : Dialect} {G : Functions}

lemma definitions_rewrite (ss : List Statement) :
    functionDefinitions (rewrite ss) =
      (functionDefinitions ss).map fun p => (p.1, rewriteFunction p.2) := by
  induction ss with
  | nil => rfl
  | cons s ss ih =>
    cases s with
    | functionDefinition f ps rs body => exact congrArg (_ :: ·) ih
    | _ => exact ih

lemma visibleFunctions_rewrite (ss : List Statement) :
    visibleFunctions (rewrite ss) = visibleFunctions ss := by
  rw [visibleFunctions, definitions_rewrite, map_map]
  rfl

lemma flatMap_declares_rewrite (ss : List Statement) :
    (rewrite ss).flatMap (·.declares) = ss.flatMap (·.declares) := by
  induction ss with
  | nil => rfl
  | cons s ss ih =>
    rw [rewrite, flatMap_cons, flatMap_cons, ih]
    cases s <;> rfl

lemma blockValid_rewrite {ss : Block} {Γ : Scope}
    (h : statementsValid dialect (Γ.register ss) (rewrite ss)) :
    statementsValid dialect (Γ.register (rewrite ss)) (rewrite ss) := by
  rwa [register_congr (visibleFunctions_rewrite ss)]

lemma blockValid_newBody {c : Expression} {body : Block} {Γ : Scope}
    (hΓ : Γ.Extends (Γ.register body)) (hcomponent : Γ.component = .forLoopBody)
    (hc : c.valid dialect Γ) (hreturns : c.returns dialect Γ = 1)
    (h : statementsValid dialect (Γ.register body) body) :
    statementsValid dialect (Γ.register (newBody c body)) (newBody c body) := by
  rcases newBody_cases c body with heq | heq
  · rwa [heq]
  · have hregister : Γ.register (breakUnless c :: body) = Γ.register body := rfl
    obtain ⟨hc', hreturns'⟩ := c.valid_of_extends hΓ hc
    rw [heq, hregister, statementsValid, and_eq_true]
    refine ⟨?_, h⟩
    rw [breakUnless, valid_if, and_eq_true, and_eq_true, decide_eq_true_eq]
    refine ⟨⟨?_, rfl⟩, ?_⟩
    · rw [Expression.valid_instruction, argumentsValid, hc', hreturns',
        hreturns]
      rfl
    · rw [statementsValid, statementsValid, Bool.and_true]
      refine decide_eq_true ?_
      rw [register_eq, register_eq]
      exact hcomponent

mutual

lemma valid_rewrite (s : Statement) {Γ : Scope} (hΓ : G.Declares Γ)
    (hG : G.Holds s.functions) (h : s.valid dialect Γ) :
    (rewriteStatement s).valid dialect Γ := by
  match s with
  | .expressionStatement _ | .assignment _ _ | .variableDeclaration _ _ | .break | .continue =>
    exact h
  | .functionDefinition f ps rs body =>
    have hG' : G.Holds (functionsOfStatements body) := hG.subset (subset_cons_self _ _)
    rw [valid_function, and_eq_true] at h
    rw [rewriteStatement, valid_function, and_eq_true]
    refine ⟨h.1, blockValid_rewrite (statementsValid_rewrite body ?_ hG' h.2)⟩
    exact (hΓ.function _).register (hG'.subset (definitions_subset body))
  | .if c body =>
    rw [valid_if, and_eq_true] at h
    rw [rewriteStatement, valid_if, and_eq_true]
    exact ⟨h.1, blockValid_rewrite (statementsValid_rewrite body
      (hΓ.register (hG.subset (definitions_subset body))) hG h.2)⟩
  | .switch e cases =>
    rw [valid_switch, and_eq_true] at h
    rw [rewriteStatement, valid_switch, and_eq_true]
    exact ⟨h.1, casesValid_rewriteCases cases hΓ hG h.2⟩
  | .forLoop pre c post body =>
    simp only [valid_forLoop, and_eq_true, decide_eq_true_eq] at h
    obtain ⟨⟨⟨⟨hpre, hc⟩, hreturns⟩, hpost⟩, hbody⟩ := h
    have hΓ' := hΓ.declare (pre.flatMap (·.declares))
    have hG' : G.Holds (functionDefinitions body) :=
      hG.left.right.subset (definitions_subset body)
    rw [rewriteStatement]
    simp only [valid_forLoop, and_eq_true, decide_eq_true_eq, flatMap_declares_rewrite]
    refine ⟨⟨⟨⟨?_, ?_⟩, ?_⟩, ?_⟩, ?_⟩
    · exact statementsValid_rewrite pre (hΓ.enter _) hG.left.left hpre
    · cases c <;> first | exact hc | rfl
    · cases c <;> rfl
    · exact blockValid_rewrite (statementsValid_rewrite post
        ((hΓ'.enter _).register (hG.right.subset (definitions_subset post)))
        hG.right hpost)
    · obtain ⟨hc', hreturns'⟩ := c.valid_of_extends
        (Scope.Extends.enter_right _ .forLoopBody) hc
      refine blockValid_newBody ?_ rfl hc' (hreturns'.trans hreturns) (blockValid_rewrite
        (statementsValid_rewrite body ((hΓ'.enter _).register hG') hG.left.right hbody))
      rw [register_congr (visibleFunctions_rewrite body)]
      exact (hΓ'.enter _).extends_register hG'
  | .block ss =>
    exact blockValid_rewrite (statementsValid_rewrite ss
      (hΓ.register (hG.subset (definitions_subset ss))) hG h)

lemma statementsValid_rewrite (ss : List Statement) {Γ : Scope} (hΓ : G.Declares Γ)
    (hG : G.Holds (functionsOfStatements ss)) (h : statementsValid dialect Γ ss) :
    statementsValid dialect Γ (rewrite ss) := by
  match ss with
  | [] => rfl
  | s :: ss =>
    have hdeclares : (rewriteStatement s).declares = s.declares := by cases s <;> rfl
    rw [statementsValid, and_eq_true] at h
    rw [rewrite, statementsValid, and_eq_true, hdeclares]
    exact ⟨valid_rewrite s hΓ hG.left h.1,
      statementsValid_rewrite ss (hΓ.declare _) hG.right h.2⟩

lemma casesValid_rewriteCases (cs : List Case) {Γ : Scope} (hΓ : G.Declares Γ)
    (hG : G.Holds (functionsOfCases cs)) (h : casesValid dialect Γ cs) :
    casesValid dialect Γ (rewriteCases cs) := by
  match cs with
  | [] => rfl
  | .mk value body :: cs =>
    rw [casesValid, and_eq_true, and_eq_true] at h
    rw [rewriteCases, casesValid, and_eq_true, and_eq_true]
    exact ⟨⟨h.1.1, blockValid_rewrite (statementsValid_rewrite body
      (hΓ.register (hG.left.subset (definitions_subset body))) hG.left h.1.2)⟩,
        casesValid_rewriteCases cs hΓ hG.right h.2⟩

end

end

lemma sameRuns_run {dialect : Dialect} {ss : Block} (hss : Block.Disambiguated dialect ss) :
    Block.Disambiguated dialect (run ss) ∧
      ∀ (World : Type) (env : Environment World), SameRuns env dialect ss (run ss) := by
  have hmaps := mapsFunctions_run ss hss.uniqueFunctions
  have hvalid : Block.valid dialect (run ss) = true :=
    blockValid_rewrite (statementsValid_rewrite ss ((Functions.Declares.empty _).register
      (hmaps.holds.subset (definitions_subset ss))) hmaps.holds hss.valid)
  refine ⟨⟨hvalid, by rw [run, names_rewrite]; exact hss.nodup⟩, fun World env => ?_⟩
  refine hmaps.sameRuns (A := fun _ => Eq) hss.valid hvalid ?_ ?_
  · intro I I' _ hI p hp vs m
    exact run_rewriteFunction hmaps.maps hI p.2
      (hmaps.holds.subset (functionsOfStatements_trans ss hp)) vs m
  · intro I I' _ hI m
    exact execBlock_rewrite_of hmaps.maps (exec_rewrite hmaps.maps hI ss hmaps.holds)
      hmaps.holds _ m

end ForLoopConditionIntoBody

/-- Both steps keep the runs of every disambiguated program; after the first one no loop has an
init part. -/
theorem loopNormalisation_keepsRuns {dialect : Dialect} {ss : Block}
    (hss : Block.Disambiguated dialect ss) :
    KeepsRuns dialect ss (ForLoopInitRewriter.run ss) ∧
      everyStatement Statement.initEmpty (ForLoopInitRewriter.run ss) = true ∧
      KeepsRuns dialect ss (ForLoopConditionIntoBody.run ss) := by
  refine ⟨?_, ForLoopInitRewriter.initEmpty_rewrite ss, ForLoopConditionIntoBody.sameRuns_run hss⟩
  rw [ForLoopInitRewriter.run, ForLoopInitRewriter.rewrite_eq]
  exact sameRuns_dissolve _ hss

/-- `for { let i := 0  for { let j := 0 } lt(j, 2) { j := add(j, 1) } { i := add(i, j) } } lt(i, 9)
{ i := add(i, 1) } { if eq(i, 5) { continue }  if eq(i, 7) { break }  sstore(i, i) }` -/
def loopInInit : Block :=
  [.forLoop
    [.variableDeclaration [⟨"i", ""⟩] (some (.literal (.number "0"))),
      .forLoop [.variableDeclaration [⟨"j", ""⟩] (some (.literal (.number "0")))]
        (.functionCall "lt" [.identifier "j", .literal (.number "2")])
        [.assignment ["j"] (.functionCall "add" [.identifier "j", .literal (.number "1")])]
        [.assignment ["i"] (.functionCall "add" [.identifier "i", .identifier "j"])]]
    (.functionCall "lt" [.identifier "i", .literal (.number "9")])
    [.assignment ["i"] (.functionCall "add" [.identifier "i", .literal (.number "1")])]
    [.if (.functionCall "eq" [.identifier "i", .literal (.number "5")]) [.continue],
      .if (.functionCall "eq" [.identifier "i", .literal (.number "7")]) [.break],
      .expressionStatement (.functionCall "sstore" [.identifier "i", .identifier "i"])]]

theorem loopNormalisation_keepsRuns_loopInInit :
    KeepsRuns .strictAssemblyForSVMObjects loopInInit (ForLoopInitRewriter.run loopInInit) ∧
      everyStatement Statement.initEmpty (ForLoopInitRewriter.run loopInInit) = true ∧
      KeepsRuns .strictAssemblyForSVMObjects loopInInit
        (ForLoopConditionIntoBody.run loopInInit) :=
  loopNormalisation_keepsRuns (by decide)

/-- `for { let x := 0 } 0 {} {}  for { let x := 1 } 0 {} {}` -/
def loopsWithSameVariable : Block :=
  [.forLoop [.variableDeclaration [⟨"x", ""⟩] (some (.literal (.number "0")))]
      (.literal (.number "0")) [] [],
    .forLoop [.variableDeclaration [⟨"x", ""⟩] (some (.literal (.number "1")))]
      (.literal (.number "0")) [] []]

/-- In a valid program that is not disambiguated, `x` is declared twice in one scope afterwards, and
such a program has no meaning. -/
theorem loopNormalisation_declaresTwice :
    Block.valid .strictAssemblyForSVMObjects loopsWithSameVariable = true ∧
      Block.valid .strictAssemblyForSVMObjects
        (ForLoopInitRewriter.run loopsWithSameVariable) = false := by
  decide

end Yul
