import Polc.Semantics.Simulation
import Polc.Yul.Machine

/-!
# Larger bounds for machines

With larger bounds on the depth of calls and the iterations of loops, runs that did not run out of
fuel end in the same way.
-/

namespace Yul

open Semantics Result Evaluator

section

variable {η σ α : Type} {p q : Prop}

/-- Evaluators for one machine in which functions behave alike. -/
structure Evaluator.Sim (p q : Prop) (I I' : Evaluator η σ α) : Prop where
  machine : I'.machine = I.machine
  fuel : Comparable p q I.fuel I'.fuel
  call : ∀ F f vs m, Result.Sim p q Eq Eq (I.call F f vs m) (I'.call F f vs m)

namespace Evaluator.Sim

variable [Zero α] {I I' : Evaluator η σ α}

mutual

lemma eval (hI : I.Sim p q I') (F : Functions) (V : Valuation α) (e : Expression) (m : σ) :
    Result.Sim p q Eq Eq (I.eval F V e m) (I'.eval F V e m) := by
  match e with
  | .functionalInstruction i args =>
    rw [eval_instruction, eval_instruction]
    refine (evaluateArgs hI F V args m).bind ?_
    rintro vs _ m₁ _ - - rfl rfl
    rw [hI.machine]
    exact .refl (fun _ => rfl) (fun _ => rfl) _
  | .functionCall f args =>
    rw [eval_functionCall, eval_functionCall]
    refine (evaluateArgs hI F V args m).bind ?_
    rintro vs _ m₁ _ - - rfl rfl
    rw [hI.machine]
    cases I.machine.builtin f with
    | some b => exact .refl (fun _ => rfl) (fun _ => rfl) _
    | none => exact hI.call F f vs m₁
  | .identifier x => exact .ok rfl rfl
  | .literal l =>
    rw [Evaluator.eval, Evaluator.eval, hI.machine]
    exact .ok rfl rfl

lemma evaluateArgs (hI : I.Sim p q I') (F : Functions) (V : Valuation α) (es : List Expression)
    (m : σ) : Result.Sim p q Eq Eq (I.evaluateArgs F V es m) (I'.evaluateArgs F V es m) := by
  match es with
  | [] => exact .ok rfl rfl
  | e :: es =>
    rw [args_cons, args_cons]
    refine (evaluateArgs hI F V es m).bind ?_
    rintro vs _ m₁ _ - - rfl rfl
    refine (eval hI F V e m₁).bind ?_
    rintro v _ m₂ _ - - rfl rfl
    exact .ok rfl rfl

end

lemma evaluate (hI : I.Sim p q I') (F : Functions) (V : Valuation α) (e : Expression) (m : σ) :
    Result.Sim p q Eq Eq (I.evaluate F V e m) (I'.evaluate F V e m) :=
  (hI.eval F V e m).map fun _ _ h => congrArg (·.headD 0) h

lemma evaluateMulti (hI : I.Sim p q I') (F : Functions) (V : Valuation α)
    (value : Option Expression) (m : σ) :
    Result.Sim p q Eq Eq (I.evaluateMulti F V value m) (I'.evaluateMulti F V value m) := by
  cases value with
  | none => exact .ok rfl rfl
  | some e => exact hI.eval F V e m

variable [DecidableEq α]

lemma execBlock_of {ss : Block}
    (hss : ∀ F V m,
      Result.Sim p q Eq Eq (I.execStatements F V ss m) (I'.execStatements F V ss m))
    (F : Functions) (V : Valuation α) (m : σ) :
    Result.Sim p q Eq Eq (I.execBlock F V ss m) (I'.execBlock F V ss m) :=
  (hss _ V m).map fun _ _ h => congrArg (fun r : LoopState × Valuation α => (r.1, V.restrict r.2)) h

mutual

lemma exec (hI : I.Sim p q I') (s : Statement) (F : Functions) (V : Valuation α) (m : σ) :
    Result.Sim p q Eq Eq (I.exec F V s m) (I'.exec F V s m) := by
  match s with
  | .functionDefinition _ _ _ _ | .break | .continue => exact .ok rfl rfl
  | .expressionStatement e => exact (hI.eval F V e m).map fun _ _ _ => rfl
  | .assignment xs e =>
    exact (hI.eval F V e m).map fun _ _ h => congrArg (fun vs => (LoopState.default, V.assign xs vs)) h
  | .variableDeclaration xs value =>
    exact (hI.evaluateMulti F V value m).map fun _ _ h =>
      congrArg (fun vs => (LoopState.default, V.assign (xs.map (·.name)) vs)) h
  | .if c body =>
    rw [exec_if, exec_if, hI.machine]
    refine (hI.evaluate F V c m).bind ?_
    rintro v _ m₁ _ - - rfl rfl
    split_ifs
    · exact execBlock_of (execStatements hI body) F V m₁
    · exact .ok rfl rfl
  | .switch e cases =>
    refine (hI.evaluate F V e m).bind ?_
    rintro v _ m₁ _ - - rfl rfl
    exact execCases hI cases F V v m₁
  | .forLoop pre c post body =>
    rw [exec_forLoop, exec_forLoop]
    refine Result.Sim.map (A := Eq) (Result.Sim.bind (execStatements hI pre F V m) ?_)
      fun _ _ h => congrArg (fun r : LoopState × Valuation α => (r.1, V.restrict r.2)) h
    rintro r _ m₁ _ - - rfl rfl
    refine Result.Sim.map (A := Eq) ?_ fun _ _ h => congrArg (Prod.mk LoopState.default) h
    refine loop_sim (A := Eq) (B := Eq) ?_ (fun _ _ => id) ?_ ?_ hI.fuel rfl rfl
    · rintro W _ m₂ _ rfl rfl
      refine (hI.evaluate F W c m₂).map fun _ _ h => ?_
      rw [hI.machine, h]
    · rintro W _ m₂ _ rfl rfl
      refine (execBlock_of (fun F V m => execStatements hI body F V m) F W m₂).map ?_
      rintro ⟨l, U⟩ _ rfl
      exact ⟨rfl, ite_self _ ▸ rfl⟩
    · rintro W _ m₂ _ rfl rfl
      exact (execBlock_of (fun F V m => execStatements hI post F V m) F W m₂).map
        fun _ _ h => congrArg Prod.snd h
  | .block ss => exact execBlock_of (fun F V m => execStatements hI ss F V m) F V m

lemma execStatements (hI : I.Sim p q I') (ss : List Statement) (F : Functions) (V : Valuation α)
    (m : σ) : Result.Sim p q Eq Eq (I.execStatements F V ss m) (I'.execStatements F V ss m) := by
  match ss with
  | [] => exact .ok rfl rfl
  | s :: ss =>
    rw [execStatements_cons, execStatements_cons]
    refine (exec hI s F V m).bind ?_
    rintro r _ m₁ _ - - rfl rfl
    split_ifs
    · exact execStatements hI ss F r.2 m₁
    · exact .ok rfl rfl

lemma execCases (hI : I.Sim p q I') (cs : List Case) (F : Functions) (V : Valuation α) (v : α)
    (m : σ) : Result.Sim p q Eq Eq (I.execCases F V v cs m) (I'.execCases F V v cs m) := by
  match cs with
  | [] => exact .ok rfl rfl
  | .mk value body :: cs =>
    rw [execCases_cons, execCases_cons, hI.machine]
    split_ifs
    · exact execBlock_of (fun F V m => execStatements hI body F V m) F V m
    · exact execCases hI cs F V v m

end

end Evaluator.Sim

end

lemma Evaluator.exec_forLoop_once {η σ α : Type} [Zero α] [DecidableEq α] {I : Evaluator η σ α}
    (h : I.fuel = 1) (F : Functions) (V : Valuation α) (pre post body : List Statement)
    (e : Expression) (m : σ) :
    I.exec F V (.forLoop pre e post body) m =
      closeScope V ((I.execStatements F V pre m).bind fun r m =>
        (I.evaluate F r.2 e m).bind fun v m =>
          if I.machine.isTrue v then
            (I.execBlock F r.2 body m).bind fun r m =>
              if r.1 = .break then .ok (.default, r.2) m
              else (I.execBlock F r.2 post m).bind fun _ _ => .timeout
          else .ok (.default, r.2) m) := by
  rw [exec_forLoop, h]
  congr 1
  refine bind_congr _ fun r m₁ _ => ?_
  rw [loop_succ, loopCondition]
  cases I.evaluate F r.2 e m₁ with
  | halt h m₂ => rfl
  | timeout => rfl
  | ok v m₂ =>
    rw [map_ok, bind_ok, bind_ok]
    by_cases hv : I.machine.isTrue v = true
    · rw [if_pos hv, if_pos hv, loopBody]
      cases I.execBlock F r.2 body m₂ with
      | halt h m₃ => rfl
      | timeout => rfl
      | ok r' m₃ =>
        rw [map_ok, bind_ok, bind_ok]
        by_cases hr : r'.1 = .break
        · rw [if_pos hr, if_pos (decide_eq_true hr), map_ok]
        · rw [if_neg hr, if_neg (by simpa using hr), loopPost]
          cases I.execBlock F r'.2 post m₃ <;> rfl
    · rw [if_neg hv, if_neg hv, map_ok]

namespace Machine

variable {η σ α : Type} [Zero α] [DecidableEq α] (M : Machine η σ α)

/-- Call a user function, with `k` as the bound on the iterations of each loop. -/
def callFunctionWithin (k : Nat) :
    Nat → Functions → YulString → List α → σ → Result η σ (List α)
  | 0, _, _, _, _ => .timeout
  | n + 1, F, f, vs, m =>
    match F f with
    | none => .halt M.invalid m
    | some d =>
      (Evaluator.execBlock ⟨M, k, callFunctionWithin k n⟩ F (variablesOf d vs) d.body m).map
        fun r => returnedValues d r.2

variable {M}

lemma callFunctionWithin_sim {k n N : Nat} (h : n + k ≤ N) (F : Functions) (f : YulString)
    (vs : List α) (m : σ) :
    Result.Sim True False Eq Eq (M.callFunctionWithin k n F f vs m) (M.callFunction N F f vs m) := by
  induction n generalizing N F f vs m with
  | zero => exact .left trivial
  | succ n ih =>
    obtain ⟨N, rfl⟩ : ∃ N', N = N' + 1 := ⟨N - 1, by omega⟩
    rw [callFunctionWithin, callFunction]
    cases F f with
    | none => exact .halt _ rfl
    | some d =>
      have hN : n + k ≤ N := by omega
      have hI : Evaluator.Sim True False ⟨M, k, M.callFunctionWithin k n⟩
          ⟨M, N, M.callFunction N⟩ :=
        ⟨rfl, .inr (.inl ⟨trivial, by exact Nat.le_of_add_left_le hN⟩), fun F f vs m => ih hN F f vs m⟩
      exact (Evaluator.Sim.execBlock_of (hI.execStatements d.body) F _ m).map fun _ _ h =>
        congrArg (fun r : LoopState × Valuation α => returnedValues d r.2) h

lemma callFunction_of_callFunctionWithin {k n N : Nat} (h : n + k ≤ N) {F : Functions}
    {f : YulString} {vs : List α} {m : σ}
    (hcall : M.callFunctionWithin k n F f vs m ≠ .timeout) :
    M.callFunction N F f vs m = M.callFunctionWithin k n F f vs m :=
  ((callFunctionWithin_sim h F f vs m).eq_of_ne_timeout hcall).symm

end Machine

end Yul
