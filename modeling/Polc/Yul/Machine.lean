import Polc.Yul.Interpreter

/-!
# Yul over other words

The backends give Yul a meaning over words of other sizes. `Machine` has what depends on the words:
the values of literals and what builtin functions do; the meaning of everything else is the same for
all machines.
-/

namespace Yul

open Sof Semantics List Result

abbrev Word64 := BitVec 64

/-- Values of variables and what is computed with them, over a state `σ`. -/
structure Machine (η σ α : Type) where
  literal : Literal → α
  isTrue : α → Bool
  instruction : Sof.Instruction → List α → σ → Result η σ (List α)
  builtin : YulString → Option (List α → σ → Result η σ (List α))
  /-- What happens where a function is not known. -/
  invalid : η

/-- The values of the variables in scope. -/
abbrev Valuation (α : Type) := YulString → Option α

namespace Valuation

variable {α : Type}

def set (V : Valuation α) (x : YulString) (w : α) : Valuation α :=
  fun y => if y = x then some w else V y

def assign [Zero α] (V : Valuation α) : List YulString → List α → Valuation α
  | [], _ => V
  | x :: xs, vs => (V.set x (vs.headD 0)).assign xs vs.tail

def restrict (V V' : Valuation α) : Valuation α :=
  fun x => if (V x).isSome then V' x else none

end Valuation

/-- The machine, the bound on the iterations of loops, and what calls of user functions do. -/
structure Evaluator (η σ α : Type) where
  machine : Machine η σ α
  fuel : Nat
  call : Functions → YulString → List α → σ → Result η σ (List α)

namespace Evaluator

variable {η σ α : Type}

/-- Leave a block that was entered with `V`. -/
def closeScope (V : Valuation α) (r : Result η σ (LoopState × Valuation α)) :
    Result η σ (LoopState × Valuation α) :=
  r.map fun r => (r.1, V.restrict r.2)

variable [Zero α] (I : Evaluator η σ α)

section

variable (F : Functions) (V : Valuation α)

mutual

def eval : Expression → σ → Result η σ (List α)
  | .functionalInstruction i args, m =>
    (evaluateArgs args m).bind fun vs m => I.machine.instruction i vs m
  | .functionCall f args, m =>
    (evaluateArgs args m).bind fun vs m =>
      match I.machine.builtin f with
      | some b => b vs m
      | none => I.call F f vs m
  | .identifier x, m => .ok [(V x).getD 0] m
  | .literal l, m => .ok [I.machine.literal l] m

/-- Evaluate arguments from right to left. -/
def evaluateArgs : List Expression → σ → Result η σ (List α)
  | [], m => .ok [] m
  | e :: es, m =>
    (evaluateArgs es m).bind fun vs m =>
      (eval e m).bind fun v m => .ok (v.headD 0 :: vs) m

end

/-- Evaluate a condition. -/
def evaluate (e : Expression) (m : σ) : Result η σ α :=
  (I.eval F V e m).map (·.headD 0)

def evaluateMulti (e : Option Expression) (m : σ) : Result η σ (List α) :=
  match e with
  | some e => I.eval F V e m
  | none => .ok [] m

end

variable [DecidableEq α]

mutual

def exec (F : Functions) (V : Valuation α) :
    Statement → σ → Result η σ (LoopState × Valuation α)
  | .expressionStatement e, m => (I.eval F V e m).map fun _ => (.default, V)
  | .assignment xs e, m => (I.eval F V e m).map fun vs => (.default, V.assign xs vs)
  | .variableDeclaration xs e, m =>
    (I.evaluateMulti F V e m).map fun vs => (.default, V.assign (xs.map (·.name)) vs)
  | .functionDefinition _ _ _ _, m => .ok (.default, V) m
  | .if c body, m =>
    (I.evaluate F V c m).bind fun v m =>
      if I.machine.isTrue v then closeScope V (execStatements (F.register body) V body m)
      else .ok (.default, V) m
  | .switch e cases, m => (I.evaluate F V e m).bind fun v m => execCases F V v cases m
  | .forLoop pre c post body, m =>
    closeScope V <| (execStatements F V pre m).bind fun r m =>
      (loop (fun V m => (I.evaluate F V c m).map I.machine.isTrue)
        (fun V m => (closeScope V (execStatements (F.register body) V body m)).map
          fun r => (r.1 = .break, r.2))
        (fun V m => (closeScope V (execStatements (F.register post) V post m)).map (·.2))
        I.fuel r.2 m).map fun V => (.default, V)
  | .break, m => .ok (.break, V) m
  | .continue, m => .ok (.continue, V) m
  | .block ss, m => closeScope V (execStatements (F.register ss) V ss m)

/-- Execute statements until the loop around them is left or continued. -/
def execStatements (F : Functions) (V : Valuation α) :
    List Statement → σ → Result η σ (LoopState × Valuation α)
  | [], m => .ok (.default, V) m
  | s :: ss, m =>
    (exec F V s m).bind fun r m =>
      if r.1 = .default then execStatements F r.2 ss m else .ok r m

def execCases (F : Functions) (V : Valuation α) (v : α) :
    List Case → σ → Result η σ (LoopState × Valuation α)
  | [], m => .ok (.default, V) m
  | .mk value body :: cs, m =>
    if value.all (I.machine.literal · = v) then
      closeScope V (execStatements (F.register body) V body m)
    else execCases F V v cs m

end

def execBlock (F : Functions) (V : Valuation α) (ss : Block) (m : σ) :
    Result η σ (LoopState × Valuation α) :=
  closeScope V (I.execStatements (F.register ss) V ss m)

end Evaluator

namespace Machine

variable {η σ α : Type} [Zero α] [DecidableEq α] (M : Machine η σ α)

/-- The variables a function starts with. -/
def variablesOf (d : FunctionDefinition) (vs : List α) : Valuation α :=
  (Valuation.assign (fun _ => none) (d.parameters.map (·.name)) vs).assign
    (d.returnVariables.map (·.name)) []

/-- The values of the return variables. -/
def returnedValues (d : FunctionDefinition) (V : Valuation α) : List α :=
  d.returnVariables.map fun x => (V x.name).getD 0

/-- Call a user function, with a bound on the depth of calls and the iterations of each loop. -/
def callFunction : Nat → Functions → YulString → List α → σ → Result η σ (List α)
  | 0, _, _, _, _ => .timeout
  | n + 1, F, f, vs, m =>
    match F f with
    | none => .halt M.invalid m
    | some d =>
      (Evaluator.execBlock ⟨M, n, callFunction n⟩ F (variablesOf d vs) d.body m).map
        fun r => returnedValues d r.2

/-- The evaluator with the given bound. -/
def evaluator (n : Nat) : Evaluator η σ α := ⟨M, n, M.callFunction n⟩

/-- Run a program. -/
def run (n : Nat) (ss : Block) (m : σ) : Result η σ LoopState :=
  ((M.evaluator n).execBlock (fun _ => none) (fun _ => none) ss m).map (·.1)

end Machine

namespace Valuation

variable {α : Type} [Zero α] {V : Valuation α} {xs ys : List YulString} {us vs : List α}

lemma assign_of_notMem {y : YulString} (h : y ∉ xs) : V.assign xs vs y = V y := by
  induction xs generalizing V vs with
  | nil => rfl
  | cons x xs ih =>
    rw [mem_cons, not_or] at h
    rw [assign, ih h.2]
    exact if_neg h.1

lemma map_assign (h : xs.Nodup) (hlength : xs.length = vs.length) :
    xs.map (V.assign xs vs) = vs.map some := by
  induction xs generalizing V vs with
  | nil => rw [eq_nil_of_length_eq_zero hlength.symm, map_nil, map_nil]
  | cons x xs ih =>
    cases vs with
    | nil => cases hlength
    | cons v vs =>
      rw [nodup_cons] at h
      have hx : V.assign (x :: xs) (v :: vs) x = some v := by
        rw [assign, assign_of_notMem h.1]
        exact if_pos rfl
      rw [map_cons, map_cons, hx, assign]
      exact congrArg _ (ih h.2 (Nat.succ.inj hlength))

lemma assign_append (h : xs.length = us.length) :
    V.assign (xs ++ ys) (us ++ vs) = (V.assign xs us).assign ys vs := by
  induction xs generalizing V us with
  | nil => rw [eq_nil_of_length_eq_zero h.symm]; rfl
  | cons x xs ih =>
    cases us with
    | nil => cases h
    | cons u us => exact ih (Nat.succ.inj h)

lemma assign_nil (xs : List YulString) : V.assign xs [] = V.assign xs (.replicate xs.length 0) := by
  induction xs generalizing V with
  | nil => rfl
  | cons x xs ih => exact ih

lemma assign_append_nil (xs ys : List YulString) :
    V.assign (xs ++ ys) [] = (V.assign xs []).assign ys [] := by
  induction xs generalizing V with
  | nil => rfl
  | cons x xs ih => exact ih

lemma assign_nil_eq (V : Valuation α) (xs : List YulString) (y : YulString) :
    V.assign xs [] y = if y ∈ xs then some 0 else V y := by
  induction xs generalizing V with
  | nil => rfl
  | cons x xs ih =>
    have hassign : V.assign (x :: xs) [] y = (V.set x 0).assign xs [] y := rfl
    rw [hassign, ih, set]
    by_cases hx : y = x
    · simp [hx]
    · simp [hx]

lemma isSome_assign (V : Valuation α) (xs : List YulString) (vs : List α) (y : YulString) :
    (V.assign xs vs y).isSome ↔ y ∈ xs ∨ (V y).isSome := by
  induction xs generalizing V vs with
  | nil => exact (or_iff_right not_mem_nil).symm
  | cons x xs ih =>
    rw [assign, ih, mem_cons, set]
    by_cases hx : y = x
    · simp [hx]
    · simp [hx]

end Valuation

/-! ### Equations -/

namespace Evaluator

section

variable {η σ α : Type} [Zero α] {I : Evaluator η σ α} {F : Functions} {V : Valuation α} {m : σ}
  {e : Expression} {es : List Expression} {s : Statement} {ss body : List Statement}

lemma eval_functionCall {f : YulString} :
    I.eval F V (.functionCall f es) m =
      (I.evaluateArgs F V es m).bind fun vs m =>
        match I.machine.builtin f with
        | some b => b vs m
        | none => I.call F f vs m := rfl

lemma eval_instruction {i : Sof.Instruction} :
    I.eval F V (.functionalInstruction i es) m =
      (I.evaluateArgs F V es m).bind fun vs m => I.machine.instruction i vs m := rfl

lemma args_cons :
    I.evaluateArgs F V (e :: es) m =
      (I.evaluateArgs F V es m).bind fun vs m =>
        (I.eval F V e m).bind fun v m => .ok (v.headD 0 :: vs) m := rfl

variable [DecidableEq α]

lemma exec_if :
    I.exec F V (.if e body) m =
      (I.evaluate F V e m).bind fun v m =>
        if I.machine.isTrue v then I.execBlock F V body m else .ok (.default, V) m := rfl

/-- The condition of a loop. -/
def loopCondition (I : Evaluator η σ α) (F : Functions) (e : Expression) (V : Valuation α)
    (m : σ) : Result η σ Bool :=
  (I.evaluate F V e m).map I.machine.isTrue

/-- The body of a loop; it says whether it leaves the loop. -/
def loopBody (I : Evaluator η σ α) (F : Functions) (body : Block) (V : Valuation α) (m : σ) :
    Result η σ (Bool × Valuation α) :=
  (I.execBlock F V body m).map fun r => (r.1 = .break, r.2)

/-- The part of a loop after its body. -/
def loopPost (I : Evaluator η σ α) (F : Functions) (post : Block) (V : Valuation α) (m : σ) :
    Result η σ (Valuation α) :=
  (I.execBlock F V post m).map (·.2)

lemma exec_forLoop {pre post : List Statement} :
    I.exec F V (.forLoop pre e post body) m =
      closeScope V ((I.execStatements F V pre m).bind fun r m =>
        (loop (I.loopCondition F e) (I.loopBody F body) (I.loopPost F post) I.fuel r.2 m).map
          fun V => (.default, V)) := rfl

lemma execStatements_cons :
    I.execStatements F V (s :: ss) m =
      (I.exec F V s m).bind fun r m =>
        if r.1 = .default then I.execStatements F r.2 ss m else .ok r m := rfl

lemma exec_singleton (s : Statement) :
    I.execStatements F V [s] m = I.exec F V s m := by
  rw [execStatements_cons]
  cases I.exec F V s m with
  | ok r m₁ =>
    obtain ⟨l, W⟩ := r
    cases l <;> rfl
  | halt h m₁ => rfl
  | timeout => rfl

lemma execStatements_append (ss ts : List Statement) :
    I.execStatements F V (ss ++ ts) m =
      (I.execStatements F V ss m).bind fun r m =>
        if r.1 = .default then I.execStatements F r.2 ts m else .ok r m := by
  induction ss generalizing V m with
  | nil => rfl
  | cons s ss ih =>
    rw [cons_append, execStatements_cons, execStatements_cons, bind_assoc]
    refine bind_congr _ fun r m₁ _ => ?_
    by_cases hr : r.1 = .default
    · rw [if_pos hr, if_pos hr, ih]
    · rw [if_neg hr, if_neg hr, bind_ok, if_neg hr]

lemma execCases_cons {v : α} {value : Option Literal} {cs : List Case} :
    I.execCases F V v (.mk value body :: cs) m =
      if value.all (I.machine.literal · = v) then I.execBlock F V body m
      else I.execCases F V v cs m := rfl

end

end Evaluator

end Yul
