import Polc.Semantics.Traced
import Polc.Yul.Interpreter.Simulation

/-!
# Runs with their operations

The interpreter again, but a run also tells which opcodes and functions it executed on which
arguments, in order. Without these it is the run of the interpreter.
-/

namespace Yul

open Sof Semantics Result

/-- The execution of an opcode or of a builtin or user function on values. -/
inductive Operation where
  | instruction (i : Sof.Instruction) (args : List Word)
  | call (f : YulString) (args : List Word)
  deriving DecidableEq, Repr

abbrev TracedRun (World : Type) (α : Type) := Traced Operation Halt (SvmState World) α

/-- An `Interpreter` in which calls of user functions tell what they execute. -/
structure Tracer (World : Type) where
  env : Environment World
  dialect : Dialect
  fuel : Nat
  call : Functions → YulString → List Word → SvmState World → TracedRun World (List Word)

variable {World : Type}

def Tracer.interpreter (I : Tracer World) : Interpreter World :=
  ⟨I.env, I.dialect, I.fuel, fun F f vs m => (I.call F f vs m).result⟩

section

variable (I : Tracer World) (F : Functions) (V : Variables)

mutual

def Expression.traced : Expression → SvmState World → TracedRun World (List Word)
  | .functionalInstruction i args, m =>
    (tracedArgs args m).bind fun vs m => ⟨[.instruction i vs], execInstruction I.env i vs m⟩
  | .functionCall f args, m =>
    (tracedArgs args m).bind fun vs m =>
      match I.dialect.builtin f with
      | some b => ⟨[.call f vs], evalBuiltin I.env b args vs m⟩
      | none => ⟨.call f vs :: (I.call F f vs m).trace, (I.call F f vs m).result⟩
  | .identifier x, m => .ok [(V x).getD 0] m
  | .literal l, m => .ok [l.word] m

def tracedArgs : List Expression → SvmState World → TracedRun World (List Word)
  | [], m => .ok [] m
  | e :: es, m =>
    (tracedArgs es m).bind fun vs m => (e.traced m).map fun v => v.headD 0 :: vs

end

def Expression.tracedMulti (e : Option Expression) (m : SvmState World) :
    TracedRun World (List Word) :=
  match e with
  | some e => e.traced I F V m
  | none => .ok [] m

end

section

variable (I : Tracer World)

mutual

def Statement.traced (F : Functions) (V : Variables) :
    Statement → SvmState World → TracedRun World (LoopState × Variables)
  | .expressionStatement e, m => (e.traced I F V m).map fun _ => (.default, V)
  | .assignment xs e, m => (e.traced I F V m).map fun vs => (.default, V.assign xs vs)
  | .variableDeclaration xs e, m =>
    (Expression.tracedMulti I F V e m).map fun vs =>
      (.default, V.assign (xs.map (·.name)) vs)
  | .functionDefinition _ _ _ _, m => .ok (.default, V) m
  | .if c body, m =>
    (c.traced I F V m).bind fun v m =>
      if v.headD 0 ≠ 0 then
        (tracedStatements (F.register body) V body m).map fun r => (r.1, V.restrict r.2)
      else .ok (.default, V) m
  | .switch e cases, m => (e.traced I F V m).bind fun v m => tracedCases F V (v.headD 0) cases m
  | .forLoop pre c post body, m =>
    ((tracedStatements F V pre m).bind fun r m =>
      (Traced.loop (fun V m => (c.traced I F V m).map fun v => v.headD 0 ≠ 0)
        (fun V m => ((tracedStatements (F.register body) V body m).map
          fun r => (r.1, V.restrict r.2)).map fun r => (r.1 = .break, r.2))
        (fun V m => ((tracedStatements (F.register post) V post m).map
          fun r => (r.1, V.restrict r.2)).map (·.2))
        I.fuel r.2 m).map fun V => (.default, V)).map fun r => (r.1, V.restrict r.2)
  | .break, m => .ok (.break, V) m
  | .continue, m => .ok (.continue, V) m
  | .block ss, m =>
    (tracedStatements (F.register ss) V ss m).map fun r => (r.1, V.restrict r.2)

def tracedStatements (F : Functions) (V : Variables) :
    List Statement → SvmState World → TracedRun World (LoopState × Variables)
  | [], m => .ok (.default, V) m
  | s :: ss, m =>
    (s.traced F V m).bind fun r m =>
      if r.1 = .default then tracedStatements F r.2 ss m else .ok r m

def tracedCases (F : Functions) (V : Variables) (v : Word) :
    List Case → SvmState World → TracedRun World (LoopState × Variables)
  | [], m => .ok (.default, V) m
  | .mk value body :: cs, m =>
    if value.all (·.word = v) then
      (tracedStatements (F.register body) V body m).map fun r => (r.1, V.restrict r.2)
    else tracedCases F V v cs m

end

def tracedBlock (F : Functions) (V : Variables) (ss : Block) (m : SvmState World) :
    TracedRun World (LoopState × Variables) :=
  (tracedStatements I (F.register ss) V ss m).map fun r => (r.1, V.restrict r.2)

/-- The body of a function. -/
def FunctionDefinition.traced (F : Functions) (vs : List Word) (d : FunctionDefinition)
    (m : SvmState World) : TracedRun World (List Word) :=
  (tracedBlock I F (d.variables vs) d.body m).map fun r =>
    d.returnVariables.map fun x => (r.2 x.name).getD 0

end

def tracedFunction (env : Environment World) (dialect : Dialect) :
    Nat → Functions → YulString → List Word → SvmState World → TracedRun World (List Word)
  | 0, _, _, _, _ => ⟨[], .timeout⟩
  | n + 1, F, f, vs, m =>
    match F f with
    | none => ⟨[], .halt .invalid m⟩
    | some d => d.traced ⟨env, dialect, n, tracedFunction env dialect n⟩ F vs m

/-- The tracer with the given bound. -/
def Tracer.ofBound (env : Environment World) (dialect : Dialect) (n : Nat) : Tracer World :=
  ⟨env, dialect, n, tracedFunction env dialect n⟩

/-- A run of a program with its operations. A run that runs out of fuel has those up to then, so
that also a program that runs forever has all its operations in these runs. -/
def Block.traced (env : Environment World) (dialect : Dialect) (n : Nat) (ss : Block)
    (m : SvmState World) : TracedRun World LoopState :=
  (tracedBlock (.ofBound env dialect n) (fun _ => none) (fun _ => none) ss m).map (·.1)

/-! ### Equations -/

section

variable {I : Tracer World} {F : Functions} {V : Variables} {m : SvmState World}
  {e : Expression} {es : List Expression} {s : Statement} {ss body : List Statement}

@[simp] lemma traced_identifier {x : YulString} :
    (Expression.identifier x).traced I F V m = .ok [(V x).getD 0] m := rfl

@[simp] lemma traced_literal {l : Literal} :
    (Expression.literal l).traced I F V m = .ok [l.word] m := rfl

attribute [simp] tracedArgs

lemma traced_if :
    (Statement.if e body).traced I F V m =
      (e.traced I F V m).bind fun v m =>
        if v.headD 0 ≠ 0 then tracedBlock I F V body m else .ok (.default, V) m := rfl

lemma traced_switch {cases : List Case} :
    (Statement.switch e cases).traced I F V m =
      (e.traced I F V m).bind fun v m => tracedCases I F V (v.headD 0) cases m := rfl

/-- The condition of a loop. -/
def tracedLoopCondition (I : Tracer World) (F : Functions) (e : Expression) (V : Variables)
    (m : SvmState World) : TracedRun World Bool :=
  (e.traced I F V m).map fun v => v.headD 0 ≠ 0

/-- The body of a loop; it says whether it leaves the loop. -/
def tracedLoopBody (I : Tracer World) (F : Functions) (body : Block) (V : Variables)
    (m : SvmState World) : TracedRun World (Bool × Variables) :=
  (tracedBlock I F V body m).map fun r => (r.1 = .break, r.2)

/-- The part of a loop after its body. -/
def tracedLoopPost (I : Tracer World) (F : Functions) (post : Block) (V : Variables)
    (m : SvmState World) : TracedRun World Variables :=
  (tracedBlock I F V post m).map (·.2)

lemma traced_forLoop {pre post : List Statement} :
    (Statement.forLoop pre e post body).traced I F V m =
      ((tracedStatements I F V pre m).bind fun r m =>
        (Traced.loop (tracedLoopCondition I F e) (tracedLoopBody I F body)
          (tracedLoopPost I F post) I.fuel r.2 m).map fun V => (.default, V)).map
        fun r => (r.1, V.restrict r.2) := rfl

lemma traced_block : (Statement.block ss).traced I F V m = tracedBlock I F V ss m := rfl

attribute [simp] tracedStatements

lemma traced_singleton : tracedStatements I F V [s] m = s.traced I F V m := by
  rw [tracedStatements]
  obtain ⟨t, r⟩ := s.traced I F V m
  cases r with
  | ok r m =>
    obtain ⟨l, V⟩ := r
    cases l <;> simp [Traced.bind, Traced.ok]
  | halt h m => rfl
  | timeout => rfl

lemma traced_append {ts : List Statement} :
    tracedStatements I F V (ss ++ ts) m =
      (tracedStatements I F V ss m).bind fun r m =>
        if r.1 = .default then tracedStatements I F r.2 ts m else .ok r m := by
  induction ss generalizing V m with
  | nil => simp
  | cons s ss ih =>
    rw [List.cons_append, tracedStatements, tracedStatements, Traced.bind_assoc]
    apply Traced.bind_congr
    rintro ⟨l, W⟩ m₁ -
    by_cases hl : l = .default
    · rw [if_pos hl, if_pos hl, ih]
    · rw [if_neg hl, if_neg hl, Traced.ok_bind, if_neg hl]

lemma tracedCases_cons {v : Word} {value : Option Literal} {cs : List Case} :
    tracedCases I F V v (.mk value body :: cs) m =
      if value.all (·.word = v) then tracedBlock I F V body m
      else tracedCases I F V v cs m := rfl

end

/-! ### The operations left out -/

section

variable {I : Tracer World} {F : Functions} {V : Variables}

mutual

lemma Expression.result_traced (e : Expression) (m : SvmState World) :
    (e.traced I F V m).result = e.eval I.interpreter F V m := by
  match e with
  | .functionalInstruction i args =>
    rw [Expression.traced, Traced.result_bind, result_tracedArgs args,
      Expression.eval_instruction]
    rfl
  | .functionCall f args =>
    rw [Expression.traced, Traced.result_bind, result_tracedArgs args,
      Expression.eval_functionCall]
    refine bind_congr _ fun vs m₁ _ => ?_
    show _ = match I.dialect.builtin f with | some b => _ | none => _
    cases I.dialect.builtin f <;> rfl
  | .identifier x | .literal l => rfl

lemma result_tracedArgs (es : List Expression) (m : SvmState World) :
    (tracedArgs I F V es m).result = evaluateArgs I.interpreter F V es m := by
  match es with
  | [] => rfl
  | e :: es =>
    rw [tracedArgs, Traced.result_bind, result_tracedArgs es, args_cons]
    refine bind_congr _ fun vs m₁ _ => ?_
    rw [Traced.result_map, e.result_traced, Result.map]

end

lemma result_tracedMulti (e : Option Expression) (m : SvmState World) :
    (Expression.tracedMulti I F V e m).result =
      Expression.evaluateMulti I.interpreter F V e m := by
  cases e with
  | none => rfl
  | some e => exact e.result_traced m

lemma result_tracedBlock_of {ss : Block}
    (hss : ∀ F V m, (tracedStatements I F V ss m).result =
      execStatements I.interpreter F V ss m) (F : Functions) (V : Variables)
    (m : SvmState World) :
    (tracedBlock I F V ss m).result = execBlock I.interpreter F V ss m := by
  rw [tracedBlock, Traced.result_map, hss]
  rfl

mutual

lemma Statement.result_traced (s : Statement) (F : Functions) (V : Variables)
    (m : SvmState World) : (s.traced I F V m).result = s.exec I.interpreter F V m := by
  match s with
  | .expressionStatement e | .assignment xs e =>
    rw [Statement.traced, Traced.result_map, e.result_traced, Statement.exec]
  | .variableDeclaration xs e =>
    rw [Statement.traced, Traced.result_map, result_tracedMulti, Statement.exec]
  | .functionDefinition f ps rs body => rfl
  | .if c body =>
    rw [traced_if, Traced.result_bind, c.result_traced, exec_if, Expression.evaluate, Result.map,
      bind_assoc]
    refine bind_congr _ fun v m₁ _ => ?_
    rw [bind_ok]
    by_cases hv : v.headD 0 ≠ 0
    · rw [if_pos hv, if_pos hv, result_tracedBlock_of (result_tracedStatements body)]
    · rw [if_neg hv, if_neg hv, Traced.result_ok]
  | .switch e cs =>
    rw [traced_switch, Traced.result_bind, e.result_traced, exec_switch, Expression.evaluate,
      Result.map, bind_assoc]
    refine bind_congr _ fun v m₁ _ => ?_
    rw [bind_ok, result_tracedCases cs]
  | .forLoop pre c post body =>
    rw [traced_forLoop, exec_forLoop, Traced.result_map, Traced.result_bind,
      result_tracedStatements pre]
    refine congrArg (Result.map _) (bind_congr _ fun r m₁ _ => ?_)
    rw [Traced.result_map, Traced.result_loop]
    have hcondition : (fun V m => (tracedLoopCondition I F c V m).result) =
        loopCondition I.interpreter F c := by
      funext V m
      rw [tracedLoopCondition, Traced.result_map, c.result_traced, loopCondition,
        Expression.evaluate]
      cases c.eval I.interpreter F V m <;> rfl
    have hbody : (fun V m => (tracedLoopBody I F body V m).result) =
        loopBody I.interpreter F body := by
      funext V m
      rw [tracedLoopBody, Traced.result_map, result_tracedBlock_of (result_tracedStatements body),
        loopBody]
    have hpost : (fun V m => (tracedLoopPost I F post V m).result) =
        loopPost I.interpreter F post := by
      funext V m
      rw [tracedLoopPost, Traced.result_map, result_tracedBlock_of (result_tracedStatements post),
        loopPost]
    rw [hcondition, hbody, hpost]
    rfl
  | .break | .continue => rfl
  | .block ss =>
    rw [traced_block, result_tracedBlock_of (result_tracedStatements ss), exec_block]

lemma result_tracedStatements (ss : List Statement) (F : Functions) (V : Variables)
    (m : SvmState World) :
    (tracedStatements I F V ss m).result = execStatements I.interpreter F V ss m := by
  match ss with
  | [] => rfl
  | s :: ss =>
    rw [tracedStatements, Traced.result_bind, s.result_traced, execStatements_cons]
    refine bind_congr _ fun r m₁ _ => ?_
    by_cases hr : r.1 = .default
    · rw [if_pos hr, if_pos hr, result_tracedStatements ss]
    · rw [if_neg hr, if_neg hr, Traced.result_ok]

lemma result_tracedCases (cs : List Case) (F : Functions) (V : Variables) (v : Word)
    (m : SvmState World) :
    (tracedCases I F V v cs m).result = execCases I.interpreter F V v cs m := by
  match cs with
  | [] => rfl
  | .mk value body :: cs =>
    rw [tracedCases_cons, execCases_cons]
    by_cases hv : value.all (·.word = v) = true
    · rw [if_pos hv, if_pos hv, result_tracedBlock_of (result_tracedStatements body)]
    · rw [if_neg hv, if_neg hv, result_tracedCases cs]

end

lemma result_tracedBlock (ss : Block) (F : Functions) (V : Variables) (m : SvmState World) :
    (tracedBlock I F V ss m).result = execBlock I.interpreter F V ss m :=
  result_tracedBlock_of (result_tracedStatements ss) F V m

end

lemma interpreter_ofBound (env : Environment World) (dialect : Dialect) (n : Nat) :
    (Tracer.ofBound env dialect n).interpreter = .ofBound env dialect n := by
  induction n with
  | zero => rfl
  | succ n ih =>
    rw [Tracer.interpreter, Interpreter.ofBound]
    congr 1
    funext F f vs m
    show (tracedFunction env dialect (n + 1) F f vs m).result =
      callFunction env dialect (n + 1) F f vs m
    rw [tracedFunction, callFunction_succ]
    cases F f with
    | none => rfl
    | some d =>
      show (d.traced (.ofBound env dialect n) F vs m).result = d.run (.ofBound env dialect n) F vs m
      rw [FunctionDefinition.traced, Traced.result_map, result_tracedBlock, ih,
        FunctionDefinition.run]

/-- Without its operations, a run is a run of the interpreter. -/
theorem result_tracedRun (env : Environment World) (dialect : Dialect) (n : Nat) (ss : Block)
    (m : SvmState World) :
    (Block.traced env dialect n ss m).result = Block.run env dialect n ss m := by
  rw [Block.traced, Traced.result_map, result_tracedBlock, interpreter_ofBound, Block.run]

/-- From every state, the programs execute the same operations on the same values in the same
order, and have the same results. -/
def SameOperations (env : Environment World) (dialect : Dialect) (ss ss' : Block) : Prop :=
  ∀ n m, Block.traced env dialect n ss' m = Block.traced env dialect n ss m

lemma SameOperations.trans {env : Environment World} {dialect : Dialect} {ss ss' ss'' : Block}
    (h : SameOperations env dialect ss ss') (h' : SameOperations env dialect ss' ss'') :
    SameOperations env dialect ss ss'' :=
  fun n m => (h' n m).trans (h n m)

lemma SameOperations.sameRuns {env : Environment World} {dialect : Dialect} {ss ss' : Block}
    (h : SameOperations env dialect ss ss') : SameRuns env dialect ss ss' :=
  SameRuns.of_eq fun n m => by rw [← result_tracedRun, ← result_tracedRun, h]

end Yul
