import Polc.Yul.Dialect
import Polc.Yul.Utilities

/-!
# The meaning of Yul programs

Follows the interpreter of `test/tools/yulInterpreter`, over the machine of the assembly. Where
that interpreter asserts what the analyser has checked (a variable is known, as many values as
names), missing values are zero here.
-/

namespace Yul

open Sof Semantics

/-- The values of the variables in scope. -/
abbrev Variables := YulString → Option Word

namespace Variables

def set (V : Variables) (x : YulString) (w : Word) : Variables :=
  fun y => if y = x then some w else V y

/-- Give the variables the values, in order. -/
def assign (V : Variables) : List YulString → List Word → Variables
  | [], _ => V
  | x :: xs, vs => (V.set x (vs.headD 0)).assign xs vs.tail

/-- Forget the variables that are not in `V`. -/
def restrict (V V' : Variables) : Variables :=
  fun x => if (V x).isSome then V' x else none

end Variables

structure FunctionDefinition where
  parameters : List TypedName
  returnVariables : List TypedName
  body : Block

/-- The functions that are known. -/
abbrev Functions := YulString → Option FunctionDefinition

namespace Functions

def set (F : Functions) (f : YulString) (d : FunctionDefinition) : Functions :=
  fun g => if g = f then some d else F g

/-- Make the functions known that a block defines. -/
def register (F : Functions) : Block → Functions
  | [] => F
  | .functionDefinition f ps rs body :: ss => (F.set f ⟨ps, rs, body⟩).register ss
  | _ :: ss => F.register ss

end Functions

/-- Whether a loop is being left or continued. -/
inductive LoopState where
  | default | «break» | «continue»
  deriving DecidableEq, Repr

/-- What the execution of statements depends on: the environment, the dialect, how many
iterations a loop can make, and what calls of user functions do. -/
structure Interpreter (World : Type) where
  env : Environment World
  dialect : Dialect
  fuel : Nat
  call : Functions → YulString → List Word → SvmState World → Run World (List Word)

variable {World : Type}

/-- Call a builtin function. The functions for objects read the text of their argument. -/
def evalBuiltin (env : Environment World) (f : BuiltinFunction) (args : List Expression)
    (vs : List Word) (m : SvmState World) : Run World (List Word) :=
  match f.code with
  | .instruction i => execInstruction env i vs m
  | .datasize => .ok [env.datasize (literalText args)] m
  | .dataoffset => .ok [env.dataoffset (literalText args)] m
  | .datacopy => execInstruction env .codecopy vs m
where
  literalText : List Expression → String
    | .literal l :: _ => l.value
    | _ => ""

section

variable (I : Interpreter World) (F : Functions) (V : Variables)

mutual

/-- Evaluate an expression. -/
def Expression.eval : Expression → SvmState World → Run World (List Word)
  | .functionalInstruction i args, m =>
    (evaluateArgs args m).bind fun vs m => execInstruction I.env i vs m
  | .functionCall f args, m =>
    (evaluateArgs args m).bind fun vs m =>
      match I.dialect.builtin f with
      | some b => evalBuiltin I.env b args vs m
      | none => I.call F f vs m
  | .identifier x, m => .ok [(V x).getD 0] m
  | .literal l, m => .ok [l.word] m

/-- Evaluate arguments from right to left. -/
def evaluateArgs : List Expression → SvmState World → Run World (List Word)
  | [], m => .ok [] m
  | e :: es, m =>
    (evaluateArgs es m).bind fun vs m =>
      (e.eval m).bind fun v m => .ok (v.headD 0 :: vs) m

end

/-- Evaluate an expression to a single value. -/
def Expression.evaluate (e : Expression) (m : SvmState World) : Run World Word :=
  (e.eval I F V m).map (·.headD 0)

/-- Evaluate the value of a declaration or assignment. -/
def Expression.evaluateMulti (e : Option Expression) (m : SvmState World) :
    Run World (List Word) :=
  match e with
  | some e => e.eval I F V m
  | none => .ok [] m

end

/-- Leave a block that was entered with `V`. -/
def closeScope (V : Variables) (r : Run World (LoopState × Variables)) :
    Run World (LoopState × Variables) :=
  r.map fun r => (r.1, V.restrict r.2)

section

variable (I : Interpreter World)

mutual

def Statement.exec (F : Functions) (V : Variables) :
    Statement → SvmState World → Run World (LoopState × Variables)
  | .expressionStatement e, m => (e.eval I F V m).map fun _ => (.default, V)
  | .assignment xs e, m => (e.eval I F V m).map fun vs => (.default, V.assign xs vs)
  | .variableDeclaration xs e, m =>
    (Expression.evaluateMulti I F V e m).map fun vs =>
      (.default, V.assign (xs.map (·.name)) vs)
  | .functionDefinition _ _ _ _, m => .ok (.default, V) m
  | .if c body, m =>
    (c.evaluate I F V m).bind fun v m =>
      if v ≠ 0 then closeScope V (execStatements (F.register body) V body m)
      else .ok (.default, V) m
  | .switch e cases, m => (e.evaluate I F V m).bind fun v m => execCases F V v cases m
  | .forLoop pre c post body, m =>
    closeScope V <| (execStatements F V pre m).bind fun r m =>
      (loop (fun V m => (c.evaluate I F V m).map (· ≠ 0))
        (fun V m => (closeScope V (execStatements (F.register body) V body m)).map
          fun r => (r.1 = .break, r.2))
        (fun V m => (closeScope V (execStatements (F.register post) V post m)).map (·.2))
        I.fuel r.2 m).map fun V => (.default, V)
  | .break, m => .ok (.break, V) m
  | .continue, m => .ok (.continue, V) m
  | .block ss, m => closeScope V (execStatements (F.register ss) V ss m)

/-- Execute statements until the loop around them is left or continued. -/
def execStatements (F : Functions) (V : Variables) :
    List Statement → SvmState World → Run World (LoopState × Variables)
  | [], m => .ok (.default, V) m
  | s :: ss, m =>
    (s.exec F V m).bind fun r m =>
      if r.1 = .default then execStatements F r.2 ss m else .ok r m

/-- Execute the first case for the value `v`, the default case being one for all values. -/
def execCases (F : Functions) (V : Variables) (v : Word) :
    List Case → SvmState World → Run World (LoopState × Variables)
  | [], m => .ok (.default, V) m
  | .mk value body :: cs, m =>
    if value.all (·.word = v) then closeScope V (execStatements (F.register body) V body m)
    else execCases F V v cs m

end

/-- Execute a block. -/
def execBlock (F : Functions) (V : Variables) (ss : Block) (m : SvmState World) :
    Run World (LoopState × Variables) :=
  closeScope V (execStatements I (F.register ss) V ss m)

end

/-- The variables a function starts with: its parameters, and its return variables, all zero. -/
def FunctionDefinition.variables (d : FunctionDefinition) (vs : List Word) : Variables :=
  (Variables.assign (fun _ => none) (d.parameters.map (·.name)) vs).assign
    (d.returnVariables.map (·.name)) []

/-- Call the user function `f`, with a bound on the depth of calls and the iterations of each
loop. -/
def callFunction (env : Environment World) (dialect : Dialect) :
    Nat → Functions → YulString → List Word → SvmState World → Run World (List Word)
  | 0, _, _, _, _ => .timeout
  | n + 1, F, f, vs, m =>
    match F f with
    | none => .halt .invalid m
    | some d =>
      (execBlock ⟨env, dialect, n, callFunction env dialect n⟩ F (d.variables vs) d.body m).map
        fun r => d.returnVariables.map fun x => (r.2 x.name).getD 0

/-- The interpreter with the given bound. -/
def Interpreter.ofBound (env : Environment World) (dialect : Dialect) (n : Nat) :
    Interpreter World :=
  ⟨env, dialect, n, callFunction env dialect n⟩

/-- Run a program, which starts without variables and functions. -/
def Block.run (env : Environment World) (dialect : Dialect) (n : Nat) (ss : Block)
    (m : SvmState World) : Run World LoopState :=
  (execBlock (.ofBound env dialect n) (fun _ => none) (fun _ => none) ss m).map (·.1)

/-! ### Equations -/

section

variable {I : Interpreter World} {F : Functions} {V : Variables} {m : SvmState World}
  {e : Expression} {es : List Expression} {s : Statement} {ss body : List Statement}

lemma Expression.eval_instruction {i : Sof.Instruction} :
    (functionalInstruction i es).eval I F V m =
      (evaluateArgs I F V es m).bind fun vs m => execInstruction I.env i vs m := rfl

lemma Expression.eval_functionCall {f : YulString} :
    (functionCall f es).eval I F V m =
      (evaluateArgs I F V es m).bind fun vs m =>
        match I.dialect.builtin f with
        | some b => evalBuiltin I.env b es vs m
        | none => I.call F f vs m := rfl

@[simp] lemma Expression.eval_identifier {x : YulString} :
    (identifier x).eval I F V m = .ok [(V x).getD 0] m := rfl

@[simp] lemma Expression.eval_literal {l : Literal} :
    (literal l).eval I F V m = .ok [l.word] m := rfl

@[simp] lemma args_nil : evaluateArgs I F V [] m = .ok [] m := rfl

lemma args_cons :
    evaluateArgs I F V (e :: es) m =
      (evaluateArgs I F V es m).bind fun vs m =>
        (e.eval I F V m).bind fun v m => .ok (v.headD 0 :: vs) m := rfl

lemma exec_expression :
    (Statement.expressionStatement e).exec I F V m =
      (e.eval I F V m).map fun _ => (.default, V) := rfl

lemma exec_assignment {xs : List YulString} :
    (Statement.assignment xs e).exec I F V m =
      (e.eval I F V m).map fun vs => (.default, V.assign xs vs) := rfl

lemma exec_declaration {xs : List TypedName} {e : Option Expression} :
    (Statement.variableDeclaration xs e).exec I F V m =
      (Expression.evaluateMulti I F V e m).map fun vs =>
        (.default, V.assign (xs.map (·.name)) vs) := rfl

lemma exec_function {f : YulString} {ps rs : List TypedName} :
    (Statement.functionDefinition f ps rs body).exec I F V m = .ok (.default, V) m := rfl

lemma exec_if :
    (Statement.if e body).exec I F V m =
      (e.evaluate I F V m).bind fun v m =>
        if v ≠ 0 then execBlock I F V body m else .ok (.default, V) m := rfl

lemma exec_switch {cases : List Case} :
    (Statement.switch e cases).exec I F V m =
      (e.evaluate I F V m).bind fun v m => execCases I F V v cases m := rfl

/-- The condition of a loop. -/
def loopCondition (I : Interpreter World) (F : Functions) (e : Expression) (V : Variables)
    (m : SvmState World) : Run World Bool :=
  (e.evaluate I F V m).map (· ≠ 0)

/-- The body of a loop; it says whether it leaves the loop. -/
def loopBody (I : Interpreter World) (F : Functions) (body : Block) (V : Variables)
    (m : SvmState World) : Run World (Bool × Variables) :=
  (execBlock I F V body m).map fun r => (r.1 = .break, r.2)

/-- The part of a loop after its body. -/
def loopPost (I : Interpreter World) (F : Functions) (post : Block) (V : Variables)
    (m : SvmState World) : Run World Variables :=
  (execBlock I F V post m).map (·.2)

lemma exec_forLoop {pre post : List Statement} :
    (Statement.forLoop pre e post body).exec I F V m =
      closeScope V ((execStatements I F V pre m).bind fun r m =>
        (loop (loopCondition I F e) (loopBody I F body) (loopPost I F post) I.fuel r.2 m).map
          fun V => (.default, V)) := rfl

lemma exec_break : Statement.break.exec I F V m = .ok (.break, V) m := rfl

lemma exec_continue : Statement.continue.exec I F V m = .ok (.continue, V) m := rfl

lemma exec_block : (Statement.block ss).exec I F V m = execBlock I F V ss m := rfl

@[simp] lemma execStatements_nil : execStatements I F V [] m = .ok (.default, V) m := rfl

lemma execStatements_cons :
    execStatements I F V (s :: ss) m =
      (s.exec I F V m).bind fun r m =>
        if r.1 = .default then execStatements I F r.2 ss m else .ok r m := rfl

@[simp] lemma execCases_nil {v : Word} : execCases I F V v [] m = .ok (.default, V) m := rfl

lemma execCases_cons {v : Word} {value : Option Literal} {cs : List Case} :
    execCases I F V v (.mk value body :: cs) m =
      if value.all (·.word = v) then execBlock I F V body m else execCases I F V v cs m := rfl

end

end Yul
