import Polc.Yul.Backends.Wasm.EWasmAST
import Polc.Yul.Interpreter.FunctionTable
import Polc.Yul.Optimiser.NameDispenser
import Polc.Yul.Optimiser.Prerequisites

/-!
# Code for WebAssembly

`libyul/backends/wasm/EWasmCodeTransform.cpp`: functions become functions of WebAssembly. The first
value of a function is its result, the others are passed in global variables.
-/

namespace Yul

/-- The builtin functions of `WasmDialect`, with the numbers of their arguments and values. -/
def WasmDialect.functions : List (YulString × Nat × Nat) :=
  ["i64.add", "i64.sub", "i64.mul", "i64.div_u", "i64.rem_u", "i64.and", "i64.or", "i64.xor",
    "i64.shl", "i64.shr_u", "i64.eq", "i64.ne", "i64.lt_u", "i64.gt_u", "i64.le_u",
    "i64.ge_u"].map (fun f => (f, 2, 1)) ++
  [("i64.eqz", 1, 1), ("i64.store", 2, 0), ("i64.load", 1, 1), ("drop", 1, 0),
    ("unreachable", 0, 0)]

def WasmDialect.builtin (f : YulString) : Option (Nat × Nat) := functions.lookup f

namespace EWasmCodeTransform

structure State where
  nameDispenser : NameDispenser
  localVariables : List YulString
  globalVariables : List YulString
  breakContinueLabelNames : List (YulString × YulString)

namespace State

/-- A new name, which is the only one to change the state. -/
def newName (T : State) (hint : YulString) : YulString × State :=
  let r := T.nameDispenser.newName hint
  (r.1, { T with nameDispenser := r.2 })

def newLabel (T : State) : YulString × State := T.newName "label_"

/-- A new local variable. -/
def newLocal (T : State) (hint : YulString) : YulString × State :=
  let r := T.newName hint
  (r.1, { r.2 with localVariables := r.2.localVariables ++ [r.1] })

/-- Enter a loop with new labels for `break` and `continue`; they stay on the stack. -/
def pushLabels (T : State) : (YulString × YulString) × State :=
  let breakLabel := T.newLabel
  let continueLabel := breakLabel.2.newLabel
  let labels := (breakLabel.1, continueLabel.1)
  (labels, { continueLabel.2 with
    breakContinueLabelNames := labels :: continueLabel.2.breakContinueLabelNames })

def clearLocals (T : State) : State := { T with localVariables := [] }

/-- Add global variables, as many as given. -/
def addGlobals (T : State) : Nat → State
  | 0 => T
  | n + 1 =>
    let r := T.newName "global_"
    addGlobals { r.2 with globalVariables := r.2.globalVariables ++ [r.1] } n

/-- Make sure that there are at least `amount` global variables. -/
def allocateGlobals (T : State) (amount : Nat) : State :=
  T.addGlobals (amount - T.globalVariables.length)

end State

/-- Assign to the names, the first one the value and the others the global variables, of which
there have to be enough. -/
def generateMultiAssignment (globals : List YulString) (firstValue : Wasm.Expression) :
    List YulString → Option Wasm.Expression
  | [] => none
  | [x] => some (.localAssignment x firstValue)
  | x :: xs =>
    if xs.length ≤ globals.length then
      some (.block "" (.localAssignment x firstValue ::
        List.zipWith (fun x g => .localAssignment x (.globalVariable g)) xs globals))
    else none

mutual

/-- What an expression becomes. There is no result where the source asserts. -/
def visit : Expression → Option Wasm.Expression
  | .functionalInstruction _ _ => none
  | .functionCall f args =>
    (visitAll args).map fun args =>
      if (WasmDialect.builtin f).isSome then .builtinCall f args else .functionCall f args
  | .identifier x => some (.localVariable x)
  | .literal l =>
    (valueOfLiteral l).bind fun value =>
      if value.toNat < 2 ^ 64 then some (.literal (value.setWidth 64)) else none

def visitAll : List Expression → Option (List Wasm.Expression)
  | [] => some []
  | e :: es => (visit e).bind fun e => (visitAll es).map (e :: ·)

end

/-- Leave the loop if the condition does not hold. -/
def leaveUnless (breakLabel : YulString) (condition : Wasm.Expression) : Wasm.Expression :=
  .builtinCall "br_if" [.label breakLabel, .builtinCall "i64.eqz" [condition]]

/-- Whether the value of a `switch` is that of a case. -/
def comparison (condition : YulString) (value : Wasm.Expression) : Wasm.Expression :=
  .builtinCall "i64.eq" [.localVariable condition, value]

mutual

/-- What a statement becomes. There is no result where the source asserts. -/
def visitStatement (T : State) : Statement → Option (Wasm.Expression × State)
  | .expressionStatement e => (visit e).map fun e => (e, T)
  | .assignment xs e =>
    (visit e).bind fun e =>
      (generateMultiAssignment T.globalVariables e xs).map fun e => (e, T)
  | .variableDeclaration xs value =>
    let xs := xs.map (·.name)
    let T := { T with localVariables := T.localVariables ++ xs }
    match value with
    | none => some (.builtinCall "nop" [], T)
    | some e =>
      (visit e).bind fun e =>
        (generateMultiAssignment T.globalVariables e xs).map fun e => (e, T)
  | .functionDefinition _ _ _ _ => none
  | .if c body =>
    (visit c).bind fun c =>
      (visitStatements T body).map fun r => (.if c r.1 none, r.2)
  | .switch e cases =>
    let r := T.newLocal "condition"
    (visit e).bind fun e =>
      (visitCases r.1 r.2 cases).map fun r' =>
        (.block "" (.localAssignment r.1 e :: r'.1), r'.2)
  | .forLoop pre c post body =>
    let r := T.pushLabels
    (visitStatements r.2 pre).bind fun pre =>
      (visit c).bind fun c =>
        (visitStatements pre.2 body).bind fun body =>
          (visitStatements body.2 post).map fun post =>
            (.block r.1.1 [.loop ""
              (pre.1 ++ leaveUnless r.1.1 c :: .block r.1.2 body.1 :: post.1)], post.2)
  | .break => T.breakContinueLabelNames.head?.map fun labels => (.break labels.1, T)
  | .continue => T.breakContinueLabelNames.head?.map fun labels => (.continue labels.2, T)
  | .block ss => (visitStatements T ss).map fun r => (.block "" r.1, r.2)

def visitStatements (T : State) : List Statement → Option (List Wasm.Expression × State)
  | [] => some ([], T)
  | s :: ss =>
    (visitStatement T s).bind fun r =>
      (visitStatements r.2 ss).map fun r' => (r.1 :: r'.1, r'.2)

/-- The cases of a `switch`, each in the `else` part of the one before. -/
def visitCases (condition : YulString) (T : State) :
    List Case → Option (List Wasm.Expression × State)
  | [] => some ([], T)
  | .mk (some value) body :: cs =>
    (visit (.literal value)).bind fun value =>
      (visitStatements T body).bind fun body =>
        (visitCases condition body.2 cs).map fun r =>
          ([.if (comparison condition value) body.1 (if cs = [] then none else some r.1)], r.2)
  | .mk none body :: cs => if cs = [] then visitStatements T body else none

end

/-- Set the global variables to the return variables apart from the first, which is the result. -/
def returnValues (globals : List YulString) : List YulString → List Wasm.Expression
  | [] => []
  | x :: xs =>
    List.zipWith (fun g x => .globalAssignment g (.localVariable x)) globals xs ++
      [.localVariable x]

/-- `translateFunction`; the source asserts that there are no local variables yet. -/
def translateFunction (T : State) (f : YulString) (d : FunctionDefinition) :
    Option (Wasm.FunctionDefinition × State) :=
  if T.localVariables ≠ [] then none
  else
    (visitStatements T d.body).map fun r =>
      let returns := d.returnVariables.map (·.name)
      let T := r.2.clearLocals.allocateGlobals (returns.length - 1)
      (⟨f, d.parameters.map (·.name), returns ≠ [], returns ++ r.2.localVariables,
        r.1 ++ returnValues T.globalVariables returns⟩, T)

/-- The statements of a program have to be function definitions. -/
def translateFunctions (T : State) : List Statement → Option (List Wasm.FunctionDefinition × State)
  | [] => some ([], T)
  | .functionDefinition f ps rs body :: ss =>
    (translateFunction T f ⟨ps, rs, body⟩).bind fun r =>
      (translateFunctions r.2 ss).map fun r' => (r.1 :: r'.1, r'.2)
  | _ :: _ => none

/-- Translate a program. -/
def run (D : NameDispenser) (ss : Block) : Option Wasm.Module :=
  (translateFunctions ⟨D, [], [], []⟩ ss).map fun r => ⟨r.2.globalVariables, r.1⟩

section

/-- Numbers of arguments and values of a function. -/
def arity (F : Functions) (f : YulString) : Option (Nat × Nat) :=
  match WasmDialect.builtin f with
  | some n => some n
  | none => (F f).map (·.arity)

variable (F : Functions)

/-- How many values an expression has. -/
def results : Expression → Nat
  | .functionalInstruction i _ => (Sof.instructionInfo i).ret
  | .functionCall f _ => ((arity F f).getD (0, 0)).2
  | .identifier _ | .literal _ => 1

mutual

/-- The expression passes the analysis, and its literals have 64 bits. -/
def analyzed (xs : List YulString) : Expression → Bool
  | .functionalInstruction _ _ => false
  | .functionCall f args =>
    (arity F f).map (·.1) = some args.length && argumentsAnalyzed xs args
  | .identifier x => x ∈ xs
  | .literal l => (valueOfLiteral l).any (·.toNat < 2 ^ 64)

def argumentsAnalyzed (xs : List YulString) : List Expression → Bool
  | [] => true
  | e :: es => analyzed xs e && results F e = 1 && argumentsAnalyzed xs es

end

mutual

/-- The statement passes the analysis in the body of a function, where `xs` are the variables in
scope and `b` says whether the loop around it may be left. -/
def statementAnalyzed (b : Bool) (xs : List YulString) : Statement → Bool
  | .expressionStatement e => analyzed F xs e && results F e = 0
  | .assignment ys e =>
    ys ≠ [] && ys.all (· ∈ xs) && analyzed F xs e && results F e = ys.length
  | .variableDeclaration _ none => true
  | .variableDeclaration ys (some e) =>
    ys ≠ [] && analyzed F xs e && results F e = ys.length
  | .functionDefinition _ ps rs body =>
    statementsAnalyzed false (ps.map (·.name) ++ rs.map (·.name)) body
  | .if c body => analyzed F xs c && results F c = 1 && statementsAnalyzed b xs body
  | .switch e cases => analyzed F xs e && results F e = 1 && casesAnalyzed b xs cases
  | .forLoop pre c post body =>
    let xs' := pre.flatMap (·.declares) ++ xs
    statementsAnalyzed false xs pre && analyzed F xs' c && results F c = 1 &&
      statementsAnalyzed false xs' post && statementsAnalyzed true xs' body
  | .break | .continue => b
  | .block ss => statementsAnalyzed b xs ss

def statementsAnalyzed (b : Bool) (xs : List YulString) : List Statement → Bool
  | [] => true
  | s :: ss => statementAnalyzed b xs s && statementsAnalyzed b (s.declares ++ xs) ss

/-- The default case is the last one. -/
def casesAnalyzed (b : Bool) (xs : List YulString) : List Case → Bool
  | [] => true
  | .mk value body :: cs =>
    value.all (fun l => (valueOfLiteral l).any (·.toNat < 2 ^ 64)) && (value.isSome || cs = []) &&
      statementsAnalyzed b xs body && casesAnalyzed b xs cs

end

end

/-- The program consists of functions with distinct names and passes the analysis. -/
structure Analyzed (ss : Block) : Prop where
  functions : ss.all (·.isFunctionDefinition) = true
  nodup : ((functionDefinitions ss).map (·.1)).Nodup
  analyzed : statementsAnalyzed (Functions.register (fun _ => none) ss) false [] ss = true

/-! ### Where the code has the meaning of the program -/

mutual

/-- Of the arguments of a call at most one is a call. -/
def oneCall : Expression → Bool
  | .functionalInstruction _ args | .functionCall _ args =>
    args.countP (!·.isElementary) ≤ 1 && oneCallAll args
  | .identifier _ | .literal _ => true

def oneCallAll : List Expression → Bool
  | [] => true
  | e :: es => oneCall e && oneCallAll es

end

/-- In the expressions of the statement the order of evaluation does not matter. -/
def ordered : Statement → Bool
  | .expressionStatement e | .assignment _ e | .variableDeclaration _ (some e) | .if e _
  | .switch e _ | .forLoop _ e _ _ => oneCall e
  | _ => true

def isForLoop : Statement → Bool
  | .forLoop _ _ _ _ => true
  | _ => false

/-- There is a loop in the statement. -/
def containsLoop (s : Statement) : Bool := !s.every (!isForLoop ·)

/-- There is a loop among the statements. -/
def containLoop (ss : List Statement) : Bool := !everyStatement (!isForLoop ·) ss

mutual

/-- No loop comes before a jump in the loop around it; `b` says whether one may still jump. -/
def jumpsFirst (b : Bool) : Statement → Bool
  | .functionDefinition _ _ _ body => jumpsFirstAll false body
  | .if _ body => jumpsFirstAll b body
  | .switch _ cases => jumpsFirstCases b cases
  | .forLoop pre _ post body =>
    jumpsFirstAll false pre && jumpsFirstAll (!containLoop pre) body && jumpsFirstAll false post
  | .break | .continue => b
  | .block ss => jumpsFirstAll b ss
  | _ => true

def jumpsFirstAll (b : Bool) : List Statement → Bool
  | [] => true
  | s :: ss => jumpsFirst b s && jumpsFirstAll (b && !containsLoop s) ss

def jumpsFirstCases (b : Bool) : List Case → Bool
  | [] => true
  | .mk _ body :: cs => jumpsFirstAll b body && jumpsFirstCases (b && !containLoop body) cs

end

/-- The statement assigns at most `n` values at once. -/
def assignsAtMost (n : Nat) : Statement → Bool
  | .assignment xs _ => xs.length ≤ n
  | .variableDeclaration xs (some _) => xs.length ≤ n
  | _ => true

/-- As many values as are assigned at once are returned by a function before. -/
def globalsSuffice (n : Nat) : List Statement → Bool
  | [] => true
  | .functionDefinition _ _ rs body :: ss =>
    everyStatement (assignsAtMost n) body && globalsSuffice (max n rs.length) ss
  | _ :: ss => globalsSuffice n ss

/-- No name is declared twice in a function, and no functions are declared in it. -/
def isFlatFunction : Statement → Bool
  | .functionDefinition _ ps rs body =>
    decide (ps.map (·.name) ++ rs.map (·.name) ++ namesOfStatements body).Nodup &&
      everyStatement (!·.isFunctionDefinition) body
  | _ => false

/-- What the translation relies on. -/
structure Translatable (ss : Block) : Prop where
  flat : ss.all isFlatFunction = true
  ordered : everyStatement ordered ss = true
  jumpsFirst : jumpsFirstAll false ss = true
  globalsSuffice : globalsSuffice 1 ss = true

end EWasmCodeTransform

end Yul
