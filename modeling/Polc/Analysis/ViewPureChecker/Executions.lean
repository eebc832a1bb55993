import Polc.Analysis.ViewPureChecker
import Polc.Codegen.CompilerContext
import Polc.Semantics.Behaviour

/-!
# What a function does to the state

The operations that the code of `libpolynomial/codegen/ExpressionCompiler.cpp` and
`ContractCompiler.cpp` performs on the state and the environment, in a contract whose functions and
modifiers are looked up in its hierarchy. Conditions are not evaluated, so that a run may take each
branch and repeat a loop any number of times; arguments are evaluated from left to right.
-/

namespace Polynomial

open Ast CompilerContext Semantics Behaviour Sof

inductive Effect where
  | reads
  | modifies
  deriving DecidableEq, Repr

/-- A step of an execution. -/
inductive Step (T : Type*) where
  /-- An operation that reads the state or the environment, or modifies the state. -/
  | operation (effect : Effect)
  /-- An access to a state variable that is named through a contract. -/
  | qualifiedAccess (effect : Effect)
  /-- Reads a storage object as a whole. -/
  | storageCopy
  /-- Starts a modifier in the place of the one that the function names. -/
  | modifier (referenced resolved : ModifierDefinition T)
  /-- Calls the function that is the value of an internal function type. -/
  | valueCall (type : StateMutability) (f : FunctionDefinition T Argument)

def Step.effect {T : Type*} : Step T → Option Effect
  | operation e | qualifiedAccess e => some e
  | storageCopy => some .reads
  | modifier _ _ | valueCall _ _ => none

namespace Execution

variable {T : Type*}

/-- The operations in the order of the effects. -/
def operations (es : List Effect) : Behaviour (Step T) := events (es.map .operation)

/-- What an instruction of inline assembly does; a jump may lead to any code. -/
def instructionEffects : Instruction → List Effect
  | .sstore | .log _ | .create | .create2 | .call | .callcode | .delegatecall | .selfdestruct
  | .jump | .jumpi => [.modifies]
  | .sload | .address | .balance | .origin | .caller | .callvalue | .gas | .gasprice
  | .extcodesize | .extcodecopy | .extcodehash | .blockhash | .coinbase | .timestamp | .number
  | .difficulty | .gaslimit | .staticcall => [.reads]
  | _ => []

def builtinEffects : BuiltinFunction → List Effect
  | .bareCall | .bareCallCode | .bareDelegateCall | .creation _ | .send | .transfer
  | .selfdestruct | .log | .event | .arrayPush | .arrayPop | .byteArrayPush => [.modifies]
  | .bareStaticCall | .blockHash | .gasLeft => [.reads]
  | _ => []

/-- A call of an external function does what the type of the function declares. -/
def externalEffects : StateMutability → List Effect
  | .pure => []
  | .view => [.reads]
  | .nonPayable | .payable => [.modifies]

def declarationEffects : Declaration → List Effect
  | .magicVariable (.contract false) | .magicVariable .integer => [.reads]
  | _ => []

/-- The members that stand for an instruction; the kind of magic does not matter. -/
def environmentMembers : List String :=
  ["coinbase", "timestamp", "difficulty", "number", "gaslimit", "sender", "value", "origin",
    "gasprice"]

def memberEffects (type : ExpressionType) (member : String) : List Effect :=
  match type with
  | .address => if member = "balance" then [.reads] else []
  | .magic _ => if member ∈ environmentMembers then [.reads] else []
  | _ => []

/-- How a place in storage is given. -/
inductive Place where
  | direct
  | qualified
  deriving DecidableEq, Repr

def Place.step (e : Effect) : Place → Step T
  | direct => .operation e
  | qualified => .qualifiedAccess e

def memberPlace (type : ExpressionType) (member : String) (declaration : Option Declaration) :
    Option Place :=
  match type with
  | .typeType true => if declaration.any (·.isStored) then some .qualified else none
  | .struct .storage => some .direct
  | .array true .storage => if member = "length" then some .direct else none
  | _ => none

mutual

/-- The places in storage that an expression stands for as an lvalue. -/
def places : Ast.Expression → List Place
  | .identifier _ _ declaration => if declaration.isStored then [.direct] else []
  | .tuple _ _ components => placesOfOperands components
  | .memberAccess _ e member declaration => (memberPlace e.type member declaration).toList
  | .indexAccess _ base _ _ => if base.type.dataStoredInStorage then [.direct] else []
  | _ => []

def placesOfOperands : Operands → List Place
  | .nil => []
  | .missing rest => placesOfOperands rest
  | .cons e _ rest => places e ++ placesOfOperands rest

end

def access (e : Effect) (ps : List Place) : Behaviour (Step T) := events (ps.map (·.step e))

/-- The value of an lvalue, unless it is only a reference into storage or not needed. -/
def retrieve (lValueRequested : Bool) (type : ExpressionType) (ps : List Place) :
    Behaviour (Step T) :=
  if lValueRequested || type.dataStoredInStorage then done else access .reads ps

def convert (type target : ExpressionType) : Behaviour (Step T) :=
  if type.copiesStorage target then event .storageCopy else done

mutual

def assemblyExpression (dialect : Yul.Dialect) : Yul.Expression → List Instruction
  | .functionalInstruction i arguments => i :: assemblyExpressions dialect arguments
  | .functionCall f arguments =>
    ((dialect.builtin f).bind (·.instruction)).toList ++ assemblyExpressions dialect arguments
  | .identifier _ | .literal _ => []

def assemblyExpressions (dialect : Yul.Dialect) : List Yul.Expression → List Instruction
  | [] => []
  | e :: es => assemblyExpression dialect e ++ assemblyExpressions dialect es

end

mutual

/-- The instructions in a statement, which are all that it can execute. -/
def assemblyStatement (dialect : Yul.Dialect) : Yul.Statement → List Instruction
  | .expressionStatement e | .assignment _ e | .variableDeclaration _ (some e) =>
    assemblyExpression dialect e
  | .variableDeclaration _ none | .break | .continue => []
  | .functionDefinition _ _ _ body => assemblyBlock dialect body
  | .if condition body => assemblyExpression dialect condition ++ assemblyBlock dialect body
  | .switch e cs => assemblyExpression dialect e ++ assemblyCases dialect cs
  | .forLoop pre condition post body =>
    assemblyBlock dialect pre ++ assemblyExpression dialect condition ++
      assemblyBlock dialect post ++ assemblyBlock dialect body
  | .block ss => assemblyBlock dialect ss

def assemblyBlock (dialect : Yul.Dialect) : Yul.Block → List Instruction
  | [] => []
  | s :: ss => assemblyStatement dialect s ++ assemblyBlock dialect ss

def assemblyCases (dialect : Yul.Dialect) : List Yul.Case → List Instruction
  | [] => []
  | .mk _ body :: cs => assemblyBlock dialect body ++ assemblyCases dialect cs

end

/-- Its instructions in any order and number, possibly with the end of the execution. -/
def inlineAssembly (dialect : Yul.Dialect) (code : Yul.Block) : Behaviour (Step T) :=
  andThen (repeated (any fun i : {i // i ∈ assemblyBlock dialect code} =>
    operations (instructionEffects i))) (orElse done (leave .halt))

/-! ### Expressions and statements -/

section

variable (calls : Callee → Behaviour (Step T))

/-- The changes that an operator makes at its operand. -/
def modification (ps : List Place) : Ast.UnaryOperator → Behaviour (Step T)
  | .inc | .dec => andThen (access .reads ps) (access .modifies ps)
  | .delete => access .modifies ps
  | _ => done

def conversions : Operands → Behaviour (Step T)
  | .nil => done
  | .missing rest => conversions rest
  | .cons e target rest => andThen (convert e.type target) (conversions rest)

mutual

def expression (lValueRequested : Bool) : Ast.Expression → Behaviour (Step T)
  | .literal _ | .newExpression _ | .elementaryTypeName _ => done
  | .identifier t name declaration =>
    andThen (operations (declarationEffects declaration))
      (retrieve lValueRequested t (places (.identifier t name declaration)))
  | .tuple _ isInlineArray components => operands lValueRequested isInlineArray components
  | .unaryOperation _ op e =>
    andThen (expression op.isModifying e) (modification (places e) op)
  | .binaryOperation _ isShortCircuit l r =>
    if isShortCircuit then andThen (expression false l) (orElse done (expression false r))
    else andThen (expression false r) (expression false l)
  | .conditional t c e₁ e₂ =>
    andThen (expression false c)
      (orElse (andThen (expression false e₁) (convert e₁.type t))
        (andThen (expression false e₂) (convert e₂.type t)))
  | .assignment _ isCompound l r target =>
    andThen (expression false r) (andThen (convert r.type target)
      (andThen (expression true l)
        (andThen (if isCompound then access .reads (places l) else done)
          (access .modifies (places l)))))
  | .functionCall _ kind e arguments =>
    match kind with
    | .typeConversion | .structConstructorCall => operands false true arguments
    | .functionCall callee =>
      match callee with
      | .virtual _ => andThen (operands false true arguments) (calls callee)
      | .super _ _ | .exact _ | .value _ =>
        andThen (operands false true arguments) (andThen (expression false e) (calls callee))
      | .delegateCall _ =>
        andThen (expression false e) (andThen (operands false true arguments) (calls callee))
      | .external m =>
        andThen (expression false e)
          (andThen (operands false true arguments) (operations (externalEffects m)))
      -- the message is only converted if the condition does not hold
      | .builtin .assert | .builtin .require =>
        andThen (expression false e) (andThen (operands false false arguments)
          (orElse done (andThen (conversions arguments) (leave .halt))))
      | .builtin b =>
        andThen (expression false e) (andThen (operands false true arguments)
          (andThen (operations (builtinEffects b))
            (if b = .revert ∨ b = .selfdestruct then leave .halt else done)))
  | .memberAccess t e member declaration =>
    if e.type = .typeType true then
      retrieve lValueRequested t (places (.memberAccess t e member declaration))
    else if ViewPureChecker.isSelectorOfThis e member then done
    else
      andThen (expression false e) (andThen (operations (memberEffects e.type member))
        (retrieve lValueRequested t (places (.memberAccess t e member declaration))))
  | .boundMember _ e _ self => andThen (expression false e) (convert e.type self)
  | .indexAccess t base index target =>
    andThen (expression false base) (andThen (expression false index)
      (andThen (convert index.type target)
        (andThen (if base.type = .array true .storage then operations [.reads] else done)
          (retrieve lValueRequested t (places (.indexAccess t base index target))))))
  | .arrayTypeName _ base => expression false base

def operands (lValueRequested converted : Bool) : Operands → Behaviour (Step T)
  | .nil => done
  | .missing rest => operands lValueRequested converted rest
  | .cons e target rest =>
    andThen (expression lValueRequested e)
      (andThen (if converted then convert e.type target else done)
        (operands lValueRequested converted rest))

end

def arguments : List Argument → Behaviour (Step T)
  | [] => done
  | (e, target) :: es =>
    andThen (expression calls false e) (andThen (convert e.type target) (arguments es))

variable (inner : Behaviour (Step T))

mutual

/-- A statement of a function or of a modifier around the code `inner`. -/
def statement : Statement → Behaviour (Step T)
  | .block ss => statements ss
  | .placeholder => inner
  | .inlineAssembly dialect code => inlineAssembly dialect code
  | .ifStatement c s₁ s₂ =>
    andThen (expression calls false c) (orElse (statement s₁) (statement s₂))
  | .whileStatement c body isDoWhile =>
    if isDoWhile then doLoop (statement body) (expression calls false c)
    else loop (expression calls false c) (statement body) done
  | .forStatement init c next body =>
    andThen (statement init) (loop (expression calls false c) (statement body) (statement next))
  | .continue => leave .continue
  | .break => leave .break
  | .return e => andThen (arguments calls e.toList) (leave .return)
  | .variableDeclarationStatement e => arguments calls e.toList
  | .emitStatement e | .expressionStatement e => expression calls false e

def statements : Statements → Behaviour (Step T)
  | .nil => done
  | .cons s rest => andThen (statement s) (statements rest)

end

end

variable (p : Program T) (hierarchy : List (ContractDefinition T Argument))

/-- Code with a modifier around it, for a function of the contract. -/
def modifierInvocation (calls : Callee → Behaviour (Step T)) (c : ContractDefinition T Argument)
    (invocation : ModifierInvocation Argument) (inner : Behaviour (Step T)) : Behaviour (Step T) :=
  match invocation with
  -- constructor call should be excluded
  | .baseConstructor _ _ => inner
  | .modifier name es =>
    match p.referencedModifier c name with
    | none => leave .halt
    | some (scope, m) =>
      match resolveVirtualFunctionModifier hierarchy scope m with
      | none => leave .halt
      | some resolved =>
        andThen (arguments calls (es.getD [])) (andThen (event (.modifier m resolved))
          (resume .return (statement calls inner (p.modifierBody resolved.id))))

def functionDefinition (calls : Callee → Behaviour (Step T)) (c : ContractDefinition T Argument)
    (f : FunctionDefinition T Argument) : Behaviour (Step T) :=
  f.modifiers.foldr (modifierInvocation p hierarchy calls c)
    (match p.body f.id with
      | none => leave .halt
      | some body => resume .return (statement calls done body))

variable [DecidableEq T]

/-- The functions that names can stand for in the hierarchy, besides the ones of libraries. -/
def inHierarchy (function : ℕ) : Bool :=
  hierarchy.any fun c => c.definedFunctions.any (·.id = function)

/-- The function that runs for a function that is called by a name. -/
def resolve : Callee → Option (FunctionDefinition T Argument)
  | .virtual id => (p.function id).bind fun s =>
    if s.2.isVisibleInContract && (s.1.isLibrary || inHierarchy hierarchy id) then
      resolveVirtualFunction hierarchy s.1 s.2
    else none
  | .super contract id => (p.function id).bind fun s =>
    if s.2.isVisibleInContract && inHierarchy hierarchy id then
      (hierarchy.find? (·.id = contract)).bind (superFunction hierarchy · s.2)
    else none
  | .exact id => (p.function id).map (·.2)
  | _ => none

/-- A call, where `run` runs functions in a hierarchy; a public function of a library runs in the
one of the library. -/
def call (run : List (ContractDefinition T Argument) → ℕ → Behaviour (Step T)) :
    Callee → Behaviour (Step T)
  | .delegateCall id =>
    match p.function id with
    | none => leave .halt
    | some (c, _) => run (p.linearizedBaseContracts c) id
  | .value m => any fun id : ℕ =>
    match p.function id with
    | none => leave .halt
    | some (_, f) => andThen (event (.valueCall m f)) (run hierarchy id)
  | callee =>
    match resolve p hierarchy callee with
    | none => leave .halt
    | some f => run hierarchy f.id

/-- The runs of a function in a contract with the hierarchy, down to a depth of calls. -/
def run : ℕ → List (ContractDefinition T Argument) → ℕ → Behaviour (Step T)
  | 0, _, _ => leave .halt
  | n + 1, hierarchy, id =>
    match p.function id with
    | none => leave .halt
    | some (c, f) => functionDefinition p hierarchy (call p hierarchy (run n)) c f

end Execution

end Polynomial
