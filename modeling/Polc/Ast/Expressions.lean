import Polc.Ast.AST
import Polc.Yul.Dialect
import Mathlib.Data.List.Nodup

/-!
# Expressions and statements

The nodes of `libpolynomial/ast/AST.h` that make up the bodies of functions, with what reference
resolution and the type checker note at them. Functions and contracts are referred to by their
identifiers.
-/

namespace Polynomial.Ast

open List

/-- `MagicType::Kind` -/
inductive MagicKind where
  | block
  | message
  | transaction
  | abi
  | metaType
  deriving DecidableEq, Repr

/-- The type of an expression, with the location of its data. -/
inductive ExpressionType where
  | value
  | integer
  | address
  | contract (isSuper : Bool)
  | function
  | array (isDynamicallySized : Bool) (location : DataLocation)
  | struct (location : DataLocation)
  | mapping
  | magic (kind : MagicKind)
  | typeType (isContract : Bool)
  | emptyTuple
  | tuple (first rest : ExpressionType)
  deriving DecidableEq, Repr

namespace ExpressionType

/-- The expression is a reference into storage. -/
def dataStoredInStorage : ExpressionType → Bool
  | array _ .storage | struct .storage | mapping => true
  | _ => false

/-- What `convertType` reads from storage: all of a storage object whose copy is needed. -/
def copiesStorage : ExpressionType → ExpressionType → Bool
  | tuple t ts, tuple target targets => t.copiesStorage target || ts.copiesStorage targets
  | t, target => t.dataStoredInStorage && !target.dataStoredInStorage

end ExpressionType

/-- What an identifier or a member refers to. -/
inductive Declaration where
  | variable (isStateVariable isConstant : Bool)
  | magicVariable (type : ExpressionType)
  | other
  deriving DecidableEq, Repr

/-- A state variable that is kept in storage. -/
def Declaration.isStored : Declaration → Bool
  | .variable isStateVariable isConstant => isStateVariable && !isConstant
  | _ => false

/-- The kinds of function types that belong to functions of the language. -/
inductive BuiltinFunction where
  | bareCall
  | bareCallCode
  | bareDelegateCall
  | bareStaticCall
  | creation (isPayable : Bool)
  | send
  | transfer
  | keccak256
  | selfdestruct
  | revert
  | ecRecover
  | sha256
  | ripemd160
  | log
  | event
  | setGas
  | setValue
  | blockHash
  | addMod
  | mulMod
  | arrayPush
  | arrayPop
  | byteArrayPush
  | objectCreation
  | assert
  | require
  | abiEncode
  | abiDecode
  | gasLeft
  | metaType
  deriving DecidableEq, Repr

/-- The state mutability in the type of the function. -/
def BuiltinFunction.stateMutability : BuiltinFunction → StateMutability
  | bareCall | bareCallCode | creation true => .payable
  | bareDelegateCall | creation false | send | transfer | selfdestruct | log | event | setGas
  | setValue | arrayPush | arrayPop | byteArrayPush => .nonPayable
  | bareStaticCall | blockHash | gasLeft => .view
  | keccak256 | revert | ecRecover | sha256 | ripemd160 | addMod | mulMod | objectCreation | assert
  | require | abiEncode | abiDecode | metaType => .pure

/-- The function that a called expression stands for. -/
inductive Callee where
  /-- `f()` -/
  | virtual (function : ℕ)
  /-- `super.f()` in the code of the contract. -/
  | super (contract function : ℕ)
  /-- A function of a base contract or an internal one of a library, which is named through the
  contract or bound to a value. -/
  | exact (function : ℕ)
  /-- A public function of a library. -/
  | delegateCall (function : ℕ)
  /-- A value of an internal function type. -/
  | value (stateMutability : StateMutability)
  | external (stateMutability : StateMutability)
  | builtin (function : BuiltinFunction)
  deriving DecidableEq, Repr

inductive FunctionCallKind where
  | functionCall (callee : Callee)
  | typeConversion
  | structConstructorCall
  deriving DecidableEq, Repr

inductive UnaryOperator where
  | not
  | bitNot
  | add
  | sub
  | inc
  | dec
  | delete
  deriving DecidableEq, Repr

def UnaryOperator.isModifying : UnaryOperator → Bool
  | inc | dec | delete => true
  | _ => false

mutual

/-- An expression; the first field is the type of its annotation. -/
inductive Expression where
  | literal (type : ExpressionType)
  | identifier (type : ExpressionType) (name : String) (declaration : Declaration)
  | tuple (type : ExpressionType) (isInlineArray : Bool) (components : Operands)
  | unaryOperation (type : ExpressionType) (op : UnaryOperator) (e : Expression)
  | binaryOperation (type : ExpressionType) (isShortCircuit : Bool) (l r : Expression)
  | conditional (type : ExpressionType) (condition trueExpression falseExpression : Expression)
  | assignment (type : ExpressionType) (isCompound : Bool) (l r : Expression)
    (target : ExpressionType)
  | functionCall (type : ExpressionType) (kind : FunctionCallKind) (e : Expression)
    (arguments : Operands)
  | newExpression (type : ExpressionType)
  | memberAccess (type : ExpressionType) (e : Expression) (member : String)
    (declaration : Option Declaration)
  /-- An access to a function that is bound to the value. It does not have the name of a member
  that the type has by itself, such as the selector of a function. -/
  | boundMember (type : ExpressionType) (e : Expression) (member : String)
    (selfType : ExpressionType)
  | indexAccess (type : ExpressionType) (base index : Expression) (target : ExpressionType)
  /-- An index access without an index. -/
  | arrayTypeName (type : ExpressionType) (base : Expression)
  | elementaryTypeName (type : ExpressionType)
  deriving DecidableEq

/-- Expressions with the types that they are converted to; components of tuples may be missing. -/
inductive Operands where
  | nil
  | missing (rest : Operands)
  | cons (e : Expression) (target : ExpressionType) (rest : Operands)
  deriving DecidableEq

end

def Expression.type : Expression → ExpressionType
  | literal t | identifier t _ _ | tuple t _ _ | unaryOperation t _ _ | binaryOperation t _ _ _
  | conditional t _ _ _ | assignment t _ _ _ _ | functionCall t _ _ _ | newExpression t
  | memberAccess t _ _ _ | boundMember t _ _ _ | indexAccess t _ _ _ | arrayTypeName t _
  | elementaryTypeName t => t

/-- An argument or another operand, with the type it is converted to. -/
abbrev Argument := Expression × ExpressionType

mutual

inductive Statement where
  | block (statements : Statements)
  | placeholder
  | inlineAssembly (dialect : Yul.Dialect) (operations : Yul.Block)
  | ifStatement (condition : Expression) (trueBody falseBody : Statement)
  | whileStatement (condition : Expression) (body : Statement) (isDoWhile : Bool)
  /-- What is missing is an empty block or, as the condition, a literal. -/
  | forStatement (initialization : Statement) (condition : Expression)
    (loopExpression body : Statement)
  | continue
  | break
  | return (value : Option Argument)
  | emitStatement (eventCall : Expression)
  | variableDeclarationStatement (initialValue : Option Argument)
  | expressionStatement (e : Expression)

inductive Statements where
  | nil
  | cons (s : Statement) (rest : Statements)

end

/-- The contracts of all source units, from derived to base in `linearizedBaseContracts`, with the
bodies of functions and modifiers by their identifiers. -/
structure Program (T : Type*) where
  contracts : List (ContractDefinition T Argument)
  linearizedBaseContracts : ContractDefinition T Argument → List (ContractDefinition T Argument)
  body : ℕ → Option Statement
  modifierBody : ℕ → Statement
  nodup : ((contracts.flatMap (·.definedFunctions)).map (·.id)).Nodup
  linearized : ∀ c ∈ contracts, ∀ base ∈ linearizedBaseContracts c, base ∈ contracts

namespace Program

variable {T : Type*} (p : Program T)

/-- The function with the identifier, and the contract that defines it. -/
def function (id : ℕ) : Option (ContractDefinition T Argument × FunctionDefinition T Argument) :=
  p.contracts.findSome? fun c => (c.definedFunctions.find? (·.id = id)).map (c, ·)

/-- The modifier that the name stands for in the contract, and the contract that defines it. -/
def referencedModifier (c : ContractDefinition T Argument) (name : String) :
    Option (ContractDefinition T Argument × ModifierDefinition T) :=
  (p.linearizedBaseContracts c).findSome? fun base =>
    (base.functionModifiers.find? (·.name = name)).map (base, ·)

/-- The state mutability in the type of a called expression. -/
def calleeMutability : Callee → Option StateMutability
  | .virtual f | .super _ f | .exact f | .delegateCall f =>
    (p.function f).map (·.2.stateMutability)
  | .value m | .external m => some m
  | .builtin b => some b.stateMutability

variable {p} {c : ContractDefinition T Argument} {f : FunctionDefinition T Argument}

lemma mem_of_function {id : ℕ} (h : p.function id = some (c, f)) :
    c ∈ p.contracts ∧ f ∈ c.definedFunctions ∧ f.id = id := by
  obtain ⟨d, hd, hfind⟩ := exists_of_findSome?_eq_some h
  obtain ⟨g, hg, heq⟩ := Option.map_eq_some_iff.mp hfind
  cases heq
  exact ⟨hd, mem_of_find?_eq_some hg, by simpa using find?_some hg⟩

lemma function_eq (hc : c ∈ p.contracts) (hf : f ∈ c.definedFunctions) :
    ∃ d, p.function f.id = some (d, f) := by
  have hsome : (p.function f.id).isSome = true := by
    rw [function, List.findSome?_isSome_iff]
    refine ⟨c, hc, ?_⟩
    rw [Option.isSome_map, find?_isSome]
    exact ⟨f, hf, by simp⟩
  obtain ⟨⟨d, g⟩, hg⟩ := Option.isSome_iff_exists.mp hsome
  obtain ⟨hd, hmem, hid⟩ := mem_of_function hg
  have hinj := List.inj_on_of_nodup_map p.nodup
  obtain rfl := hinj (mem_flatMap.mpr ⟨d, hd, hmem⟩) (mem_flatMap.mpr ⟨c, hc, hf⟩) hid
  exact ⟨d, hg⟩

end Program

end Polynomial.Ast
