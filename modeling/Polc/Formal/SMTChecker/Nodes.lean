import Mathlib.Data.List.Dedup
import Mathlib.Data.List.ReduceOption

/-!
# The nodes that the SMT checker visits

The tree of a function as `VariableUsage` and `SMTChecker` visit it. Of a type only what decides
whether it is supported and which variables may be aliases is here; of an expression that neither
writes a variable nor calls a function, only its operands, its type and whether it gets a symbolic
value.
-/

namespace Polynomial.SMTChecker

open List

/-! ### Types and variables -/

inductive DataLocation where
  | storage
  | callData
  | memory
  deriving DecidableEq

inductive ArrayKind where
  | bytes
  | string
  | ordinary
  deriving DecidableEq

/-- A type; an identifier tells the types of one category apart. The numbers without arithmetic are
fixed bytes, addresses, contracts and enumerations. -/
inductive VariableType where
  | integer (identifier : ℕ)
  | number (identifier : ℕ)
  | bool
  | function (identifier returnParameters : ℕ)
  | otherValue (identifier : ℕ)
  | array (kind : ArrayKind) (baseType : VariableType) (length : Option ℕ)
      (location : DataLocation) (isPointer : Bool)
  | struct (identifier : ℕ) (location : DataLocation) (isPointer : Bool)
  | mapping (keyType valueType : VariableType)
  | tuple (components : ℕ)
  deriving DecidableEq

namespace VariableType

/-- `smt::isSupportedType`. -/
def isSupported : VariableType → Bool
  | integer _ | number _ | bool | array .. | mapping .. | tuple _ => true
  | _ => false

/-- `smt::isSupportedTypeDeclaration`. -/
def isSupportedDeclaration (t : VariableType) : Bool :=
  t.isSupported || t matches function ..

def isInteger (t : VariableType) : Bool := t matches integer _

def isTuple (t : VariableType) : Bool := t matches tuple _

/-- `hasReferenceOrMappingType`. -/
def isReferenceOrMapping : VariableType → Bool
  | array .. | struct .. | mapping .. => true
  | _ => false

/-- `TypeProvider::withLocationIfReference`. -/
def withLocation (location : DataLocation) : VariableType → VariableType
  | array kind base length _ _ => array kind (base.withLocation location) length location false
  | struct identifier _ _ => struct identifier location false
  | t => t

/-- `typeWithoutPointer`. -/
def withoutPointer : VariableType → VariableType
  | array kind base length location _ =>
    array kind (base.withLocation location) length location false
  | struct identifier location _ => struct identifier location false
  | t => t

/-- Whether the type, or the one of an element at some depth, is the original type. -/
def hasPrefix (originalType : VariableType) : VariableType → Bool
  | mapping key value =>
    originalType = (mapping key value).withoutPointer || hasPrefix originalType value
  | array kind base length location isPointer =>
    originalType = (array kind base length location isPointer).withoutPointer ||
      hasPrefix originalType base
  | _ => false

def elementType : VariableType → VariableType
  | array _ base .. => base
  | mapping _ value => value
  | t => t

end VariableType

inductive Callable where
  | function (id : ℕ)
  | modifier (id : ℕ)
  deriving DecidableEq

/-- A variable; one that is declared in no callable is a state variable. -/
structure VariableDeclaration where
  id : ℕ
  type : VariableType
  functionOrModifierDefinition : Option Callable
  deriving DecidableEq

namespace VariableDeclaration

def isLocalVariable (v : VariableDeclaration) : Bool := v.functionOrModifierDefinition.isSome

def isStateVariable (v : VariableDeclaration) : Bool := !v.isLocalVariable

/-- The other variables that a write to an element of `v` may change. -/
def mayAlias (v w : VariableDeclaration) : Bool :=
  v.type.isReferenceOrMapping && decide (w ≠ v) && w.type.hasPrefix v.type.withoutPointer

end VariableDeclaration

/-! ### Expressions -/

inductive AssignmentOperator where
  | assign
  | compound
  | other
  deriving DecidableEq

/-- What a call runs: a function with a body that is known, code that is not, or nothing that
matters here. -/
inductive Callee where
  | inlined (function : ℕ)
  | external
  | other
  deriving DecidableEq

mutual

inductive Expression where
  | identifier (declaration : VariableDeclaration)
  | tuple (components : Components)
  | indexAccess (base index : Expression)
  | increment (subExpression : Expression)
  | delete (subExpression : Expression)
  | booleanOperation (left right : Expression)
  | assignment (operator : AssignmentOperator) (left right : Expression)
  | functionCall (expression : Expression) (callee : Callee) (type : VariableType)
      (arguments : Components)
  | operation (isKnown : Bool) (type : VariableType) (operands : Components)

/-- Expressions, of which some may be missing. -/
inductive Components where
  | nil
  | missing (rest : Components)
  | cons (component : Expression) (rest : Components)

end

namespace Components

/-- Which of the components are there. -/
def present : Components → List Bool
  | nil => []
  | missing rest => false :: rest.present
  | cons _ rest => true :: rest.present

def length (components : Components) : ℕ := components.present.length

def ofList (es : List Expression) : Components := es.foldr cons nil

end Components

namespace Expression

def type : Expression → VariableType
  | identifier v => v.type
  | tuple (.cons e .nil) => e.type
  | tuple components => .tuple components.length
  | indexAccess base _ => base.type.elementType
  | increment e => e.type
  | delete _ => .tuple 0
  | booleanOperation _ _ => .bool
  | assignment _ left _ => if left.type.isTuple then .tuple 0 else left.type
  | functionCall _ _ type _ => type
  | operation _ type _ => type

/-- `identifierToVariable`. -/
def toVariable : Expression → Option VariableDeclaration
  | identifier v => some v
  | _ => none

/-- `leftmostBase`. -/
def leftmostBase : Expression → Expression
  | indexAccess base _ => base.leftmostBase
  | e => e

/-- Whether the checker has a symbolic value for the expression once it has visited it. -/
def isKnown : Expression → Bool
  | identifier v =>
    match v.type with
    | .function _ returnParameters => returnParameters = 1
    | t => t.isSupported
  | tuple (.cons e .nil) => e.type.isSupported
  | tuple _ => true
  | indexAccess _ _ => true
  | increment (identifier _) | increment (indexAccess _ _) => true
  | increment _ | delete _ => false
  | booleanOperation _ _ => true
  | assignment operator left right =>
    operator ≠ .other && left.type.isSupported && !right.type.isTuple
  | functionCall .. => true
  | operation isKnown .. => isKnown

end Expression

/-! ### Statements and callables -/

mutual

/-- The parts of a loop with a header that are missing are not visited. -/
inductive Statement where
  | block (statements : Statements)
  | expressionStatement (expression : Expression)
  | variableDeclarationStatement (declarations : List (Option VariableDeclaration))
      (initialValue : Option Expression)
  | ifStatement (condition : Expression) (trueStatement : Statement)
  | ifElseStatement (condition : Expression) (trueStatement falseStatement : Statement)
  | whileStatement (isDoWhile : Bool) (condition : Expression) (body : Statement)
  | forStatement (initializationExpression : Statements)
      (condition loopExpression : Option Expression) (body : Statement)
  | «return» (expression : Option Expression)
  | placeholder
  | other

inductive Statements where
  | nil
  | cons (statement : Statement) (rest : Statements)

end

mutual

/-- The variables that the statement declares. -/
def Statement.declared : Statement → List VariableDeclaration
  | .block ss => ss.declared
  | .variableDeclarationStatement declarations _ => declarations.reduceOption
  | .ifStatement _ s => s.declared
  | .ifElseStatement _ s t => s.declared ++ t.declared
  | .whileStatement _ _ s => s.declared
  | .forStatement init _ _ s => init.declared ++ s.declared
  | _ => []

def Statements.declared : Statements → List VariableDeclaration
  | .nil => []
  | .cons s ss => s.declared ++ ss.declared

/-- A placeholder; there is none in the body of a function. -/
def Statement.hasPlaceholder : Statement → Bool
  | .block ss => ss.hasPlaceholder
  | .ifStatement _ s => s.hasPlaceholder
  | .ifElseStatement _ s t => s.hasPlaceholder || t.hasPlaceholder
  | .whileStatement _ _ s => s.hasPlaceholder
  | .forStatement init _ _ s => init.hasPlaceholder || s.hasPlaceholder
  | .placeholder => true
  | _ => false

def Statements.hasPlaceholder : Statements → Bool
  | .nil => false
  | .cons s ss => s.hasPlaceholder || ss.hasPlaceholder

end

structure ModifierDefinition where
  id : ℕ
  parameters : List VariableDeclaration
  localVariables : List VariableDeclaration
  body : Statement

structure ModifierInvocation where
  definition : ModifierDefinition
  arguments : List Expression

/-- A function; without a body it is not implemented. -/
structure FunctionDefinition where
  id : ℕ
  parameters : List VariableDeclaration
  returnParameters : List VariableDeclaration
  localVariables : List VariableDeclaration
  modifiers : List ModifierInvocation
  body : Option {s : Statement // s.hasPlaceholder = false}

/-- The functions that calls can run. -/
structure Program where
  functions : List FunctionDefinition

namespace Program

def function? (p : Program) (id : ℕ) : Option FunctionDefinition :=
  p.functions.find? (·.id = id)

/-- How many functions are not on the stack. -/
def unvisited (p : Program) (stack : List ℕ) : ℕ :=
  (p.functions.filter fun f => f.id ∉ stack).length

lemma unvisited_lt {p : Program} {stack : List ℕ} {id : ℕ} {f : FunctionDefinition}
    (hid : id ∉ stack) (hf : p.function? id = some f) :
    p.unvisited (id :: stack) < p.unvisited stack := by
  have hmem : f ∈ p.functions := mem_of_find?_eq_some hf
  have heq : f.id = id := by simpa using find?_some hf
  have hsub (g : FunctionDefinition) :
      decide (g.id ∉ id :: stack) = (decide (g.id ≠ id) && decide (g.id ∉ stack)) := by
    rw [← Bool.decide_and, decide_eq_decide, mem_cons, not_or]
  unfold unvisited
  simp only [hsub, ← filter_filter]
  refine Nat.lt_of_le_of_ne (length_filter_le _ _) fun hlen => ?_
  have hall := length_filter_eq_length_iff.mp hlen f
    (mem_filter.mpr ⟨hmem, by simpa [heq] using hid⟩)
  simp [heq] at hall

end Program

end Polynomial.SMTChecker
