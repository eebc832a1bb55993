import Mathlib.Data.List.Basic
import Mathlib.Order.Lattice
import Mathlib.Order.Nat

/-!
# Contracts and their functions

What `libpolynomial/ast/AST.h` keeps of a contract for the checks of inheritance and for the lookup
of functions and constructors. Types and expressions are left open. A definition has an identifier,
as a node of the tree has; pointers to definitions are definitions here.
-/

namespace Polynomial

/-- What `visibility()` returns, which has replaced the default one. -/
inductive Visibility where
  | «private»
  | internal
  | «public»
  | external
  deriving DecidableEq, Repr

inductive StateMutability where
  | pure
  | view
  | nonPayable
  | payable
  deriving DecidableEq, Repr

/-- The order of the enumeration, in which what comes first promises more. -/
def StateMutability.toNat : StateMutability → ℕ
  | .pure => 0
  | .view => 1
  | .nonPayable => 2
  | .payable => 3

instance : LinearOrder StateMutability :=
  LinearOrder.lift' StateMutability.toNat fun m n h => by cases m <;> cases n <;> trivial

instance : OrderBot StateMutability where
  bot := .pure
  bot_le m := by cases m <;> decide

lemma StateMutability.pure_le (m : StateMutability) : .pure ≤ m := bot_le

lemma StateMutability.le_pure_iff {m : StateMutability} : m ≤ .pure ↔ m = .pure := le_bot_iff

inductive DataLocation where
  | storage
  | callData
  | memory
  deriving DecidableEq, Repr

/-- The type of a parameter, of which only the data location of references is of interest. -/
inductive ParameterType (T : Type*) where
  | value (type : T)
  | reference (type : T) (location : DataLocation)
  deriving DecidableEq, Repr

namespace ParameterType

variable {T : Type*}

def isCallData : ParameterType T → Bool
  | .reference _ .callData => true
  | _ => false

/-- References into calldata become references into memory. -/
def asCallable : ParameterType T → ParameterType T
  | .reference type .callData => .reference type .memory
  | p => p

lemma asCallable_of_not_isCallData {p : ParameterType T} (h : p.isCallData = false) :
    p.asCallable = p := by
  match p with
  | .value _ | .reference _ .storage | .reference _ .memory => rfl
  | .reference _ .callData => cases h

end ParameterType

/-- An invocation at a function: of a modifier, or of the constructor of a base contract. -/
inductive ModifierInvocation (E : Type*) where
  | modifier (name : String) (arguments : Option (List E))
  | baseConstructor (contract : ℕ) (arguments : Option (List E))
  deriving DecidableEq, Repr

/-- The base contract whose constructor is invoked. -/
def ModifierInvocation.contract {E : Type*} : ModifierInvocation E → Option ℕ
  | .modifier _ _ => none
  | .baseConstructor contract _ => some contract

structure ModifierDefinition (T : Type*) where
  id : ℕ
  name : String
  parameterTypes : List T
  deriving DecidableEq, Repr

/-- A function or a constructor. Only external functions take references into calldata. -/
structure FunctionDefinition (T E : Type*) where
  id : ℕ
  name : String
  isConstructor : Bool
  visibility : Visibility
  stateMutability : StateMutability
  parameters : List (ParameterType T)
  returnParameters : List (ParameterType T)
  modifiers : List (ModifierInvocation E)
  allowedDataLocations : visibility ≠ .external → parameters.all (!·.isCallData) = true
  deriving DecidableEq

lemma allowedDataLocations_nil {T : Type*} {v : Visibility} :
    v ≠ .external → ([] : List (ParameterType T)).all (!·.isCallData) := fun _ => rfl

/-- A base contract, possibly with arguments for its constructor. -/
structure InheritanceSpecifier (E : Type*) where
  contract : ℕ
  arguments : Option (List E)
  deriving DecidableEq, Repr

inductive ContractKind where
  | interface
  | contract
  | library
  deriving DecidableEq, Repr

structure ContractDefinition (T E : Type*) where
  id : ℕ
  kind : ContractKind
  baseContracts : List (InheritanceSpecifier E)
  definedFunctions : List (FunctionDefinition T E)
  functionModifiers : List (ModifierDefinition T)
  deriving DecidableEq

namespace FunctionDefinition

variable {T E : Type*}

def isFallback (f : FunctionDefinition T E) : Bool := !f.isConstructor && f.name = ""

def isPayable (f : FunctionDefinition T E) : Bool := f.stateMutability = .payable

def isVisibleInContract (f : FunctionDefinition T E) : Bool :=
  f.visibility ≠ .external && !f.isConstructor && !f.isFallback

def isVisibleInDerivedContracts (f : FunctionDefinition T E) : Bool :=
  f.isVisibleInContract && (f.visibility = .internal || f.visibility = .public)

/-- The types of the parameters if the function is called from outside. -/
def callableParameters (f : FunctionDefinition T E) : List (ParameterType T) :=
  f.parameters.map (·.asCallable)

lemma callableParameters_of_ne_external {f : FunctionDefinition T E} (h : f.visibility ≠ .external) :
    f.callableParameters = f.parameters := by
  have hall := List.all_eq_true.mp (f.allowedDataLocations h)
  refine List.map_congr_left (fun p hp => ?_) |>.trans (List.map_id _)
  exact ParameterType.asCallable_of_not_isCallData (by simpa using hall p hp)

end FunctionDefinition

namespace ContractDefinition

variable {T E : Type*}

def isLibrary (c : ContractDefinition T E) : Bool := c.kind = .library

def constructor (c : ContractDefinition T E) : Option (FunctionDefinition T E) :=
  c.definedFunctions.find? (·.isConstructor)

end ContractDefinition

end Polynomial
