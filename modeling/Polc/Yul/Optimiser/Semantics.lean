import Polc.Yul.Dialect

/-!
# Side effects and movability of code

The collectors of `libyul/optimiser/Semantics.cpp`. They look at the syntax only; what the
classes mean for executions is proved with the semantics.
-/

namespace Yul

open Sof

/-- What the collector finds out about a piece of code. -/
structure SideEffects where
  movable : Bool
  sideEffectFree : Bool
  sideEffectFreeIfNoMSize : Bool
  containsMSize : Bool
  deriving DecidableEq, Repr

namespace SideEffects

/-- Before anything is visited. -/
def none : SideEffects := ⟨true, true, true, false⟩

/-- The effects of two pieces of code together. -/
def combine (a b : SideEffects) : SideEffects where
  movable := a.movable && b.movable
  sideEffectFree := a.sideEffectFree && b.sideEffectFree
  sideEffectFreeIfNoMSize := a.sideEffectFreeIfNoMSize && b.sideEffectFreeIfNoMSize
  containsMSize := a.containsMSize || b.containsMSize

/-- Effects of the instruction itself, its arguments apart. -/
def ofInstruction (i : Instruction) : SideEffects where
  movable := SemanticInformation.movable i
  sideEffectFree := SemanticInformation.sideEffectFree i
  sideEffectFreeIfNoMSize := SemanticInformation.sideEffectFreeIfNoMSize i
  containsMSize := i = .msize

/-- Effects of a call; calls of user functions can do anything but count as `msize`. -/
def ofCall (dialect : Dialect) (name : YulString) : SideEffects :=
  match dialect.builtin name with
  | some f => ⟨f.movable, f.sideEffectFree, f.sideEffectFreeIfNoMSize, f.isMSize⟩
  | .none => ⟨false, false, false, false⟩

end SideEffects

mutual

/-- The effects of an expression. -/
def Expression.sideEffects (dialect : Dialect) : Expression → SideEffects
  | .functionalInstruction i args =>
    (argumentsSideEffects dialect args).combine (.ofInstruction i)
  | .functionCall f args => (argumentsSideEffects dialect args).combine (.ofCall dialect f)
  | .identifier _ | .literal _ => .none

def argumentsSideEffects (dialect : Dialect) : List Expression → SideEffects
  | [] => .none
  | e :: es => (argumentsSideEffects dialect es).combine (e.sideEffects dialect)

end

/-- `SideEffectsCollector::movable` and `MovableChecker::movable`. -/
def Expression.movable (dialect : Dialect) (e : Expression) : Bool :=
  (e.sideEffects dialect).movable

/-- `SideEffectsCollector::sideEffectFree`; with the permission to change the size of the active
memory a larger class. -/
def Expression.sideEffectFree (dialect : Dialect) (allowMSizeModification : Bool)
    (e : Expression) : Bool :=
  if allowMSizeModification then (e.sideEffects dialect).sideEffectFreeIfNoMSize
  else (e.sideEffects dialect).sideEffectFree

mutual

/-- The variables an expression refers to (`MovableChecker::referencedVariables`), once for each
reference. -/
def Expression.referencedVariables : Expression → List YulString
  | .functionalInstruction _ args => argumentsReferencedVariables args
  | .functionCall _ args => argumentsReferencedVariables args
  | .identifier x => [x]
  | .literal _ => []

def argumentsReferencedVariables : List Expression → List YulString
  | [] => []
  | e :: es => e.referencedVariables ++ argumentsReferencedVariables es

end

/-- What follows the execution of a statement, as far as that can be told. -/
inductive ControlFlow where
  | flowOut | «break» | «continue» | terminate
  deriving DecidableEq, Repr

namespace TerminationFinder

/-- The expression is a call of a builtin function that ends the execution. -/
def isTerminatingBuiltin (dialect : Dialect) : Expression → Bool
  | .functionalInstruction i _ => SemanticInformation.terminatesControlFlow i
  | .functionCall f _ =>
    ((dialect.builtin f).bind (·.instruction)).any SemanticInformation.terminatesControlFlow
  | _ => false

def controlFlowKind (dialect : Dialect) : Statement → ControlFlow
  | .expressionStatement e => if isTerminatingBuiltin dialect e then .terminate else .flowOut
  | .break => .break
  | .continue => .continue
  | _ => .flowOut

/-- The first statement that control flow does not pass, and where it is. -/
def firstUnconditionalControlFlowChange (dialect : Dialect) :
    List Statement → ControlFlow × Option Nat
  | [] => (.flowOut, none)
  | s :: ss =>
    if controlFlowKind dialect s ≠ .flowOut then (controlFlowKind dialect s, some 0)
    else
      let (kind, index) := firstUnconditionalControlFlowChange dialect ss
      (kind, index.map (· + 1))

end TerminationFinder

section

variable (dialect : Dialect) (i : Instruction) (f x : YulString) (l : Literal) (e : Expression)
  (es : List Expression)

@[simp] lemma Expression.movable_instruction :
    (functionalInstruction i es).movable dialect =
      ((argumentsSideEffects dialect es).movable && SemanticInformation.movable i) := rfl

@[simp] lemma Expression.movable_functionCall :
    (functionCall f es).movable dialect =
      ((argumentsSideEffects dialect es).movable && (SideEffects.ofCall dialect f).movable) := rfl

@[simp] lemma argumentsSideEffects_movable_cons :
    (argumentsSideEffects dialect (e :: es)).movable =
      ((argumentsSideEffects dialect es).movable && e.movable dialect) := rfl

@[simp] lemma Expression.referenced_identifier :
    (identifier x).referencedVariables = [x] := rfl

attribute [simp] argumentsReferencedVariables

end

end Yul
