import Polc.Formal.VariableUsage
import Polc.Semantics.Versions

/-!
# The indices that the SMT checker gives to variables

`SMTChecker` without the values: what a visit does to the indices of the variables. It has no result
where an assertion about indices or about the components of tuples fails. The components of a call
that is not inlined because it is recursive are taken to be empty, also if another visit has set
them.
-/

namespace Polynomial.SMTChecker

open Semantics Semantics.Update

/-- What a visit needs of the callables around the node: the last of them on the stack, the meaning
of a call and of a placeholder, how many components the result of a call has, and what
`VariableUsage` finds there. -/
structure Scope (α : Type) where
  lastCall : Callable
  returnParameters : List VariableDeclaration
  call : ℕ → α
  components : ℕ → ℕ
  placeholder : α
  usage : Usage

variable {α : Type}

/-- What happens to the indices. -/
abbrev IndexUpdate := Update VariableDeclaration

/-! ### Writes -/

/-- The variable of an element gets a new index, and all that may be aliases of it do. -/
def arrayIndexAssignment : Expression → IndexUpdate
  | .identifier v => andThen (reset v.mayAlias) (newValue v)
  | .indexAccess base _ => base.leftmostBase.toVariable.elim skip newValue
  | _ => skip

def increase (e : Expression) : IndexUpdate :=
  if e.type.isInteger then
    match e with
    | .identifier v => newValue v
    | .indexAccess base _ => arrayIndexAssignment base
    | _ => skip
  else fail

def deletion : Expression → IndexUpdate
  | .identifier v => newValue v
  | .indexAccess base _ => arrayIndexAssignment base
  | e => if e.isKnown then skip else fail

mutual

/-- `assignment` of as many values as there are on the right. -/
def Expression.assign (rightArguments : ℕ) : Expression → IndexUpdate
  | .identifier v =>
    if !v.type.isSupported then skip else if rightArguments = 1 then newValue v else fail
  | .indexAccess base index =>
    if !(Expression.indexAccess base index).type.isSupported then skip
    else if rightArguments = 1 then arrayIndexAssignment base else fail
  | .tuple components =>
    if !(Expression.tuple components).type.isSupported || rightArguments = 0 then skip
    else if rightArguments = components.length then components.assign else fail
  | _ => skip

def Components.assign : Components → IndexUpdate
  | .nil => skip
  | .missing rest => rest.assign
  | .cons e rest => andThen (e.assign 1) rest.assign

end

/-- Which components the value of an expression of tuple type has. -/
def Expression.components (s : Scope α) : Expression → List Bool
  | .tuple components => components.present
  | .functionCall _ (.inlined g) _ _ => List.replicate (s.components g) true
  | _ => []

/-- `endVisit(Assignment)`. -/
def assignment (s : Scope α) (operator : AssignmentOperator) (left right : Expression) :
    IndexUpdate :=
  if operator = .other then skip
  else if !(Expression.assignment operator left right).type.isSupported then
    left.toVariable.elim skip newValue
  else if right.type.isTuple then
    if (right.components s).all id then left.assign (right.components s).length else fail
  else left.assign 1

/-- The values for which there is a component. -/
def selected (components : List Bool) (xs : List α) : List α :=
  ((components.zip xs).filter (·.1)).map (·.2)

/-- `endVisit(VariableDeclarationStatement)`. -/
def declare (s : Scope α) (declarations : List (Option VariableDeclaration)) :
    Option Expression → IndexUpdate
  | none => skip
  | some e =>
    match declarations with
    | [v] => newValuesIfKnown v.toList
    | _ =>
      if !e.type.isTuple then fail
      else if e.components s = [] then skip
      else if (e.components s).length = declarations.length then
        newValuesIfKnown (selected (e.components s) declarations).reduceOption
      else fail

/-- `endVisit(Return)`. -/
def returnValue (s : Scope α) (e : Expression) : IndexUpdate :=
  if e.isKnown then
    match s.returnParameters, e with
    | [], _ => skip
    | [v], _ => newValue v
    | vs, .tuple components =>
      if components.length = vs.length then newValues (selected components.present vs) else fail
    | _, _ => fail
  else skip

/-- A tuple gets as many components as its type has. -/
def setComponents (components : Components) : IndexUpdate :=
  match (Expression.tuple components).type with
  | .tuple n => if components.length = n then skip else fail
  | _ => skip

/-- `endVisit(FunctionCall)`. -/
def Callee.visit (s : Scope IndexUpdate) : Callee → IndexUpdate
  | .inlined g => s.call g
  | .external =>
    andThen (reset (·.isStateVariable)) (reset (·.type.isReferenceOrMapping))
  | .other => skip

mutual

def Expression.visit (s : Scope IndexUpdate) : Expression → IndexUpdate
  | .identifier _ => skip
  | .tuple components => andThen (components.visit s) (setComponents components)
  | .indexAccess base index => andThen (base.visit s) (index.visit s)
  | .increment e => andThen (e.visit s) (increase e)
  | .delete e => andThen (e.visit s) (deletion e)
  | .booleanOperation left right =>
    optional (left.visit s) (right.visit s) (touched s.lastCall (right.checkedIdentifiers s.usage))
  | .assignment operator left right =>
    andThen (andThen (left.visit s) (right.visit s)) (SMTChecker.assignment s operator left right)
  | .functionCall e callee _ arguments =>
    andThen (andThen (e.visit s) (arguments.visit s)) (callee.visit s)
  | .operation _ _ operands => operands.visit s

def Components.visit (s : Scope IndexUpdate) : Components → IndexUpdate
  | .nil => skip
  | .missing rest => rest.visit s
  | .cons e rest => andThen (e.visit s) (rest.visit s)

end

def visitOptional (s : Scope IndexUpdate) (e : Option Expression) : IndexUpdate :=
  e.elim skip (·.visit s)

mutual

def Statement.visit (s : Scope IndexUpdate) : Statement → IndexUpdate
  | .block ss => ss.visit s
  | .expressionStatement e => e.visit s
  | .variableDeclarationStatement declarations initialValue =>
    andThen (visitOptional s initialValue) (declare s declarations initialValue)
  | .ifStatement condition trueStatement =>
    branches (condition.visit s) (trueStatement.visit s) skip
      (touched s.lastCall (trueStatement.checkedIdentifiers s.usage))
  | .ifElseStatement condition trueStatement falseStatement =>
    branches (condition.visit s) (trueStatement.visit s) (falseStatement.visit s)
      (touched s.lastCall (trueStatement.checkedIdentifiers s.usage ++
        falseStatement.checkedIdentifiers s.usage))
  | .whileStatement false condition body =>
    whileLoop (condition.visit s) (body.visit s)
      (touched s.lastCall (condition.checkedIdentifiers s.usage ++ body.checkedIdentifiers s.usage))
  | .whileStatement true condition body =>
    doWhileLoop (condition.visit s) (body.visit s)
      (touched s.lastCall (condition.checkedIdentifiers s.usage ++ body.checkedIdentifiers s.usage))
  | .forStatement init condition loopExpression body =>
    andThen (init.visit s)
      (forLoop (visitOptional s condition) (body.visit s) (visitOptional s loopExpression)
        (touched s.lastCall (optionalCheckedIdentifiers s.usage condition ++
          (optionalCheckedIdentifiers s.usage loopExpression ++ body.checkedIdentifiers s.usage))))
  | .return e => andThen (visitOptional s e) (e.elim skip (returnValue s))
  | .placeholder => s.placeholder
  | .other => skip

def Statements.visit (s : Scope IndexUpdate) : Statements → IndexUpdate
  | .nil => skip
  | .cons statement rest => andThen (statement.visit s) (rest.visit s)

end

/-! ### Functions and modifiers -/

/-- What is known of the functions that can be called. -/
structure Calls (α : Type) where
  call : ℕ → α
  components : ℕ → ℕ
  identifiers : ℕ → List VariableDeclaration

/-- `initializeFunctionCallParameters`. -/
def initializeParameters (vs : List VariableDeclaration) : IndexUpdate :=
  initializeVariables (·.type.isSupportedDeclaration) vs

def FunctionDefinition.variables (f : FunctionDefinition) : List VariableDeclaration :=
  f.parameters ++ f.localVariables ++ f.returnParameters

def ModifierDefinition.variables (m : ModifierDefinition) : List VariableDeclaration :=
  m.parameters ++ m.localVariables

def FunctionDefinition.scope (c : Calls α) (placeholder : α) (f : FunctionDefinition) :
    Scope α where
  lastCall := .function f.id
  returnParameters := f.returnParameters
  call := c.call
  components := c.components
  placeholder := placeholder
  usage := f.usage c.identifiers

def ModifierDefinition.scope (c : Calls α) (f : FunctionDefinition) (placeholder : α)
    (m : ModifierDefinition) : Scope α where
  lastCall := .modifier m.id
  returnParameters := []
  call := c.call
  components := c.components
  placeholder := placeholder
  usage := f.usage c.identifiers

/-- `visitFunctionOrModifier`, with the modifiers that are still to be visited; no placeholder is
reached in the body of a function. -/
def FunctionDefinition.visitModifiers (c : Calls IndexUpdate)
    (f : FunctionDefinition) : List ModifierInvocation → IndexUpdate
  | [] => f.body.elim skip fun body => body.val.visit (f.scope c skip)
  | m :: ms =>
    andThen ((Components.ofList m.arguments).visit (f.scope c skip))
      (andThen (initializeParameters m.definition.variables)
        (m.definition.body.visit (m.definition.scope c f (f.visitModifiers c ms))))

namespace Program

/-- The components of the result of a call; there are none if the function is on the stack. -/
def components (p : Program) (stack : List ℕ) (g : ℕ) : ℕ :=
  match p.function? g with
  | none => 0
  | some f =>
    if g ∉ stack ∧ 1 < f.returnParameters.length then f.returnParameters.length else 0

/-- `inlineFunctionCall`. -/
def inlineFunctionCall (p : Program) (stack : List ℕ) (g : ℕ) : IndexUpdate :=
  if _hid : g ∈ stack then skip
  else
    match _hf : p.function? g with
    | none => skip
    | some f =>
      andThen (initializeParameters f.variables)
        (f.visitModifiers
          ⟨fun h => p.inlineFunctionCall (g :: stack) h, p.components (g :: stack),
            p.calledIdentifiers (g :: stack)⟩ f.modifiers)
termination_by p.unvisited stack
decreasing_by exact Program.unvisited_lt _hid _hf

/-- The functions that can be called when those of `stack` have been. -/
def calls (p : Program) (stack : List ℕ) : Calls IndexUpdate where
  call := p.inlineFunctionCall stack
  components := p.components stack
  identifiers := p.calledIdentifiers stack

section

variable {p : Program} {stack : List ℕ} {g : ℕ}

lemma inlineFunctionCall_of_mem (hid : g ∈ stack) : p.inlineFunctionCall stack g = skip := by
  rw [inlineFunctionCall, dif_pos hid]

lemma inlineFunctionCall_of_none (hid : g ∉ stack) (hf : p.function? g = none) :
    p.inlineFunctionCall stack g = skip := by
  rw [inlineFunctionCall, dif_neg hid]
  split
  · rfl
  · rename_i hsome
    rw [hf] at hsome
    cases hsome

lemma inlineFunctionCall_of_some {f : FunctionDefinition} (hid : g ∉ stack)
    (hf : p.function? g = some f) :
    p.inlineFunctionCall stack g =
      andThen (initializeParameters f.variables)
        (f.visitModifiers (p.calls (g :: stack)) f.modifiers) := by
  rw [inlineFunctionCall, dif_neg hid]
  split
  · rename_i hnone
    rw [hf] at hnone
    cases hnone
  · rename_i hsome
    rw [hf] at hsome
    cases hsome
    rfl

end

end Program

/-- Where a node is: in the body of a function, or in that of a modifier of a function of which
other modifiers remain. Below are the callables from which the function was called. -/
inductive Position where
  | function (f : FunctionDefinition) (below : List Callable)
  | modifier (m : ModifierDefinition) (remaining : List ModifierInvocation) (f : FunctionDefinition)
      (below : List Callable)

namespace Position

def callStack : Position → List Callable
  | function f below => .function f.id :: below
  | modifier m _ f below => .modifier m.id :: .function f.id :: below

/-- The functions on the stack. -/
def functions (position : Position) : List ℕ :=
  position.callStack.filterMap fun
    | .function id => some id
    | .modifier _ => none

def scope (p : Program) (position : Position) : Scope IndexUpdate :=
  match position with
  | function f _ => f.scope (p.calls position.functions) skip
  | modifier m remaining f _ =>
    m.scope (p.calls position.functions) f (f.visitModifiers (p.calls position.functions) remaining)

/-- The last callable on the stack. -/
def lastCall : Position → Callable
  | function f _ => .function f.id
  | modifier m _ _ _ => .modifier m.id

lemma scope_lastCall (p : Program) (position : Position) :
    (position.scope p).lastCall = position.lastCall := by
  cases position <;> rfl

end Position

/-- What the checker visits as a branch, a loop or a right operand. -/
inductive Node where
  | statement (statement : Statement)
  | expression (expression : Expression)

namespace Node

def declared : Node → List VariableDeclaration
  | statement s => s.declared
  | expression _ => []

def checkedIdentifiers (u : Usage) : Node → List VariableDeclaration
  | statement s => s.checkedIdentifiers u
  | expression e => e.checkedIdentifiers u

def visit (s : Scope IndexUpdate) : Node → IndexUpdate
  | statement node => node.visit s
  | expression node => node.visit s

end Node

/-- `touchedVariables`. -/
def touchedVariables (p : Program) (position : Position) (node : Node) :
    List VariableDeclaration :=
  touched (position.scope p).lastCall (node.checkedIdentifiers (position.scope p).usage)

end Polynomial.SMTChecker
