import Polc.Formal.SMTChecker.Nodes

/-!
# Which variables a node touches

`VariableUsage`: the variables at the left of assignments, increments and deletions in a node and
in the functions that it calls.
-/

namespace Polynomial.SMTChecker

/-- What the traversal finds in the body of a function that is called, and at a placeholder. -/
structure Usage where
  call : ℕ → List VariableDeclaration
  placeholder : List VariableDeclaration

mutual

/-- The identifiers that are checked for an expression of which the lvalue is requested. -/
def Expression.requestedLValues : Expression → List VariableDeclaration
  | .identifier v => [v]
  | .indexAccess base _ => base.leftmostBase.toVariable.toList
  | .tuple components => components.requestedLValues
  | _ => []

def Components.requestedLValues : Components → List VariableDeclaration
  | .nil => []
  | .missing rest => rest.requestedLValues
  | .cons e rest => e.requestedLValues ++ rest.requestedLValues

end

def Callee.checkedIdentifiers (u : Usage) : Callee → List VariableDeclaration
  | .inlined g => u.call g
  | .external | .other => []

mutual

/-- The identifiers that are checked in an expression, with repetitions. -/
def Expression.checkedIdentifiers (u : Usage) : Expression → List VariableDeclaration
  | .identifier _ => []
  | .tuple components => components.checkedIdentifiers u
  | .indexAccess base index => base.checkedIdentifiers u ++ index.checkedIdentifiers u
  | .increment e | .delete e => e.checkedIdentifiers u ++ e.requestedLValues
  | .booleanOperation left right => left.checkedIdentifiers u ++ right.checkedIdentifiers u
  | .assignment _ left right =>
    left.checkedIdentifiers u ++ right.checkedIdentifiers u ++ left.requestedLValues
  | .functionCall e callee _ arguments =>
    e.checkedIdentifiers u ++ arguments.checkedIdentifiers u ++ callee.checkedIdentifiers u
  | .operation _ _ operands => operands.checkedIdentifiers u

def Components.checkedIdentifiers (u : Usage) : Components → List VariableDeclaration
  | .nil => []
  | .missing rest => rest.checkedIdentifiers u
  | .cons e rest => e.checkedIdentifiers u ++ rest.checkedIdentifiers u

end

/-- As for the expression, if there is one. -/
def optionalCheckedIdentifiers (u : Usage) (e : Option Expression) : List VariableDeclaration :=
  e.elim [] (·.checkedIdentifiers u)

mutual

def Statement.checkedIdentifiers (u : Usage) : Statement → List VariableDeclaration
  | .block ss => ss.checkedIdentifiers u
  | .expressionStatement e => e.checkedIdentifiers u
  | .variableDeclarationStatement _ initialValue => optionalCheckedIdentifiers u initialValue
  | .ifStatement c s => c.checkedIdentifiers u ++ s.checkedIdentifiers u
  | .ifElseStatement c s t =>
    c.checkedIdentifiers u ++ (s.checkedIdentifiers u ++ t.checkedIdentifiers u)
  | .whileStatement _ c s => c.checkedIdentifiers u ++ s.checkedIdentifiers u
  | .forStatement init c next s =>
    init.checkedIdentifiers u ++ (optionalCheckedIdentifiers u c ++
      (optionalCheckedIdentifiers u next ++ s.checkedIdentifiers u))
  | .return e => optionalCheckedIdentifiers u e
  | .placeholder => u.placeholder
  | .other => []

def Statements.checkedIdentifiers (u : Usage) : Statements → List VariableDeclaration
  | .nil => []
  | .cons s ss => s.checkedIdentifiers u ++ ss.checkedIdentifiers u

end

/-- No placeholder is reached in the body of a function. -/
def FunctionDefinition.bodyIdentifiers (call : ℕ → List VariableDeclaration)
    (f : FunctionDefinition) : List VariableDeclaration :=
  f.body.elim [] fun s => s.val.checkedIdentifiers ⟨call, []⟩

/-- In a modifier, a placeholder is for the body of the function. -/
def FunctionDefinition.usage (call : ℕ → List VariableDeclaration) (f : FunctionDefinition) :
    Usage where
  call := call
  placeholder := f.bodyIdentifiers call

/-- What is checked for a modifier, which has been visited after its arguments. -/
def FunctionDefinition.invocationIdentifiers (call : ℕ → List VariableDeclaration)
    (f : FunctionDefinition) (m : ModifierInvocation) : List VariableDeclaration :=
  (Components.ofList m.arguments).checkedIdentifiers (f.usage call) ++
    m.definition.body.checkedIdentifiers (f.usage call)

def FunctionDefinition.checkedIdentifiers (call : ℕ → List VariableDeclaration)
    (f : FunctionDefinition) : List VariableDeclaration :=
  f.modifiers.flatMap (f.invocationIdentifiers call) ++ f.bodyIdentifiers call

/-- What is checked in a function that is called, unless it is on the stack. -/
def Program.calledIdentifiers (p : Program) (stack : List ℕ) (g : ℕ) : List VariableDeclaration :=
  if _hid : g ∈ stack then []
  else
    match _hf : p.function? g with
    | none => []
    | some f => f.checkedIdentifiers fun h => p.calledIdentifiers (g :: stack) h
termination_by p.unvisited stack
decreasing_by exact Program.unvisited_lt _hid _hf

/-- The variable counts if it is a state variable or one of the last callable on the stack. -/
def VariableDeclaration.isCounted (lastCall : Callable) (v : VariableDeclaration) : Bool :=
  !v.isLocalVariable || v.functionOrModifierDefinition = some lastCall

/-- The set of variables to which the identifiers refer. -/
def touched (lastCall : Callable) (identifiers : List VariableDeclaration) :
    List VariableDeclaration :=
  (identifiers.filter (·.isCounted lastCall)).dedup

@[simp]
lemma mem_touched {lastCall : Callable} {vs : List VariableDeclaration} {v : VariableDeclaration} :
    v ∈ touched lastCall vs ↔ v ∈ vs ∧ v.isCounted lastCall := by
  rw [touched, List.mem_dedup, List.mem_filter]

end Polynomial.SMTChecker
