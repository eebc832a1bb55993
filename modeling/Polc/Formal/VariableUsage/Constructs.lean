import Polc.Formal.SMTChecker.Indices

/-!
# The constructs that write variables

The places of a node where `SMTChecker` gives variables new indices or `VariableUsage` finds
variables, each with the variables of the one and those of the other. A part that is visited as a
branch or a loop is one such place, as is a call with all that it runs: of what happens inside,
only the variables that are merged have other indices afterwards.
-/

namespace Polynomial.SMTChecker

open Semantics

/-- A set of variables. -/
abbrev VariableSet := VariableDeclaration → Bool

/-- A place where variables are written, or found by `VariableUsage`. -/
structure Construct where
  writes : VariableSet
  checked : List VariableDeclaration

/-- The variables that one of the constructs writes. -/
def written (cs : List Construct) : VariableSet := fun v => cs.any (·.writes v)

/-- The variables that are found at one of the constructs. -/
def checked (cs : List Construct) : List VariableDeclaration := cs.flatMap (·.checked)

def VariableSet.ofList (vs : List VariableDeclaration) : VariableSet := fun v => v ∈ vs

def arrayIndexAssignmentWrites : Expression → VariableSet
  | .identifier v => fun w => v.mayAlias w || w = v
  | .indexAccess base _ => .ofList base.leftmostBase.toVariable.toList
  | _ => fun _ => false

/-- What is written when the expression is increased, decreased or deleted. -/
def operandWrites : Expression → VariableSet
  | .identifier v => fun w => w = v
  | .indexAccess base _ => arrayIndexAssignmentWrites base
  | _ => fun _ => false

mutual

/-- What is written when values are assigned: nothing where the type is not supported, and nothing
without the values. -/
def Expression.assignWrites (rightArguments : ℕ) : Expression → VariableSet
  | .identifier v => fun w => v.type.isSupported && w = v
  | .indexAccess base index => fun w =>
    (Expression.indexAccess base index).type.isSupported && arrayIndexAssignmentWrites base w
  | .tuple components => fun w =>
    (Expression.tuple components).type.isSupported && rightArguments ≠ 0 &&
      components.assignWrites w
  | _ => fun _ => false

def Components.assignWrites : Components → VariableSet
  | .nil => fun _ => false
  | .missing rest => rest.assignWrites
  | .cons e rest => fun w => e.assignWrites 1 w || rest.assignWrites w

end

variable {α : Type}

def assignmentWrites (s : Scope α) (operator : AssignmentOperator) (left right : Expression) :
    VariableSet :=
  if operator = .other then fun _ => false
  else if !(Expression.assignment operator left right).type.isSupported then
    .ofList left.toVariable.toList
  else left.assignWrites (if right.type.isTuple then (right.components s).length else 1)

def declareWrites (s : Scope α) (declarations : List (Option VariableDeclaration)) :
    Option Expression → VariableSet
  | none => fun _ => false
  | some e =>
    match declarations with
    | [v] => .ofList v.toList
    | _ => .ofList (selected (e.components s) declarations).reduceOption

def returnWrites (s : Scope α) (e : Expression) : VariableSet :=
  if e.isKnown then
    match s.returnParameters, e with
    | [v], _ => .ofList [v]
    | vs, .tuple components => .ofList (selected components.present vs)
    | _, _ => fun _ => false
  else fun _ => false

def Callee.construct (s : Scope VariableSet) : Callee → Construct
  | .inlined g => ⟨s.call g, s.usage.call g⟩
  | .external => ⟨fun v => v.isStateVariable || v.type.isReferenceOrMapping, []⟩
  | .other => ⟨fun _ => false, []⟩

/-- Variables that are merged, after a part where the identifiers are checked. -/
def merged (s : Scope VariableSet) (merge part : List VariableDeclaration) : Construct where
  writes := .ofList (touched s.lastCall merge)
  checked := part

mutual

def Expression.constructs (s : Scope VariableSet) : Expression → List Construct
  | .identifier _ => []
  | .tuple components => components.constructs s
  | .indexAccess base index => base.constructs s ++ index.constructs s
  | .increment e => e.constructs s ++ [⟨operandWrites e, e.requestedLValues⟩]
  | .delete e => e.constructs s ++ [⟨operandWrites e, e.requestedLValues⟩]
  | .booleanOperation left right =>
    left.constructs s ++
      [merged s (right.checkedIdentifiers s.usage) (right.checkedIdentifiers s.usage)]
  | .assignment operator left right =>
    left.constructs s ++ right.constructs s ++
      [⟨assignmentWrites s operator left right, left.requestedLValues⟩]
  | .functionCall e callee _ arguments =>
    e.constructs s ++ arguments.constructs s ++ [callee.construct s]
  | .operation _ _ operands => operands.constructs s

def Components.constructs (s : Scope VariableSet) : Components → List Construct
  | .nil => []
  | .missing rest => rest.constructs s
  | .cons e rest => e.constructs s ++ rest.constructs s

end

def optionalConstructs (s : Scope VariableSet) (e : Option Expression) : List Construct :=
  e.elim [] (·.constructs s)

mutual

def Statement.constructs (s : Scope VariableSet) : Statement → List Construct
  | .block ss => ss.constructs s
  | .expressionStatement e => e.constructs s
  | .variableDeclarationStatement declarations initialValue =>
    optionalConstructs s initialValue ++ [⟨declareWrites s declarations initialValue, []⟩]
  | .ifStatement condition trueStatement =>
    condition.constructs s ++
      [merged s (trueStatement.checkedIdentifiers s.usage)
        (trueStatement.checkedIdentifiers s.usage)]
  | .ifElseStatement condition trueStatement falseStatement =>
    condition.constructs s ++
      [merged s
        (trueStatement.checkedIdentifiers s.usage ++ falseStatement.checkedIdentifiers s.usage)
        (trueStatement.checkedIdentifiers s.usage ++ falseStatement.checkedIdentifiers s.usage)]
  | .whileStatement false condition body =>
    condition.constructs s ++
      [merged s (condition.checkedIdentifiers s.usage ++ body.checkedIdentifiers s.usage)
        (body.checkedIdentifiers s.usage)]
  | .whileStatement true condition body =>
    [merged s (condition.checkedIdentifiers s.usage ++ body.checkedIdentifiers s.usage)
      (condition.checkedIdentifiers s.usage ++ body.checkedIdentifiers s.usage)]
  | .forStatement init condition loopExpression body =>
    init.constructs s ++ (optionalConstructs s condition ++
      [merged s
        (optionalCheckedIdentifiers s.usage condition ++
          (optionalCheckedIdentifiers s.usage loopExpression ++ body.checkedIdentifiers s.usage))
        (optionalCheckedIdentifiers s.usage loopExpression ++ body.checkedIdentifiers s.usage)])
  | .return e => optionalConstructs s e ++ [⟨e.elim (fun _ => false) (returnWrites s), []⟩]
  | .placeholder => [⟨s.placeholder, s.usage.placeholder⟩]
  | .other => []

def Statements.constructs (s : Scope VariableSet) : Statements → List Construct
  | .nil => []
  | .cons statement rest => statement.constructs s ++ rest.constructs s

end

/-! ### Functions and modifiers -/

/-- What the modifiers that remain write, and the body of the function. -/
def FunctionDefinition.modifierWrites (c : Calls VariableSet) (f : FunctionDefinition) :
    List ModifierInvocation → VariableSet
  | [] => f.body.elim (fun _ => false) fun body =>
    written (body.val.constructs (f.scope c fun _ => false))
  | m :: ms => fun v =>
    written ((Components.ofList m.arguments).constructs (f.scope c fun _ => false)) v ||
      decide (v ∈ m.definition.variables) ||
      written (m.definition.body.constructs (m.definition.scope c f (f.modifierWrites c ms))) v

namespace Program

/-- What a call writes: the variables of the function, and what it writes when it is visited. -/
def callWrites (p : Program) (stack : List ℕ) (g : ℕ) : VariableSet :=
  if _hid : g ∈ stack then fun _ => false
  else
    match _hf : p.function? g with
    | none => fun _ => false
    | some f => fun v =>
      decide (v ∈ f.variables) ||
        f.modifierWrites
          ⟨fun h => p.callWrites (g :: stack) h, p.components (g :: stack),
            p.calledIdentifiers (g :: stack)⟩ f.modifiers v
termination_by p.unvisited stack
decreasing_by exact Program.unvisited_lt _hid _hf

def writingCalls (p : Program) (stack : List ℕ) : Calls VariableSet where
  call := p.callWrites stack
  components := p.components stack
  identifiers := p.calledIdentifiers stack

section

variable {p : Program} {stack : List ℕ} {g : ℕ}

lemma callWrites_of_mem (hid : g ∈ stack) : p.callWrites stack g = fun _ => false := by
  rw [callWrites, dif_pos hid]

lemma callWrites_of_none (hid : g ∉ stack) (hf : p.function? g = none) :
    p.callWrites stack g = fun _ => false := by
  rw [callWrites, dif_neg hid]
  split
  · rfl
  · rename_i hsome
    rw [hf] at hsome
    cases hsome

lemma callWrites_of_some {f : FunctionDefinition} (hid : g ∉ stack)
    (hf : p.function? g = some f) :
    p.callWrites stack g = fun v =>
      decide (v ∈ f.variables) || f.modifierWrites (p.writingCalls (g :: stack)) f.modifiers v := by
  rw [callWrites, dif_neg hid]
  split
  · rename_i hnone
    rw [hf] at hnone
    cases hnone
  · rename_i hsome
    rw [hf] at hsome
    cases hsome
    rfl

end

end Program

def Position.writingScope (p : Program) (position : Position) : Scope VariableSet :=
  match position with
  | .function f _ => f.scope (p.writingCalls position.functions) fun _ => false
  | .modifier m remaining f _ =>
    m.scope (p.writingCalls position.functions) f
      (f.modifierWrites (p.writingCalls position.functions) remaining)

def Node.constructs (s : Scope VariableSet) : Node → List Construct
  | .statement node => node.constructs s
  | .expression node => node.constructs s

end Polynomial.SMTChecker
