import Polc.Formal.VariableUsage.Constructs

/-!
# Touched variables and indices

A visit gives new indices to the variables that the constructs of the node write, and
`VariableUsage` finds those that are checked at them. Hence both agree exactly if no construct
writes a variable that is not found, or finds one that is not written, without another construct to
make up for it.
-/

namespace Polynomial.SMTChecker

open Semantics List Bool

/-! ### Sets of variables -/

@[simp]
lemma written_nil (v : VariableDeclaration) : written [] v = false := rfl

@[simp]
lemma written_cons (c : Construct) (cs : List Construct) (v : VariableDeclaration) :
    written (c :: cs) v = (c.writes v || written cs v) := rfl

@[simp]
lemma written_append (cs ds : List Construct) (v : VariableDeclaration) :
    written (cs ++ ds) v = (written cs v || written ds v) := by
  simp [written]

@[simp]
lemma checked_nil : checked [] = [] := rfl

@[simp]
lemma checked_cons (c : Construct) (cs : List Construct) :
    checked (c :: cs) = c.checked ++ checked cs := rfl

@[simp]
lemma checked_append (cs ds : List Construct) : checked (cs ++ ds) = checked cs ++ checked ds := by
  simp [checked]

@[simp]
lemma VariableSet.ofList_apply (vs : List VariableDeclaration) (v : VariableDeclaration) :
    VariableSet.ofList vs v = decide (v ∈ vs) := rfl

/-- The update gives new indices to the variables of the set. -/
def UpdatesAs (f : IndexUpdate) (S : VariableSet) : Prop := Update.Writes f {v | S v = true}

namespace UpdatesAs

variable {f g : IndexUpdate} {S T U : VariableSet} {vs : List VariableDeclaration}

lemma skip : UpdatesAs Update.skip fun _ => false := Update.Writes.skip.congr (by simp)

lemma fail : UpdatesAs Update.fail S := Update.Writes.fail

lemma andThen (hf : UpdatesAs f S) (hg : UpdatesAs g T) :
    UpdatesAs (Update.andThen f g) fun v => S v || T v :=
  (Update.Writes.andThen hf hg).congr (by ext; simp)

lemma congr (hf : UpdatesAs f S) (hS : ∀ v, S v = T v) : UpdatesAs f T := by
  obtain rfl : S = T := by
    funext v
    exact hS v
  exact hf

lemma reset (kind : VariableSet) : UpdatesAs (Update.reset kind) kind := Update.Writes.reset kind

lemma newValue (v : VariableDeclaration) : UpdatesAs (Update.newValue v) fun w => w = v :=
  (Update.Writes.newValue v).congr (by ext; simp)

lemma newValues (vs : List VariableDeclaration) : UpdatesAs (Update.newValues vs) (.ofList vs) :=
  (Update.Writes.newValues vs).congr (by ext; simp)

lemma newValuesIfKnown (vs : List VariableDeclaration) :
    UpdatesAs (Update.newValuesIfKnown vs) (.ofList vs) :=
  (Update.Writes.newValuesIfKnown vs).congr (by ext; simp)

lemma initializeParameters (vs : List VariableDeclaration) :
    UpdatesAs (initializeParameters vs) fun v => v ∈ vs :=
  (Update.Writes.initializeVariables _ vs).congr (by ext; simp)

lemma branches {c : IndexUpdate} (hc : UpdatesAs c U) (ht : UpdatesAs f S) (hf : UpdatesAs g T) :
    UpdatesAs (Update.branches c f g vs) fun v => U v || decide (v ∈ vs) :=
  (Update.Writes.branches hc ht hf).congr (by ext; simp)

lemma optional (hf : UpdatesAs f S) (hg : UpdatesAs g T) :
    UpdatesAs (Update.optional f g vs) fun v => S v || decide (v ∈ vs) :=
  (Update.Writes.optional hf hg).congr (by ext; simp)

lemma whileLoop (hf : UpdatesAs f S) (hg : UpdatesAs g T) :
    UpdatesAs (Update.whileLoop f g vs) fun v => S v || decide (v ∈ vs) :=
  (Update.Writes.whileLoop hf hg).congr (by ext; simp)

lemma doWhileLoop (hf : UpdatesAs f S) (hg : UpdatesAs g T) :
    UpdatesAs (Update.doWhileLoop f g vs) fun v => v ∈ vs :=
  (Update.Writes.doWhileLoop hf hg).congr (by ext; simp)

lemma forLoop {next : IndexUpdate} (hf : UpdatesAs f S) (hg : UpdatesAs g T)
    (hn : UpdatesAs next U) :
    UpdatesAs (Update.forLoop f g next vs) fun v => S v || decide (v ∈ vs) :=
  (Update.Writes.forLoop hf hg hn).congr (by ext; simp)

end UpdatesAs

/-! ### Writes -/

private lemma updatesAs_toVariable (e : Expression) :
    UpdatesAs (e.toVariable.elim Update.skip Update.newValue) (.ofList e.toVariable.toList) := by
  cases e.toVariable with
  | none => exact UpdatesAs.skip.congr (by simp)
  | some v => exact (UpdatesAs.newValue v).congr (by simp)

lemma updatesAs_arrayIndexAssignment (e : Expression) :
    UpdatesAs (arrayIndexAssignment e) (arrayIndexAssignmentWrites e) := by
  cases e with
  | identifier v => exact (UpdatesAs.reset v.mayAlias).andThen (UpdatesAs.newValue v)
  | indexAccess base _ => exact updatesAs_toVariable base.leftmostBase
  | _ => exact UpdatesAs.skip

lemma updatesAs_increase (e : Expression) : UpdatesAs (increase e) (operandWrites e) := by
  unfold increase
  split
  · cases e with
    | identifier v => exact UpdatesAs.newValue v
    | indexAccess base _ => exact updatesAs_arrayIndexAssignment base
    | _ => exact UpdatesAs.skip
  · exact UpdatesAs.fail

lemma updatesAs_deletion (e : Expression) : UpdatesAs (deletion e) (operandWrites e) := by
  cases e with
  | identifier v => exact UpdatesAs.newValue v
  | indexAccess base _ => exact updatesAs_arrayIndexAssignment base
  | _ =>
    simp only [deletion]
    split
    · exact UpdatesAs.skip
    · exact UpdatesAs.fail

mutual

lemma Expression.updatesAs_assign (n : ℕ) : ∀ e : Expression,
    UpdatesAs (e.assign n) (e.assignWrites n)
  | .identifier v => by
    rw [Expression.assign, Expression.assignWrites]
    by_cases htype : v.type.isSupported = true
    · rw [htype]
      by_cases hn : n = 1
      · rw [if_neg (by decide), if_pos hn]
        exact (UpdatesAs.newValue v).congr (by simp)
      · rw [if_neg (by decide), if_neg hn]
        exact UpdatesAs.fail
    · rw [eq_false_of_not_eq_true htype, if_pos (by rfl)]
      exact UpdatesAs.skip.congr (by simp)
  | .indexAccess base index => by
    rw [Expression.assign, Expression.assignWrites]
    by_cases htype : (Expression.indexAccess base index).type.isSupported = true
    · rw [htype]
      by_cases hn : n = 1
      · rw [if_neg (by decide), if_pos hn]
        exact (updatesAs_arrayIndexAssignment base).congr (by simp)
      · rw [if_neg (by decide), if_neg hn]
        exact UpdatesAs.fail
    · rw [eq_false_of_not_eq_true htype, if_pos (by rfl)]
      exact UpdatesAs.skip.congr (by simp)
  | .tuple components => by
    rw [Expression.assign, Expression.assignWrites]
    by_cases htype : (Expression.tuple components).type.isSupported = true
    · rw [htype]
      by_cases hn : n = 0
      · rw [if_pos (by simp [hn])]
        exact UpdatesAs.skip.congr (by simp [hn])
      · rw [if_neg (by simp [hn])]
        split
        · exact (components.updatesAs_assign).congr (by simp [hn])
        · exact UpdatesAs.fail
    · rw [eq_false_of_not_eq_true htype, if_pos (by rfl)]
      exact UpdatesAs.skip.congr (by simp)
  | .increment _ | .delete _ | .booleanOperation _ _ | .assignment _ _ _ | .functionCall _ _ _ _
  | .operation _ _ _ => UpdatesAs.skip

lemma Components.updatesAs_assign : ∀ components : Components,
    UpdatesAs components.assign components.assignWrites
  | .nil => UpdatesAs.skip
  | .missing rest => rest.updatesAs_assign
  | .cons e rest => (e.updatesAs_assign 1).andThen rest.updatesAs_assign

end

/-- What is known of the surroundings of a node when it is visited, and of the variables that are
written there. -/
structure Scope.UpdatesAs (s : Scope IndexUpdate) (t : Scope VariableSet) : Prop where
  lastCall : s.lastCall = t.lastCall
  returnParameters : s.returnParameters = t.returnParameters
  components : s.components = t.components
  usage : s.usage = t.usage
  call : ∀ g, SMTChecker.UpdatesAs (s.call g) (t.call g)
  placeholder : SMTChecker.UpdatesAs s.placeholder t.placeholder

variable {s : Scope IndexUpdate} {t : Scope VariableSet}

lemma Scope.UpdatesAs.components_eq (h : s.UpdatesAs t) (e : Expression) :
    e.components s = e.components t := by
  unfold Expression.components
  rw [h.components]

lemma updatesAs_assignment (h : s.UpdatesAs t) (operator : AssignmentOperator)
    (left right : Expression) :
    UpdatesAs (assignment s operator left right) (assignmentWrites t operator left right) := by
  unfold assignment assignmentWrites
  rw [h.components_eq]
  split
  · exact UpdatesAs.skip
  split
  · exact updatesAs_toVariable left
  split
  · split
    · exact left.updatesAs_assign _
    · exact UpdatesAs.fail
  · exact left.updatesAs_assign 1

lemma updatesAs_declare (h : s.UpdatesAs t) (declarations : List (Option VariableDeclaration))
    (e : Option Expression) :
    UpdatesAs (declare s declarations e) (declareWrites t declarations e) := by
  have hcomponents (e : Expression) (ds : List (Option VariableDeclaration)) :
      UpdatesAs
        (if !e.type.isTuple then Update.fail
        else if e.components s = [] then Update.skip
        else if (e.components s).length = ds.length then
          Update.newValuesIfKnown (selected (e.components s) ds).reduceOption
        else Update.fail)
        (.ofList (selected (e.components t) ds).reduceOption) := by
    rw [h.components_eq]
    split
    · exact UpdatesAs.fail
    split
    · rename_i hnil
      rw [hnil]
      exact UpdatesAs.skip.congr (by simp [selected])
    split
    · exact UpdatesAs.newValuesIfKnown _
    · exact UpdatesAs.fail
  cases e with
  | none => exact UpdatesAs.skip
  | some e =>
    rcases declarations with _ | ⟨v, _ | ⟨w, ds⟩⟩
    · exact hcomponents e []
    · exact UpdatesAs.newValuesIfKnown _
    · exact hcomponents e (v :: w :: ds)

lemma updatesAs_returnValue (h : s.UpdatesAs t) (e : Expression) :
    UpdatesAs (returnValue s e) (returnWrites t e) := by
  unfold returnValue returnWrites
  rw [h.returnParameters]
  split
  · rcases t.returnParameters with _ | ⟨v, _ | ⟨w, vs⟩⟩
    · cases e with
      | tuple components => exact UpdatesAs.skip.congr (by simp [selected])
      | _ => exact UpdatesAs.skip
    · exact (UpdatesAs.newValue v).congr (by simp)
    · cases e with
      | tuple components =>
        dsimp only
        split
        · exact UpdatesAs.newValues _
        · exact UpdatesAs.fail
      | _ => exact UpdatesAs.fail
  · exact UpdatesAs.skip

lemma updatesAs_setComponents (components : Components) :
    UpdatesAs (setComponents components) fun _ => false := by
  unfold setComponents
  split
  · split
    · exact UpdatesAs.skip
    · exact UpdatesAs.fail
  · exact UpdatesAs.skip

lemma Callee.updatesAs (h : s.UpdatesAs t) (callee : Callee) :
    SMTChecker.UpdatesAs (callee.visit s) (callee.construct t).writes := by
  cases callee with
  | inlined g => exact h.call g
  | external => exact (UpdatesAs.reset _).andThen (UpdatesAs.reset _)
  | other => exact UpdatesAs.skip

/-! ### Visits -/

mutual

theorem Expression.updatesAs (h : s.UpdatesAs t) : ∀ e : Expression,
    SMTChecker.UpdatesAs (e.visit s) (written (e.constructs t))
  | .identifier _ => UpdatesAs.skip
  | .tuple components =>
    ((components.updatesAs h).andThen (updatesAs_setComponents components)).congr
      fun v => or_false _
  | .indexAccess base index =>
    ((base.updatesAs h).andThen (index.updatesAs h)).congr fun v => (written_append _ _ v).symm
  | .increment e =>
    ((e.updatesAs h).andThen (updatesAs_increase e)).congr fun v => by
      simp [Expression.constructs]
  | .delete e =>
    ((e.updatesAs h).andThen (updatesAs_deletion e)).congr fun v => by
      simp [Expression.constructs]
  | .booleanOperation left right => by
    rw [Expression.visit, h.lastCall, h.usage]
    refine (UpdatesAs.optional (left.updatesAs h) (right.updatesAs h)).congr fun v => ?_
    simp [Expression.constructs, merged]
  | .assignment operator left right => by
    refine (((left.updatesAs h).andThen (right.updatesAs h)).andThen
      (updatesAs_assignment h operator left right)).congr fun v => ?_
    simp [Expression.constructs, Bool.or_assoc]
  | .functionCall e callee _ arguments => by
    refine (((e.updatesAs h).andThen (arguments.updatesAs h)).andThen
      (callee.updatesAs h)).congr fun v => ?_
    simp [Expression.constructs, Bool.or_assoc]
  | .operation _ _ operands => operands.updatesAs h

theorem Components.updatesAs (h : s.UpdatesAs t) : ∀ components : Components,
    SMTChecker.UpdatesAs (components.visit s) (written (components.constructs t))
  | .nil => UpdatesAs.skip
  | .missing rest => rest.updatesAs h
  | .cons e rest =>
    ((e.updatesAs h).andThen (rest.updatesAs h)).congr fun v => (written_append _ _ v).symm

end

lemma updatesAs_optional (h : s.UpdatesAs t) (e : Option Expression) :
    UpdatesAs (visitOptional s e) (written (optionalConstructs t e)) := by
  cases e with
  | none => exact UpdatesAs.skip
  | some e => exact e.updatesAs h

mutual

theorem Statement.updatesAs (h : s.UpdatesAs t) : ∀ node : Statement,
    SMTChecker.UpdatesAs (node.visit s) (written (node.constructs t))
  | .block ss => ss.updatesAs h
  | .expressionStatement e => e.updatesAs h
  | .variableDeclarationStatement declarations initialValue => by
    refine ((updatesAs_optional h initialValue).andThen
      (updatesAs_declare h declarations initialValue)).congr fun v => ?_
    simp [Statement.constructs]
  | .ifStatement condition trueStatement => by
    rw [Statement.visit, h.lastCall, h.usage]
    refine (UpdatesAs.branches (condition.updatesAs h) (trueStatement.updatesAs h)
      UpdatesAs.skip).congr fun v => ?_
    simp [Statement.constructs, merged]
  | .ifElseStatement condition trueStatement falseStatement => by
    rw [Statement.visit, h.lastCall, h.usage]
    refine (UpdatesAs.branches (condition.updatesAs h) (trueStatement.updatesAs h)
      (falseStatement.updatesAs h)).congr fun v => ?_
    simp [Statement.constructs, merged]
  | .whileStatement false condition body => by
    rw [Statement.visit, h.lastCall, h.usage]
    refine (UpdatesAs.whileLoop (condition.updatesAs h) (body.updatesAs h)).congr fun v => ?_
    simp [Statement.constructs, merged]
  | .whileStatement true condition body => by
    rw [Statement.visit, h.lastCall, h.usage]
    refine (UpdatesAs.doWhileLoop (condition.updatesAs h) (body.updatesAs h)).congr fun v => ?_
    simp [Statement.constructs, merged]
  | .forStatement init condition loopExpression body => by
    rw [Statement.visit, h.lastCall, h.usage]
    refine ((init.updatesAs h).andThen (UpdatesAs.forLoop (updatesAs_optional h condition)
      (body.updatesAs h) (updatesAs_optional h loopExpression))).congr fun v => ?_
    simp [Statement.constructs, merged]
  | .return e => by
    refine ((updatesAs_optional h e).andThen (T := e.elim (fun _ => false) (returnWrites t))
      ?_).congr fun v => ?_
    · cases e with
      | none => exact UpdatesAs.skip
      | some e => exact updatesAs_returnValue h e
    · simp [Statement.constructs]
  | .placeholder => h.placeholder.congr (by simp [Statement.constructs])
  | .other => UpdatesAs.skip

theorem Statements.updatesAs (h : s.UpdatesAs t) : ∀ nodes : Statements,
    SMTChecker.UpdatesAs (nodes.visit s) (written (nodes.constructs t))
  | .nil => UpdatesAs.skip
  | .cons node rest =>
    ((node.updatesAs h).andThen (rest.updatesAs h)).congr fun v => (written_append _ _ v).symm

end

lemma Node.updatesAs (h : s.UpdatesAs t) (node : Node) :
    SMTChecker.UpdatesAs (node.visit s) (written (node.constructs t)) := by
  cases node with
  | statement node => exact node.updatesAs h
  | expression e => exact e.updatesAs h

/-! ### Functions and modifiers -/

/-- What is known of the functions that can be called. -/
structure Calls.UpdatesAs (c : Calls IndexUpdate) (d : Calls VariableSet) : Prop where
  call : ∀ g, SMTChecker.UpdatesAs (c.call g) (d.call g)
  components : c.components = d.components
  identifiers : c.identifiers = d.identifiers

section

variable {c : Calls IndexUpdate} {d : Calls VariableSet} {f : FunctionDefinition}

lemma FunctionDefinition.scope_updatesAs (h : c.UpdatesAs d) (f : FunctionDefinition) :
    (f.scope c Update.skip).UpdatesAs (f.scope d fun _ => false) where
  lastCall := rfl
  returnParameters := rfl
  components := h.components
  usage := congrArg f.usage h.identifiers
  call := h.call
  placeholder := UpdatesAs.skip

lemma ModifierDefinition.scope_updatesAs (h : c.UpdatesAs d) (m : ModifierDefinition)
    {placeholder : IndexUpdate} {S : VariableSet} (hS : SMTChecker.UpdatesAs placeholder S) :
    (m.scope c f placeholder).UpdatesAs (m.scope d f S) where
  lastCall := rfl
  returnParameters := rfl
  components := h.components
  usage := congrArg f.usage h.identifiers
  call := h.call
  placeholder := hS

lemma FunctionDefinition.visitModifiers_updatesAs (h : c.UpdatesAs d)
    (ms : List ModifierInvocation) :
    UpdatesAs (f.visitModifiers c ms) (f.modifierWrites d ms) := by
  induction ms with
  | nil =>
    rw [FunctionDefinition.visitModifiers, FunctionDefinition.modifierWrites]
    cases f.body with
    | none => exact UpdatesAs.skip
    | some body => exact body.val.updatesAs (f.scope_updatesAs h)
  | cons m ms ih =>
    rw [FunctionDefinition.visitModifiers, FunctionDefinition.modifierWrites]
    have harguments := (Components.ofList m.arguments).updatesAs (f.scope_updatesAs h)
    have hbody := m.definition.body.updatesAs (m.definition.scope_updatesAs (f := f) h ih)
    refine (harguments.andThen ((UpdatesAs.initializeParameters _).andThen hbody)).congr fun v => ?_
    rw [Bool.or_assoc]

end

/-- A call gives new indices to what it writes, by induction on the functions that are not on the
stack yet. -/
lemma Program.inlineFunctionCall_updatesAs (p : Program) (stack : List ℕ) (g : ℕ) :
    UpdatesAs (p.inlineFunctionCall stack g) (p.callWrites stack g) := by
  by_cases hid : g ∈ stack
  · rw [inlineFunctionCall_of_mem hid, callWrites_of_mem hid]
    exact UpdatesAs.skip
  cases hf : p.function? g with
  | none =>
    rw [inlineFunctionCall_of_none hid hf, callWrites_of_none hid hf]
    exact UpdatesAs.skip
  | some f =>
    rw [inlineFunctionCall_of_some hid hf, callWrites_of_some hid hf]
    have hcalls : (p.calls (g :: stack)).UpdatesAs (p.writingCalls (g :: stack)) :=
      ⟨fun h => p.inlineFunctionCall_updatesAs (g :: stack) h, rfl, rfl⟩
    exact (UpdatesAs.initializeParameters _).andThen
      (FunctionDefinition.visitModifiers_updatesAs hcalls f.modifiers)
termination_by p.unvisited stack
decreasing_by exact Program.unvisited_lt hid hf

lemma Program.calls_updatesAs (p : Program) (stack : List ℕ) :
    (p.calls stack).UpdatesAs (p.writingCalls stack) :=
  ⟨p.inlineFunctionCall_updatesAs stack, rfl, rfl⟩

lemma Position.scope_updatesAs (p : Program) (position : Position) :
    (position.scope p).UpdatesAs (position.writingScope p) := by
  cases position with
  | function f below => exact f.scope_updatesAs (p.calls_updatesAs _)
  | modifier m remaining f below =>
    exact m.scope_updatesAs (p.calls_updatesAs _)
      (FunctionDefinition.visitModifiers_updatesAs (p.calls_updatesAs _) remaining)

/-! ### Identifiers -/

mutual

lemma Expression.checked_constructs (t : Scope VariableSet) : ∀ e : Expression,
    checked (e.constructs t) = e.checkedIdentifiers t.usage
  | .identifier _ => rfl
  | .tuple components => components.checked_constructs t
  | .indexAccess base index => by
    simp [Expression.constructs, Expression.checkedIdentifiers, base.checked_constructs t,
      index.checked_constructs t]
  | .increment e | .delete e => by
    simp [Expression.constructs, Expression.checkedIdentifiers, e.checked_constructs t]
  | .booleanOperation left right => by
    simp [Expression.constructs, Expression.checkedIdentifiers, merged, left.checked_constructs t]
  | .assignment _ left right => by
    simp [Expression.constructs, Expression.checkedIdentifiers, left.checked_constructs t,
      right.checked_constructs t]
  | .functionCall e callee _ arguments => by
    have hcallee : (callee.construct t).checked = callee.checkedIdentifiers t.usage := by
      cases callee <;> rfl
    simp [Expression.constructs, Expression.checkedIdentifiers, e.checked_constructs t,
      arguments.checked_constructs t, hcallee]
  | .operation _ _ operands => operands.checked_constructs t

lemma Components.checked_constructs (t : Scope VariableSet) : ∀ components : Components,
    checked (components.constructs t) = components.checkedIdentifiers t.usage
  | .nil => rfl
  | .missing rest => rest.checked_constructs t
  | .cons e rest => by
    simp [Components.constructs, Components.checkedIdentifiers, e.checked_constructs t,
      rest.checked_constructs t]

end

lemma checked_optionalConstructs (t : Scope VariableSet) (e : Option Expression) :
    checked (optionalConstructs t e) = optionalCheckedIdentifiers t.usage e := by
  cases e with
  | none => rfl
  | some e => exact e.checked_constructs t

mutual

lemma Statement.checked_constructs (t : Scope VariableSet) : ∀ node : Statement,
    checked (node.constructs t) = node.checkedIdentifiers t.usage
  | .block ss => ss.checked_constructs t
  | .expressionStatement e => e.checked_constructs t
  | .variableDeclarationStatement _ initialValue => by
    simp [Statement.constructs, Statement.checkedIdentifiers, checked_optionalConstructs]
  | .ifStatement condition trueStatement => by
    simp [Statement.constructs, Statement.checkedIdentifiers, merged,
      condition.checked_constructs t]
  | .ifElseStatement condition trueStatement falseStatement => by
    simp [Statement.constructs, Statement.checkedIdentifiers, merged,
      condition.checked_constructs t]
  | .whileStatement isDoWhile condition body => by
    cases isDoWhile with
    | true => simp [Statement.constructs, Statement.checkedIdentifiers, merged]
    | false =>
      simp [Statement.constructs, Statement.checkedIdentifiers, merged,
        condition.checked_constructs t]
  | .forStatement init condition loopExpression body => by
    simp [Statement.constructs, Statement.checkedIdentifiers, merged, init.checked_constructs t,
      checked_optionalConstructs]
  | .return e => by
    simp [Statement.constructs, Statement.checkedIdentifiers, checked_optionalConstructs]
  | .placeholder => append_nil _
  | .other => rfl

lemma Statements.checked_constructs (t : Scope VariableSet) : ∀ nodes : Statements,
    checked (nodes.constructs t) = nodes.checkedIdentifiers t.usage
  | .nil => rfl
  | .cons node rest => by
    simp [Statements.constructs, Statements.checkedIdentifiers, node.checked_constructs t,
      rest.checked_constructs t]

end

lemma Node.checked_constructs (t : Scope VariableSet) (node : Node) :
    checked (node.constructs t) = node.checkedIdentifiers t.usage := by
  cases node with
  | statement node => exact node.checked_constructs t
  | expression e => exact e.checked_constructs t

/-! ### Agreement -/

/-- The state variables and the variables of the callables on the stack, unless the node declares
them. -/
def Position.IsOutside (position : Position) (node : Node) (v : VariableDeclaration) : Prop :=
  (v.isStateVariable = true ∨ ∃ c ∈ position.callStack, v.functionOrModifierDefinition = some c) ∧
    v ∉ node.declared

/-- The touched variables are those that have other indices after the visit. -/
def Agrees (p : Program) (position : Position) (node : Node)
    (σ σ' : Versions VariableDeclaration) : Prop :=
  ∀ v, position.IsOutside node v → σ.known v = true →
    (v ∈ touchedVariables p position node ↔ σ'.index v ≠ σ.index v)

/-- The construct makes a variable count as touched. -/
def Construct.Counts (lastCall : Callable) (c : Construct) (v : VariableDeclaration) : Prop :=
  v ∈ c.checked ∧ v.isCounted lastCall = true

/-- For each variable that a construct of the node writes without making it count there is another
that makes it count, and for each that a construct makes count without writing it there is another
that writes it. -/
def Balanced (p : Program) (position : Position) (node : Node)
    (σ : Versions VariableDeclaration) : Prop :=
  ∀ v, position.IsOutside node v → σ.known v = true →
    ∀ c ∈ node.constructs (position.writingScope p),
      (c.writes v = true → ¬c.Counts position.lastCall v →
        ∃ c' ∈ node.constructs (position.writingScope p), c'.Counts position.lastCall v) ∧
      (c.Counts position.lastCall v → c.writes v = false →
        ∃ c' ∈ node.constructs (position.writingScope p), c'.writes v = true)

variable {p : Program} {position : Position} {node : Node} {σ σ' : Versions VariableDeclaration}
  {v : VariableDeclaration}

lemma mem_touchedVariables :
    v ∈ touchedVariables p position node ↔
      ∃ c ∈ node.constructs (position.writingScope p), c.Counts position.lastCall v := by
  have h := position.scope_updatesAs p
  rw [touchedVariables, h.usage, ← node.checked_constructs, mem_touched, checked, mem_flatMap,
    position.scope_lastCall]
  constructor
  · rintro ⟨⟨c, hc, hmem⟩, hcounted⟩
    exact ⟨c, hc, hmem, hcounted⟩
  · rintro ⟨c, hc, hmem, hcounted⟩
    exact ⟨⟨c, hc, hmem⟩, hcounted⟩

/-- A variable has another index after the visit iff a construct of the node writes it. -/
lemma index_ne_iff (hσ : σ.Fresh) (h : node.visit (position.scope p) σ = some σ')
    (hv : σ.known v) :
    σ'.index v ≠ σ.index v ↔
      ∃ c ∈ node.constructs (position.writingScope p), c.writes v := by
  rw [← (node.updatesAs (position.scope_updatesAs p) h).mem_iff hσ hv]
  exact any_eq_true

private def flag : VariableDeclaration := ⟨0, .bool, some (.function 0)⟩

private def counter : VariableDeclaration := ⟨1, .integer 256, some (.function 0)⟩

/-- `x op= 1`. -/
private def assignOne (operator : AssignmentOperator) : Statement :=
  .block (.cons (.expressionStatement
    (.assignment operator (.identifier counter) (.operation true (.integer 256) .nil))) .nil)

/-- `function f(bool b) public { uint x; if (b) { x op= 1; } }`. -/
private def conditionalWrite (operator : AssignmentOperator) : FunctionDefinition where
  id := 0
  parameters := [flag]
  returnParameters := []
  localVariables := [counter]
  modifiers := []
  body := some ⟨.ifStatement (.identifier flag) (assignOne operator), rfl⟩

private def firstVersions : Versions VariableDeclaration where
  known v := v = flag || v = counter
  index _ := 0
  nextFree _ := 1

end Polynomial.SMTChecker
