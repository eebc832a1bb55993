import Polc.Yul.Optimiser.NameCollector
import Mathlib.Data.Char
import Mathlib.Data.List.Lex

/-!
# The data flow analyser

`libyul/optimiser/DataFlowAnalyzer.cpp`: which movable expression each variable currently
equals. Optimiser steps derive from it and override how expressions are visited; here the
analysis is parametrised by that function, which may change the expression and a state of its
own, or throw.
-/

namespace Yul

open Option

/-- The hash of a name, in 64 bits (`YulStringRepository::hash`). -/
def yulHash (x : YulString) : Nat :=
  x.toList.foldl (fun h c => (h * 1099511628211 % 2 ^ 64) ^^^ c.toNat) 14695981039346656037

/-- The order of names in sets: by hash, then by text. -/
def yulLE (x y : YulString) : Prop :=
  yulHash x < yulHash y ∨ yulHash x = yulHash y ∧ x.toList ≤ y.toList

instance : DecidableRel yulLE := fun _ _ => inferInstanceAs (Decidable (_ ∨ _))

/-- The variables declared in a block or function. -/
structure VariableScope where
  names : List YulString
  isFunction : Bool

/-- The state of the analyser: the current values of variables, always movable; the pairs `(x, y)`
such that the value assigned to `x` references `y` (`m_references` and `m_referencedBy` are this
relation, read from both sides); and the scopes, the innermost first. -/
structure DataFlowAnalyzer where
  value : YulString → Option Expression
  references : List (YulString × YulString)
  variableScopes : List VariableScope

namespace DataFlowAnalyzer

/-- The state before anything is visited. -/
def init : DataFlowAnalyzer := ⟨fun _ => none, [], []⟩

/-- `m_zero` -/
def zero : Expression := .literal (.number "0")

/-- The variables to be cleared, and those that reference them: the set is visited in its order
while it grows. -/
def toBeCleared (references : List (YulString × YulString)) (vars : List YulString) :
    List YulString :=
  ((vars ++ references.map (·.1)).insertionSort yulLE).foldl
    (fun cleared name =>
      if name ∈ cleared then cleared ++ (references.filter (·.2 = name)).map (·.1) else cleared)
    vars

/-- Clear information about the values of the given variables. -/
def clearValues (S : DataFlowAnalyzer) (vars : List YulString) : DataFlowAnalyzer :=
  let cleared := toBeCleared S.references vars
  { S with
    value := fun x => if x ∈ cleared then none else S.value x
    references := S.references.filter (·.1 ∉ cleared) }

/-- The values after an assignment to the given variables, once they are cleared. -/
def assignedValue (dialect : Dialect) (value : YulString → Option Expression)
    (names : List YulString) : Option Expression → YulString → Option Expression
  | none => fun x => if x ∈ names then some zero else value x
  | some e =>
    match names.dedup with
    | [name] =>
      if e.movable dialect && name ∉ e.referencedVariables then
        fun x => if x = name then some e else value x
      else value
    | _ => value

/-- The variables that the assigned value references. -/
def assignedReferences : Option Expression → List YulString
  | none => []
  | some e => e.referencedVariables

/-- Register an assignment. -/
def handleAssignment (dialect : Dialect) (S : DataFlowAnalyzer) (names : List YulString)
    (value : Option Expression) : DataFlowAnalyzer :=
  let S := S.clearValues names
  { S with
    value := assignedValue dialect S.value names value
    references :=
      S.references ++ names.flatMap fun name => (assignedReferences value).map (name, ·) }

def pushScope (S : DataFlowAnalyzer) (isFunction : Bool) : DataFlowAnalyzer :=
  { S with variableScopes := ⟨[], isFunction⟩ :: S.variableScopes }

/-- Remove the innermost scope and clear all variables in it. -/
def popScope (S : DataFlowAnalyzer) : DataFlowAnalyzer :=
  match S.variableScopes with
  | [] => S
  | scope :: scopes => { S.clearValues scope.names with variableScopes := scopes }

/-- Add variables to the innermost of the scopes. -/
def declareIn (names : List YulString) : List VariableScope → List VariableScope
  | [] => []
  | scope :: scopes => { scope with names := scope.names ++ names } :: scopes

def declare (S : DataFlowAnalyzer) (names : List YulString) : DataFlowAnalyzer :=
  { S with variableScopes := declareIn names S.variableScopes }

/-- The variable is in one of the scopes up to that of the function. -/
def inScopeOf (x : YulString) : List VariableScope → Bool
  | [] => false
  | scope :: scopes => x ∈ scope.names || !scope.isFunction && inScopeOf x scopes

def inScope (S : DataFlowAnalyzer) (x : YulString) : Bool := inScopeOf x S.variableScopes

/-- The variables with recorded values, in the order of `m_value`; they are all in some scope. -/
def knownVariables (S : DataFlowAnalyzer) : List YulString :=
  ((S.variableScopes.flatMap (·.names)).insertionSort yulLE).filter fun x => (S.value x).isSome

/-- The state at the start of a function body: nothing is known but that the return variables
are zero. -/
def enterFunction (dialect : Dialect) (S : DataFlowAnalyzer) (ps rs : List YulString) :
    DataFlowAnalyzer :=
  rs.foldl (fun S r => (S.declare [r]).handleAssignment dialect [r] none)
    (({ S with value := fun _ => none, references := [] }.pushScope true).declare ps)

end DataFlowAnalyzer

section

variable {ξ : Type} (visit : DataFlowAnalyzer → ξ → Expression → Option (Expression × ξ))
  (dialect : Dialect)

mutual

/-- Analyse a statement in the state `S`. The expressions are visited with `visit`, which has the
state `t`. -/
def Statement.analyze (S : DataFlowAnalyzer) (t : ξ) :
    Statement → Option (Statement × DataFlowAnalyzer × ξ)
  | .expressionStatement e => do
    let (e, t) ← visit S t e
    some (.expressionStatement e, S, t)
  | .assignment xs e => do
    let (e, t) ← visit S t e
    some (.assignment xs e, S.handleAssignment dialect xs (some e), t)
  | .variableDeclaration xs none =>
    let names := xs.map (·.name)
    some (.variableDeclaration xs none, (S.declare names).handleAssignment dialect names none, t)
  | .variableDeclaration xs (some e) => do
    let names := xs.map (·.name)
    let (e, t) ← visit (S.declare names) t e
    some (.variableDeclaration xs (some e),
      (S.declare names).handleAssignment dialect names (some e), t)
  | .functionDefinition f ps rs body => do
    let S' := S.enterFunction dialect (ps.map (·.name)) (rs.map (·.name))
    let (body, _, t) ← analyzeStatements (S'.pushScope false) t body
    some (.functionDefinition f ps rs body, S, t)
  | .if c body => do
    let (c, t) ← visit S t c
    let (body, S, t) ← analyzeStatements (S.pushScope false) t body
    some (.if c body, S.popScope.clearValues (assignmentsOfStatements body), t)
  | .switch e cases => do
    let (e, t) ← visit S t e
    let (cases, S, t) ← analyzeCases S t cases
    some (.switch e cases, S.clearValues (assignmentsOfCases cases), t)
  | .forLoop (_ :: _) _ _ _ => none
  | .forLoop [] c post body => do
    let sinceContinue ← assignmentsSinceContinue body
    let assignments := assignmentsOfStatements body ++ assignmentsOfStatements post
    let S := S.clearValues assignments
    let (c, t) ← visit S t c
    let (body, S, t) ← analyzeStatements (S.pushScope false) t body
    let S := S.popScope.clearValues sinceContinue
    let (post, S, t) ← analyzeStatements (S.pushScope false) t post
    some (.forLoop [] c post body, S.popScope.clearValues assignments, t)
  | .break => some (.break, S, t)
  | .continue => some (.continue, S, t)
  | .block ss => do
    let (ss, S, t) ← analyzeStatements (S.pushScope false) t ss
    some (.block ss, S.popScope, t)

def analyzeStatements (S : DataFlowAnalyzer) (t : ξ) :
    List Statement → Option (List Statement × DataFlowAnalyzer × ξ)
  | [] => some ([], S, t)
  | s :: ss => do
    let (s, S, t) ← s.analyze S t
    let (ss, S, t) ← analyzeStatements S t ss
    some (s :: ss, S, t)

def analyzeCases (S : DataFlowAnalyzer) (t : ξ) :
    List Case → Option (List Case × DataFlowAnalyzer × ξ)
  | [] => some ([], S, t)
  | .mk value body :: cs => do
    let (body, S, t) ← analyzeStatements (S.pushScope false) t body
    let (cs, S, t) ← analyzeCases (S.popScope.clearValues (assignmentsOfStatements body)) t cs
    some (.mk value body :: cs, S, t)

end

end

/-! ### What an analysis of a statement consists of -/

section

variable {ξ : Type} {visit : DataFlowAnalyzer → ξ → Expression → Option (Expression × ξ)}
  {dialect : Dialect} {S S' : DataFlowAnalyzer} {t t' : ξ} {s s' : Statement} {c e : Expression}
  {ss ss' body : List Statement} {cs cs' : List Case}

lemma analyze_expression
    (h : (Statement.expressionStatement e).analyze visit dialect S t = some (s', S', t')) :
    ∃ e', visit S t e = some (e', t') ∧ s' = .expressionStatement e' ∧ S' = S := by
  obtain ⟨⟨e', t₁⟩, he, heq⟩ := bind_eq_some_iff.mp h
  cases heq
  exact ⟨e', he, rfl, rfl⟩

lemma analyze_assignment {xs : List YulString}
    (h : (Statement.assignment xs e).analyze visit dialect S t = some (s', S', t')) :
    ∃ e', visit S t e = some (e', t') ∧ s' = .assignment xs e' ∧
      S' = S.handleAssignment dialect xs (some e') := by
  obtain ⟨⟨e', t₁⟩, he, heq⟩ := bind_eq_some_iff.mp h
  cases heq
  exact ⟨e', he, rfl, rfl⟩

/-- The value of a declaration, if there is one, is visited. -/
def visitValue (visit : DataFlowAnalyzer → ξ → Expression → Option (Expression × ξ))
    (S : DataFlowAnalyzer) (t : ξ) : Option Expression → Option (Option Expression × ξ)
  | none => some (none, t)
  | some e => (visit S t e).map fun r => (some r.1, r.2)

lemma analyze_declaration {xs : List TypedName} {value : Option Expression}
    (h : (Statement.variableDeclaration xs value).analyze visit dialect S t =
      some (s', S', t')) :
    ∃ value', visitValue visit (S.declare (xs.map (·.name))) t value = some (value', t') ∧
      s' = .variableDeclaration xs value' ∧
      S' = (S.declare (xs.map (·.name))).handleAssignment dialect (xs.map (·.name)) value' := by
  cases value with
  | none =>
    cases h
    exact ⟨none, rfl, rfl, rfl⟩
  | some e =>
    obtain ⟨⟨e', t₁⟩, he, heq⟩ := bind_eq_some_iff.mp h
    cases heq
    exact ⟨some e', by simp only [visitValue, he, map_some], rfl, rfl⟩

lemma analyze_function {f : YulString} {ps rs : List TypedName}
    (h : (Statement.functionDefinition f ps rs body).analyze visit dialect S t =
      some (s', S', t')) :
    ∃ body' S₁, analyzeStatements visit dialect
        ((S.enterFunction dialect (ps.map (·.name)) (rs.map (·.name))).pushScope false) t body =
          some (body', S₁, t') ∧
      s' = .functionDefinition f ps rs body' ∧ S' = S := by
  obtain ⟨⟨body', S₁, t₁⟩, hbody, heq⟩ := bind_eq_some_iff.mp h
  cases heq
  exact ⟨body', S₁, hbody, rfl, rfl⟩

lemma analyze_if (h : (Statement.if c body).analyze visit dialect S t = some (s', S', t')) :
    ∃ c' t₁ body' S₁, visit S t c = some (c', t₁) ∧
      analyzeStatements visit dialect (S.pushScope false) t₁ body = some (body', S₁, t') ∧
      s' = .if c' body' ∧ S' = S₁.popScope.clearValues (assignmentsOfStatements body') := by
  obtain ⟨⟨c', t₁⟩, hc, h⟩ := bind_eq_some_iff.mp h
  obtain ⟨⟨body', S₁, t₂⟩, hbody, heq⟩ := bind_eq_some_iff.mp h
  cases heq
  exact ⟨c', t₁, body', S₁, hc, hbody, rfl, rfl⟩

lemma analyze_switch
    (h : (Statement.switch e cs).analyze visit dialect S t = some (s', S', t')) :
    ∃ e' t₁ cs' S₁, visit S t e = some (e', t₁) ∧
      analyzeCases visit dialect S t₁ cs = some (cs', S₁, t') ∧
      s' = .switch e' cs' ∧ S' = S₁.clearValues (assignmentsOfCases cs') := by
  obtain ⟨⟨e', t₁⟩, he, h⟩ := bind_eq_some_iff.mp h
  obtain ⟨⟨cs', S₁, t₂⟩, hcs, heq⟩ := bind_eq_some_iff.mp h
  cases heq
  exact ⟨e', t₁, cs', S₁, he, hcs, rfl, rfl⟩

lemma analyze_forLoop {pre post : List Statement}
    (h : (Statement.forLoop pre c post body).analyze visit dialect S t = some (s', S', t')) :
    let assignments := assignmentsOfStatements body ++ assignmentsOfStatements post
    ∃ since c' t₁ body' S₁ t₂ post' S₂, pre = [] ∧ assignmentsSinceContinue body = some since ∧
      visit (S.clearValues assignments) t c = some (c', t₁) ∧
      analyzeStatements visit dialect ((S.clearValues assignments).pushScope false) t₁ body =
        some (body', S₁, t₂) ∧
      analyzeStatements visit dialect ((S₁.popScope.clearValues since).pushScope false) t₂ post =
        some (post', S₂, t') ∧
      s' = .forLoop [] c' post' body' ∧ S' = S₂.popScope.clearValues assignments := by
  intro assignments
  cases pre with
  | cons s pre => cases h
  | nil =>
    obtain ⟨since, hsince, h⟩ := bind_eq_some_iff.mp h
    obtain ⟨⟨c', t₁⟩, hc, h⟩ := bind_eq_some_iff.mp h
    obtain ⟨⟨body', S₁, t₂⟩, hbody, h⟩ := bind_eq_some_iff.mp h
    obtain ⟨⟨post', S₂, t₃⟩, hpost, heq⟩ := bind_eq_some_iff.mp h
    cases heq
    exact ⟨since, c', t₁, body', S₁, t₂, post', S₂, rfl, hsince, hc, hbody, hpost, rfl, rfl⟩

lemma analyze_block
    (h : (Statement.block ss).analyze visit dialect S t = some (s', S', t')) :
    ∃ ss' S₁, analyzeStatements visit dialect (S.pushScope false) t ss = some (ss', S₁, t') ∧
      s' = .block ss' ∧ S' = S₁.popScope := by
  obtain ⟨⟨ss', S₁, t₁⟩, hss, heq⟩ := bind_eq_some_iff.mp h
  cases heq
  exact ⟨ss', S₁, hss, rfl, rfl⟩

lemma analyze_break (h : Statement.break.analyze visit dialect S t = some (s', S', t')) :
    s' = .break ∧ S' = S ∧ t' = t := by
  cases h
  exact ⟨rfl, rfl, rfl⟩

lemma analyze_continue (h : Statement.continue.analyze visit dialect S t = some (s', S', t')) :
    s' = .continue ∧ S' = S ∧ t' = t := by
  cases h
  exact ⟨rfl, rfl, rfl⟩

lemma analyze_nil
    (h : analyzeStatements visit dialect S t [] = some (ss', S', t')) :
    ss' = [] ∧ S' = S ∧ t' = t := by
  cases h
  exact ⟨rfl, rfl, rfl⟩

lemma analyze_cons
    (h : analyzeStatements visit dialect S t (s :: ss) = some (ss', S', t')) :
    ∃ s₁ S₁ t₁ ss₁, s.analyze visit dialect S t = some (s₁, S₁, t₁) ∧
      analyzeStatements visit dialect S₁ t₁ ss = some (ss₁, S', t') ∧ ss' = s₁ :: ss₁ := by
  obtain ⟨⟨s₁, S₁, t₁⟩, hs, h⟩ := bind_eq_some_iff.mp h
  obtain ⟨⟨ss₁, S₂, t₂⟩, hss, heq⟩ := bind_eq_some_iff.mp h
  cases heq
  exact ⟨s₁, S₁, t₁, ss₁, hs, hss, rfl⟩

lemma analyzeCases_nil (h : analyzeCases visit dialect S t [] = some (cs', S', t')) :
    cs' = [] ∧ S' = S ∧ t' = t := by
  cases h
  exact ⟨rfl, rfl, rfl⟩

lemma analyzeCases_cons {value : Option Literal}
    (h : analyzeCases visit dialect S t (.mk value body :: cs) = some (cs', S', t')) :
    ∃ body' S₁ t₁ cs₁,
      analyzeStatements visit dialect (S.pushScope false) t body = some (body', S₁, t₁) ∧
      analyzeCases visit dialect (S₁.popScope.clearValues (assignmentsOfStatements body')) t₁
        cs = some (cs₁, S', t') ∧ cs' = .mk value body' :: cs₁ := by
  obtain ⟨⟨body', S₁, t₁⟩, hbody, h⟩ := bind_eq_some_iff.mp h
  obtain ⟨⟨cs₁, S₂, t₂⟩, hcs, heq⟩ := bind_eq_some_iff.mp h
  cases heq
  exact ⟨body', S₁, t₁, cs₁, hbody, hcs, rfl⟩

end

end Yul
