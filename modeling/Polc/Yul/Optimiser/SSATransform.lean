import Polc.Yul.Optimiser.NameDispenser
import Polc.Yul.Optimiser.Prerequisites

/-!
# The SSA transform

`libyul/optimiser/SSATransform.cpp`: for each variable that is assigned to somewhere, declarations
and assignments go to a new variable first, which is copied to the old one. As long as a new
variable is known to have the value of an old one, it is referenced instead.
-/

namespace Yul

open Sof Semantics List Statement

/-- The state of the transform. -/
structure SSATransform where
  nameDispenser : NameDispenser
  currentVariableValues : YulString → Option YulString

namespace SSATransform

/-! ### The step -/

/-- Create a new variable and store it as the current value of the old one. -/
def newVariable (T : SSATransform) (varName : YulString) : YulString × SSATransform :=
  ((T.nameDispenser.newName varName).1, ⟨(T.nameDispenser.newName varName).2,
    fun x => if x = varName then some (T.nameDispenser.newName varName).1
      else T.currentVariableValues x⟩)

/-- Create new variables; each old variable is paired with its new one. -/
def newVariables (T : SSATransform) : List YulString → List (YulString × YulString) × SSATransform
  | [] => ([], T)
  | x :: xs =>
    ((x, (T.newVariable x).1) :: ((T.newVariable x).2.newVariables xs).1,
      ((T.newVariable x).2.newVariables xs).2)

/-- Forget the current values of the variables. -/
def erase (T : SSATransform) (xs : List YulString) : SSATransform :=
  { T with currentVariableValues := fun x => if x ∈ xs then none else T.currentVariableValues x }

section

variable (values : YulString → Option YulString)

mutual

/-- Refer to the new variables where there are some. -/
def visit : Expression → Expression
  | .functionalInstruction i args => .functionalInstruction i (visitArguments args)
  | .functionCall f args => .functionCall f (visitArguments args)
  | .identifier x => .identifier ((values x).getD x)
  | .literal l => .literal l

def visitArguments : List Expression → List Expression
  | [] => []
  | e :: es => visit e :: visitArguments es

end

end

/-- `let x := y` for each pair, without types. -/
def declareCopies (pairs : List (YulString × YulString)) : List Statement :=
  pairs.map fun p => .variableDeclaration [⟨p.1, ""⟩] (some (.identifier p.2))

/-- `x := y` for each pair. -/
def assignCopies (pairs : List (YulString × YulString)) : List Statement :=
  pairs.map fun p => .assignment [p.1] (.identifier p.2)

/-- The declaration of the new variables. -/
def declareNew (pairs : List (YulString × YulString)) (value : Option Expression) : Statement :=
  .variableDeclaration (pairs.map fun p => ⟨p.2, ""⟩) value

/-- The state behind a block; the variables that come last are cleared. -/
def closeBlock (r : List Statement × SSATransform × List YulString) : SSATransform :=
  r.2.1.erase r.2.2

section

variable (variablesToReplace : List YulString)

mutual

/-- What replaces a statement, the state behind it, and the variables that are to be cleared at
the end of the block. -/
def statement (T : SSATransform) :
    Statement → List Statement × SSATransform × List YulString
  | .variableDeclaration xs value =>
    if xs.any (·.name ∈ variablesToReplace) then
      (declareNew (T.newVariables (xs.map (·.name))).1
          (value.map (visit T.currentVariableValues)) ::
        declareCopies (T.newVariables (xs.map (·.name))).1,
        (T.newVariables (xs.map (·.name))).2, xs.map (·.name))
    else ([.variableDeclaration xs (value.map (visit T.currentVariableValues))], T, [])
  | .assignment xs e =>
    (declareNew (T.newVariables xs).1 (some (visit T.currentVariableValues e)) ::
      assignCopies (T.newVariables xs).1, (T.newVariables xs).2, xs)
  | .expressionStatement e => ([.expressionStatement (visit T.currentVariableValues e)], T, [])
  | .functionDefinition f ps rs body =>
    ([.functionDefinition f ps rs (statements T body).1], closeBlock (statements T body), [])
  | .if c body =>
    ([.if (visit T.currentVariableValues c) (statements T body).1],
      closeBlock (statements T body), [])
  | .switch e cs =>
    ([.switch (visit T.currentVariableValues e) (cases T cs).1], (cases T cs).2, [])
  | .forLoop pre c post body =>
    let T₁ := (closeBlock (statements T pre)).erase
      (assignmentsOfStatements body ++ assignmentsOfStatements post)
    let T₂ := closeBlock (statements T₁ body)
    ([.forLoop (statements T pre).1 (visit T₁.currentVariableValues c) (statements T₂ post).1
      (statements T₁ body).1], closeBlock (statements T₂ post), [])
  | .break => ([.break], T, [])
  | .continue => ([.continue], T, [])
  | .block ss => ([.block (statements T ss).1], closeBlock (statements T ss), [])

def statements (T : SSATransform) :
    List Statement → List Statement × SSATransform × List YulString
  | [] => ([], T, [])
  | s :: ss =>
    let r := statement T s
    let rs := statements r.2.1 ss
    (r.1 ++ rs.1, rs.2.1, r.2.2 ++ rs.2.2)

def cases (T : SSATransform) : List Case → List Case × SSATransform
  | [] => ([], T)
  | .mk value body :: cs =>
    let r := statements T body
    let rs := cases (closeBlock r) cs
    (.mk value r.1 :: rs.1, rs.2)

end

/-- What the source asserts of every assignment. -/
def assertion : Statement → Bool
  | .assignment xs _ => xs.all (· ∈ variablesToReplace)
  | _ => true

end

/-- Run the step on a program, with the state of the name dispenser. There is no result if an
assertion fails; whether that happens does not depend on the state of the transform. -/
def run (nameDispenser : NameDispenser) (ss : Block) : Option Block :=
  if everyStatement (assertion (assignmentsOfStatements ss)) ss then
    some (statements (assignmentsOfStatements ss) ⟨nameDispenser, fun _ => none⟩ ss).1
  else none

mutual

lemma every_assertion {names : List YulString} (s : Statement) (h : s.assignments ⊆ names) :
    s.every (assertion names) := by
  match s with
  | .assignment xs e => exact all_eq_true.mpr fun x hx => decide_eq_true (h hx)
  | .functionDefinition f ps rs body =>
    exact every_function.mpr ⟨rfl, everyStatement_assertion body h⟩
  | .if c body => exact every_if.mpr ⟨rfl, everyStatement_assertion body h⟩
  | .switch e cs => exact every_switch.mpr ⟨rfl, everyCase_assertion cs h⟩
  | .forLoop pre c post body =>
    rw [Statement.assignments, append_subset, append_subset] at h
    exact every_forLoop.mpr ⟨rfl, everyStatement_assertion pre h.1.1,
      everyStatement_assertion post h.2, everyStatement_assertion body h.1.2⟩
  | .block ss => exact every_block.mpr ⟨rfl, everyStatement_assertion ss h⟩
  | .expressionStatement _ | .variableDeclaration _ _ | .break | .continue => rfl

lemma everyStatement_assertion {names : List YulString} (ss : List Statement)
    (h : assignmentsOfStatements ss ⊆ names) : everyStatement (assertion names) ss := by
  match ss with
  | [] => rfl
  | s :: ss =>
    rw [assignmentsOfStatements, append_subset] at h
    exact everyStatement_cons.mpr ⟨every_assertion s h.1, everyStatement_assertion ss h.2⟩

lemma everyCase_assertion {names : List YulString} (cs : List Case)
    (h : assignmentsOfCases cs ⊆ names) : everyCase (assertion names) cs := by
  match cs with
  | [] => rfl
  | .mk value body :: cs =>
    rw [assignmentsOfCases, append_subset] at h
    exact everyCase_cons.mpr ⟨everyStatement_assertion body h.1, everyCase_assertion cs h.2⟩

end

lemma run_eq (nameDispenser : NameDispenser) (ss : Block) :
    run nameDispenser ss =
      some (statements (assignmentsOfStatements ss) ⟨nameDispenser, fun _ => none⟩ ss).1 :=
  if_pos (everyStatement_assertion ss (List.Subset.refl _))

end SSATransform

end Yul
