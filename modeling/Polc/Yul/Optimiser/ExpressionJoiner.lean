import Polc.Yul.Optimiser.NameCollector

/-!
# Joining expressions

`libyul/optimiser/ExpressionJoiner.cpp`: a variable that is declared in the latest statement and
referenced once is replaced by its value.
-/

namespace Yul

namespace ExpressionJoiner

/-- The argument is an identifier or a literal. -/
def isIdentifierOrLiteral : Expression → Bool
  | .identifier _ | .literal _ => true
  | _ => false

/-- The statement is an empty block. -/
def isEmptyBlock : Statement → Bool
  | .block [] => true
  | _ => false

def removeEmptyBlocks (ss : Block) : Block :=
  ss.filter fun s => !isEmptyBlock s

lemma eq_of_isEmptyBlock {s : Statement} (h : ¬ (!isEmptyBlock s) = true) : s = .block [] := by
  unfold isEmptyBlock at h
  split at h
  · rfl
  · exact absurd rfl h

section

variable (references : YulString → Nat)

/-- The value of the identifier, if the latest statement declares it and nothing else, and there is
no other reference (`isLatestStatementVarDeclJoinable`). -/
def joinableValue (x : YulString) : List Statement → Option Expression
  | .variableDeclaration [y] (some e) :: _ => if y.name = x ∧ references x = 1 then some e else none
  | _ => none

mutual

/-- Visit an expression. `before` are the statements from the latest one backwards, none if there
is no latest statement; the second component are those that are left. -/
def visit (before : List Statement) : Expression → Expression × List Statement
  | .functionalInstruction i args =>
    let r := handleArguments before args
    (.functionalInstruction i r.1, r.2)
  | .functionCall f args =>
    let r := handleArguments before args
    (.functionCall f r.1, r.2)
  | .identifier x =>
    match joinableValue references x before with
    | some e => (e, before.tail)
    | none => (.identifier x, before)
  | .literal l => (.literal l, before)

/-- Visit the arguments from left to right, from the last one on that is neither an identifier nor
a literal, or all of them if there is no such one. -/
def handleArguments (before : List Statement) : List Expression → List Expression × List Statement
  | [] => ([], before)
  | e :: es =>
    if es.all isIdentifierOrLiteral then
      let r := visit before e
      let q := handleArguments r.2 es
      (r.1 :: q.1, q.2)
    else
      let q := handleArguments before es
      (e :: q.1, q.2)

end

/-- The value of a declaration. -/
def visitValue (before : List Statement) : Option Expression → Option Expression × List Statement
  | none => (none, before)
  | some e =>
    let r := visit references before e
    (some r.1, r.2)

/-- The statements up to a visited one: declarations that are joined become empty blocks. -/
def advance (before left : List Statement) (s : Statement) : List Statement :=
  s :: (List.replicate (before.length - left.length) (.block []) ++ left)

mutual

/-- Visit a statement behind the statements `before`. -/
def statement (before : List Statement) : Statement → Statement × List Statement
  | .expressionStatement e =>
    let r := visit references before e
    (.expressionStatement r.1, r.2)
  | .assignment xs e =>
    let r := visit references before e
    (.assignment xs r.1, r.2)
  | .variableDeclaration xs value =>
    let r := visitValue references before value
    (.variableDeclaration xs r.1, r.2)
  | .functionDefinition f ps rs body =>
    (.functionDefinition f ps rs (removeEmptyBlocks (statements [] body)), before)
  | .if c body =>
    let r := visit references before c
    (.if r.1 (removeEmptyBlocks (statements [] body)), r.2)
  | .switch e cs =>
    let r := visit references before e
    (.switch r.1 (cases cs), r.2)
  | .forLoop pre c post body =>
    -- There is no latest statement behind the init part.
    (.forLoop (removeEmptyBlocks (statements [] pre)) (visit references [] c).1
      (removeEmptyBlocks (statements [] post)) (removeEmptyBlocks (statements [] body)), before)
  | .break => (.break, before)
  | .continue => (.continue, before)
  | .block ss => (.block (removeEmptyBlocks (statements [] ss)), before)

/-- Visit the statements of a block behind the statements `before`. -/
def statements (before : List Statement) : List Statement → List Statement
  | [] => before.reverse
  | s :: ss =>
    let r := statement before s
    statements (advance before r.2 r.1) ss

def cases : List Case → List Case
  | [] => []
  | .mk value body :: cs => .mk value (removeEmptyBlocks (statements [] body)) :: cases cs

end

def block (ss : Block) : Block := removeEmptyBlocks (statements references [] ss)

end

/-- Run the step on a program. -/
def run (ss : Block) : Block :=
  block (countReferences (referencesOfStatements ss)) ss

end ExpressionJoiner

end Yul
