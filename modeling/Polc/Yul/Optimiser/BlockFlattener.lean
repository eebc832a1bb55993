import Polc.Yul.Optimiser.DissolvedScopes

/-!
# The block flattener

`libyul/optimiser/BlockFlattener.cpp`: blocks become part of the block around them.
-/

namespace Yul

namespace BlockFlattener

/-- What replaces a statement of a block that has been visited. -/
def contents : Statement → List Statement
  | .block ss => ss
  | s => [s]

mutual

/-- Flatten the blocks in a statement. -/
def flattenStatement : Statement → Statement
  | .functionDefinition f ps rs body => .functionDefinition f ps rs (flatten body)
  | .if c body => .if c (flatten body)
  | .switch e cases => .switch e (flattenCases cases)
  | .forLoop pre c post body => .forLoop (flatten pre) c (flatten post) (flatten body)
  | .block ss => .block (flatten ss)
  | s => s

def flatten : List Statement → List Statement
  | [] => []
  | s :: ss => contents (flattenStatement s) ++ flatten ss

def flattenCases : List Case → List Case
  | [] => []
  | .mk value body :: cs => .mk value (flatten body) :: flattenCases cs

end

/-- Run the step on a program. -/
def run (ss : Block) : Block := flatten ss

mutual

lemma contents_flattenStatement (s : Statement) :
    contents (flattenStatement s) = s.dissolve ⟨true, false⟩ := by
  match s with
  | .expressionStatement _ | .assignment _ _ | .variableDeclaration _ _ | .break | .continue => rfl
  | .functionDefinition f ps rs body =>
    rw [flattenStatement, Statement.dissolve, flatten_eq body]
    rfl
  | .if c body =>
    rw [flattenStatement, Statement.dissolve, flatten_eq body]
    rfl
  | .switch e cases =>
    rw [flattenStatement, Statement.dissolve, flattenCases_eq cases]
    rfl
  | .forLoop pre c post body =>
    rw [flattenStatement, Statement.dissolve, if_neg nofun, flatten_eq pre, flatten_eq post,
      flatten_eq body]
    rfl
  | .block ss =>
    rw [flattenStatement, Statement.dissolve, if_pos rfl, flatten_eq ss]
    rfl

lemma flatten_eq (ss : List Statement) : flatten ss = dissolveStatements ⟨true, false⟩ ss := by
  match ss with
  | [] => rfl
  | s :: ss => rw [flatten, dissolveStatements, contents_flattenStatement s, flatten_eq ss]

lemma flattenCases_eq (cs : List Case) : flattenCases cs = dissolveCases ⟨true, false⟩ cs := by
  match cs with
  | [] => rfl
  | .mk value body :: cs => rw [flattenCases, dissolveCases, flatten_eq body, flattenCases_eq cs]

end

end BlockFlattener

end Yul
