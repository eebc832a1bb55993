import Polc.Sof.Instruction

/-!
# Abstract syntax of Yul

`libyul/AsmData.h` without source locations. The constructs of the loose dialect (bare
instructions, labels and stack assignments) are left out: the optimiser and the strict
dialects never see them.
-/

namespace Yul

abbrev YulString := String

/-- A declared name with its type. -/
structure TypedName where
  name : YulString
  type : YulString
  deriving DecidableEq, Repr

inductive LiteralKind where
  | number | boolean | string
  deriving DecidableEq, Repr

/-- Literal number or string (up to 32 bytes), as it is written. -/
structure Literal where
  kind : LiteralKind
  value : YulString
  type : YulString
  deriving DecidableEq, Repr

inductive Expression where
  | functionalInstruction (instruction : Sof.Instruction) (arguments : List Expression)
  | functionCall (functionName : YulString) (arguments : List Expression)
  | identifier (name : YulString)
  | literal (l : Literal)
  deriving Repr

mutual

inductive Statement where
  | expressionStatement (expression : Expression)
  | assignment (variableNames : List YulString) (value : Expression)
  | variableDeclaration (names : List TypedName) (value : Option Expression)
  | functionDefinition (name : YulString) (parameters returnVariables : List TypedName)
    (body : List Statement)
  | «if» (condition : Expression) (body : List Statement)
  | switch (expression : Expression) (cases : List Case)
  | forLoop (pre : List Statement) (condition : Expression) (post body : List Statement)
  | «break»
  | «continue»
  | block (statements : List Statement)

/-- Switch case, or default case where there is no value. -/
inductive Case where
  | mk (value : Option Literal) (body : List Statement)

end

abbrev Block := List Statement

/-- The untyped number literal with the given text. -/
def Literal.number (value : YulString) : Literal := ⟨.number, value, ""⟩

end Yul
