import Polc.Sof.SimplificationRules
import Polc.Yul.Optimiser.Semantics
import Polc.Yul.Optimiser.SyntacticalEquality

/-!
# Matching the simplification rules against Yul expressions

`libyul/optimiser/SimplificationRules.cpp`: the matcher and the way back from patterns to
expressions. The list of rules is shared with the assembly optimiser.
-/

namespace Yul

open Sof

/-- What the placeholders have matched so far. -/
abbrev MatchGroups := MatchGroup → Option Expression

namespace MatchGroups

def set (groups : MatchGroups) (g : MatchGroup) (e : Expression) : MatchGroups :=
  fun g' => if g' = g then some e else groups g'

/-- The value of the literal a placeholder has matched (`Pattern::d`). The source throws where
there is none; no rule asks for it then. -/
def d (groups : MatchGroups) (g : MatchGroup) : Word :=
  match groups g with
  | some (.literal l) => (valueOfNumberLiteral l.value).getD 0
  | _ => 0

end MatchGroups

/-- Assertions of the matcher. -/
inductive MatchException where
  | argumentCount
  | matchGroupRepetition
  deriving DecidableEq, Repr

/-- The values of variables that are known, `m_value` of the data flow analysis. -/
abbrev SSAValues := YulString → Option Expression

/-- The value of a variable where it is known, the expression itself otherwise. -/
def Expression.resolve (ssaValues : SSAValues) : Expression → Expression
  | .identifier x => (ssaValues x).getD (.identifier x)
  | e => e

/-- The instruction at the root of an expression and its arguments. -/
def instructionAndArguments (dialect : Dialect) :
    Expression → Option (Instruction × List Expression)
  | .functionalInstruction i args => some (i, args)
  | .functionCall f args => (dialect.builtin f).bind fun b => b.instruction.map (·, args)
  | _ => none

/-- The number literal an expression is. -/
def Expression.numberLiteral : Expression → Option Literal
  | .literal l => if l.kind = .number then some l else none
  | _ => none

section

variable (dialect : Dialect) (ssaValues : SSAValues)

mutual

/-- Match an expression and collect what the placeholders match. Constants and operations look
through variables, the other placeholders do not. -/
def Pattern.matches (p : Pattern) (expr : Expression) (groups : MatchGroups) :
    Except MatchException (Option MatchGroups) :=
  match p with
  | .constant w =>
    match (expr.resolve ssaValues).numberLiteral with
    | none => .ok none
    | some l => .ok (if u256OfString l.value.toList = w then some groups else none)
  | .operation i ps =>
    match instructionAndArguments dialect (expr.resolve ssaValues) with
    | none => .ok none
    | some (i', args) =>
      if i ≠ i' then .ok none
      else if ps.length = args.length then Pattern.matchesArguments ps args groups
      else .error .argumentCount
  | .group g =>
    if g.isConstant then
      match (expr.resolve ssaValues).numberLiteral with
      | none => .ok none
      | some l =>
        match groups g with
        | some _ => .error .matchGroupRepetition
        | none => .ok (some (groups.set g (.literal l)))
    else
      match groups g with
      | some e =>
        .ok (if e.syntacticallyEqual expr && expr.movable dialect then some groups else none)
      | none => .ok (some (groups.set g expr))

/-- Match the arguments from left to right. -/
def Pattern.matchesArguments (ps : List Pattern) (args : List Expression)
    (groups : MatchGroups) : Except MatchException (Option MatchGroups) :=
  match ps, args with
  | [], _ => .ok (some groups)
  | _ :: _, [] => .error .argumentCount
  | p :: ps, e :: args =>
    match Pattern.matches p e groups with
    | .ok (some groups) => Pattern.matchesArguments ps args groups
    | r => r

end

namespace SimplificationRules

/-- The first of the given rules that matches and is feasible, with what it matched. -/
def findFirstMatchIn (expr : Expression) :
    List SimplificationRule → Except MatchException (Option (SimplificationRule × MatchGroups))
  | [] => .ok none
  | rule :: rules =>
    match Pattern.matches dialect ssaValues rule.pattern expr (fun _ => none) with
    | .error e => .error e
    | .ok none => findFirstMatchIn expr rules
    | .ok (some groups) =>
      if rule.feasible groups.d then .ok (some (rule, groups)) else findFirstMatchIn expr rules

/-- The first matching rule and what its placeholders have matched. -/
def findFirstMatch (expr : Expression) :
    Except MatchException (Option (SimplificationRule × MatchGroups)) :=
  match instructionAndArguments dialect expr with
  | none => .ok none
  | some (i, _) => findFirstMatchIn dialect ssaValues expr (Rules.rulesFor i)

end SimplificationRules

end

mutual

/-- The expression a pattern stands for. The source throws at a placeholder that has matched
nothing; no action has one. -/
def Pattern.toExpression (groups : MatchGroups) : Pattern → Expression
  | .group g => (groups g).getD (.literal (.number "0"))
  | .constant w => .literal (.number (formatNumber w))
  | .operation i ps => .functionalInstruction i (Pattern.toExpressions groups ps)

def Pattern.toExpressions (groups : MatchGroups) : List Pattern → List Expression
  | [] => []
  | p :: ps => Pattern.toExpression groups p :: Pattern.toExpressions groups ps

end

section

variable {dialect : Dialect} {ssaValues : SSAValues} {i : Instruction} {p : Pattern}
  {ps : List Pattern} {e : Expression} {es : List Expression} {groups : MatchGroups}

lemma Pattern.matches_constant (w : Word) :
    Pattern.matches dialect ssaValues (.constant w) e groups =
      match (e.resolve ssaValues).numberLiteral with
      | none => .ok none
      | some l => .ok (if u256OfString l.value.toList = w then some groups else none) := rfl

lemma Pattern.matches_group (g : MatchGroup) :
    Pattern.matches dialect ssaValues (.group g) e groups =
      if g.isConstant then
        match (e.resolve ssaValues).numberLiteral with
        | none => .ok none
        | some l =>
          match groups g with
          | some _ => .error .matchGroupRepetition
          | none => .ok (some (groups.set g (.literal l)))
      else
        match groups g with
        | some e' =>
          .ok (if e'.syntacticallyEqual e && e.movable dialect then some groups else none)
        | none => .ok (some (groups.set g e)) := rfl

lemma Pattern.matches_operation :
    Pattern.matches dialect ssaValues (.operation i ps) e groups =
      match instructionAndArguments dialect (e.resolve ssaValues) with
      | none => .ok none
      | some (i', args) =>
        if i ≠ i' then .ok none
        else if ps.length = args.length then
          Pattern.matchesArguments dialect ssaValues ps args groups
        else .error .argumentCount := rfl

lemma Pattern.matchesArguments_nil :
    Pattern.matchesArguments dialect ssaValues [] es groups = .ok (some groups) := by
  cases es <;> rfl

lemma Pattern.matchesArguments_cons :
    Pattern.matchesArguments dialect ssaValues (p :: ps) (e :: es) groups =
      match Pattern.matches dialect ssaValues p e groups with
      | .ok (some groups) => Pattern.matchesArguments dialect ssaValues ps es groups
      | r => r := rfl

end

end Yul
