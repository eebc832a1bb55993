import Mathlib.Data.Nat.Notation
import Mathlib.Tactic.Lemma

/-!
# Parsing expressions

The parser of expressions in `libpolynomial/parsing/Parser.cpp`, on the tokens of
`liblangutil/Token.h`. Names of types are parsed elsewhere. Locations are left out, and an error,
also one that is only reported, is no result. The number that a function recurses on is the number
of calls that the `RecursionGuard`s still let nest.
-/

namespace Polynomial

namespace Parser

inductive BinaryOperator where
  | or | and | bitOr | bitXor | bitAnd | shl | sar | shr | add | sub | mul | div | mod | exp
  | equal | notEqual | lessThan | greaterThan | lessThanOrEqual | greaterThanOrEqual
  deriving DecidableEq

inductive AssignmentOperator where
  | assign | bitOr | bitXor | bitAnd | shl | sar | shr | add | sub | mul | div | mod
  deriving DecidableEq

/-- The tokens that expressions are made of. The others end them. -/
inductive Token where
  | eos | lParen | rParen | lBrack | rBrack | lBrace | rBrace | colon | period | conditional | comma
  | assignment (op : AssignmentOperator) | binary (op : BinaryOperator)
  | not | bitNot | inc | dec | delete | assemblyAssign | new | type | trueLiteral | falseLiteral
  | subdenomination (name : String) | elementaryTypeName (name : String)
  | number (literal : String) | stringLiteral (literal : String) | identifier (name : String)
  | other (text : String)
  deriving DecidableEq

namespace Token

def isAssignmentOp : Token → Bool
  | assignment _ => true
  | _ => false

def isUnaryOp : Token → Bool
  | not | bitNot | inc | dec | delete | binary .add | binary .sub => true
  | _ => false

def isCountOp : Token → Bool
  | inc | dec => true
  | _ => false

/-- The precedences of the table. -/
def precedence : Token → ℕ
  | comma => 1
  | assignment _ | assemblyAssign => 2
  | conditional => 3
  | binary op =>
    match op with
    | .or => 4
    | .and => 5
    | .equal | .notEqual => 6
    | .lessThan | .greaterThan | .lessThanOrEqual | .greaterThanOrEqual => 7
    | .bitOr => 8
    | .bitXor => 9
    | .bitAnd => 10
    | .shl | .sar | .shr => 11
    | .add | .sub => 12
    | .mul | .div | .mod => 13
    | .exp => 14
  | _ => 0

end Token

/-! ### Expressions -/

inductive Expression (TypeName : Type) where
  | assignment (leftHandSide : Expression TypeName) (op : Token)
    (rightHandSide : Expression TypeName)
  | conditional (condition trueExpression falseExpression : Expression TypeName)
  | unaryOperation (op : Token) (subExpression : Expression TypeName) (isPrefixOperation : Bool)
  | binaryOperation (left : Expression TypeName) (op : Token) (right : Expression TypeName)
  | newExpression (typeName : TypeName)
  | indexAccess (base : Expression TypeName) (index : Option (Expression TypeName))
  | memberAccess (expression : Expression TypeName) (memberName : String)
  | functionCall (expression : Expression TypeName) (arguments : List (Expression TypeName))
    (names : List String)
  | literal (token : Token) (subDenomination : Option String)
  | identifier (name : String)
  | tupleExpression (components : List (Option (Expression TypeName))) (isInlineArray : Bool)
  | elementaryTypeNameExpression (name : String)

/-! ### The loops

Each round of a loop takes a token or goes one level down, which bounds their number. -/

/-- A parser takes its tokens off the front. -/
abbrev Parse (α : Type) := List Token → Option (α × List Token)

def currentToken (ts : List Token) : Token := ts.headD .eos

@[simp]
lemma currentToken_cons (token : Token) (ts : List Token) : currentToken (token :: ts) = token :=
  rfl

def expectToken (token : Token) (ts : List Token) : Option (List Token) :=
  if currentToken ts = token then some ts.tail else none

@[simp]
lemma expectToken_cons (token : Token) (ts : List Token) :
    expectToken token (token :: ts) = some ts := if_pos rfl

def expectIdentifierToken : Parse String
  | .identifier name :: ts => some (name, ts)
  | _ => none

variable {TypeName : Type}

/-- The two loops of `parseBinaryExpression`. -/
def parseOperators (parseBinaryExpression : ℕ → Parse (Expression TypeName)) (minPrecedence : ℕ) :
    ℕ → ℕ → Expression TypeName → Parse (Expression TypeName)
  | 0, _, _, _ => none
  | k + 1, precedence, expression, ts =>
    if precedence < minPrecedence then some (expression, ts)
    else if (currentToken ts).precedence = precedence then do
      let (right, rest) ← parseBinaryExpression (precedence + 1) ts.tail
      parseOperators parseBinaryExpression minPrecedence k precedence
        (.binaryOperation expression (currentToken ts) right) rest
    else parseOperators parseBinaryExpression minPrecedence k (precedence - 1) expression ts

/-- The loop of `parseLeftHandSideExpression`. -/
def parsePostfixes (parseExpression : Parse (Expression TypeName))
    (parseFunctionCallArguments : Parse (List (Expression TypeName) × List String)) :
    ℕ → Expression TypeName → Parse (Expression TypeName)
  | 0, _, _ => none
  | k + 1, expression, ts =>
    match ts with
    | .lBrack :: .rBrack :: ts =>
      parsePostfixes parseExpression parseFunctionCallArguments k (.indexAccess expression none) ts
    | .lBrack :: ts => do
      let (index, ts) ← parseExpression ts
      let ts ← expectToken .rBrack ts
      parsePostfixes parseExpression parseFunctionCallArguments k
        (.indexAccess expression (some index)) ts
    | .period :: ts => do
      let (memberName, ts) ← expectIdentifierToken ts
      parsePostfixes parseExpression parseFunctionCallArguments k
        (.memberAccess expression memberName) ts
    | .lParen :: ts => do
      let ((arguments, names), ts) ← parseFunctionCallArguments ts
      let ts ← expectToken .rParen ts
      parsePostfixes parseExpression parseFunctionCallArguments k
        (.functionCall expression arguments names) ts
    | ts => some (expression, ts)

/-- The components of a tuple, or the elements of an array, which cannot be omitted. -/
def parseComponents (parseExpression : Parse (Expression TypeName)) (oppositeToken : Token) :
    ℕ → List (Option (Expression TypeName)) → Parse (List (Option (Expression TypeName)))
  | 0, _, _ => none
  | k + 1, components, ts => do
    let (component, ts) ←
      if currentToken ts ≠ .comma ∧ currentToken ts ≠ oppositeToken then
        (parseExpression ts).map fun (expression, ts) => (some expression, ts)
      else if oppositeToken = .rBrack then none
      else some (none, ts)
    if currentToken ts = oppositeToken then some (components ++ [component], ts.tail)
    else
      let ts ← expectToken .comma ts
      parseComponents parseExpression oppositeToken k (components ++ [component]) ts

def parseListArguments (parseExpression : Parse (Expression TypeName)) :
    ℕ → List (Expression TypeName) → Parse (List (Expression TypeName))
  | 0, _, _ => none
  | k + 1, arguments, ts => do
    let (argument, ts) ← parseExpression ts
    if currentToken ts = .rParen then some (arguments ++ [argument], ts)
    else
      let ts ← expectToken .comma ts
      parseListArguments parseExpression k (arguments ++ [argument]) ts

/-- `call({arg1 : 1, arg2 : 2})` -/
def parseNamedArguments (parseExpression : Parse (Expression TypeName)) :
    ℕ → List (Expression TypeName) → List String →
      Parse (List (Expression TypeName) × List String)
  | 0, _, _, _ => none
  | k + 1, arguments, names, ts => do
    let (name, ts) ← expectIdentifierToken ts
    let ts ← expectToken .colon ts
    let (argument, ts) ← parseExpression ts
    if currentToken ts = .rBrace then
      some ((arguments ++ [argument], names ++ [name]), ts.tail)
    else
      let ts ← expectToken .comma ts
      parseNamedArguments parseExpression k (arguments ++ [argument]) (names ++ [name]) ts

/-! ### The functions -/

variable (parseTypeName : ℕ → Parse TypeName)

mutual

/-- Parse an expression, or go on behind a part of it. -/
def parseExpression : ℕ → Option (Expression TypeName) → Parse (Expression TypeName)
  | 0, _, _ => none
  | n + 1, partiallyParsed, ts => do
    let (expression, ts) ← parseBinaryExpression n 4 partiallyParsed ts
    if (currentToken ts).isAssignmentOp then
      let (rightHandSide, rest) ← parseExpression n none ts.tail
      some (.assignment expression (currentToken ts) rightHandSide, rest)
    else if currentToken ts = .conditional then
      let (trueExpression, ts) ← parseExpression n none ts.tail
      let ts ← expectToken .colon ts
      let (falseExpression, ts) ← parseExpression n none ts
      some (.conditional expression trueExpression falseExpression, ts)
    else some (expression, ts)

def parseBinaryExpression : ℕ → ℕ → Option (Expression TypeName) → Parse (Expression TypeName)
  | 0, _, _, _ => none
  | n + 1, minPrecedence, partiallyParsed, ts => do
    let (expression, ts) ← parseUnaryExpression n partiallyParsed ts
    let precedence := (currentToken ts).precedence
    parseOperators (fun minPrecedence => parseBinaryExpression n minPrecedence none) minPrecedence
      (ts.length + precedence + 1) precedence expression ts

def parseUnaryExpression : ℕ → Option (Expression TypeName) → Parse (Expression TypeName)
  | 0, _, _ => none
  | n + 1, partiallyParsed, ts =>
    if partiallyParsed.isNone ∧ ((currentToken ts).isUnaryOp ∨ (currentToken ts).isCountOp) then do
      let (subExpression, rest) ← parseUnaryExpression n none ts.tail
      some (.unaryOperation (currentToken ts) subExpression true, rest)
    else do
      let (subExpression, ts) ← parseLeftHandSideExpression n partiallyParsed ts
      if (currentToken ts).isCountOp then
        some (.unaryOperation (currentToken ts) subExpression false, ts.tail)
      else some (subExpression, ts)

def parseLeftHandSideExpression : ℕ → Option (Expression TypeName) → Parse (Expression TypeName)
  | 0, _, _ => none
  | n + 1, partiallyParsed, ts => do
    let (expression, ts) ←
      match partiallyParsed with
      | some expression => some (expression, ts)
      | none =>
        if currentToken ts = .new then
          (parseTypeName n ts.tail).map fun (typeName, ts) => (.newExpression typeName, ts)
        else parsePrimaryExpression n ts
    parsePostfixes (parseExpression n none) (parseFunctionCallArguments n) (ts.length + 1)
      expression ts

def parsePrimaryExpression : ℕ → Parse (Expression TypeName)
  | 0, _ => none
  | n + 1, ts =>
    match ts with
    | .trueLiteral :: ts => some (.literal .trueLiteral none, ts)
    | .falseLiteral :: ts => some (.literal .falseLiteral none, ts)
    | .number literal :: .subdenomination name :: ts =>
      some (.literal (.number literal) (some name), ts)
    | .number literal :: ts => some (.literal (.number literal) none, ts)
    | .stringLiteral literal :: ts => some (.literal (.stringLiteral literal) none, ts)
    | .identifier name :: ts => some (.identifier name, ts)
    -- Inside expressions "type" is the name of a special, globally-available function.
    | .type :: ts => some (.identifier "type", ts)
    | .lParen :: .rParen :: ts => some (.tupleExpression [] false, ts)
    | .lBrack :: .rBrack :: ts => some (.tupleExpression [] true, ts)
    | .lParen :: ts => do
      let (components, ts) ← parseComponents (parseExpression n none) .rParen (ts.length + 1) [] ts
      some (.tupleExpression components false, ts)
    | .lBrack :: ts => do
      let (components, ts) ← parseComponents (parseExpression n none) .rBrack (ts.length + 1) [] ts
      some (.tupleExpression components true, ts)
    | .elementaryTypeName name :: ts => some (.elementaryTypeNameExpression name, ts)
    | _ => none

def parseFunctionCallListArguments : ℕ → Parse (List (Expression TypeName))
  | 0, _ => none
  | n + 1, ts =>
    if currentToken ts = .rParen then some ([], ts)
    else parseListArguments (parseExpression n none) (ts.length + 1) [] ts

def parseFunctionCallArguments : ℕ → Parse (List (Expression TypeName) × List String)
  | 0, _ => none
  | n + 1, ts =>
    match ts with
    | .lBrace :: .rBrace :: ts => some (([], []), ts)
    | .lBrace :: ts => parseNamedArguments (parseExpression n none) (ts.length + 1) [] [] ts
    | ts => (parseFunctionCallListArguments n ts).map fun (arguments, ts) => ((arguments, []), ts)

end

/-- `parseExpression` where `m_recursionDepth` is `recursionDepth`. -/
def parseExpressionAt (recursionDepth : ℕ) : Parse (Expression TypeName) :=
  parseExpression parseTypeName (2560 - 1 - recursionDepth) none

end Parser

end Polynomial
