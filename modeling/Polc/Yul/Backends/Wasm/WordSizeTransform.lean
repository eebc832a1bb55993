import Polc.Yul.Interpreter.FunctionTable
import Polc.Yul.Machine
import Polc.Yul.Optimiser.NameDispenser
import Polc.Yul.Optimiser.Prerequisites

/-!
# The word size transform

`libyul/backends/wasm/WordSizeTransform.cpp`: every variable is replaced by four variables for its
parts of 64 bits, the most significant one first.
-/

namespace Yul

open Sof

/-! ### Parts of words -/

/-- The parts of a word, the most significant one first. -/
def splitWord (w : Word) : List Word64 :=
  [w.extractLsb' 192 64, w.extractLsb' 128 64, w.extractLsb' 64 64, w.extractLsb' 0 64]

/-- The word `a * 2^192 + b * 2^128 + c * 2^64 + d`. -/
def joinWords (a b c d : Word64) : Word :=
  .ofNat 256 (a.toNat * 2 ^ 192 + b.toNat * 2 ^ 128 + c.toNat * 2 ^ 64 + d.toNat)

/-- A number as it is printed. -/
def formatDecimal (n : Nat) : YulString :=
  if n = 0 then "0" else .ofList (writeDigits 10 n)

namespace WordSizeTransform

/-- `m_variableMapping`: the new names of the variables. -/
abbrev Mapping := YulString → Option (List YulString)

structure State where
  variableMapping : Mapping
  nameDispenser : NameDispenser

def typed (name : YulString) : TypedName := ⟨name, "u64"⟩

/-- `generateU64IdentifierNames`; the source asserts that the variable has no new names yet. -/
def generateU64IdentifierNames (S : State) (x : YulString) : Option (List YulString × State) :=
  if (S.variableMapping x).isSome then none
  else
    let r := S.nameDispenser.newNames ((List.range 4).map fun i => x ++ "_" ++ toString i)
    some (r.1, ⟨fun y => if y = x then some r.1 else S.variableMapping y, r.2⟩)

def rewriteVarDeclList (S : State) : List TypedName → Option (List TypedName × State)
  | [] => some ([], S)
  | x :: xs =>
    (generateU64IdentifierNames S x.name).bind fun r =>
      (rewriteVarDeclList r.2 xs).map fun r' => (r.1.map typed ++ r'.1, r'.2)

section

variable (mapping : Mapping)

def rewriteIdentifierList : List YulString → Option (List YulString)
  | [] => some []
  | x :: xs => (mapping x).bind fun ys => (rewriteIdentifierList xs).map (ys ++ ·)

/-- `expandValue`; the source asserts that the expression is an identifier or a literal. -/
def expandValue : Expression → Option (List Expression)
  | .identifier x => (mapping x).map (·.map .identifier)
  | .literal l =>
    (valueOfLiteral l).map fun w =>
      (splitWord w).map fun v => .literal ⟨.number, formatDecimal v.toNat, "u64"⟩
  | _ => none

def rewriteFunctionCallArguments : List Expression → Option (List Expression)
  | [] => some []
  | e :: es =>
    (expandValue mapping e).bind fun vs => (rewriteFunctionCallArguments es).map (vs ++ ·)

/-- Visit an expression. -/
def visit : Expression → Option Expression
  | .functionalInstruction i args =>
    (rewriteFunctionCallArguments mapping args).map (.functionalInstruction i)
  | .functionCall f args => (rewriteFunctionCallArguments mapping args).map (.functionCall f)
  | e => some e

/-- The condition of an `if`. -/
def widenCondition (c : Expression) : Option Expression :=
  (expandValue mapping c).map (.functionCall "or_bool")

/-- Assign the values to the names one by one. -/
def assignEach (xs : List YulString) (es : List Expression) : List Statement :=
  List.zipWith (fun x e => .assignment [x] e) xs es

/-- Declare the names with the values one by one. -/
def declareEach (xs : List YulString) (es : List Expression) : List Statement :=
  List.zipWith (fun x e => .variableDeclaration [typed x] (some e)) xs es

end

/-- The statements that replace an assignment, of a value if there is a single name. -/
def transformAssignment (mapping : Mapping) (xs : List YulString) (e : Expression) :
    Option (List Statement) :=
  match e with
  | .functionalInstruction _ _ | .functionCall _ _ =>
    (visit mapping e).bind fun e =>
      (rewriteIdentifierList mapping xs).map fun xs => [.assignment xs e]
  | .identifier _ | .literal _ =>
    match xs with
    | [x] => (expandValue mapping e).bind fun es => (mapping x).map fun xs => assignEach xs es
    | _ => none

/-- The statements that replace a declaration; a value is visited before the declaration. -/
def transformDeclaration (S : State) (xs : List TypedName) :
    Option Expression → Option (List Statement × State)
  | none => (rewriteVarDeclList S xs).map fun r => ([.variableDeclaration r.1 none], r.2)
  | some e =>
    match e with
    | .functionalInstruction _ _ | .functionCall _ _ =>
      (visit S.variableMapping e).bind fun e =>
        (rewriteVarDeclList S xs).map fun r => ([.variableDeclaration r.1 (some e)], r.2)
    | .identifier _ | .literal _ =>
      match xs with
      | [x] =>
        (expandValue S.variableMapping e).bind fun es =>
          (generateU64IdentifierNames S x.name).map fun r => (declareEach r.1 es, r.2)
      | _ => none

mutual

/-- The statements that replace a statement. There is no result where the source asserts. -/
def transformStatement (S : State) : Statement → Option (List Statement × State)
  | .expressionStatement e =>
    (visit S.variableMapping e).map fun e => ([.expressionStatement e], S)
  | .assignment xs e =>
    (transformAssignment S.variableMapping xs e).map fun ss => (ss, S)
  | .variableDeclaration xs e => transformDeclaration S xs e
  | .functionDefinition f ps rs body =>
    (rewriteVarDeclList S ps).bind fun ps =>
      (rewriteVarDeclList ps.2 rs).bind fun rs =>
        (transform rs.2 body).map fun r => ([.functionDefinition f ps.1 rs.1 r.1], r.2)
  | .if c body =>
    (widenCondition S.variableMapping c).bind fun c =>
      (transform S body).map fun r => ([.if c r.1], r.2)
  | .switch _ _ => none
  | .forLoop pre c post body =>
    (transform S pre).bind fun pre =>
      (visit pre.2.variableMapping c).bind fun c =>
        (transform pre.2 post).bind fun post =>
          (transform post.2 body).map fun r => ([.forLoop pre.1 c post.1 r.1], r.2)
  | .break => some ([.break], S)
  | .continue => some ([.continue], S)
  | .block ss => (transform S ss).map fun r => ([.block r.1], r.2)

def transform (S : State) : List Statement → Option (List Statement × State)
  | [] => some ([], S)
  | s :: ss =>
    (transformStatement S s).bind fun r =>
      (transform r.2 ss).map fun r' => (r.1 ++ r'.1, r'.2)

end

/-- Run the step on a program. -/
def run (D : NameDispenser) (ss : Block) : Option Block :=
  (transform ⟨fun _ => none, D⟩ ss).map (·.1)

/-- The condition of a loop is a literal that fits into 64 bits. -/
def loopConditionFits : Statement → Bool
  | .forLoop _ (.literal l) _ _ => l.word.toNat < 2 ^ 64
  | .forLoop _ _ _ _ => false
  | _ => true

/-- The expression is a call of the given function. -/
def isCallOf (f : YulString) : Expression → Bool
  | .functionCall g _ => g = f
  | _ => false

/-- The statement calls `or_bool`. -/
def callsOrBool : Statement → Bool
  | .expressionStatement e | .assignment _ e | .variableDeclaration _ (some e) =>
    isCallOf "or_bool" e
  | _ => false

section

variable (μ : Mapping)

/-- The declared names. -/
def widenNames (xs : List TypedName) : Option (List TypedName) :=
  (rewriteIdentifierList μ (xs.map (·.name))).map (·.map typed)

def widenDeclaration (xs : List TypedName) : Option Expression → Option (List Statement)
  | none => (widenNames μ xs).map fun xs => [.variableDeclaration xs none]
  | some e =>
    match e with
    | .functionalInstruction _ _ | .functionCall _ _ =>
      (visit μ e).bind fun e => (widenNames μ xs).map fun xs => [.variableDeclaration xs (some e)]
    | .identifier _ | .literal _ =>
      match xs with
      | [x] => (expandValue μ e).bind fun es => (μ x.name).map fun xs => declareEach xs es
      | _ => none

mutual

/-- What a statement becomes if `μ` has the names of all variables. -/
def widenStatement : Statement → Option (List Statement)
  | .expressionStatement e => (visit μ e).map fun e => [.expressionStatement e]
  | .assignment xs e => transformAssignment μ xs e
  | .variableDeclaration xs e => widenDeclaration μ xs e
  | .functionDefinition f ps rs body =>
    (widenNames μ ps).bind fun ps => (widenNames μ rs).bind fun rs =>
      (widen body).map fun body => [.functionDefinition f ps rs body]
  | .if c body => (widenCondition μ c).bind fun c => (widen body).map fun body => [.if c body]
  | .switch _ _ => none
  | .forLoop pre c post body =>
    (widen pre).bind fun pre => (visit μ c).bind fun c => (widen post).bind fun post =>
      (widen body).map fun body => [.forLoop pre c post body]
  | .break => some [.break]
  | .continue => some [.continue]
  | .block ss => (widen ss).map fun ss => [.block ss]

def widen : List Statement → Option (List Statement)
  | [] => some []
  | s :: ss => (widenStatement s).bind fun ts => (widen ss).map (ts ++ ·)

end

end

end WordSizeTransform

end Yul
