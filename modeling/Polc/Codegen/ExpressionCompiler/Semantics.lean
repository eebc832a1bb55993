import Polc.Codegen.ExpressionCompiler

/-!
# The meaning of expressions

Expressions of value types as the language describes them, on numbers: arithmetic wraps at the
width of the type, division and modulo truncate, right shifts round down. And how a word on the
stack represents a number: the bits outside the width of the type do not count, except that a
Boolean is true for all words but zero and that an enumeration takes up the whole word.
-/

namespace Polynomial

open Sof (Word)

/-- Why an execution stops. -/
inductive Failure where
  | divisionByZero
  | negativeShift
  | enumOutOfRange
  deriving DecidableEq, Repr

namespace IntegerType

variable (t : IntegerType)

/-- The value a number wraps to. -/
def wrap (n : ℤ) : ℤ := if t.isSigned then n.bmod (2 ^ t.numBits) else n % (2 ^ t.numBits : ℕ)

/-- The number that bits stand for. -/
def ofBits (x : BitVec t.numBits) : ℤ := if t.isSigned then x.toInt else x.toNat

end IntegerType

/-- The bit operators. -/
def bitOperation {n : ℕ} (op : BinaryOperator) (a b : BitVec n) : BitVec n :=
  match op with
  | .bitOr => a ||| b
  | .bitXor => a ^^^ b
  | _ => a &&& b

/-- The comparison operators. -/
def comparison (op : BinaryOperator) (a b : ℤ) : Bool :=
  match op with
  | .equal => a = b
  | .notEqual => a ≠ b
  | .lessThan => a < b
  | .greaterThan => b < a
  | .lessThanOrEqual => a ≤ b
  | _ => b ≤ a

/-- Operators on integers, apart from comparisons. -/
def integerOperation (t : IntegerType) (op : BinaryOperator) (a b : ℤ) : Except Failure ℤ :=
  match op with
  | .add => .ok (t.wrap (a + b))
  | .sub => .ok (t.wrap (a - b))
  | .mul => .ok (t.wrap (a * b))
  | .div => if b = 0 then .error .divisionByZero else .ok (t.wrap (a.tdiv b))
  | .mod => if b = 0 then .error .divisionByZero else .ok (a.tmod b)
  | .exp => .ok (t.wrap (a ^ b.toNat))
  | .shl => if b < 0 then .error .negativeShift else .ok (t.wrap (a * 2 ^ b.toNat))
  | .sar => if b < 0 then .error .negativeShift else .ok (a / 2 ^ b.toNat)
  | op => .ok (t.ofBits (bitOperation op (.ofInt _ a) (.ofInt _ b)))

/-- Operators on byte strings, apart from comparisons. -/
def fixedBytesOperation (t : FixedBytesType) (op : BinaryOperator) (a b : ℤ) : Except Failure ℤ :=
  match op with
  | .shl =>
    if b < 0 then .error .negativeShift else .ok (a * 2 ^ b.toNat % 2 ^ (t.numBytes * 8))
  | .sar => if b < 0 then .error .negativeShift else .ok (a / 2 ^ b.toNat)
  | op => .ok (bitOperation op (BitVec.ofInt (t.numBytes * 8) a) (.ofInt _ b)).toNat

def binaryOperation (op : BinaryOperator) (commonType : ValueType) (a b : ℤ) :
    Except Failure ℤ :=
  if op.isCompareOp then .ok (if comparison op a b then 1 else 0)
  else
    match commonType with
    | .integer t => integerOperation t op a b
    | .fixedBytes t => fixedBytesOperation t op a b
    | _ => .ok 0

def unaryOperation (op : UnaryOperator) (type : ValueType) (a : ℤ) : ℤ :=
  match op, type with
  | .not, _ => if a = 0 then 1 else 0
  | .bitNot, .integer t => t.ofBits (~~~(.ofInt _ a))
  | .bitNot, .fixedBytes t => (~~~(BitVec.ofInt (t.numBytes * 8) a)).toNat
  | .sub, .integer t => t.wrap (-a)
  | _, _ => a

namespace ValueType

/-- The member of the given number. -/
def enumMember (t : EnumType) (v : ℤ) : Except Failure ℤ :=
  if 0 ≤ v ∧ v < t.numberOfMembers then .ok v else .error .enumOutOfRange

/-- The value of a value converted to another type. A conversion of an enumeration to itself does
not look at it. -/
def convert (type targetType : ValueType) (v : ℤ) : Except Failure ℤ :=
  match type, targetType with
  | fixedBytes s, fixedBytes t =>
    .ok (if s.numBytes ≤ t.numBytes then v * 256 ^ (t.numBytes - s.numBytes)
      else v / 256 ^ (s.numBytes - t.numBytes))
  | stringLiteral s, fixedBytes t => .ok (v * 256 ^ (t.numBytes - s.length))
  | _, fixedBytes t => .ok (v % 256 ^ t.numBytes)
  | enum _, enum _ => .ok v
  | enum s, integer t => (enumMember s v).map t.wrap
  | _, enum t => enumMember t v
  | _, integer t => .ok (t.wrap v)
  | function _, address _ => .ok (v / 2 ^ 32)
  | _, address _ | _, contract _ => .ok (v % 2 ^ 160)
  | _, _ => .ok v

/-- An operand of an operator: here enumerations have to be in range. -/
def operand (type targetType : ValueType) (v : ℤ) : Except Failure ℤ :=
  (convert type targetType v).bind fun v =>
    match targetType with
    | enum t => enumMember t v
    | _ => .ok v

end ValueType

/-- The values of the local variables. -/
abbrev Store := ℕ → ℤ

namespace Expression

variable (Γ : LocalVariables)

/-- The value of an expression and the variables after it. Right operands come first. -/
def eval : Expression → Store → Except Failure (ℤ × Store)
  | identifier o, σ => .ok (σ o, σ)
  | boolLiteral b, σ => .ok (if b then 1 else 0, σ)
  | numberLiteral q _, σ => .ok (q.num, σ)
  | addressLiteral a, σ => .ok (a.toNat, σ)
  | stringLiteral s, σ => .ok (bytesToNat s, σ)
  | typeConversion t e, σ =>
    match typeOf Γ e, typeOf Γ (typeConversion t e) with
    | some type, some resultType => do
      let (v, σ) ← eval e σ
      return (← type.convert resultType v, σ)
    | _, _ => .ok (0, σ)
  | unaryOperation op e, σ =>
    match typeOf Γ (unaryOperation op e) with
    | some (.rationalNumber q _) => .ok (q.num, σ)
    | some type => do
      let (v, σ) ← eval e σ
      return (Polynomial.unaryOperation op type v, σ)
    | none => .ok (0, σ)
  | countOperation isIncrement isPrefixOperation o, σ =>
    match Γ.type o with
    | some (.integer t) =>
      let v := t.wrap (if isIncrement then σ o + 1 else σ o - 1)
      .ok (if isPrefixOperation then v else σ o, Function.update σ o v)
    | _ => .ok (0, σ)
  | binaryOperation op l r, σ =>
    match typeOf Γ l, typeOf Γ r with
    | some leftType, some rightType =>
      match leftType.binaryOperatorResult op rightType with
      | some (.rationalNumber q _) => .ok (q.num, σ)
      | some commonType => do
        let rightTarget := (ExpressionCompiler.rightTargetType op commonType rightType).getD commonType
        let (b, σ) ← eval r σ
        let b ← rightType.operand rightTarget b
        let (a, σ) ← eval l σ
        let a ← leftType.operand commonType a
        return (← Polynomial.binaryOperation op commonType a b, σ)
      | none => .ok (0, σ)
    | _, _ => .ok (0, σ)
  | assignment o r, σ =>
    match Γ.type o, typeOf Γ r with
    | some leftType, some rightType => do
      let (v, σ) ← eval r σ
      let v ← rightType.convert leftType v
      return (v, Function.update σ o v)
    | _, _ => .ok (0, σ)
  | compoundAssignment op o r, σ =>
    match Γ.type o, typeOf Γ r with
    | some leftType, some rightType => do
      let rightTarget := (ExpressionCompiler.rightTargetType op leftType rightType).getD leftType
      let (b, σ) ← eval r σ
      let b ← rightType.operand rightTarget b
      let v ← Polynomial.binaryOperation op leftType (σ o) b
      return (v, Function.update σ o v)
    | _, _ => .ok (0, σ)

end Expression

namespace ValueType

/-- The value that a word stands for, for the types with one stack slot. -/
def valueOf : ValueType → Word → ℤ
  | integer t, w => t.wrap w.toNat
  | fixedBytes t, w => (w.toNat / 2 ^ (256 - t.numBytes * 8) : ℕ)
  | bool, w => if w = 0 then 0 else 1
  | enum _, w => w.toNat
  | address _, w | contract _, w => (w.toNat % 2 ^ 160 : ℕ)
  | function _, w => (w.toNat % 2 ^ 32 : ℕ)
  | rationalNumber _ _, w => w.toInt
  | stringLiteral _, _ => 0

/-- The words, the topmost one first, represent the value. A constant has only one
representation, and a string literal is not on the stack. -/
def Represents : ValueType → ℤ → List Word → Prop
  | rationalNumber q _, v, ws => v = q.num ∧ ws = [.ofInt 256 v]
  | stringLiteral s, v, ws => v = bytesToNat s ∧ ws = []
  | function t, v, ws =>
    if t.isExternal then
      ∃ selector address, ws = [selector, address] ∧
        v = (address.toNat % 2 ^ 160 * 2 ^ 32 + selector.toNat % 2 ^ 32 : ℕ)
    else ∃ w, ws = [w] ∧ (function t).valueOf w = v
  | t, v, ws => ∃ w, ws = [w] ∧ t.valueOf w = v

end ValueType

/-- The slots of a variable in a frame whose lowest slot comes first, the topmost slot first. -/
def slots (frame : List Word) (o size : ℕ) : List Word := ((frame.drop o).take size).reverse

/-- The frame holds the values of the variables. -/
def LocalVariables.Holds (Γ : LocalVariables) (σ : Store) (frame : List Word) : Prop :=
  ∀ o t, Γ.type o = some t → t.Represents (σ o) (slots frame o t.sizeOnStack)

end Polynomial
