import Polc.Ast.AST
import Mathlib.Data.Int.Bitwise
import Mathlib.Data.Nat.Log
import Mathlib.Data.Rat.Floor

/-!
# Value types

The value types and the types of the literals that convert to them, with the rules of
`libpolynomial/ast/Types.cpp` for conversions and operators. Fixed point types are left out, as
code generation does not implement them: a fractional constant has no mobile type here.
-/

namespace Polynomial

/-! ### The types -/

structure IntegerType where
  numBits : ℕ
  isSigned : Bool
  valid : 0 < numBits ∧ numBits ≤ 256 ∧ numBits % 8 = 0
  deriving DecidableEq

lemma valid_eight : 0 < 8 ∧ 8 ≤ 256 ∧ 8 % 8 = 0 := by decide

lemma valid_sixteen : 0 < 16 ∧ 16 ≤ 256 ∧ 16 % 8 = 0 := by decide

structure FixedBytesType where
  numBytes : ℕ
  valid : 0 < numBytes ∧ numBytes ≤ 32
  deriving DecidableEq

/-- An enumeration; the number of its members is a `size_t`. -/
structure EnumType where
  id : ℕ
  numberOfMembers : ℕ
  valid : 0 < numberOfMembers ∧ numberOfMembers < 2 ^ 64
  deriving DecidableEq

structure ContractType where
  id : ℕ
  linearizedBaseContracts : List ℕ
  isPayable : Bool
  deriving DecidableEq

/-- A function type that a variable can have. The signature is what `equalExcludingStateMutability`
compares apart from the kind. -/
structure FunctionType where
  isExternal : Bool
  signature : ℕ
  stateMutability : StateMutability
  deriving DecidableEq

inductive ValueType where
  | integer (type : IntegerType)
  | fixedBytes (type : FixedBytesType)
  | bool
  | enum (type : EnumType)
  | address (payable : Bool)
  | contract (type : ContractType)
  | function (type : FunctionType)
  | rationalNumber (value : ℚ) (compatibleBytesType : Option FixedBytesType)
  | stringLiteral (value : List (BitVec 8))
  deriving DecidableEq

def ValueType.isSigned : ValueType → Bool
  | integer t => t.isSigned
  | _ => false

/-- The number of bytes that `n` takes. -/
def bytesRequired (n : ℕ) : ℕ := if n = 0 then 0 else n.log2 / 8 + 1

lemma bytesRequired_le {n : ℕ} (h : n < 2 ^ 256) : bytesRequired n ≤ 32 := by
  unfold bytesRequired
  split_ifs with h₀
  · omega
  · have := (Nat.log2_lt h₀).mpr h
    omega

lemma lt_pow_bytesRequired (n : ℕ) : n < 2 ^ (bytesRequired n * 8) := by
  unfold bytesRequired
  split_ifs with h₀
  · rw [h₀]
    exact Nat.two_pow_pos _
  · exact (Nat.log2_lt h₀).mp (by omega)

namespace IntegerType

def minValue (t : IntegerType) : ℤ := if t.isSigned then -2 ^ (t.numBits - 1) else 0

def maxValue (t : IntegerType) : ℤ :=
  if t.isSigned then 2 ^ (t.numBits - 1) - 1 else 2 ^ t.numBits - 1

/-- `fitsIntegerType`. -/
def fits (t : IntegerType) (value : ℤ) : Bool :=
  if value < 0 ∧ t.isSigned = false then false
  else decide (t.minValue ≤ value ∧ value ≤ t.maxValue)

def isImplicitlyConvertibleTo (t convertTo : IntegerType) : Bool :=
  if convertTo.numBits < t.numBits then false
  else if t.isSigned then convertTo.isSigned
  else !convertTo.isSigned || t.numBits < convertTo.numBits

def isExplicitlyConvertibleTo (t : IntegerType) : ValueType → Bool
  | .integer _ | .address _ | .contract _ | .enum _ => true
  | .fixedBytes convertTo => t.numBits = convertTo.numBytes * 8
  | _ => false

end IntegerType

def FunctionType.isImplicitlyConvertibleTo (t convertTo : FunctionType) : Bool :=
  t.isExternal = convertTo.isExternal && t.signature = convertTo.signature &&
    match t.stateMutability, convertTo.stateMutability with
    | .payable, .payable | .payable, .nonPayable => true
    | .payable, _ | _, .payable => false
    | .nonPayable, m => m = .nonPayable
    | .view, m => m = .view || m = .nonPayable
    | .pure, _ => true

namespace RationalNumberType

def isFractional (q : ℚ) : Bool := q.den ≠ 1

/-- The number whose size is that of the smallest integer type for the constant `n`. -/
def magnitude (n : ℤ) : ℕ := (if n < 0 then (-n - 1) * 2 else n).toNat

/-- The smallest integer type for a constant. -/
def integerType (q : ℚ) : Option IntegerType :=
  if h : magnitude q.num < 2 ^ 256 then
    some ⟨max (bytesRequired (magnitude q.num)) 1 * 8, q.num < 0,
      by have := bytesRequired_le h; omega⟩
  else none

def mobileType (q : ℚ) : Option IntegerType :=
  if isFractional q then none else integerType q

/-- The stack word of a constant, if there is one. -/
def literalValue (q : ℚ) : Option (BitVec 256) :=
  if isFractional q then none
  else if -2 ^ 255 ≤ q.num ∧ q.num < 2 ^ 256 then some (.ofInt 256 q.num) else none

def fitsPrecisionExp (base exp : ℕ) : Bool :=
  base = 0 || base.log2 = 0 || (base.log2 ≤ 4096 && exp * (base.log2 + 1) ≤ 4096)

def fitsPrecisionBase2 (mantissa exp : ℕ) : Bool :=
  mantissa = 0 || (mantissa.log2 ≤ 4096 && mantissa.log2 + exp + 1 ≤ 4096)

end RationalNumberType

/-! ### Operators -/

inductive UnaryOperator where
  | not | bitNot | add | sub
  deriving DecidableEq, Repr

/-- The binary operators without the short-circuiting ones. -/
inductive BinaryOperator where
  | bitOr | bitXor | bitAnd
  | shl | sar | shr
  | add | sub | mul | div | mod | exp
  | equal | notEqual | lessThan | greaterThan | lessThanOrEqual | greaterThanOrEqual
  deriving DecidableEq, Repr

namespace BinaryOperator

def isBitOp : BinaryOperator → Bool
  | bitOr | bitXor | bitAnd => true
  | _ => false

def isShiftOp : BinaryOperator → Bool
  | shl | sar | shr => true
  | _ => false

def isArithmeticOp : BinaryOperator → Bool
  | add | sub | mul | div | mod | exp => true
  | _ => false

def isCompareOp : BinaryOperator → Bool
  | equal | notEqual | lessThan | greaterThan | lessThanOrEqual | greaterThanOrEqual => true
  | _ => false

def isCommutativeOp : BinaryOperator → Bool
  | bitOr | bitXor | bitAnd | add | mul | equal | notEqual => true
  | _ => false

/-- The operators that have an assignment operator. -/
def hasAssignmentOp (op : BinaryOperator) : Bool := !op.isCompareOp && op != exp

end BinaryOperator

namespace RationalNumberType

def unaryOperatorResult (q : ℚ) : UnaryOperator → Option ℚ
  | .bitNot => if isFractional q then none else some (-q.num - 1 : ℤ)
  | .add => some q
  | .sub => some (-q)
  | .not => none

/-- The value of a power with constant base and exponent. -/
def power (q : ℚ) (exp : ℤ) : Option ℚ :=
  if exp = 0 then some 1
  else if q.num = 0 ∨ q = 1 then some q
  else if q = -1 then some (1 - 2 * (exp.natAbs % 2 : ℕ))
  else if 2 ^ 32 ≤ exp.natAbs then none
  else if fitsPrecisionExp q.num.natAbs exp.natAbs && fitsPrecisionExp q.den exp.natAbs then
    let numerator := q.num ^ exp.natAbs
    let denominator := (q.den : ℤ) ^ exp.natAbs
    some (if 0 ≤ exp then .divInt numerator denominator else .divInt denominator numerator)
  else none

/-- The value of a left shift of an integral constant. -/
def shiftLeft (n s : ℤ) : Option ℚ :=
  if s < 0 ∨ 2 ^ 32 ≤ s then none
  else if n = 0 then some 0
  else if fitsPrecisionBase2 n.natAbs s.toNat then some (n * 2 ^ s.toNat : ℤ)
  else none

/-- The value of an arithmetic right shift of an integral constant. -/
def shiftRight (n s : ℤ) : Option ℚ :=
  if s < 0 ∨ 2 ^ 32 ≤ s then none
  else if n = 0 then some 0
  else if n.natAbs.log2 < s.toNat then some (if n < 0 then -1 else 0)
  else if n < 0 then some ((n + 1).tdiv (2 ^ s.toNat) - 1 : ℤ)
  else some (n.tdiv (2 ^ s.toNat) : ℤ)

/-- The value of an operation on constants, before the check of its size. -/
def operation (op : BinaryOperator) (a b : ℚ) : Option ℚ :=
  let fractional := isFractional a || isFractional b
  match op with
  | .bitOr => if fractional then none else some (Int.lor a.num b.num)
  | .bitXor => if fractional then none else some (Int.xor a.num b.num)
  | .bitAnd => if fractional then none else some (Int.land a.num b.num)
  | .add => some (a + b)
  | .sub => some (a - b)
  | .mul => some (a * b)
  | .div => if b = 0 then none else some (a / b)
  | .mod =>
    if b = 0 then none
    else if fractional then some (a - ((a / b).num.tdiv (a / b).den : ℤ) * b)
    else some (a.num.tmod b.num)
  | .exp => if isFractional b then none else power a b.num
  | .shl => if fractional then none else shiftLeft a.num b.num
  | .sar => if fractional then none else shiftRight a.num b.num
  | _ => none

/-- The value of an operation on constants. Numerator and denominator are limited to 4096 bits. -/
def binaryOperatorResult (op : BinaryOperator) (a b : ℚ) : Option ℚ :=
  (operation op a b).filter fun q =>
    q.num = 0 || max q.num.natAbs.log2 q.den.log2 ≤ 4096

end RationalNumberType

namespace ValueType

/-- The type of a variable for values of this type. That of a string literal is an array type. -/
def mobileType : ValueType → Option ValueType
  | rationalNumber q _ => (RationalNumberType.mobileType q).map integer
  | stringLiteral _ => none
  | t => some t

/-- The types a variable of a value type can have. -/
def isValueType : ValueType → Bool
  | rationalNumber _ _ | stringLiteral _ => false
  | _ => true

def isImplicitlyConvertibleTo : ValueType → ValueType → Bool
  | integer t, integer convertTo => t.isImplicitlyConvertibleTo convertTo
  | fixedBytes t, fixedBytes convertTo => t.numBytes ≤ convertTo.numBytes
  | bool, bool => true
  | enum t, enum convertTo => t = convertTo
  | address payable, address payable' => payable || !payable'
  | contract t, contract convertTo =>
    t = convertTo || t.linearizedBaseContracts.contains convertTo.id
  | function t, function convertTo => t.isImplicitlyConvertibleTo convertTo
  | rationalNumber q _, integer convertTo =>
    !RationalNumberType.isFractional q && convertTo.fits q.num
  | rationalNumber q compatibleBytesType, fixedBytes convertTo =>
    q = 0 || compatibleBytesType = some convertTo
  | stringLiteral s, fixedBytes convertTo => s.length ≤ convertTo.numBytes
  | _, _ => false

def isExplicitlyConvertibleTo (t convertTo : ValueType) : Bool :=
  match t, convertTo with
  | integer t, convertTo => t.isExplicitlyConvertibleTo convertTo
  | fixedBytes t, integer convertTo => t.numBytes * 8 = convertTo.numBits
  | fixedBytes t, address _ => t.numBytes = 20
  | fixedBytes _, fixedBytes _ => true
  | address payable, contract convertTo => payable || !convertTo.isPayable
  | address _, integer _ => true
  | address _, fixedBytes convertTo => 160 = convertTo.numBytes * 8
  | contract t, address payable => t.isPayable || !payable
  | enum _, integer _ => true
  | function t, address payable => t.isExternal && !payable
  | function _, function _ => true
  | rationalNumber _ _, fixedBytes _ => t.isImplicitlyConvertibleTo convertTo
  | rationalNumber q _, convertTo =>
    t.isImplicitlyConvertibleTo convertTo ||
      (RationalNumberType.mobileType q).any (·.isExplicitlyConvertibleTo convertTo)
  | t, convertTo => t.isImplicitlyConvertibleTo convertTo

/-- The type both operands of an operator are converted to. -/
def commonType (a b : ValueType) : Option ValueType :=
  match a.mobileType.filter b.isImplicitlyConvertibleTo with
  | some t => some t
  | none => b.mobileType.filter a.isImplicitlyConvertibleTo

/-! ### Results of operators -/

def unaryOperatorResult (op : UnaryOperator) : ValueType → Option ValueType
  | integer t => if op = .sub ∨ op = .bitNot then some (integer t) else none
  | fixedBytes t => if op = .bitNot then some (fixedBytes t) else none
  | bool => if op = .not then some bool else none
  | rationalNumber q _ =>
    (RationalNumberType.unaryOperatorResult q op).map (rationalNumber · none)
  | _ => none

/-- The shift `>>>` is not available. -/
def isValidShiftAndAmountType (op : BinaryOperator) (shiftAmountType : ValueType) : Bool :=
  match op, shiftAmountType with
  | .shr, _ => false
  | _, integer _ => true
  | _, rationalNumber q _ =>
    !RationalNumberType.isFractional q &&
      (RationalNumberType.integerType q).any (!·.isSigned)
  | _, _ => false

def isNumeric : ValueType → Bool
  | integer _ | rationalNumber _ _ => true
  | _ => false

/-- The common type of an operator whose left operand is an integer. -/
def integerOperatorResult (op : BinaryOperator) (t : IntegerType) (other : ValueType) :
    Option ValueType :=
  if !other.isNumeric then none
  else if op.isShiftOp then
    if isValidShiftAndAmountType op other then some (integer t) else none
  else
    match commonType (integer t) other with
    | some (integer common) =>
      if op = .exp ∧ common.isSigned then none else some (integer common)
    | _ => none

/-- The common type of an operator, if it can be applied to operands of the types. -/
def binaryOperatorResult (op : BinaryOperator) (t other : ValueType) : Option ValueType :=
  match t, other with
  | integer t, other => integerOperatorResult op t other
  | rationalNumber q c, integer t =>
    match commonType (rationalNumber q c) (integer t) with
    | some (integer common) => integerOperatorResult op common (integer t)
    | _ => none
  | rationalNumber q _, rationalNumber r _ =>
    if op.isCompareOp then
      match RationalNumberType.mobileType q, RationalNumberType.mobileType r with
      | some t, some t' => integerOperatorResult op t (integer t')
      | _, _ => none
    else (RationalNumberType.binaryOperatorResult op q r).map (rationalNumber · none)
  | rationalNumber _ _, _ => none
  | fixedBytes t, other =>
    if op.isShiftOp then
      if isValidShiftAndAmountType op other then some (fixedBytes t) else none
    else
      match commonType (fixedBytes t) other with
      | some (fixedBytes common) =>
        if op.isCompareOp || op.isBitOp then some (fixedBytes common) else none
      | _ => none
  | bool, bool => if op = .equal ∨ op = .notEqual then some bool else none
  | function t, function t' =>
    if (op = .equal ∨ op = .notEqual) ∧ !t.isExternal ∧ !t'.isExternal then
      commonType (function t) (function t')
    else none
  | address payable, other =>
    if op.isCompareOp then commonType (address payable) other else none
  | contract t, other => if op.isCompareOp then commonType (contract t) other else none
  | enum t, other => if op.isCompareOp then commonType (enum t) other else none
  | _, _ => none

end ValueType

end Polynomial

/-!
## Fixed point types of constants

The fixed point type of a fractional constant and the stack word of every constant, as in
`libpolynomial/ast/Types.cpp`.
-/

namespace Polynomial

structure FixedPointType where
  totalBits : ℕ
  fractionalDigits : ℕ
  isSigned : Bool
  valid : 8 ≤ totalBits ∧ totalBits ≤ 256 ∧ totalBits % 8 = 0 ∧ fractionalDigits ≤ 80
  deriving DecidableEq

namespace FixedPointType

/-- The type with these sizes, without which an assertion fails. -/
def create (totalBits fractionalDigits : ℕ) (isSigned : Bool) : Option FixedPointType :=
  if h : 8 ≤ totalBits ∧ totalBits ≤ 256 ∧ totalBits % 8 = 0 ∧ fractionalDigits ≤ 80 then
    some ⟨totalBits, fractionalDigits, isSigned, h⟩
  else none

/-- The smallest number that is stored; the value is this number without the fractional digits. -/
def minStored (t : FixedPointType) : ℤ := if t.isSigned then -2 ^ (t.totalBits - 1) else 0

def maxStored (t : FixedPointType) : ℤ :=
  if t.isSigned then 2 ^ (t.totalBits - 1) - 1 else 2 ^ t.totalBits - 1

end FixedPointType

namespace RationalNumberType

/-- Multiply with ten while there is a fraction and room for it, at most so many times; also the
number of digits. -/
def scale (maxValue : ℚ) : ℕ → ℚ → ℕ → ℚ × ℕ
  | 0, value, fractionalDigits => (value, fractionalDigits)
  | n + 1, value, fractionalDigits =>
    if value * 10 ≤ maxValue ∧ value.den ≠ 1 then
      scale maxValue n (value * 10) (fractionalDigits + 1)
    else (value, fractionalDigits)

/-- The largest absolute value that is stored. -/
def maxValue (q : ℚ) : ℚ := if q < 0 then 2 ^ 255 else 2 ^ 256 - 1

/-- The number whose size is that of the smallest fixed point type, for the absolute value `v`. -/
def fixedPointMagnitude (q : ℚ) (v : ℤ) : ℕ := (if q < 0 ∧ v ≠ 0 then (v - 1) * 2 else v).toNat

def fixedPointType (q : ℚ) : Option FixedPointType :=
  let scaled := scale (maxValue q) 80 |q| 0
  if maxValue q < scaled.1 then none
  else
    -- This means we round towards zero for positive and negative values.
    let v := fixedPointMagnitude q (scaled.1.num.tdiv scaled.1.den)
    if 2 ^ 256 - 1 < v then none
    else FixedPointType.create (max (bytesRequired v) 1 * 8) scaled.2 (q < 0)

/-- The constant, or what a fixed point type stores of it. -/
def shiftedValue (q : ℚ) : Option ℤ :=
  if isFractional q then
    (fixedPointType q).map fun fixed => (q.num * 10 ^ fixed.fractionalDigits).tdiv q.den
  else some q.num

/-- The stack word of a constant, without which an assertion fails: `literalValue`. -/
def literalWord (q : ℚ) : Option (BitVec 256) :=
  (shiftedValue q).bind fun n =>
    if n ≤ 2 ^ 256 - 1 ∧ -2 ^ 255 ≤ n then some (.ofInt 256 n) else none

end RationalNumberType

end Polynomial
