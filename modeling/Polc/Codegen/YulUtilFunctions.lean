import Polc.Codegen.ExpressionCompiler.Conversions

/-!
# Generated utility functions

The functions that `YulUtilFunctions` of `libpolynomial/codegen/YulUtilFunctions.cpp` generates for
checked arithmetic, cleanup and conversions. A generated function is a function on words, built from
the opcodes of its text; instead of a result it can end the execution.
-/

namespace Polynomial

open Sof (Word)

namespace YulUtilFunctions

/-- How an execution ends: by `revert(0, 0)` or by `invalid()`. -/
inductive Abort where
  | revert | invalid
  deriving DecidableEq, Repr

abbrev Run := Except Abort Word

/-- The value of a builtin function that computes on its arguments only. -/
def builtin (i : Sof.Instruction) (arguments : List Word) : Word :=
  (Sof.arithmetic i arguments).getD 0

/-- An `if` whose block is `revert(0, 0)`, and what comes after it. -/
def revertIf (condition : Word) (r : Run) : Run := if condition ≠ 0 then .error .revert else r

/-- The numbers are computed modulo `2 ** 256`. -/
def powerOfTwo (bits : ℕ) : Word := (1 : Word) <<< bits

def overflowCheckedUIntAddFunction (bits : ℕ) (x y : Word) : Run :=
  if bits < 256 then
    let mask := powerOfTwo bits - 1
    let sum := builtin .add [builtin .and [x, mask], builtin .and [y, mask]]
    revertIf (builtin .and [sum, builtin .not [mask]]) (.ok sum)
  else
    let sum := builtin .add [x, y]
    revertIf (builtin .lt [sum, x]) (.ok sum)

def overflowCheckedUIntMulFunction (bits : ℕ) (x y : Word) : Run :=
  revertIf (builtin .and [builtin .iszero [builtin .iszero [x]],
      builtin .lt [builtin .div [powerOfTwo bits - 1, x], y]])
    (.ok (if bits < 256 then builtin .mulmod [x, y, powerOfTwo bits] else builtin .mul [x, y]))

def overflowCheckedIntDivFunction (type : IntegerType) (x y : Word) : Run :=
  revertIf (builtin .iszero [y]) <|
    if type.isSigned then
      -- x / -1 == x
      revertIf (builtin .and [builtin .eq [x, 0 - powerOfTwo (type.numBits - 1)],
        builtin .eq [y, builtin .sub [0, 1]]]) (.ok (builtin .sdiv [x, y]))
    else .ok (builtin .div [x, y])

def overflowCheckedUIntSubFunction (x y : Word) : Run :=
  revertIf (builtin .lt [x, y]) (.ok (builtin .sub [x, y]))

def decrementCheckedFunction (type : IntegerType) (value : Word) : Run :=
  -- Smallest admissible value to decrement
  let minintval := if type.isSigned then 0 - powerOfTwo (type.numBits - 1) + 1 else 1
  revertIf (builtin (if type.isSigned then .slt else .lt) [value, minintval])
    (.ok (builtin .sub [value, 1]))

def incrementCheckedFunction (type : IntegerType) (value : Word) : Run :=
  -- Biggest admissible value to increment
  let maxintval :=
    if type.isSigned then powerOfTwo (type.numBits - 1) - 2 else powerOfTwo type.numBits - 2
  revertIf (builtin (if type.isSigned then .sgt else .gt) [value, maxintval])
    (.ok (builtin .add [value, 1]))

/-- For signed types. -/
def negateNumberCheckedFunction (type : IntegerType) (value : Word) : Run :=
  let minintval := 0 - powerOfTwo (type.numBits - 1) + 1
  revertIf (builtin .slt [value, minintval]) (.ok (builtin .sub [0, value]))

/-! ### Cleanup and conversions -/

variable (hasBitwiseShifting : Bool)

def shiftLeftFunction (numBits : ℕ) (value : Word) : Word :=
  if hasBitwiseShifting then builtin .shl [.ofNat 256 numBits, value]
  else builtin .mul [value, powerOfTwo numBits]

def shiftRightFunction (numBits : ℕ) (value : Word) : Word :=
  if hasBitwiseShifting then builtin .shr [.ofNat 256 numBits, value]
  else builtin .div [value, powerOfTwo numBits]

def cleanupInteger (type : IntegerType) (value : Word) : Word :=
  if type.numBits = 256 then value
  else if type.isSigned then
    builtin .signextend [.ofNat 256 (type.numBits / 8 - 1), value]
  else builtin .and [value, powerOfTwo type.numBits - 1]

def cleanupFixedBytes (type : FixedBytesType) (value : Word) : Word :=
  if type.numBytes = 32 then value
  else
    let numBits := type.numBytes * 8
    builtin .and [value, (powerOfTwo numBits - 1) <<< (256 - numBits)]

/-- `validatorFunction` of an enumeration, which asserts. -/
def validateEnum (type : EnumType) (value : Word) : Run :=
  if builtin .iszero [builtin .lt [value, .ofNat 256 type.numberOfMembers]] ≠ 0 then
    .error .invalid
  else .ok value

/-- The cleanup of a type, without which an assertion fails. -/
def cleanupFunction : ValueType → Option (Word → Run)
  | .address _ | .contract _ => some fun value => .ok (cleanupInteger .ofAddress value)
  | .integer t => some fun value => .ok (cleanupInteger t value)
  | .rationalNumber _ _ => some .ok
  | .bool => some fun value => .ok (builtin .iszero [builtin .iszero [value]])
  | .function t =>
    if t.isExternal then some fun value => .ok (cleanupFixedBytes ⟨24, by decide⟩ value) else none
  | .fixedBytes t => some fun value => .ok (cleanupFixedBytes t value)
  -- Out of range enums cannot be truncated unambigiously and therefore it should be an error.
  | .enum t => some (validateEnum t)
  | .stringLiteral _ => none

/-- Clean according to the target type, except if this is a widening conversion. -/
def cleanupType (source : ValueType) (target : IntegerType) : IntegerType :=
  match source with
  | .rationalNumber _ _ => target
  | .integer s => if s.numBits < target.numBits then s else target
  | _ => if IntegerType.ofAddress.numBits < target.numBits then .ofAddress else target

/-- The conversion of a type with one stack slot to another one, without which an assertion
fails or the conversion is not implemented. -/
def conversionFunction (source target : ValueType) : Option (Word → Run) :=
  match source, target with
  | .address _, target => conversionFunction (.integer .ofAddress) target
  | .bool, .bool => cleanupFunction .bool
  | .fixedBytes s, .integer t =>
    (conversionFunction (.integer s.asInteger) (.integer t)).map fun convert value =>
      convert (shiftRightFunction hasBitwiseShifting (256 - s.numBytes * 8) value)
  | .fixedBytes s, .address _ => conversionFunction (.fixedBytes s) (.integer .ofAddress)
  -- clear for conversion to longer bytes
  | .fixedBytes s, .fixedBytes _ => cleanupFunction (.fixedBytes s)
  | .enum s, .integer _ => cleanupFunction (.enum s)
  | .enum s, .enum t => if s = t then cleanupFunction (.enum s) else none
  | .bool, _ | .fixedBytes _, _ | .enum _, _ | .function _, _ | .stringLiteral _, _ => none
  | source, .fixedBytes t =>
    match source with
    | .contract _ => none
    | source =>
      if isFractional source then none
      else (cleanupFunction source).map fun clean value =>
        (clean value).map (shiftLeftFunction hasBitwiseShifting (256 - t.numBytes * 8))
  | source, .enum t =>
    if isFractional source then none
    else do
      let mobileType ← source.mobileType
      let cleanInt ← cleanupFunction mobileType
      let cleanEnum ← cleanupFunction (.enum t)
      return fun value => (cleanInt value).bind cleanEnum
  | source, .address _ =>
    if isFractional source then none else conversionFunction source (.integer .ofAddress)
  | source, .integer t =>
    if isFractional source then none else cleanupFunction (.integer (cleanupType source t))
  | source, .contract _ =>
    if isFractional source then none
    else cleanupFunction (.integer (cleanupType source .ofAddress))
  | _, _ => none
termination_by
  (match source with | .address _ | .fixedBytes _ => 2 | _ => 0) +
    match target with | .address _ => 1 | _ => 0
where
  isFractional : ValueType → Bool
    | .rationalNumber q _ => RationalNumberType.isFractional q
    | _ => false

end YulUtilFunctions

end Polynomial
