import Polc.Ast.Types
import Polc.Codegen.StackCode

/-!
# Conversions on the stack

The part of `libpolynomial/codegen/CompilerUtils.cpp` that converts and cleans values of value types
on the stack. A conversion that the source asserts away or does not implement has no code.
-/

namespace Polynomial

open Sof (Word Instruction)

namespace IntegerType

/-- The type that stands for addresses and contracts. -/
def ofAddress : IntegerType := ⟨160, false, by decide⟩

end IntegerType

/-- The unsigned integers of the same size. -/
def FixedBytesType.asInteger (t : FixedBytesType) : IntegerType :=
  ⟨t.numBytes * 8, false, by have := t.valid; omega⟩

namespace ValueType

/-- The integer type whose values are on the stack in the same way. -/
def asInteger : ValueType → Option IntegerType
  | integer t => some t
  | address _ | contract _ => some .ofAddress
  | _ => none

/-- How many stack slots a value takes: the address and the selector of an external function, and
none for a string literal, which is pushed when it is converted. -/
def sizeOnStack : ValueType → ℕ
  | function t => if t.isExternal then 2 else 1
  | stringLiteral _ => 0
  | _ => 1

end ValueType

/-- The number that the bytes of a string are in big-endian order. -/
def bytesToNat (s : List (BitVec 8)) : ℕ := s.foldl (fun n b => n * 256 + b.toNat) 0

namespace CompilerUtils

variable (hasBitwiseShifting : Bool)

def operations (is : List Instruction) : Code := is.map .operation

/-- A word of which the `bits` low bits are set. -/
def mask (bits : ℕ) : Word := .ofNat 256 (2 ^ bits - 1)

def cleanHigherOrderBits (t : IntegerType) : Code :=
  if t.numBits = 256 then []
  else if t.isSigned then [.push (.ofNat 256 (t.numBits / 8 - 1)), .operation .signextend]
  else [.push (mask t.numBits), .operation .and]

def leftShiftNumberOnStack (bits : ℕ) : Code :=
  if hasBitwiseShifting then [.push (.ofNat 256 bits), .operation .shl]
  else [.push (.ofNat 256 (2 ^ bits)), .operation .mul]

def rightShiftNumberOnStack (bits : ℕ) : Code :=
  if hasBitwiseShifting then [.push (.ofNat 256 bits), .operation .shr]
  else [.push (.ofNat 256 (2 ^ bits)), .operation (.swap 0), .operation .div]

/-- Conversion between integers: widening cleans up to the width of the source, anything else to
the width of the target, if forced. -/
def convertInteger (typeOnStack targetType : IntegerType) (cleanupNeeded : Bool) : Code :=
  if typeOnStack.numBits < targetType.numBits then cleanHigherOrderBits typeOnStack
  else if cleanupNeeded then cleanHigherOrderBits targetType
  else []

/-- Stop if the word on top is not a member. -/
def checkEnum (t : EnumType) : Code :=
  [.push (.ofNat 256 (t.numberOfMembers - 1)), .operation (.dup 1), .operation .gt,
    .conditionalInvalid]

/-- Conversion of a constant to an integer: its word is clean. -/
def convertRational (q : ℚ) (targetType : IntegerType) (cleanupNeeded : Bool) : Option Code :=
  if RationalNumberType.isFractional q then none
  else (RationalNumberType.integerType q).map fun constType =>
    if targetType.numBits < constType.numBits ∧ cleanupNeeded then cleanHigherOrderBits targetType
    else []

/-- The word of a string literal of up to 32 bytes, of which `numBytes` are kept. -/
def stringWord (s : List (BitVec 8)) (numBytes : ℕ) : Word :=
  .ofNat 256 (bytesToNat s * 256 ^ (32 - s.length)) &&& ~~~(BitVec.allOnes 256 >>> (8 * numBytes))

def convertType (typeOnStack targetType : ValueType) (cleanupNeeded : Bool) : Option Code :=
  if typeOnStack = targetType ∧ cleanupNeeded = false then some []
  else
    match typeOnStack, targetType with
    | .fixedBytes s, .integer t =>
      some (rightShiftNumberOnStack hasBitwiseShifting (256 - s.numBytes * 8) ++
        if t.numBits < s.numBytes * 8 then convertInteger s.asInteger t cleanupNeeded else [])
    | .fixedBytes s, .address _ =>
      if s.numBytes * 8 = 160 then
        some (rightShiftNumberOnStack hasBitwiseShifting (256 - 160))
      else none
    | .fixedBytes s, .fixedBytes t =>
      some (if s.numBytes < t.numBytes ∨ cleanupNeeded then
        [.push (mask (256 - min s.numBytes t.numBytes * 8)), .operation .not, .operation .and]
      else [])
    | .enum s, .enum t => if s = t then some (checkEnum s) else none
    | .enum s, .integer _ => some (checkEnum s)
    | .integer s, .fixedBytes t =>
      some ((if s.numBits < t.numBytes * 8 then cleanHigherOrderBits s else []) ++
        leftShiftNumberOnStack hasBitwiseShifting (256 - t.numBytes * 8))
    | .address _, .fixedBytes t =>
      if t.numBytes * 8 = 160 then
        some (leftShiftNumberOnStack hasBitwiseShifting (256 - t.numBytes * 8))
      else none
    | .rationalNumber _ _, .fixedBytes t =>
      some (leftShiftNumberOnStack hasBitwiseShifting (256 - t.numBytes * 8))
    | .integer s, .enum t => some (convertInteger s s true ++ checkEnum t)
    | .rationalNumber q _, .enum t =>
      (RationalNumberType.mobileType q).bind fun mobile =>
        (convertRational q mobile true).map (· ++ checkEnum t)
    | .rationalNumber q _, t =>
      t.asInteger.bind fun t => convertRational q t cleanupNeeded
    | .stringLiteral s, .fixedBytes t =>
      if s.length ≤ 32 then some [.push (stringWord s t.numBytes)] else none
    | .bool, .bool => some (if cleanupNeeded then operations [.iszero, .iszero] else [])
    | .function s, .address _ => if s.isExternal then some [.operation .pop] else none
    | .function s, .function t =>
      if s.isImplicitlyConvertibleTo t then
        some (if cleanupNeeded then
          [.push (mask (8 * if t.isExternal then 24 else 8)), .operation .and] else [])
      else none
    | s, t =>
      s.asInteger.bind fun s => t.asInteger.map fun t => convertInteger s t cleanupNeeded

end CompilerUtils

end Polynomial
