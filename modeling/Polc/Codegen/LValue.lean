import Polc.Codegen.CompilerUtils

/-!
# Storage items

`StorageItem` and `StorageByteArrayElement` of `libpolynomial/codegen/LValue.cpp` for values of
value types: how they are read from and written to a part of a storage slot.
-/

namespace Polynomial

open Sof (Word Byte)
open Semantics

abbrev Storage := Word → Word

/-- Why an execution on storage stops, apart from running out of fuel. -/
inductive Stop where
  | invalid
  | revert
  /-- There is no such code, or it needs more words than there are. -/
  | fault
  deriving DecidableEq, Repr

/-- What does not change during an execution. The memory is that above the scratch space. -/
structure Machine where
  /-- The hash of one word. -/
  keccak256 : Word → Word
  memory : Word → Byte
  calldata : Word → Byte
  hasBitwiseShifting : Bool
  /-- The function that internal function types are initialised with. -/
  invalidFunction : Word

/-- The number of bytes of a slot that a value takes. -/
def ValueType.storageBytes : ValueType → ℕ
  | integer t => t.numBits / 8
  | fixedBytes t => t.numBytes
  | bool => 1
  | enum t => if t.numberOfMembers ≤ 1 then 1 else bytesRequired (t.numberOfMembers - 1)
  | address _ | contract _ => 20
  | function t => if t.isExternal then 24 else 8
  | rationalNumber _ _ | stringLiteral _ => 32

/-- Run code on words from the stack. -/
def execute (code : Option Code) (words : List Word) (s : Storage) :
    Result Stop Storage (List Word) :=
  match code.map (exec · words) with
  | some (.stack words) => .ok words s
  | some .invalid => .halt .invalid s
  | _ => .halt .fault s

namespace CompilerUtils

variable (hasBitwiseShifting : Bool)

/-- Split an external function into its address and its selector. -/
def splitExternalFunctionType (leftAligned : Bool) : Code :=
  (if leftAligned then
    .operation (.dup 0) :: rightShiftNumberOnStack hasBitwiseShifting (64 + 32) ++
      .operation (.swap 0) :: rightShiftNumberOnStack hasBitwiseShifting 64
  else
    .operation (.dup 0) :: rightShiftNumberOnStack hasBitwiseShifting 32 ++
      [.push (mask 160), .operation .and, .operation (.swap 0)]) ++
  [.push (mask 32), .operation .and]

/-- Put the address and the selector of an external function into one word. -/
def combineExternalFunctionType (leftAligned : Bool) : Code :=
  [.push (mask 32), .operation .and, .operation (.swap 0)] ++
  (if leftAligned then [] else [.push (mask 160), .operation .and]) ++
  leftShiftNumberOnStack hasBitwiseShifting 32 ++ operations [.or] ++
  if leftAligned then leftShiftNumberOnStack hasBitwiseShifting 64 else []

/-- What follows a conversion to a signed integer that chops the sign bits. -/
def chopSignBits (typeOnStack targetType : ValueType) : Code :=
  match typeOnStack.asInteger, targetType with
  | some s, .integer t =>
    if t.isSigned ∧ s.numBits < 256 then [.push (mask s.numBits), .operation .and] else []
  | _, _ => []

end CompilerUtils

open CompilerUtils

namespace StorageItem

variable (m : Machine) (type : ValueType)

/-- `0x100` to the power of a byte offset. -/
def multiplier (offset : Word) : Word := .ofNat 256 ((0x100 : Word).toNat ^ offset.toNat)

/-- What is done with a value whose lowest bytes are at the end of the word. -/
def retrieveCode : Code :=
  match type with
  | .fixedBytes _ => leftShiftNumberOnStack m.hasBitwiseShifting (256 - 8 * type.storageBytes)
  | .function t =>
    if t.isExternal then splitExternalFunctionType m.hasBitwiseShifting false
    else
      [.operation (.dup 0), .operation .iszero, .push m.invalidFunction, .operation .mul,
        .operation .or, .push (mask (8 * type.storageBytes)), .operation .and]
  | _ =>
    if type.isSigned then [.push (.ofNat 256 (type.storageBytes - 1)), .operation .signextend]
    else [.push (mask (8 * type.storageBytes)), .operation .and]

def retrieveValue (key offset : Word) (s : Storage) : Result Stop Storage (List Word) :=
  if type.storageBytes = 32 then .ok [s key] s
  else execute (retrieveCode m type) [s key / multiplier offset] s

/-- The code that leaves the bytes to be stored at the end of a word. -/
def storeCode (sourceType : ValueType) : Option Code :=
  match type with
  | .function t =>
    if sourceType = type then
      some (if t.isExternal then combineExternalFunctionType m.hasBitwiseShifting false
        else [.push (mask (8 * type.storageBytes)), .operation .and])
    else none
  | .fixedBytes t =>
    if sourceType matches .fixedBytes _ then
      some (rightShiftNumberOnStack m.hasBitwiseShifting (256 - 8 * t.numBytes))
    else none
  | _ => (convertType m.hasBitwiseShifting sourceType type true).map
      (· ++ chopSignBits sourceType type)

/-- The slot without the bytes of the value. -/
def clearedValue (offset old : Word) : Word :=
  ~~~(mask (8 * type.storageBytes) * multiplier offset) &&& old

def storeValue (sourceType : ValueType) (value : List Word) (key offset : Word) (s : Storage) :
    Result Stop Storage Unit :=
  if type.storageBytes = 32 then
    (execute (convertType m.hasBitwiseShifting sourceType type true) value s).bind fun words s =>
      match words with
      | [w] => .ok () (Function.update s key w)
      | _ => .halt .fault s
  else
    (execute (storeCode m type sourceType) value s).bind fun words s =>
      match words with
      | [w] => .ok () (Function.update s key
          (w * multiplier offset ||| clearedValue type offset (s key)))
      | _ => .halt .fault s

def setToZero (key offset : Word) (s : Storage) : Storage :=
  if type.storageBytes = 32 then Function.update s key 0
  else Function.update s key (clearedValue type offset (s key))

end StorageItem

/-- `byte` in the source. -/
def ValueType.byte : ValueType := fixedBytes ⟨1, by decide⟩

namespace StorageByteArrayElement

def retrieveValue (key byteNumber : Word) (s : Storage) : Word :=
  .ofNat 256 (2 ^ (256 - 8)) * .byteAt byteNumber (s key)

def storeValue (value key byteNumber : Word) (s : Storage) : Storage :=
  let multiplier := StorageItem.multiplier (31 - byteNumber)
  Function.update s key
    (value / .ofNat 256 (2 ^ (256 - 8)) * multiplier ||| (~~~(0xff * multiplier) &&& s key))

end StorageByteArrayElement

end Polynomial
