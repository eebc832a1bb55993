import Polc.Codegen.LValue

/-!
# Arrays in storage

`libpolynomial/codegen/ArrayUtils.cpp` for arrays in storage whose elements are of value types, and
for byte arrays. Positions and lengths are words, and wrap around where the code lets them.
-/

namespace Polynomial

open Sof (Word)
open Semantics CompilerUtils

def ValueType.uint256 : ValueType := integer ⟨256, false, by decide⟩

/-- An array of elements of a value type. The type has no length if it is dynamically sized. -/
structure ArrayType where
  baseType : ValueType
  length : Option ℕ
  isByteArray : Bool
  isValueType : baseType.isValueType = true
  byteArray : isByteArray = true → baseType = .byte ∧ length = none

namespace ArrayType

/-- A dynamically sized array of elements of a type. -/
def dynamic (type : ValueType) (h : type.isValueType = true) : ArrayType :=
  ⟨type, none, false, h, (absurd · Bool.false_ne_true)⟩

variable (t : ArrayType)

def isDynamicallySized : Bool := t.length.isNone

/-- The conversion of a reference to an array that is assigned to an array in storage. -/
def isImplicitlyConvertibleTo (convertTo : ArrayType) : Bool :=
  t.isByteArray = convertTo.isByteArray &&
    t.baseType.isImplicitlyConvertibleTo convertTo.baseType &&
    match t.length, convertTo.length with
    | _, none => true
    | none, some _ => false
    | some n, some k => n ≤ k

/-- The type of the parts that are copied: byte arrays are copied in words. -/
def copiedType : ValueType := if t.isByteArray then .uint256 else t.baseType

/-- The type of the parts that are cleared as a whole. -/
def clearedType : ValueType :=
  if t.baseType.storageBytes < 32 then .uint256 else t.baseType

end ArrayType

/-- An array on the stack. Only dynamically sized calldata arrays have their length there. -/
structure Reference where
  location : DataLocation
  position : Word
  length : Word

/-- The word at a position in memory or calldata. -/
def Machine.load (m : Machine) (location : DataLocation) (position : Word) : Word :=
  Sof.wordOfBytes fun i =>
    (if location = .callData then m.calldata else m.memory) (position + .ofNat 256 i)

/-- A failed check of a value from calldata reverts. -/
def asRevert {α : Type} (r : Result Stop Storage α) : Result Stop Storage α :=
  match r with
  | .halt .invalid s => .halt .revert s
  | r => r

namespace CompilerUtils

variable (m : Machine)

/-- `loadFromMemoryDynamic` with padding, for value types. -/
def loadFromMemoryDynamic (type : ValueType) (location : DataLocation) (position : Word)
    (s : Storage) : Result Stop Storage (List Word) :=
  let split : Code :=
    match type with
    | .function t => if t.isExternal then splitExternalFunctionType m.hasBitwiseShifting true else []
    | _ => []
  if location = .callData then
    asRevert (execute ((convertType m.hasBitwiseShifting type type true).map (split ++ ·))
      [m.load location position] s)
  else execute (some split) [m.load location position] s

end CompilerUtils

namespace ArrayUtils

variable (m : Machine) (type : ArrayType)

/-- The length that the slot of a byte array tells. -/
def byteArrayLength (x : Word) : Word := (x &&& (0x100 * .ofBool (x &&& 1 = 0) - 1)) / 2

def retrieveStorageLength (ref : Word) (s : Storage) : Word :=
  match type.length with
  | some n => .ofNat 256 n
  | none => if type.isByteArray then byteArrayLength (s ref) else s ref

def retrieveLength (ref : Reference) (s : Storage) : Word :=
  match type.length, ref.location with
  | some n, _ => .ofNat 256 n
  | none, .callData => ref.length
  | none, .memory => m.load .memory ref.position
  | none, .storage => retrieveStorageLength type ref.position s

def itemsPerSlot : ℕ := 32 / type.baseType.storageBytes

/-- The number of slots for the given number of elements. -/
def convertLengthToSize (length : Word) : Word :=
  if type.baseType.storageBytes ≤ 16 then
    (.ofNat 256 (itemsPerSlot type - 1) + length) / .ofNat 256 (itemsPerSlot type)
  else length

/-- The same for memory and calldata, where byte arrays are not padded. -/
def convertLengthToBytes (length : Word) : Word :=
  if type.isByteArray then length else 32 * length

/-- Where the elements of an array in storage start. -/
def dataPosition (ref : Word) : Word := if type.isDynamicallySized then m.keccak256 ref else ref

/-- The slot and the byte offset of an element of an array in storage. -/
def accessIndex (ref index : Word) (s : Storage) : Word × Word :=
  if type.isByteArray ∧ 1 &&& s ref = 0 then (ref, index)
  else if type.baseType.storageBytes ≤ 16 then
    (index / .ofNat 256 (itemsPerSlot type) + dataPosition m type ref,
      .ofNat 256 type.baseType.storageBytes * (index % .ofNat 256 (itemsPerSlot type)))
  else (dataPosition m type ref + index, 0)

/-- `accessIndex` with a bounds check. -/
def checkedAccessIndex (ref index : Word) (s : Storage) : Result Stop Storage (Word × Word) :=
  if index < retrieveStorageLength type ref s then .ok (accessIndex m type ref index s) s
  else .halt .invalid s

/-- The byte offset and the slot after those of an element of the given size. -/
def incrementByteOffset (byteSize : ℕ) (byteOffset storageOffset : Word) : Word × Word :=
  let byteOffset := .ofNat 256 byteSize + byteOffset
  let x := (.ofNat 256 (byteSize - 1) + byteOffset) / 32
  ((1 - x) * byteOffset, storageOffset + x)

/-- Clear the value of the given type at the start of each slot. -/
def clearStorageLoop (type : ValueType) (endPosition position : Word) (s : Storage) : Storage :=
  if position < endPosition then
    clearStorageLoop type endPosition (1 + position) (StorageItem.setToZero type position 0 s)
  else s
termination_by endPosition.toNat - position.toNat
decreasing_by
  have := position.isLt
  have := endPosition.isLt
  simp only [BitVec.lt_def, BitVec.toNat_add] at *
  change _ - (1 + position.toNat) % 2 ^ 256 < _
  rw [Nat.mod_eq_of_lt (by omega)]
  omega

def clearDynamicArray (ref : Word) (s : Storage) : Storage :=
  let oldLength := retrieveStorageLength type ref s
  let s := Function.update s ref 0
  if type.isByteArray ∧ ¬ 31 < oldLength then s
  else
    let dataPosition := m.keccak256 ref
    clearStorageLoop type.clearedType (dataPosition + convertLengthToSize type oldLength)
      dataPosition s

/-- The slot of a short byte array of the given length, of the first word of the data. -/
def shortByteArray (newLength value : Word) : Word :=
  let power : Word := .ofNat 256 ((2 : Word).toNat ^ (0x100 - 8 * newLength : Word).toNat)
  newLength + newLength ||| value / power * power

/-- Change of the length of a regular array. -/
def resizeRegular (ref newLength oldLength : Word) (s : Storage) : Storage :=
  let s := Function.update s ref
    (if type.isByteArray then 1 + (newLength + newLength) else newLength)
  if newLength < oldLength then
    let dataPosition := m.keccak256 ref
    clearStorageLoop type.clearedType (dataPosition + convertLengthToSize type oldLength)
      (dataPosition + convertLengthToSize type newLength) s
  else s

def resizeDynamicArray (ref newLength : Word) (s : Storage) : Storage :=
  let oldLength := retrieveStorageLength type ref s
  if type.isByteArray then
    let dataPosition := m.keccak256 ref
    if 31 < oldLength then
      if 31 < newLength then resizeRegular m type ref newLength oldLength s
      else
        let firstWord := s dataPosition
        let s := clearStorageLoop .uint256 (dataPosition + convertLengthToSize type oldLength)
          dataPosition s
        Function.update s ref (shortByteArray newLength firstWord)
    else if 31 < newLength then
      let s' := Function.update s dataPosition (~~~0xff &&& s ref)
      Function.update s' ref (1 + (newLength + newLength))
    else Function.update s ref (shortByteArray newLength (s ref))
  else resizeRegular m type ref newLength oldLength s

/-- The new length comes with the storage. -/
def incrementDynamicArraySize (ref : Word) (s : Storage) : Word × Storage :=
  if type.isByteArray then
    let data := s ref
    let shiftedLength := data &&& 63
    if shiftedLength = 62 then
      (32, Function.update (Function.update s (m.keccak256 ref) (data &&& ~~~0xff)) ref 65)
    else
      ((if data &&& 1 = 0 then shiftedLength else data) / 2 + 1, Function.update s ref (data + 2))
  else (s ref + 1, Function.update s ref (s ref + 1))

/-- A word of which the bytes from the given one on are set, counted from the first one. -/
def suffixMask (start : Word) : Word :=
  .ofNat 256 ((0x100 : Word).toNat ^ (32 - start : Word).toNat) - 1

def popByteArrayElement (ref : Word) (s : Storage) : Result Stop Storage Unit :=
  let slotValue := s ref
  if slotValue &&& 1 = 0 then
    let length := slotValue / 2 &&& 0x1f
    if length = 0 then .halt .invalid s
    else
      let mask : Word := .ofNat 256 ((0x100 : Word).toNat ^ (33 - length : Word).toNat) - 1
      .ok () (Function.update s ref (~~~mask &&& slotValue ||| (length - 1) * 2))
  else
    let length := slotValue / 2
    let slot := m.keccak256 ref
    if length = 32 then
      .ok () (Function.update (Function.update s slot 0) ref (s slot &&& ~~~0xff ||| 62))
    else
      let slot := slot + (length - 1) / 32
      let data := ~~~(suffixMask (length - 1 &&& 0x1f)) &&& s slot
      .ok () (Function.update (Function.update s slot data) ref (slotValue - 2))

def popStorageArrayElement (ref : Word) (s : Storage) : Result Stop Storage Unit :=
  if type.isByteArray then popByteArrayElement m ref s
  else
    let oldLength := retrieveStorageLength type ref s
    if oldLength = 0 then .halt .invalid s
    else
      let newLength := oldLength - 1
      let (slot, offset) := accessIndex m type ref newLength s
      .ok () (Function.update (StorageItem.setToZero type.baseType slot offset s) ref newLength)

/-! ### Copying -/

/-- Where the copy loop is. -/
structure Cursor where
  sourcePosition : Word
  targetPosition : Word
  sourceByteOffset : Word
  targetByteOffset : Word

variable (targetType sourceType : ArrayType) (location : DataLocation)

def directCopy : Bool := location = .storage && sourceType.copiedType = targetType.copiedType

def haveByteOffsetSource : Bool :=
  !directCopy targetType sourceType location && location = .storage &&
    sourceType.copiedType.storageBytes ≤ 16

def haveByteOffsetTarget : Bool :=
  !directCopy targetType sourceType location && targetType.copiedType.storageBytes ≤ 16

def loadElement (c : Cursor) (s : Storage) : Result Stop Storage (List Word) :=
  if location = .storage then
    StorageItem.retrieveValue m sourceType.copiedType c.sourcePosition c.sourceByteOffset s
  else loadFromMemoryDynamic m sourceType.copiedType location c.sourcePosition s

def copyElement (c : Cursor) (s : Storage) : Result Stop Storage Unit :=
  if directCopy targetType sourceType location then
    .ok () (Function.update s c.targetPosition (s c.sourcePosition))
  else
    (loadElement m sourceType location c s).bind fun value s =>
      StorageItem.storeValue m targetType.copiedType sourceType.copiedType value c.targetPosition
        c.targetByteOffset s

def incrementSource (c : Cursor) : Cursor :=
  if haveByteOffsetSource targetType sourceType location then
    let (offset, position) := incrementByteOffset sourceType.copiedType.storageBytes
      c.sourceByteOffset c.sourcePosition
    { c with sourceByteOffset := offset, sourcePosition := position }
  else
    { c with sourcePosition := (if location = .storage then 1 else 32) + c.sourcePosition }

def incrementTarget (c : Cursor) : Cursor :=
  if haveByteOffsetTarget targetType sourceType location then
    let (offset, position) := incrementByteOffset targetType.copiedType.storageBytes
      c.targetByteOffset c.targetPosition
    { c with targetByteOffset := offset, targetPosition := position }
  else { c with targetPosition := 1 + c.targetPosition }

def copyLoop (sourceEnd : Word) : ℕ → Cursor → Storage → Result Stop Storage Cursor :=
  loop (fun c s => .ok (c.sourcePosition < sourceEnd) s)
    (fun c s => (copyElement m targetType sourceType location c s).map fun _ => (false, c))
    (fun c s => .ok (incrementTarget targetType sourceType location
      (incrementSource targetType sourceType location c)) s)

/-- Clear the elements that are left over in the current slot. -/
def copyCleanupLoop : ℕ → Cursor → Storage → Result Stop Storage Cursor :=
  loop (fun c s => .ok (c.targetByteOffset ≠ 0) s)
    (fun c s => .ok (false, c) (StorageItem.setToZero targetType.copiedType c.targetPosition
      c.targetByteOffset s))
    (fun c s => .ok (incrementTarget targetType sourceType location c) s)

/-- The slot of a short byte array that is copied. -/
def shortCopy (source : Reference) (position length : Word) (s : Storage) : Word :=
  if source.location = .storage then s source.position
  else length + length ||| (~~~0xff &&& m.load source.location position)

def copyArrayToStorage (source : Reference) (targetRef : Word) (fuel : ℕ) (s : Storage) :
    Result Stop Storage Unit :=
  let sourceLength := retrieveLength m sourceType source s
  let sourcePosition :=
    if source.location = .memory ∧ sourceType.isDynamicallySized then 0x20 + source.position
    else source.position
  let targetLength := retrieveStorageLength targetType targetRef s
  let targetPosition := dataPosition m targetType targetRef
  let targetEnd := targetPosition + convertLengthToSize targetType targetLength
  if targetType.isByteArray ∧ ¬ 31 < sourceLength then
    let s := Function.update s targetRef (shortCopy m source sourcePosition sourceLength s)
    .ok () (clearStorageLoop targetType.copiedType targetEnd targetPosition s)
  else
    let s :=
      if targetType.isByteArray then
        Function.update s targetRef (1 + (sourceLength + sourceLength))
      else if targetType.isDynamicallySized then Function.update s targetRef sourceLength
      else s
    if sourceLength = 0 then
      .ok () (clearStorageLoop targetType.copiedType targetEnd targetPosition s)
    else
      let sourcePosition :=
        if source.location = .storage then dataPosition m sourceType source.position
        else sourcePosition
      let size :=
        if source.location = .storage then convertLengthToSize sourceType sourceLength
        else convertLengthToBytes sourceType sourceLength
      (copyLoop m targetType sourceType source.location (sourcePosition + size) fuel
        ⟨sourcePosition, targetPosition, 0, 0⟩ s).bind fun c s =>
      (if haveByteOffsetTarget targetType sourceType source.location then
        copyCleanupLoop targetType sourceType source.location fuel c s
      else .ok c s).bind fun c s =>
      .ok () (clearStorageLoop targetType.copiedType targetEnd c.targetPosition s)

/-- What `push` of `ExpressionCompiler::visit(FunctionCall)` does with a converted value. -/
def push (ref : Word) (value : List Word) (s : Storage) : Result Stop Storage Unit :=
  let (newLength, s) := incrementDynamicArraySize m type ref s
  let (slot, offset) := accessIndex m type ref (newLength - 1) s
  if type.isByteArray then
    match value with
    | [w] => .ok () (StorageByteArrayElement.storeValue w slot offset s)
    | _ => .halt .fault s
  else StorageItem.storeValue m type.baseType type.baseType value slot offset s

/-- The assignment of a converted value to an element. -/
def setElement (ref index : Word) (value : List Word) (s : Storage) : Result Stop Storage Unit :=
  (checkedAccessIndex m type ref index s).bind fun (slot, offset) s =>
    if type.isByteArray then
      match value with
      | [w] => .ok () (StorageByteArrayElement.storeValue w slot offset s)
      | _ => .halt .fault s
    else StorageItem.storeValue m type.baseType type.baseType value slot offset s

def getElement (ref index : Word) (s : Storage) : Result Stop Storage (List Word) :=
  (checkedAccessIndex m type ref index s).bind fun (slot, offset) s =>
    if type.isByteArray then .ok [StorageByteArrayElement.retrieveValue slot offset s] s
    else StorageItem.retrieveValue m type.baseType slot offset s

end ArrayUtils

end Polynomial
