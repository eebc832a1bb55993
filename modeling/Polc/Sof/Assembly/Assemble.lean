import Polc.Sof.Assembly

/-!
# Assembling

`Assembly::assemble`: the items become bytes in one pass that leaves references open, then the
references are filled in while sub-assemblies and data are placed behind the code. The numbers
the source keeps in an `unsigned` are taken modulo `2 ^ 32`.
-/

namespace Sof

open Semantics

/-- Binary object that potentially still needs to be linked. -/
structure LinkerObject where
  bytecode : List Byte := []
  /-- Offset of a library address in the bytecode to the identifier of the library. -/
  linkReferences : Std.TreeMap Nat (List Byte) := ∅

def LinkerObject.append (o other : LinkerObject) : LinkerObject where
  bytecode := o.bytecode ++ other.bytecode
  linkReferences := other.linkReferences.foldl
    (fun m p identifier => m.insert (p + o.bytecode.length) identifier) o.linkReferences

/-- An assembled assembly: its object, and for each tag the position in the bytecode if there is
one. The first position is the one of the invalid jump destination. -/
structure Assembled where
  object : LinkerObject
  tagPositions : List (Option Nat)

/-- What `assemble` throws. -/
inductive AssemblyException where
  | invalidOpcode
  /-- A string, a library or a sub-assembly does not exist. -/
  | outOfRange
  | invalidTagPosition
  | foreignTag
  | tagTooLarge
  | duplicateTagPosition
  | invalidSubId
  | referenceToNonExistingTag
  | referenceToTagWithoutPosition
  | tagTooLargeForReservedSpace
  deriving DecidableEq, Repr

/-- The texts of the exceptions that have one. -/
def AssemblyException.message : AssemblyException → Option String
  | invalidOpcode | outOfRange => none
  | invalidTagPosition => some "Invalid tag position."
  | foreignTag => some "Foreign tag."
  | tagTooLarge => some "Tag too large."
  | duplicateTagPosition => some "Duplicate tag position."
  | invalidSubId => some "Invalid sub id"
  | referenceToNonExistingTag => some "Reference to non-existing tag."
  | referenceToTagWithoutPosition => some "Reference to tag without position."
  | tagTooLargeForReservedSpace => some "Tag too large for reserved space."

namespace Assembly

/-- The bytes of all data items. -/
def dataSize (a : Assembly) : Nat := (a.data.toList.map fun e => e.2.length).sum

/-- One round of the loop of `bytesRequired`. -/
def estimate (a : Assembly) (tagSize : Nat) : Option Nat :=
  (a.items.mapM (AssemblyItem.bytesRequired tagSize)).map fun sizes =>
    (1 + a.dataSize + sizes.sum) % 2 ^ 32

/-- The loop of `bytesRequired`. A 32 bit number has at most four bytes, hence the bound on the
number of rounds. -/
def bytesRequiredFrom (a : Assembly) : Nat → Nat → Option Nat
  | 0, tagSize => a.estimate tagSize
  | rounds + 1, tagSize =>
    (a.estimate tagSize).bind fun ret =>
      if bytesRequired ret ≤ tagSize then some ret
      else a.bytesRequiredFrom rounds (tagSize + 1)

def bytesRequired (a : Assembly) (subTagSize : Nat) : Option Nat :=
  a.bytesRequiredFrom 4 (subTagSize % 2 ^ 32)

/-- The largest tag position of the sub-assemblies, at least 1. -/
def subTagSize (subs : List (List (Option Nat))) : Nat :=
  subs.flatten.foldl (fun n p => max n (p.getD 0)) 1

/-- The number of bytes reserved for everything, `forCode` of them for the code. -/
def bytesRequiredIncludingData (a : Assembly) (forCode : Nat) (subSizes : List Nat) : Nat :=
  (forCode + 1 + a.auxiliaryData.length + subSizes.sum) % 2 ^ 32

/-! ### The code -/

/-- `PUSH1 - 1 + n`. -/
def pushOpcode (n : Nat) : Byte := .ofNat 8 (0x5f + n)

/-- The bytecode so far and the references to be filled in: each with the position behind its
push instruction. -/
structure Emission where
  object : LinkerObject := {}
  tagPositions : List (Option Nat)
  tagRef : List (Nat × Nat × Nat) := []
  dataRef : List (Word × Nat) := []
  subRef : List (Nat × Nat) := []
  sizeRef : List Nat := []

namespace Emission

def size (e : Emission) : Nat := e.object.bytecode.length

def push (e : Emission) (code : List Byte) : Emission :=
  { e with object := { e.object with bytecode := e.object.bytecode ++ code } }

/-- Push `n` bytes that are not known yet. -/
def reserve (e : Emission) (n : Nat) : Emission := e.push (pushOpcode n :: List.replicate n 0)

/-- Push a number with as many bytes as it needs. -/
def pushNumber (e : Emission) (n : Nat) : Emission :=
  let b := max 1 (Semantics.bytesRequired n)
  e.push (pushOpcode b :: toBigEndian b n)

/-- Store the position of the invalid jump destination. -/
def storeInvalid (e : Emission) (i : AssemblyItem) : Emission :=
  if i.placedTag = none ∧ e.tagPositions[0]? = some none then
    { e with tagPositions := e.tagPositions.set 0 (some e.size) }
  else e

end Emission

/-- The bytes of one item, with `bytesPerTag` bytes for a tag and `bytesPerDataRef` bytes for
other references. -/
def emit (a : Assembly) (subs : List Assembled) (bytesPerTag bytesPerDataRef : Nat)
    (e : Emission) : AssemblyItem → Except AssemblyException Emission
  | .operation i => .ok (e.push [i.opcode])
  | .pushString h =>
    match a.strings[h]? with
    | none => .error .outOfRange
    | some s => .ok (e.push (pushOpcode 32 :: (s.take 32 ++ List.replicate (32 - s.length) 0)))
  | .push d => .ok (e.pushNumber d.toNat)
  | .pushTag d =>
    .ok { e.reserve bytesPerTag with
      tagRef := e.tagRef ++ [(e.size + 1, AssemblyItem.splitForeignPushTag d)] }
  | .pushData h =>
    .ok { e.reserve bytesPerDataRef with
      dataRef := e.dataRef ++ [(h, (e.size + 1) % 2 ^ 32)] }
  | .pushSub d =>
    .ok { e.reserve bytesPerDataRef with
      subRef := e.subRef ++ [(d.toNat % 2 ^ 64, e.size + 1)] }
  | .pushSubSize d =>
    match subs[d.toNat % 2 ^ 64]? with
    | none => .error .outOfRange
    | some s => .ok (e.pushNumber s.object.bytecode.length)
  | .pushProgramSize _ =>
    .ok { e.reserve bytesPerDataRef with
      sizeRef := e.sizeRef ++ [(e.size + 1) % 2 ^ 32] }
  | .pushLibraryAddress h =>
    match a.libraries[h]? with
    | none => .error .outOfRange
    | some identifier =>
      let e' := e.reserve 20
      let linkReferences := e'.object.linkReferences.insert (e.size + 1) identifier
      .ok { e' with object := { e'.object with linkReferences := linkReferences } }
  | .pushDeployTimeAddress _ => .ok (e.reserve 20)
  | .tag d =>
    if d = 0 then .error .invalidTagPosition
    else if (AssemblyItem.splitForeignPushTag d).1 ≠ AssemblyItem.noSub then .error .foreignTag
    else if 0xffffffff ≤ e.size then .error .tagTooLarge
    else if e.tagPositions[d.toNat % 2 ^ 64]?.join.isSome then .error .duplicateTagPosition
    else
      .ok { e.push [Instruction.jumpdest.opcode] with
        tagPositions := e.tagPositions.set (d.toNat % 2 ^ 64) (some e.size) }
  | .undefinedItem _ => .error .invalidOpcode

/-- The loop over the items. -/
def emitAll (a : Assembly) (subs : List Assembled) (bytesPerTag bytesPerDataRef : Nat) :
    List AssemblyItem → Emission → Except AssemblyException Emission
  | [], e => .ok e
  | i :: items, e =>
    (a.emit subs bytesPerTag bytesPerDataRef (e.storeInvalid i) i).bind
      (a.emitAll subs bytesPerTag bytesPerDataRef items)

/-! ### The references -/

/-- Append the referenced ones of the blocks one after the other, each time after writing the
position of the block where it is referenced. -/
def placeReferenced (bytesPerDataRef : Nat) (blocks : List (List Nat × LinkerObject))
    (o : LinkerObject) : LinkerObject :=
  blocks.foldl (fun o block =>
    if block.1 = [] then o
    else
      let start := toBigEndian bytesPerDataRef o.bytecode.length
      let bytecode := writeAll o.bytecode (block.1.map fun p => (p, start))
      LinkerObject.append { o with bytecode := bytecode } block.2) o

/-- The position of a tag of the code itself or of a sub-assembly. -/
def tagPosition (positions : List (Option Nat)) (subs : List (List (Option Nat)))
    (tag : Nat × Nat) : Except AssemblyException Nat :=
  match if tag.1 = AssemblyItem.noSub then some positions else subs[tag.1]? with
  | none => .error .invalidSubId
  | some positions =>
    match positions[tag.2]? with
    | none => .error .referenceToNonExistingTag
    | some none => .error .referenceToTagWithoutPosition
    | some (some p) => .ok p

/-- Write the positions of the tags where they are referenced. -/
def placeTags (positions : List (Option Nat)) (subs : List (List (Option Nat)))
    (bytesPerTag : Nat) : List (Nat × Nat × Nat) → List Byte →
    Except AssemblyException (List Byte)
  | [], code => .ok code
  | (p, tag) :: refs, code =>
    (tagPosition positions subs tag).bind fun n =>
      if Semantics.bytesRequired n ≤ bytesPerTag then
        placeTags positions subs bytesPerTag refs (writeAt code p (toBigEndian bytesPerTag n))
      else .error .tagTooLargeForReservedSpace

/-- The references to one data item or sub-assembly. -/
def refsTo {κ : Type} [DecidableEq κ] (refs : List (κ × Nat)) (k : κ) : List Nat :=
  (refs.filter (·.1 = k)).map (·.2)

/-- Everything behind the loop over the items. -/
def finish (a : Assembly) (subs : List Assembled) (bytesPerTag bytesPerDataRef : Nat)
    (e : Emission) : Except AssemblyException Assembled :=
  let object : LinkerObject :=
    if a.subs = [] ∧ a.data.isEmpty ∧ a.auxiliaryData = [] then e.object
    -- Append an INVALID here to help tests find miscompilation.
    else { e.object with bytecode := e.object.bytecode ++ [Instruction.invalid.opcode] }
  let object := placeReferenced bytesPerDataRef
    (subs.zipIdx.map fun s => (refsTo e.subRef s.2, s.1.object)) object
  (placeTags e.tagPositions (subs.map (·.tagPositions)) bytesPerTag e.tagRef
    object.bytecode).map fun code =>
    let object := placeReferenced bytesPerDataRef
      (a.data.toList.map fun d => (refsTo e.dataRef d.1, { bytecode := d.2 }))
      { object with bytecode := code }
    let code := object.bytecode ++ a.auxiliaryData
    let size := toBigEndian bytesPerDataRef code.length
    { object := { object with bytecode := writeAll code (e.sizeRef.map fun p => (p, size)) }
      tagPositions := e.tagPositions }

/-- Assemble, given the assembled sub-assemblies. -/
def assembleWith (a : Assembly) (subs : List Assembled) : Except AssemblyException Assembled :=
  match a.bytesRequired (subTagSize (subs.map (·.tagPositions))) with
  | none => .error .invalidOpcode
  | some forCode =>
    let bytesPerTag := Semantics.bytesRequired forCode
    let bytesPerDataRef := Semantics.bytesRequired
      (a.bytesRequiredIncludingData forCode (subs.map (·.object.bytecode.length)))
    (a.emitAll subs bytesPerTag bytesPerDataRef a.items
        { tagPositions := List.replicate a.usedTags none }).bind
      (a.finish subs bytesPerTag bytesPerDataRef)

mutual

/-- Assembles the assembly into bytecode. -/
def assemble : Assembly → Except AssemblyException Assembled
  | ⟨usedTags, items, data, auxiliaryData, subs, strings, libraries, deposit⟩ =>
    (assembleAll subs).bind
      (assembleWith ⟨usedTags, items, data, auxiliaryData, subs, strings, libraries, deposit⟩)

def assembleAll : List Assembly → Except AssemblyException (List Assembled)
  | [] => .ok []
  | s :: subs => s.assemble.bind fun o => (assembleAll subs).map (o :: ·)

end

lemma assemble_eq (a : Assembly) : a.assemble = (assembleAll a.subs).bind a.assembleWith := by
  cases a
  rfl

end Assembly

end Sof
