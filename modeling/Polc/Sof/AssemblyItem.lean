import Polc.Sof.Machine
import Polc.Semantics.Bytes

/-!
# Assembly items and classes of expressions

`libsvmasm/AssemblyItem.h` without source locations, jump types and the values pushed during
assembly, and the part of `libsvmasm/ExpressionClasses.h` that matching reads.
-/

namespace Sof

open BitVec

/-- An item of assembly code: an operation, or a type and a word of data. -/
inductive AssemblyItem where
  | undefinedItem (data : Word)
  | operation (instruction : Instruction)
  | push (value : Word)
  | pushString (hash : Word)
  | pushTag (tag : Word)
  | pushSub (subId : Word)
  | pushSubSize (subId : Word)
  | pushProgramSize (data : Word)
  | tag (id : Word)
  | pushData (hash : Word)
  | pushLibraryAddress (hash : Word)
  | pushDeployTimeAddress (data : Word)
  deriving DecidableEq, Repr

/-- The instruction of an operation. -/
def AssemblyItem.instruction : AssemblyItem → Option Instruction
  | operation i => some i
  | _ => none

/-- The data of an item that is not an operation. -/
def AssemblyItem.data : AssemblyItem → Option Word
  | operation _ => none
  | undefinedItem d | push d | pushString d | pushTag d | pushSub d | pushSubSize d
  | pushProgramSize d | tag d | pushData d | pushLibraryAddress d | pushDeployTimeAddress d =>
    some d

namespace AssemblyItem

def arguments : AssemblyItem → Nat
  | operation i => (instructionInfo i).args
  | _ => 0

def returnValues : AssemblyItem → Nat
  | operation i => (instructionInfo i).ret
  | push _ | pushString _ | pushTag _ | pushData _ | pushSub _ | pushSubSize _
  | pushProgramSize _ | pushLibraryAddress _ | pushDeployTimeAddress _ => 1
  | tag _ | undefinedItem _ => 0

/-- What the item adds to the height of the stack. -/
def deposit (i : AssemblyItem) : Int := i.returnValues - i.arguments

/-- The sub-assembly part of a tag of the assembly itself: `size_t(-1)`. -/
def noSub : Nat := 2 ^ 64 - 1

/-- Splits the data of a push tag into sub-assembly id and actual tag id. -/
def splitForeignPushTag (data : Word) : Nat × Nat :=
  (((data >>> 64) - 1).toNat % 2 ^ 64, data.toNat % 2 ^ 64)

lemma splitForeignPushTag_of_lt {d : Word} (h : d.toNat < 2 ^ 64) :
    splitForeignPushTag d = (noSub, d.toNat) := by
  have hshift : d >>> 64 = 0 := by
    apply eq_of_toNat_eq
    rw [toNat_ushiftRight, Nat.shiftRight_eq_div_pow, Nat.div_eq_of_lt h]
    rfl
  rw [splitForeignPushTag, hshift, Nat.mod_eq_of_lt h]
  rfl

/-- The data of a push tag for a tag of a sub-assembly, or of the assembly itself. -/
def joinPushTag (subId tagId : Nat) : Word :=
  if subId = noSub then BitVec.ofNat 256 tagId
  else BitVec.ofNat 256 tagId ||| BitVec.ofNat 256 (subId + 1) <<< 64

/-- The position of the type in the source's enumeration. -/
def typeIndex : AssemblyItem → Nat
  | undefinedItem _ => 0 | operation _ => 1 | push _ => 2 | pushString _ => 3 | pushTag _ => 4
  | pushSub _ => 5 | pushSubSize _ => 6 | pushProgramSize _ => 7 | tag _ => 8 | pushData _ => 9
  | pushLibraryAddress _ => 10 | pushDeployTimeAddress _ => 11

/-- What items of one type are compared by: the instruction's byte or the data. -/
def payload : AssemblyItem → Nat
  | operation i => i.opcode.toNat
  | undefinedItem d | push d | pushString d | pushTag d | pushSub d | pushSubSize d
  | pushProgramSize d | tag d | pushData d | pushLibraryAddress d | pushDeployTimeAddress d =>
    d.toNat

/-- Less-than operator compatible with equality. -/
def lt (i j : AssemblyItem) : Bool :=
  if i.typeIndex ≠ j.typeIndex then i.typeIndex < j.typeIndex else i.payload < j.payload

lemma eq_of_payload_eq {i j : AssemblyItem} (ht : i.typeIndex = j.typeIndex)
    (hp : i.payload = j.payload) : i = j := by
  cases i with
  | operation a =>
    cases j with
    | operation b => rw [Instruction.opcode_injective (eq_of_toNat_eq hp)]
    | _ => cases ht
  | _ =>
    cases j <;> first
      | exact congrArg _ (eq_of_toNat_eq hp)
      | cases ht

lemma eq_of_not_lt {i j : AssemblyItem} (h : i.lt j = false) (h' : j.lt i = false) : i = j := by
  have ht : i.typeIndex = j.typeIndex := by
    by_contra ht
    rw [lt, if_pos ht, decide_eq_false_iff_not] at h
    rw [lt, if_pos (Ne.symm ht), decide_eq_false_iff_not] at h'
    exact ht (Nat.le_antisymm (Nat.le_of_not_lt h') (Nat.le_of_not_lt h))
  rw [lt, if_neg (not_not_intro ht), decide_eq_false_iff_not] at h
  rw [lt, if_neg (not_not_intro ht.symm), decide_eq_false_iff_not] at h'
  exact eq_of_payload_eq ht (Nat.le_antisymm (Nat.le_of_not_lt h') (Nat.le_of_not_lt h))

/-- An upper bound for the number of bytes of the item, assuming that the value of a jump tag
takes `addressLength` bytes. Items of undefined type have none. -/
def bytesRequired (addressLength : Nat) : AssemblyItem → Option Nat
  | operation _ | tag _ => some 1
  | pushString _ => some (1 + 32)
  | push d => some (1 + max 1 (Semantics.bytesRequired d.toNat))
  -- worst case: a 16MB program
  | pushSubSize _ | pushProgramSize _ => some (1 + 4)
  | pushTag _ | pushData _ | pushSub _ => some (1 + addressLength)
  | pushLibraryAddress _ | pushDeployTimeAddress _ => some (1 + 20)
  | undefinedItem _ => none

/-- The tag that the item places. -/
def placedTag : AssemblyItem → Option Word
  | tag d => some d
  | _ => none

@[simp] lemma placedTag_eq_some {i : AssemblyItem} {d : Word} :
    i.placedTag = some d ↔ i = tag d := by
  cases i <;> simp [placedTag]

/-- No branch of the control flow continues behind the item. -/
def endsBlock : AssemblyItem → Bool
  | operation i => SemanticInformation.altersControlFlow i && i ≠ .jumpi
  | _ => false

end AssemblyItem

namespace ExpressionClasses

abbrev Id := Nat

/-- An item applied to classes of expressions. The item is null in the source where it is
`none` here. -/
structure Expression where
  id : Id
  item : Option AssemblyItem
  arguments : List Id
  sequenceNumber : Nat
  deriving DecidableEq, Repr

end ExpressionClasses

/-- The canonical representatives of the classes, indexed by their identifiers. -/
structure ExpressionClasses where
  representatives : List ExpressionClasses.Expression

def ExpressionClasses.representative (classes : ExpressionClasses) (id : Id) :
    Option Expression :=
  classes.representatives[id]?

end Sof
