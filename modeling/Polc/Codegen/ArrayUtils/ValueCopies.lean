import Polc.Codegen.ArrayUtils.Elements

/-!
# Copies of arrays of values to storage

What a copy leaves in the slots of the target: the elements of the source and those that share its
last slot, zeros up to the end of the last slot that is written, and of the slots after it that were
in use the first element is cleared.
-/

namespace Polynomial

open Semantics BitVec Result ValueType
open Sof (Word)

namespace ArrayUtils

section

variable (m : Machine) (sourceType : ArrayType) (source : Reference) (s : Storage)

/-- The number of elements of an array that is assigned. -/
def elementCount : ℕ := (retrieveLength m sourceType source s).toNat

/-- Where the elements start. -/
def elementsStart : Word :=
  match source.location with
  | .memory => if sourceType.isDynamicallySized then 0x20 + source.position else source.position
  | .callData => source.position
  | .storage => dataPosition m sourceType source.position

/-- How far it is to their end, in slots or bytes. -/
def elementsSize : Word :=
  if source.location = .storage then
    convertLengthToSize sourceType (retrieveLength m sourceType source s)
  else convertLengthToBytes sourceType (retrieveLength m sourceType source s)

/-- The number of elements that are copied. Slots of storage are copied up to their end. -/
def copiedCount : ℕ :=
  if source.location = .storage then
    sourceType.baseType.packing.words (elementCount m sourceType source s) *
      sourceType.baseType.packing.count
  else elementCount m sourceType source s

/-- The values of the elements of the source, in storage also those behind its end. -/
def HoldsElements (values : ℕ → ℤ) : Prop :=
  if source.location = .storage then
    ∀ i, values i = sourceType.baseType.ofContent
      (item sourceType.baseType.packing (elementsStart m sourceType source) s i)
  else
    ∀ i < elementCount m sourceType source s, sourceType.baseType.IsValue (values i) ∧
      sourceType.baseType.IsLoaded source.location (values i)
        (m.load source.location (elementsStart m sourceType source + .ofNat 256 (32 * i)))

end

variable {m : Machine} {targetType sourceType type : ArrayType} {source : Reference}
  {ref position : Word} {s s' : Storage} {size n : ℕ}

lemma convertLengthToSize_eq {length : Word} (h : length.toNat + 31 < 2 ^ 256) :
    convertLengthToSize type length = .ofNat 256 (type.baseType.packing.words length.toNat) := by
  have hbounds := type.baseType.storageBytes_bounds
  apply eq_of_toNat_eq
  unfold convertLengthToSize Packing.words
  split_ifs with hbytes
  · have hle : 32 / type.baseType.storageBytes ≤ 32 := Nat.div_le_self _ _
    have hpos : 0 < 32 / type.baseType.storageBytes := Nat.div_pos (by omega) hbounds.1
    rw [packing_count_of_le hbytes, toNat_udiv, toNat_add,
      toNat_ofNat, toNat_ofNat, toNat_ofNat]
    unfold itemsPerSlot
    rw [Nat.mod_eq_of_lt (show 32 / type.baseType.storageBytes - 1 < 2 ^ 256 by omega),
      Nat.mod_eq_of_lt (show 32 / type.baseType.storageBytes < 2 ^ 256 by omega),
      Nat.mod_eq_of_lt (by omega), Nat.add_comm,
      Nat.mod_eq_of_lt ((Nat.div_le_self _ _).trans_lt (by omega))]
  · rw [packing_count_of_lt (Nat.lt_of_not_le hbytes), Nat.sub_self, Nat.add_zero,
      Nat.div_one, ofNat_toNat, setWidth_eq]

lemma slotOf_of_lt {t : ValueType} (h : 16 < t.storageBytes) (position : Word) (i : ℕ) :
    slotOf t position i = slotOf .uint256 position i ∧ offsetOf t i = offsetOf .uint256 i := by
  have hcount := packing_count_of_lt h
  constructor
  · rw [slotOf_uint256, slotOf, hcount, Nat.div_one]
  · rw [offsetOf_uint256]
    exact (offsetOf_eq_zero_iff _ _).mpr (by rw [hcount, Nat.mod_one])

/-! ### The storage after a copy -/

/-- The elements of an area up to the end of a slot were replaced. The slots from `own` on are as
before if their elements are. -/
structure Filled (p : Packing 256) (position : Word) (size own bound : ℕ) (content : ℕ → ℕ)
    (s s' : Storage) : Prop where
  item_eq : ∀ i < size * p.count,
    item p position s' i = if i / p.count < bound then content i else item p position s i
  slot_eq : ∀ j < size, own ≤ j → (∀ k, k / p.count = j → j < bound →
    content k = item p position s k) → area position s' j = area position s j
  outside : ∀ x, Outside position size x → s' x = s x

lemma Replaced.filled {p : Packing 256} {content : ℕ → ℕ} {bound : ℕ} (own : ℕ)
    (h : Replaced p position size content s (bound * p.count) s') :
    Filled p position size own bound content s s' where
  item_eq i hi := by
    rw [h.item_eq i hi]
    exact if_congr p.div_lt_iff.symm rfl rfl
  slot_eq j hj _ hsame := h.slot_eq j hj fun k hk hkj =>
    hsame k hkj (hkj ▸ p.div_lt_iff.mpr hk)
  outside := h.outside

/-- The storage after a copy of `total` elements that finds an array with `oldLength` elements. -/
structure CopiedItems (t : ValueType) (position : Word) (size own total oldLength : ℕ)
    (content : ℕ → ℕ) (s s' : Storage) : Prop where
  item_eq : ∀ i < size * t.packing.count, item t.packing position s' i =
    if i < total then content i
    else if i / t.packing.count < t.packing.words total ∨
      i / t.packing.count < t.packing.words oldLength ∧ i % t.packing.count = 0 then 0
    else item t.packing position s i
  slot_eq : ∀ j < size, own ≤ j → t.packing.words oldLength ≤ j →
    (∀ k, k / t.packing.count = j → j < t.packing.words total →
      (if k < total then content k else 0) = item t.packing position s k) →
    area position s' j = area position s j
  outside : ∀ x, Outside position size x → s' x = s x

lemma Filled.copiedItems {t : ValueType} {own total oldLength : ℕ} {content : ℕ → ℕ}
    (hfits : Fits position size) (htotal : t.packing.words total ≤ size)
    (hold : t.packing.words oldLength ≤ size)
    (h : Filled t.packing position size own (t.packing.words total)
      (fun i => if i < total then content i else 0) s s') :
    CopiedItems t position size own total oldLength content s
      (clearStorageLoop t (position + .ofNat 256 (t.packing.words oldLength))
        (position + .ofNat 256 (t.packing.words total)) s') where
  item_eq i hi := by
    have hslot := t.packing.div_lt_iff.mpr hi
    have hle := t.packing.le_words_mul total
    have hcleared : item t.packing position (clearStorageLoop t
          (position + .ofNat 256 (t.packing.words oldLength))
          (position + .ofNat 256 (t.packing.words total)) s') i =
        if t.packing.words total ≤ i / t.packing.count ∧
            i / t.packing.count < t.packing.words oldLength ∧ i % t.packing.count = 0 then 0
        else item t.packing position s' i := by
      unfold item Packing.read area
      rw [clearStorageLoop_apply, toNat_add_ofNat hfits hslot.le, toNat_add_ofNat hfits htotal,
        toNat_add_ofNat hfits hold]
      by_cases hrange : t.packing.words total ≤ i / t.packing.count ∧
          i / t.packing.count < t.packing.words oldLength
      · rw [if_pos (by omega)]
        by_cases hmod : i % t.packing.count = 0
        · rw [if_pos ⟨hrange.1, hrange.2, hmod⟩]
          have hfield : t.packing.field 0 = t.packing.field i := by
            rw [Packing.field, Packing.field, hmod, Nat.zero_mod]
          rw [hfield]
          exact Field.get_set _ _ (t.packing.offset_field_le i) (Nat.two_pow_pos _)
        · rw [if_neg (fun hc => hmod hc.2.2)]
          refine Field.get_set_of_apart _ _ _ (t.packing.offset_field_le i)
            (t.packing.field_apart ?_) (Nat.two_pow_pos _)
          rwa [Nat.zero_mod]
      · rw [if_neg (by omega), if_neg (fun hc => hrange ⟨hc.1, hc.2.1⟩)]
    rw [hcleared, h.item_eq i hi]
    by_cases hlt : i < total
    · have hword : i / t.packing.count < t.packing.words total :=
        t.packing.div_lt_iff.mpr (hlt.trans_le hle)
      rw [if_neg (fun hc => absurd hword (Nat.not_lt.mpr hc.1)), if_pos hword, if_pos hlt,
        if_pos hlt]
    · rw [if_neg hlt, if_neg hlt]
      by_cases hword : i / t.packing.count < t.packing.words total
      · rw [if_neg (fun hc => absurd hword (Nat.not_lt.mpr hc.1)), if_pos hword,
          if_pos (.inl hword)]
      · rw [if_neg hword]
        refine if_congr ?_ rfl rfl
        constructor
        · exact fun hc => .inr hc.2
        · rintro (hc | hc)
          · exact absurd hc hword
          · exact ⟨Nat.le_of_not_lt hword, hc⟩
  slot_eq j hj hown hge hsame := by
    have hslot : area position (clearStorageLoop t
        (position + .ofNat 256 (t.packing.words oldLength))
        (position + .ofNat 256 (t.packing.words total)) s') j = area position s' j := by
      unfold area
      rw [clearStorageLoop_apply, toNat_add_ofNat hfits hj.le, toNat_add_ofNat hfits hold, if_neg]
      omega
    rw [hslot]
    exact h.slot_eq j hj hown hsame
  outside x hx := by
    rw [clearStorageLoop_apply, toNat_add_ofNat hfits htotal, toNat_add_ofNat hfits hold, if_neg,
      h.outside x hx]
    unfold Outside at hx
    omega

section

variable (m : Machine) (targetType sourceType : ArrayType) (source : Reference) (ref : Word)
  (s : Storage)

/-- The number of elements that the target has before. -/
def targetCount : ℕ := (retrieveStorageLength targetType ref s).toNat

/-- The number of slots that belong to the target before or after. -/
def ownSlots : ℕ :=
  max (targetType.baseType.packing.words (elementCount m sourceType source s))
    (targetType.baseType.packing.words (targetCount targetType ref s))

/-- The number of slots that are written. -/
def reachedSlots : ℕ :=
  max (targetType.baseType.packing.words (copiedCount m sourceType source s))
    (targetType.baseType.packing.words (targetCount targetType ref s))

variable {m targetType sourceType source ref s} in
lemma elementCount_le : elementCount m sourceType source s ≤ copiedCount m sourceType source s := by
  unfold copiedCount
  split_ifs
  · exact Packing.le_words_mul _ _
  · exact le_rfl

variable {m targetType sourceType source ref s} in
lemma ownSlots_le : ownSlots m targetType sourceType source ref s ≤
    reachedSlots m targetType sourceType source ref s :=
  max_le_max_right _ (Packing.words_mono _ elementCount_le)

/-- The slots of the arrays do not wrap around, and a source in storage is the target or has other
slots. -/
structure CopyPlaces : Prop where
  elementCount_lt : elementCount m sourceType source s + 31 < 2 ^ 256
  targetCount_lt : targetCount targetType ref s + 31 < 2 ^ 256
  fits : Fits (dataPosition m targetType ref) (reachedSlots m targetType sourceType source ref s)
  ref_outside : targetType.isDynamicallySized = true →
    Outside (dataPosition m targetType ref) (reachedSlots m targetType sourceType source ref s) ref
  source_fits :
    if source.location = .storage then
      Fits (elementsStart m sourceType source)
        (sourceType.baseType.packing.words (elementCount m sourceType source s))
    else
      (elementsStart m sourceType source).toNat + 32 * elementCount m sourceType source s < 2 ^ 256
  source_apart : source.location = .storage →
    sourceType = targetType ∧ source.position = ref ∨
      ∀ j < sourceType.baseType.packing.words (elementCount m sourceType source s),
        elementsStart m sourceType source + .ofNat 256 j ≠ ref ∧
          Outside (dataPosition m targetType ref) (ownSlots m targetType sourceType source ref s)
            (elementsStart m sourceType source + .ofNat 256 j)

end

/-! ### The loop -/

variable {fuel : ℕ} {values : ℕ → ℤ}

lemma targetStep_eq {location : DataLocation}
    (htarget : targetType.isByteArray = false)
    (hdirect : directCopy targetType sourceType location = false) (position : Word) (i : ℕ) :
    slotOf (targetStep targetType sourceType location) position i =
        slotOf targetType.baseType position i ∧
      offsetOf (targetStep targetType sourceType location) i = offsetOf targetType.baseType i := by
  unfold targetStep haveByteOffsetTarget
  rw [hdirect, copiedType_of_not htarget]
  by_cases hbytes : targetType.baseType.storageBytes ≤ 16
  · simp [hbytes]
  · obtain ⟨hslot, hoffset⟩ := slotOf_of_lt (Nat.lt_of_not_le hbytes) position i
    simp [hbytes, hslot, hoffset]

lemma sourceStep_eq (hsource : sourceType.isByteArray = false)
    (hdirect : directCopy targetType sourceType .storage = false) (position : Word) (i : ℕ) :
    slotOf (sourceStep targetType sourceType .storage) position i =
        slotOf sourceType.baseType position i ∧
      offsetOf (sourceStep targetType sourceType .storage) i = offsetOf sourceType.baseType i := by
  unfold sourceStep haveByteOffsetSource
  rw [hdirect, copiedType_of_not hsource]
  by_cases hbytes : sourceType.baseType.storageBytes ≤ 16
  · simp [hbytes]
  · obtain ⟨hslot, hoffset⟩ := slotOf_of_lt (Nat.lt_of_not_le hbytes) position i
    simp [hbytes, hslot, hoffset]

/-- The content of each element when it is copied. -/
def contentRead (m : Machine) (targetType sourceType : ArrayType) (source : Reference)
    (values : ℕ → ℤ) (i : ℕ) (s : Storage) : ℕ :=
  sourceType.baseType.storedContent targetType.baseType
    (if source.location = .storage then
      sourceType.baseType.ofContent
        (item sourceType.baseType.packing (elementsStart m sourceType source) s i)
    else values i)

lemma contentRead_lt (i : ℕ) (s : Storage) :
    contentRead m targetType sourceType source values i s <
      2 ^ targetType.baseType.packing.width :=
  storedContent_lt _ _ _

lemma contentRead_of_storage (h : source.location = .storage) (i : ℕ) (s : Storage) :
    contentRead m targetType sourceType source values i s =
      sourceType.baseType.storedContent targetType.baseType (sourceType.baseType.ofContent
        (item sourceType.baseType.packing (elementsStart m sourceType source) s i)) := by
  rw [contentRead, if_pos h]

lemma contentRead_of_ne (h : source.location ≠ .storage) (i : ℕ) (s : Storage) :
    contentRead m targetType sourceType source values i s =
      sourceType.baseType.storedContent targetType.baseType (values i) := by
  rw [contentRead, if_neg h]

lemma elementSlot_lt_iff (hplaces : CopyPlaces m targetType sourceType source ref s)
    (hsource : sourceType.isByteArray = false)
    (hdirect : directCopy targetType sourceType source.location = false) {i : ℕ}
    (hi : i ≤ copiedCount m sourceType source s) :
    sourceSlot targetType sourceType source.location (elementsStart m sourceType source) i <
        elementsStart m sourceType source + elementsSize m sourceType source s ↔
      i < copiedCount m sourceType source s := by
  have hfits := hplaces.source_fits
  have hlength := hplaces.elementCount_lt
  unfold copiedCount at hi ⊢
  unfold sourceSlot elementsSize
  split_ifs at hfits hi ⊢ with hlocation
  · rw [hlocation] at hdirect ⊢
    have hdiv : i / sourceType.baseType.packing.count ≤
        sourceType.baseType.packing.words (elementCount m sourceType source s) := by
      rw [← Nat.mul_div_cancel
        (sourceType.baseType.packing.words (elementCount m sourceType source s))
        sourceType.baseType.packing.count_pos]
      exact Nat.div_le_div_right hi
    have hsize : convertLengthToSize sourceType (retrieveLength m sourceType source s) =
        .ofNat 256 (sourceType.baseType.packing.words (elementCount m sourceType source s)) :=
      convertLengthToSize_eq hlength
    rw [(sourceStep_eq hsource hdirect _ _).1, hsize, lt_def, slotOf,
      toNat_add_ofNat hfits hdiv, toNat_add_ofNat hfits le_rfl, ← Packing.div_lt_iff]
    omega
  · have hsize : convertLengthToBytes sourceType (retrieveLength m sourceType source s) =
        .ofNat 256 (32 * elementCount m sourceType source s) := by
      unfold convertLengthToBytes
      rw [hsource, if_neg Bool.false_ne_true]
      apply eq_of_toNat_eq
      rw [toNat_mul, toNat_ofNat]
      rfl
    have hplace : Fits (elementsStart m sourceType source)
        (32 * elementCount m sourceType source s) := hfits
    rw [hsize, lt_def, toNat_add_ofNat hplace (by omega), toNat_add_ofNat hplace le_rfl]
    omega

lemma copyElement_eq (htarget : targetType.isByteArray = false)
    (hsource : sourceType.isByteArray = false)
    (hdirect : directCopy targetType sourceType source.location = false)
    (hconvertible : sourceType.baseType.isImplicitlyConvertibleTo targetType.baseType)
    (hsame : ∀ f, targetType.baseType = .function f → sourceType.baseType = targetType.baseType)
    (hvalues : HoldsElements m sourceType source s values) {i : ℕ}
    (hi : i < copiedCount m sourceType source s) (st : Storage) :
    copyElement m targetType sourceType source.location
        (cursorAt targetType sourceType source.location (elementsStart m sourceType source)
          position i) st =
      .ok () (Function.update st
        (position + .ofNat 256 (i / targetType.baseType.packing.count))
        ((targetType.baseType.packing.field i).set
          (st (position + .ofNat 256 (i / targetType.baseType.packing.count)))
          (contentRead m targetType sourceType source values i st))) := by
  obtain ⟨hslot, hoffset⟩ := targetStep_eq htarget hdirect position i
  unfold HoldsElements at hvalues
  unfold copiedCount at hi
  unfold contentRead
  by_cases hlocation : source.location = .storage
  · rw [hlocation] at hdirect
    have htype : sourceType.baseType ≠ targetType.baseType := by
      intro htype
      rw [directCopy, copiedType_of_not htarget, copiedType_of_not hsource, htype] at hdirect
      simp at hdirect
    obtain ⟨hsourceSlot, hsourceOffset⟩ := sourceStep_eq hsource hdirect
      (elementsStart m sourceType source) i
    simp only [hlocation] at hslot hoffset ⊢
    rw [copyElement_stored htarget hsource htype hconvertible hsame hsourceOffset hoffset]
    unfold cursorAt sourceSlot
    simp only [if_true, hslot, hsourceSlot]
    rfl
  · rw [if_neg hlocation] at hi
    simp only [hlocation, if_false] at hvalues ⊢
    obtain ⟨hv, hloaded⟩ := hvalues i hi
    have hposition : (cursorAt targetType sourceType source.location
        (elementsStart m sourceType source) position i).sourcePosition =
        elementsStart m sourceType source + .ofNat 256 (32 * i) := by
      unfold cursorAt sourceSlot
      simp only [hlocation, if_false]
    rw [copyElement_loaded htarget hsource hlocation hconvertible hsame hv
      (hposition ▸ hloaded) hoffset]
    unfold cursorAt
    simp only [hslot]
    rfl

/-- The contents that a copy writes, starting from the given storage. -/
def contents (m : Machine) (targetType sourceType : ArrayType) (source : Reference)
    (values : ℕ → ℤ) (position : Word) (s : Storage) (i : ℕ) : ℕ :=
  contentRead m targetType sourceType source values i
    (written targetType.baseType.packing position
      (contentRead m targetType sourceType source values) s i)

lemma copyLoops_elements (hplaces : CopyPlaces m targetType sourceType source ref s)
    (htarget : targetType.isByteArray = false) (hsource : sourceType.isByteArray = false)
    (hdirect : directCopy targetType sourceType source.location = false)
    (hconvertible : sourceType.baseType.isImplicitlyConvertibleTo targetType.baseType)
    (hsame : ∀ f, targetType.baseType = .function f → sourceType.baseType = targetType.baseType)
    (hvalues : HoldsElements m sourceType source s values)
    (hfuel : copiedCount m sourceType source s < fuel) (hcleanup : 32 < fuel) (st : Storage) :
    ∃ c s', ((copyLoop m targetType sourceType source.location
          (elementsStart m sourceType source + elementsSize m sourceType source s) fuel
          ⟨elementsStart m sourceType source, dataPosition m targetType ref, 0, 0⟩ st).bind
        fun c s =>
          if haveByteOffsetTarget targetType sourceType source.location then
            copyCleanupLoop targetType sourceType source.location fuel c s else .ok c s) =
        .ok c s' ∧
      c.targetPosition = dataPosition m targetType ref + .ofNat 256
        (targetType.baseType.packing.words (copiedCount m sourceType source s)) ∧
      Filled targetType.baseType.packing (dataPosition m targetType ref)
        (reachedSlots m targetType sourceType source ref s)
        (ownSlots m targetType sourceType source ref s)
        (targetType.baseType.packing.words (copiedCount m sourceType source s))
        (fun i => if i < copiedCount m sourceType source s then
          contents m targetType sourceType source values (dataPosition m targetType ref) st i
          else 0) st s' := by
  have hwords : targetType.baseType.packing.words (copiedCount m sourceType source s) ≤
      reachedSlots m targetType sourceType source ref s := le_max_left _ _
  have hloop := copyLoop_states (m := m)
    (written targetType.baseType.packing (dataPosition m targetType ref)
      (contentRead m targetType sourceType source values) st)
    (fun i hi => elementSlot_lt_iff hplaces hsource hdirect hi)
    (fun i hi => copyElement_eq htarget hsource hdirect hconvertible hsame hvalues hi _) hfuel
  have hreplaced := written_replaced targetType.baseType.packing (s := st)
    (contentRead m targetType sourceType source values) contentRead_lt hplaces.fits
    (Packing.words_le_iff _ |>.mp hwords)
  obtain ⟨hslot, hoffset⟩ : (cursorAt targetType sourceType source.location
        (elementsStart m sourceType source) (dataPosition m targetType ref)
        (copiedCount m sourceType source s)).targetPosition = slotOf targetType.baseType
          (dataPosition m targetType ref) (copiedCount m sourceType source s) ∧
      (cursorAt targetType sourceType source.location (elementsStart m sourceType source)
        (dataPosition m targetType ref) (copiedCount m sourceType source s)).targetByteOffset =
          offsetOf targetType.baseType (copiedCount m sourceType source s) :=
    targetStep_eq htarget hdirect _ _
  have hhave : haveByteOffsetTarget targetType sourceType source.location = true ∨
      targetType.baseType.packing.count = 1 := by
    unfold haveByteOffsetTarget
    rw [hdirect, copiedType_of_not htarget]
    by_cases hbytes : targetType.baseType.storageBytes ≤ 16
    · exact .inl (decide_eq_true hbytes)
    · exact .inr (packing_count_of_lt (Nat.lt_of_not_le hbytes))
  have hcount : targetType.baseType.packing.count ≤ 32 := by
    change (if _ then 32 / _ else 1) ≤ 32
    split_ifs
    · exact Nat.div_le_self _ _
    · decide
  obtain ⟨c, s', hcleaned, hposition, hfilled⟩ := copyCleanup_replaced
    (copiedType_of_not htarget) hhave hplaces.fits hwords (fun i => contentRead_lt i _) hslot
    hoffset hreplaced (hcount.trans_lt hcleanup)
  refine ⟨c, s', ?_, hposition, hfilled.filled _⟩
  exact (congrArg (Result.bind · _) hloop).trans hcleaned

lemma copyLoops_direct (hplaces : CopyPlaces m targetType sourceType source ref s)
    (htarget : targetType.isByteArray = false) (hsource : sourceType.isByteArray = false)
    (hlocation : source.location = .storage) (htype : sourceType.baseType = targetType.baseType)
    (hfuel : copiedCount m sourceType source s < fuel) {st : Storage}
    (hst : ∀ x, (targetType.isDynamicallySized → x ≠ ref) → st x = s x) :
    ∃ c s', ((copyLoop m targetType sourceType source.location
          (elementsStart m sourceType source + elementsSize m sourceType source s) fuel
          ⟨elementsStart m sourceType source, dataPosition m targetType ref, 0, 0⟩ st).bind
        fun c s =>
          if haveByteOffsetTarget targetType sourceType source.location then
            copyCleanupLoop targetType sourceType source.location fuel c s else .ok c s) =
        .ok c s' ∧
      c.targetPosition = dataPosition m targetType ref + .ofNat 256
        (targetType.baseType.packing.words (copiedCount m sourceType source s)) ∧
      Filled targetType.baseType.packing (dataPosition m targetType ref)
        (reachedSlots m targetType sourceType source ref s)
        (ownSlots m targetType sourceType source ref s)
        (targetType.baseType.packing.words (copiedCount m sourceType source s))
        (fun i => if i < copiedCount m sourceType source s then
          item targetType.baseType.packing (elementsStart m sourceType source) s i
          else 0) st s' := by
  have hcopied : copiedCount m sourceType source s =
      targetType.baseType.packing.words (elementCount m sourceType source s) *
        targetType.baseType.packing.count := by
    rw [copiedCount, if_pos hlocation, htype]
  have hwords : targetType.baseType.packing.words (copiedCount m sourceType source s) =
      targetType.baseType.packing.words (elementCount m sourceType source s) := by
    rw [hcopied, Packing.words_mul]
  have hreached : reachedSlots m targetType sourceType source ref s =
      ownSlots m targetType sourceType source ref s := by
    rw [reachedSlots, ownSlots, hwords]
  have hle : targetType.baseType.packing.words (elementCount m sourceType source s) ≤
      reachedSlots m targetType sourceType source ref s := by
    rw [← hwords]
    exact le_max_left _ _
  have hdirect : directCopy targetType sourceType source.location = true := by
    rw [directCopy, copiedType_of_not htarget, copiedType_of_not hsource, htype, hlocation]
    simp
  have hsourceStep : sourceStep targetType sourceType source.location = .uint256 := by
    simp [sourceStep, haveByteOffsetSource, hdirect]
  have htargetStep : targetStep targetType sourceType source.location = .uint256 := by
    simp [targetStep, haveByteOffsetTarget, hdirect]
  have hfits := hplaces.source_fits
  rw [if_pos hlocation, htype] at hfits
  have hsize : elementsSize m sourceType source s = .ofNat 256
      (targetType.baseType.packing.words (elementCount m sourceType source s)) := by
    rw [elementsSize, if_pos hlocation, ← htype]
    exact convertLengthToSize_eq hplaces.elementCount_lt
  have hend : ∀ i ≤ targetType.baseType.packing.words (elementCount m sourceType source s),
      sourceSlot targetType sourceType source.location (elementsStart m sourceType source) i <
          elementsStart m sourceType source + elementsSize m sourceType source s ↔
        i < targetType.baseType.packing.words (elementCount m sourceType source s) := by
    intro i hi
    rw [sourceSlot, if_pos hlocation, hsourceStep, slotOf_uint256, hsize, lt_def,
      toNat_add_ofNat hfits hi, toNat_add_ofNat hfits le_rfl]
    omega
  -- The slots of the source are as they were when they are copied.
  have hcopy : ∀ i < targetType.baseType.packing.words (elementCount m sourceType source s),
      ∀ s', Replaced ValueType.uint256.packing (dataPosition m targetType ref)
        (reachedSlots m targetType sourceType source ref s)
        (fun j => (area (elementsStart m sourceType source) s j).toNat) st i s' →
      copyElement m targetType sourceType source.location
          (cursorAt targetType sourceType source.location (elementsStart m sourceType source)
            (dataPosition m targetType ref) i) s' =
        .ok () (Function.update s'
          (dataPosition m targetType ref + .ofNat 256 (i / ValueType.uint256.packing.count))
          ((ValueType.uint256.packing.field i).set (s' (dataPosition m targetType ref +
              .ofNat 256 (i / ValueType.uint256.packing.count)))
            (area (elementsStart m sourceType source) s i).toNat)) := by
    intro i hi s' hreplaced
    have hread : s' (elementsStart m sourceType source + .ofNat 256 i) =
        area (elementsStart m sourceType source) s i := by
      rcases hplaces.source_apart hlocation with ⟨rfl, hposition⟩ | hapart
      · have hstart : elementsStart m sourceType source = dataPosition m sourceType ref := by
          rw [elementsStart, hlocation, hposition]
        have hitem := hreplaced.item_eq i (by rw [packing_uint256_count]; omega)
        rw [if_neg (Nat.lt_irrefl i), item_uint256, item_uint256, toNat_inj] at hitem
        rw [hstart]
        refine hitem.trans (hst _ fun hdynamic => ?_)
        exact (hplaces.ref_outside hdynamic).ne hplaces.fits (by omega)
      · obtain ⟨hne, hout⟩ := hapart i (by rwa [htype])
        rw [hreplaced.outside _ (hreached ▸ hout), hst _ fun _ => hne]
        rfl
    rw [packing_uint256_count, Nat.div_one, set_field_of_storageBytes rfl,
      ofNat_toNat, setWidth_eq, hlocation, copyElement_direct htarget hsource htype]
    unfold cursorAt sourceSlot
    rw [hlocation] at hsourceStep htargetStep
    simp only [hsourceStep, htargetStep, if_true, slotOf_uint256, hread]
  have hiterations : targetType.baseType.packing.words (elementCount m sourceType source s) <
      fuel := by
    have := Nat.le_mul_of_pos_right
      (targetType.baseType.packing.words (elementCount m sourceType source s))
      targetType.baseType.packing.count_pos
    omega
  obtain ⟨s', hloop, hreplaced⟩ := copyLoop_replaced ValueType.uint256.packing hplaces.fits
    (by rwa [packing_uint256_count, Nat.mul_one])
    (fun i => (area (elementsStart m sourceType source) s i).isLt) hend hcopy hiterations
  have hhave : haveByteOffsetTarget targetType sourceType source.location = false := by
    rw [haveByteOffsetTarget, hdirect]
    rfl
  refine ⟨cursorAt targetType sourceType source.location (elementsStart m sourceType source)
    (dataPosition m targetType ref)
    (targetType.baseType.packing.words (elementCount m sourceType source s)), s', ?_, ?_,
    ⟨fun i hi => ?_, fun j hj hown _ => ?_, hreplaced.outside⟩⟩
  · rw [hloop, bind_ok, hhave, if_neg Bool.false_ne_true]
  · rw [hwords]
    change slotOf (targetStep targetType sourceType source.location) _ _ = _
    rw [htargetStep, slotOf_uint256]
  · have hslot := Packing.div_lt_iff _ |>.mpr hi
    have hitem := hreplaced.item_eq (i / targetType.baseType.packing.count)
      (by rwa [packing_uint256_count, Nat.mul_one])
    rw [item_uint256, item_uint256] at hitem
    rw [hwords]
    by_cases hcopiedSlot : i / targetType.baseType.packing.count <
        targetType.baseType.packing.words (elementCount m sourceType source s)
    · rw [if_pos hcopiedSlot, toNat_inj] at hitem
      rw [if_pos hcopiedSlot, if_pos (hcopied ▸ Packing.div_lt_iff _ |>.mp hcopiedSlot)]
      unfold item Packing.read
      rw [hitem]
    · rw [if_neg hcopiedSlot, toNat_inj] at hitem
      rw [if_neg hcopiedSlot]
      exact item_congr hitem
  · exact absurd hj (by omega)

/-! ### The copy -/

/-- The storage with a new length. Static arrays have none there. -/
def withLength (type : ArrayType) (ref length : Word) (s : Storage) : Storage :=
  if type.isDynamicallySized then Function.update s ref length else s

lemma withLength_of_ne {length x : Word} (hx : type.isDynamicallySized → x ≠ ref) :
    withLength type ref length s x = s x := by
  unfold withLength
  split_ifs with hdynamic
  · exact Function.update_of_ne (hx hdynamic) _ _
  · rfl

lemma CopyPlaces.area_withLength (hplaces : CopyPlaces m targetType sourceType source ref s)
    (length : Word) {j : ℕ} (hj : j < reachedSlots m targetType sourceType source ref s) :
    area (dataPosition m targetType ref) (withLength targetType ref length s) j =
      area (dataPosition m targetType ref) s j :=
  withLength_of_ne fun hdynamic => (hplaces.ref_outside hdynamic).ne hplaces.fits hj

lemma CopyPlaces.item_withLength (hplaces : CopyPlaces m targetType sourceType source ref s)
    (length : Word) {i : ℕ} (hi : i < reachedSlots m targetType sourceType source ref s *
      targetType.baseType.packing.count) :
    item targetType.baseType.packing (dataPosition m targetType ref)
        (withLength targetType ref length s) i =
      item targetType.baseType.packing (dataPosition m targetType ref) s i :=
  item_congr (hplaces.area_withLength length (Packing.div_lt_iff _ |>.mpr hi))

lemma copyArrayToStorage_eq_bind (hplaces : CopyPlaces m targetType sourceType source ref s)
    (htarget : targetType.isByteArray = false) (fuel : ℕ) :
    copyArrayToStorage m targetType sourceType source ref fuel s =
      if retrieveLength m sourceType source s = 0 then
        .ok () (clearStorageLoop targetType.baseType
          (dataPosition m targetType ref +
            .ofNat 256 (targetType.baseType.packing.words (targetCount targetType ref s)))
          (dataPosition m targetType ref)
          (withLength targetType ref (retrieveLength m sourceType source s) s))
      else
        ((copyLoop m targetType sourceType source.location
            (elementsStart m sourceType source + elementsSize m sourceType source s) fuel
            ⟨elementsStart m sourceType source, dataPosition m targetType ref, 0, 0⟩
            (withLength targetType ref (retrieveLength m sourceType source s) s)).bind
          fun c s =>
            if haveByteOffsetTarget targetType sourceType source.location then
              copyCleanupLoop targetType sourceType source.location fuel c s else .ok c s).bind
        fun c s' => .ok () (clearStorageLoop targetType.baseType
          (dataPosition m targetType ref +
            .ofNat 256 (targetType.baseType.packing.words (targetCount targetType ref s)))
          c.targetPosition s') := by
  have hold : convertLengthToSize targetType (retrieveStorageLength targetType ref s) =
      .ofNat 256 (targetType.baseType.packing.words (targetCount targetType ref s)) :=
    convertLengthToSize_eq hplaces.targetCount_lt
  unfold copyArrayToStorage
  simp only [htarget, Bool.false_eq_true, false_and, if_false, copiedType_of_not htarget, hold,
    bind_assoc]
  obtain ⟨location, position, length⟩ := source
  by_cases hzero : retrieveLength m sourceType ⟨location, position, length⟩ s = 0
  · rw [if_pos hzero, if_pos hzero]
    rfl
  · rw [if_neg hzero, if_neg hzero]
    cases location with
    | memory =>
      unfold elementsStart
      simp only [true_and]
      rfl
    | _ => rfl

lemma contents_eq (hplaces : CopyPlaces m targetType sourceType source ref s)
    (hdirect : directCopy targetType sourceType source.location = false)
    (hvalues : HoldsElements m sourceType source s values) (length : Word) {i : ℕ}
    (hi : i < copiedCount m sourceType source s)
    (hbehind : ∀ k < i, ownSlots m targetType sourceType source ref s *
        targetType.baseType.packing.count ≤ k →
      contents m targetType sourceType source values (dataPosition m targetType ref)
          (withLength targetType ref length s) k =
        item targetType.baseType.packing (dataPosition m targetType ref) s k) :
    contents m targetType sourceType source values (dataPosition m targetType ref)
        (withLength targetType ref length s) i =
      sourceType.baseType.storedContent targetType.baseType (values i) := by
  have hwords : targetType.baseType.packing.words (copiedCount m sourceType source s) ≤
      reachedSlots m targetType sourceType source ref s := le_max_left _ _
  have hcopied := Packing.words_le_iff _ |>.mp hwords
  unfold contents
  by_cases hlocation : source.location = .storage
  · rw [HoldsElements, if_pos hlocation] at hvalues
    rw [contentRead_of_storage hlocation, hvalues i]
    congr 2
    have hreplaced := written_replaced targetType.baseType.packing
      (s := withLength targetType ref length s)
      (contentRead m targetType sourceType source values) contentRead_lt hplaces.fits
      (i := i) (by omega)
    have hslot : i / sourceType.baseType.packing.count <
        sourceType.baseType.packing.words (elementCount m sourceType source s) := by
      rw [copiedCount, if_pos hlocation] at hi
      exact Packing.div_lt_iff _ |>.mpr hi
    refine item_congr ?_
    rcases hplaces.source_apart hlocation with ⟨rfl, -⟩ | hapart
    · rw [directCopy, hlocation] at hdirect
      simp at hdirect
    · obtain ⟨hne, hout⟩ := hapart _ hslot
      change written _ _ _ _ i (elementsStart m sourceType source + _) = _
      by_cases hreached : Outside (dataPosition m targetType ref)
          (reachedSlots m targetType sourceType source ref s)
          (elementsStart m sourceType source + .ofNat 256 (i / sourceType.baseType.packing.count))
      · rw [hreplaced.outside _ hreached, withLength_of_ne fun _ => hne]
        rfl
      · -- The slot is behind the own slots of the target.
        obtain ⟨j, hj, hplace⟩ : ∃ j < reachedSlots m targetType sourceType source ref s,
            elementsStart m sourceType source +
                .ofNat 256 (i / sourceType.baseType.packing.count) =
              dataPosition m targetType ref + .ofNat 256 j := by
          unfold Outside at hreached
          refine ⟨(elementsStart m sourceType source +
            .ofNat 256 (i / sourceType.baseType.packing.count)).toNat -
              (dataPosition m targetType ref).toNat, by omega, ?_⟩
          rw [eq_add_ofNat_iff hplaces.fits (by omega)]
          omega
        have hown : ownSlots m targetType sourceType source ref s ≤ j := by
          by_contra hlt
          rw [hplace] at hout
          exact not_outside (hplaces.fits.mono ownSlots_le) (Nat.lt_of_not_le hlt) hout
        have hslotEq := hreplaced.slot_eq j hj fun k hk hkj => by
          rw [hplaces.item_withLength length (by omega)]
          refine hbehind k hk ?_
          rw [← hkj] at hown
          exact (Nat.mul_le_mul_right _ hown).trans (Nat.div_mul_le_self _ _)
        have hlength := hplaces.area_withLength length hj
        unfold area at hslotEq hlength ⊢
        rw [hplace, hslotEq, hlength]
  · exact contentRead_of_ne hlocation i _

/-- What a copy leaves. The contents are those of the values as long as nothing behind the own slots of
the target changes. -/
theorem copyArrayToStorage_elements (hplaces : CopyPlaces m targetType sourceType source ref s)
    (htarget : targetType.isByteArray = false) (hsource : sourceType.isByteArray = false)
    (hconvertible : sourceType.baseType.isImplicitlyConvertibleTo targetType.baseType)
    (hsame : ∀ f, targetType.baseType = .function f → sourceType.baseType = targetType.baseType)
    (hvalues : HoldsElements m sourceType source s values)
    (hfuel : copiedCount m sourceType source s < fuel) (hcleanup : 32 < fuel) :
    ∃ s' content, copyArrayToStorage m targetType sourceType source ref fuel s = .ok () s' ∧
      CopiedItems targetType.baseType (dataPosition m targetType ref)
        (reachedSlots m targetType sourceType source ref s)
        (ownSlots m targetType sourceType source ref s) (copiedCount m sourceType source s)
        (targetCount targetType ref s) content
        (withLength targetType ref (retrieveLength m sourceType source s) s) s' ∧
      ∀ i < copiedCount m sourceType source s,
        (∀ k < i, ownSlots m targetType sourceType source ref s *
            targetType.baseType.packing.count ≤ k →
          content k = item targetType.baseType.packing (dataPosition m targetType ref) s k) →
        content i = sourceType.baseType.storedContent targetType.baseType (values i) := by
  have htotal : targetType.baseType.packing.words (copiedCount m sourceType source s) ≤
      reachedSlots m targetType sourceType source ref s := le_max_left _ _
  have hold : targetType.baseType.packing.words (targetCount targetType ref s) ≤
      reachedSlots m targetType sourceType source ref s := le_max_right _ _
  rw [copyArrayToStorage_eq_bind hplaces htarget]
  by_cases hzero : retrieveLength m sourceType source s = 0
  · have hcount : elementCount m sourceType source s = 0 := by
      rw [elementCount, hzero]
      rfl
    have hwords : ∀ p : Packing 256, p.words 0 = 0 := fun p =>
      Nat.le_zero.mp (p.words_le_iff.mpr (Nat.zero_le _))
    have hcopied : copiedCount m sourceType source s = 0 := by
      rw [copiedCount, hcount, hwords, Nat.zero_mul, ite_self]
    have hfilled : Filled targetType.baseType.packing (dataPosition m targetType ref)
        (reachedSlots m targetType sourceType source ref s)
        (ownSlots m targetType sourceType source ref s)
        (targetType.baseType.packing.words (copiedCount m sourceType source s))
        (fun i => if i < copiedCount m sourceType source s then 0 else 0)
        (withLength targetType ref (retrieveLength m sourceType source s) s)
        (withLength targetType ref (retrieveLength m sourceType source s) s) := by
      rw [hcopied, hwords]
      exact ⟨fun _ _ => (if_neg (Nat.not_lt_zero _)).symm, fun _ _ _ _ => rfl, fun _ _ => rfl⟩
    have hcleared := hfilled.copiedItems hplaces.fits htotal hold
    have hstart : dataPosition m targetType ref + BitVec.ofNat 256
        (targetType.baseType.packing.words (copiedCount m sourceType source s)) =
          dataPosition m targetType ref := by
      rw [hcopied, hwords]
      exact BitVec.add_zero _
    rw [hstart] at hcleared
    rw [if_pos hzero]
    refine ⟨_, fun _ => 0, rfl, hcleared, fun i hi => ?_⟩
    rw [hcopied] at hi
    exact absurd hi (Nat.not_lt_zero i)
  · rw [if_neg hzero]
    by_cases hdirect : directCopy targetType sourceType source.location = true
    · have hboth := hdirect
      rw [directCopy, copiedType_of_not htarget, copiedType_of_not hsource, Bool.and_eq_true,
        decide_eq_true_eq, decide_eq_true_eq] at hboth
      obtain ⟨hlocation, htype⟩ := hboth
      obtain ⟨c, s₂, hloops, hposition, hfilled⟩ := copyLoops_direct hplaces htarget hsource
        hlocation htype hfuel (fun x hx => withLength_of_ne hx)
      rw [hloops, bind_ok, hposition]
      refine ⟨_, _, rfl, hfilled.copiedItems hplaces.fits htotal hold, fun i hi _ => ?_⟩
      rw [HoldsElements, if_pos hlocation] at hvalues
      rw [hvalues i, htype, storedContent_self]
      exact item_lt _ _ _ _
    · rw [Bool.not_eq_true] at hdirect
      obtain ⟨c, s₂, hloops, hposition, hfilled⟩ := copyLoops_elements hplaces htarget hsource
        hdirect hconvertible hsame hvalues hfuel hcleanup
        (withLength targetType ref (retrieveLength m sourceType source s) s)
      rw [hloops, bind_ok, hposition]
      exact ⟨_, _, rfl, hfilled.copiedItems hplaces.fits htotal hold,
        fun i hi hbehind => contents_eq hplaces hdirect hvalues _ hi hbehind⟩

end ArrayUtils

end Polynomial
