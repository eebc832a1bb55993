import Polc.Codegen.ArrayUtils.ValueCopies
import Polc.Codegen.ArrayUtils.ByteArrays.Copies

/-!
# What a copy to storage is for

A copy is to leave the converted elements of the source and nothing else in the slots of the target,
and to change no other slots. When it does.
-/

namespace Polynomial

open Sof (Word)
open Semantics

namespace ArrayUtils

section

variable (m : Machine) (targetType sourceType : ArrayType) (source : Reference) (ref : Word)
  (s : Storage) (values : ℕ → ℤ)

/-- The value of an element of an array in storage. -/
def storedElement (type : ArrayType) (i : ℕ) : ℤ :=
  if type.isByteArray then
    if (s ref).toNat % 2 = 0 then byteOf (s ref) i else item bytePacking (m.keccak256 ref) s i
  else type.baseType.ofContent (item type.baseType.packing (dataPosition m type ref) s i)

/-- Behind that many elements there is nothing left in the slots of an array. A short byte array has
its elements in its own slot. -/
def ClearedBehind (type : ArrayType) (length slots : ℕ) : Prop :=
  if type.isByteArray then
    (length ≤ 31 → ∀ i < 31, length ≤ i → byteOf (s ref) i = 0) ∧
      ∀ i, i / 32 < slots → length ≤ 31 ∨ length ≤ i → item bytePacking (m.keccak256 ref) s i = 0
  else
    ∀ i, i / type.baseType.packing.count < slots → length ≤ i →
      item type.baseType.packing (dataPosition m type ref) s i = 0

/-- The values of the source, in storage or of bytes also those behind its end. -/
def SourceValues : Prop :=
  if sourceType.isByteArray then ∀ i, values i = (sourceByte m source s i).toNat
  else HoldsElements m sourceType source s values

/-- The slots that belong to the target before or after. A byte array that has become short has none
but its own. -/
def dataSlots : ℕ :=
  if targetType.isByteArray ∧ elementCount m sourceType source s ≤ 31 then
    targetType.baseType.packing.words (targetCount targetType ref s)
  else ownSlots m targetType sourceType source ref s

/-- The target has become a copy of the source. -/
structure CopiesByValue (s' : Storage) : Prop where
  length_eq : targetType.isDynamicallySized = true →
    (retrieveStorageLength targetType ref s').toNat = elementCount m sourceType source s
  element_eq : ∀ i < elementCount m sourceType source s,
    storedElement m ref s' targetType i = sourceType.baseType.extend targetType.baseType (values i)
  cleared : ClearedBehind m ref s' targetType (elementCount m sourceType source s)
    (dataSlots m targetType sourceType source ref s)
  unchanged : ∀ x, (targetType.isDynamicallySized = true → x ≠ ref) →
    Outside (dataPosition m targetType ref) (dataSlots m targetType sourceType source ref s) x →
    s' x = s x

/-- The arrays are where arrays can be. -/
def ValidPlaces : Prop :=
  if targetType.isByteArray then
    HasArea m ref (ownSlots m targetType sourceType source ref s) ∧
      ValidSource m source s ref (ownSlots m targetType sourceType source ref s)
  else CopyPlaces m targetType sourceType source ref s

/-- No negative number is widened within slots, what is copied from behind the end of the source is
zero or there already, and slots that are not written have only their first element set. -/
structure CopiesSafely : Prop where
  signs : ∀ i < elementCount m sourceType source s,
    sourceType.baseType.losesSign targetType.baseType (values i) = false
  padding : ∀ i < copiedCount m sourceType source s, elementCount m sourceType source s ≤ i →
    i / targetType.baseType.packing.count < ownSlots m targetType sourceType source ref s →
    values i = 0
  behind : ∀ i, ownSlots m targetType sourceType source ref s ≤
      i / targetType.baseType.packing.count →
    i / targetType.baseType.packing.count <
      targetType.baseType.packing.words (copiedCount m sourceType source s) →
    item targetType.baseType.packing (dataPosition m targetType ref) s i =
      if i < copiedCount m sourceType source s then
        sourceType.baseType.storedContent targetType.baseType (values i)
      else 0
  leftover : ∀ i, targetType.baseType.packing.words (copiedCount m sourceType source s) ≤
      i / targetType.baseType.packing.count →
    i / targetType.baseType.packing.count <
      targetType.baseType.packing.words (targetCount targetType ref s) →
    i % targetType.baseType.packing.count ≠ 0 →
    item targetType.baseType.packing (dataPosition m targetType ref) s i = 0

/-- The condition for both kinds of arrays. -/
def SafeCopy : Prop :=
  if targetType.isByteArray then ClearedPadding m source s
  else CopiesSafely m targetType sourceType source ref s values

/-- As many iterations of the loops are enough. -/
def copyFuel : ℕ :=
  max (copiedCount m sourceType source s)
    (max (ownSlots m targetType sourceType source ref s) 32)

end

variable {m : Machine} {targetType sourceType : ArrayType} {source : Reference} {ref : Word}
  {s s' : Storage} {values : ℕ → ℤ} {fuel : ℕ}

open ValueType in
/-- When the content that is stored is that of the converted value, and when it is zero. -/
lemma storedContent_value {s t : ValueType} {v : ℤ} (hconverts : Converts s t)
    (hv : s.IsValue v ∨ s = t ∧ ∃ n < 2 ^ (8 * t.storageBytes), v = t.ofContent n) :
    (t.ofContent (s.storedContent t v) = s.extend t v ↔ s.losesSign t v = false) ∧
      (s.storedContent t v = 0 ↔ v = 0) := by
  rcases hv with hv | ⟨rfl, n, hn, rfl⟩
  · rw [toContent_injective (hconverts.isValue_extend hv) (storedContent_lt s t v),
      storedContent_eq_iff hv]
    exact ⟨Iff.rfl, storedContent_eq_zero_iff hconverts hv⟩
  · rw [storedContent_self _ hn, extend_self, losesSign_self]
    refine ⟨iff_of_true rfl rfl, ?_, fun h => ?_⟩
    · rintro rfl
      exact ofContent_zero _
    · rw [← toContent_ofContent _ hn, h, toContent_zero]

lemma HoldsElements.value (hvalues : HoldsElements m sourceType source s values)
    (hconvertible : sourceType.baseType.isImplicitlyConvertibleTo targetType.baseType)
    (hsame : ∀ f, targetType.baseType = .function f → sourceType.baseType = targetType.baseType)
    {i : ℕ} (hi : i < copiedCount m sourceType source s) :
    sourceType.baseType.IsValue (values i) ∨ sourceType.baseType = targetType.baseType ∧
      ∃ n < 2 ^ (8 * targetType.baseType.storageBytes),
        values i = targetType.baseType.ofContent n := by
  unfold HoldsElements at hvalues
  unfold copiedCount at hi
  split_ifs at hvalues hi with hlocation
  · rw [hvalues i]
    by_cases htype : sourceType.baseType = targetType.baseType
    · rw [htype]
      exact .inr ⟨rfl, _, item_lt _ _ _ _, rfl⟩
    · exact .inl (ValueType.isValue_ofContent
        (ValueType.converts_of_isImplicitly sourceType.isValueType hconvertible) htype hsame
        (item_lt _ _ _ _))
  · exact .inl (hvalues i hi).1

/-! ### Arrays of values -/

section

variable {content : ℕ → ℕ}

lemma dataSlots_of_not (htarget : targetType.isByteArray = false) :
    dataSlots m targetType sourceType source ref s =
      ownSlots m targetType sourceType source ref s := by
  rw [dataSlots, if_neg]
  rw [htarget]
  exact fun h => Bool.false_ne_true h.1

lemma CopyPlaces.behind_ne (hplaces : CopyPlaces m targetType sourceType source ref s) {j : ℕ}
    (hj : j < reachedSlots m targetType sourceType source ref s)
    (hown : ownSlots m targetType sourceType source ref s ≤ j) :
    (targetType.isDynamicallySized →
        dataPosition m targetType ref + .ofNat 256 j ≠ ref) ∧
      Outside (dataPosition m targetType ref) (ownSlots m targetType sourceType source ref s)
        (dataPosition m targetType ref + .ofNat 256 j) := by
  refine ⟨fun hdynamic => (hplaces.ref_outside hdynamic).ne hplaces.fits hj, .inr ?_⟩
  rw [toNat_add_ofNat hplaces.fits hj.le]
  omega

lemma CopiesSafely.copiesByValue
    (hsafe : CopiesSafely m targetType sourceType source ref s values)
    (hplaces : CopyPlaces m targetType sourceType source ref s)
    (htarget : targetType.isByteArray = false)
    (hvalue : ∀ i < copiedCount m sourceType source s,
      (targetType.baseType.ofContent
          (sourceType.baseType.storedContent targetType.baseType (values i)) =
        sourceType.baseType.extend targetType.baseType (values i) ↔
          sourceType.baseType.losesSign targetType.baseType (values i) = false) ∧
      (sourceType.baseType.storedContent targetType.baseType (values i) = 0 ↔ values i = 0))
    (hcopied : CopiedItems targetType.baseType (dataPosition m targetType ref)
      (reachedSlots m targetType sourceType source ref s)
      (ownSlots m targetType sourceType source ref s) (copiedCount m sourceType source s)
      (targetCount targetType ref s) content
      (withLength targetType ref (retrieveLength m sourceType source s) s) s')
    (hcontent : ∀ i < copiedCount m sourceType source s,
      content i = sourceType.baseType.storedContent targetType.baseType (values i)) :
    CopiesByValue m targetType sourceType source ref s values s' := by
  have hwords : targetType.baseType.packing.words (copiedCount m sourceType source s) ≤
      reachedSlots m targetType sourceType source ref s := le_max_left _ _
  have hcopiedWords : targetType.baseType.packing.words (elementCount m sourceType source s) ≤
      targetType.baseType.packing.words (copiedCount m sourceType source s) :=
    Packing.words_mono _ elementCount_le
  refine ⟨fun hdynamic => ?_, fun i hi => ?_, ?_, fun x hx hout => ?_⟩
  · have hlength : retrieveStorageLength targetType ref s' = s' ref := by
      unfold retrieveStorageLength
      rw [htarget]
      cases hlength : targetType.length with
      | none => rfl
      | some n =>
        rw [ArrayType.isDynamicallySized, hlength] at hdynamic
        cases hdynamic
    rw [hlength, hcopied.outside _ (hplaces.ref_outside hdynamic), withLength, if_pos hdynamic,
      Function.update_self]
    rfl
  · have hlt := hi.trans_le elementCount_le
    have hbound := hlt.trans_le (Packing.words_le_iff _ |>.mp hwords)
    rw [storedElement, htarget, if_neg Bool.false_ne_true, hcopied.item_eq i hbound, if_pos hlt,
      hcontent i hlt]
    exact (hvalue i hlt).1.mpr (hsafe.signs i hi)
  · rw [ClearedBehind, htarget, if_neg Bool.false_ne_true, dataSlots_of_not htarget]
    intro i hslot hi
    have hbound : i < reachedSlots m targetType sourceType source ref s *
        targetType.baseType.packing.count :=
      Packing.div_lt_iff _ |>.mp (hslot.trans_le ownSlots_le)
    rw [hcopied.item_eq i hbound, hplaces.item_withLength _ hbound]
    split_ifs with hlt hcleared
    · rw [hcontent i hlt]
      exact (hvalue i hlt).2.mpr (hsafe.padding i hlt hi hslot)
    · rfl
    · rw [not_or] at hcleared
      have hold : i / targetType.baseType.packing.count <
          targetType.baseType.packing.words (targetCount targetType ref s) := by
        rcases lt_max_iff.mp hslot with hnew | hold
        · exact absurd (hnew.trans_le hcopiedWords) hcleared.1
        · exact hold
      exact hsafe.leftover i (Nat.le_of_not_lt hcleared.1) hold fun hmod =>
        hcleared.2 ⟨hold, hmod⟩
  · rw [dataSlots_of_not htarget] at hout
    by_cases hreached : Outside (dataPosition m targetType ref)
        (reachedSlots m targetType sourceType source ref s) x
    · rw [hcopied.outside x hreached, withLength_of_ne hx]
    · obtain ⟨j, hj, hown, rfl⟩ : ∃ j < reachedSlots m targetType sourceType source ref s,
          ownSlots m targetType sourceType source ref s ≤ j ∧
            x = dataPosition m targetType ref + .ofNat 256 j := by
        unfold Outside at hreached hout
        refine ⟨x.toNat - (dataPosition m targetType ref).toNat, by omega, by omega, ?_⟩
        rw [eq_add_ofNat_iff hplaces.fits (by omega)]
        omega
      have hslot := hcopied.slot_eq j hj hown ((le_max_right _ _).trans hown) fun k hkj hkwords => by
        rw [hplaces.item_withLength _ (Packing.div_lt_iff _ |>.mp (hkj.trans_lt hj)),
          hsafe.behind k (hown.trans_eq hkj.symm) (hkj.trans_lt hkwords)]
        split_ifs with hk
        · exact hcontent k hk
        · rfl
      exact hslot.trans (hplaces.area_withLength _ hj)

lemma CopiesByValue.copiesSafely
    (h : CopiesByValue m targetType sourceType source ref s values s')
    (hplaces : CopyPlaces m targetType sourceType source ref s)
    (htarget : targetType.isByteArray = false)
    (hvalue : ∀ i < copiedCount m sourceType source s,
      (targetType.baseType.ofContent
          (sourceType.baseType.storedContent targetType.baseType (values i)) =
        sourceType.baseType.extend targetType.baseType (values i) ↔
          sourceType.baseType.losesSign targetType.baseType (values i) = false) ∧
      (sourceType.baseType.storedContent targetType.baseType (values i) = 0 ↔ values i = 0))
    (hcopied : CopiedItems targetType.baseType (dataPosition m targetType ref)
      (reachedSlots m targetType sourceType source ref s)
      (ownSlots m targetType sourceType source ref s) (copiedCount m sourceType source s)
      (targetCount targetType ref s) content
      (withLength targetType ref (retrieveLength m sourceType source s) s) s')
    (hcontent : ∀ i < copiedCount m sourceType source s,
      content i = sourceType.baseType.storedContent targetType.baseType (values i)) :
    CopiesSafely m targetType sourceType source ref s values := by
  have hwords : targetType.baseType.packing.words (copiedCount m sourceType source s) ≤
      reachedSlots m targetType sourceType source ref s := le_max_left _ _
  have hcleared := h.cleared
  have hunchanged := h.unchanged
  rw [ClearedBehind, htarget, if_neg Bool.false_ne_true, dataSlots_of_not htarget] at hcleared
  rw [dataSlots_of_not htarget] at hunchanged
  refine ⟨fun i hi => ?_, fun i hlt hi hslot => ?_, fun i hown hslot => ?_,
    fun i hslot hold hmod => ?_⟩
  · have hlt := hi.trans_le elementCount_le
    have hbound := hlt.trans_le (Packing.words_le_iff _ |>.mp hwords)
    have helement := h.element_eq i hi
    rw [storedElement, htarget, if_neg Bool.false_ne_true, hcopied.item_eq i hbound, if_pos hlt,
      hcontent i hlt] at helement
    exact (hvalue i hlt).1.mp helement
  · have hbound := hlt.trans_le (Packing.words_le_iff _ |>.mp hwords)
    have hzero := hcleared i hslot hi
    rw [hcopied.item_eq i hbound, if_pos hlt, hcontent i hlt] at hzero
    exact (hvalue i hlt).2.mp hzero
  · have hreached := hslot.trans_le hwords
    have hbound := Packing.div_lt_iff _ |>.mp hreached
    obtain ⟨hne, hout⟩ := hplaces.behind_ne hreached hown
    have hitem : item targetType.baseType.packing (dataPosition m targetType ref) s' i =
        item targetType.baseType.packing (dataPosition m targetType ref) s i :=
      item_congr (hunchanged _ hne hout)
    rw [← hitem, hcopied.item_eq i hbound]
    split_ifs with hlt hzero
    · exact hcontent i hlt
    · rfl
    · exact absurd (Or.inl hslot) hzero
  · have hle : copiedCount m sourceType source s ≤ i :=
      (Packing.le_words_mul _ _).trans
        ((Nat.mul_le_mul_right _ hslot).trans (Nat.div_mul_le_self _ _))
    have hown := hold.trans_le (le_max_right
      (targetType.baseType.packing.words (elementCount m sourceType source s)) _)
    have hbound : i < reachedSlots m targetType sourceType source ref s *
        targetType.baseType.packing.count :=
      Packing.div_lt_iff _ |>.mp (hown.trans_le ownSlots_le)
    have hzero := hcleared i hown (elementCount_le.trans hle)
    rw [hcopied.item_eq i hbound, if_neg (Nat.not_lt.mpr hle), if_neg ?_,
      hplaces.item_withLength _ hbound] at hzero
    · exact hzero
    · rintro (hc | hc)
      · exact absurd hc (Nat.not_lt.mpr hslot)
      · exact hmod hc.2

lemma content_eq_of_behind
    (hcontent : ∀ i < copiedCount m sourceType source s,
      (∀ k < i, ownSlots m targetType sourceType source ref s *
          targetType.baseType.packing.count ≤ k →
        content k = item targetType.baseType.packing (dataPosition m targetType ref) s k) →
      content i = sourceType.baseType.storedContent targetType.baseType (values i))
    (hbehind : ∀ k < copiedCount m sourceType source s,
      ownSlots m targetType sourceType source ref s * targetType.baseType.packing.count ≤ k →
      content k = sourceType.baseType.storedContent targetType.baseType (values k) →
      content k = item targetType.baseType.packing (dataPosition m targetType ref) s k) :
    ∀ i < copiedCount m sourceType source s,
      content i = sourceType.baseType.storedContent targetType.baseType (values i) := by
  intro i
  induction i using Nat.strong_induction_on with
  | _ i ih =>
    intro hi
    exact hcontent i hi fun k hk hown => hbehind k (hk.trans hi) hown (ih k hk (hk.trans hi))

end

theorem copyArrayToStorage_elements_iff (hplaces : CopyPlaces m targetType sourceType source ref s)
    (htarget : targetType.isByteArray = false) (hsource : sourceType.isByteArray = false)
    (hconvertible : sourceType.baseType.isImplicitlyConvertibleTo targetType.baseType)
    (hsame : ∀ f, targetType.baseType = .function f → sourceType.baseType = targetType.baseType)
    (hvalues : HoldsElements m sourceType source s values)
    (hfuel : copiedCount m sourceType source s < fuel) (hcleanup : 32 < fuel) :
    (∃ s', copyArrayToStorage m targetType sourceType source ref fuel s = .ok () s' ∧
        CopiesByValue m targetType sourceType source ref s values s') ↔
      CopiesSafely m targetType sourceType source ref s values := by
  obtain ⟨s', content, hcopy, hcopied, hcontent⟩ := copyArrayToStorage_elements hplaces htarget
    hsource hconvertible hsame hvalues hfuel hcleanup
  have hconverts := ValueType.converts_of_isImplicitly sourceType.isValueType hconvertible
  have hvalue := fun i (hi : i < copiedCount m sourceType source s) =>
    storedContent_value hconverts (hvalues.value hconvertible hsame hi)
  have hwords : targetType.baseType.packing.words (copiedCount m sourceType source s) ≤
      reachedSlots m targetType sourceType source ref s := le_max_left _ _
  constructor
  · rintro ⟨s'', hcopy', hcopies⟩
    rw [hcopy] at hcopy'
    cases hcopy'
    refine hcopies.copiesSafely hplaces htarget hvalue hcopied
      (content_eq_of_behind hcontent fun k hk hown _ => ?_)
    have hbound := hk.trans_le (Packing.words_le_iff _ |>.mp hwords)
    have hslot := Packing.div_lt_iff _ |>.mpr hbound
    obtain ⟨hne, hout⟩ := hplaces.behind_ne hslot
      ((Nat.le_div_iff_mul_le (Packing.count_pos _)).mpr hown)
    rw [← dataSlots_of_not htarget] at hout
    have hitem : item targetType.baseType.packing (dataPosition m targetType ref) s' k =
        item targetType.baseType.packing (dataPosition m targetType ref) s k :=
      item_congr (hcopies.unchanged _ hne hout)
    rw [← hitem, hcopied.item_eq k hbound, if_pos hk]
  · intro hsafe
    refine ⟨s', hcopy, hsafe.copiesByValue hplaces htarget hvalue hcopied
      (content_eq_of_behind hcontent fun k hk hown heq => ?_)⟩
    have hslot : k / targetType.baseType.packing.count <
        targetType.baseType.packing.words (copiedCount m sourceType source s) :=
      Packing.div_lt_iff _ |>.mpr (hk.trans_le (Packing.le_words_mul _ _))
    rw [heq, hsafe.behind k ((Nat.le_div_iff_mul_le (Packing.count_pos _)).mpr hown) hslot,
      if_pos hk]

/-! ### Byte arrays -/

lemma eq_bytes {type : ArrayType} (h : type.isByteArray) : type = .bytes := by
  obtain ⟨baseType, length, isByteArray, hvalue, hbytes⟩ := type
  change isByteArray = true at h
  subst h
  obtain ⟨rfl, rfl⟩ := hbytes rfl
  rfl

lemma ownSlots_bytes : ownSlots m .bytes .bytes source ref s =
    max (bytePacking.words (sourceLength m source s))
      (bytePacking.words (retrieveStorageLength .bytes ref s).toNat) := rfl

lemma dataSlots_bytes : dataSlots m .bytes .bytes source ref s =
    if sourceLength m source s ≤ 31 then
      bytePacking.words (retrieveStorageLength .bytes ref s).toNat
    else ownSlots m .bytes .bytes source ref s :=
  if_congr (and_iff_right rfl) rfl rfl

lemma storedElement_of_copied {size : ℕ} (h : Copied m ref size source s s')
    (hlength : sourceLength m source s ≤ 32 * size) {i : ℕ} (hi : i < sourceLength m source s) :
    storedElement m ref s' .bytes i = (sourceByte m source s i).toNat := by
  rw [storedElement, isByteArray_bytes, if_pos rfl, if_congr h.even_iff rfl rfl]
  split_ifs with hshort
  · rw [(h.short hshort).1 i (by omega)]
  · have hword : i / 32 < bytePacking.words (sourceLength m source s) := by
      change i / 32 < (sourceLength m source s + 31) / 32
      omega
    rw [h.data i (by omega), if_pos ⟨by omega, hword⟩]

theorem copyArrayToStorage_bytes_iff
    (harea : HasArea m ref (ownSlots m .bytes .bytes source ref s))
    (hvalid : ValidSource m source s ref (ownSlots m .bytes .bytes source ref s))
    (hvalues : ∀ i, values i = (sourceByte m source s i).toNat)
    (hfuel : ownSlots m .bytes .bytes source ref s < fuel) :
    (∃ s', copyArrayToStorage m .bytes .bytes source ref fuel s = .ok () s' ∧
        CopiesByValue m .bytes .bytes source ref s values s') ↔
      ClearedPadding m source s := by
  have hle : ∀ k, k ≤ 32 * bytePacking.words k := by
    intro k
    change k ≤ 32 * ((k + 31) / 32)
    omega
  have hlength : sourceLength m source s ≤ 32 * ownSlots m .bytes .bytes source ref s :=
    (hle _).trans (Nat.mul_le_mul_left 32 (le_max_left _ _))
  have hold : (retrieveStorageLength .bytes ref s).toNat ≤
      32 * ownSlots m .bytes .bytes source ref s :=
    (hle _).trans (Nat.mul_le_mul_left 32 (le_max_right _ _))
  obtain ⟨s', hcopy, hcopied⟩ := copyArrayToStorage_bytes harea hold hvalid hlength hfuel
  have hdata : ∀ i, i / 32 < bytePacking.words (sourceLength m source s) →
      31 < sourceLength m source s →
      item bytePacking (m.keccak256 ref) s' i = (sourceByte m source s i).toNat := by
    intro i hi hlong
    have hbound : i / 32 < ownSlots m .bytes .bytes source ref s := hi.trans_le (le_max_left _ _)
    rw [hcopied.data i (by omega), if_pos ⟨hlong, hi⟩]
  constructor
  · rintro ⟨s'', hcopy', hcopies⟩
    rw [hcopy] at hcopy'
    cases hcopy'
    obtain ⟨hshortCleared, hcleared⟩ := (if_pos isByteArray_bytes).mp hcopies.cleared
    rw [dataSlots_bytes] at hcleared
    intro i hi hge
    have hzero : ∀ b : Sof.Byte, b.toNat = 0 → b = 0 := fun b hb => BitVec.eq_of_toNat_eq hb
    apply hzero
    split_ifs at hi with hshort
    · rw [← (hcopied.short hshort).1 i hi]
      exact hshortCleared hshort i hi hge
    · have hword : i / 32 < bytePacking.words (sourceLength m source s) := by omega
      rw [← hdata i hword (by omega)]
      refine hcleared i ?_ (.inr hge)
      rw [if_neg hshort]
      exact hword.trans_le (le_max_left _ _)
  · intro hpadding
    refine ⟨s', hcopy, fun _ => hcopied.length_eq, fun i hi => ?_, ?_, fun x hx hout => ?_⟩
    · rw [storedElement_of_copied hcopied hlength hi, hvalues i]
      exact (ValueType.extend_self _ _).symm
    · refine (if_pos isByteArray_bytes).mpr ⟨fun hshort i hi hge => ?_, fun i hslot hge => ?_⟩
      · have hshort : sourceLength m source s ≤ 31 := hshort
        rw [(hcopied.short hshort).1 i hi, hpadding i (by rwa [if_pos hshort]) hge]
        rfl
      · rw [dataSlots_bytes] at hslot
        by_cases hshort : sourceLength m source s ≤ 31
        · rw [if_pos hshort] at hslot
          have hbound : i / 32 < ownSlots m .bytes .bytes source ref s :=
            hslot.trans_le (le_max_right _ _)
          rw [hcopied.data i (by omega), if_neg (fun hc => absurd hc.1 (by omega)), if_pos hslot]
        · rw [if_neg hshort] at hslot
          by_cases hword : i / 32 < bytePacking.words (sourceLength m source s)
          · rw [hdata i hword (by omega), hpadding i (by rw [if_neg hshort]; omega)
              (hge.resolve_left hshort)]
            rfl
          · rw [hcopied.data i (by omega), if_neg (fun hc => hword hc.2), if_pos]
            exact (lt_max_iff.mp hslot).resolve_left hword
    · rw [dataSlots_bytes] at hout
      exact hcopied.unchanged_of_outside harea rfl (hx rfl) hout

/-! ### All arrays -/

/-- When a copy to storage does what it is for. -/
theorem copyArrayToStorage_copies_iff
    (hplaces : ValidPlaces m targetType sourceType source ref s)
    (hconvertible : sourceType.isImplicitlyConvertibleTo targetType = true)
    (hsame : ∀ f, targetType.baseType = .function f → sourceType.baseType = targetType.baseType)
    (hvalues : SourceValues m sourceType source s values)
    (hfuel : copyFuel m targetType sourceType source ref s < fuel) :
    (∃ s', copyArrayToStorage m targetType sourceType source ref fuel s = .ok () s' ∧
        CopiesByValue m targetType sourceType source ref s values s') ↔
      SafeCopy m targetType sourceType source ref s values := by
  simp only [ArrayType.isImplicitlyConvertibleTo, Bool.and_eq_true, decide_eq_true_eq] at hconvertible
  obtain ⟨⟨hkind, hbase⟩, -⟩ := hconvertible
  have hcopied : copiedCount m sourceType source s < fuel := (le_max_left _ _).trans_lt hfuel
  have hown : ownSlots m targetType sourceType source ref s < fuel :=
    ((le_max_left _ _).trans (le_max_right _ _)).trans_lt hfuel
  have hcleanup : 32 < fuel := ((le_max_right _ _).trans (le_max_right _ _)).trans_lt hfuel
  unfold ValidPlaces at hplaces
  unfold SourceValues at hvalues
  unfold SafeCopy
  cases htarget : targetType.isByteArray with
  | true =>
    rw [htarget] at hkind hplaces
    rw [hkind, if_pos rfl] at hvalues
    rw [if_pos rfl] at hplaces ⊢
    obtain rfl := eq_bytes htarget
    obtain rfl := eq_bytes hkind
    exact copyArrayToStorage_bytes_iff hplaces.1 hplaces.2 hvalues hown
  | false =>
    rw [htarget] at hkind hplaces
    rw [hkind, if_neg Bool.false_ne_true] at hvalues
    rw [if_neg Bool.false_ne_true] at hplaces ⊢
    exact copyArrayToStorage_elements_iff hplaces htarget hkind hbase hsame hvalues hcopied
      hcleanup

/-- A static array with one element. -/
def singleton (type : ValueType) (h : type.isValueType = true) : ArrayType :=
  ⟨type, some 1, false, h, nofun⟩

/-- A machine with the hash of the first slot, and only bits that are set in one word of the memory. -/
def allOnesMachine : Machine where
  keccak256 _ := 0x290decd9548b62a8d60345a988386fc84ba6bc95484008f6362f93160ef3e563
  memory a := if 0x80 ≤ a ∧ a < 0xa0 then 0xff else 0
  calldata _ := 0
  hasBitwiseShifting := true
  invalidFunction := 0

lemma copyPlaces_allOnes (t u : ValueType) (ht : t.isValueType) (hu : u.isValueType) :
    CopyPlaces allOnesMachine (.dynamic t ht) (singleton u hu) ⟨.memory, 0x80, 0⟩ 0
      fun _ => 0 := by
  have hcount : elementCount allOnesMachine (singleton u hu) ⟨.memory, 0x80, 0⟩ (fun _ => 0) = 1 :=
    rfl
  have hreached : reachedSlots allOnesMachine (.dynamic t ht) (singleton u hu)
      ⟨.memory, 0x80, 0⟩ 0 (fun _ => 0) = 1 := by
    have hpos := t.packing.count_pos
    change max ((1 + (t.packing.count - 1)) / t.packing.count)
      ((0 + (t.packing.count - 1)) / t.packing.count) = 1
    rw [show 1 + (t.packing.count - 1) = t.packing.count by omega, Nat.div_self hpos,
      Nat.div_eq_of_lt (by omega)]
    rfl
  refine ⟨?_, ?_, ?_, fun _ => ?_, ?_, nofun⟩
  · rw [hcount]
    norm_num
  · change 0 + 31 < 2 ^ 256
    norm_num
  · have hfits : (0x290decd9548b62a8d60345a988386fc84ba6bc95484008f6362f93160ef3e563 : Word).toNat +
        1 < 2 ^ 256 := by decide
    rw [hreached]
    exact hfits
  · have hlt : (0 : Word).toNat <
        (0x290decd9548b62a8d60345a988386fc84ba6bc95484008f6362f93160ef3e563 : Word).toNat := by
      decide
    rw [hreached]
    exact .inl hlt
  · rw [hcount]
    change (0x80 : Word).toNat + 32 * 1 < 2 ^ 256
    decide

lemma load_allOnes : allOnesMachine.load .memory (0x80 + .ofNat 256 (32 * 0)) = .allOnes 256 := by
  decide +kernel

lemma copiesSafely_allOnes (t u : ValueType) (ht : t.isValueType) (hu : u.isValueType)
    {values : ℕ → ℤ} (hsign : u.losesSign t (values 0) = false) :
    CopiesSafely allOnesMachine (.dynamic t ht) (singleton u hu) ⟨.memory, 0x80, 0⟩ 0
      (fun _ => 0) values := by
  have hcount : elementCount allOnesMachine (singleton u hu) ⟨.memory, 0x80, 0⟩ (fun _ => 0) = 1 :=
    rfl
  have hcopied : copiedCount allOnesMachine (singleton u hu) ⟨.memory, 0x80, 0⟩ (fun _ => 0) = 1 :=
    rfl
  refine ⟨fun i hi => ?_, fun i hi hge => ?_, fun i hown hi => ?_, fun _ _ _ _ => Field.get_zero _⟩
  · rw [hcount, Nat.lt_one_iff] at hi
    rw [hi]
    exact hsign
  · rw [hcount] at hge
    rw [hcopied] at hi
    exact absurd hi (Nat.not_lt.mpr hge)
  · rw [hcopied] at hi
    exact absurd hi (Nat.not_lt.mpr ((le_max_left _ _).trans hown))

theorem copyArrayToStorage_copies_iff_allOnes :
    ∃ s', copyArrayToStorage allOnesMachine (.dynamic .uint256 rfl) (singleton .uint256 rfl)
        ⟨.memory, 0x80, 0⟩ 0 33 (fun _ => 0) = .ok () s' ∧
      CopiesByValue allOnesMachine (.dynamic .uint256 rfl) (singleton .uint256 rfl)
        ⟨.memory, 0x80, 0⟩ 0 (fun _ => 0) (fun _ => 2 ^ 256 - 1) s' := by
  refine (copyArrayToStorage_copies_iff (m := allOnesMachine) ?_ rfl ?_ ?_ ?_).mpr ?_
  · exact copyPlaces_allOnes _ _ rfl rfl
  · intro f h
    cases h
  · intro i hi
    obtain rfl : i = 0 := Nat.lt_one_iff.mp hi
    exact ⟨⟨by decide, by decide⟩, load_allOnes.trans (by decide)⟩
  · decide +kernel
  · exact copiesSafely_allOnes _ _ rfl rfl rfl

/-- The type `int8`. -/
def int8 : ValueType := .integer ⟨8, true, valid_eight⟩

/-- The type `int16`. -/
def int16 : ValueType := .integer ⟨16, true, valid_sixteen⟩

/-- A negative number from memory loses its sign in an array of a wider type. -/
theorem copyArrayToStorage_losesSign :
    ¬ ∃ s', copyArrayToStorage allOnesMachine (.dynamic int16 rfl) (singleton int8 rfl)
        ⟨.memory, 0x80, 0⟩ 0 33 (fun _ => 0) = .ok () s' ∧
      CopiesByValue allOnesMachine (.dynamic int16 rfl) (singleton int8 rfl)
        ⟨.memory, 0x80, 0⟩ 0 (fun _ => 0) (fun _ => -1) s' := by
  rw [copyArrayToStorage_elements_iff (copyPlaces_allOnes _ _ rfl rfl) rfl rfl rfl]
  · exact fun h => absurd (h.signs 0 Nat.one_pos) (by decide)
  · intro f h
    cases h
  · intro i hi
    obtain rfl : i = 0 := Nat.lt_one_iff.mp hi
    exact ⟨⟨by decide, by decide⟩, load_allOnes.trans (by decide)⟩
  · decide
  · decide

end ArrayUtils

end Polynomial
