import Polc.Codegen.ArrayUtils.CopyArrayToStorage

/-!
# Arrays of values in storage

How the storage of a dynamic array stands for a list of values, and what the operations on it make of
the list. The elements that share the last slot are zero as long as no operation leaves something
else there.
-/

namespace Polynomial

open List BitVec ValueType Function
open Sof (Word)
open Semantics ArrayUtils

/-- Element `i` of a list, zero beyond its end. -/
def valueAt (xs : List ℤ) (i : ℕ) : ℤ := xs.getD i 0

/-- The slots of an array are apart from its own slot, and there can be as many elements as are in
them. -/
structure HasValueArea (m : Machine) (t : ValueType) (ref : Word) (size : ℕ) : Prop where
  fits : Fits (m.keccak256 ref) size
  outside : Outside (m.keccak256 ref) size ref
  count_lt : size * t.packing.count + 31 < 2 ^ 256

/-- The storage of an array of values with `size` slots for its elements. -/
structure HoldsValues (m : Machine) (t : ValueType) (ref : Word) (size : ℕ) (xs : List ℤ)
    (s : Storage) : Prop where
  length_le : xs.length ≤ size * t.packing.count
  isValue : ∀ v ∈ xs, t.IsValue v
  length_eq : (s ref).toNat = xs.length
  item_eq : ∀ i < size * t.packing.count,
    item t.packing (m.keccak256 ref) s i = t.toContent (valueAt xs i)

section

variable {xs : List ℤ} {i : ℕ}

lemma valueAt_of_length_le (h : xs.length ≤ i) : valueAt xs i = 0 := getD_eq_default _ _ h

lemma valueAt_mem (h : i < xs.length) : valueAt xs i ∈ xs := by
  rw [valueAt, getD_eq_getElem _ _ h]
  exact getElem_mem h

lemma valueAt_set (hi : i < xs.length) (v : ℤ) (j : ℕ) :
    valueAt (xs.set i v) j = if j = i then v else valueAt xs j := by
  unfold valueAt
  rw [getD_eq_getElem?_getD, getD_eq_getElem?_getD, getElem?_set]
  split_ifs with h h' <;> first | omega | rfl

lemma valueAt_append_singleton (xs : List ℤ) (v : ℤ) (j : ℕ) :
    valueAt (xs ++ [v]) j = if j = xs.length then v else valueAt xs j := by
  unfold valueAt
  split_ifs with h
  · rw [h, getD_append_right _ _ _ _ le_rfl, Nat.sub_self]
    rfl
  · rcases Nat.lt_or_gt_of_ne h with hlt | hgt
    · exact getD_append _ _ _ _ hlt
    · rw [getD_eq_default _ _ hgt.le, getD_eq_default _ _ (by simp; omega)]

lemma valueAt_dropLast (xs : List ℤ) (j : ℕ) :
    valueAt xs.dropLast j = if j < xs.length - 1 then valueAt xs j else 0 := by
  unfold valueAt
  rw [getD_eq_getElem?_getD, getD_eq_getElem?_getD, getElem?_dropLast]
  split_ifs <;> rfl

/-- The list of the first values of a sequence. -/
def firstValues (values : ℕ → ℤ) (n : ℕ) : List ℤ := (List.range n).map values

@[simp] lemma length_firstValues (values : ℕ → ℤ) (n : ℕ) : (firstValues values n).length = n := by
  rw [firstValues, length_map, length_range]

lemma valueAt_firstValues (values : ℕ → ℤ) (n j : ℕ) :
    valueAt (firstValues values n) j = if j < n then values j else 0 := by
  split_ifs with h
  · unfold valueAt firstValues
    rw [getD_eq_getElem _ _ (by simpa using h), getElem_map, getElem_range]
  · exact valueAt_of_length_le (by simpa using h)

end

/-! ### Elements -/

variable {m : Machine} {t : ValueType} {ht : t.isValueType = true} {ref : Word} {size : ℕ}
  {xs : List ℤ} {s : Storage} {v : ℤ} {ws : List Word} {i : ℕ}

lemma accessIndex_dynamic (index : Word) :
    accessIndex m (.dynamic t ht) ref index s =
      (slotOf t (m.keccak256 ref) index.toNat, offsetOf t index.toNat) :=
  accessIndex_eq index fun h => Bool.false_ne_true h.1

lemma storeValue_self (hv : t.IsValue v) (hws : t.OnStack v ws) (ht : t.isValueType)
    (position : Word) (i : ℕ) (s : Storage) :
    StorageItem.storeValue m t t ws (slotOf t position i) (offsetOf t i) s =
      .ok () (Function.update s (slotOf t position i)
        ((t.packing.field i).set (s (slotOf t position i)) (t.toContent v))) := by
  have hstored : t.storedContent t v = t.toContent v := by
    rw [ValueType.storedContent, losesSign_self, if_neg Bool.false_ne_true,
      extend_self]
  rw [← hstored]
  exact StorageItem.storeValue_eq (implicit_self ht) ht
    (fun _ _ => rfl) hv hws (.inl rfl) (toNat_offsetOf t i)

lemma HoldsValues.set (harea : HasValueArea m t ref size) (h : HoldsValues m t ref size xs s)
    (hi : i < xs.length) (hv : t.IsValue v) :
    HoldsValues m t ref size (xs.set i v) (Function.update s (slotOf t (m.keccak256 ref) i)
        ((t.packing.field i).set (s (slotOf t (m.keccak256 ref) i)) (t.toContent v))) ∧
      Unchanged m ref size s (Function.update s (slotOf t (m.keccak256 ref) i)
        ((t.packing.field i).set (s (slotOf t (m.keccak256 ref) i)) (t.toContent v))) := by
  have hbound := hi.trans_le h.length_le
  have hslot := t.packing.div_lt_iff.mpr hbound
  refine ⟨⟨?_, fun w hw => ?_, ?_, fun j hj => ?_⟩, fun x _ hx =>
    update_of_ne (hx.ne harea.fits hslot).symm _ _⟩
  · rw [length_set]
    exact h.length_le
  · rcases mem_or_eq_of_mem_set hw with hmem | rfl
    · exact h.isValue w hmem
    · exact hv
  · have hne : slotOf t (m.keccak256 ref) i ≠ ref := harea.outside.ne harea.fits hslot
    rw [update_of_ne hne.symm, length_set, h.length_eq]
  · rw [valueAt_set hi]
    refine (item_set harea.fits hj hbound (t.toContent_lt v)).trans ?_
    rw [h.item_eq j hj]
    split_ifs <;> rfl

lemma HoldsValues.update_length {ys : List ℤ} {y : Word} (harea : HasValueArea m t ref size)
    (hlength : ys.length ≤ size * t.packing.count) (hvalues : ∀ v ∈ ys, t.IsValue v)
    (hitem : ∀ i < size * t.packing.count,
      item t.packing (m.keccak256 ref) s i = t.toContent (valueAt ys i))
    (hy : y.toNat = ys.length) : HoldsValues m t ref size ys (Function.update s ref y) where
  length_le := hlength
  isValue := hvalues
  length_eq := by rw [update_self, hy]
  item_eq i hi := by rw [item_update_of_outside harea.fits harea.outside hi, hitem i hi]

lemma toNat_length (h : HoldsValues m t ref size xs s) :
    (retrieveStorageLength (.dynamic t ht) ref s).toNat = xs.length := h.length_eq

/-- Writing an element in range. -/
theorem setElement_values (harea : HasValueArea m t ref size) (h : HoldsValues m t ref size xs s)
    (hv : t.IsValue v) (hws : t.OnStack v ws) {index : Word} (hi : index.toNat < xs.length) :
    ∃ s', setElement m (.dynamic t ht) ref index ws s = .ok () s' ∧
      HoldsValues m t ref size (xs.set index.toNat v) s' ∧ Unchanged m ref size s s' := by
  obtain ⟨hset, hunchanged⟩ := h.set harea hi hv
  refine ⟨_, ?_, hset, hunchanged⟩
  unfold setElement checkedAccessIndex
  rw [if_pos (lt_def.mpr (hi.trans_eq (toNat_length h).symm)), Result.bind_ok,
    accessIndex_dynamic]
  exact storeValue_self hv hws ht _ _ _

theorem setElement_values_invalid (h : HoldsValues m t ref size xs s) {index : Word}
    (hi : xs.length ≤ index.toNat) :
    setElement m (.dynamic t ht) ref index ws s = .halt .invalid s := by
  unfold setElement checkedAccessIndex
  rw [if_neg (fun hlt => absurd (lt_def.mp hlt) (by rw [toNat_length h]; omega))]
  rfl

/-- Reading an element in range. -/
theorem getElement_values (harea : HasValueArea m t ref size) (h : HoldsValues m t ref size xs s)
    (hi : i < xs.length) :
    ∃ ws, getElement m (.dynamic t ht) ref (.ofNat 256 i) s = .ok ws s ∧
      t.Retrieved m (valueAt xs i) ws := by
  have hbound := hi.trans_le h.length_le
  have hcount := harea.count_lt
  have hindex : (BitVec.ofNat 256 i).toNat = i := by
    rw [toNat_ofNat, Nat.mod_eq_of_lt (by omega)]
  obtain ⟨ws, hretrieve, hretrieved⟩ : ∃ ws,
      StorageItem.retrieveValue m t (slotOf t (m.keccak256 ref) i) (offsetOf t i) s = .ok ws s ∧
      t.Retrieved m (t.ofContent ((t.packing.field i).get (s (slotOf t (m.keccak256 ref) i)))) ws :=
    StorageItem.retrieveValue_eq ht (toNat_offsetOf t i)
  have hvalue : t.ofContent ((t.packing.field i).get (s (slotOf t (m.keccak256 ref) i))) =
      valueAt xs i := by
    rw [← ofContent_toContent (h.isValue _ (valueAt_mem hi)), ← h.item_eq i hbound]
    rfl
  rw [hvalue] at hretrieved
  refine ⟨ws, ?_, hretrieved⟩
  unfold getElement checkedAccessIndex
  rw [if_pos (lt_def.mpr (by rw [hindex, toNat_length h]; exact hi)), Result.bind_ok,
    accessIndex_dynamic, hindex]
  exact hretrieve

/-! ### Pushing and popping -/

theorem push_values (harea : HasValueArea m t ref size) (h : HoldsValues m t ref size xs s)
    (hv : t.IsValue v) (hws : t.OnStack v ws) (hlength : xs.length < size * t.packing.count) :
    ∃ s', push m (.dynamic t ht) ref ws s = .ok () s' ∧
      HoldsValues m t ref size (xs ++ [v]) s' ∧ Unchanged m ref size s s' := by
  have hcount := harea.count_lt
  have hlen : (s ref).toNat = xs.length := h.length_eq
  have hnew : (s ref + 1).toNat = xs.length + 1 := by
    rw [toNat_add, hlen]
    exact Nat.mod_eq_of_lt (by change xs.length + 1 < _; omega)
  have hindex : (s ref + 1 - 1).toNat = xs.length := by
    rw [BitVec.add_sub_cancel, hlen]
  have hzeros : HoldsValues m t ref size (xs ++ [0]) (Function.update s ref (s ref + 1)) := by
    refine HoldsValues.update_length harea ?_ (fun w hw => ?_) (fun i hi => ?_) ?_
    · rw [length_append, length_singleton]
      exact hlength
    · rcases mem_append.mp hw with hmem | hmem
      · exact h.isValue w hmem
      · rw [mem_singleton.mp hmem]
        exact isValue_zero ht
    · rw [h.item_eq i hi, valueAt_append_singleton]
      split_ifs with hlast
      · rw [hlast, valueAt_of_length_le le_rfl]
      · rfl
    · rw [hnew, length_append, length_singleton]
  obtain ⟨hset, hunchanged⟩ := hzeros.set harea (i := xs.length) (by simp) hv
  rw [set_append_right _ _ le_rfl, Nat.sub_self] at hset
  refine ⟨_, ?_, hset, (Unchanged.update_ref _).trans hunchanged⟩
  change StorageItem.storeValue m t t ws
    (accessIndex m (.dynamic t ht) ref (s ref + 1 - 1) (Function.update s ref (s ref + 1))).1
    (accessIndex m (.dynamic t ht) ref (s ref + 1 - 1) (Function.update s ref (s ref + 1))).2 _ = _
  rw [accessIndex_dynamic, hindex]
  exact storeValue_self hv hws ht _ _ _

theorem pop_values (harea : HasValueArea m t ref size) (h : HoldsValues m t ref size xs s)
    (hpos : 0 < xs.length) :
    ∃ s', popStorageArrayElement m (.dynamic t ht) ref s = .ok () s' ∧
      HoldsValues m t ref size xs.dropLast s' ∧ Unchanged m ref size s s' := by
  have hcount := harea.count_lt
  have hle := h.length_le
  have hlen : (s ref).toNat = xs.length := h.length_eq
  have hne : s ref ≠ 0 := by
    intro hzero
    rw [hzero] at hlen
    change 0 = xs.length at hlen
    omega
  have hindex : (s ref - 1).toNat = xs.length - 1 := by
    have href : s ref = .ofNat 256 xs.length := by
      rw [← hlen, ofNat_toNat, setWidth_eq]
    rw [href]
    exact toNat_sub_ofNat (show xs.length < 2 ^ 256 by omega) hpos
  obtain ⟨hset, hunchanged⟩ := h.set harea (show xs.length - 1 < xs.length by omega)
    (isValue_zero ht)
  rw [toContent_zero] at hset hunchanged
  have hitem : ∀ i < size * t.packing.count,
      item t.packing (m.keccak256 ref) (Function.update s (slotOf t (m.keccak256 ref) (xs.length - 1))
          ((t.packing.field (xs.length - 1)).set
            (s (slotOf t (m.keccak256 ref) (xs.length - 1))) 0)) i =
        t.toContent (valueAt xs.dropLast i) := by
    intro i hi
    rw [hset.item_eq i hi, valueAt_set (by omega), valueAt_dropLast]
    split_ifs with hlast hlt
    · omega
    · rfl
    · rfl
    · rw [valueAt_of_length_le (by omega)]
  have hpopped := HoldsValues.update_length harea (by rw [length_dropLast]; omega)
    (fun w hw => h.isValue w (mem_of_mem_dropLast hw)) hitem
    (hindex.trans length_dropLast.symm)
  refine ⟨_, ?_, hpopped, hunchanged.trans (.update_ref _)⟩
  unfold popStorageArrayElement
  change (if s ref = 0 then _ else _) = _
  rw [if_neg hne]
  change Result.ok () (Function.update (StorageItem.setToZero t
    (accessIndex m (.dynamic t ht) ref (s ref - 1) s).1
    (accessIndex m (.dynamic t ht) ref (s ref - 1) s).2 s) ref (s ref - 1)) = _
  rw [accessIndex_dynamic, hindex, StorageItem.setToZero_eq _ (toNat_offsetOf t _)]

theorem pop_values_invalid (h : HoldsValues m t ref size [] s) :
    popStorageArrayElement m (.dynamic t ht) ref s = .halt .invalid s := by
  have hzero : s ref = 0 := eq_of_toNat_eq h.length_eq
  unfold popStorageArrayElement
  change (if s ref = 0 then _ else _) = _
  rw [if_pos hzero]

/-! ### Changes of the length -/

lemma clearStorageLoop_clearedType (endPosition position : Word) (s : Storage) :
    clearStorageLoop (ArrayType.dynamic t ht).clearedType endPosition position s =
      clearStorageLoop .uint256 endPosition position s := by
  funext x
  have hle := t.storageBytes_bounds
  unfold ArrayType.clearedType
  change clearStorageLoop (if t.storageBytes < 32 then .uint256 else t) _ _ _ _ = _
  split_ifs with hbytes
  · rfl
  · rw [clearStorageLoop_apply, clearStorageLoop_apply,
      set_field_of_storageBytes (by omega), set_field_of_storageBytes rfl]

/-- The values of the list that share a slot with the new end are zero from there on. -/
def ClearedRest (t : ValueType) (xs : List ℤ) (n : ℕ) : Prop :=
  ∀ i < t.packing.words n * t.packing.count, n ≤ i → valueAt xs i = 0

lemma HoldsValues.words_le (h : HoldsValues m t ref size xs s) :
    t.packing.words xs.length ≤ size := t.packing.words_le_iff.mpr h.length_le

lemma convertLengthToSize_dynamic (harea : HasValueArea m t ref size) {length : Word}
    (h : length.toNat ≤ size * t.packing.count) :
    convertLengthToSize (.dynamic t ht) length = .ofNat 256 (t.packing.words length.toNat) :=
  convertLengthToSize_eq (by
    have := harea.count_lt
    omega)

lemma resizeDynamicArray_dynamic (n : Word) :
    resizeDynamicArray m (.dynamic t ht) ref n s =
      if n < s ref then
        clearStorageLoop (ArrayType.dynamic t ht).clearedType
          (m.keccak256 ref + convertLengthToSize (.dynamic t ht) (s ref))
          (m.keccak256 ref + convertLengthToSize (.dynamic t ht) n) (Function.update s ref n)
      else Function.update s ref n := rfl

/-- The assignment of a length. -/
theorem resizeDynamicArray_values (harea : HasValueArea m t ref size)
    (h : HoldsValues m t ref size xs s) {n : Word} (hle : n.toNat ≤ size * t.packing.count)
    (hrest : ClearedRest t xs n.toNat) :
    HoldsValues m t ref size (firstValues (valueAt xs) n.toNat)
        (resizeDynamicArray m (.dynamic t ht) ref n s) ∧
      Unchanged m ref size s (resizeDynamicArray m (.dynamic t ht) ref n s) := by
  have hold : (s ref).toNat = xs.length := h.length_eq
  have hwords : t.packing.words n.toNat ≤ size := t.packing.words_le_iff.mpr hle
  have hisValue : ∀ v ∈ firstValues (valueAt xs) n.toNat, t.IsValue v := by
    intro v hv
    obtain ⟨i, -, rfl⟩ := mem_map.mp hv
    rcases Nat.lt_or_ge i xs.length with hlt | hge
    · exact h.isValue _ (valueAt_mem hlt)
    · rw [valueAt_of_length_le hge]
      exact isValue_zero ht
  rw [resizeDynamicArray_dynamic]
  by_cases hshrink : n < s ref
  · have hlt : n.toNat < xs.length := hold ▸ lt_def.mp hshrink
    rw [if_pos hshrink, convertLengthToSize_dynamic harea hle,
      convertLengthToSize_dynamic harea (hold.trans_le h.length_le), hold,
      clearStorageLoop_clearedType,
      clearStorageLoop_of_area harea.fits harea.outside .uint256 hwords h.words_le n]
    refine ⟨HoldsValues.update_length harea (by rwa [length_firstValues]) hisValue
      (fun i hi => ?_) (length_firstValues _ _).symm, Unchanged.trans (fun x _ hx =>
        clearStorageLoop_of_outside _ harea.fits hwords h.words_le hx) (.update_ref _)⟩
    rw [item_clearStorageLoop _ harea.fits hwords h.words_le hi, h.item_eq i hi,
      valueAt_firstValues]
    by_cases hin : i < n.toNat
    · have hslot : i / t.packing.count < t.packing.words n.toNat :=
        t.packing.div_lt_iff.mpr (hin.trans_le (t.packing.le_words_mul _))
      rw [if_neg (by omega), if_pos hin]
    · rw [if_neg hin, toContent_zero]
      split_ifs with hcleared
      · rfl
      · have hzero : valueAt xs i = 0 := by
          by_cases hslot : i / t.packing.count < t.packing.words n.toNat
          · exact hrest i (t.packing.div_lt_iff.mp hslot) (Nat.le_of_not_lt hin)
          · refine valueAt_of_length_le ?_
            have hge : t.packing.words xs.length ≤ i / t.packing.count := by omega
            exact (t.packing.le_words_mul _).trans
              ((Nat.mul_le_mul_right _ hge).trans (Nat.div_mul_le_self _ _))
        rw [hzero, toContent_zero]
  · have hge : xs.length ≤ n.toNat := hold ▸ Nat.le_of_not_lt (mt lt_def.mpr hshrink)
    rw [if_neg hshrink]
    refine ⟨HoldsValues.update_length harea (by rwa [length_firstValues]) hisValue
      (fun i hi => ?_) (length_firstValues _ _).symm, .update_ref _⟩
    rw [h.item_eq i hi, valueAt_firstValues]
    split_ifs with hin
    · rfl
    · rw [valueAt_of_length_le (by omega)]

theorem clearDynamicArray_values (harea : HasValueArea m t ref size)
    (h : HoldsValues m t ref size xs s) :
    HoldsValues m t ref size [] (clearDynamicArray m (.dynamic t ht) ref s) ∧
      Unchanged m ref size s (clearDynamicArray m (.dynamic t ht) ref s) := by
  have hold : (s ref).toNat = xs.length := h.length_eq
  have hzero : m.keccak256 ref + BitVec.ofNat 256 0 = m.keccak256 ref := BitVec.add_zero _
  have hupdate := clearStorageLoop_of_area (s := s) harea.fits harea.outside .uint256
    (Nat.zero_le size) h.words_le 0
  have hcleared : ∀ i < size * t.packing.count, _ := fun i hi =>
    item_clearStorageLoop (s := s) t.packing harea.fits (Nat.zero_le size) h.words_le (i := i) hi
  rw [hzero] at hupdate hcleared
  change HoldsValues m t ref size [] (clearStorageLoop (ArrayType.dynamic t ht).clearedType
      (m.keccak256 ref + convertLengthToSize (.dynamic t ht) (s ref)) (m.keccak256 ref)
      (Function.update s ref 0)) ∧
    Unchanged m ref size s (clearStorageLoop (ArrayType.dynamic t ht).clearedType
      (m.keccak256 ref + convertLengthToSize (.dynamic t ht) (s ref)) (m.keccak256 ref)
      (Function.update s ref 0))
  rw [convertLengthToSize_dynamic harea (hold.trans_le h.length_le), hold,
    clearStorageLoop_clearedType, hupdate]
  refine ⟨HoldsValues.update_length harea (Nat.zero_le _) nofun (fun i hi => ?_) rfl,
    Unchanged.trans (fun x _ hx => ?_) (.update_ref _)⟩
  · have hnil : valueAt [] i = 0 := rfl
    rw [hcleared i hi, h.item_eq i hi, hnil, toContent_zero]
    split_ifs with hslot
    · rfl
    · rw [valueAt_of_length_le, toContent_zero]
      have hge : t.packing.words xs.length ≤ i / t.packing.count :=
        Nat.le_of_not_lt fun hlt => hslot ⟨Nat.zero_le _, hlt⟩
      exact (t.packing.le_words_mul _).trans
        ((Nat.mul_le_mul_right _ hge).trans (Nat.div_mul_le_self _ _))
  · have hout := clearStorageLoop_of_outside (s := s) .uint256 harea.fits (Nat.zero_le size)
      h.words_le hx
    rwa [hzero] at hout

end Polynomial
