import Polc.Codegen.ArrayUtils.Copying

/-!
# Byte arrays in storage

How the storage of a byte array stands for a list of bytes, and what the operations on it make of
the list. The bytes of a slot beyond the end of the array are zero as long as no operation puts
something else there.
-/

namespace Polynomial

open List BitVec Function
open Sof (Word Byte)
open Semantics ArrayUtils

/-- `bytes` or `string`. -/
def ArrayType.bytes : ArrayType := ⟨.byte, none, true, rfl, fun _ => ⟨rfl, rfl⟩⟩

/-- The slots of an array are apart from its own slot, and its length can be stored. -/
structure HasArea (m : Machine) (ref : Word) (size : ℕ) : Prop where
  fits : Fits (m.keccak256 ref) size
  outside : Outside (m.keccak256 ref) size ref
  length_lt : 64 * size < 2 ^ 256

lemma isByteArray_bytes : ArrayType.bytes.isByteArray := rfl

/-- Byte `i` of a list, zero beyond its end. -/
def byteAt (xs : List Byte) (i : ℕ) : ℕ := (xs.getD i 0).toNat

/-- The storage of a byte array with `size` slots for its data. -/
structure HoldsBytes (m : Machine) (ref : Word) (size : ℕ) (xs : List Byte) (s : Storage) :
    Prop where
  length_le : xs.length ≤ 32 * size
  short : xs.length ≤ 31 →
    (∀ i < 31, byteOf (s ref) i = byteAt xs i) ∧ byteOf (s ref) 31 = 2 * xs.length
  long : 31 < xs.length → (s ref).toNat = 2 * xs.length + 1
  data : ∀ i < 32 * size,
    item bytePacking (m.keccak256 ref) s i = if xs.length ≤ 31 then 0 else byteAt xs i

/-- Nothing outside the array is different. -/
def Unchanged (m : Machine) (ref : Word) (size : ℕ) (s s' : Storage) : Prop :=
  ∀ x, x ≠ ref → Outside (m.keccak256 ref) size x → s' x = s x

variable {m : Machine} {ref x : Word} {size : ℕ} {xs : List Byte} {s s' : Storage}

lemma and_one_eq_zero_iff (x : Word) : x &&& 1 = 0 ↔ x.toNat % 2 = 0 := by
  rw [← toNat_inj, toNat_and]
  exact Iff.of_eq (congrArg (· = 0) (Nat.and_two_pow_sub_one_eq_mod x.toNat 1))

lemma toNat_byteArrayLength (x : Word) :
    (byteArrayLength x).toNat = if x.toNat % 2 = 0 then x.toNat % 256 / 2 else x.toNat / 2 := by
  unfold byteArrayLength
  rw [toNat_udiv]
  change _ / 2 = _
  split_ifs with h
  · rw [decide_eq_true ((and_one_eq_zero_iff x).mpr h)]
    have hmask : (0x100 * Sof.Word.ofBool true - 1 : Word) = CompilerUtils.mask 8 := by decide
    rw [hmask, BitVec.and_comm, toNat_and_mask (by norm_num)]
    rfl
  · rw [decide_eq_false (mt (and_one_eq_zero_iff x).mp h)]
    have hmask : (0x100 * Sof.Word.ofBool false - 1 : Word) = .allOnes 256 := by decide
    rw [hmask, and_allOnes]

lemma HoldsBytes.length_eq (h : HoldsBytes m ref size xs s) :
    (retrieveStorageLength .bytes ref s).toNat = xs.length := by
  change (byteArrayLength (s ref)).toNat = _
  rw [toNat_byteArrayLength]
  by_cases hlong : 31 < xs.length
  · have := h.long hlong
    rw [if_neg (by omega)]
    omega
  · have hlast := (h.short (by omega)).2
    rw [byteOf_last] at hlast
    rw [if_pos (by omega)]
    omega

lemma HoldsBytes.even_iff (h : HoldsBytes m ref size xs s) :
    (s ref).toNat % 2 = 0 ↔ xs.length ≤ 31 := by
  by_cases hlong : 31 < xs.length
  · have := h.long hlong
    omega
  · have hlast := (h.short (by omega)).2
    rw [byteOf_last] at hlast
    omega

lemma toNat_convertLengthToSize_bytes {length : Word} (h : length.toNat ≤ 32 * size)
    (hsize : 64 * size < 2 ^ 256) :
    (convertLengthToSize .bytes length).toNat = bytePacking.words length.toNat := by
  change ((31 + length) / 32 : Word).toNat = (length.toNat + 31) / 32
  rw [toNat_udiv, toNat_add]
  change (31 + length.toNat) % 2 ^ 256 / 32 = _
  rw [Nat.mod_eq_of_lt (by omega), Nat.add_comm]

lemma accessIndex_bytes_short (index : Word) (h : (s ref).toNat % 2 = 0) :
    accessIndex m .bytes ref index s = (ref, index) := by
  unfold accessIndex
  rw [if_pos ⟨rfl, (BitVec.and_comm _ _).trans ((and_one_eq_zero_iff _).mpr h)⟩]

lemma accessIndex_bytes_long (index : Word) (h : (s ref).toNat % 2 ≠ 0) :
    accessIndex m .bytes ref index s =
      (m.keccak256 ref + .ofNat 256 (index.toNat / 32), .ofNat 256 (index.toNat % 32)) := by
  rw [accessIndex_eq index fun hc =>
    h ((and_one_eq_zero_iff _).mp ((BitVec.and_comm _ _).trans hc.2))]
  have hoffset : offsetOf ArrayType.bytes.baseType index.toNat = .ofNat 256 (index.toNat % 32) :=
    congrArg _ (Nat.one_mul _)
  rw [hoffset]
  rfl

lemma item_clearStorageLoop (p : Packing 256) {position : Word} {a b i : ℕ}
    (hfits : Fits position size) (ha : a ≤ size) (hb : b ≤ size) (hi : i < size * p.count) :
    item p position (clearStorageLoop .uint256 (position + .ofNat 256 b) (position + .ofNat 256 a) s)
      i = if a ≤ i / p.count ∧ i / p.count < b then 0 else item p position s i := by
  have hdiv := p.div_lt_iff.mpr hi
  unfold item Packing.read area
  rw [clearStorageLoop_apply, toNat_add_ofNat hfits hdiv.le, toNat_add_ofNat hfits ha,
    toNat_add_ofNat hfits hb]
  by_cases h : a ≤ i / p.count ∧ i / p.count < b
  · rw [if_pos (by omega), if_pos h, ValueType.set_field_of_storageBytes rfl]
    exact Field.get_zero _
  · rw [if_neg (by omega), if_neg h]

lemma clearStorageLoop_of_outside (type : ValueType) {position : Word} {a b : ℕ}
    (hfits : Fits position size) (ha : a ≤ size) (hb : b ≤ size) (hx : Outside position size x) :
    clearStorageLoop type (position + .ofNat 256 b) (position + .ofNat 256 a) s x = s x := by
  rw [clearStorageLoop_apply, toNat_add_ofNat hfits ha, toNat_add_ofNat hfits hb, if_neg]
  unfold Outside at hx
  omega

lemma byteAt_of_length_le {i : ℕ} (h : xs.length ≤ i) : byteAt xs i = 0 := by
  rw [byteAt, getD_eq_default _ _ h]
  rfl

lemma byteAt_lt (xs : List Byte) (i : ℕ) : byteAt xs i < 2 ^ 8 := (xs.getD i 0).isLt

lemma byteAt_append_zero (xs : List Byte) (i : ℕ) : byteAt (xs ++ [0]) i = byteAt xs i := by
  by_cases h : i < xs.length
  · rw [byteAt, getD_append _ _ _ _ h]
    rfl
  · rw [byteAt_of_length_le (Nat.le_of_not_lt h), byteAt,
      getD_append_right _ _ _ _ (Nat.le_of_not_lt h)]
    cases i - xs.length <;> rfl

lemma byteAt_set {i : ℕ} (hi : i < xs.length) (b : Byte) (j : ℕ) :
    byteAt (xs.set i b) j = if j = i then b.toNat else byteAt xs j := by
  unfold byteAt
  rw [getD_eq_getElem?_getD, getD_eq_getElem?_getD, getElem?_set]
  split_ifs with h h' <;> first | omega | rfl

lemma byteAt_dropLast (xs : List Byte) (i : ℕ) :
    byteAt xs.dropLast i = if i < xs.length - 1 then byteAt xs i else 0 := by
  unfold byteAt
  rw [getD_eq_getElem?_getD, getD_eq_getElem?_getD, getElem?_dropLast]
  split_ifs
  · rfl
  · rfl

/-- The list cut or filled with zeros. -/
def resized (xs : List Byte) (n : ℕ) : List Byte := (List.range n).map fun i => xs.getD i 0

@[simp] lemma length_resized (xs : List Byte) (n : ℕ) : (resized xs n).length = n := by
  rw [resized, length_map, length_range]

lemma byteAt_resized (xs : List Byte) (n i : ℕ) :
    byteAt (resized xs n) i = if i < n then byteAt xs i else 0 := by
  split_ifs with h
  · unfold byteAt resized
    rw [getD_eq_getElem _ _ (by simpa using h), getElem_map, getElem_range]
  · exact byteAt_of_length_le (by simpa using h)

/-! ### One byte -/

lemma byteOf_set {i j v : ℕ} (y : Word) (hi : i < 32) (hj : j < 32) (hv : v < 2 ^ 8) :
    byteOf ((bytePacking.field i).set y v) j = if j = i then v else byteOf y j := by
  unfold byteOf
  split_ifs with h
  · subst h
    exact Field.get_set _ _ (bytePacking.offset_field_le _) hv
  · refine Field.get_set_of_apart _ _ _ (bytePacking.offset_field_le _)
      (bytePacking.field_apart ?_) hv
    change j % 32 ≠ i % 32
    omega

/-- The storage after a byte of the array was written. -/
def setByte (m : Machine) (ref : Word) (i v : ℕ) (s : Storage) : Storage :=
  if (s ref).toNat % 2 = 0 then Function.update s ref ((bytePacking.field i).set (s ref) v)
  else
    Function.update s (m.keccak256 ref + .ofNat 256 (i / 32))
      ((bytePacking.field i).set (s (m.keccak256 ref + .ofNat 256 (i / 32))) v)

lemma setByte_holds (harea : HasArea m ref size) (h : HoldsBytes m ref size xs s) {i : ℕ}
    (hi : i < xs.length) (b : Byte) :
    HoldsBytes m ref size (xs.set i b) (setByte m ref i b.toNat s) ∧
      Unchanged m ref size s (setByte m ref i b.toNat s) := by
  have hlength : (xs.set i b).length = xs.length := length_set
  have hle := h.length_le
  unfold setByte
  split_ifs with heven
  · have hshort := h.even_iff.mp heven
    obtain ⟨hbytes, hlast⟩ := h.short hshort
    refine ⟨⟨hlength ▸ hle, fun _ => ⟨fun j hj => ?_, ?_⟩, fun hlong => by omega, fun j hj => ?_⟩,
      fun x hx _ => update_of_ne hx _ _⟩
    · rw [update_self, byteOf_set _ (by omega) (by omega) b.isLt, byteAt_set hi,
        hbytes j hj]
    · rw [update_self, byteOf_set _ (by omega) (by omega) b.isLt, if_neg (by omega), hlast,
        hlength]
    · rw [item_update_of_outside harea.fits harea.outside (by rwa [Nat.mul_comm] at hj), h.data j hj,
        if_pos hshort, hlength, if_pos hshort]
  · have hlong : 31 < xs.length := by
      have := h.even_iff
      omega
    have hslot : i / 32 < size := by omega
    have hset : ∀ j < 32 * size, _ := fun j hj =>
      item_set harea.fits (p := bytePacking) (s := s) (i := j) (k := i) (v := b.toNat)
        (by rwa [Nat.mul_comm] at hj) (by change i < size * 32; omega) b.isLt
    refine ⟨⟨hlength ▸ hle, fun hshort => by omega, fun _ => ?_, fun j hj => ?_⟩,
      fun x _ hx => update_of_ne (hx.ne harea.fits hslot).symm _ _⟩
    · rw [update_of_ne (harea.outside.ne harea.fits hslot).symm, h.long hlong, hlength]
    · rw [hlength, if_neg (by omega), byteAt_set hi]
      have := h.data j hj
      rw [if_neg (by omega)] at this
      rw [← this]
      exact hset j hj

/-- The byte of a word that is stored. -/
def firstByte (w : Word) : Byte := .ofNat 8 (w.toNat / 2 ^ 248)

lemma toNat_firstByte (w : Word) : (firstByte w).toNat = w.toNat / 2 ^ 248 := by
  have := w.isLt
  rw [firstByte, toNat_ofNat, Nat.mod_eq_of_lt (by omega)]

lemma storeValue_accessIndex (m : Machine) (ref : Word) (s : Storage) (index w : Word)
    (hindex : (s ref).toNat % 2 = 0 → index.toNat < 32) :
    StorageByteArrayElement.storeValue w (accessIndex m .bytes ref index s).1
      (accessIndex m .bytes ref index s).2 s = setByte m ref index.toNat (firstByte w).toNat s := by
  unfold setByte
  rw [toNat_firstByte]
  split_ifs with heven
  · rw [accessIndex_bytes_short index heven]
    exact StorageByteArrayElement.storeValue_eq (Nat.mod_eq_of_lt (hindex heven)).symm _ _ _
  · rw [accessIndex_bytes_long index heven]
    refine StorageByteArrayElement.storeValue_eq ?_ _ _ _
    rw [toNat_ofNat, Nat.mod_eq_of_lt (by omega)]

lemma lt_length_iff (h : HoldsBytes m ref size xs s) (index : Word) :
    index < retrieveStorageLength .bytes ref s ↔ index.toNat < xs.length := by
  rw [lt_def, h.length_eq]

/-- Writing an element in range. -/
theorem setElement_bytes (h : HoldsBytes m ref size xs s) (index w : Word) :
    setElement m .bytes ref index [w] s =
      if index.toNat < xs.length then .ok () (setByte m ref index.toNat (firstByte w).toNat s)
      else .halt .invalid s := by
  unfold setElement checkedAccessIndex
  rw [if_congr (lt_length_iff h index) rfl rfl]
  by_cases hlt : index.toNat < xs.length
  · have hindex : (s ref).toNat % 2 = 0 → index.toNat < 32 := by
      intro heven
      have := h.even_iff.mp heven
      omega
    rw [if_pos hlt, if_pos hlt, ← storeValue_accessIndex m ref s index w hindex]
    rfl
  · rw [if_neg hlt, if_neg hlt]
    rfl

/-- Reading an element in range. -/
theorem getElement_bytes (h : HoldsBytes m ref size xs s) {i : ℕ} (hi : i < xs.length)
    (hsize : 64 * size < 2 ^ 256) :
    getElement m .bytes ref (.ofNat 256 i) s =
      .ok [.ofNat 256 (byteAt xs i * 2 ^ 248)] s := by
  have hle := h.length_le
  have hindex : (BitVec.ofNat 256 i).toNat = i := by
    rw [toNat_ofNat, Nat.mod_eq_of_lt (by omega)]
  unfold getElement checkedAccessIndex
  rw [if_pos ((lt_length_iff h _).mpr (by rwa [hindex])), Result.bind_ok]
  suffices hbyte : StorageByteArrayElement.retrieveValue
      (accessIndex m .bytes ref (.ofNat 256 i) s).1 (accessIndex m .bytes ref (.ofNat 256 i) s).2 s =
        .ofNat 256 (byteAt xs i * 2 ^ 248) by
    rw [← hbyte]
    rfl
  by_cases heven : (s ref).toNat % 2 = 0
  · have hshort := h.even_iff.mp heven
    rw [accessIndex_bytes_short _ heven, ← (h.short hshort).1 i (by omega)]
    exact StorageByteArrayElement.retrieveValue_eq
      (show (BitVec.ofNat 256 i).toNat = i % 32 by omega) _ _
  · have hlong := mt h.even_iff.mpr heven
    have hdata := h.data i (by omega)
    rw [if_neg hlong] at hdata
    rw [accessIndex_bytes_long _ heven, hindex, ← hdata]
    refine StorageByteArrayElement.retrieveValue_eq (i := i) ?_ _ _
    rw [toNat_ofNat, Nat.mod_eq_of_lt (by omega)]

/-! ### Pushing -/

lemma toNat_add_two {y : Word} (h : y.toNat + 2 < 2 ^ 256) : (y + 2).toNat = y.toNat + 2 := by
  rw [toNat_add]
  exact Nat.mod_eq_of_lt h

lemma clearSuffix_last (y : Word) : y &&& ~~~0xff = clearSuffix 31 y := BitVec.and_comm _ _

/-- A short array that stays short: the bytes stand, the last one tells the length. -/
lemma HoldsBytes.update_short {ys : List Byte} {y : Word} (harea : HasArea m ref size)
    (hlength : ys.length ≤ 32 * size) (hshort : ys.length ≤ 31)
    (hdata : ∀ i < 32 * size, item bytePacking (m.keccak256 ref) s i = 0)
    (hbytes : ∀ i < 31, byteOf y i = byteAt ys i) (hlast : byteOf y 31 = 2 * ys.length) :
    HoldsBytes m ref size ys (Function.update s ref y) where
  length_le := hlength
  short _ := by
    rw [update_self]
    exact ⟨hbytes, hlast⟩
  long h := absurd hshort (by omega)
  data i hi := by
    rw [if_pos hshort, item_update_of_outside harea.fits harea.outside (by rwa [Nat.mul_comm] at hi),
      hdata i hi]

lemma HoldsBytes.update_long {ys : List Byte} {y : Word} (harea : HasArea m ref size)
    (hlength : ys.length ≤ 32 * size) (hlong : 31 < ys.length)
    (hdata : ∀ i < 32 * size, item bytePacking (m.keccak256 ref) s i = byteAt ys i)
    (hy : y.toNat = 2 * ys.length + 1) :
    HoldsBytes m ref size ys (Function.update s ref y) where
  length_le := hlength
  short h := absurd hlong (by omega)
  long _ := by rw [update_self, hy]
  data i hi := by
    rw [if_neg (by omega), item_update_of_outside harea.fits harea.outside
      (by rwa [Nat.mul_comm] at hi), hdata i hi]

lemma item_update_first (harea : HasArea m ref size) (hsize : 0 < size) (y : Word) {i : ℕ}
    (hi : i < 32 * size) :
    item bytePacking (m.keccak256 ref) (Function.update s (m.keccak256 ref) y) i =
      if i < 32 then byteOf y i else item bytePacking (m.keccak256 ref) s i := by
  have h := item_update (p := bytePacking) (s := s) (w := y) (k := 0) harea.fits
    (by rwa [Nat.mul_comm] at hi) hsize
  have hzero : m.keccak256 ref + BitVec.ofNat 256 0 = m.keccak256 ref := BitVec.add_zero _
  rw [hzero] at h
  rw [h]
  congr 1
  change (i / 32 = 0) = _
  exact propext (by omega)

lemma item_first (position : Word) (s : Storage) {i : ℕ} (hi : i < 32) :
    item bytePacking position s i = byteOf (s position) i := by
  have hzero : position + BitVec.ofNat 256 0 = position := BitVec.add_zero _
  have hdiv : i / 32 = 0 := Nat.div_eq_of_lt hi
  change (bytePacking.field i).get (s (position + .ofNat 256 (i / 32))) = _
  rw [hdiv, hzero]
  rfl

lemma Unchanged.update_slot (harea : HasArea m ref size) {k : ℕ} (hk : k < size) (y : Word) :
    Unchanged m ref size s (Function.update s (m.keccak256 ref + .ofNat 256 k) y) :=
  fun _ _ hx => update_of_ne (hx.ne harea.fits hk).symm _ _

lemma Unchanged.update_first (harea : HasArea m ref size) (hsize : 0 < size) (y : Word) :
    Unchanged m ref size s (Function.update s (m.keccak256 ref) y) := by
  have hzero : m.keccak256 ref + BitVec.ofNat 256 0 = m.keccak256 ref := BitVec.add_zero _
  have hslot := Unchanged.update_slot (s := s) harea hsize y
  rwa [hzero] at hslot

lemma Unchanged.update_ref (y : Word) : Unchanged m ref size s (Function.update s ref y) :=
  fun _ hx _ => update_of_ne hx _ _

lemma Unchanged.trans {s₁ s₂ : Storage} (h : Unchanged m ref size s s₁)
    (h' : Unchanged m ref size s₁ s₂) : Unchanged m ref size s s₂ :=
  fun x hx hout => (h' x hx hout).trans (h x hx hout)

lemma incrementDynamicArraySize_bytes (harea : HasArea m ref size)
    (h : HoldsBytes m ref size xs s) (hlength : xs.length < 32 * size) :
    (incrementDynamicArraySize m .bytes ref s).1.toNat = xs.length + 1 ∧
      HoldsBytes m ref size (xs ++ [0]) (incrementDynamicArraySize m .bytes ref s).2 ∧
      Unchanged m ref size s (incrementDynamicArraySize m .bytes ref s).2 := by
  have harea' := harea.length_lt
  have hlen : (xs ++ [0]).length = xs.length + 1 := by simp
  have hshifted : (s ref &&& 63).toNat = (s ref).toNat % 64 := by
    rw [toNat_and]
    exact Nat.and_two_pow_sub_one_eq_mod _ 6
  have hiff : s ref &&& 63 = 62 ↔ (s ref).toNat % 64 = 62 := by
    rw [← toNat_inj, hshifted]
    rfl
  unfold incrementDynamicArraySize
  rw [if_pos isByteArray_bytes]
  simp only
  by_cases hshort : xs.length ≤ 31
  · obtain ⟨hbytes, hlast⟩ := h.short hshort
    have hdata : ∀ i < 32 * size, item bytePacking (m.keccak256 ref) s i = 0 := fun i hi => by
      rw [h.data i hi, if_pos hshort]
    have hmod : (s ref).toNat % 256 = 2 * xs.length := by rw [← byteOf_last, hlast]
    by_cases h31 : xs.length = 31
    · rw [if_pos (hiff.mpr (by omega)), clearSuffix_last]
      refine ⟨by rw [h31]; rfl, HoldsBytes.update_long harea (by omega) (by omega) (fun i hi => ?_)
        (by rw [hlen, h31]; rfl), (Unchanged.update_first harea (by omega) _).trans (.update_ref _)⟩
      rw [item_update_first harea (by omega) _ hi, byteAt_append_zero]
      split_ifs with h32
      · rw [byteOf_clearSuffix _ h32]
        split_ifs with hi31
        · exact hbytes i hi31
        · exact (byteAt_of_length_le (by omega)).symm
      · rw [hdata i hi, byteAt_of_length_le (by omega)]
    · rw [if_neg (mt hiff.mp (by omega))]
      have heven : s ref &&& 1 = 0 := (and_one_eq_zero_iff _).mpr (by omega)
      refine ⟨?_, HoldsBytes.update_short harea (by omega) (by omega) hdata (fun i hi => ?_) ?_,
        .update_ref _⟩
      · rw [if_pos heven, toNat_add, toNat_udiv, hshifted]
        change ((s ref).toNat % 64 / 2 + 1) % 2 ^ 256 = _
        omega
      · rw [byteAt_append_zero, ← hbytes i hi]
        exact byteOf_add (n := 2) hi (by omega)
      · rw [byteOf_last, toNat_add, hlen]
        change ((s ref).toNat + 2) % 2 ^ 256 % 256 = _
        omega
  · have hlong := h.long (by omega)
    have hodd : ¬ s ref &&& 1 = 0 := mt (and_one_eq_zero_iff _).mp (by omega)
    have hle := h.length_le
    rw [if_neg (mt hiff.mp (by omega)), if_neg hodd]
    refine ⟨?_, HoldsBytes.update_long harea (by omega) (by omega) (fun i hi => ?_) ?_,
      .update_ref _⟩
    · rw [toNat_add, toNat_udiv, hlong]
      change ((2 * xs.length + 1) / 2 + 1) % 2 ^ 256 = _
      omega
    · rw [byteAt_append_zero, h.data i hi, if_neg (by omega)]
    · rw [toNat_add_two (by omega), hlong, hlen]
      omega

theorem push_bytes (harea : HasArea m ref size) (h : HoldsBytes m ref size xs s)
    (hlength : xs.length < 32 * size) (w : Word) :
    ∃ s', push m .bytes ref [w] s = .ok () s' ∧ HoldsBytes m ref size (xs ++ [firstByte w]) s' ∧
      Unchanged m ref size s s' := by
  obtain ⟨hnew, hholds, hunchanged⟩ := incrementDynamicArraySize_bytes harea h hlength
  generalize hresult : incrementDynamicArraySize m .bytes ref s = r at hnew hholds hunchanged
  obtain ⟨newLength, s₁⟩ := r
  simp only at hnew hholds hunchanged
  have harea' := harea.length_lt
  have hindex : (newLength - 1).toNat = xs.length := by
    rw [toNat_sub, hnew]
    change (2 ^ 256 - 1 + (xs.length + 1)) % 2 ^ 256 = _
    omega
  have hstore := storeValue_accessIndex m ref s₁ (newLength - 1) w
    (by
      intro heven
      have := hholds.even_iff.mp heven
      rw [length_append, length_singleton] at this
      omega)
  have hpush : push m .bytes ref [w] s =
      .ok () (setByte m ref xs.length (firstByte w).toNat s₁) := by
    rw [← hindex, ← hstore]
    unfold push
    rw [hresult]
    rfl
  obtain ⟨hset, hset'⟩ := setByte_holds harea hholds (i := xs.length) (by simp) (firstByte w)
  refine ⟨_, hpush, ?_, hunchanged.trans hset'⟩
  rw [set_append_right _ _ le_rfl, Nat.sub_self] at hset
  exact hset

/-! ### Popping -/

lemma pow_sub_one {k : ℕ} (hk : k ≤ 32) :
    BitVec.ofNat 256 (256 ^ k) - 1 = CompilerUtils.mask (8 * k) := by
  have hpos : 0 < 2 ^ (8 * k) := Nat.two_pow_pos _
  have hle : 2 ^ (8 * k) ≤ 2 ^ 256 := Nat.pow_le_pow_right Nat.two_pos (by omega)
  have hpow : 256 ^ k = 2 ^ (8 * k) := (Nat.pow_mul 2 8 k).symm
  apply eq_of_toNat_eq
  rw [CompilerUtils.mask, hpow, toNat_sub, toNat_ofNat, toNat_ofNat]
  change (2 ^ 256 - 1 + 2 ^ (8 * k) % 2 ^ 256) % 2 ^ 256 = _
  rcases hle.lt_or_eq with hlt | heq
  · rw [Nat.mod_eq_of_lt hlt, Nat.mod_eq_of_lt (show 2 ^ (8 * k) - 1 < 2 ^ 256 by omega)]
    omega
  · rw [heq, Nat.mod_self, Nat.add_zero]

lemma toNat_sub_ofNat {a n : ℕ} (ha : a < 2 ^ 256) (h : n ≤ a) :
    (BitVec.ofNat 256 a - BitVec.ofNat 256 n).toNat = a - n := by
  rw [toNat_sub, toNat_ofNat, toNat_ofNat, Nat.mod_eq_of_lt ha,
    Nat.mod_eq_of_lt (show n < 2 ^ 256 by omega),
    show 2 ^ 256 - n + a = a - n + 2 ^ 256 by omega, Nat.add_mod_right,
    Nat.mod_eq_of_lt (by omega)]

lemma suffix_eq {start : ℕ} (h : start ≤ 31) (y : Word) :
    ~~~(BitVec.ofNat 256 ((0x100 : Word).toNat ^ (32 - start)) - 1) &&& y = clearSuffix start y := by
  have hmask := pow_sub_one (k := 32 - start) (by omega)
  rw [clearSuffix, ← hmask]
  rfl

lemma suffixMask_eq {start : Word} (h : start.toNat < 32) (y : Word) :
    ~~~(suffixMask start) &&& y = clearSuffix start.toNat y := by
  have hexp : (32 - start : Word).toNat = 32 - start.toNat := by
    have hsub := toNat_sub_ofNat (show 32 < 2 ^ 256 by norm_num) h.le
    rw [ofNat_toNat, setWidth_eq] at hsub
    exact hsub
  rw [suffixMask, hexp]
  exact suffix_eq (by omega) y

lemma popped_short {n : ℕ} (hpos : 0 < n) (hn : n ≤ 31) (y : Word) :
    ~~~(BitVec.ofNat 256 ((0x100 : Word).toNat ^ (33 - BitVec.ofNat 256 n : Word).toNat) - 1) &&& y |||
      (BitVec.ofNat 256 n - 1) * 2 = .ofNat 256 (2 * (n - 1)) ||| clearSuffix (n - 1) y := by
  have hexp : (33 - BitVec.ofNat 256 n : Word).toNat = 32 - (n - 1) := by
    refine (toNat_sub_ofNat (show 33 < 2 ^ 256 by norm_num) (show n ≤ 33 by omega)).trans ?_
    omega
  have hlength : (BitVec.ofNat 256 n - 1) * 2 = .ofNat 256 (2 * (n - 1)) := by
    apply eq_of_toNat_eq
    have hsub : (BitVec.ofNat 256 n - 1).toNat = n - 1 :=
      toNat_sub_ofNat (show n < 2 ^ 256 by omega) hpos
    rw [toNat_mul, hsub, toNat_ofNat, Nat.mul_comm]
    rfl
  rw [hexp, suffix_eq (by omega), hlength, BitVec.or_comm]

theorem popByteArrayElement_holds (harea : HasArea m ref size) (h : HoldsBytes m ref size xs s)
    (hpos : 0 < xs.length) :
    ∃ s', popByteArrayElement m ref s = .ok () s' ∧ HoldsBytes m ref size xs.dropLast s' ∧
      Unchanged m ref size s s' := by
  have harea' := harea.length_lt
  have hle := h.length_le
  have hlen : xs.dropLast.length = xs.length - 1 := length_dropLast
  unfold popByteArrayElement
  simp only
  by_cases hshort : xs.length ≤ 31
  · obtain ⟨hbytes, hlast⟩ := h.short hshort
    have hmod : (s ref).toNat % 256 = 2 * xs.length := by rw [← byteOf_last, hlast]
    have hlength : s ref / 2 &&& 0x1f = .ofNat 256 xs.length := by
      apply eq_of_toNat_eq
      rw [toNat_and, toNat_udiv, toNat_ofNat]
      refine (Nat.and_two_pow_sub_one_eq_mod _ 5).trans ?_
      change (s ref).toNat / 2 % 2 ^ 5 = _
      omega
    have hne : BitVec.ofNat 256 xs.length ≠ 0 := by
      rw [ne_eq, ← toNat_inj, toNat_ofNat]
      change ¬ xs.length % 2 ^ 256 = 0
      omega
    rw [if_pos ((and_one_eq_zero_iff _).mpr (by omega)), hlength, if_neg hne]
    have hzero : byteOf (clearSuffix (xs.length - 1) (s ref)) 31 = 0 := by
      rw [byteOf_clearSuffix _ (by decide), if_neg (by omega)]
    rw [popped_short hpos hshort]
    refine ⟨_, rfl, HoldsBytes.update_short harea (by omega) (by omega) (fun i hi => by
      rw [h.data i hi, if_pos hshort]) (fun i hi => ?_) ?_, .update_ref _⟩
    · rw [byteOf_or_last (by omega) (by omega) hzero, if_neg (by omega),
        byteOf_clearSuffix _ (by omega), byteAt_dropLast, hbytes i hi]
    · rw [byteOf_or_last (by decide) (by omega) hzero, if_pos rfl, hlen]
  · have hlong := h.long (by omega)
    have hdata : ∀ i < 32 * size, item bytePacking (m.keccak256 ref) s i = byteAt xs i :=
      fun i hi => by rw [h.data i hi, if_neg hshort]
    have hlength : s ref / 2 = .ofNat 256 xs.length := by
      apply eq_of_toNat_eq
      rw [toNat_udiv, hlong, toNat_ofNat]
      change (2 * xs.length + 1) / 2 = _
      omega
    have h32 : BitVec.ofNat 256 xs.length = 32 ↔ xs.length = 32 := by
      rw [← toNat_inj, toNat_ofNat, Nat.mod_eq_of_lt (by omega)]
      rfl
    rw [if_neg (mt (and_one_eq_zero_iff _).mp (by omega)), hlength]
    by_cases heq : xs.length = 32
    · have hzero : byteOf (clearSuffix 31 (s (m.keccak256 ref))) 31 = 0 := by
        rw [byteOf_clearSuffix _ (by decide), if_neg (by decide)]
      rw [if_pos (h32.mpr heq), clearSuffix_last, BitVec.or_comm]
      refine ⟨_, rfl, HoldsBytes.update_short harea (by omega) (by omega) (fun i hi => ?_)
        (fun i hi => ?_) ?_, (Unchanged.update_first harea (by omega) 0).trans (.update_ref _)⟩
      · rw [item_update_first harea (by omega) _ hi]
        split_ifs
        · exact Field.get_zero _
        · rw [hdata i hi, byteAt_of_length_le (by omega)]
      · have hbyte := byteOf_or_last (n := 62) (i := i) (by omega) (by decide) hzero
        rw [if_neg (by omega), byteOf_clearSuffix _ (by omega), if_pos hi] at hbyte
        rw [byteAt_dropLast, if_pos (by omega), ← hdata i (by omega), item_first _ _ (by omega)]
        exact hbyte
      · have hbyte := byteOf_or_last (n := 62) (i := 31) (by decide) (by decide) hzero
        rw [hlen, heq]
        exact hbyte
    · rw [if_neg (mt h32.mp heq)]
      have hsub : (BitVec.ofNat 256 xs.length - 1).toNat = xs.length - 1 :=
        toNat_sub_ofNat (show xs.length < 2 ^ 256 by omega) hpos
      have hslot : (BitVec.ofNat 256 xs.length - 1) / 32 = .ofNat 256 ((xs.length - 1) / 32) := by
        apply eq_of_toNat_eq
        rw [toNat_udiv, hsub, toNat_ofNat, Nat.mod_eq_of_lt (by omega)]
        rfl
      have hstart : (BitVec.ofNat 256 xs.length - 1 &&& 0x1f : Word).toNat =
          (xs.length - 1) % 32 := by
        rw [toNat_and, hsub]
        exact Nat.and_two_pow_sub_one_eq_mod _ 5
      have hk : (xs.length - 1) / 32 < size := by omega
      have hmask := fun y => suffixMask_eq (hstart.trans_lt (Nat.mod_lt _ (by decide))) y
      rw [hstart] at hmask
      rw [hslot, hmask]
      refine ⟨_, rfl, HoldsBytes.update_long harea (by omega) (by omega) (fun i hi => ?_) ?_,
        (Unchanged.update_slot harea hk _).trans (.update_ref _)⟩
      · have hitem := item_update (p := bytePacking) (s := s) (i := i)
          (w := clearSuffix ((xs.length - 1) % 32)
            (s (m.keccak256 ref + .ofNat 256 ((xs.length - 1) / 32)))) harea.fits
          (by rwa [Nat.mul_comm] at hi) hk
        have hfield : (bytePacking.field i).get
            (clearSuffix ((xs.length - 1) % 32)
              (s (m.keccak256 ref + .ofNat 256 ((xs.length - 1) / 32)))) =
            if i % 32 < (xs.length - 1) % 32 then
              byteOf (s (m.keccak256 ref + .ofNat 256 ((xs.length - 1) / 32))) (i % 32) else 0 := by
          exact (byteOf_mod _ i).symm.trans (byteOf_clearSuffix _ (Nat.mod_lt _ (by decide)))
        rw [hitem, byteAt_dropLast, hfield]
        change (if i / 32 = _ then _ else _) = _
        by_cases hi' : i / 32 = (xs.length - 1) / 32
        · rw [if_pos hi', ← hi', byteOf_mod]
          have hiff : i % 32 < (xs.length - 1) % 32 ↔ i < xs.length - 1 := by omega
          rw [if_congr hiff rfl rfl, ← hdata i hi]
          rfl
        · rw [if_neg hi', hdata i hi]
          split_ifs
          · rfl
          · exact byteAt_of_length_le (by omega)
      · have href : s ref = .ofNat 256 (2 * xs.length + 1) := by
          rw [← hlong, ofNat_toNat, setWidth_eq]
        rw [hlen, href]
        refine (toNat_sub_ofNat (show 2 * xs.length + 1 < 2 ^ 256 by omega)
          (show 2 ≤ 2 * xs.length + 1 by omega)).trans ?_
        omega

end Polynomial
