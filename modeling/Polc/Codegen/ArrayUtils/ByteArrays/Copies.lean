import Polc.Codegen.ArrayUtils.ByteArrays

/-!
# The length of a byte array

The assignment of a length cuts the list or fills it with zeros, unless the end moves within a slot:
the bytes between are not cleared. `delete` empties the list.
-/

namespace Polynomial

open Function
open Sof (Word Byte)
open Semantics ArrayUtils CompilerUtils
open BitVec (eq_of_toNat_eq lt_def toNat_add toNat_inj toNat_ofNat)

variable {m : Machine} {ref : Word} {size : ℕ} {xs : List Byte} {s : Storage}

lemma convertLengthToSize_bytes {length : Word} (h : length.toNat ≤ 32 * size)
    (hsize : 64 * size < 2 ^ 256) :
    convertLengthToSize .bytes length = .ofNat 256 (bytePacking.words length.toNat) := by
  apply eq_of_toNat_eq
  rw [toNat_convertLengthToSize_bytes h hsize, toNat_ofNat, Nat.mod_eq_of_lt]
  change (length.toNat + 31) / 32 < _
  omega

lemma div_mul_two_pow {k : ℕ} (hk : k < 256) (v : Word) :
    v / .ofNat 256 (2 ^ k) * .ofNat 256 (2 ^ k) = ~~~(mask k) &&& v := by
  have hdiv : v / BitVec.ofNat 256 (2 ^ k) = v >>> k := by
    apply eq_of_toNat_eq
    rw [BitVec.toNat_udiv, toNat_ofNat, BitVec.toNat_ushiftRight, Nat.shiftRight_eq_div_pow,
      Nat.mod_eq_of_lt (Nat.pow_lt_pow_right Nat.one_lt_two hk)]
  rw [hdiv, mul_ofNat_two_pow]
  apply BitVec.eq_of_getLsbD_eq
  intro i hi
  rw [BitVec.getLsbD_shiftLeft, BitVec.getLsbD_ushiftRight, BitVec.getLsbD_and, BitVec.getLsbD_not,
    mask, BitVec.getLsbD_ofNat, Nat.testBit_two_pow_sub_one]
  simp only [hi, decide_true, Bool.true_and]
  by_cases hlt : i < k
  · simp [hlt]
  · simp [hlt, Nat.le_of_not_lt hlt]

lemma shortByteArray_eq {n : Word} (hn : n.toNat ≤ 31) (v : Word) :
    shortByteArray n v = .ofNat 256 (2 * n.toNat) ||| clearSuffix n.toNat v := by
  have hadd : n + n = .ofNat 256 (2 * n.toNat) := by
    apply eq_of_toNat_eq
    rw [toNat_add, toNat_ofNat]
    omega
  have hexp : (0x100 - 8 * n : Word).toNat = 8 * (32 - n.toNat) := by
    have hmul : 8 * n = .ofNat 256 (8 * n.toNat) := by
      apply eq_of_toNat_eq
      rw [BitVec.toNat_mul, toNat_ofNat]
      rfl
    rw [hmul]
    refine (toNat_sub_ofNat (show 256 < 2 ^ 256 by norm_num) (by omega)).trans ?_
    omega
  unfold shortByteArray
  simp only
  rw [hadd, hexp]
  congr 1
  rcases Nat.eq_zero_or_pos n.toNat with hzero | hpos
  · rw [hzero]
    exact (BitVec.mul_zero).trans (BitVec.zero_and).symm
  · exact div_mul_two_pow (by omega) v

lemma byteOf_shortByteArray {n : Word} (hn : n.toNat ≤ 31) (v : Word) {i : ℕ} (hi : i < 32) :
    byteOf (shortByteArray n v) i =
      if i = 31 then 2 * n.toNat else if i < n.toNat then byteOf v i else 0 := by
  have hlast : byteOf (clearSuffix n.toNat v) 31 = 0 := by
    rw [byteOf_clearSuffix _ (by decide), if_neg (by omega)]
  rw [shortByteArray_eq hn, byteOf_or_last hi (by omega) hlast, byteOf_clearSuffix _ hi]

lemma HoldsBytes.item_cleared (harea : HasArea m ref size) (h : HoldsBytes m ref size xs s)
    {a i : ℕ} (ha : a ≤ size) (hi : i < 32 * size) :
    item bytePacking (m.keccak256 ref)
        (clearStorageLoop .uint256
          (m.keccak256 ref + .ofNat 256 (bytePacking.words xs.length))
          (m.keccak256 ref + .ofNat 256 a) s) i =
      if i / 32 < a then item bytePacking (m.keccak256 ref) s i else 0 := by
  have hle : bytePacking.words xs.length ≤ size :=
    (bytePacking.words_le_iff).mpr (by rw [Nat.mul_comm]; exact h.length_le)
  rw [item_clearStorageLoop _ harea.fits ha hle (by rwa [Nat.mul_comm] at hi)]
  change (if a ≤ i / 32 ∧ i / 32 < (xs.length + 31) / 32 then _ else _) = _
  by_cases hlt : i / 32 < a
  · rw [if_neg (by omega), if_pos hlt]
  · rw [if_neg hlt]
    split_ifs with hcleared
    · rfl
    · rw [h.data i hi]
      split_ifs
      · rfl
      · exact byteAt_of_length_le (by omega)

/-! ### Changes of the length -/

lemma clearStorageLoop_of_area (hfits : Fits (m.keccak256 ref) size)
    (houtside : Outside (m.keccak256 ref) size ref) (type : ValueType) {a b : ℕ} (ha : a ≤ size)
    (hb : b ≤ size) (y : Word) :
    clearStorageLoop type (m.keccak256 ref + .ofNat 256 b) (m.keccak256 ref + .ofNat 256 a)
        (Function.update s ref y) =
      Function.update (clearStorageLoop type (m.keccak256 ref + .ofNat 256 b)
        (m.keccak256 ref + .ofNat 256 a) s) ref y := by
  funext x
  by_cases hx : x = ref
  · subst hx
    rw [clearStorageLoop_of_outside type hfits ha hb houtside, update_self,
      update_self]
  · rw [clearStorageLoop_apply, update_of_ne hx, update_of_ne hx,
      clearStorageLoop_apply]

lemma Unchanged.clear (harea : HasArea m ref size) (type : ValueType) {a b : ℕ} (ha : a ≤ size)
    (hb : b ≤ size) :
    Unchanged m ref size s (clearStorageLoop type (m.keccak256 ref + .ofNat 256 b)
      (m.keccak256 ref + .ofNat 256 a) s) :=
  fun _ _ hx => clearStorageLoop_of_outside type harea.fits ha hb hx

lemma HoldsBytes.words_le (h : HoldsBytes m ref size xs s) :
    bytePacking.words xs.length ≤ size :=
  bytePacking.words_le_iff.mpr (by rw [Nat.mul_comm]; exact h.length_le)

lemma HoldsBytes.size_eq (harea : HasArea m ref size) (h : HoldsBytes m ref size xs s) :
    convertLengthToSize .bytes (retrieveStorageLength .bytes ref s) =
      .ofNat 256 (bytePacking.words xs.length) := by
  have hle : (retrieveStorageLength .bytes ref s).toNat ≤ 32 * size := by
    rw [h.length_eq]
    exact h.length_le
  rw [convertLengthToSize_bytes hle harea.length_lt, h.length_eq]

lemma HoldsBytes.lt_length_iff (h : HoldsBytes m ref size xs s) :
    31 < retrieveStorageLength .bytes ref s ↔ 31 < xs.length := by
  rw [lt_def, h.length_eq]
  rfl

/-- The bytes of the list in the slot of the new end are zero from there on. -/
def ClearedEnd (xs : List Byte) (n : ℕ) : Prop :=
  31 < n → ∀ i < 32 * bytePacking.words n, n ≤ i → byteAt xs i = 0

lemma resizeRegular_bytes (harea : HasArea m ref size) (h : HoldsBytes m ref size xs s)
    (hlong : 31 < xs.length) {n : Word} (hn : 31 < n.toNat) (hle : n.toNat ≤ 32 * size)
    (hclean : ClearedEnd xs n.toNat) :
    HoldsBytes m ref size (resized xs n.toNat)
        (resizeRegular m .bytes ref n (retrieveStorageLength .bytes ref s) s) ∧
      Unchanged m ref size s
        (resizeRegular m .bytes ref n (retrieveStorageLength .bytes ref s) s) := by
  have hsize := harea.length_lt
  have hslot : (1 + (n + n)).toNat = 2 * n.toNat + 1 := by
    rw [toNat_add, toNat_add]
    change (1 + (n.toNat + n.toNat) % 2 ^ 256) % 2 ^ 256 = _
    omega
  have hwords : bytePacking.words n.toNat ≤ size := bytePacking.words_le_iff.mpr (by
    rw [Nat.mul_comm]
    exact hle)
  have hdata : ∀ i < 32 * size, item bytePacking (m.keccak256 ref) s i = byteAt xs i :=
    fun i hi => by rw [h.data i hi, if_neg (by omega)]
  have hlt : n < retrieveStorageLength .bytes ref s ↔ n.toNat < xs.length := by
    rw [lt_def, h.length_eq]
  unfold resizeRegular
  simp only [isByteArray_bytes, if_true]
  rw [if_congr hlt rfl rfl, h.size_eq harea, convertLengthToSize_bytes hle hsize]
  split_ifs with hshrink
  · change HoldsBytes _ _ _ _ (clearStorageLoop .uint256 _ _ _) ∧
      Unchanged _ _ _ _ (clearStorageLoop .uint256 _ _ _)
    rw [clearStorageLoop_of_area harea.fits harea.outside _ hwords h.words_le]
    refine ⟨HoldsBytes.update_long harea ?_ ?_ (fun i hi => ?_) ?_,
      (Unchanged.clear harea _ hwords h.words_le).trans (.update_ref _)⟩
    · rwa [length_resized]
    · rwa [length_resized]
    · rw [h.item_cleared harea hwords hi, byteAt_resized, hdata i hi]
      change (if i / 32 < (n.toNat + 31) / 32 then _ else _) = _
      by_cases hin : i < n.toNat
      · rw [if_pos (by omega), if_pos hin]
      · rw [if_neg hin]
        split_ifs with hkept
        · exact hclean hn i (by change i < 32 * ((n.toNat + 31) / 32); omega) (by omega)
        · rfl
    · rw [length_resized, hslot]
  · refine ⟨HoldsBytes.update_long harea ?_ ?_ (fun i hi => ?_) ?_, .update_ref _⟩
    · rwa [length_resized]
    · rwa [length_resized]
    · rw [hdata i hi, byteAt_resized]
      split_ifs
      · rfl
      · exact byteAt_of_length_le (by omega)
    · rw [length_resized, hslot]

/-- The assignment of a length. -/
theorem resizeDynamicArray_bytes (harea : HasArea m ref size) (h : HoldsBytes m ref size xs s)
    {n : Word} (hle : n.toNat ≤ 32 * size) (hclean : ClearedEnd xs n.toNat) :
    HoldsBytes m ref size (resized xs n.toNat) (resizeDynamicArray m .bytes ref n s) ∧
      Unchanged m ref size s (resizeDynamicArray m .bytes ref n s) := by
  have hsize := harea.length_lt
  have hlength : (resized xs n.toNat).length = n.toNat := length_resized _ _
  have hn : 31 < n ↔ 31 < n.toNat := lt_def
  have hzero : m.keccak256 ref + BitVec.ofNat 256 0 = m.keccak256 ref := BitVec.add_zero _
  have hshort : ∀ v : Word, n.toNat ≤ 31 → (∀ i < 31, i < n.toNat → byteOf v i = byteAt xs i) →
      (∀ i < 31, byteOf (shortByteArray n v) i = byteAt (resized xs n.toNat) i) ∧
        byteOf (shortByteArray n v) 31 = 2 * (resized xs n.toNat).length := by
    intro v hn31 hv
    refine ⟨fun i hi => ?_, ?_⟩
    · rw [byteOf_shortByteArray hn31 v (by omega), if_neg (by omega), byteAt_resized]
      split_ifs with hin
      · exact hv i hi hin
      · rfl
    · rw [byteOf_shortByteArray hn31 v (by decide), if_pos rfl, hlength]
  unfold resizeDynamicArray
  simp only [isByteArray_bytes, if_true]
  rw [if_congr h.lt_length_iff rfl rfl, if_congr hn rfl rfl, if_congr hn rfl rfl]
  by_cases hlong : 31 < xs.length
  · rw [if_pos hlong]
    by_cases hnlong : 31 < n.toNat
    · rw [if_pos hnlong]
      exact resizeRegular_bytes harea h hlong hnlong hle hclean
    · have hn31 := Nat.le_of_not_lt hnlong
      obtain ⟨hbytes, hlast⟩ := hshort (s (m.keccak256 ref)) hn31 fun i hi _ => by
        rw [← item_first (m.keccak256 ref) s (show i < 32 by omega), h.data i (by
          have := h.length_le
          omega), if_neg (by omega)]
      have hcleared := fun i hi => h.item_cleared harea (Nat.zero_le size) (i := i) hi
      have hunchanged := Unchanged.clear (s := s) harea .uint256 (Nat.zero_le size) h.words_le
      rw [hzero] at hcleared hunchanged
      rw [if_neg hnlong, h.size_eq harea]
      refine ⟨HoldsBytes.update_short harea (by omega) (by omega) (fun i hi => ?_) hbytes hlast,
        hunchanged.trans (.update_ref _)⟩
      rw [hcleared i hi, if_neg (Nat.not_lt_zero _)]
  · have hxs := Nat.le_of_not_lt hlong
    obtain ⟨hbytes, hlast⟩ := h.short hxs
    have hdata : ∀ i < 32 * size, item bytePacking (m.keccak256 ref) s i = 0 := fun i hi => by
      rw [h.data i hi, if_pos hxs]
    rw [if_neg hlong]
    by_cases hnlong : 31 < n.toNat
    · rw [if_pos hnlong]
      have hpos : 0 < size := by omega
      refine ⟨HoldsBytes.update_long harea (by omega) (by omega) (fun i hi => ?_) ?_,
        (Unchanged.update_first harea hpos _).trans (.update_ref _)⟩
      · rw [BitVec.and_comm, clearSuffix_last, item_update_first harea hpos _ hi, byteAt_resized]
        by_cases h32 : i < 32
        · rw [if_pos h32, byteOf_clearSuffix _ h32, if_pos (show i < n.toNat by omega)]
          split_ifs with h31
          · exact hbytes i h31
          · exact (byteAt_of_length_le (by omega)).symm
        · rw [if_neg h32, hdata i hi, byteAt_of_length_le (by omega), ite_self]
      · rw [hlength, toNat_add, toNat_add]
        change (1 + (n.toNat + n.toNat) % 2 ^ 256) % 2 ^ 256 = _
        omega
    · rw [if_neg hnlong]
      obtain ⟨hbytes', hlast'⟩ := hshort (s ref) (Nat.le_of_not_lt hnlong) fun i hi _ => hbytes i hi
      exact ⟨HoldsBytes.update_short harea (by omega) (by omega) hdata hbytes' hlast',
        .update_ref _⟩

lemma HoldsBytes.nil (harea : HasArea m ref size) (y : Word) (hy : y = 0)
    (hdata : ∀ i < 32 * size, item bytePacking (m.keccak256 ref) s i = 0) :
    HoldsBytes m ref size [] (Function.update s ref y) := by
  have hzero : ∀ i, byteOf (0 : Word) i = 0 := fun i => Field.get_zero _
  subst hy
  exact HoldsBytes.update_short harea (Nat.zero_le _) (Nat.zero_le _) hdata
    (fun i _ => hzero i) (hzero 31)

theorem clearDynamicArray_bytes (harea : HasArea m ref size) (h : HoldsBytes m ref size xs s) :
    HoldsBytes m ref size [] (clearDynamicArray m .bytes ref s) ∧
      Unchanged m ref size s (clearDynamicArray m .bytes ref s) := by
  have hzero : m.keccak256 ref + BitVec.ofNat 256 0 = m.keccak256 ref := BitVec.add_zero _
  unfold clearDynamicArray
  simp only [isByteArray_bytes, true_and]
  rw [if_congr (not_congr h.lt_length_iff) rfl rfl]
  by_cases hlong : 31 < xs.length
  · rw [if_neg (not_not_intro hlong), h.size_eq harea]
    change HoldsBytes _ _ _ _ (clearStorageLoop .uint256 _ _ _) ∧
      Unchanged _ _ _ _ (clearStorageLoop .uint256 _ _ _)
    have hupdate := clearStorageLoop_of_area (s := s) harea.fits harea.outside .uint256
      (Nat.zero_le size) h.words_le 0
    have hcleared := fun i hi => h.item_cleared harea (Nat.zero_le size) (i := i) hi
    have hunchanged := Unchanged.clear (s := s) harea .uint256 (Nat.zero_le size) h.words_le
    rw [hzero] at hupdate hcleared hunchanged
    rw [hupdate]
    refine ⟨HoldsBytes.nil harea 0 rfl fun i hi => ?_, hunchanged.trans (.update_ref _)⟩
    rw [hcleared i hi, if_neg (Nat.not_lt_zero _)]
  · rw [if_pos hlong]
    refine ⟨HoldsBytes.nil harea 0 rfl fun i hi => ?_, .update_ref _⟩
    rw [h.data i hi, if_pos (Nat.le_of_not_lt hlong)]

end Polynomial

/-!
## Copies of byte arrays to storage

Whole words are copied, with what is behind the end of the source.
-/

namespace Polynomial

open Function
open Sof (Word Byte)
open Semantics ArrayUtils CompilerUtils
open BitVec (eq_of_toNat_eq lt_def toNat_add toNat_inj toNat_ofNat)

/-! ### Sources -/

section

variable (m : Machine) (source : Reference) (s : Storage)

/-- The number of bytes of an array that is assigned. -/
def sourceLength : ℕ := (retrieveLength m .bytes source s).toNat

/-- Byte `i` from the start of the source, also behind its end. -/
def sourceByte (i : ℕ) : Byte :=
  match source.location with
  | .memory => m.memory (source.position + 32 + .ofNat 256 i)
  | .callData => m.calldata (source.position + .ofNat 256 i)
  | .storage =>
    .ofNat 8 (if (s source.position).toNat % 2 = 0 then byteOf (s source.position) i
      else item bytePacking (m.keccak256 source.position) s i)

def sourceBytes : List Byte := (List.range (sourceLength m source s)).map (sourceByte m source s)

/-- The words that are copied from a source that is not short. -/
def sourceWord (j : ℕ) : Word :=
  match source.location with
  | .memory => m.load .memory (source.position + 32 + .ofNat 256 (32 * j))
  | .callData => m.load .callData (source.position + .ofNat 256 (32 * j))
  | .storage => area (m.keccak256 source.position) s j

/-- The source is an array: its position does not wrap around, its slot tells its form, and its slots
are those of the target or apart from them. -/
def ValidSource (ref : Word) (size : ℕ) : Prop :=
  match source.location with
  | .memory =>
    source.position.toNat + 32 + 32 * bytePacking.words (sourceLength m source s) < 2 ^ 256
  | .callData =>
    source.position.toNat + 32 * bytePacking.words (sourceLength m source s) < 2 ^ 256
  | .storage =>
    ((s source.position).toNat % 2 = 0 ↔ sourceLength m source s ≤ 31) ∧
      (source.position = ref ∨
        Fits (m.keccak256 source.position) (bytePacking.words (sourceLength m source s)) ∧
        ∀ x, (x = source.position ∨ ∃ j < bytePacking.words (sourceLength m source s),
            x = m.keccak256 source.position + .ofNat 256 j) →
          x ≠ ref ∧ Outside (m.keccak256 ref) size x)

end

variable {m : Machine} {ref : Word} {size fuel : ℕ} {xs : List Byte} {source : Reference}
  {s s' : Storage}

@[simp] lemma length_sourceBytes : (sourceBytes m source s).length = sourceLength m source s := by
  rw [sourceBytes, List.length_map, List.length_range]

lemma byteAt_sourceBytes (i : ℕ) :
    byteAt (sourceBytes m source s) i =
      if i < sourceLength m source s then (sourceByte m source s i).toNat else 0 := by
  split_ifs with h
  · unfold byteAt sourceBytes
    rw [List.getD_eq_getElem _ _ (by simpa using h), List.getElem_map, List.getElem_range]
  · exact byteAt_of_length_le (by simpa using h)

lemma byteOf_load (location : DataLocation) (position : Word) {i : ℕ} (hi : i < 32) :
    byteOf (m.load location position) i =
      ((if location = .callData then m.calldata else m.memory)
        (position + .ofNat 256 i)).toNat :=
  byteOf_wordOfBytes _ hi

lemma add_ofNat_add (position : Word) (a b : ℕ) :
    position + .ofNat 256 a + .ofNat 256 b = position + .ofNat 256 (a + b) := by
  rw [BitVec.add_assoc, ← BitVec.ofNat_add]

lemma toNat_ofNat_byteOf (x : Word) (i : ℕ) : (BitVec.ofNat 8 (byteOf x i)).toNat = byteOf x i := by
  rw [toNat_ofNat, Nat.mod_eq_of_lt (byteOf_lt x i)]

lemma byteOf_sourceWord (h : source.location = .storage → (s source.position).toNat % 2 ≠ 0)
    (i : ℕ) :
    byteOf (sourceWord m source s (i / 32)) i = (sourceByte m source s i).toNat := by
  have hlt : i % 32 < 32 := Nat.mod_lt _ (by decide)
  have hdiv : 32 * (i / 32) + i % 32 = i := Nat.div_add_mod i 32
  unfold sourceWord sourceByte
  cases hlocation : source.location with
  | memory =>
    simp only
    rw [← byteOf_mod, byteOf_load _ _ hlt, add_ofNat_add, hdiv]
    rfl
  | callData =>
    simp only
    rw [← byteOf_mod, byteOf_load _ _ hlt, add_ofNat_add, hdiv]
    rfl
  | storage =>
    simp only
    rw [if_neg (h hlocation)]
    exact (toNat_ofNat_byteOf _ i).symm

/-! ### Long sources -/

lemma execute_convertType_uint256 (hasBitwiseShifting : Bool) (w : Word) (s : Storage) :
    execute (convertType hasBitwiseShifting .uint256 .uint256 true) [w] s = .ok [w] s := by
  cases hasBitwiseShifting <;> rfl

lemma loadElement_bytes {location : DataLocation} (h : location ≠ .storage) (c : Cursor) :
    loadElement m .bytes location c s = .ok [m.load location c.sourcePosition] s := by
  unfold loadElement
  rw [if_neg h]
  change loadFromMemoryDynamic m .uint256 location c.sourcePosition s = _
  unfold loadFromMemoryDynamic
  simp only [ValueType.uint256]
  split_ifs
  · have hexecute := execute_convertType_uint256 m.hasBitwiseShifting
      (m.load location c.sourcePosition) s
    unfold ValueType.uint256 at hexecute
    have hmap : ∀ code : Option Code, code.map (([] : Code) ++ ·) = code := by
      rintro (_ | code) <;> rfl
    rw [hmap, hexecute]
    rfl
  · rfl

lemma copyElement_bytes {location : DataLocation} (c : Cursor) :
    copyElement m .bytes .bytes location c s = .ok () (Function.update s c.targetPosition
      (if location = .storage then s c.sourcePosition else m.load location c.sourcePosition)) := by
  unfold copyElement
  by_cases h : location = .storage
  · subst h
    rfl
  · have hdirect : directCopy .bytes .bytes location = false := by
      cases location
      · exact absurd rfl h
      · rfl
      · rfl
    rw [hdirect, if_neg Bool.false_ne_true, loadElement_bytes h, Result.bind_ok, if_neg h]
    change StorageItem.storeValue m .uint256 .uint256 _ _ _ _ = _
    unfold StorageItem.storeValue
    rw [if_pos (show ValueType.uint256.storageBytes = 32 from rfl), execute_convertType_uint256]
    rfl

/-- Where the words that are copied start. -/
def sourceStart (m : Machine) (source : Reference) : Word :=
  match source.location with
  | .memory => 0x20 + source.position
  | .callData => source.position
  | .storage => m.keccak256 source.position

/-- Where they end. -/
def sourceSize (m : Machine) (source : Reference) (s : Storage) : Word :=
  if source.location = .storage then convertLengthToSize .bytes (retrieveLength m .bytes source s)
  else convertLengthToBytes .bytes (retrieveLength m .bytes source s)

lemma ValidSource.fits (h : ValidSource m source s ref size) (harea : HasArea m ref size)
    (hlength : sourceLength m source s ≤ 32 * size) (hlocation : source.location = .storage) :
    Fits (m.keccak256 source.position) (bytePacking.words (sourceLength m source s)) := by
  have hwords : bytePacking.words (sourceLength m source s) ≤ size :=
    bytePacking.words_le_iff.mpr (by rwa [Nat.mul_comm] at hlength)
  unfold ValidSource at h
  simp only [hlocation] at h
  obtain ⟨-, rfl | ⟨hfits, -⟩⟩ := h
  · exact harea.fits.mono hwords
  · exact hfits

lemma sourceSlot_lt_iff (h : ValidSource m source s ref size) (harea : HasArea m ref size)
    (hlength : sourceLength m source s ≤ 32 * size) {i : ℕ}
    (hi : i ≤ bytePacking.words (sourceLength m source s)) :
    sourceSlot .bytes .bytes source.location (sourceStart m source) i <
        sourceStart m source + sourceSize m source s ↔
      i < bytePacking.words (sourceLength m source s) := by
  have hsize := harea.length_lt
  have hword : 32 * bytePacking.words (sourceLength m source s) < sourceLength m source s + 32 ∧
      sourceLength m source s ≤ 32 * bytePacking.words (sourceLength m source s) := by
    change 32 * ((sourceLength m source s + 31) / 32) < _ ∧
      _ ≤ 32 * ((sourceLength m source s + 31) / 32)
    omega
  have hlen : retrieveLength m .bytes source s = .ofNat 256 (sourceLength m source s) := by
    rw [sourceLength, BitVec.ofNat_toNat, BitVec.setWidth_eq]
  by_cases hlocation : source.location = .storage
  · have hfits := h.fits harea hlength hlocation
    have hstep : sourceStep .bytes .bytes .storage = .uint256 := rfl
    unfold sourceSlot sourceStart sourceSize
    simp only [hlocation, if_true]
    rw [convertLengthToSize_bytes hlength hsize, hstep, slotOf_uint256,
      lt_def, toNat_add_ofNat hfits hi]
    change _ < (_ + BitVec.ofNat 256 (bytePacking.words (sourceLength m source s))).toNat ↔ _
    rw [toNat_add_ofNat hfits le_rfl]
    omega
  · have hstart : (sourceStart m source).toNat +
        32 * bytePacking.words (sourceLength m source s) < 2 ^ 256 := by
      unfold ValidSource at h
      unfold sourceStart
      cases hl : source.location with
      | storage => exact absurd hl hlocation
      | callData =>
        simp only [hl] at h
        exact h
      | memory =>
        simp only [hl] at h
        have hadd : (0x20 + source.position).toNat = 32 + source.position.toNat := by
          rw [toNat_add]
          exact Nat.mod_eq_of_lt (by change 32 + _ < _; omega)
        simp only
        rw [hadd]
        omega
    have hbytes : ∀ k, k ≤ 32 * bytePacking.words (sourceLength m source s) →
        (sourceStart m source + .ofNat 256 k).toNat = (sourceStart m source).toNat + k :=
      fun k hk => toNat_add_ofNat (show Fits _ _ from hstart) hk
    unfold sourceSlot sourceSize
    rw [if_neg hlocation, if_neg hlocation]
    change _ < _ + retrieveLength m .bytes source s ↔ _
    rw [hlen, lt_def, hbytes _ (by omega), hbytes _ hword.2]
    omega

lemma sourceWord_eq (h : ValidSource m source s ref size) (harea : HasArea m ref size)
    (hlength : sourceLength m source s ≤ 32 * size) {y : Word} {i : ℕ}
    (hi : i < bytePacking.words (sourceLength m source s))
    (hreplaced : Replaced ValueType.uint256.packing (m.keccak256 ref) size
      (fun j => (sourceWord m source s j).toNat) (Function.update s ref y) i s') :
    (if source.location = .storage then
        s' (sourceSlot .bytes .bytes source.location (sourceStart m source) i)
      else m.load source.location
        (sourceSlot .bytes .bytes source.location (sourceStart m source) i)) =
      sourceWord m source s i := by
  have hwords : bytePacking.words (sourceLength m source s) ≤ size :=
    bytePacking.words_le_iff.mpr (by rwa [Nat.mul_comm] at hlength)
  unfold ValidSource at h
  unfold sourceSlot sourceStart sourceWord
  cases hlocation : source.location with
  | memory =>
    simp only [reduceCtorEq, if_false]
    rw [BitVec.add_comm 0x20]
  | callData => rfl
  | storage =>
    simp only [hlocation, if_true] at h ⊢
    have hstep : sourceStep .bytes .bytes .storage = .uint256 := rfl
    rw [hstep, slotOf_uint256]
    obtain ⟨-, hself | ⟨-, hapart⟩⟩ := h
    · have hitem := hreplaced.item_eq i (by
        change i < size * 1
        omega)
      rw [if_neg (Nat.lt_irrefl i)] at hitem
      rw [item_uint256, item_uint256, toNat_inj,
        area_update_of_outside harea.fits harea.outside (by omega)] at hitem
      rw [hself]
      exact hitem
    · obtain ⟨hne, hout⟩ := hapart _ (.inr ⟨i, hi, rfl⟩)
      rw [hreplaced.outside _ hout, update_of_ne hne]
      rfl

lemma copyLoop_bytes (h : ValidSource m source s ref size) (harea : HasArea m ref size)
    (hlength : sourceLength m source s ≤ 32 * size) (hfuel : size < fuel) (y : Word) :
    ∃ c s', copyLoop m .bytes .bytes source.location
        (sourceStart m source + sourceSize m source s) fuel
        ⟨sourceStart m source, m.keccak256 ref, 0, 0⟩ (Function.update s ref y) = .ok c s' ∧
      c.targetPosition =
        m.keccak256 ref + .ofNat 256 (bytePacking.words (sourceLength m source s)) ∧
      Replaced ValueType.uint256.packing (m.keccak256 ref) size
        (fun j => (sourceWord m source s j).toNat) (Function.update s ref y)
        (bytePacking.words (sourceLength m source s)) s' := by
  have hwords : bytePacking.words (sourceLength m source s) ≤ size :=
    bytePacking.words_le_iff.mpr (by rwa [Nat.mul_comm] at hlength)
  have hstep : targetStep .bytes .bytes source.location = .uint256 := by
    cases source.location <;> rfl
  have hcopy : ∀ i < bytePacking.words (sourceLength m source s), ∀ s',
      Replaced ValueType.uint256.packing (m.keccak256 ref) size
        (fun j => (sourceWord m source s j).toNat) (Function.update s ref y) i s' →
      copyElement m .bytes .bytes source.location
          (cursorAt .bytes .bytes source.location (sourceStart m source) (m.keccak256 ref) i) s' =
        .ok () (Function.update s'
          (m.keccak256 ref + .ofNat 256 (i / ValueType.uint256.packing.count))
          ((ValueType.uint256.packing.field i).set
            (s' (m.keccak256 ref + .ofNat 256 (i / ValueType.uint256.packing.count)))
            (sourceWord m source s i).toNat)) := by
    intro i hi s' hreplaced
    rw [copyElement_bytes, ValueType.set_field_of_storageBytes rfl, packing_uint256_count,
      Nat.div_one]
    unfold cursorAt
    simp only [hstep]
    rw [sourceWord_eq h harea hlength hi hreplaced, slotOf_uint256, BitVec.ofNat_toNat,
      BitVec.setWidth_eq]
  obtain ⟨s', hloop, hreplaced⟩ := copyLoop_replaced ValueType.uint256.packing harea.fits
    (by rwa [packing_uint256_count, Nat.mul_one]) (fun i => (sourceWord m source s i).isLt)
    (fun i hi => sourceSlot_lt_iff h harea hlength hi) hcopy (hwords.trans_lt hfuel)
  refine ⟨_, s', hloop, ?_, hreplaced⟩
  change slotOf (targetStep .bytes .bytes source.location) _ _ = _
  rw [hstep, slotOf_uint256]

/-! ### The result -/

/-- The bytes behind the end that are copied too are zero. -/
def ClearedPadding (m : Machine) (source : Reference) (s : Storage) : Prop :=
  ∀ i < if sourceLength m source s ≤ 31 then 31
      else 32 * bytePacking.words (sourceLength m source s),
    sourceLength m source s ≤ i → sourceByte m source s i = 0

lemma copyArrayToStorage_eq (fuel : ℕ) :
    copyArrayToStorage m .bytes .bytes source ref fuel s =
      if ¬ 31 < retrieveLength m .bytes source s then
        .ok () (clearStorageLoop .uint256
          (m.keccak256 ref + convertLengthToSize .bytes (retrieveStorageLength .bytes ref s))
          (m.keccak256 ref) (Function.update s ref (shortCopy m source
            (if source.location = .storage then source.position else sourceStart m source)
            (retrieveLength m .bytes source s) s)))
      else
        (copyLoop m .bytes .bytes source.location
          (sourceStart m source + sourceSize m source s) fuel
          ⟨sourceStart m source, m.keccak256 ref, 0, 0⟩
          (Function.update s ref (1 + (retrieveLength m .bytes source s +
            retrieveLength m .bytes source s)))).bind fun c s' =>
        .ok () (clearStorageLoop .uint256
          (m.keccak256 ref + convertLengthToSize .bytes (retrieveStorageLength .bytes ref s))
          c.targetPosition s') := by
  obtain ⟨location, position, length⟩ := source
  unfold copyArrayToStorage
  by_cases hshort : 31 < retrieveLength m .bytes ⟨location, position, length⟩ s
  · have hpos : retrieveLength m .bytes ⟨location, position, length⟩ s ≠ 0 := by
      intro hzero
      rw [hzero] at hshort
      exact absurd hshort (by decide)
    simp only [hshort, isByteArray_bytes, not_true, and_false, if_false, if_true, hpos]
    cases location <;> rfl
  · simp only [hshort, isByteArray_bytes, not_false_eq_true, and_self, if_true]
    cases location <;> rfl

/-- The storage after a copy: the slot of the array tells the length, the slots of the data are those
of the source, the other ones that were in use are cleared. -/
structure Copied (m : Machine) (ref : Word) (size : ℕ) (source : Reference) (s s' : Storage) :
    Prop where
  short : sourceLength m source s ≤ 31 →
    (∀ i < 31, byteOf (s' ref) i = (sourceByte m source s i).toNat) ∧
      byteOf (s' ref) 31 = 2 * sourceLength m source s
  long : 31 < sourceLength m source s → (s' ref).toNat = 2 * sourceLength m source s + 1
  data : ∀ i < 32 * size, item bytePacking (m.keccak256 ref) s' i =
    if 31 < sourceLength m source s ∧ i / 32 < bytePacking.words (sourceLength m source s) then
      (sourceByte m source s i).toNat
    else if i / 32 < bytePacking.words (retrieveStorageLength .bytes ref s).toNat then 0
    else item bytePacking (m.keccak256 ref) s i
  unchanged : Unchanged m ref size s s'

lemma byteOf_shortCopy (h : ValidSource m source s ref size)
    (hshort : sourceLength m source s ≤ 31) {i : ℕ} (hi : i < 32) :
    byteOf (shortCopy m source
        (if source.location = .storage then source.position else sourceStart m source)
        (retrieveLength m .bytes source s) s) i =
      if i = 31 then 2 * sourceLength m source s else (sourceByte m source s i).toNat := by
  unfold shortCopy
  by_cases hlocation : source.location = .storage
  · unfold ValidSource at h
    simp only [hlocation] at h
    have heven := h.1.mpr hshort
    have hlength : sourceLength m source s = (s source.position).toNat % 256 / 2 := by
      have hretrieve : retrieveLength m .bytes source s = byteArrayLength (s source.position) := by
        obtain ⟨location, position, length⟩ := source
        subst hlocation
        rfl
      rw [sourceLength, hretrieve, toNat_byteArrayLength, if_pos heven]
    rw [if_pos hlocation]
    split_ifs with h31
    · rw [h31, byteOf_last]
      omega
    · unfold sourceByte
      simp only [hlocation]
      rw [if_pos heven, toNat_ofNat_byteOf]
  · have hadd : retrieveLength m .bytes source s + retrieveLength m .bytes source s =
        .ofNat 256 (2 * sourceLength m source s) := by
      apply eq_of_toNat_eq
      rw [toNat_add, toNat_ofNat, sourceLength]
      omega
    rw [if_neg hlocation, if_neg hlocation, hadd, BitVec.and_comm, clearSuffix_last,
      byteOf_or_last hi (by omega) (by rw [byteOf_clearSuffix _ (by decide), if_neg (by decide)]),
      byteOf_clearSuffix _ hi]
    split_ifs with h31 hlt
    · rfl
    · rw [byteOf_load _ _ hi]
      unfold sourceByte sourceStart
      cases hl : source.location with
      | storage => exact absurd hl hlocation
      | callData => rfl
      | memory =>
        simp only
        rw [BitVec.add_comm 0x20]
        rfl
    · omega

theorem copyArrayToStorage_bytes (harea : HasArea m ref size)
    (hold : (retrieveStorageLength .bytes ref s).toNat ≤ 32 * size)
    (h : ValidSource m source s ref size) (hlength : sourceLength m source s ≤ 32 * size)
    (hfuel : size < fuel) :
    ∃ s', copyArrayToStorage m .bytes .bytes source ref fuel s = .ok () s' ∧
      Copied m ref size source s s' := by
  have hsize := harea.length_lt
  have hwords {k : ℕ} (hk : k ≤ 32 * size) : bytePacking.words k ≤ size :=
    bytePacking.words_le_iff.mpr (by rwa [Nat.mul_comm] at hk)
  have hlong : 31 < retrieveLength m .bytes source s ↔ 31 < sourceLength m source s :=
    lt_def
  rw [copyArrayToStorage_eq, convertLengthToSize_bytes hold hsize, if_congr (not_congr hlong) rfl rfl]
  by_cases h31 : 31 < sourceLength m source s
  · obtain ⟨c, s₂, hloop, hposition, hreplaced⟩ := copyLoop_bytes h harea hlength hfuel
      (1 + (retrieveLength m .bytes source s + retrieveLength m .bytes source s))
    rw [if_neg (not_not_intro h31), hloop, Result.bind_ok, hposition]
    refine ⟨_, rfl, fun hle => absurd h31 (by omega), fun _ => ?_, fun i hi => ?_,
      fun x hx hout => ?_⟩
    · rw [clearStorageLoop_of_outside _ harea.fits (hwords hlength) (hwords hold) harea.outside,
        hreplaced.outside _ harea.outside, update_self, toNat_add,
        toNat_add]
      change (1 + (sourceLength m source s + sourceLength m source s) % 2 ^ 256) % 2 ^ 256 = _
      omega
    · rw [item_clearStorageLoop _ harea.fits (hwords hlength) (hwords hold)
        (by rwa [Nat.mul_comm] at hi)]
      change (if bytePacking.words (sourceLength m source s) ≤ i / 32 ∧ i / 32 < _ then _ else _) = _
      have hitem := hreplaced.item_eq (i / 32) (by
        change i / 32 < size * 1
        omega)
      rw [item_uint256, item_uint256, area_update_of_outside harea.fits harea.outside
        (by omega)] at hitem
      by_cases hcopied : i / 32 < bytePacking.words (sourceLength m source s)
      · rw [if_pos hcopied, toNat_inj] at hitem
        rw [if_neg (by omega), if_pos ⟨h31, hcopied⟩, ← byteOf_sourceWord, ← hitem]
        · rfl
        · intro hlocation
          unfold ValidSource at h
          simp only [hlocation] at h
          exact mt h.1.mp (by omega)
      · rw [if_neg hcopied, toNat_inj] at hitem
        have hnot : ¬ (31 < sourceLength m source s ∧
            i / 32 < bytePacking.words (sourceLength m source s)) := fun hc => hcopied hc.2
        have hiff : bytePacking.words (sourceLength m source s) ≤ i / 32 ∧
            i / 32 < bytePacking.words (retrieveStorageLength .bytes ref s).toNat ↔
            i / 32 < bytePacking.words (retrieveStorageLength .bytes ref s).toNat :=
          and_iff_right (Nat.le_of_not_lt hcopied)
        rw [if_neg hnot, if_congr hiff rfl rfl, item_congr (p := bytePacking) hitem]
    · rw [clearStorageLoop_of_outside _ harea.fits (hwords hlength) (hwords hold) hout,
        hreplaced.outside _ hout, update_of_ne hx]
  · have hzero : m.keccak256 ref + BitVec.ofNat 256 0 = m.keccak256 ref := BitVec.add_zero _
    have hshort := Nat.le_of_not_lt h31
    have hupdate := fun y =>
      clearStorageLoop_of_area (s := s) harea.fits harea.outside .uint256 (Nat.zero_le size)
        (hwords hold) y
    have hitem := fun i (hi : i < 32 * size) => item_clearStorageLoop (s := s) bytePacking
      harea.fits (Nat.zero_le size) (hwords hold) (i := i) (by rwa [Nat.mul_comm] at hi)
    have hunchanged := Unchanged.clear (s := s) harea .uint256 (Nat.zero_le size) (hwords hold)
    rw [hzero] at hupdate hitem hunchanged
    rw [if_pos h31, hupdate]
    refine ⟨_, rfl, fun _ => ⟨fun i hi => ?_, ?_⟩, fun hlt => absurd hlt h31, fun i hi => ?_,
      hunchanged.trans (.update_ref _)⟩
    · rw [update_self, byteOf_shortCopy h hshort (by omega), if_neg (by omega)]
    · rw [update_self, byteOf_shortCopy h hshort (by decide), if_pos rfl]
    · have hnot : ¬ (31 < sourceLength m source s ∧
          i / 32 < bytePacking.words (sourceLength m source s)) := fun hc => h31 hc.1
      rw [item_update_of_outside harea.fits harea.outside (by rwa [Nat.mul_comm] at hi), hitem i hi,
        if_neg hnot]
      congr 1
      exact propext (and_iff_right (Nat.zero_le _))

lemma Copied.even_iff (h : Copied m ref size source s s') :
    (s' ref).toNat % 2 = 0 ↔ sourceLength m source s ≤ 31 := by
  by_cases hlong : 31 < sourceLength m source s
  · have := h.long hlong
    omega
  · have hlast := (h.short (by omega)).2
    rw [byteOf_last] at hlast
    omega

lemma Copied.length_eq (h : Copied m ref size source s s') :
    (retrieveStorageLength .bytes ref s').toNat = sourceLength m source s := by
  change (byteArrayLength (s' ref)).toNat = _
  have heven := h.even_iff
  rw [toNat_byteArrayLength]
  by_cases hlong : 31 < sourceLength m source s
  · have := h.long hlong
    rw [if_neg (by omega)]
    omega
  · have hlast := (h.short (by omega)).2
    rw [byteOf_last] at hlast
    rw [if_pos (by omega)]
    omega

lemma Copied.unchanged_of_outside (h : Copied m ref size source s s')
    (harea : HasArea m ref size)
    (hsize : size = max (bytePacking.words (sourceLength m source s))
      (bytePacking.words (retrieveStorageLength .bytes ref s).toNat)) {x : Word} (hx : x ≠ ref)
    (hout : Outside (m.keccak256 ref) (if sourceLength m source s ≤ 31 then
      bytePacking.words (retrieveStorageLength .bytes ref s).toNat else size) x) : s' x = s x := by
  by_cases hreached : Outside (m.keccak256 ref) size x
  · exact h.unchanged x hx hreached
  · split_ifs at hout with hshort
    · obtain ⟨j, hj, hge, rfl⟩ : ∃ j < size,
          bytePacking.words (retrieveStorageLength .bytes ref s).toNat ≤ j ∧
            x = m.keccak256 ref + .ofNat 256 j := by
        unfold Outside at hreached hout
        refine ⟨x.toNat - (m.keccak256 ref).toNat, by omega, by omega, ?_⟩
        rw [eq_add_ofNat_iff harea.fits (by omega)]
        omega
      refine eq_of_byteOf fun i hi => ?_
      have hdata := h.data (32 * j + i) (by omega)
      have hdiv : (32 * j + i) / 32 = j := by omega
      have hmod : (32 * j + i) % 32 = i := by omega
      rw [if_neg (fun hc => absurd hc.1 (by omega)), hdiv, if_neg (Nat.not_lt.mpr hge)] at hdata
      have hitem : ∀ t : Storage, item bytePacking (m.keccak256 ref) t (32 * j + i) =
          byteOf (t (m.keccak256 ref + .ofNat 256 j)) i := by
        intro t
        change byteOf (t (m.keccak256 ref + .ofNat 256 ((32 * j + i) / 32))) (32 * j + i) = _
        rw [← byteOf_mod, hmod, hdiv]
      rwa [hitem, hitem] at hdata
    · exact absurd hout hreached

/-- A source whose padding is zero. -/
theorem Copied.holds (h : HoldsBytes m ref size xs s) (hlength : sourceLength m source s ≤ 32 * size)
    (hpadding : ClearedPadding m source s) (hcopied : Copied m ref size source s s') :
    HoldsBytes m ref size (sourceBytes m source s) s' where
  length_le := by rwa [length_sourceBytes]
  short hshort := by
    rw [length_sourceBytes] at hshort ⊢
    obtain ⟨hbytes, hlast⟩ := hcopied.short hshort
    refine ⟨fun i hi => ?_, hlast⟩
    rw [hbytes i hi, byteAt_sourceBytes]
    split_ifs with hin
    · rfl
    · rw [hpadding i (by rwa [if_pos hshort]) (by omega)]
      rfl
  long hlong := by
    rw [length_sourceBytes] at hlong ⊢
    exact hcopied.long hlong
  data i hi := by
    have hrest : ¬ i / 32 < bytePacking.words (retrieveStorageLength .bytes ref s).toNat →
        item bytePacking (m.keccak256 ref) s i = 0 := by
      rw [h.length_eq]
      change ¬ i / 32 < (xs.length + 31) / 32 → _
      intro hge
      rw [h.data i hi]
      split_ifs
      · rfl
      · exact byteAt_of_length_le (by omega)
    rw [hcopied.data i hi, length_sourceBytes]
    by_cases h31 : 31 < sourceLength m source s
    · rw [if_neg (Nat.not_le.mpr h31), byteAt_sourceBytes]
      have hmem : i / 32 < bytePacking.words (sourceLength m source s) ↔
          i < 32 * bytePacking.words (sourceLength m source s) := by omega
      have hle : sourceLength m source s ≤ 32 * bytePacking.words (sourceLength m source s) := by
        change _ ≤ 32 * ((sourceLength m source s + 31) / 32)
        omega
      by_cases hword : i < 32 * bytePacking.words (sourceLength m source s)
      · rw [if_pos ⟨h31, hmem.mpr hword⟩]
        split_ifs with hin
        · rfl
        · rw [hpadding i (by rwa [if_neg (by omega)]) (by omega)]
          rfl
      · rw [if_neg (fun hc => hword (hmem.mp hc.2)), if_neg (show ¬ i < sourceLength m source s by omega)]
        split_ifs with hold
        · rfl
        · exact hrest hold
    · rw [if_neg (fun hc => h31 hc.1), if_pos (Nat.le_of_not_lt h31)]
      split_ifs with hold
      · rfl
      · exact hrest hold

end Polynomial
