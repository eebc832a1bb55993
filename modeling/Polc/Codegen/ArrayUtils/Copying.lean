import Polc.Codegen.ArrayUtils
import Polc.Codegen.LValue.Values

/-!
# Areas of storage and the loops that copy them

The slots that an array has for its elements, and the elements as the fields of these slots. What
the loops that clear slots leave, and how positions go from one element to the next.
-/

namespace Polynomial

open BitVec Function
open Sof (Word)
open Semantics

/-- The slots from a position on. -/
def area (position : Word) (s : Storage) (j : ℕ) : Word := s (position + .ofNat 256 j)

/-- That many slots do not go beyond the last slot. -/
def Fits (position : Word) (size : ℕ) : Prop := position.toNat + size < 2 ^ 256

/-- The slot is none of the area. -/
def Outside (position : Word) (size : ℕ) (x : Word) : Prop :=
  x.toNat < position.toNat ∨ position.toNat + size ≤ x.toNat

section

variable {p : Packing 256} {position x w : Word} {size i j k : ℕ} {s : Storage}

lemma Fits.mono (h : Fits position size) (hj : j ≤ size) : Fits position j := by
  unfold Fits at h ⊢
  omega

lemma toNat_add_ofNat (h : Fits position size) (hj : j ≤ size) :
    (position + .ofNat 256 j).toNat = position.toNat + j := by
  unfold Fits at h
  rw [toNat_add, toNat_ofNat, Nat.mod_eq_of_lt (show j < 2 ^ 256 by omega),
    Nat.mod_eq_of_lt (by omega)]

lemma eq_add_ofNat_iff (h : Fits position size) (hj : j ≤ size) :
    x = position + .ofNat 256 j ↔ x.toNat = position.toNat + j := by
  rw [← toNat_add_ofNat h hj]
  exact BitVec.toNat_inj.symm

lemma Outside.ne (h : Fits position size) (hx : Outside position size x) (hj : j < size) :
    position + .ofNat 256 j ≠ x := by
  rintro rfl
  unfold Outside at hx
  rw [toNat_add_ofNat h hj.le] at hx
  omega

lemma not_outside (h : Fits position size) (hj : j < size) :
    ¬ Outside position size (position + .ofNat 256 j) := fun hx => hx.ne h hj rfl

lemma area_update (h : Fits position size) (hj : j < size) (hk : k < size) :
    area position (Function.update s (position + .ofNat 256 k) w) j =
      Function.update (area position s) k w j := by
  unfold area
  rw [update_apply, update_apply]
  have hiff : position + BitVec.ofNat 256 j = position + .ofNat 256 k ↔ j = k := by
    rw [eq_add_ofNat_iff h hk.le, toNat_add_ofNat h hj.le]
    omega
  simp only [hiff]

lemma area_update_of_outside (h : Fits position size) (hx : Outside position size x)
    (hj : j < size) : area position (Function.update s x w) j = area position s j :=
  update_of_ne (hx.ne h hj) _ _

end

/-- The number in a field of the area. -/
def item (p : Packing 256) (position : Word) (s : Storage) (i : ℕ) : ℕ :=
  p.read (area position s) i

section

variable {p : Packing 256} {position x w : Word} {size i j k v : ℕ} {s s' : Storage}

lemma item_congr (h : area position s' (i / p.count) = area position s (i / p.count)) :
    item p position s' i = item p position s i := by
  unfold item Packing.read
  rw [h]

lemma item_lt (p : Packing 256) (position : Word) (s : Storage) (i : ℕ) :
    item p position s i < 2 ^ p.width := p.read_lt _ _

lemma item_update_of_outside (h : Fits position size) (hx : Outside position size x)
    (hi : i < size * p.count) : item p position (Function.update s x w) i = item p position s i :=
  item_congr (area_update_of_outside h hx (p.div_lt_iff.mpr hi))

lemma item_update (h : Fits position size) (hi : i < size * p.count) (hk : k < size) :
    item p position (Function.update s (position + .ofNat 256 k) w) i =
      if i / p.count = k then (p.field i).get w else item p position s i := by
  have hi' := p.div_lt_iff.mpr hi
  unfold item
  rw [← Packing.read_update]
  unfold Packing.read
  rw [area_update h hi' hk]

lemma item_set (h : Fits position size) (hi : i < size * p.count) (hk : k < size * p.count)
    (hv : v < 2 ^ p.width) :
    item p position (Function.update s (position + .ofNat 256 (k / p.count))
      ((p.field k).set (s (position + .ofNat 256 (k / p.count))) v)) i =
      if i = k then v else item p position s i := by
  have hi' := p.div_lt_iff.mpr hi
  have hk' := p.div_lt_iff.mpr hk
  have hset := p.read_set (area position s) (k := k) hv i
  unfold item
  rw [← hset]
  unfold Packing.read
  rw [area_update h hi' hk']
  rfl

end

namespace ArrayUtils

variable {type : ValueType} {position endPosition : Word} {s : Storage}

lemma toNat_one_add {endPosition position : Word} (h : position < endPosition) :
    (1 + position).toNat = position.toNat + 1 := by
  have := endPosition.isLt
  rw [lt_def] at h
  rw [toNat_add]
  change (1 + position.toNat) % 2 ^ 256 = _
  omega

/-- The loop clears the value at the start of each of the slots, and nothing else. -/
theorem clearStorageLoop_apply (type : ValueType) (endPosition position : Word) (s : Storage)
    (x : Word) :
    clearStorageLoop type endPosition position s x =
      if position.toNat ≤ x.toNat ∧ x.toNat < endPosition.toNat then
        (type.packing.field 0).set (s x) 0
      else s x := by
  induction position, s using clearStorageLoop.induct type endPosition with
  | case1 position s hlt ih =>
    have hoffset : (0 : Word).toNat = type.storageBytes * (0 % type.packing.count) := by
      rw [Nat.zero_mod, Nat.mul_zero]
      rfl
    have hzero := StorageItem.setToZero_eq position hoffset s
    rw [clearStorageLoop, if_pos hlt, ih, hzero, toNat_one_add hlt]
    rw [lt_def] at hlt
    by_cases hx : x = position
    · subst hx
      rw [if_neg (by omega), if_pos ⟨le_rfl, hlt⟩, update_self]
    · have hne : x.toNat ≠ position.toNat := fun h => hx (eq_of_toNat_eq h)
      rw [update_of_ne hx]
      congr 1
      exact propext (by omega)
  | case2 position s hlt =>
    rw [clearStorageLoop, if_neg hlt, if_neg]
    rw [lt_def] at hlt
    omega

end ArrayUtils

end Polynomial

/-!
## The loops that copy arrays

Where the copy loop is after a number of elements, and what it and the loop after it leave in the
target, whatever the elements are.
-/

namespace Polynomial

open BitVec ValueType Function
open Sof (Word)
open Semantics

namespace ArrayUtils

variable {m : Machine} {targetType sourceType : ArrayType} {location : DataLocation}

/-! ### Positions -/

/-- The slot and the byte offset of element `i` of values of the type. -/
def slotOf (type : ValueType) (position : Word) (i : ℕ) : Word :=
  position + .ofNat 256 (i / type.packing.count)

def offsetOf (type : ValueType) (i : ℕ) : Word :=
  .ofNat 256 (type.storageBytes * (i % type.packing.count))

variable (position : Word) (type : ValueType) (i : ℕ)

lemma toNat_offsetOf : (offsetOf type i).toNat = type.storageBytes * (i % type.packing.count) := by
  have hle := type.packing.offset_field_le i
  change 8 * (type.storageBytes * (i % type.packing.count)) + _ ≤ 256 at hle
  rw [offsetOf, toNat_ofNat, Nat.mod_eq_of_lt (by omega)]

lemma offsetOf_eq_zero_iff : offsetOf type i = 0 ↔ i % type.packing.count = 0 := by
  have hpos := type.storageBytes_bounds.1
  rw [← toNat_inj, toNat_offsetOf]
  change type.storageBytes * (i % type.packing.count) = 0 ↔ _
  rw [Nat.mul_eq_zero]
  exact or_iff_right hpos.ne'

lemma slotOf_zero (position : Word) : slotOf type position 0 = position := by
  rw [slotOf, Nat.zero_div]
  exact BitVec.add_zero position

lemma offsetOf_zero : offsetOf type 0 = 0 :=
  (offsetOf_eq_zero_iff type 0).mpr (Nat.zero_mod _)

lemma accessIndex_eq {type : ArrayType} {ref : Word} {s : Storage} (index : Word)
    (h : ¬ (type.isByteArray ∧ 1 &&& s ref = 0)) :
    accessIndex m type ref index s =
      (slotOf type.baseType (dataPosition m type ref) index.toNat,
        offsetOf type.baseType index.toNat) := by
  have hbounds := type.baseType.storageBytes_bounds
  unfold accessIndex
  rw [if_neg h]
  split_ifs with hbytes
  · have hcount := packing_count_of_le hbytes
    have hle : 32 / type.baseType.storageBytes ≤ 32 := Nat.div_le_self _ _
    have hitems : (BitVec.ofNat 256 (itemsPerSlot type)).toNat = type.baseType.packing.count := by
      rw [hcount, toNat_ofNat, itemsPerSlot, Nat.mod_eq_of_lt (by omega)]
    unfold slotOf offsetOf
    refine Prod.ext ?_ ?_
    · refine (BitVec.add_comm _ _).trans (congrArg _ ?_)
      apply eq_of_toNat_eq
      rw [toNat_udiv, hitems, toNat_ofNat,
        Nat.mod_eq_of_lt ((Nat.div_le_self _ _).trans_lt index.isLt)]
    · apply eq_of_toNat_eq
      rw [toNat_mul, toNat_umod, hitems, toNat_ofNat, toNat_ofNat,
        Nat.mod_mul_mod]
  · have hcount := packing_count_of_lt (Nat.lt_of_not_le hbytes)
    refine Prod.ext ?_ ?_
    · rw [slotOf, hcount, Nat.div_one, ofNat_toNat, setWidth_eq]
    · exact ((offsetOf_eq_zero_iff _ _).mpr (by rw [hcount, Nat.mod_one])).symm

lemma div_mod_succ {k : ℕ} (hk : 0 < k) :
    (i % k + 1 < k → (i + 1) / k = i / k ∧ (i + 1) % k = i % k + 1) ∧
      (¬ i % k + 1 < k → (i + 1) / k = i / k + 1 ∧ (i + 1) % k = 0) := by
  have hr : i % k < k := Nat.mod_lt _ hk
  have hdiv := Nat.div_add_mod i k
  constructor
  · intro hlt
    rw [← hdiv, Nat.add_assoc, Nat.mul_add_div hk, Nat.mul_add_mod, Nat.div_eq_of_lt hlt,
      Nat.mod_eq_of_lt hlt, hdiv]
    exact ⟨rfl, rfl⟩
  · intro hge
    have heq : i % k + 1 = k := by omega
    rw [← hdiv, Nat.add_assoc, heq, ← Nat.mul_succ, Nat.mul_div_cancel_left _ hk,
      Nat.mul_mod_right, hdiv]
    exact ⟨rfl, rfl⟩

lemma incrementByteOffset_eq {type : ValueType} (htype : type.storageBytes ≤ 16) (position : Word)
    (i : ℕ) :
    incrementByteOffset type.storageBytes (offsetOf type i) (slotOf type position i) =
      (offsetOf type (i + 1), slotOf type position (i + 1)) := by
  have hpos := type.storageBytes_bounds.1
  have hcount := packing_count_of_le htype
  have hr : i % type.packing.count < type.packing.count := Nat.mod_lt _ type.packing.count_pos
  have hle : type.storageBytes * type.packing.count ≤ 32 := by
    rw [hcount]
    exact Nat.mul_div_le 32 _
  have hlt : 32 < type.storageBytes * (type.packing.count + 1) := by
    rw [hcount]
    exact Nat.lt_mul_div_succ 32 hpos
  have hnext := Nat.mul_le_mul_left type.storageBytes hr
  rw [Nat.mul_succ] at hnext hlt
  obtain ⟨hinside, houtside⟩ := div_mod_succ i type.packing.count_pos
  have hoffset : (BitVec.ofNat 256 type.storageBytes + offsetOf type i).toNat =
      type.storageBytes * (i % type.packing.count + 1) := by
    rw [toNat_add, toNat_offsetOf, toNat_ofNat, Nat.mod_eq_of_lt (by omega),
      Nat.mod_eq_of_lt (by omega), Nat.mul_succ, Nat.add_comm]
  have hx : ((BitVec.ofNat 256 (type.storageBytes - 1) +
      (BitVec.ofNat 256 type.storageBytes + offsetOf type i)) / 32).toNat =
      (type.storageBytes - 1 + type.storageBytes * (i % type.packing.count + 1)) / 32 := by
    rw [toNat_udiv, toNat_add, hoffset, toNat_ofNat,
      Nat.mod_eq_of_lt (show type.storageBytes - 1 < 2 ^ 256 by omega),
      Nat.mod_eq_of_lt (by rw [Nat.mul_succ]; omega)]
    rfl
  by_cases h : i % type.packing.count + 1 < type.packing.count
  · have hfits := Nat.mul_le_mul_left type.storageBytes h
    rw [Nat.mul_succ] at hfits
    have hzero : (BitVec.ofNat 256 (type.storageBytes - 1) +
        (BitVec.ofNat 256 type.storageBytes + offsetOf type i)) / 32 = 0 := by
      apply eq_of_toNat_eq
      rw [hx]
      change _ = 0
      omega
    obtain ⟨hdiv, hmod⟩ := hinside h
    unfold incrementByteOffset
    simp only [hzero]
    refine Prod.ext ?_ ?_
    · apply eq_of_toNat_eq
      change (1#256 * (BitVec.ofNat 256 type.storageBytes + offsetOf type i)).toNat = _
      rw [BitVec.one_mul, hoffset, toNat_offsetOf, hmod]
    · rw [slotOf, slotOf, hdiv]
      exact BitVec.add_zero _
  · have heq : i % type.packing.count + 1 = type.packing.count := by omega
    have hone : (BitVec.ofNat 256 (type.storageBytes - 1) +
        (BitVec.ofNat 256 type.storageBytes + offsetOf type i)) / 32 = 1 := by
      apply eq_of_toNat_eq
      rw [hx, heq]
      change _ = 1
      omega
    obtain ⟨hdiv, hmod⟩ := houtside h
    unfold incrementByteOffset
    simp only [hone]
    refine Prod.ext ?_ ?_
    · rw [(offsetOf_eq_zero_iff type (i + 1)).mpr hmod]
      exact BitVec.zero_mul
    · rw [slotOf, slotOf, hdiv, ofNat_add, ← BitVec.add_assoc]
      rfl

/-! ### The copy loop -/

variable (targetType sourceType location)

/-- The type of the parts of the target between which the copy loop moves. -/
def targetStep : ValueType :=
  if haveByteOffsetTarget targetType sourceType location then targetType.copiedType else .uint256

/-- The same for a source in storage. -/
def sourceStep : ValueType :=
  if haveByteOffsetSource targetType sourceType location then sourceType.copiedType else .uint256

/-- Where the source is after `i` elements. -/
def sourceSlot (position : Word) (i : ℕ) : Word :=
  if location = .storage then slotOf (sourceStep targetType sourceType location) position i
  else position + .ofNat 256 (32 * i)

/-- Where the copy loop is after `i` elements. -/
def cursorAt (sourcePosition targetPosition : Word) (i : ℕ) : Cursor where
  sourcePosition := sourceSlot targetType sourceType location sourcePosition i
  targetPosition := slotOf (targetStep targetType sourceType location) targetPosition i
  sourceByteOffset :=
    if location = .storage then offsetOf (sourceStep targetType sourceType location) i else 0
  targetByteOffset := offsetOf (targetStep targetType sourceType location) i

variable {targetType sourceType location}

@[simp] lemma packing_uint256_count : ValueType.uint256.packing.count = 1 := rfl

lemma slotOf_uint256 : slotOf .uint256 position i = position + .ofNat 256 i := by
  rw [slotOf, packing_uint256_count, Nat.div_one]

lemma offsetOf_uint256 : offsetOf .uint256 i = 0 :=
  (offsetOf_eq_zero_iff _ i).mpr (by rw [packing_uint256_count, Nat.mod_one])

lemma item_uint256 (s : Storage) (i : ℕ) :
    item ValueType.uint256.packing position s i = (area position s i).toNat := by
  change (area position s (i / 1)).toNat / 2 ^ (8 * (32 * (i % 1))) % 2 ^ 256 = _
  rw [Nat.mod_one, Nat.div_one, Nat.mul_zero, pow_zero, Nat.div_one,
    Nat.mod_eq_of_lt (BitVec.isLt _)]

lemma one_add_slotOf_uint256 :
    1 + slotOf .uint256 position i = slotOf .uint256 position (i + 1) := by
  rw [slotOf_uint256, slotOf_uint256, ofNat_add, ← BitVec.add_assoc position]
  exact BitVec.add_comm _ _

lemma add_bytes : 32 + (position + .ofNat 256 (32 * i)) = position + .ofNat 256 (32 * (i + 1)) := by
  rw [Nat.mul_succ, ofNat_add, ← BitVec.add_assoc position]
  exact BitVec.add_comm _ _

lemma incrementTarget_eq {c : Cursor}
    (hposition : c.targetPosition = slotOf (targetStep targetType sourceType location) position i)
    (hoffset : c.targetByteOffset = offsetOf (targetStep targetType sourceType location) i) :
    incrementTarget targetType sourceType location c =
      { c with
        targetPosition := slotOf (targetStep targetType sourceType location) position (i + 1)
        targetByteOffset := offsetOf (targetStep targetType sourceType location) (i + 1) } := by
  unfold incrementTarget targetStep at *
  by_cases h : haveByteOffsetTarget targetType sourceType location = true
  · simp only [h, if_true] at hposition hoffset ⊢
    have htype : targetType.copiedType.storageBytes ≤ 16 := by
      simp only [haveByteOffsetTarget, Bool.and_eq_true, decide_eq_true_eq] at h
      exact h.2
    rw [hposition, hoffset, incrementByteOffset_eq htype]
  · simp only [h, if_false, Bool.false_eq_true] at hposition hoffset ⊢
    rw [hposition, one_add_slotOf_uint256, hoffset, offsetOf_uint256, offsetOf_uint256] 

lemma incrementSource_eq {c : Cursor}
    (hposition : c.sourcePosition = sourceSlot targetType sourceType location position i)
    (hoffset : c.sourceByteOffset =
      if location = .storage then offsetOf (sourceStep targetType sourceType location) i else 0) :
    incrementSource targetType sourceType location c =
      { c with
        sourcePosition := sourceSlot targetType sourceType location position (i + 1)
        sourceByteOffset := if location = .storage then
          offsetOf (sourceStep targetType sourceType location) (i + 1) else 0 } := by
  unfold incrementSource sourceSlot sourceStep at *
  by_cases h : haveByteOffsetSource targetType sourceType location = true
  · have hsource := h
    simp only [haveByteOffsetSource, Bool.and_eq_true, decide_eq_true_eq] at hsource
    obtain rfl : location = .storage := hsource.1.2
    simp only [h, if_true] at hposition hoffset ⊢
    rw [hposition, hoffset, incrementByteOffset_eq hsource.2]
  · simp only [h, if_false, Bool.false_eq_true] at hposition hoffset ⊢
    rw [hposition, hoffset]
    split_ifs
    · rw [one_add_slotOf_uint256, offsetOf_uint256, offsetOf_uint256]
    · rw [add_bytes]

lemma increment_cursorAt (sourcePosition targetPosition : Word) (i : ℕ) :
    incrementTarget targetType sourceType location (incrementSource targetType sourceType location
        (cursorAt targetType sourceType location sourcePosition targetPosition i)) =
      cursorAt targetType sourceType location sourcePosition targetPosition (i + 1) := by
  rw [incrementSource_eq sourcePosition i rfl rfl,
    incrementTarget_eq targetPosition i rfl rfl]
  rfl

/-- The state after `i` of the elements of an area were replaced. -/
structure Replaced (p : Packing 256) (position : Word) (size : ℕ) (content : ℕ → ℕ)
    (s : Storage) (i : ℕ) (s' : Storage) : Prop where
  item_eq : ∀ j < size * p.count,
    item p position s' j = if j < i then content j else item p position s j
  /-- A slot is as before if what was put in was there already. -/
  slot_eq : ∀ j < size, (∀ k < i, k / p.count = j → content k = item p position s k) →
    area position s' j = area position s j
  outside : ∀ x, Outside position size x → s' x = s x

namespace Replaced

variable {p : Packing 256} {position : Word} {size i : ℕ} {content : ℕ → ℕ} {s s' : Storage}

lemma zero : Replaced p position size content s 0 s :=
  ⟨fun _ _ => (if_neg (Nat.not_lt_zero _)).symm, fun _ _ _ => rfl, fun _ _ => rfl⟩

lemma succ (h : Replaced p position size content s i s') (hfits : Fits position size)
    (hi : i < size * p.count) (hcontent : content i < 2 ^ p.width) :
    Replaced p position size content s (i + 1)
      (Function.update s' (position + .ofNat 256 (i / p.count))
        ((p.field i).set (s' (position + .ofNat 256 (i / p.count))) (content i))) where
  item_eq j hj := by
    rw [item_set hfits hj hi hcontent, h.item_eq j hj]
    by_cases hji : j = i
    · rw [if_pos hji, if_pos (by omega), hji]
    · rw [if_neg hji]
      congr 1
      exact propext (by omega)
  slot_eq j hj hsame := by
    have hslot := h.slot_eq j hj fun k hk => hsame k (by omega)
    rw [area_update hfits hj (p.div_lt_iff.mpr hi)]
    by_cases hij : j = i / p.count
    · have hcurrent : content i = (p.field i).get (area position s' j) := by
        rw [hsame i (Nat.lt_succ_self i) hij.symm, hslot, hij]
        rfl
      rw [hij, update_self, hcurrent, hij]
      exact (Field.set_get _ _).trans (hij ▸ hslot)
    · rw [update_of_ne hij, hslot]
  outside x hx := by
    rw [update_of_ne (hx.ne hfits (p.div_lt_iff.mpr hi)).symm, h.outside x hx]

end Replaced

section

variable (p : Packing 256) {sourcePosition targetPosition sourceEnd : Word} {size total fuel : ℕ}
  {content : ℕ → ℕ} {s : Storage}

/-- The copy loop goes through the elements one after the other. -/
theorem copyLoop_states (state : ℕ → Storage)
    (hend : ∀ i ≤ total, sourceSlot targetType sourceType location sourcePosition i < sourceEnd ↔
      i < total)
    (hcopy : ∀ i < total,
      copyElement m targetType sourceType location
          (cursorAt targetType sourceType location sourcePosition targetPosition i) (state i) =
        .ok () (state (i + 1)))
    (hfuel : total < fuel) :
    copyLoop m targetType sourceType location sourceEnd fuel
        ⟨sourcePosition, targetPosition, 0, 0⟩ (state 0) =
      .ok (cursorAt targetType sourceType location sourcePosition targetPosition total)
        (state total) := by
  have hstart : (⟨sourcePosition, targetPosition, 0, 0⟩ : Cursor) =
      cursorAt targetType sourceType location sourcePosition targetPosition 0 := by
    unfold cursorAt sourceSlot
    simp only [slotOf_zero, offsetOf_zero, ite_self, Nat.mul_zero, Cursor.mk.injEq, and_true]
    split_ifs
    · rfl
    · exact (BitVec.add_zero _).symm
  rw [hstart]
  obtain ⟨c, s', hloop, rfl, rfl⟩ : ∃ c s',
      copyLoop m targetType sourceType location sourceEnd fuel
        (cursorAt targetType sourceType location sourcePosition targetPosition 0) (state 0) =
          .ok c s' ∧
      c = cursorAt targetType sourceType location sourcePosition targetPosition total ∧
      s' = state total := by
    refine loop_counts (I := fun i c s' =>
        c = cursorAt targetType sourceType location sourcePosition targetPosition i ∧
        s' = state i) ?_ ?_ fuel (Nat.zero_le _) (by omega) ⟨rfl, rfl⟩
    · rintro i c s' hi ⟨rfl, -⟩
      congr 1
      exact decide_eq_decide.mpr (hend i hi)
    · rintro i c s' hi ⟨rfl, rfl⟩
      refine ⟨_, _, _, _, ?_, rfl, increment_cursorAt _ _ _, rfl⟩
      simp only [hcopy i hi, Result.map_ok]
  exact hloop

/-- The storage after `i` elements were written that are read one after the other. -/
def written (position : Word) (read : ℕ → Storage → ℕ) (s : Storage) : ℕ → Storage
  | 0 => s
  | i + 1 =>
    Function.update (written position read s i) (position + .ofNat 256 (i / p.count))
      ((p.field i).set (written position read s i (position + .ofNat 256 (i / p.count)))
        (read i (written position read s i)))

lemma written_replaced (read : ℕ → Storage → ℕ) (hread : ∀ i s', read i s' < 2 ^ p.width)
    (hfits : Fits targetPosition size) {i : ℕ} (hi : i ≤ size * p.count) :
    Replaced p targetPosition size (fun k => read k (written p targetPosition read s k)) s i
      (written p targetPosition read s i) := by
  induction i with
  | zero => exact .zero
  | succ i ih => exact (ih (by omega)).succ hfits hi (hread i _)

/-- The copy loop replaces the elements one after the other. -/
theorem copyLoop_replaced
    (hfits : Fits targetPosition size) (htotal : total ≤ size * p.count)
    (hcontent : ∀ i, content i < 2 ^ p.width)
    (hend : ∀ i ≤ total, sourceSlot targetType sourceType location sourcePosition i < sourceEnd ↔
      i < total)
    (hcopy : ∀ i < total, ∀ s', Replaced p targetPosition size content s i s' →
      copyElement m targetType sourceType location
          (cursorAt targetType sourceType location sourcePosition targetPosition i) s' =
        .ok () (Function.update s' (targetPosition + .ofNat 256 (i / p.count))
          ((p.field i).set (s' (targetPosition + .ofNat 256 (i / p.count))) (content i))))
    (hfuel : total < fuel) :
    ∃ s', copyLoop m targetType sourceType location sourceEnd fuel
        ⟨sourcePosition, targetPosition, 0, 0⟩ s =
        .ok (cursorAt targetType sourceType location sourcePosition targetPosition total) s' ∧
      Replaced p targetPosition size content s total s' := by
  have hreplaced := fun i (hi : i ≤ size * p.count) =>
    written_replaced p (s := s) (fun i _ => content i) (fun i _ => hcontent i) hfits hi
  exact ⟨_, copyLoop_states (written p targetPosition (fun i _ => content i) s) hend
    (fun i hi => hcopy i hi _ (hreplaced i (by omega))) hfuel, hreplaced total htotal⟩

lemma Replaced.congr {content' : ℕ → ℕ} {i : ℕ} {s' : Storage}
    (h : Replaced p targetPosition size content s i s') (hcontent : ∀ j < i, content j = content' j) :
    Replaced p targetPosition size content' s i s' where
  item_eq j hj := by
    rw [h.item_eq j hj]
    split_ifs with hji
    · exact hcontent j hji
    · rfl
  slot_eq j hj hsame := h.slot_eq j hj fun k hk hkj => (hcontent k hk).trans (hsame k hk hkj)
  outside := h.outside

/-- After the cleanup the target is at the start of a slot, and the elements before it are those
that were copied and zeros. -/
theorem copyCleanup_replaced {t : ValueType} {s' : Storage} {c : Cursor}
    (ht : targetType.copiedType = t)
    (hhave : haveByteOffsetTarget targetType sourceType location ∨ t.packing.count = 1)
    (hfits : Fits targetPosition size) (htotal : t.packing.words total ≤ size)
    (hcontent : ∀ i, content i < 2 ^ t.packing.width)
    (hposition : c.targetPosition = slotOf t targetPosition total)
    (hoffset : c.targetByteOffset = offsetOf t total)
    (h : Replaced t.packing targetPosition size content s total s')
    (hfuel : t.packing.count < fuel) :
    ∃ c' s'',
      (if haveByteOffsetTarget targetType sourceType location then
        copyCleanupLoop targetType sourceType location fuel c s' else .ok c s') = .ok c' s'' ∧
      c'.targetPosition = targetPosition + .ofNat 256 (t.packing.words total) ∧
      Replaced t.packing targetPosition size (fun i => if i < total then content i else 0) s
        (t.packing.words total * t.packing.count) s'' := by
  have hle := t.packing.le_words_mul total
  have hstart : Replaced t.packing targetPosition size
      (fun i => if i < total then content i else 0) s total s' :=
    h.congr _ fun j hj => (if_pos hj).symm
  by_cases hoffsets : haveByteOffsetTarget targetType sourceType location = true
  · have hstep : targetStep targetType sourceType location = t := by
      rw [targetStep, if_pos hoffsets, ht]
    rw [if_pos hoffsets]
    obtain ⟨c', s'', hloop, ⟨-, hposition', -⟩, hreplaced⟩ : ∃ c' s'',
        copyCleanupLoop targetType sourceType location fuel c s' = .ok c' s'' ∧
        (total ≤ t.packing.words total * t.packing.count ∧
          c'.targetPosition =
            slotOf t targetPosition (t.packing.words total * t.packing.count) ∧
          c'.targetByteOffset = offsetOf t (t.packing.words total * t.packing.count)) ∧
        Replaced t.packing targetPosition size (fun i => if i < total then content i else 0) s
          (t.packing.words total * t.packing.count) s'' := by
      refine loop_counts (I := fun i (c' : Cursor) s'' =>
          (total ≤ i ∧ c'.targetPosition = slotOf t targetPosition i ∧
            c'.targetByteOffset = offsetOf t i) ∧
          Replaced t.packing targetPosition size (fun i => if i < total then content i else 0) s i
            s'') ?_ ?_ fuel hle ?_ ⟨⟨le_rfl, hposition, hoffset⟩, hstart⟩
      · rintro i c' s'' hi ⟨⟨hge, -, hoffset'⟩, -⟩
        rw [hoffset']
        congr 1
        refine decide_eq_decide.mpr ?_
        rw [ne_eq, offsetOf_eq_zero_iff, t.packing.mod_eq_zero_iff hge hi]
        omega
      · rintro i c' s'' hi ⟨⟨hge, hposition', hoffset'⟩, hreplaced⟩
        refine ⟨_, _, _, _, rfl, rfl, ?_, ?_⟩
        · rw [incrementTarget_eq targetPosition i (hstep ▸ hposition') (hstep ▸ hoffset'), hstep]
          exact ⟨hge.trans (Nat.le_succ i), rfl, rfl⟩
        · have hbound : i < size * t.packing.count :=
            hi.trans_le (Nat.mul_le_mul_right _ htotal)
          have hnext := hreplaced.succ hfits hbound (by
            split_ifs
            · exact hcontent i
            · exact Nat.two_pow_pos _)
          rw [if_neg (by omega)] at hnext
          rw [hposition', hoffset', ht,
            StorageItem.setToZero_eq _ (toNat_offsetOf t i)]
          exact hnext
      · have := t.packing.words_mul_lt total
        omega
    refine ⟨c', s'', hloop, ?_, hreplaced⟩
    rw [hposition', slotOf, Nat.mul_div_cancel _ t.packing.count_pos]
  · have hcount := hhave.resolve_left hoffsets
    have hwords : t.packing.words total = total := by
      rw [Packing.words, hcount, Nat.div_one, Nat.sub_self, Nat.add_zero]
    rw [if_neg hoffsets, hwords, hcount, Nat.mul_one]
    refine ⟨c, s', rfl, ?_, hstart⟩
    rw [hposition, slotOf, hcount, Nat.div_one]

end

end ArrayUtils

end Polynomial
