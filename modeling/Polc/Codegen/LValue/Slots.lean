import Polc.Codegen.LValue
import Polc.Semantics.Fields

/-!
# The parts of a slot

Values of one type that share a slot, and the bytes of a slot, as packings. The code for storage
items reads and writes the fields of these packings.
-/

namespace Polynomial

open BitVec
open Sof (Word Byte)
open Semantics CompilerUtils

namespace ValueType

variable (t : ValueType)

lemma storageBytes_bounds : 0 < t.storageBytes ∧ t.storageBytes ≤ 32 := by
  cases t with
  | integer t =>
    have := t.valid
    simp only [storageBytes]
    omega
  | fixedBytes t => exact t.valid
  | enum t =>
    have := t.valid
    unfold storageBytes
    simp only
    split_ifs with h
    · decide
    · refine ⟨?_, bytesRequired_le (by omega)⟩
      unfold bytesRequired
      rw [if_neg (by omega)]
      exact Nat.succ_pos _
  | function t =>
    unfold storageBytes
    simp only
    split_ifs <;> decide
  | _ => exact ⟨Nat.succ_pos _, by simp [storageBytes]⟩

/-- The bits of a slot that a value takes from the given byte on. -/
def partAt (offset : Word) : Field := ⟨8 * offset.toNat, 8 * t.storageBytes⟩

/-- How values of the type share a slot. -/
def packing : Packing 256 where
  count := if t.storageBytes ≤ 16 then 32 / t.storageBytes else 1
  width := 8 * t.storageBytes
  offset j := 8 * (t.storageBytes * j)
  count_pos := by
    have := t.storageBytes_bounds
    split_ifs
    · exact Nat.div_pos (by omega) this.1
    · exact Nat.one_pos
  offset_add_le j hj := by
    have := t.storageBytes_bounds
    split_ifs at hj
    · have hle : t.storageBytes * (j + 1) ≤ 32 :=
        (Nat.mul_le_mul_left _ hj).trans (Nat.mul_div_le _ _)
      rw [Nat.mul_succ] at hle
      omega
    · rw [Nat.lt_one_iff.mp hj, Nat.mul_zero]
      omega
  apart i hi j hj hij := by
    rcases Nat.lt_or_gt_of_ne hij with hlt | hlt
    · have := Nat.mul_le_mul_left t.storageBytes hlt
      rw [Nat.mul_succ] at this
      omega
    · have := Nat.mul_le_mul_left t.storageBytes hlt
      rw [Nat.mul_succ] at this
      omega

end ValueType

lemma thirtyTwo_pos : 0 < 32 := by decide

/-- The bytes of a slot, the most significant one first. -/
def bytePacking : Packing 256 where
  count := 32
  width := 8
  offset j := 8 * (31 - j)
  count_pos := thirtyTwo_pos
  offset_add_le j hj := by omega
  apart i hi j hj hij := by omega

/-! ### Fields as words -/

lemma mul_ofNat_two_pow (x : Word) (k : ℕ) : x * .ofNat 256 (2 ^ k) = x <<< k := by
  apply eq_of_toNat_eq
  rw [toNat_mul, toNat_ofNat, toNat_shiftLeft, Nat.shiftLeft_eq,
    Nat.mul_mod_mod]

lemma multiplier_eq (offset : Word) :
    StorageItem.multiplier offset = .ofNat 256 (2 ^ (8 * offset.toNat)) := by
  rw [StorageItem.multiplier, Nat.pow_mul]
  rfl

lemma set_eq_or (f : Field) (x w : Word) {v : ℕ} (hw : w = .ofNat 256 v) :
    w <<< f.offset ||| (~~~(mask f.width <<< f.offset) &&& x) = f.set x v := by
  rw [Field.set, hw, mask, BitVec.or_comm, BitVec.and_comm]

lemma set_whole {n : ℕ} (f : Field) (hoffset : f.offset = 0) (hwidth : f.width = n) (x : BitVec n)
    (v : ℕ) : f.set x v = .ofNat n v := by
  have hones : BitVec.ofNat n (2 ^ n - 1) = .allOnes n := by
    apply eq_of_toNat_eq
    rw [toNat_ofNat, toNat_allOnes,
      Nat.mod_eq_of_lt (Nat.sub_lt (Nat.two_pow_pos n) Nat.one_pos)]
  rw [Field.set, hoffset, hwidth, hones, shiftLeft_zero, shiftLeft_zero,
    not_allOnes, and_zero, zero_or]

namespace ValueType

variable {t : ValueType}

lemma packing_count_of_le (h : t.storageBytes ≤ 16) : t.packing.count = 32 / t.storageBytes :=
  if_pos h

lemma packing_count_of_lt (h : 16 < t.storageBytes) : t.packing.count = 1 :=
  if_neg (Nat.not_le.mpr h)

lemma set_field_of_storageBytes (h : t.storageBytes = 32) (i : ℕ) (x : Word) (v : ℕ) :
    (t.packing.field i).set x v = .ofNat 256 v := by
  refine set_whole _ ?_ ?_ x v
  · change 8 * (t.storageBytes * (i % t.packing.count)) = 0
    rw [packing_count_of_lt (by omega), Nat.mod_one, Nat.mul_zero]
  · change 8 * t.storageBytes = 256
    rw [h]

end ValueType

namespace StorageItem

variable {t : ValueType} {offset : Word} {i : ℕ}

lemma field_packing (hoffset : offset.toNat = t.storageBytes * (i % t.packing.count)) :
    t.packing.field i = t.partAt offset := by
  rw [ValueType.partAt, hoffset]
  rfl

lemma offset_add_storageBytes_le
    (hoffset : offset.toNat = t.storageBytes * (i % t.packing.count)) :
    offset.toNat + t.storageBytes ≤ 32 := by
  have hle : 8 * (t.storageBytes * (i % t.packing.count)) + 8 * t.storageBytes ≤ 256 :=
    t.packing.offset_field_le i
  omega

lemma clearedValue_eq (t : ValueType) (offset x : Word) :
    clearedValue t offset x = (t.partAt offset).set x 0 := by
  have h := set_eq_or (t.partAt offset) x (0#256) rfl
  rw [zero_shiftLeft, zero_or] at h
  rw [clearedValue, multiplier_eq, mul_ofNat_two_pow]
  exact h

lemma updatedValue_eq (t : ValueType) (offset x : Word) {w : Word} {v : ℕ} (hw : w = .ofNat 256 v) :
    w * multiplier offset ||| clearedValue t offset x = (t.partAt offset).set x v := by
  rw [clearedValue, multiplier_eq, mul_ofNat_two_pow, mul_ofNat_two_pow]
  exact set_eq_or (t.partAt offset) x w hw

lemma set_partAt_of_storageBytes (h : t.storageBytes = 32)
    (hoffset : offset.toNat + t.storageBytes ≤ 32) (x : Word) (v : ℕ) :
    (t.partAt offset).set x v = .ofNat 256 v :=
  set_whole _ (show 8 * offset.toNat = 0 by omega) (show 8 * t.storageBytes = 256 by omega) x v

lemma setToZero_partAt (key : Word) (hoffset : offset.toNat + t.storageBytes ≤ 32) (s : Storage) :
    setToZero t key offset s = Function.update s key ((t.partAt offset).set (s key) 0) := by
  unfold setToZero
  split_ifs with h
  · rw [set_partAt_of_storageBytes h hoffset]
    rfl
  · rw [clearedValue_eq]

theorem setToZero_eq (key : Word)
    (hoffset : offset.toNat = t.storageBytes * (i % t.packing.count)) (s : Storage) :
    setToZero t key offset s = Function.update s key ((t.packing.field i).set (s key) 0) := by
  rw [setToZero_partAt key (offset_add_storageBytes_le hoffset), field_packing hoffset]

lemma toNat_div_multiplier (hoffset : offset.toNat + t.storageBytes ≤ 32) (x : Word) :
    (x / multiplier offset).toNat = x.toNat / 2 ^ (t.partAt offset).offset := by
  have hpos := t.storageBytes_bounds.1
  rw [multiplier_eq, toNat_udiv, toNat_ofNat]
  change x.toNat / (2 ^ (8 * offset.toNat) % 2 ^ 256) = _
  rw [Nat.mod_eq_of_lt (Nat.pow_lt_pow_right Nat.one_lt_two (by omega))]
  rfl

end StorageItem

namespace StorageByteArrayElement

variable {byteNumber : Word} {i : ℕ}

theorem storeValue_eq (hbyte : byteNumber.toNat = i % 32) (value key : Word) (s : Storage) :
    storeValue value key byteNumber s = Function.update s key
      ((bytePacking.field i).set (s key) (value.toNat / 2 ^ 248)) := by
  have hlt : i % 32 < 32 := Nat.mod_lt _ (by decide)
  have hsub : (31 - byteNumber).toNat = 31 - i % 32 := by
    rw [toNat_sub, hbyte]
    change (2 ^ 256 - i % 32 + 31) % 2 ^ 256 = _
    rw [show 2 ^ 256 - i % 32 + 31 = 31 - i % 32 + 2 ^ 256 by omega, Nat.add_mod_right,
      Nat.mod_eq_of_lt (by omega)]
  have hvalue : value / BitVec.ofNat 256 (2 ^ 248) = .ofNat 256 (value.toNat / 2 ^ 248) := by
    apply eq_of_toNat_eq
    rw [toNat_udiv, toNat_ofNat, toNat_ofNat,
      Nat.mod_eq_of_lt ((Nat.div_le_self _ _).trans_lt value.isLt)]
    rfl
  unfold storeValue
  simp only
  rw [multiplier_eq, hsub, mul_ofNat_two_pow, mul_ofNat_two_pow]
  exact congrArg _ (set_eq_or (bytePacking.field i) (s key) _ hvalue)

theorem retrieveValue_eq (hbyte : byteNumber.toNat = i % 32) (key : Word) (s : Storage) :
    retrieveValue key byteNumber s = .ofNat 256 ((bytePacking.field i).get (s key) * 2 ^ 248) := by
  have hlt : i % 32 < 32 := Nat.mod_lt _ (by decide)
  unfold retrieveValue Sof.Word.byteAt
  rw [hbyte, if_neg (by omega)]
  apply eq_of_toNat_eq
  rw [toNat_mul, toNat_setWidth, Sof.Word.byte, toNat_setWidth,
    toNat_ushiftRight, Nat.shiftRight_eq_div_pow, toNat_ofNat, toNat_ofNat,
    Nat.mul_comm, Nat.mul_mod_mod, Nat.mod_mul_mod]
  rfl

end StorageByteArrayElement

end Polynomial

/-!
## The bytes of a slot

What the masks, shifts and additions on the slots of byte arrays do to the single bytes.
-/

namespace Polynomial

open BitVec
open Sof (Word Byte)
open Semantics CompilerUtils

/-- Byte `i` of a slot, counted from the most significant one. -/
def byteOf (x : Word) (i : ℕ) : ℕ := (bytePacking.field i).get x

lemma testBit_byteOf (x : Word) {i b : ℕ} (hi : i < 32) (hb : b < 8) :
    (byteOf x i).testBit b = x.getLsbD (8 * (31 - i) + b) := by
  rw [byteOf, Field.testBit_get]
  change (decide (b < 8) && x.getLsbD (8 * (31 - i % 32) + b)) = _
  rw [decide_eq_true hb, Bool.true_and, Nat.mod_eq_of_lt hi]

lemma byteOf_mod (x : Word) (i : ℕ) : byteOf x (i % 32) = byteOf x i := by
  change x.toNat / 2 ^ (8 * (31 - i % 32 % 32)) % 2 ^ 8 = _
  rw [Nat.mod_mod]
  rfl

lemma byteOf_lt (x : Word) (i : ℕ) : byteOf x i < 2 ^ 8 := Field.get_lt _ _

lemma byteOf_ext {x : Word} {i n : ℕ} (hi : i < 32) (hn : n < 2 ^ 8)
    (h : ∀ b < 8, x.getLsbD (8 * (31 - i) + b) = n.testBit b) : byteOf x i = n := by
  apply Nat.eq_of_testBit_eq
  intro b
  by_cases hb : b < 8
  · rw [testBit_byteOf x hi hb, h b hb]
  · have hpow : 2 ^ 8 ≤ 2 ^ b := Nat.pow_le_pow_right Nat.two_pos (by omega)
    rw [Nat.testBit_lt_two_pow ((byteOf_lt x i).trans_le hpow),
      Nat.testBit_lt_two_pow (hn.trans_le hpow)]

lemma eq_of_byteOf {x y : Word} (h : ∀ i < 32, byteOf x i = byteOf y i) : x = y := by
  apply eq_of_getLsbD_eq
  intro k hk
  have hbyte := h (31 - k / 8) (by omega)
  have hbit : ∀ z : Word, (byteOf z (31 - k / 8)).testBit (k % 8) = z.getLsbD k := by
    intro z
    rw [testBit_byteOf z (by omega) (Nat.mod_lt _ (by decide))]
    congr 1
    omega
  rw [← hbit, ← hbit, hbyte]

lemma getLsbD_foldl_bytes (f : ℕ → Byte) {n i b : ℕ} (hn : n ≤ 32) (hi : i < n) (hb : b < 8) :
    ((List.range n).foldl (fun (w : Word) i => w <<< 8 ||| (f i).setWidth 256) (0 : Word)).getLsbD
      (8 * (n - 1 - i) + b) = (f i).getLsbD b := by
  induction n generalizing i with
  | zero => exact absurd hi (Nat.not_lt_zero i)
  | succ n ih =>
    rw [List.range_succ, List.foldl_append, List.foldl_cons, List.foldl_nil, getLsbD_or,
      getLsbD_shiftLeft, getLsbD_setWidth]
    rcases Nat.lt_succ_iff_lt_or_eq.mp hi with hlt | rfl
    · have hsub : 8 * (n + 1 - 1 - i) + b - 8 = 8 * (n - 1 - i) + b := by omega
      have hlow : (f n).getLsbD (8 * (n + 1 - 1 - i) + b) = false :=
        getLsbD_of_ge _ _ (by omega)
      rw [hsub, ih (by omega) hlt, hlow, Bool.and_false, Bool.or_false,
        decide_eq_true (show 8 * (n + 1 - 1 - i) + b < 256 by omega),
        decide_eq_false (show ¬ 8 * (n + 1 - 1 - i) + b < 8 by omega)]
      rfl
    · have hzero : 8 * (i + 1 - 1 - i) + b = b := by omega
      rw [hzero, decide_eq_true hb, decide_eq_true (show b < 256 by omega)]
      simp

lemma byteOf_wordOfBytes (f : ℕ → Byte) {i : ℕ} (hi : i < 32) :
    byteOf (Sof.wordOfBytes f) i = (f i).toNat := by
  refine byteOf_ext hi (f i).isLt fun b hb => ?_
  exact getLsbD_foldl_bytes f (n := 32) le_rfl hi hb

/-- The slot without its bytes from the given one on. -/
def clearSuffix (start : ℕ) (x : Word) : Word := ~~~(mask (8 * (32 - start))) &&& x

lemma byteOf_clearSuffix {start i : ℕ} (x : Word) (hi : i < 32) :
    byteOf (clearSuffix start x) i = if i < start then byteOf x i else 0 := by
  refine byteOf_ext hi ?_ fun b hb => ?_
  · split_ifs
    · exact byteOf_lt x i
    · exact Nat.two_pow_pos 8
  · rw [clearSuffix, getLsbD_and, getLsbD_not, mask, getLsbD_ofNat,
      Nat.testBit_two_pow_sub_one]
    have hlt : 8 * (31 - i) + b < 256 := by omega
    rw [decide_eq_true hlt, Bool.true_and, Bool.true_and]
    split_ifs with hstart
    · rw [testBit_byteOf x hi hb, decide_eq_false (by omega)]
      simp
    · rw [decide_eq_true (by omega)]
      simp

lemma byteOf_or_last {x : Word} {n i : ℕ} (hi : i < 32) (hn : n < 2 ^ 8)
    (hx : byteOf x 31 = 0) :
    byteOf (BitVec.ofNat 256 n ||| x) i = if i = 31 then n else byteOf x i := by
  refine byteOf_ext hi ?_ fun b hb => ?_
  · split_ifs
    · exact hn
    · exact byteOf_lt x i
  · have hlt : 8 * (31 - i) + b < 256 := by omega
    rw [getLsbD_or, getLsbD_ofNat, decide_eq_true hlt, Bool.true_and]
    split_ifs with h31
    · subst h31
      have hbit := testBit_byteOf x (i := 31) (by decide) hb
      rw [hx, Nat.zero_testBit] at hbit
      rw [← hbit, Bool.or_false]
      congr 1
      omega
    · rw [testBit_byteOf x hi hb, Nat.testBit_lt_two_pow
        (hn.trans_le (Nat.pow_le_pow_right Nat.two_pos (by omega))), Bool.false_or]

lemma byteOf_last (x : Word) : byteOf x 31 = x.toNat % 256 := by
  change x.toNat / 2 ^ 0 % 2 ^ 8 = _
  rw [pow_zero, Nat.div_one]
  rfl

lemma byteOf_add {x : Word} {n i : ℕ} (hi : i < 31) (hn : x.toNat % 256 + n < 256) :
    byteOf (x + .ofNat 256 n) i = byteOf x i := by
  have hx := x.isLt
  have hadd : (x + BitVec.ofNat 256 n).toNat = x.toNat + n := by
    rw [toNat_add, toNat_ofNat, Nat.add_mod_mod, Nat.mod_eq_of_lt (by omega)]
  change _ / 2 ^ (8 * (31 - i % 32)) % 2 ^ 8 = _ / 2 ^ (8 * (31 - i % 32)) % 2 ^ 8
  obtain ⟨k, hk⟩ : ∃ k, 8 * (31 - i % 32) = 8 + k := ⟨8 * (30 - i % 32), by omega⟩
  rw [hadd, hk, pow_add, ← Nat.div_div_eq_div_mul, ← Nat.div_div_eq_div_mul,
    show (x.toNat + n) / 2 ^ 8 = x.toNat / 2 ^ 8 by omega]

end Polynomial
