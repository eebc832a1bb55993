import Mathlib.Data.BitVec
import Mathlib.Data.Nat.Bitwise

/-!
# Fields of bit vectors

A field is a range of bits, and a packing divides bit vectors into numbered fields of one width. The
fields of a family of bit vectors are numbered through: what is read from one of them after another
one was written, or after bit vectors were replaced as a whole.
-/

namespace Semantics

open BitVec

structure Field where
  offset : ℕ
  width : ℕ

namespace Field

variable {n : ℕ} (f g : Field) (x : BitVec n)

/-- The number in the field. -/
def get : ℕ := x.toNat / 2 ^ f.offset % 2 ^ f.width

/-- Replace the bits of the field by a number that fits. -/
def set (v : ℕ) : BitVec n :=
  x &&& ~~~(BitVec.ofNat n (2 ^ f.width - 1) <<< f.offset) ||| BitVec.ofNat n v <<< f.offset

/-- The two fields have no bit in common. -/
def Apart : Prop := f.offset + f.width ≤ g.offset ∨ g.offset + g.width ≤ f.offset

lemma get_lt : f.get x < 2 ^ f.width := Nat.mod_lt _ (Nat.two_pow_pos _)

@[simp] lemma get_zero : f.get (0 : BitVec n) = 0 := by
  simp [get]

lemma testBit_get (i : ℕ) :
    (f.get x).testBit i = (decide (i < f.width) && x.getLsbD (f.offset + i)) := by
  rw [get, Nat.testBit_mod_two_pow, Nat.testBit_div_two_pow, BitVec.getLsbD,
    Nat.add_comm i]

lemma getLsbD_set {v : ℕ} (hv : v < 2 ^ f.width) {i : ℕ} (hi : i < n) :
    (f.set x v).getLsbD i =
      if f.offset ≤ i ∧ i < f.offset + f.width then v.testBit (i - f.offset)
      else x.getLsbD i := by
  unfold set
  simp only [getLsbD_or, getLsbD_and, getLsbD_not, getLsbD_shiftLeft,
    getLsbD_ofNat, Nat.testBit_two_pow_sub_one, hi, decide_true, Bool.true_and]
  have hsub : i - f.offset < n := by omega
  by_cases hle : f.offset ≤ i
  · by_cases hlt : i < f.offset + f.width
    · have hwidth : i - f.offset < f.width := by omega
      simp [hle, hlt, hsub, hwidth, Nat.not_lt.mpr hle]
    · have hwidth : ¬ i - f.offset < f.width := by omega
      have hbit : v.testBit (i - f.offset) = false :=
        Nat.testBit_lt_two_pow (hv.trans_le (Nat.pow_le_pow_right Nat.two_pos (by omega)))
      simp [hle, hlt, hsub, hwidth, hbit, Nat.not_lt.mpr hle]
  · simp [hle, Nat.lt_of_not_le hle]

theorem get_set (hf : f.offset + f.width ≤ n) {v : ℕ} (hv : v < 2 ^ f.width) :
    f.get (f.set x v) = v := by
  apply Nat.eq_of_testBit_eq
  intro i
  rw [testBit_get]
  by_cases hi : i < f.width
  · rw [getLsbD_set f x hv (by omega), if_pos ⟨Nat.le_add_right _ _, by omega⟩,
      Nat.add_sub_cancel_left, decide_eq_true hi, Bool.true_and]
  · rw [decide_eq_false hi, Bool.false_and, Nat.testBit_lt_two_pow
      (hv.trans_le (Nat.pow_le_pow_right Nat.two_pos (Nat.le_of_not_lt hi)))]

/-- The number that is there already. -/
theorem set_get : f.set x (f.get x) = x := by
  apply eq_of_getLsbD_eq
  intro i hi
  rw [getLsbD_set f x (f.get_lt x) hi]
  split_ifs with h
  · rw [testBit_get, decide_eq_true (by omega), Bool.true_and, Nat.add_sub_cancel' h.1]
  · rfl

theorem get_set_of_apart (hf : f.offset + f.width ≤ n) (h : f.Apart g) {v : ℕ}
    (hv : v < 2 ^ g.width) : f.get (g.set x v) = f.get x := by
  apply Nat.eq_of_testBit_eq
  intro i
  rw [testBit_get, testBit_get]
  by_cases hi : i < f.width
  · rw [getLsbD_set g x hv (by omega), if_neg]
    unfold Apart at h
    omega
  · rw [decide_eq_false hi, Bool.false_and, Bool.false_and]

end Field

/-! ### Packings -/

/-- Bit vectors of width `n` divided into fields. -/
structure Packing (n : ℕ) where
  count : ℕ
  width : ℕ
  offset : ℕ → ℕ
  count_pos : 0 < count
  offset_add_le : ∀ j < count, offset j + width ≤ n
  apart : ∀ i < count, ∀ j < count, i ≠ j →
    offset i + width ≤ offset j ∨ offset j + width ≤ offset i

namespace Packing

variable {n : ℕ} (p : Packing n) (s : ℕ → BitVec n)

def field (i : ℕ) : Field := ⟨p.offset (i % p.count), p.width⟩

/-- The number in field `i` of the bit vectors. -/
def read (i : ℕ) : ℕ := (p.field i).get (s (i / p.count))

/-- The number of bit vectors that `i` fields take. -/
def words (i : ℕ) : ℕ := (i + (p.count - 1)) / p.count

lemma offset_field_le (i : ℕ) : (p.field i).offset + p.width ≤ n :=
  p.offset_add_le _ (Nat.mod_lt _ p.count_pos)

lemma field_apart {i j : ℕ} (h : i % p.count ≠ j % p.count) :
    (p.field i).Apart (p.field j) :=
  p.apart _ (Nat.mod_lt _ p.count_pos) _ (Nat.mod_lt _ p.count_pos) h

lemma read_lt (i : ℕ) : p.read s i < 2 ^ p.width := Field.get_lt _ _

lemma read_update (k : ℕ) (x : BitVec n) (i : ℕ) :
    p.read (Function.update s k x) i =
      if i / p.count = k then (p.field i).get x else p.read s i := by
  unfold read
  rw [Function.update_apply]
  split_ifs <;> rfl

theorem read_set {k : ℕ} {v : ℕ} (hv : v < 2 ^ p.width) (i : ℕ) :
    p.read (Function.update s (k / p.count) ((p.field k).set (s (k / p.count)) v)) i =
      if i = k then v else p.read s i := by
  rw [read_update]
  by_cases hik : i = k
  · subst hik
    rw [if_pos rfl, if_pos rfl, Field.get_set _ _ (p.offset_field_le i) hv]
  · rw [if_neg hik]
    split_ifs with hdiv
    · have hmod : i % p.count ≠ k % p.count := by
        intro hmod
        apply hik
        rw [← Nat.div_add_mod i p.count, ← Nat.div_add_mod k p.count, hdiv, hmod]
      rw [Field.get_set_of_apart _ _ _ (p.offset_field_le i) (p.field_apart hmod) hv, read, hdiv]
    · rfl

lemma words_le_iff {i k : ℕ} : p.words i ≤ k ↔ i ≤ k * p.count := by
  have := p.count_pos
  unfold words
  rw [Nat.div_le_iff_le_mul_add_pred this, Nat.mul_comm]
  omega

lemma lt_words_iff {i k : ℕ} : k < p.words i ↔ k * p.count < i := by
  rw [← Nat.not_le, words_le_iff, Nat.not_le]

lemma le_words_mul (i : ℕ) : i ≤ p.words i * p.count := p.words_le_iff.mp le_rfl

lemma words_mul_lt (i : ℕ) : p.words i * p.count < i + p.count := by
  have hpos := p.count_pos
  cases hk : p.words i with
  | zero =>
    rw [Nat.zero_mul]
    omega
  | succ k =>
    have hlt : k * p.count < i := p.lt_words_iff.mp (by omega)
    rw [Nat.succ_mul]
    omega

lemma words_mono {i j : ℕ} (h : i ≤ j) : p.words i ≤ p.words j :=
  p.words_le_iff.mpr (h.trans (p.le_words_mul j))

/-- From `i` on, the first number that fills bit vectors is the one after its last bit vector. -/
lemma mod_eq_zero_iff {i j : ℕ} (hi : i ≤ j) (hj : j ≤ p.words i * p.count) :
    j % p.count = 0 ↔ j = p.words i * p.count := by
  constructor
  · intro hmod
    have hdiv : j / p.count * p.count = j := Nat.div_mul_cancel (Nat.dvd_of_mod_eq_zero hmod)
    have hle : p.words i ≤ j / p.count := p.words_le_iff.mpr (hdiv.symm ▸ hi)
    exact Nat.le_antisymm hj ((Nat.mul_le_mul_right _ hle).trans hdiv.le)
  · rintro rfl
    exact Nat.mul_mod_left _ _

lemma words_mul (k : ℕ) : p.words (k * p.count) = k :=
  Nat.le_antisymm (p.words_le_iff.mpr le_rfl)
    (Nat.le_of_mul_le_mul_right (p.le_words_mul _) p.count_pos)

lemma div_lt_iff {i k : ℕ} : i / p.count < k ↔ i < k * p.count :=
  Nat.div_lt_iff_lt_mul p.count_pos

end Packing

end Semantics
