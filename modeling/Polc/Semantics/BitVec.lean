import Mathlib.Data.BitVec

/-!
# Shifts and masks of bit vectors

Identities that hold at every width: two shifts in opposite directions are one shift and a
mask, a division by a power of two is a shift, a remainder by one is a mask.
-/

namespace Semantics

open BitVec

variable {w : Nat} {a b i : Nat}

lemma shiftLeft_ushiftRight_of_le (h : b ≤ a) (x : BitVec w) :
    (x <<< a) >>> b = x <<< (a - b) &&& (BitVec.allOnes w <<< a) >>> b := by
  apply eq_of_getLsbD_eq
  intro i hi
  simp only [getLsbD_ushiftRight, getLsbD_shiftLeft, getLsbD_and,
    getLsbD_allOnes]
  by_cases ha : b + i < a
  · simp [ha]
  · have hk : i - (a - b) = b + i - a := by omega
    by_cases hw : b + i < w
    · have h₁ : ¬ i < a - b := by omega
      have h₂ : b + i - a < w := by omega
      simp [hw, ha, hi, hk, h₁, h₂, -getLsbD_eq_getElem]
    · simp [hw]

lemma shiftLeft_ushiftRight_of_ge (h : a ≤ b) (x : BitVec w) :
    (x <<< a) >>> b = x >>> (b - a) &&& (BitVec.allOnes w <<< a) >>> b := by
  apply eq_of_getLsbD_eq
  intro i _
  simp only [getLsbD_ushiftRight, getLsbD_shiftLeft, getLsbD_and,
    getLsbD_allOnes]
  have hk : b - a + i = b + i - a := by omega
  by_cases hw : b + i < w
  · have hk' : b + i - a < w := by omega
    simp [hw, hk, hk', Bool.and_comm, -getLsbD_eq_getElem]
  · simp [hw]

lemma ushiftRight_shiftLeft_of_le (h : b ≤ a) (x : BitVec w) :
    (x >>> a) <<< b = x >>> (a - b) &&& (BitVec.allOnes w >>> a) <<< b := by
  apply eq_of_getLsbD_eq
  intro i hi
  simp only [getLsbD_ushiftRight, getLsbD_shiftLeft, getLsbD_and,
    getLsbD_allOnes]
  by_cases hb : i < b
  · simp [hb]
  · have hi' : a - b + i = a + (i - b) := by omega
    by_cases hw : a + (i - b) < w
    · simp [hi, hb, hw, hi']
    · simp [hi, hb, hw, getLsbD_of_ge x _ (by omega : w ≤ a + (i - b))]

lemma ushiftRight_shiftLeft_of_ge (h : a ≤ b) (x : BitVec w) :
    (x >>> a) <<< b = x <<< (b - a) &&& (BitVec.allOnes w >>> a) <<< b := by
  apply eq_of_getLsbD_eq
  intro i hi
  simp only [getLsbD_ushiftRight, getLsbD_shiftLeft, getLsbD_and,
    getLsbD_allOnes]
  by_cases hb : i < b
  · simp [hb]
  · have hi' : i - (b - a) = a + (i - b) := by omega
    by_cases hw : a + (i - b) < w
    · simp [hi, hb, hw, hi']; omega
    · simp [hi, hb, hw, getLsbD_of_ge x _ (by omega : w ≤ a + (i - b))]

lemma and_ushiftRight_of_covers {m x : BitVec w}
    (h : m &&& BitVec.allOnes w >>> b = BitVec.allOnes w >>> b) : m &&& x >>> b = x >>> b := by
  have hx : x >>> b = BitVec.allOnes w >>> b &&& x >>> b := by
    rw [← ushiftRight_and_distrib, allOnes_and]
  rw [hx, ← BitVec.and_assoc, h]

lemma toNat_one_shiftLeft (h : i < w) : (1#w <<< i).toNat = 2 ^ i := by
  rw [toNat_shiftLeft, toNat_ofNat, Nat.shiftLeft_eq,
    Nat.mod_eq_of_lt (Nat.one_lt_two_pow (by omega)), Nat.one_mul,
    Nat.mod_eq_of_lt (Nat.pow_lt_pow_right Nat.one_lt_two h)]

lemma toNat_one_shiftLeft_sub_one (h : i < w) : (1#w <<< i - 1#w).toNat = 2 ^ i - 1 := by
  have hw : 1 < 2 ^ w := Nat.one_lt_two_pow (by omega)
  have hi : 2 ^ i < 2 ^ w := Nat.pow_lt_pow_right Nat.one_lt_two h
  have hpos : 0 < 2 ^ i := Nat.two_pow_pos i
  rw [toNat_sub, toNat_one_shiftLeft h, toNat_ofNat, Nat.mod_eq_of_lt hw,
    show 2 ^ w - 1 + 2 ^ i = 2 ^ i - 1 + 2 ^ w by omega, Nat.add_mod_right,
    Nat.mod_eq_of_lt (by omega)]

lemma umod_one_shiftLeft (h : i < w) (x : BitVec w) :
    x % (1#w <<< i) = x &&& (1#w <<< i - 1#w) := by
  apply eq_of_toNat_eq
  rw [toNat_umod, toNat_and, toNat_one_shiftLeft h, toNat_one_shiftLeft_sub_one h,
    Nat.and_two_pow_sub_one_eq_mod]

lemma udiv_one_shiftLeft (x : BitVec w) (i : Nat) : x / (1#w <<< i) = x >>> i := by
  by_cases h : i < w
  · apply eq_of_toNat_eq
    rw [toNat_udiv, toNat_one_shiftLeft h, toNat_ushiftRight,
      Nat.shiftRight_eq_div_pow]
  · rw [shiftLeft_eq_zero (by omega), ushiftRight_eq_zero (by omega),
      udiv_zero]

lemma mul_one_shiftLeft (x : BitVec w) (i : Nat) : x * (1#w <<< i) = x <<< i := by
  rw [shiftLeft_eq_mul_twoPow x, twoPow_eq]

lemma getLsbD_one_shiftLeft_sub_one (h : i < w) (k : Nat) :
    (1#w <<< i - 1#w).getLsbD k = decide (k < i) := by
  rw [BitVec.getLsbD, toNat_one_shiftLeft_sub_one h, Nat.testBit_two_pow_sub_one]

/-- Sign extension from bit `i` on, by a test of that bit and a mask of the ones below. -/
lemma signExtend_setWidth_succ (h : i < w) (x : BitVec w) :
    (x.setWidth (i + 1)).signExtend w =
      if x.getLsbD i then x ||| ~~~(1#w <<< i - 1#w) else x &&& (1#w <<< i - 1#w) := by
  apply eq_of_getLsbD_eq
  intro k hk
  rw [getLsbD_signExtend, msb_setWidth, getLsbD_setWidth]
  have hm := getLsbD_one_shiftLeft_sub_one h k
  rcases Nat.lt_trichotomy k i with hki | rfl | hki
  · cases hx : x.getLsbD i <;> simp [hk, hm, hki, Nat.lt_succ_of_lt hki]
  · cases hx : x.getLsbD k <;> simp [hk, hm, hx, -getLsbD_eq_getElem]
  · have hn : ¬ k < i + 1 := by omega
    cases hx : x.getLsbD i <;> simp [hk, hm, hx, hn, Nat.lt_asymm hki, -getLsbD_eq_getElem]

end Semantics
