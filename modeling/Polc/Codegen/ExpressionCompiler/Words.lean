import Polc.Codegen.ExpressionCompiler.Semantics
import Mathlib.Data.Int.ModEq
import Mathlib.Tactic.Positivity

/-!
# Integers as words

A word stands for the value of an integer type that it wraps to. A clean word is the two's
complement of that value in all its bits.
-/

namespace Polynomial

open BitVec
open Sof (Word)

/-! ### Wrapping -/

namespace IntegerType

variable (t : IntegerType)

/-- The number of values of the type. -/
abbrev modulus : ℤ := (2 ^ t.numBits : ℕ)

lemma modulus_eq : t.modulus = 2 ^ t.numBits := by
  rw [modulus]
  push_cast
  rfl

lemma modulus_pos : 0 < t.modulus := Int.natCast_pos.mpr (Nat.two_pow_pos _)

lemma modulus_dvd : t.modulus ∣ ((2 ^ 256 : ℕ) : ℤ) :=
  Int.natCast_dvd_natCast.mpr (pow_dvd_pow 2 t.valid.2.1)

lemma wrap_modEq (n : ℤ) : t.wrap n ≡ n [ZMOD t.modulus] := by
  unfold wrap
  split_ifs
  · exact Int.bmod_emod
  · exact Int.mod_modEq n _

variable {t}

lemma wrap_congr {a b : ℤ} (h : a ≡ b [ZMOD t.modulus]) : t.wrap a = t.wrap b := by
  unfold wrap
  split_ifs
  · rw [← Int.emod_bmod a, h, Int.emod_bmod]
  · exact h

lemma wrap_congr_word {a b : ℤ} (h : a ≡ b [ZMOD (2 ^ 256 : ℕ)]) : t.wrap a = t.wrap b :=
  wrap_congr (h.of_dvd t.modulus_dvd)

@[simp] lemma wrap_wrap (n : ℤ) : t.wrap (t.wrap n) = t.wrap n := wrap_congr (t.wrap_modEq n)

lemma two_mul_pow_pred (t : IntegerType) : 2 * (2 : ℤ) ^ (t.numBits - 1) = t.modulus := by
  rw [modulus_eq, ← pow_succ', Nat.sub_add_cancel t.valid.1]

lemma wrap_of_inRange {n : ℤ} (h : t.minValue ≤ n ∧ n ≤ t.maxValue) : t.wrap n = n := by
  have hpow := t.two_mul_pow_pred
  have hmodulus := t.modulus_eq
  simp only [minValue, maxValue] at h
  unfold wrap
  split_ifs at h ⊢
  · apply Int.bmod_eq_of_le
    · change -(t.modulus / 2) ≤ n
      omega
    · change n < (t.modulus + 1) / 2
      omega
  · exact Int.emod_eq_of_lt h.1 (by change n < t.modulus; omega)

lemma wrap_inRange (n : ℤ) : t.minValue ≤ t.wrap n ∧ t.wrap n ≤ t.maxValue := by
  have hpow := t.two_mul_pow_pred
  have hmodulus := t.modulus_eq
  have hpos : 0 < 2 ^ t.numBits := Nat.two_pow_pos _
  simp only [minValue, maxValue]
  unfold wrap
  split_ifs
  · have hlow := Int.le_bmod (x := n) hpos
    have hhigh := Int.bmod_lt (x := n) hpos
    change -(t.modulus / 2) ≤ _ at hlow
    change _ < (t.modulus + 1) / 2 at hhigh
    omega
  · have hlow := Int.emod_nonneg n t.modulus_pos.ne'
    have hhigh := Int.emod_lt_of_pos n t.modulus_pos
    change 0 ≤ n % t.modulus ∧ n % t.modulus ≤ _
    rw [← modulus_eq]
    exact ⟨hlow, Int.le_sub_one_of_lt hhigh⟩

lemma wrap_eq_self_iff {n : ℤ} : t.wrap n = n ↔ t.minValue ≤ n ∧ n ≤ t.maxValue := by
  constructor
  · intro h
    rw [← h]
    exact wrap_inRange n
  · exact wrap_of_inRange

lemma inRange_of_fits {n : ℤ} (h : t.fits n) : t.minValue ≤ n ∧ n ≤ t.maxValue := by
  unfold fits at h
  split_ifs at h
  exact of_decide_eq_true h

lemma wrap_of_fits {n : ℤ} (h : t.fits n) : t.wrap n = n :=
  wrap_of_inRange (inRange_of_fits h)

lemma wrap_eq_ofBits (n : ℤ) : t.wrap n = t.ofBits (.ofInt t.numBits n) := by
  unfold wrap ofBits
  split_ifs
  · rw [toInt_ofInt]
  · rw [toNat_ofInt, Int.toNat_of_nonneg]
    exact Int.emod_nonneg _ (by positivity)

/-- A wider type has the values of the narrower ones that convert to it implicitly. -/
lemma inRange_of_implicit {s : IntegerType}
    (h : s.isImplicitlyConvertibleTo t) {n : ℤ} (hn : s.minValue ≤ n ∧ n ≤ s.maxValue) :
    t.minValue ≤ n ∧ n ≤ t.maxValue := by
  unfold isImplicitlyConvertibleTo at h
  have hs := s.valid.1
  simp only [minValue, maxValue] at hn ⊢
  have hle : ∀ {a b : ℕ}, a ≤ b → (2 : ℤ) ^ a ≤ 2 ^ b := fun h => pow_le_pow_right₀ (by norm_num) h
  split_ifs at h with hbits hsigned
  · have hwide := hle (show s.numBits - 1 ≤ t.numBits - 1 by omega)
    rw [if_pos hsigned, if_pos hsigned] at hn
    rw [if_pos h, if_pos h]
    omega
  · rw [if_neg hsigned, if_neg hsigned] at hn
    cases ht : t.isSigned with
    | true =>
      have hlt : s.numBits < t.numBits := by simpa [ht] using h
      have hwide := hle (show s.numBits ≤ t.numBits - 1 by omega)
      simp only [if_true]
      omega
    | false =>
      have hwide := hle (show s.numBits ≤ t.numBits by omega)
      simp only [Bool.false_eq_true, if_false]
      omega

end IntegerType

lemma toNat_ofInt_modEq (n : ℤ) : ((BitVec.ofInt 256 n).toNat : ℤ) ≡ n [ZMOD (2 ^ 256 : ℕ)] := by
  rw [toNat_ofInt, Int.toNat_of_nonneg (Int.emod_nonneg _ (by norm_num))]
  exact Int.mod_modEq _ _

lemma ofInt_toNat (w : Word) : BitVec.ofInt 256 (w.toNat : ℤ) = w := by
  rw [ofInt_natCast, ofNat_toNat, setWidth_eq]

lemma toInt_modEq_toNat (w : Word) : w.toInt ≡ w.toNat [ZMOD (2 ^ 256 : ℕ)] := by
  rw [toInt_eq_toNat_bmod]
  exact Int.bmod_emod

namespace IntegerType

variable {t : IntegerType}

lemma wrap_toNat_ofInt (n : ℤ) : t.wrap (BitVec.ofInt 256 n).toNat = t.wrap n :=
  wrap_congr_word (toNat_ofInt_modEq n)

lemma wrap_toInt (w : Word) : t.wrap w.toInt = t.wrap w.toNat :=
  wrap_congr_word (toInt_modEq_toNat w)

lemma wrap_toNat_eq_ofBits (w : Word) : t.wrap w.toNat = t.ofBits (w.setWidth t.numBits) := by
  rw [wrap_eq_ofBits, ofInt_natCast, ofNat_toNat]

lemma toNat_of_clean {w : Word} {v : ℤ} (hv : t.minValue ≤ v ∧ v ≤ t.maxValue)
    (hw : w = .ofInt 256 v) (ht : t.isSigned = false) : (w.toNat : ℤ) = v := by
  have hle : (2 : ℤ) ^ t.numBits ≤ 2 ^ 256 := pow_le_pow_right₀ (by norm_num) t.valid.2.1
  simp only [minValue, maxValue, ht, Bool.false_eq_true, if_false] at hv
  rw [hw, toNat_ofInt, Int.toNat_of_nonneg (Int.emod_nonneg _ (by norm_num))]
  exact Int.emod_eq_of_lt hv.1 (by push_cast; omega)

lemma toInt_of_clean {w : Word} {v : ℤ} (hv : t.minValue ≤ v ∧ v ≤ t.maxValue)
    (hw : w = .ofInt 256 v) (ht : t.isSigned) : w.toInt = v := by
  have hle : (2 : ℤ) ^ (t.numBits - 1) ≤ 2 ^ (256 - 1) :=
    pow_le_pow_right₀ (by norm_num) (by have := t.valid; omega)
  simp only [minValue, maxValue, ht, if_true] at hv
  rw [hw]
  exact toInt_ofInt_eq_self (by norm_num) (by omega) (by omega)

end IntegerType

end Polynomial
