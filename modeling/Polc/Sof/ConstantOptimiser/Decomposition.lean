import Polc.Sof.Machine
import Polc.Semantics.BitVec
import Polc.Semantics.Bytes

/-!
# Decomposing constants

The constant optimisers of the assembly and of Yul both write a number as `a * 2 ^ k + b` where
the absolute value of `b` is small compared to `2 ^ k`, and then look for representations of `a`
and `b`. Both are smaller than the number, which is why the search ends.
-/

namespace Sof

open Semantics
open BitVec (eq_of_toNat_eq lt_def ofInt_natCast toNat_ofNat toNat_shiftLeft)

/-- A number as `upperPart * 2 ^ bits + lowerPart`. -/
structure Decomposition where
  upperPart : Word
  lowerPart : ℤ
  deriving DecidableEq, Repr

namespace Decomposition

/-- The absolute value of the lower part as a word. -/
def lowerWord (d : Decomposition) : Word := .ofNat 256 d.lowerPart.natAbs

/-- Split a number at a bit, rounding the upper part to the nearest. -/
def nearest (value : Word) (bits : ℕ) : Decomposition :=
  let powerOfTwo := (1 : Word) <<< bits
  let upperPart := value >>> bits
  let lowerPart : ℤ := (value &&& (powerOfTwo - 1)).toNat
  if powerOfTwo.toNat - lowerPart < lowerPart then
    ⟨upperPart + 1, lowerPart - powerOfTwo.toNat⟩
  else ⟨upperPart, lowerPart⟩

end Decomposition

/-- The nine bits around the split, which are `011111111` or `100000000` where the lower part is
small. -/
def gapDetector (value : Word) (bits : ℕ) : ℕ := (value >>> (bits - 8) &&& 0x1ff).toNat

/-- Decompose a number at a bit, unless that is not worthwhile. -/
def decompose (value : Word) (bits : ℕ) : Option Decomposition :=
  let d := Decomposition.nearest value bits
  if gapDetector value bits ≠ 0xff ∧ gapDetector value bits ≠ 0x100 then none
  else if d.upperPart = 0 then none
  else if (((1 : Word) <<< bits >>> 8).toNat : ℤ) ≤ |d.lowerPart| then none
  else some d

/-! ### The parts make up the number -/

section

variable {value : Word} {bits : ℕ} {d : Decomposition}

lemma toNat_one_shiftLeft_of_le (h : bits ≤ 255) : ((1 : Word) <<< bits).toNat = 2 ^ bits :=
  toNat_one_shiftLeft (Nat.lt_succ_of_le h)

lemma toNat_and_mask (h : bits ≤ 255) :
    (value &&& ((1 : Word) <<< bits - 1)).toNat = value.toNat % 2 ^ bits := by
  have hle : (1 : Word) ≤ (1 : Word) <<< bits := by
    rw [BitVec.le_def, toNat_one_shiftLeft_of_le h]
    exact Nat.one_le_two_pow
  have hmask : ((1 : Word) <<< bits - 1).toNat = 2 ^ bits - 1 := by
    rw [BitVec.toNat_sub_of_le hle, toNat_one_shiftLeft_of_le h]
    rfl
  rw [BitVec.toNat_and, hmask, Nat.and_two_pow_sub_one_eq_mod]

lemma nearest_cases (value : Word) (hbits : bits ≤ 255) :
    (Decomposition.nearest value bits = ⟨value >>> bits, (value.toNat % 2 ^ bits : ℕ)⟩ ∧
        2 * (value.toNat % 2 ^ bits) ≤ 2 ^ bits) ∨
      (Decomposition.nearest value bits =
          ⟨value >>> bits + 1, (value.toNat % 2 ^ bits : ℕ) - (2 ^ bits : ℕ)⟩ ∧
        2 ^ bits < 2 * (value.toNat % 2 ^ bits)) := by
  simp only [Decomposition.nearest, toNat_one_shiftLeft_of_le hbits, toNat_and_mask hbits]
  split_ifs with hround
  · exact .inr ⟨rfl, by omega⟩
  · exact .inl ⟨rfl, by omega⟩

lemma decompose_eq_some (h : decompose value bits = some d) :
    d = .nearest value bits ∧ d.upperPart ≠ 0 ∧
      |d.lowerPart| < ((1 : Word) <<< bits >>> 8).toNat := by
  simp only [decompose] at h
  split_ifs at h with hgap hzero hlarge
  cases h
  exact ⟨rfl, hzero, not_le.mp hlarge⟩

lemma toNat_shiftRight (value : Word) (bits : ℕ) :
    (value >>> bits).toNat = value.toNat / 2 ^ bits := by
  rw [BitVec.toNat_ushiftRight, Nat.shiftRight_eq_div_pow]

lemma bits_of_decompose (h : decompose value bits = some d) : 8 ≤ bits ∧ bits ≤ 255 := by
  obtain ⟨-, -, hsmall⟩ := decompose_eq_some h
  have hpos : 0 < ((1 : Word) <<< bits >>> 8).toNat :=
    Int.natCast_pos.mp ((abs_nonneg _).trans_lt hsmall)
  rw [toNat_shiftRight] at hpos
  have hlarge : 2 ^ 8 ≤ ((1 : Word) <<< bits).toNat := by
    by_contra hlt
    exact hpos.ne' (Nat.div_eq_of_lt (not_le.mp hlt))
  have hbits : bits ≤ 255 := by
    by_contra hlt
    rw [BitVec.shiftLeft_eq_zero (by omega)] at hlarge
    exact absurd hlarge (by decide)
  refine ⟨?_, hbits⟩
  rw [toNat_one_shiftLeft_of_le hbits] at hlarge
  exact (Nat.pow_le_pow_iff_right (by decide)).mp hlarge

lemma eq_zero_of_shiftRight {value : Word} {bits : ℕ} (h : value.toNat < 2 ^ bits) :
    value >>> bits = 0 := by
  apply eq_of_toNat_eq
  rw [toNat_shiftRight, Nat.div_eq_of_lt h]
  rfl

lemma upperPart_lt (h : decompose value bits = some d) : d.upperPart < value := by
  obtain ⟨hlow, hbits⟩ := bits_of_decompose h
  obtain ⟨rfl, hupper, -⟩ := decompose_eq_some h
  have hpow : 2 ^ 8 ≤ 2 ^ bits := Nat.pow_le_pow_right Nat.two_pos hlow
  have hdiv : value.toNat / 2 ^ bits ≤ value.toNat / 256 := Nat.div_le_div_left hpow (by decide)
  have hmod : value.toNat % 2 ^ bits ≤ value.toNat := Nat.mod_le _ _
  rcases nearest_cases value hbits with ⟨heq, -⟩ | ⟨heq, hround⟩
  · rw [heq] at hupper ⊢
    have hle : 2 ^ bits ≤ value.toNat :=
      not_lt.mp fun hlt => hupper (eq_zero_of_shiftRight hlt)
    rw [lt_def, toNat_shiftRight]
    omega
  · rw [heq, lt_def, BitVec.toNat_add, toNat_shiftRight]
    exact (Nat.mod_le _ _).trans_lt (show value.toNat / 2 ^ bits + 1 < value.toNat by omega)

lemma lowerWord_lt (h : decompose value bits = some d) : d.lowerWord < value := by
  have hbits := (bits_of_decompose h).2
  obtain ⟨rfl, hupper, hsmall⟩ := decompose_eq_some h
  have hsplit := Nat.div_add_mod value.toNat (2 ^ bits)
  rw [Decomposition.lowerWord, lt_def, toNat_ofNat]
  refine (Nat.mod_le _ _).trans_lt ?_
  rcases nearest_cases value hbits with ⟨heq, -⟩ | ⟨heq, hround⟩
  · rw [heq] at hupper ⊢
    have hle : 2 ^ bits ≤ value.toNat :=
      not_lt.mp fun hlt => hupper (eq_zero_of_shiftRight hlt)
    have hmod : value.toNat % 2 ^ bits < 2 ^ bits := Nat.mod_lt _ (Nat.two_pow_pos bits)
    rw [Int.natAbs_natCast]
    exact hmod.trans_le hle
  · -- The number is near the next multiple, and more than half of the power of two.
    rw [heq]
    have hmod : value.toNat % 2 ^ bits < 2 ^ bits := Nat.mod_lt _ (Nat.two_pow_pos bits)
    have hle : value.toNat % 2 ^ bits ≤ value.toNat := Nat.mod_le _ _
    simp only
    omega

lemma shiftLeft_add_one (w : Word) (bits : ℕ) :
    (w + 1) <<< bits = w <<< bits + BitVec.ofNat 256 (2 ^ bits) := by
  have hpow : BitVec.ofNat 256 (2 ^ bits) = 1#256 <<< bits := by
    apply eq_of_toNat_eq
    simp [toNat_shiftLeft, Nat.shiftLeft_eq]
  rw [hpow, ← mul_one_shiftLeft (w + 1), ← mul_one_shiftLeft w]
  exact add_one_mul w _

lemma shiftRight_shiftLeft_add (value : Word) (bits : ℕ) :
    (value >>> bits) <<< bits + BitVec.ofNat 256 (value.toNat % 2 ^ bits) = value := by
  apply eq_of_toNat_eq
  rw [BitVec.toNat_add, toNat_shiftLeft, toNat_shiftRight, toNat_ofNat,
    Nat.shiftLeft_eq, ← Nat.add_mod, Nat.div_add_mod', Nat.mod_eq_of_lt value.isLt]

lemma mul_ofNat_two_pow (w : Word) (bits : ℕ) : w * .ofNat 256 (2 ^ bits) = w <<< bits := by
  apply eq_of_toNat_eq
  rw [BitVec.toNat_mul, toNat_shiftLeft, toNat_ofNat, Nat.mul_mod_mod,
    Nat.shiftLeft_eq]

lemma shiftLeft_upperPart_add (h : decompose value bits = some d) :
    d.upperPart <<< bits + BitVec.ofInt 256 d.lowerPart = value := by
  have hbits := (bits_of_decompose h).2
  obtain ⟨rfl, -, -⟩ := decompose_eq_some h
  have hsplit := shiftRight_shiftLeft_add value bits
  rcases nearest_cases value hbits with ⟨heq, -⟩ | ⟨heq, -⟩
  · rw [heq]
    exact hsplit
  · have hlower : BitVec.ofInt 256 ((value.toNat % 2 ^ bits : ℕ) - (2 ^ bits : ℕ) : ℤ) =
        BitVec.ofNat 256 (value.toNat % 2 ^ bits) - BitVec.ofNat 256 (2 ^ bits) := by
      rw [sub_eq_add_neg, BitVec.ofInt_add, BitVec.ofInt_neg, ofInt_natCast,
        ofInt_natCast, sub_eq_add_neg]
    rw [heq, hlower, shiftLeft_add_one]
    exact (add_add_sub_cancel _ _ _).trans hsplit

namespace Decomposition

/-- Put the lower part to the shifted upper part, with the operation for its sign. -/
def combine (d : Decomposition) (shifted : Word) : Word :=
  if 0 < d.lowerPart then shifted + d.lowerWord
  else if d.lowerPart < 0 then shifted - d.lowerWord
  else shifted

lemma combine_eq (d : Decomposition) (shifted : Word) :
    d.combine shifted = shifted + BitVec.ofInt 256 d.lowerPart := by
  simp only [combine, lowerWord]
  split_ifs with hpos hneg
  · rw [← ofInt_natCast, Int.natAbs_of_nonneg hpos.le]
  · have hlower : d.lowerPart = -(d.lowerPart.natAbs : ℤ) := by omega
    rw [hlower, BitVec.ofInt_neg, ofInt_natCast, Int.natAbs_neg, Int.natAbs_natCast]
    exact sub_eq_add_neg _ _
  · have hzero : d.lowerPart = 0 := by omega
    rw [hzero]
    exact (add_zero shifted).symm

end Decomposition

lemma combine_upperPart (h : decompose value bits = some d) :
    d.combine (d.upperPart <<< bits) = value := by
  rw [Decomposition.combine_eq, shiftLeft_upperPart_add h]

end

lemma not_lt_of_bytesRequired {value : Word}
    (h : bytesRequired (~~~value).toNat < bytesRequired value.toNat) :
    ~~~value < value := by
  rw [lt_def]
  exact lt_of_not_ge fun hle => h.not_ge (bytesRequired_mono hle)

end Sof
