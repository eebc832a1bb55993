import Mathlib.Data.Int.Bitwise
import Mathlib.Tactic.FieldSimp
import Mathlib.Tactic.Ring

/-!
# Sizes of integers and fractions

How many bits the absolute value of an integer takes after an operation on its bits, and numerator
and denominator of a fraction that need not be in lowest terms.
-/

namespace Semantics

open Bool

/-! ### Operations on the bits of integers -/

section

variable {w : ℕ} {m n : ℤ}

lemma natAbs_negSucc_lt_iff {k : ℕ} : (Int.negSucc k).natAbs < 2 ^ w ↔ k + 1 < 2 ^ w := by
  rw [Int.natAbs_negSucc]

lemma ldiff_le (k l : ℕ) : Nat.ldiff k l ≤ k := by
  apply Nat.le_of_testBit
  intro i hi
  rw [Nat.testBit_ldiff, and_eq_true] at hi
  exact hi.1

lemma natAbs_lor_lt (hm : m.natAbs < 2 ^ w) (hn : n.natAbs < 2 ^ w) :
    (Int.lor m n).natAbs < 2 ^ w := by
  rcases m with k | k <;> rcases n with l | l
  · exact Nat.or_lt_two_pow hm hn
  · rw [natAbs_negSucc_lt_iff] at hn
    refine lt_of_le_of_lt ?_ hn
    exact Nat.succ_le_succ (ldiff_le l k)
  · rw [natAbs_negSucc_lt_iff] at hm
    refine lt_of_le_of_lt ?_ hm
    exact Nat.succ_le_succ (ldiff_le k l)
  · rw [natAbs_negSucc_lt_iff] at hm
    refine lt_of_le_of_lt ?_ hm
    exact Nat.succ_le_succ Nat.and_le_left

/-- Two numbers below a power of two that differ in every bit add up to its predecessor. -/
lemma xor_eq_two_pow_sub_one_iff {k l : ℕ} (hk : k < 2 ^ w) :
    k ^^^ l = 2 ^ w - 1 ↔ k + l + 1 = 2 ^ w := by
  have hcompl : ∀ x < 2 ^ w, x ^^^ (2 ^ w - 1) = 2 ^ w - 1 - x := by
    intro x hx
    apply Nat.eq_of_testBit_eq
    intro i
    have hsub : 2 ^ w - 1 - x = 2 ^ w - (x + 1) := by omega
    rw [hsub, Nat.testBit_two_pow_sub_succ hx, Nat.testBit_xor, Nat.testBit_two_pow_sub_one]
    by_cases hi : i < w
    · simp [hi]
    · have hzero : x.testBit i = false :=
        Nat.testBit_lt_two_pow (hx.trans_le (Nat.pow_le_pow_right (by decide) (not_lt.mp hi)))
      simp [hi, hzero]
  have hiff : k ^^^ l = 2 ^ w - 1 ↔ l = k ^^^ (2 ^ w - 1) := by
    constructor
    · intro h
      rw [← h, ← Nat.xor_assoc, Nat.xor_self, Nat.zero_xor]
    · intro h
      rw [h, ← Nat.xor_assoc, Nat.xor_self, Nat.zero_xor]
  rw [hiff, hcompl k hk]
  omega

/-- Exclusive or of numbers of opposite signs that are a power of two apart is its negation. -/
lemma natAbs_xor_lt_iff (hm : m.natAbs < 2 ^ w) (hn : n.natAbs < 2 ^ w) :
    (Int.xor m n).natAbs < 2 ^ w ↔ (m - n).natAbs ≠ 2 ^ w := by
  have hmixed : ∀ {k l : ℕ}, k < 2 ^ w → l + 1 < 2 ^ w →
      ((Int.negSucc (k ^^^ l)).natAbs < 2 ^ w ↔ k + l + 1 ≠ 2 ^ w) := by
    intro k l hk hl
    have hlt : k ^^^ l < 2 ^ w := Nat.xor_lt_two_pow hk (by omega)
    have hiff := xor_eq_two_pow_sub_one_iff (l := l) hk
    rw [natAbs_negSucc_lt_iff, Ne, ← hiff]
    omega
  rcases m with k | k <;> rcases n with l | l
  · refine iff_of_true (Nat.xor_lt_two_pow hm hn) ?_
    simp only [Int.ofNat_eq_natCast, Int.natAbs_natCast] at hm hn ⊢
    omega
  · rw [natAbs_negSucc_lt_iff] at hn
    have hsub : (Int.ofNat k - Int.negSucc l).natAbs = k + l + 1 := by
      rw [Int.ofNat_eq_natCast, Int.negSucc_eq]
      omega
    rw [hsub]
    exact hmixed hm hn
  · rw [natAbs_negSucc_lt_iff] at hm
    have hsub : (Int.negSucc k - Int.ofNat l).natAbs = l + k + 1 := by
      rw [Int.ofNat_eq_natCast, Int.negSucc_eq]
      omega
    have hxor : Int.xor (Int.negSucc k) (Int.ofNat l) = Int.negSucc (l ^^^ k) := by
      rw [Nat.xor_comm]
      rfl
    rw [hsub, hxor]
    exact hmixed hn hm
  · rw [natAbs_negSucc_lt_iff] at hm hn
    refine iff_of_true (Nat.xor_lt_two_pow (by omega) (by omega)) ?_
    rw [Int.negSucc_eq, Int.negSucc_eq]
    omega

lemma natAbs_xor_lt_succ (hm : m.natAbs < 2 ^ w) (hn : n.natAbs < 2 ^ w) :
    (Int.xor m n).natAbs < 2 ^ (w + 1) := by
  have hpow : 2 ^ w < 2 ^ (w + 1) := Nat.pow_lt_pow_succ (by decide)
  rw [natAbs_xor_lt_iff (hm.trans hpow) (hn.trans hpow)]
  rw [pow_succ]
  omega

/-- Two negative numbers without a common bit. -/
def NoCommonBit (w : ℕ) (m n : ℤ) : Prop :=
  m < 0 ∧ n < 0 ∧ ∀ i < w, ¬ (m.testBit i = true ∧ n.testBit i = true)

instance : Decidable (NoCommonBit w m n) := inferInstanceAs (Decidable (_ ∧ _ ∧ _))

lemma or_eq_two_pow_sub_one_iff {k l : ℕ} (hk : k < 2 ^ w) (hl : l < 2 ^ w) :
    k ||| l = 2 ^ w - 1 ↔ ∀ i < w, k.testBit i ∨ l.testBit i := by
  constructor
  · intro h i hi
    have hbit := congrArg (Nat.testBit · i) h
    rw [Nat.testBit_or, Nat.testBit_two_pow_sub_one, decide_eq_true hi, or_eq_true] at hbit
    exact hbit
  · intro h
    apply Nat.eq_of_testBit_eq
    intro i
    rw [Nat.testBit_two_pow_sub_one]
    by_cases hi : i < w
    · rw [Nat.testBit_or, decide_eq_true hi, or_eq_true]
      exact h i hi
    · rw [decide_eq_false hi]
      exact Nat.testBit_lt_two_pow
        ((Nat.or_lt_two_pow hk hl).trans_le (Nat.pow_le_pow_right (by decide) (not_lt.mp hi)))

/-- The conjunction of negative numbers without a common bit is the negation of a power of two. -/
lemma natAbs_land_lt_iff (hm : m.natAbs < 2 ^ w) (hn : n.natAbs < 2 ^ w) :
    (Int.land m n).natAbs < 2 ^ w ↔ ¬ NoCommonBit w m n := by
  rcases m with k | k <;> rcases n with l | l
  · exact iff_of_true (Nat.and_lt_two_pow _ hn) fun h => absurd h.1 (Int.not_lt.mpr (Int.natCast_nonneg k))
  · exact iff_of_true ((ldiff_le k l).trans_lt hm) fun h =>
      absurd h.1 (Int.not_lt.mpr (Int.natCast_nonneg k))
  · exact iff_of_true ((ldiff_le l k).trans_lt hn) fun h =>
      absurd h.2.1 (Int.not_lt.mpr (Int.natCast_nonneg l))
  · rw [natAbs_negSucc_lt_iff] at hm hn
    have hk : k < 2 ^ w := by omega
    have hl : l < 2 ^ w := by omega
    have hcommon : NoCommonBit w (Int.negSucc k) (Int.negSucc l) ↔ k ||| l = 2 ^ w - 1 := by
      rw [or_eq_two_pow_sub_one_iff hk hl, NoCommonBit, and_iff_right (Int.negSucc_lt_zero k),
        and_iff_right (Int.negSucc_lt_zero l)]
      refine forall₂_congr fun i _ => ?_
      rw [Int.testBit, Int.testBit, not_eq_true', not_eq_true', not_and_or,
        not_eq_false, not_eq_false]
    have hlt : k ||| l < 2 ^ w := Nat.or_lt_two_pow hk hl
    rw [hcommon]
    show (k ||| l) + 1 < 2 ^ w ↔ _
    omega

lemma natAbs_land_lt_succ (hm : m.natAbs < 2 ^ w) (hn : n.natAbs < 2 ^ w) :
    (Int.land m n).natAbs < 2 ^ (w + 1) := by
  have hpow : 2 ^ w < 2 ^ (w + 1) := Nat.pow_lt_pow_succ (by decide)
  have htop : ∀ x : ℤ, x.natAbs < 2 ^ w → x < 0 → x.testBit w = true := by
    intro x hx hneg
    obtain ⟨k, rfl⟩ := Int.eq_negSucc_of_lt_zero hneg
    rw [natAbs_negSucc_lt_iff] at hx
    rw [Int.testBit, Nat.testBit_lt_two_pow (by omega), Bool.not_false]
  rw [natAbs_land_lt_iff (hm.trans hpow) (hn.trans hpow)]
  rintro ⟨hmneg, hnneg, hbits⟩
  exact hbits w (Nat.lt_succ_self w) ⟨htop m hm hmneg, htop n hn hnneg⟩

end

/-- The position of the highest bit of numerator or denominator. -/
def topBit (q : ℚ) : ℕ := max q.num.natAbs.log2 q.den.log2

/-- Numerator and denominator take at most `w` bits. -/
def FitsBits (w : ℕ) (q : ℚ) : Prop := q.num.natAbs < 2 ^ w ∧ q.den < 2 ^ w

lemma log2_lt_iff {w n : ℕ} (hw : 0 < w) : n.log2 < w ↔ n < 2 ^ w := by
  rcases eq_or_ne n 0 with rfl | hn
  · exact iff_of_true hw (Nat.two_pow_pos w)
  · exact Nat.log2_lt hn

lemma fitsBits_iff {w : ℕ} (hw : 0 < w) (q : ℚ) : FitsBits w q ↔ topBit q < w := by
  rw [FitsBits, topBit, max_lt_iff, log2_lt_iff hw, log2_lt_iff hw]

lemma fitsBits_intCast {w : ℕ} (hw : 0 < w) (m : ℤ) : FitsBits w m ↔ m.natAbs < 2 ^ w := by
  rw [FitsBits, Rat.num_intCast, Rat.den_intCast, and_iff_left (Nat.one_lt_two_pow hw.ne')]

lemma fitsBits_of_natAbs_le_one {w : ℕ} (hw : 0 < w) {m : ℤ} (hm : m.natAbs ≤ 1) : FitsBits w m :=
  (fitsBits_intCast hw m).mpr (hm.trans_lt (Nat.one_lt_two_pow hw.ne'))

lemma fitsBits_divInt {w : ℕ} (hw : 0 < w) {m n : ℤ} (hm : m.natAbs < 2 ^ w)
    (hn : n.natAbs < 2 ^ w) : FitsBits w (.divInt m n) := by
  have hsign : n.sign.natAbs ≤ 1 := by
    rw [Int.natAbs_sign]
    split_ifs <;> decide
  constructor
  · rw [Rat.num_divInt]
    calc (n.sign * m / (n.gcd m : ℤ)).natAbs ≤ (n.sign * m).natAbs := Int.natAbs_ediv_le_natAbs _ _
      _ = n.sign.natAbs * m.natAbs := Int.natAbs_mul _ _
      _ ≤ m.natAbs := (Nat.mul_le_mul_right _ hsign).trans_eq (Nat.one_mul _)
      _ < 2 ^ w := hm
  · rw [Rat.den_divInt]
    split_ifs
    · exact Nat.one_lt_two_pow hw.ne'
    · exact (Nat.div_le_self _ _).trans_lt hn

lemma fitsBits_neg {w : ℕ} {q : ℚ} : FitsBits w (-q) ↔ FitsBits w q := by
  rw [FitsBits, FitsBits, Rat.num_neg_eq_neg_num, Int.natAbs_neg, Rat.den_neg_eq_den]

/-- A numerator over a denominator, not always in lowest terms. -/
structure Fraction where
  num : ℤ
  den : ℕ

namespace Fraction

def value (f : Fraction) : ℚ := .divInt f.num f.den

/-- The position of the highest bit in lowest terms. -/
def topBit (f : Fraction) : ℕ :=
  max (f.num.natAbs / f.den.gcd f.num.natAbs).log2 (f.den / f.den.gcd f.num.natAbs).log2

lemma value_eq_div (f : Fraction) : f.value = (f.num : ℚ) / f.den := by
  rw [value, Rat.divInt_eq_div, Int.cast_natCast]

lemma natAbs_num_value {f : Fraction} (h : f.den ≠ 0) :
    f.value.num.natAbs = f.num.natAbs / f.den.gcd f.num.natAbs := by
  have hdvd : (Int.gcd f.den f.num : ℤ) ∣ f.num := Int.gcd_dvd_right _ _
  rw [value, Rat.num_divInt, Int.sign_natCast_of_ne_zero h, one_mul, Int.natAbs_ediv_of_dvd hdvd]
  rfl

lemma den_value {f : Fraction} (h : f.den ≠ 0) :
    f.value.den = f.den / f.den.gcd f.num.natAbs := by
  rw [value, Rat.den_divInt, if_neg (Int.natCast_ne_zero.mpr h)]
  rfl

lemma topBit_value {f : Fraction} (h : f.den ≠ 0) : Semantics.topBit f.value = f.topBit := by
  rw [Semantics.topBit, natAbs_num_value h, den_value h, topBit]

/-! ### Arithmetic -/

def add (a b : ℚ) : Fraction := ⟨a.num * b.den + b.num * a.den, a.den * b.den⟩

def sub (a b : ℚ) : Fraction := ⟨a.num * b.den - b.num * a.den, a.den * b.den⟩

def mul (a b : ℚ) : Fraction := ⟨a.num * b.num, a.den * b.den⟩

def div (a b : ℚ) : Fraction := ⟨b.num.sign * a.num * b.den, b.num.natAbs * a.den⟩

/-- The remainder of the division that rounds towards zero. -/
def mod (a b : ℚ) : Fraction := ⟨(a.num * b.den).tmod (b.num * a.den), a.den * b.den⟩

section

variable (a b : ℚ)

lemma value_add : (add a b).value = a + b := by
  rw [value, add, Nat.cast_mul, ← Rat.divInt_add_divInt, Rat.num_divInt_den, Rat.num_divInt_den]
  · exact Int.natCast_ne_zero.mpr a.den_nz
  · exact Int.natCast_ne_zero.mpr b.den_nz

lemma value_sub : (sub a b).value = a - b := by
  rw [value, sub, Nat.cast_mul, ← Rat.divInt_sub_divInt, Rat.num_divInt_den, Rat.num_divInt_den]
  · exact Int.natCast_ne_zero.mpr a.den_nz
  · exact Int.natCast_ne_zero.mpr b.den_nz

lemma value_mul : (mul a b).value = a * b := by
  rw [value, mul, Nat.cast_mul, ← Rat.divInt_mul_divInt, Rat.num_divInt_den, Rat.num_divInt_den]

variable {b}

lemma div_eq_divInt (b : ℚ) : a / b = .divInt (a.num * b.den) (b.num * a.den) := by
  conv_lhs => rw [← Rat.num_div_den a, ← Rat.num_div_den b]
  rw [Rat.divInt_eq_div, div_div_div_eq]
  push_cast
  rw [mul_comm (a.den : ℚ)]

lemma value_div (hb : b ≠ 0) : (div a b).value = a / b := by
  have hnum : (b.num : ℚ) ≠ 0 := Int.cast_ne_zero.mpr (Rat.num_ne_zero.mpr hb)
  have hsign : (b.num.sign : ℚ) * (b.num.natAbs : ℤ) = b.num := by
    exact_mod_cast Int.sign_mul_natAbs b.num
  have habs : ((b.num.natAbs : ℤ) : ℚ) ≠ 0 := by
    intro h
    rw [h, mul_zero] at hsign
    exact hnum hsign.symm
  have hsquare : (b.num.sign : ℚ) * b.num = (b.num.natAbs : ℤ) := by
    exact_mod_cast Int.sign_mul_self_eq_natAbs b.num
  have hden : (a.den : ℚ) ≠ 0 := Nat.cast_ne_zero.mpr a.den_nz
  have hden' : (b.den : ℚ) ≠ 0 := Nat.cast_ne_zero.mpr b.den_nz
  rw [value_eq_div, div, div_eq_divInt a b, Rat.divInt_eq_div]
  simp only [Int.cast_mul, Nat.cast_mul, Int.cast_natCast] at habs hsquare ⊢
  rw [div_eq_div_iff (mul_ne_zero habs hden) (mul_ne_zero hnum hden), ← hsquare]
  ring

/-- The quotient of a division that rounds does not change when the fraction is reduced. -/
lemma tdiv_eq_tdiv_num_den (hb : b ≠ 0) :
    (a / b).num.tdiv (a / b).den = (a.num * b.den).tdiv (b.num * a.den) := by
  have hne : b.num * (a.den : ℤ) ≠ 0 :=
    mul_ne_zero (Rat.num_ne_zero.mpr hb) (Int.natCast_ne_zero.mpr a.den_nz)
  obtain ⟨c, hnum, hden⟩ := Rat.num_den_mk hne (div_eq_divInt a b)
  have hc : c ≠ 0 := by
    rintro rfl
    exact hne (by rw [hden, zero_mul])
  rw [hnum, hden]
  rcases lt_or_gt_of_ne hc with hneg | hpos
  · obtain ⟨d, rfl⟩ : ∃ d, c = -d := ⟨-c, (neg_neg c).symm⟩
    rw [neg_mul, neg_mul, Int.neg_tdiv, Int.tdiv_neg, neg_neg,
      Int.mul_tdiv_mul_of_pos _ _ (neg_lt_zero.mp hneg)]
  · rw [Int.mul_tdiv_mul_of_pos _ _ hpos]

lemma value_mod (hb : b ≠ 0) :
    (mod a b).value = a - ((a / b).num.tdiv (a / b).den : ℤ) * b := by
  have hsum : ((a.num * b.den : ℤ) : ℚ) = (a.num * b.den).tdiv (b.num * a.den) * (b.num * a.den : ℤ)
      + (a.num * b.den).tmod (b.num * a.den) := by
    exact_mod_cast (Int.tdiv_mul_add_tmod (a.num * b.den) (b.num * a.den)).symm
  have hden : (a.den : ℚ) ≠ 0 := Nat.cast_ne_zero.mpr a.den_nz
  have hden' : (b.den : ℚ) ≠ 0 := Nat.cast_ne_zero.mpr b.den_nz
  have hmod := eq_sub_of_add_eq' hsum.symm
  rw [tdiv_eq_tdiv_num_den a hb, value_eq_div, mod, hmod]
  generalize (a.num * b.den).tdiv (b.num * a.den) = k
  push_cast
  rw [div_eq_iff (mul_ne_zero hden hden'), ← Rat.mul_den_eq_num a, ← Rat.mul_den_eq_num b]
  ring

end

end Fraction

end Semantics
