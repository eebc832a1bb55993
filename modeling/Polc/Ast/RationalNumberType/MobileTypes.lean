import Polc.Ast.RationalNumberType.Exactness
import Polc.Semantics.Bytes

/-!
# Mobile types contain their constants

The integer type and the fixed point type of a constant have room for it, and the stack word of a
constant is read back as the constant.
-/

namespace Polynomial.RationalNumberType

/-- Rounded towards zero. -/
def truncate (q : ℚ) : ℤ := if 0 ≤ q then ⌊q⌋ else ⌈q⌉

/-- The number that a stack word stands for. -/
def decode (isSigned : Bool) (w : BitVec 256) : ℤ := if isSigned then w.toInt else w.toNat

/-- So many decimals represent the constant, or are as many as there is room for. -/
structure HasDecimals (q : ℚ) (d : ℕ) : Prop where
  le : d ≤ 80
  fits : |q| * 10 ^ d ≤ maxValue q
  needed : ∀ j < d, ∀ n : ℤ, q * 10 ^ j ≠ n
  most : d = 80 ∨ (∃ n : ℤ, q * 10 ^ d = n) ∨ maxValue q < |q| * 10 ^ (d + 1)

/-- What the types of a constant and its stack word are for. -/
structure HasMobileTypes (q : ℚ) : Prop where
  integerType_isSome_iff : isFractional q = false ∧ (integerType q).isSome ↔
    ∃ (t : IntegerType) (n : ℤ), q = n ∧ t.minValue ≤ n ∧ n ≤ t.maxValue
  integerType_narrowest : ∀ t n, integerType q = some t → q = (n : ℤ) →
    t.isSigned = decide (q < 0) ∧ t.minValue ≤ n ∧ n ≤ t.maxValue ∧
      ∀ t' : IntegerType, t'.isSigned = t.isSigned → t'.minValue ≤ n → n ≤ t'.maxValue →
        t.numBits ≤ t'.numBits
  fixedPointType_isSome_iff : (fixedPointType q).isSome ↔ |q| ≤ maxValue q
  fixedPointType_contains : ∀ t, fixedPointType q = some t →
    t.isSigned = decide (q < 0) ∧ HasDecimals q t.fractionalDigits ∧
      t.minStored ≤ truncate (q * 10 ^ t.fractionalDigits) ∧
      truncate (q * 10 ^ t.fractionalDigits) ≤ t.maxStored
  literalWord_integer : ∀ t n, integerType q = some t → q = (n : ℤ) →
    ∃ w, literalWord q = some w ∧ decode t.isSigned w = n
  literalWord_fixedPoint : ∀ t, isFractional q = true → fixedPointType q = some t →
    ∃ w, literalWord q = some w ∧ decode t.isSigned w = truncate (q * 10 ^ t.fractionalDigits)

lemma truncate_neg (q : ℚ) : truncate (-q) = -truncate q := by
  unfold truncate
  rcases lt_trichotomy q 0 with hq | rfl | hq
  · rw [if_pos (neg_nonneg.mpr hq.le), if_neg hq.not_ge, Int.floor_neg]
  · simp
  · rw [if_neg (not_le.mpr (neg_neg_of_pos hq)), if_pos hq.le, Int.ceil_neg]

lemma tdiv_eq_truncate (n : ℤ) (m : ℕ) : n.tdiv m = truncate (n / m) := by
  have hnonneg : ∀ k : ℕ, (k : ℤ).tdiv m = truncate ((k : ℤ) / m) := by
    intro k
    have hpos : (0 : ℚ) ≤ (k : ℤ) / m := div_nonneg (by exact_mod_cast k.zero_le) m.cast_nonneg
    rw [truncate, if_pos hpos, Rat.floor_intCast_div_natCast,
      Int.tdiv_eq_ediv_of_nonneg (Int.natCast_nonneg k)]
  obtain ⟨k, rfl | rfl⟩ := n.eq_nat_or_neg
  · exact hnonneg k
  · rw [Int.neg_tdiv, hnonneg, Int.cast_neg, neg_div, truncate_neg]

lemma truncate_intCast (n : ℤ) : truncate n = n := by
  unfold truncate
  rw [Int.floor_intCast, Int.ceil_intCast, ite_self]

lemma truncate_abs_nonneg (q : ℚ) : 0 ≤ truncate |q| := by
  rw [truncate, if_pos (abs_nonneg q)]
  exact Int.floor_nonneg.mpr (abs_nonneg q)

lemma truncate_eq (q : ℚ) : truncate q = if q < 0 then -truncate |q| else truncate |q| := by
  split_ifs with h
  · rw [abs_of_neg h, truncate_neg, neg_neg]
  · rw [abs_of_nonneg (not_lt.mp h)]

lemma scale_eq (maxValue : ℚ) (n : ℕ) (value : ℚ) (digits : ℕ) :
    ∃ k ≤ n, scale maxValue n value digits = (value * 10 ^ k, digits + k) ∧
      (∀ j < k, (value * 10 ^ j).den ≠ 1) ∧ (0 < k → value * 10 ^ k ≤ maxValue) ∧
      (k = n ∨ (value * 10 ^ k).den = 1 ∨ maxValue < value * 10 ^ (k + 1)) := by
  induction n generalizing value digits with
  | zero => exact ⟨0, le_rfl, by rw [scale, pow_zero, mul_one]; rfl, nofun, nofun, .inl rfl⟩
  | succ n ih =>
    rw [scale]
    split_ifs with h
    · obtain ⟨hle, hden⟩ := h
      obtain ⟨k, hk, heq, hneeded, hfits, hmost⟩ := ih (value * 10) (digits + 1)
      have hpow : ∀ j, value * 10 * 10 ^ j = value * 10 ^ (j + 1) := fun j => by ring
      simp only [hpow] at heq hneeded hfits hmost
      refine ⟨k + 1, by omega, by rw [heq]; congr 1; ring, ?_, ?_, ?_⟩
      · intro j hj
        cases j with
        | zero => rwa [pow_zero, mul_one]
        | succ j => exact hneeded j (by omega)
      · intro _
        cases k with
        | zero => rwa [zero_add, pow_one]
        | succ k => exact hfits (Nat.succ_pos k)
      · rcases hmost with rfl | hmost | hmost
        · exact .inl rfl
        · exact .inr (.inl hmost)
        · exact .inr (.inr hmost)
    · refine ⟨0, Nat.zero_le _, by rw [pow_zero, mul_one, add_zero], nofun, nofun, .inr ?_⟩
      rw [not_and_or, not_le, not_not] at h
      rw [pow_zero, mul_one, zero_add, pow_one]
      exact h.symm

variable {q : ℚ}

lemma isInt_of_den_eq_one (h : q.den = 1) : q = (q.num : ℤ) :=
  ((Rat.den_eq_one_iff q).mp h).symm

lemma den_ne_one_iff : q.den ≠ 1 ↔ ∀ n : ℤ, q ≠ n := by
  constructor
  · rintro h n rfl
    exact h (Rat.den_intCast n)
  · intro h hden
    exact h q.num (isInt_of_den_eq_one hden)

lemma abs_mul_pow (q : ℚ) (j : ℕ) : |q| * 10 ^ j = |q * 10 ^ j| := by
  rw [abs_mul, abs_of_pos (pow_pos (by norm_num : (0 : ℚ) < 10) j)]

lemma den_abs (q : ℚ) : |q|.den = q.den := by
  rcases abs_choice q with h | h
  · rw [h]
  · rw [h, Rat.den_neg_eq_den]

/-- The digits that the constant is scaled with, and what is stored of its absolute value. -/
lemma scale_spec (q : ℚ) : ∃ d, scale (maxValue q) 80 |q| 0 = (|q| * 10 ^ d, d) ∧
    (|q| ≤ maxValue q → HasDecimals q d) ∧ (maxValue q < |q| → maxValue q < |q| * 10 ^ d) := by
  obtain ⟨d, hd, heq, hneeded, hfits, hmost⟩ := scale_eq (maxValue q) 80 |q| 0
  rw [zero_add] at heq
  refine ⟨d, heq, fun hle => ⟨hd, ?_, ?_, ?_⟩, fun hlt => ?_⟩
  · rcases Nat.eq_zero_or_pos d with rfl | hpos
    · rwa [pow_zero, mul_one]
    · exact hfits hpos
  · intro j hj
    have hden := hneeded j hj
    rw [abs_mul_pow, den_abs] at hden
    exact den_ne_one_iff.mp hden
  · rcases hmost with rfl | hden | hlt
    · exact .inl rfl
    · rw [abs_mul_pow, den_abs] at hden
      exact .inr (.inl ⟨_, isInt_of_den_eq_one hden⟩)
    · exact .inr (.inr hlt)
  · have hpow : (1 : ℚ) ≤ 10 ^ d := one_le_pow₀ (by norm_num)
    exact hlt.trans_le (le_mul_of_one_le_right (abs_nonneg q) hpow)

/-! ### Fixed point types -/

lemma truncate_le {x m : ℚ} (hx : 0 ≤ x) (h : x ≤ m) : (truncate x : ℚ) ≤ m := by
  rw [truncate, if_pos hx]
  exact (Int.floor_le x).trans h

lemma stored_le {d : ℕ} (h : |q| * 10 ^ d ≤ maxValue q) :
    truncate (|q| * 10 ^ d) ≤ if q < 0 then 2 ^ 255 else 2 ^ 256 - 1 := by
  have hnonneg : 0 ≤ |q| * 10 ^ d := by
    rw [abs_mul_pow]
    exact abs_nonneg _
  have hle := truncate_le hnonneg h
  unfold maxValue at hle
  split_ifs at hle ⊢ <;> exact_mod_cast hle

lemma truncate_scaled (q : ℚ) (d : ℕ) :
    truncate (q * 10 ^ d) =
      if q < 0 then -truncate (|q| * 10 ^ d) else truncate (|q| * 10 ^ d) := by
  have hpos : (0 : ℚ) < 10 ^ d := pow_pos (by norm_num) d
  rw [truncate_eq, abs_mul_pow]
  simp only [mul_neg_iff, hpos, hpos.not_gt, and_true, and_false, false_or]

lemma fixedPointType_spec (q : ℚ) :
    (fixedPointType q = none ∧ maxValue q < |q|) ∨
      ∃ t, fixedPointType q = some t ∧ |q| ≤ maxValue q ∧ t.isSigned = decide (q < 0) ∧
        HasDecimals q t.fractionalDigits ∧
        t.totalBits = max (bytesRequired (fixedPointMagnitude q
          (truncate (|q| * 10 ^ t.fractionalDigits)))) 1 * 8 := by
  obtain ⟨d, heq, hdecimals, hlarge⟩ := scale_spec q
  unfold fixedPointType
  rw [heq]
  dsimp only
  rcases lt_or_ge (maxValue q) |q| with hlt | hle
  · rw [if_pos (hlarge hlt)]
    exact .inl ⟨rfl, hlt⟩
  · have h := hdecimals hle
    have hstored := stored_le h.fits
    have htdiv : (|q| * 10 ^ d).num.tdiv (|q| * 10 ^ d).den = truncate (|q| * 10 ^ d) := by
      rw [tdiv_eq_truncate, Rat.num_div_den]
    have hmagnitude : fixedPointMagnitude q (truncate (|q| * 10 ^ d)) < 2 ^ 256 := by
      unfold fixedPointMagnitude
      by_cases hq : q < 0
      · rw [if_pos hq] at hstored
        simp only [hq, true_and]
        split_ifs <;> omega
      · rw [if_neg hq] at hstored
        simp only [hq, false_and, if_false]
        omega
    have hbytes := bytesRequired_le hmagnitude
    have hd := h.le
    rw [if_neg (not_lt.mpr h.fits), htdiv, if_neg (by omega), FixedPointType.create,
      dif_pos (by omega)]
    exact .inr ⟨_, rfl, hle, rfl, h, rfl⟩

lemma stored_of_fixedPointType {t : FixedPointType} (h : fixedPointType q = some t) :
    t.minStored ≤ truncate (q * 10 ^ t.fractionalDigits) ∧
      truncate (q * 10 ^ t.fractionalDigits) ≤ t.maxStored := by
  rcases fixedPointType_spec q with ⟨hnone, -⟩ | ⟨t', ht', -, hsigned, hdecimals, hbits⟩
  · rw [hnone] at h
    cases h
  rw [ht'] at h
  cases h
  have hnonneg : 0 ≤ truncate (|q| * 10 ^ t.fractionalDigits) := by
    rw [abs_mul_pow]
    exact truncate_abs_nonneg _
  have hlt := (lt_pow_bytesRequired (fixedPointMagnitude q
    (truncate (|q| * 10 ^ t.fractionalDigits)))).trans_le
      (Nat.pow_le_pow_right (by decide : 0 < 2) (Nat.mul_le_mul_right 8 (le_max_left _ 1)))
  rw [← hbits] at hlt
  have htwo : (2 : ℤ) ^ t.totalBits = 2 * 2 ^ (t.totalBits - 1) := by
    rw [← Int.pow_succ']
    congr 1
    have := t.valid.1
    omega
  have hcast : (fixedPointMagnitude q (truncate (|q| * 10 ^ t.fractionalDigits)) : ℤ) <
      2 ^ t.totalBits := by exact_mod_cast hlt
  have hpos : (0 : ℤ) < 2 ^ (t.totalBits - 1) := Int.pow_pos (by decide)
  rw [truncate_scaled]
  unfold FixedPointType.minStored FixedPointType.maxStored
  unfold fixedPointMagnitude at hcast
  by_cases hq : q < 0
  · rw [hsigned]
    simp only [hq, true_and, decide_true, if_true] at hcast ⊢
    split_ifs at hcast <;> omega
  · rw [hsigned]
    simp only [hq, false_and, decide_false, if_false, Bool.false_eq_true] at hcast ⊢
    omega

variable {isSigned : Bool} {n : ℤ}

lemma decode_ofInt (h : if isSigned then -2 ^ 255 ≤ n ∧ n < 2 ^ 255 else 0 ≤ n ∧ n < 2 ^ 256) :
    decode isSigned (.ofInt 256 n) = n := by
  cases isSigned with
  | true =>
    obtain ⟨hle, hlt⟩ := h
    rw [decode, if_pos rfl, BitVec.toInt_ofInt]
    exact Int.bmod_eq_of_le (by omega) (by omega)
  | false =>
    obtain ⟨hle, hlt⟩ := h
    rw [decode, if_neg Bool.false_ne_true, BitVec.toNat_ofInt,
      Int.toNat_of_nonneg (Int.emod_nonneg _ (by decide))]
    exact Int.emod_eq_of_lt hle hlt

/-- A signed or unsigned type of so many bits has no number beyond the ones of 256 bits. -/
lemma decode_bounds {bits : ℕ} (hbits : 8 ≤ bits ∧ bits ≤ 256)
    (hmin : (if isSigned then -2 ^ (bits - 1) else 0) ≤ n)
    (hmax : n ≤ if isSigned then 2 ^ (bits - 1) - 1 else 2 ^ bits - 1) :
    if isSigned then -2 ^ 255 ≤ n ∧ n < 2 ^ 255 else 0 ≤ n ∧ n < 2 ^ 256 := by
  have hpow : ∀ {i j : ℕ}, i ≤ j → (2 : ℤ) ^ i ≤ 2 ^ j :=
    fun h => pow_le_pow_right₀ (by decide) h
  cases isSigned with
  | true =>
    have hle := hpow (show bits - 1 ≤ 255 by omega)
    simp only [if_true] at hmin hmax ⊢
    omega
  | false =>
    have hle := hpow hbits.2
    simp only [Bool.false_eq_true, if_false] at hmin hmax ⊢
    omega

lemma literalWord_of_bounds (hn : shiftedValue q = some n)
    (h : if isSigned then -2 ^ 255 ≤ n ∧ n < 2 ^ 255 else 0 ≤ n ∧ n < 2 ^ 256) :
    ∃ w, literalWord q = some w ∧ decode isSigned w = n := by
  refine ⟨.ofInt 256 n, ?_, decode_ofInt h⟩
  have hbounds : n ≤ 2 ^ 256 - 1 ∧ -2 ^ 255 ≤ n := by
    split_ifs at h <;> omega
  rw [literalWord, hn, Option.bind_some, if_pos hbounds]

lemma isFractional_intCast (n : ℤ) : isFractional n = false := by
  rw [isFractional, Rat.den_intCast]
  rfl

lemma magnitude_lt_iff {bits : ℕ} (hbits : 0 < bits) :
    magnitude n < 2 ^ bits ↔
      if n < 0 then -2 ^ (bits - 1) ≤ n else n ≤ 2 ^ bits - 1 := by
  have htwo : (2 : ℤ) ^ bits = 2 * 2 ^ (bits - 1) := by
    rw [← Int.pow_succ', Nat.sub_add_cancel hbits]
  have hcast : magnitude n < 2 ^ bits ↔ (magnitude n : ℤ) < 2 ^ bits := by
    exact_mod_cast Iff.rfl
  rw [hcast, magnitude]
  split_ifs <;> omega

lemma contains_iff (t : IntegerType) (hsigned : t.isSigned = decide (n < 0)) :
    t.minValue ≤ n ∧ n ≤ t.maxValue ↔ magnitude n < 2 ^ t.numBits := by
  rw [magnitude_lt_iff t.valid.1, IntegerType.minValue, IntegerType.maxValue, hsigned]
  have hpos : (0 : ℤ) < 2 ^ (t.numBits - 1) := Int.pow_pos (by decide)
  by_cases hn : n < 0
  · simp only [hn, decide_true, if_true]
    omega
  · simp only [hn, decide_false, if_false, Bool.false_eq_true]
    omega

variable {t : IntegerType}

lemma integerType_eq_some (h : integerType n = some t) :
    magnitude n < 2 ^ 256 ∧ t.numBits = max (bytesRequired (magnitude n)) 1 * 8 ∧
      t.isSigned = decide (n < 0) := by
  unfold integerType at h
  split_ifs at h with hlt
  cases h
  exact ⟨hlt, rfl, rfl⟩

lemma integerType_contains (h : integerType n = some t) : t.minValue ≤ n ∧ n ≤ t.maxValue := by
  obtain ⟨hlt, hbits, hsigned⟩ := integerType_eq_some h
  rw [contains_iff t hsigned, hbits]
  exact (lt_pow_bytesRequired _).trans_le
    (Nat.pow_le_pow_right (by decide) (Nat.mul_le_mul_right 8 (le_max_left _ _)))

lemma integerType_numBits_le {t' : IntegerType} (h : integerType n = some t)
    (hsigned : t'.isSigned = t.isSigned) (hmin : t'.minValue ≤ n) (hmax : n ≤ t'.maxValue) :
    t.numBits ≤ t'.numBits := by
  obtain ⟨-, hbits, hsigned'⟩ := integerType_eq_some h
  obtain ⟨hpos, -, hbytes⟩ := t'.valid
  have hlt := (contains_iff t' (hsigned.trans hsigned')).mp ⟨hmin, hmax⟩
  obtain ⟨k, hk⟩ : ∃ k, t'.numBits = 8 * k := ⟨t'.numBits / 8, by omega⟩
  rw [hk, Nat.pow_mul] at hlt
  have hle : bytesRequired (magnitude n) ≤ k := Semantics.bytesRequired_le_iff.mpr hlt
  omega

lemma bounds_of_contains (hmin : t.minValue ≤ n) (hmax : n ≤ t.maxValue) :
    if t.isSigned then -2 ^ 255 ≤ n ∧ n < 2 ^ 255 else 0 ≤ n ∧ n < 2 ^ 256 := by
  have hvalid := t.valid
  exact decode_bounds (by omega) hmin hmax

lemma integerType_isSome_of_contains (hmin : t.minValue ≤ n) (hmax : n ≤ t.maxValue) :
    (integerType n).isSome := by
  have hbounds := bounds_of_contains hmin hmax
  have hlt : magnitude n < 2 ^ 256 := by
    rw [magnitude_lt_iff (by decide)]
    split_ifs at hbounds ⊢ <;> omega
  have heq : integerType n = some _ := dif_pos hlt
  rw [heq]
  rfl

lemma cast_lt_zero_iff : (n : ℚ) < 0 ↔ n < 0 := by
  exact_mod_cast Iff.rfl

/-- Every constant that has a mobile type is in it, and its stack word is read back. -/
theorem hasMobileTypes (q : ℚ) : HasMobileTypes q where
  integerType_isSome_iff := by
    constructor
    · rintro ⟨hf, hsome⟩
      obtain ⟨t, ht⟩ := Option.isSome_iff_exists.mp hsome
      have hq := eq_num_of_not_isFractional hf
      rw [hq] at ht
      exact ⟨t, q.num, hq, integerType_contains ht⟩
    · rintro ⟨t, n, rfl, hmin, hmax⟩
      exact ⟨isFractional_intCast n, integerType_isSome_of_contains hmin hmax⟩
  integerType_narrowest := by
    rintro t n ht rfl
    obtain ⟨-, -, hsigned⟩ := integerType_eq_some ht
    obtain ⟨hmin, hmax⟩ := integerType_contains ht
    refine ⟨?_, hmin, hmax, fun t' => integerType_numBits_le ht⟩
    simp only [hsigned, cast_lt_zero_iff]
  fixedPointType_isSome_iff := by
    rcases fixedPointType_spec q with ⟨hnone, hlt⟩ | ⟨t, ht, hle, -⟩
    · rw [hnone]
      exact iff_of_false Bool.false_ne_true (not_le.mpr hlt)
    · rw [ht]
      exact iff_of_true rfl hle
  fixedPointType_contains := by
    intro t ht
    refine ⟨?_, ?_, stored_of_fixedPointType ht⟩ <;>
      rcases fixedPointType_spec q with ⟨hnone, -⟩ | ⟨t', ht', -, hsigned, hdecimals, -⟩
    · cases hnone.symm.trans ht
    · cases ht'.symm.trans ht
      exact hsigned
    · cases hnone.symm.trans ht
    · cases ht'.symm.trans ht
      exact hdecimals
  literalWord_integer := by
    rintro t n ht rfl
    obtain ⟨hmin, hmax⟩ := integerType_contains ht
    refine literalWord_of_bounds ?_ (bounds_of_contains hmin hmax)
    rw [shiftedValue, isFractional_intCast, if_neg Bool.false_ne_true, Rat.num_intCast]
  literalWord_fixedPoint := by
    intro t hf ht
    obtain ⟨hmin, hmax⟩ := stored_of_fixedPointType ht
    refine literalWord_of_bounds ?_ (decode_bounds ⟨t.valid.1, t.valid.2.1⟩ hmin hmax)
    rw [shiftedValue, if_pos hf, ht, Option.map_some, tdiv_eq_truncate]
    congr 2
    rw [Int.cast_mul, mul_div_right_comm, Rat.num_div_den]
    norm_cast

/-- One more decimal of this constant, rounded towards zero, would fit into 256 bits. -/
theorem fixedPointType_omitsDecimal :
    (fixedPointType ((2 ^ 257 - 1) / 20)).map (·.fractionalDigits) = some 0 ∧
      truncate ((2 ^ 257 - 1) / 20 * 10 ^ 1) = 2 ^ 256 - 1 := by
  constructor <;> decide +kernel

end Polynomial.RationalNumberType
