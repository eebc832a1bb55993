import Mathlib.Tactic.LinearCombination
import Polc.Ast.Types

/-!
# Constant arithmetic is exact

What the operators mean for rational numbers, stated without the case distinctions and shortcuts
of the code, and when the result of an operation on constants is this value.
-/

namespace Polynomial.RationalNumberType

/-- An operation on the bits of integers in two's complement of unbounded size. -/
def IsBitwise (f : Bool → Bool → Bool) (a b q : ℚ) : Prop :=
  ∃ m n r : ℤ, a = m ∧ b = n ∧ q = r ∧ ∀ i, r.testBit i = f (m.testBit i) (n.testBit i)

/-- The value of an operation in exact arithmetic. -/
def IsResult (op : BinaryOperator) (a b q : ℚ) : Prop :=
  match op with
  | .bitOr => IsBitwise (· || ·) a b q
  | .bitXor => IsBitwise (· ^^ ·) a b q
  | .bitAnd => IsBitwise (· && ·) a b q
  | .add => q = a + b
  | .sub => q = a - b
  | .mul => q = a * b
  | .div => b ≠ 0 ∧ q * b = a
  | .mod => (∃ k : ℤ, a = k * b + q) ∧ |q| < |b| ∧ 0 ≤ a * q
  | .exp => ∃ e : ℤ, b = e ∧ (0 ≤ e → q = a ^ e.natAbs) ∧ (e < 0 → q * a ^ e.natAbs = 1)
  | .shl => ∃ (m : ℤ) (s : ℕ), a = m ∧ b = s ∧ q = a * 2 ^ s
  | .sar => ∃ (m : ℤ) (s : ℕ), a = m ∧ b = s ∧ q = ⌊a / 2 ^ s⌋
  | _ => False

def IsUnaryResult (op : UnaryOperator) (a q : ℚ) : Prop :=
  match op with
  | .bitNot => ∃ m r : ℤ, a = m ∧ q = r ∧ ∀ i, r.testBit i = !m.testBit i
  | .add => q = a
  | .sub => q + a = 0
  | .not => False

/-! ### Integral constants -/

lemma eq_num_of_not_isFractional {q : ℚ} (h : isFractional q = false) : q = q.num := by
  have hden : q.den = 1 := by simpa [isFractional] using h
  exact ((Rat.den_eq_one_iff q).mp hden).symm

lemma lnot_eq (m : ℤ) : Int.lnot m = -m - 1 := by
  cases m with
  | ofNat n => rw [Int.lnot, Int.negSucc_eq, Int.ofNat_eq_natCast]; ring
  | negSucc n => rw [Int.lnot, Int.negSucc_eq]; ring

lemma isUnaryResult_of_unaryOperatorResult {op : UnaryOperator} {a q : ℚ}
    (h : unaryOperatorResult a op = some q) : IsUnaryResult op a q := by
  cases op with
  | not => cases h
  | bitNot =>
    unfold unaryOperatorResult at h
    split_ifs at h with hf
    cases h
    refine ⟨a.num, -a.num - 1, eq_num_of_not_isFractional (Bool.eq_false_iff.mpr hf), rfl, ?_⟩
    intro i
    rw [← lnot_eq, Int.testBit_lnot]
  | add =>
    cases h
    rfl
  | sub =>
    cases h
    exact neg_add_cancel a

lemma lt_two_pow_of_log2_lt {n s : ℕ} (h : n.log2 < s) : n < 2 ^ s := by
  rcases Nat.eq_zero_or_pos n with rfl | hn
  · exact Nat.two_pow_pos s
  · exact (Nat.log2_lt hn.ne').mp h

lemma tdiv_add_one_sub_one {n p : ℤ} (hn : n < 0) (hp : 0 < p) :
    (n + 1).tdiv p - 1 = n / p := by
  obtain ⟨k, rfl⟩ : ∃ k : ℕ, n = -(k : ℤ) - 1 := ⟨(-n - 1).toNat, by omega⟩
  have hdiv := Int.mul_ediv_add_emod (k : ℤ) p
  have hnonneg := Int.emod_nonneg (k : ℤ) hp.ne'
  have hlt := Int.emod_lt_of_pos (k : ℤ) hp
  have hneg : -(k : ℤ) - 1 + 1 = -k := by ring
  rw [hneg, Int.neg_tdiv, Int.tdiv_eq_ediv_of_nonneg (Int.natCast_nonneg k)]
  refine (((Int.ediv_emod_unique hp (r := p - (k : ℤ) % p - 1)).mpr ⟨?_, ?_, ?_⟩).1).symm
  · linear_combination -hdiv
  · omega
  · omega

lemma ediv_eq_neg_one {n p : ℤ} (hn : n < 0) (hp : -n ≤ p) : n / p = -1 := by
  have hpos : 0 < p := by omega
  refine le_antisymm ?_ ?_
  · exact Int.le_of_lt_add_one (Int.ediv_lt_of_lt_mul hpos (by omega))
  · exact (Int.le_ediv_iff_mul_le hpos).mpr (by omega)

lemma shiftRight_eq {n s : ℤ} {q : ℚ} (h : shiftRight n s = some q) :
    0 ≤ s ∧ q = (n / 2 ^ s.toNat : ℤ) := by
  have hpos : (0 : ℤ) < 2 ^ s.toNat := Int.pow_pos (by decide)
  unfold shiftRight at h
  split_ifs at h with hs hn hlog hneg hneg
  · cases h
    exact ⟨by omega, by rw [hn, Int.zero_ediv]; rfl⟩
  · cases h
    have hlt : (n.natAbs : ℤ) < 2 ^ s.toNat := by exact_mod_cast lt_two_pow_of_log2_lt hlog
    refine ⟨by omega, ?_⟩
    rw [ediv_eq_neg_one hneg (by omega)]
    rfl
  · cases h
    have hlt : (n.natAbs : ℤ) < 2 ^ s.toNat := by exact_mod_cast lt_two_pow_of_log2_lt hlog
    refine ⟨by omega, ?_⟩
    rw [Int.ediv_eq_zero_of_lt (by omega) (by omega)]
    rfl
  · cases h
    exact ⟨by omega, by rw [tdiv_add_one_sub_one hneg hpos]⟩
  · cases h
    exact ⟨by omega, by rw [Int.tdiv_eq_ediv_of_nonneg (by omega)]⟩

lemma shiftLeft_eq {n s : ℤ} {q : ℚ} (h : shiftLeft n s = some q) :
    0 ≤ s ∧ q = (n * 2 ^ s.toNat : ℤ) := by
  unfold shiftLeft at h
  split_ifs at h with hs hn
  · cases h
    exact ⟨by omega, by rw [hn, Int.zero_mul]; rfl⟩
  · cases h
    exact ⟨by omega, rfl⟩

/-- The remainder of the division that rounds towards zero has the sign of the dividend. -/
lemma mul_tmod_nonneg (m n : ℤ) : 0 ≤ m * m.tmod n := by
  rcases le_total 0 m with hm | hm
  · exact mul_nonneg hm (Int.tmod_nonneg n hm)
  · have hneg := Int.tmod_nonneg n (neg_nonneg.mpr hm)
    rw [Int.neg_tmod] at hneg
    exact mul_nonneg_of_nonpos_of_nonpos hm (neg_nonneg.mp hneg)

lemma abs_tmod_lt (m : ℤ) {n : ℤ} (hn : n ≠ 0) : |m.tmod n| < |n| := by
  rw [Int.abs_eq_natAbs, Int.abs_eq_natAbs, Int.natAbs_tmod]
  exact_mod_cast Nat.mod_lt _ (Int.natAbs_pos.mpr hn)

lemma isResult_mod_of_int (m : ℤ) {n : ℤ} (hn : n ≠ 0) :
    IsResult .mod m n (m.tmod n : ℤ) := by
  refine ⟨⟨m.tdiv n, ?_⟩, ?_, ?_⟩
  · exact_mod_cast (Int.tdiv_mul_add_tmod m n).symm
  · exact_mod_cast abs_tmod_lt m hn
  · exact_mod_cast mul_tmod_nonneg m n

lemma isResult_mod (a : ℚ) {b : ℚ} (hb : b ≠ 0) :
    IsResult .mod a b (a - ((a / b).num.tdiv (a / b).den : ℤ) * b) := by
  obtain ⟨x, hx⟩ : ∃ x : ℚ, a / b = x := ⟨_, rfl⟩
  have hden : (0 : ℚ) < x.den := Nat.cast_pos.mpr x.den_pos
  have ha : a = x.num / x.den * b := by rw [Rat.num_div_den, ← hx, div_mul_cancel₀ a hb]
  obtain ⟨-, hlt, hsign⟩ := isResult_mod_of_int x.num (Int.natCast_ne_zero.mpr x.den_nz)
  have hsum : (x.num : ℚ) = (x.num.tdiv x.den : ℤ) * x.den + (x.num.tmod x.den : ℤ) := by
    exact_mod_cast (Int.tdiv_mul_add_tmod x.num x.den).symm
  have hrest : a - (x.num.tdiv x.den : ℤ) * b = (x.num.tmod x.den : ℤ) / x.den * b := by
    have hfrac : (x.num : ℚ) / x.den - (x.num.tdiv x.den : ℤ) = (x.num.tmod x.den : ℤ) / x.den := by
      rw [div_sub' hden.ne', div_left_inj' hden.ne']
      linear_combination hsum
    rw [ha, ← sub_mul, hfrac]
  rw [hx]
  refine ⟨⟨x.num.tdiv x.den, by ring⟩, ?_, ?_⟩
  · rw [hrest, abs_mul, abs_div, abs_of_pos hden]
    have habs : |((x.den : ℤ) : ℚ)| = x.den := by
      rw [Int.cast_natCast, abs_of_pos hden]
    rw [habs] at hlt
    exact mul_lt_of_lt_one_left (abs_pos.mpr hb) ((div_lt_one hden).mpr hlt)
  · rw [hrest, ha]
    have heq : (x.num : ℚ) / x.den * b * ((x.num.tmod x.den : ℤ) / x.den * b) =
        x.num * (x.num.tmod x.den : ℤ) * (b / x.den) ^ 2 := by ring
    rw [heq]
    exact mul_nonneg hsign (sq_nonneg _)

lemma isResult_exp_iff {a q : ℚ} {e : ℤ} :
    IsResult .exp a e q ↔ (0 ≤ e → q = a ^ e.natAbs) ∧ (e < 0 → q * a ^ e.natAbs = 1) := by
  constructor
  · rintro ⟨e', he, h⟩
    rwa [Int.cast_injective he]
  · intro h
    exact ⟨e, rfl, h⟩

lemma zero_pow_natAbs {e : ℤ} (he : e ≠ 0) : (0 : ℚ) ^ e.natAbs = 0 :=
  zero_pow (Int.natAbs_ne_zero.mpr he)

lemma neg_one_pow_natAbs (e : ℤ) : (-1 : ℚ) ^ e.natAbs = 1 - 2 * (e.natAbs % 2 : ℕ) := by
  rcases Nat.even_or_odd e.natAbs with h | h
  · rw [h.neg_one_pow, Nat.even_iff.mp h]
    norm_num
  · rw [h.neg_one_pow, Nat.odd_iff.mp h]
    norm_num

lemma isResult_power {a q : ℚ} {e : ℤ} (h : power a e = some q) :
    IsResult .exp a e q ↔ ¬ (a = 0 ∧ e < 0) := by
  rw [isResult_exp_iff]
  unfold power at h
  split_ifs at h with he hbase hneg hlarge hfits hsign
  · cases h
    rw [he]
    simp
  · cases h
    rcases hbase with hbase | rfl
    · obtain rfl := Rat.num_eq_zero.mp hbase
      rw [zero_pow_natAbs he]
      simp
    · simp
  · cases h
    subst hneg
    rw [neg_one_pow_natAbs]
    have hsquare : ((1 : ℚ) - 2 * (e.natAbs % 2 : ℕ)) * (1 - 2 * (e.natAbs % 2 : ℕ)) = 1 := by
      rw [← neg_one_pow_natAbs, ← mul_pow]
      norm_num
    exact iff_of_true ⟨fun _ => rfl, fun _ => hsquare⟩ (fun hzero => by norm_num at hzero)
  · cases h
    have hpos := Int.not_lt.mpr hsign
    refine iff_of_true ⟨fun _ => ?_, fun hlt => absurd hlt hpos⟩ (fun hzero => hpos hzero.2)
    rw [Rat.divInt_eq_div, Int.cast_pow, Int.cast_pow, Int.cast_natCast, ← div_pow,
      Rat.num_div_den]
  · cases h
    have hnum : a.num ≠ 0 := fun hzero => hbase (.inl hzero)
    have hne : a ≠ 0 := Rat.num_ne_zero.mp hnum
    refine iff_of_true ⟨fun hle => absurd hle hsign, fun _ => ?_⟩ (fun hzero => hne hzero.1)
    have hinv : ((a.den : ℤ) : ℚ) / a.num = a⁻¹ := by
      rw [Int.cast_natCast, ← inv_div, Rat.num_div_den]
    rw [Rat.divInt_eq_div, Int.cast_pow, Int.cast_pow, ← div_pow, hinv, ← mul_pow,
      inv_mul_cancel₀ hne, one_pow]

/-! ### All operators -/

lemma isResult_operation {op : BinaryOperator} {a b q : ℚ} (h : operation op a b = some q) :
    IsResult op a b q ↔ ¬ (op = .exp ∧ a = 0 ∧ b < 0) := by
  have hbits : ∀ {f : Bool → Bool → Bool} {g : ℤ → ℤ → ℤ}
      (_ : ∀ m n i, (g m n).testBit i = f (m.testBit i) (n.testBit i)),
      (if isFractional a || isFractional b then none else some ((g a.num b.num : ℤ) : ℚ)) = some q →
      IsBitwise f a b q := by
    intro f g hg hq
    split_ifs at hq with hf
    obtain ⟨ha, hb⟩ := Bool.or_eq_false_iff.mp (Bool.eq_false_iff.mpr hf)
    cases hq
    exact ⟨a.num, b.num, _, eq_num_of_not_isFractional ha, eq_num_of_not_isFractional hb, rfl,
      hg _ _⟩
  have hother : op ≠ .exp → ¬ (op = .exp ∧ a = 0 ∧ b < 0) := fun hne hexp => hne hexp.1
  cases op with
  | bitOr => exact iff_of_true (hbits Int.testBit_lor h) (hother nofun)
  | bitXor => exact iff_of_true (hbits Int.testBit_lxor h) (hother nofun)
  | bitAnd => exact iff_of_true (hbits Int.testBit_land h) (hother nofun)
  | add | sub | mul =>
    cases h
    exact iff_of_true rfl (hother nofun)
  | div =>
    simp only [operation] at h
    split_ifs at h with hb
    cases h
    exact iff_of_true ⟨hb, div_mul_cancel₀ a hb⟩ (hother nofun)
  | mod =>
    simp only [operation] at h
    split_ifs at h with hb hf
    · cases h
      exact iff_of_true (isResult_mod a hb) (hother nofun)
    · obtain ⟨ha, hb'⟩ := Bool.or_eq_false_iff.mp (Bool.eq_false_iff.mpr hf)
      cases h
      refine iff_of_true ?_ (hother nofun)
      have hres := isResult_mod_of_int a.num (Rat.num_ne_zero.mpr hb)
      rwa [← eq_num_of_not_isFractional ha, ← eq_num_of_not_isFractional hb'] at hres
  | exp =>
    simp only [operation] at h
    split_ifs at h with hf
    have hb := eq_num_of_not_isFractional (Bool.eq_false_iff.mpr hf)
    rw [hb, isResult_power h]
    simp only [true_and, Int.cast_lt_zero]
  | shl =>
    simp only [operation] at h
    split_ifs at h with hf
    obtain ⟨ha, hb⟩ := Bool.or_eq_false_iff.mp (Bool.eq_false_iff.mpr hf)
    obtain ⟨hs, rfl⟩ := shiftLeft_eq h
    refine iff_of_true ⟨a.num, b.num.toNat, eq_num_of_not_isFractional ha, ?_, ?_⟩ (hother nofun)
    · rw [← Int.cast_natCast, Int.toNat_of_nonneg hs, ← eq_num_of_not_isFractional hb]
    · rw [Int.cast_mul, ← eq_num_of_not_isFractional ha]
      norm_cast
  | sar =>
    simp only [operation] at h
    split_ifs at h with hf
    obtain ⟨ha, hb⟩ := Bool.or_eq_false_iff.mp (Bool.eq_false_iff.mpr hf)
    obtain ⟨hs, rfl⟩ := shiftRight_eq h
    refine iff_of_true ⟨a.num, b.num.toNat, eq_num_of_not_isFractional ha, ?_, ?_⟩ (hother nofun)
    · rw [← Int.cast_natCast, Int.toNat_of_nonneg hs, ← eq_num_of_not_isFractional hb]
    · have hfloor := Rat.floor_intCast_div_natCast a.num (2 ^ b.num.toNat)
      rw [← eq_num_of_not_isFractional ha] at hfloor
      push_cast at hfloor
      rw [hfloor]
  | _ => cases h

/-- Constant arithmetic is exact but for negative powers of zero: zero has no inverse, and the code
takes it for its own. -/
theorem operatorResult_exact_iff (op : BinaryOperator) (op' : UnaryOperator) (a b : ℚ) :
    (∀ q, binaryOperatorResult op a b = some q →
      (IsResult op a b q ↔ ¬ (op = .exp ∧ a = 0 ∧ b < 0))) ∧
    ∀ q, unaryOperatorResult a op' = some q → IsUnaryResult op' a q := by
  refine ⟨fun q h => ?_, fun q => isUnaryResult_of_unaryOperatorResult⟩
  exact isResult_operation (Option.filter_eq_some_iff.mp h).1

/-- Minus seven thirds shifted and reduced. -/
theorem operatorResult_exact_iff_negative :
    IsResult .mod (-7 / 3) 2 (-1 / 3) ∧ IsResult .sar (-7) 1 (-4) ∧ IsUnaryResult .bitNot 7 (-8) :=
  ⟨((operatorResult_exact_iff .mod .bitNot (-7 / 3) 2).1 (-1 / 3) (by decide +kernel)).mpr
      (by decide),
    ((operatorResult_exact_iff .sar .bitNot (-7) 1).1 (-4) (by decide +kernel)).mpr (by decide),
    (operatorResult_exact_iff .exp .bitNot 7 0).2 (-8) (by decide +kernel)⟩

/-- `0 ** -1` is zero. -/
theorem binaryOperatorResult_zero_exp :
    binaryOperatorResult .exp 0 (-1) = some 0 ∧ ¬ IsResult .exp 0 (-1) 0 := by
  refine ⟨by decide +kernel, ?_⟩
  rintro ⟨e, he, -, hneg⟩
  have he : e = -1 := by exact_mod_cast he.symm
  have h := hneg (by omega)
  rw [zero_mul] at h
  exact zero_ne_one h

end Polynomial.RationalNumberType
