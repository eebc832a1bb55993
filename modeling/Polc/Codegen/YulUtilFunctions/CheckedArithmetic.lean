import Polc.Codegen.YulUtilFunctions
import Polc.Codegen.ExpressionCompiler.Operators

/-!
# Checked arithmetic is exact

The generated functions revert if and only if the result does not fit into the type, and otherwise
return it in its clean representation.
-/

namespace Polynomial

open IntegerType
open Sof (Word)
open CompilerUtils
open BitVec (eq_of_toNat_eq lt_def ofInt_add ofInt_natCast ofInt_neg ult_iff_lt)

/-- The word of the result, where it fits into the type. -/
def IntegerType.exactResult (t : IntegerType) (r : ℤ) : YulUtilFunctions.Run :=
  if t.minValue ≤ r ∧ r ≤ t.maxValue then .ok (.ofInt 256 r) else .error .revert

namespace YulUtilFunctions

variable {t : IntegerType} {m n r : ℤ} {c w : Word} {b b' : Bool}

lemma ofBool_ne_zero : Sof.Word.ofBool b ≠ 0 ↔ b := by
  cases b
  · exact iff_of_false (fun h => h rfl) Bool.false_ne_true
  · exact iff_of_true (by decide) rfl

lemma ofBool_and : Sof.Word.ofBool b &&& Sof.Word.ofBool b' = Sof.Word.ofBool (b && b') := by
  cases b <;> cases b' <;> rfl

lemma revertIf_eq_exactResult (hc : c ≠ 0 ↔ ¬ (t.minValue ≤ r ∧ r ≤ t.maxValue))
    (hw : t.minValue ≤ r ∧ r ≤ t.maxValue → w = .ofInt 256 r) :
    revertIf c (.ok w) = t.exactResult r := by
  rw [revertIf, IntegerType.exactResult]
  by_cases h : t.minValue ≤ r ∧ r ≤ t.maxValue
  · rw [if_neg (not_iff_not.mpr hc |>.mpr (not_not.mpr h)), if_pos h, hw h]
  · rw [if_pos (hc.mpr h), if_neg h]

lemma less_iff (hm : t.minValue ≤ m ∧ m ≤ t.maxValue) (hn : t.minValue ≤ n ∧ n ≤ t.maxValue) :
    builtin (if t.isSigned then .slt else .lt) [.ofInt 256 m, .ofInt 256 n] ≠ 0 ↔ m < n := by
  cases ht : t.isSigned with
  | true =>
    change Sof.Word.ofBool ((BitVec.ofInt 256 m).slt (.ofInt 256 n)) ≠ 0 ↔ _
    rw [ofBool_ne_zero, BitVec.slt_iff_toInt_lt, toInt_of_clean hm rfl ht,
      toInt_of_clean hn rfl ht]
  | false =>
    change Sof.Word.ofBool ((BitVec.ofInt 256 m).ult (.ofInt 256 n)) ≠ 0 ↔ _
    rw [ofBool_ne_zero, ult_iff_lt, lt_def, ← Int.ofNat_lt,
      toNat_of_clean hm rfl ht, toNat_of_clean hn rfl ht]

lemma ofInt_inj (hm : t.minValue ≤ m ∧ m ≤ t.maxValue) (hn : t.minValue ≤ n ∧ n ≤ t.maxValue) :
    BitVec.ofInt 256 m = BitVec.ofInt 256 n ↔ m = n := by
  refine ⟨fun h => ?_, fun h => h ▸ rfl⟩
  cases ht : t.isSigned with
  | true => rw [← toInt_of_clean hm rfl ht, h, toInt_of_clean hn rfl ht]
  | false => rw [← toNat_of_clean hm rfl ht, h, toNat_of_clean hn rfl ht]

lemma greater_iff (hm : t.minValue ≤ m ∧ m ≤ t.maxValue) (hn : t.minValue ≤ n ∧ n ≤ t.maxValue) :
    builtin (if t.isSigned then .sgt else .gt) [.ofInt 256 m, .ofInt 256 n] ≠ 0 ↔ n < m := by
  rw [← less_iff hn hm]
  cases t.isSigned <;> rfl

lemma ofInt_sub (a b : ℤ) : BitVec.ofInt 256 (a - b) = .ofInt 256 a - .ofInt 256 b := by
  rw [sub_eq_add_neg, ofInt_add, ofInt_neg, ← BitVec.sub_eq_add_neg]

lemma powerOfTwo_eq (bits : ℕ) : powerOfTwo bits = .ofInt 256 (2 ^ bits) := by
  have hcast : (2 : ℤ) ^ bits = (2 ^ bits : ℕ) := by
    push_cast
    rfl
  apply eq_of_toNat_eq
  rw [hcast, ofInt_natCast, powerOfTwo, BitVec.toNat_shiftLeft, BitVec.toNat_ofNat,
    Nat.shiftLeft_eq]
  exact congrArg (· % 2 ^ 256) (Nat.one_mul _)

lemma minWord_eq (ht : t.isSigned) :
    0 - powerOfTwo (t.numBits - 1) = .ofInt 256 t.minValue := by
  rw [powerOfTwo_eq, IntegerType.minValue, if_pos ht, ofInt_neg]
  exact BitVec.zero_sub _

lemma maxWord_sub_one_eq (t : IntegerType) :
    (if t.isSigned then powerOfTwo (t.numBits - 1) - 2 else powerOfTwo t.numBits - 2) =
      .ofInt 256 (t.maxValue - 1) := by
  have hsub : ∀ k, powerOfTwo k - 2 = .ofInt 256 (2 ^ k - 1 - 1) := by
    intro k
    rw [powerOfTwo_eq, sub_sub, ofInt_sub]
    rfl
  rw [IntegerType.maxValue]
  split_ifs
  · exact hsub _
  · exact hsub _

lemma powerOfTwo_sub_one (bits : ℕ) : powerOfTwo bits - 1 = mask bits := by
  have hpos := Nat.one_le_two_pow (n := bits)
  rw [powerOfTwo_eq, mask, ← ofInt_natCast, Nat.cast_sub hpos, ofInt_sub]
  push_cast
  rfl

lemma toNat_powerOfTwo {bits : ℕ} (h : bits < 256) : (powerOfTwo bits).toNat = 2 ^ bits := by
  have hpow : 2 ^ bits < 2 ^ 256 := Nat.pow_lt_pow_right (by norm_num) h
  rw [powerOfTwo, BitVec.toNat_shiftLeft, Nat.shiftLeft_eq]
  exact (congrArg (· % 2 ^ 256) (Nat.one_mul _)).trans (Nat.mod_eq_of_lt hpow)

lemma minValue_lt_maxValue (t : IntegerType) : t.minValue + 1 ≤ t.maxValue := by
  have hvalid := t.valid
  have hpow : (2 : ℤ) ^ 1 ≤ 2 ^ (t.numBits - 1) := pow_le_pow_right₀ (by norm_num) (by omega)
  have htwo := t.two_mul_pow_pred
  have hmodulus := t.modulus_eq
  rw [IntegerType.minValue, IntegerType.maxValue]
  split_ifs <;> omega

/-! ### The functions -/

lemma incrementCheckedFunction_exact (hm : t.minValue ≤ m ∧ m ≤ t.maxValue) :
    incrementCheckedFunction t (.ofInt 256 m) = t.exactResult (m + 1) := by
  have hlt := minValue_lt_maxValue t
  apply revertIf_eq_exactResult
  · rw [maxWord_sub_one_eq, greater_iff hm (by omega)]
    omega
  · rintro -
    rw [ofInt_add]
    rfl

lemma decrementCheckedFunction_exact (hm : t.minValue ≤ m ∧ m ≤ t.maxValue) :
    decrementCheckedFunction t (.ofInt 256 m) = t.exactResult (m - 1) := by
  have hlt := minValue_lt_maxValue t
  have hmin : (if t.isSigned then 0 - powerOfTwo (t.numBits - 1) + 1 else 1) =
      BitVec.ofInt 256 (t.minValue + 1) := by
    rw [ofInt_add]
    split_ifs with ht
    · rw [minWord_eq ht]
      rfl
    · rw [IntegerType.minValue, if_neg ht]
      rfl
  apply revertIf_eq_exactResult
  · rw [hmin, less_iff hm (by omega)]
    omega
  · rintro -
    rw [ofInt_sub]
    rfl

lemma negateNumberCheckedFunction_exact (ht : t.isSigned)
    (hm : t.minValue ≤ m ∧ m ≤ t.maxValue) :
    negateNumberCheckedFunction t (.ofInt 256 m) = t.exactResult (-m) := by
  have hlt := minValue_lt_maxValue t
  have hmin : 0 - powerOfTwo (t.numBits - 1) + 1 = BitVec.ofInt 256 (t.minValue + 1) := by
    rw [ofInt_add, minWord_eq ht]
    rfl
  have hbounds : t.maxValue = -t.minValue - 1 := by
    rw [IntegerType.maxValue, IntegerType.minValue, if_pos ht, if_pos ht, neg_neg]
  apply revertIf_eq_exactResult
  · have hless := less_iff hm (n := t.minValue + 1) (by omega)
    rw [ht, if_pos rfl] at hless
    rw [hmin, hless]
    omega
  · rintro -
    rw [ofInt_neg]
    exact BitVec.zero_sub _

section

variable (ht : t.isSigned = false) (hm : t.minValue ≤ m ∧ m ≤ t.maxValue)
  (hn : t.minValue ≤ n ∧ n ≤ t.maxValue)

include ht hm hn

lemma overflowCheckedUIntSubFunction_exact :
    overflowCheckedUIntSubFunction (.ofInt 256 m) (.ofInt 256 n) = t.exactResult (m - n) := by
  have hmin : t.minValue = 0 := by rw [IntegerType.minValue, ht, if_neg Bool.false_ne_true]
  apply revertIf_eq_exactResult
  · have hless := less_iff hm hn
    rw [ht, if_neg Bool.false_ne_true] at hless
    rw [hless]
    omega
  · rintro -
    rw [ofInt_sub]
    rfl

lemma unsigned_bounds :
    ((BitVec.ofInt 256 m).toNat : ℤ) = m ∧ ((BitVec.ofInt 256 n).toNat : ℤ) = n ∧
      t.minValue = 0 ∧ t.maxValue = (2 ^ t.numBits : ℕ) - 1 ∧
      (BitVec.ofInt 256 m).toNat < 2 ^ t.numBits ∧ (BitVec.ofInt 256 n).toNat < 2 ^ t.numBits := by
  have hx := toNat_of_clean hm rfl ht
  have hy := toNat_of_clean hn rfl ht
  have hmin : t.minValue = 0 := by rw [IntegerType.minValue, ht, if_neg Bool.false_ne_true]
  have hmax : t.maxValue = (2 ^ t.numBits : ℕ) - 1 := by
    rw [IntegerType.maxValue, ht, if_neg Bool.false_ne_true]
    push_cast
    rfl
  exact ⟨hx, hy, hmin, hmax, by omega, by omega⟩

lemma overflowCheckedUIntAddFunction_exact :
    overflowCheckedUIntAddFunction t.numBits (.ofInt 256 m) (.ofInt 256 n) =
      t.exactResult (m + n) := by
  obtain ⟨hx, hy, hmin, hmax, hxlt, hylt⟩ := unsigned_bounds ht hm hn
  rw [overflowCheckedUIntAddFunction]
  split_ifs with hbits
  · have hpow : 2 ^ t.numBits ≤ 2 ^ 255 := Nat.pow_le_pow_right (by norm_num) (by omega)
    have hpowers := powerOfTwo_sub_one t.numBits
    have hmask : ∀ {w : Word}, w.toNat < 2 ^ t.numBits →
        builtin .and [w, powerOfTwo t.numBits - 1] = w := by
      intro w hw
      apply eq_of_toNat_eq
      change (w &&& (powerOfTwo t.numBits - 1)).toNat = _
      rw [hpowers, BitVec.and_comm, toNat_and_mask t.valid.2.1, Nat.mod_eq_of_lt hw]
    have hsum : (BitVec.ofInt 256 m + BitVec.ofInt 256 n).toNat =
        (BitVec.ofInt 256 m).toNat + (BitVec.ofInt 256 n).toNat := by
      rw [BitVec.toNat_add, Nat.mod_eq_of_lt (by omega)]
    dsimp only
    rw [hmask hxlt, hmask hylt]
    apply revertIf_eq_exactResult
    · change (BitVec.ofInt 256 m + BitVec.ofInt 256 n) &&& ~~~(powerOfTwo t.numBits - 1) ≠ 0 ↔ _
      rw [hpowers, BitVec.and_comm, ne_eq, ← BitVec.toNat_inj,
        ValueType.toNat_and_not_mask t.valid.2.1, hsum]
      change ¬ _ * _ = 0 ↔ _
      rw [Nat.mul_eq_zero, or_iff_left (Nat.two_pow_pos _).ne', Nat.div_eq_zero_iff,
        or_iff_right (Nat.two_pow_pos _).ne']
      omega
    · exact fun _ => (ofInt_add _ _).symm
  · have hbits : t.numBits = 256 := by have := t.valid; omega
    rw [hbits] at hxlt hylt hmax
    apply revertIf_eq_exactResult
    · change Sof.Word.ofBool ((BitVec.ofInt 256 m + BitVec.ofInt 256 n).ult (.ofInt 256 m)) ≠ 0 ↔ _
      rw [ofBool_ne_zero, ult_iff_lt, lt_def, BitVec.toNat_add]
      omega
    · exact fun _ => (ofInt_add _ _).symm

lemma overflowCheckedUIntMulFunction_exact :
    overflowCheckedUIntMulFunction t.numBits (.ofInt 256 m) (.ofInt 256 n) =
      t.exactResult (m * n) := by
  obtain ⟨hx, hy, hmin, hmax, hxlt, hylt⟩ := unsigned_bounds ht hm hn
  have hmask : (mask t.numBits).toNat = 2 ^ t.numBits - 1 := by
    have hle : 2 ^ t.numBits ≤ 2 ^ 256 := Nat.pow_le_pow_right (by norm_num) t.valid.2.1
    exact toNat_ofNat_of_lt (by omega)
  have hpos := Nat.two_pow_pos t.numBits
  have hmul : m * n = ((BitVec.ofInt 256 m).toNat * (BitVec.ofInt 256 n).toNat : ℕ) := by
    rw [Nat.cast_mul, hx, hy]
  have hfits : t.minValue ≤ m * n ∧ m * n ≤ t.maxValue ↔
      (BitVec.ofInt 256 m).toNat * (BitVec.ofInt 256 n).toNat < 2 ^ t.numBits := by
    rw [hmin, hmax, hmul]
    omega
  apply revertIf_eq_exactResult
  · rw [powerOfTwo_sub_one, hfits]
    change Sof.Word.ofBool (Sof.Word.ofBool (BitVec.ofInt 256 m = 0) = 0) &&&
      Sof.Word.ofBool ((mask t.numBits / .ofInt 256 m).ult (.ofInt 256 n)) ≠ 0 ↔ _
    rw [ofBool_and, ofBool_ne_zero, Bool.and_eq_true, ult_iff_lt, lt_def,
      BitVec.toNat_udiv, hmask, decide_eq_true_eq, ← not_ne_iff, ofBool_ne_zero,
      decide_eq_true_eq, Nat.not_lt, ← BitVec.toNat_inj]
    change ¬ (BitVec.ofInt 256 m).toNat = 0 ∧ _ ↔ _
    constructor
    · rintro ⟨hne, hlt⟩
      rw [Nat.div_lt_iff_lt_mul (Nat.pos_of_ne_zero hne)] at hlt
      rw [Nat.mul_comm]
      omega
    · intro hle
      have hne : (BitVec.ofInt 256 m).toNat ≠ 0 := by
        intro hzero
        rw [hzero, Nat.zero_mul] at hle
        omega
      rw [Nat.div_lt_iff_lt_mul (Nat.pos_of_ne_zero hne), Nat.mul_comm]
      exact ⟨hne, by omega⟩
  · rw [hfits]
    intro hlt
    split_ifs with hbits
    · have hmodulus := toNat_powerOfTwo hbits
      have hne : powerOfTwo t.numBits ≠ 0 := by
        intro h
        rw [h] at hmodulus
        exact hpos.ne hmodulus
      change (if powerOfTwo t.numBits = 0 then 0 else BitVec.ofNat 256
        ((BitVec.ofInt 256 m).toNat * (BitVec.ofInt 256 n).toNat %
          (powerOfTwo t.numBits).toNat)) = _
      rw [if_neg hne, hmodulus, Nat.mod_eq_of_lt hlt, hmul, ofInt_natCast]
    · exact (BitVec.ofInt_mul _ _).symm

end

/-! ### Division -/

lemma tdiv_inRange_iff (ht : t.isSigned) (hm : t.minValue ≤ m ∧ m ≤ t.maxValue)
    (hn : n ≠ 0) :
    (t.minValue ≤ m.tdiv n ∧ m.tdiv n ≤ t.maxValue) ↔ ¬ (m = t.minValue ∧ n = -1) := by
  have hbounds : t.maxValue = -t.minValue - 1 := by
    rw [IntegerType.maxValue, IntegerType.minValue, if_pos ht, if_pos ht, neg_neg]
  have hlt := minValue_lt_maxValue t
  have habs : (m.tdiv n).natAbs = m.natAbs / n.natAbs := Int.natAbs_tdiv m n
  constructor
  · rintro ⟨-, hle⟩ ⟨rfl, rfl⟩
    rw [Int.tdiv_neg, Int.tdiv_one] at hle
    omega
  · intro hne
    by_cases hone : n.natAbs = 1
    · obtain rfl | rfl : n = 1 ∨ n = -1 := by omega
      · rwa [Int.tdiv_one]
      · rw [Int.tdiv_neg, Int.tdiv_one]
        omega
    · have hhalf : m.natAbs / n.natAbs ≤ m.natAbs / 2 :=
        Nat.div_le_div_left (by omega) (by norm_num)
      omega

lemma overflowCheckedIntDivFunction_exact (hm : t.minValue ≤ m ∧ m ≤ t.maxValue)
    (hn : t.minValue ≤ n ∧ n ≤ t.maxValue) :
    overflowCheckedIntDivFunction t (.ofInt 256 m) (.ofInt 256 n) =
      if n = 0 then .error .revert else t.exactResult (m.tdiv n) := by
  have hlt := minValue_lt_maxValue t
  have hzero : BitVec.ofInt 256 n = 0 ↔ n = 0 := ofInt_inj hn t.zero_inRange
  rw [overflowCheckedIntDivFunction, revertIf]
  change (if Sof.Word.ofBool (BitVec.ofInt 256 n = 0) ≠ 0 then _ else _) = _
  simp only [ofBool_ne_zero, decide_eq_true_eq, hzero]
  split_ifs with h0 ht
  · rfl
  · have hneg : t.minValue ≤ -1 ∧ -1 ≤ t.maxValue := by
      have hzero := t.zero_inRange
      rw [IntegerType.minValue, IntegerType.maxValue, if_pos ht, if_pos ht] at *
      omega
    apply revertIf_eq_exactResult
    · rw [minWord_eq ht, tdiv_inRange_iff ht hm h0, not_not]
      change Sof.Word.ofBool (BitVec.ofInt 256 m = .ofInt 256 t.minValue) &&&
        Sof.Word.ofBool (BitVec.ofInt 256 n = .ofInt 256 (-1)) ≠ 0 ↔ _
      rw [ofBool_and, ofBool_ne_zero, Bool.and_eq_true, decide_eq_true_eq, decide_eq_true_eq,
        ofInt_inj hm ⟨le_refl _, by omega⟩, ofInt_inj hn hneg]
    · intro hr
      apply BitVec.eq_of_toInt_eq
      change ((BitVec.ofInt 256 m).sdiv (.ofInt 256 n)).toInt = _
      rw [BitVec.toInt_sdiv, toInt_of_clean hm rfl ht,
        toInt_of_clean hn rfl ht, BitVec.toInt_ofInt]
  · have ht : t.isSigned = false := by simpa using ht
    obtain ⟨hx, hy, hmin, hmax, hxlt, hylt⟩ := unsigned_bounds ht hm hn
    have hquotient : m.tdiv n =
        ((BitVec.ofInt 256 m).toNat / (BitVec.ofInt 256 n).toNat : ℕ) := by
      rw [Int.natCast_div, hx, hy]
      exact Int.tdiv_eq_ediv_of_nonneg (by omega)
    have hle := Nat.div_le_self (BitVec.ofInt 256 m).toNat (BitVec.ofInt 256 n).toNat
    have hnonneg := Nat.zero_le ((BitVec.ofInt 256 m).toNat / (BitVec.ofInt 256 n).toNat)
    rw [IntegerType.exactResult, hquotient, if_pos ⟨by omega, by omega⟩, ofInt_natCast]
    congr 1
    apply eq_of_toNat_eq
    change ((BitVec.ofInt 256 m) / (.ofInt 256 n)).toNat = _
    rw [BitVec.toNat_udiv, toNat_ofNat_of_lt (hle.trans_lt (BitVec.isLt _))]

/-- Every function is exact on values of its type. -/
theorem checkedArithmetic_exact (t : IntegerType) (m n : ℤ)
    (hm : t.minValue ≤ m ∧ m ≤ t.maxValue) (hn : t.minValue ≤ n ∧ n ≤ t.maxValue) :
    let x := BitVec.ofInt 256 m
    let y := BitVec.ofInt 256 n
    (t.isSigned = false →
      overflowCheckedUIntAddFunction t.numBits x y = t.exactResult (m + n) ∧
      overflowCheckedUIntMulFunction t.numBits x y = t.exactResult (m * n) ∧
      overflowCheckedUIntSubFunction x y = t.exactResult (m - n)) ∧
    overflowCheckedIntDivFunction t x y =
      (if n = 0 then .error .revert else t.exactResult (m.tdiv n)) ∧
    incrementCheckedFunction t x = t.exactResult (m + 1) ∧
    decrementCheckedFunction t x = t.exactResult (m - 1) ∧
    (t.isSigned = true → negateNumberCheckedFunction t x = t.exactResult (-m)) :=
  ⟨fun ht => ⟨overflowCheckedUIntAddFunction_exact ht hm hn,
    overflowCheckedUIntMulFunction_exact ht hm hn, overflowCheckedUIntSubFunction_exact ht hm hn⟩,
    overflowCheckedIntDivFunction_exact hm hn, incrementCheckedFunction_exact hm,
    decrementCheckedFunction_exact hm, fun ht => negateNumberCheckedFunction_exact ht hm⟩

/-- The largest value of a byte, and one. -/
theorem checkedArithmetic_exact_byte :
    let t : IntegerType := ⟨8, false, by decide⟩
    t.exactResult (255 + 1) = .error .revert ∧
      overflowCheckedUIntAddFunction 8 (.ofInt 256 255) (.ofInt 256 1) =
        t.exactResult (255 + 1) :=
  ⟨by decide, ((checkedArithmetic_exact ⟨8, false, by decide⟩ 255 1 (by decide) (by decide)).1
    rfl).1⟩

end YulUtilFunctions

end Polynomial
