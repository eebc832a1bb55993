import Polc.Codegen.ExpressionCompiler.Conversions

/-!
# The code of operators

Which of the words that represent the operands may be dirty, and what the code of an operator
leaves for them.
-/

namespace Polynomial

open List Option IntegerType
open Sof (Word)
open CompilerUtils ExpressionCompiler

namespace IntegerType

variable {t : IntegerType} {a b : ℤ} {wa wb : Word}

lemma valueOf_of_modEq {w : Word} {n : ℤ} (h : (w.toNat : ℤ) ≡ n [ZMOD t.modulus]) :
    (ValueType.integer t).valueOf w = t.wrap n := wrap_congr h

lemma toNat_modEq (h : t.wrap wa.toNat = a) : (wa.toNat : ℤ) ≡ a [ZMOD t.modulus] := by
  rw [← h]
  exact (t.wrap_modEq _).symm

lemma valueOf_add (ha : t.wrap wa.toNat = a) (hb : t.wrap wb.toNat = b) :
    (ValueType.integer t).valueOf (wa + wb) = t.wrap (a + b) := by
  apply valueOf_of_modEq
  have hadd : ((wa + wb).toNat : ℤ) ≡ wa.toNat + wb.toNat [ZMOD (2 ^ 256 : ℕ)] := by
    rw [BitVec.toNat_add, Int.natCast_mod]
    push_cast
    exact Int.mod_modEq _ _
  exact (hadd.of_dvd t.modulus_dvd).trans ((toNat_modEq ha).add (toNat_modEq hb))

lemma valueOf_sub (ha : t.wrap wa.toNat = a) (hb : t.wrap wb.toNat = b) :
    (ValueType.integer t).valueOf (wa - wb) = t.wrap (a - b) := by
  apply valueOf_of_modEq
  have hsub : ((wa - wb).toNat : ℤ) ≡ wa.toNat - wb.toNat [ZMOD (2 ^ 256 : ℕ)] := by
    have hb' := wb.isLt
    rw [BitVec.toNat_sub, Int.natCast_mod]
    refine (Int.mod_modEq _ _).trans ?_
    rw [Nat.cast_add, Nat.cast_sub hb'.le]
    exact Int.modEq_iff_dvd.mpr ⟨-1, by ring⟩
  exact (hsub.of_dvd t.modulus_dvd).trans ((toNat_modEq ha).sub (toNat_modEq hb))

lemma valueOf_mul (ha : t.wrap wa.toNat = a) (hb : t.wrap wb.toNat = b) :
    (ValueType.integer t).valueOf (wa * wb) = t.wrap (a * b) := by
  apply valueOf_of_modEq
  have hmul : ((wa * wb).toNat : ℤ) ≡ wa.toNat * wb.toNat [ZMOD (2 ^ 256 : ℕ)] := by
    rw [BitVec.toNat_mul, Int.natCast_mod]
    push_cast
    exact Int.mod_modEq _ _
  exact (hmul.of_dvd t.modulus_dvd).trans ((toNat_modEq ha).mul (toNat_modEq hb))

lemma ofInt_eq_setWidth (ha : t.wrap wa.toNat = a) :
    BitVec.ofInt t.numBits a = wa.setWidth t.numBits := by
  rw [← ha, wrap_toNat_eq_ofBits, ofBits]
  split_ifs
  · exact BitVec.ofInt_toInt
  · rw [BitVec.ofInt_natCast, BitVec.ofNat_toNat, BitVec.setWidth_eq]

lemma valueOf_not (ha : t.wrap wa.toNat = a) :
    (ValueType.integer t).valueOf (~~~wa) = t.ofBits (~~~(.ofInt _ a)) := by
  rw [ofInt_eq_setWidth ha, ← BitVec.setWidth_not t.valid.2.1]
  exact wrap_toNat_eq_ofBits _

lemma valueOf_bitOperation (op : BinaryOperator) (ha : t.wrap wa.toNat = a)
    (hb : t.wrap wb.toNat = b) :
    (ValueType.integer t).valueOf (bitOperation op wa wb) =
      t.ofBits (bitOperation op (.ofInt _ a) (.ofInt _ b)) := by
  rw [ofInt_eq_setWidth ha, ofInt_eq_setWidth hb]
  refine (wrap_toNat_eq_ofBits _).trans (congrArg _ ?_)
  unfold bitOperation
  split
  · exact BitVec.setWidth_or
  · exact BitVec.setWidth_xor
  · exact BitVec.setWidth_and

/-! ### Operators on integers that need clean words -/

lemma zero_inRange (t : IntegerType) : t.minValue ≤ 0 ∧ 0 ≤ t.maxValue := by
  have hpred : (0 : ℤ) < 2 ^ (t.numBits - 1) := by positivity
  have hpow : (0 : ℤ) < 2 ^ t.numBits := by positivity
  unfold minValue maxValue
  split_ifs
  · omega
  · omega

/-- The word is the value in all its bits. -/
structure Clean (t : IntegerType) (a : ℤ) (w : Word) : Prop where
  inRange : t.minValue ≤ a ∧ a ≤ t.maxValue
  word : w = .ofInt 256 a

lemma Clean.of_isClean (h : (ValueType.integer t).IsClean a wa) : t.Clean a wa := by
  obtain ⟨hvalue, hword⟩ := h
  refine ⟨?_, hword nofun⟩
  rw [← hvalue]
  exact wrap_inRange _

namespace Clean

lemma toNat_eq (h : t.Clean a wa) (ht : t.isSigned = false) : (wa.toNat : ℤ) = a :=
  toNat_of_clean h.inRange h.word ht

lemma toInt_eq (h : t.Clean a wa) (ht : t.isSigned) : wa.toInt = a :=
  toInt_of_clean h.inRange h.word ht

lemma toNat_eq_of_nonneg (h : t.Clean a wa) (ha : 0 ≤ a) : (wa.toNat : ℤ) = a := by
  have hbounds := bounds_of_inRange h.inRange
  rw [h.word, BitVec.toNat_ofInt]
  push_cast
  omega

lemma eq_zero_iff (h : t.Clean a wa) : wa = 0 ↔ a = 0 := by
  constructor
  · intro hw
    have hvalue := wrap_of_inRange h.inRange
    rw [← wrap_toNat_ofInt, ← h.word, hw] at hvalue
    exact hvalue.symm.trans (wrap_of_inRange t.zero_inRange)
  · rintro rfl
    rw [h.word]
    rfl

end Clean

lemma valueOf_div (ha : t.Clean a wa) (hb : t.Clean b wb) :
    (ValueType.integer t).valueOf (if t.isSigned then wa.sdiv wb else wa / wb) =
      t.wrap (a.tdiv b) := by
  split_ifs with ht
  · rw [ValueType.valueOf, ← wrap_toInt, BitVec.toInt_sdiv, ha.toInt_eq ht, hb.toInt_eq ht]
    exact wrap_congr_word Int.bmod_emod
  · have ht' : t.isSigned = false := by simpa using ht
    rw [ValueType.valueOf, BitVec.toNat_udiv, Int.natCast_div, ha.toNat_eq ht', hb.toNat_eq ht',
      Int.tdiv_eq_ediv_of_nonneg]
    rw [← ha.toNat_eq ht']
    exact Int.natCast_nonneg _

lemma wrap_of_between {n : ℤ} (h : t.minValue ≤ a ∧ a ≤ t.maxValue)
    (hn : (0 ≤ n ∧ n ≤ a) ∨ (a ≤ n ∧ n ≤ 0)) : t.wrap n = n := by
  have hzero := t.zero_inRange
  apply wrap_of_inRange
  omega

lemma tmod_between (a b : ℤ) : (0 ≤ a.tmod b ∧ a.tmod b ≤ a) ∨ (a ≤ a.tmod b ∧ a.tmod b ≤ 0) := by
  have h : (a.tmod b).natAbs ≤ a.natAbs := by
    rw [Int.natAbs_tmod]
    exact Nat.mod_le _ _
  rcases le_total 0 a with ha | ha
  · have hnonneg := Int.tmod_nonneg b ha
    omega
  · have hneg := Int.neg_tmod a b
    have hnonneg := Int.tmod_nonneg b (show 0 ≤ -a by omega)
    omega

lemma valueOf_mod (ha : t.Clean a wa) (hb : t.Clean b wb) (hb₀ : b ≠ 0) :
    (ValueType.integer t).valueOf
      (if t.isSigned then if wb = 0 then 0 else wa.srem wb else if wb = 0 then 0 else wa % wb) =
      a.tmod b := by
  have hwb : wb ≠ 0 := fun h => hb₀ (hb.eq_zero_iff.mp h)
  rw [if_neg hwb, if_neg hwb]
  have hwrap := wrap_of_between ha.inRange (tmod_between a b)
  split_ifs with ht
  · rw [ValueType.valueOf, ← wrap_toInt, BitVec.toInt_srem, ha.toInt_eq ht, hb.toInt_eq ht, hwrap]
  · have ht' : t.isSigned = false := by simpa using ht
    have hnonneg : 0 ≤ a := by
      rw [← ha.toNat_eq ht']
      exact Int.natCast_nonneg _
    rw [ValueType.valueOf, BitVec.toNat_umod, Int.natCast_mod, ha.toNat_eq ht', hb.toNat_eq ht',
      ← Int.tmod_eq_emod_of_nonneg hnonneg, hwrap]

lemma valueOf_exp (ht : t.isSigned = false) (ha : t.Clean a wa) (hb : t.Clean b wb) :
    (ValueType.integer t).valueOf (.ofNat 256 (wa.toNat ^ wb.toNat)) = t.wrap (a ^ b.toNat) := by
  have hb' : wb.toNat = b.toNat := by
    rw [← hb.toNat_eq ht]
    rfl
  apply valueOf_of_modEq
  rw [BitVec.toNat_ofNat, Int.natCast_mod, Nat.cast_pow, ha.toNat_eq ht, hb']
  exact (Int.mod_modEq _ _).of_dvd t.modulus_dvd

end IntegerType

/-! ### Shifts -/

section

variable (hasBitwiseShifting : Bool) (wa wb : Word)

lemma toNat_two_pow_word : (BitVec.ofNat 256 ((2 : Word).toNat ^ wb.toNat)).toNat =
    2 ^ wb.toNat % 2 ^ 256 := BitVec.toNat_ofNat _ _

lemma two_pow_dvd_of_le (h : 256 ≤ wb.toNat) : 2 ^ 256 ∣ 2 ^ wb.toNat := pow_dvd_pow 2 h

lemma div_two_pow_mod : wa.toNat / (2 ^ wb.toNat % 2 ^ 256) = wa.toNat / 2 ^ wb.toNat := by
  by_cases h : wb.toNat < 256
  · rw [Nat.mod_eq_of_lt (Nat.pow_lt_pow_right (by norm_num) h)]
  · have hdvd := two_pow_dvd_of_le wb (Nat.not_lt.mp h)
    rw [Nat.mod_eq_zero_of_dvd hdvd, Nat.div_zero, Nat.div_eq_of_lt]
    exact wa.isLt.trans_le (Nat.le_of_dvd (Nat.two_pow_pos _) hdvd)

lemma exec_shiftLeft : ∃ w : Word, w.toNat = wa.toNat * 2 ^ wb.toNat % 2 ^ 256 ∧ ∀ s,
    exec (if hasBitwiseShifting then operations [.shl]
      else [.push 2, .operation .exp, .operation .mul]) (wb :: wa :: s) = .stack (w :: s) := by
  split_ifs
  · refine ⟨.shl wb wa, ?_, fun s => exec_shl [] s wb wa⟩
    unfold Sof.Word.shl
    split_ifs with h
    · rw [Nat.mod_eq_zero_of_dvd ((two_pow_dvd_of_le wb h).mul_left _)]
      rfl
    · rw [BitVec.toNat_shiftLeft, Nat.shiftLeft_eq]
  · refine ⟨.ofNat 256 ((2 : Word).toNat ^ wb.toNat) * wa, ?_, fun s => by
      simp only [exec_push, exec_exp, exec_mul, exec_nil]⟩
    rw [BitVec.toNat_mul, toNat_two_pow_word, Nat.mod_mul_mod, Nat.mul_comm]

lemma exec_shiftRight : ∃ w : Word, w.toNat = wa.toNat / 2 ^ wb.toNat ∧ ∀ s,
    exec (if hasBitwiseShifting then operations [.shr] else unsignedShiftCode ++ operations [.pop])
      (wb :: wa :: s) = .stack (w :: s) := by
  split_ifs
  · refine ⟨.shr wb wa, ?_, fun s => exec_shr [] s wb wa⟩
    unfold Sof.Word.shr
    split_ifs with h
    · have hdvd := two_pow_dvd_of_le wb h
      rw [Nat.div_eq_of_lt (wa.isLt.trans_le (Nat.le_of_dvd (Nat.two_pow_pos _) hdvd))]
      rfl
    · rw [BitVec.toNat_ushiftRight, Nat.shiftRight_eq_div_pow]
  · refine ⟨wa / .ofNat 256 ((2 : Word).toNat ^ wb.toNat), ?_, fun s => rfl⟩
    rw [BitVec.toNat_udiv, toNat_two_pow_word, div_two_pow_mod]

lemma neg_sub_one_ediv (n : ℤ) {k : ℤ} (hk : 0 < k) : -((-n - 1) / k) - 1 = n / k := by
  have hdiv := Int.mul_ediv_add_emod (-n - 1) k
  have hlow := Int.emod_nonneg (-n - 1) hk.ne'
  have hhigh := Int.emod_lt_of_pos (-n - 1) hk
  have hmul : k * (-((-n - 1) / k) - 1) = -(k * ((-n - 1) / k)) - k := by ring
  exact (((Int.ediv_emod_unique (r := k - 1 - (-n - 1) % k) hk).mpr
    ⟨by omega, by omega, by omega⟩).1).symm

lemma toInt_xor_allOnes (w : Word) : (w ^^^ .allOnes 256).toInt = -w.toInt - 1 := by
  have hw := w.isLt
  rw [BitVec.xor_allOnes, BitVec.toInt_eq_toNat_cond, BitVec.toInt_eq_toNat_cond, BitVec.toNat_not]
  split_ifs <;> omega

lemma ediv_two_pow_min {n : ℤ} (hn : -2 ^ 255 ≤ n ∧ n < 2 ^ 255) (k : ℕ) :
    n / 2 ^ min k 256 = n / 2 ^ k := by
  by_cases h : k ≤ 256
  · rw [Nat.min_eq_left h]
  · have hle : (2 : ℤ) ^ 256 ≤ 2 ^ k := pow_le_pow_right₀ (by norm_num) (by omega)
    rw [Nat.min_eq_right (by omega)]
    rcases lt_or_ge n 0 with hneg | hpos
    · rw [Int.ediv_eq_neg_one_of_neg_of_le hneg (by omega),
        Int.ediv_eq_neg_one_of_neg_of_le hneg (by omega)]
    · rw [Int.ediv_eq_zero_of_lt hpos (by omega), Int.ediv_eq_zero_of_lt hpos (by omega)]

lemma toInt_bounds (w : Word) : -2 ^ 255 ≤ w.toInt ∧ w.toInt < 2 ^ 255 :=
  ⟨BitVec.le_toInt w, BitVec.toInt_lt⟩

lemma exec_arithmeticShiftRight : ∃ w : Word, w.toInt = wa.toInt / 2 ^ wb.toNat ∧ ∀ s,
    exec (if hasBitwiseShifting then operations [.sar] else signedShiftCode ++ operations [.pop])
      (wb :: wa :: s) = .stack (w :: s) := by
  split_ifs
  · refine ⟨.sar wb wa, ?_, fun s => exec_sar [] s wb wa⟩
    rw [Sof.Word.sar, BitVec.toInt_sshiftRight, Int.shiftRight_eq_div_pow]
    push_cast
    exact ediv_two_pow_min (toInt_bounds wa) _
  · set xorMask : Word := 0 - .ofBool (wa.slt 0)
    refine ⟨(wa ^^^ xorMask) / .ofNat 256 ((2 : Word).toNat ^ wb.toNat) ^^^ xorMask, ?_, fun s => rfl⟩
    have hdiv : ∀ w : Word, 0 ≤ w.toInt →
        (w / .ofNat 256 ((2 : Word).toNat ^ wb.toNat)).toInt = w.toInt / 2 ^ wb.toNat := by
      intro w hw
      have hnat : (w.toNat : ℤ) = w.toInt := by
        rw [BitVec.toInt_eq_toNat_of_msb (by rwa [BitVec.msb_eq_toInt, decide_eq_false_iff_not,
          Int.not_lt])]
      have hle := Nat.div_le_self w.toNat (2 ^ wb.toNat)
      have hbound := toInt_bounds w
      rw [BitVec.toInt_eq_toNat_of_lt, BitVec.toNat_udiv, toNat_two_pow_word, div_two_pow_mod,
        ← hnat]
      · push_cast
        rfl
      · rw [BitVec.toNat_udiv, toNat_two_pow_word, div_two_pow_mod]
        omega
    have hslt : wa.slt 0 = decide (wa.toInt < 0) := rfl
    by_cases hneg : wa.toInt < 0
    · have hmask : xorMask = .allOnes 256 := by
        simp only [xorMask, hslt, hneg, decide_true]
        rfl
      rw [hmask, toInt_xor_allOnes, hdiv _ (by rw [toInt_xor_allOnes]; omega), toInt_xor_allOnes,
        neg_sub_one_ediv _ (by positivity)]
    · have hmask : xorMask = 0 := by
        simp only [xorMask, hslt, hneg, decide_false]
        rfl
      have hxor : ∀ w : Word, w ^^^ 0 = w := fun _ => BitVec.xor_zero
      rw [hmask, hxor, hxor, hdiv _ (by omega)]

end

/-! ### Comparisons -/

namespace ValueType

variable {t : ValueType} {a b : ℤ} {wa wb : Word}

/-- The factor by which clean words are larger than the values. -/
def scale : ValueType → ℕ
  | fixedBytes t => 2 ^ t.padding
  | _ => 1

lemma scale_pos (t : ValueType) : 0 < t.scale := by
  cases t with
  | fixedBytes t => exact Nat.two_pow_pos _
  | _ => exact Nat.one_pos

def isFunction : ValueType → Bool
  | function _ => true
  | _ => false

lemma toNat_of_isClean (ht : t.isWordType) (hf : t.isFunction = false)
    (hs : t.isSigned = false) (h : t.IsClean a wa) : (wa.toNat : ℤ) = a * t.scale := by
  obtain ⟨hvalue, hword⟩ := h
  cases t with
  | integer t =>
    rw [(IntegerType.Clean.of_isClean ⟨hvalue, hword⟩).toNat_eq hs]
    exact (mul_one a).symm
  | fixedBytes t =>
    have hw := hword nofun
    have hle := Nat.div_mul_le_self wa.toNat (2 ^ t.padding)
    have hlt := wa.isLt
    have hcast : a * 2 ^ t.padding = ((wa.toNat / 2 ^ t.padding * 2 ^ t.padding : ℕ) : ℤ) := by
      rw [← hvalue]
      push_cast
      rfl
    change wa = .ofInt 256 (a * 2 ^ t.padding) at hw
    change (wa.toNat : ℤ) = a * ((2 ^ t.padding : ℕ) : ℤ)
    push_cast
    rw [hcast] at hw ⊢
    conv_lhs => rw [hw]
    rw [BitVec.ofInt_natCast, toNat_ofNat_of_lt (hle.trans_lt hlt)]
  | bool =>
    have hw := hword nofun
    change (if wa = 0 then (0 : ℤ) else 1) = a at hvalue
    split_ifs at hvalue with hzero
    · subst hvalue
      rw [hzero]
      rfl
    · subst hvalue
      rw [hw]
      rfl
  | enum t =>
    rw [← hvalue]
    exact (mul_one _).symm
  | address | contract =>
    have hw := hword nofun
    change ((wa.toNat % 2 ^ 160 : ℕ) : ℤ) = a at hvalue
    change wa = .ofInt 256 a at hw
    rw [hw, ← hvalue, BitVec.ofInt_natCast, toNat_ofNat_of_lt (by omega)]
    exact (mul_one _).symm
  | function => cases hf
  | rationalNumber | stringLiteral => cases ht

lemma eq_iff_of_isClean (hf : t.isFunction = false) (ha : t.IsClean a wa) (hb : t.IsClean b wb) :
    wa = wb ↔ a = b := by
  have hne : ∀ f, t ≠ function f := by
    rintro f rfl
    cases hf
  constructor
  · rintro rfl
    rw [← ha.1, ← hb.1]
  · rintro rfl
    rw [ha.2 hne, hb.2 hne]

/-- The comparison of clean words for the signedness of the type is that of the values. -/
lemma lt_of_isClean (ht : t.isWordType) (hf : t.isFunction = false) (ha : t.IsClean a wa)
    (hb : t.IsClean b wb) : (if t.isSigned then wa.slt wb else wa.ult wb) = decide (a < b) := by
  split_ifs with hs
  · cases t with
    | integer t =>
      rw [BitVec.slt_eq_decide, (IntegerType.Clean.of_isClean ha).toInt_eq hs,
        (IntegerType.Clean.of_isClean hb).toInt_eq hs]
    | _ => cases hs
  · have hs' : t.isSigned = false := by simpa using hs
    have hscale : (0 : ℤ) < t.scale := Int.natCast_pos.mpr t.scale_pos
    rw [BitVec.ult]
    apply decide_eq_decide.mpr
    rw [← Int.ofNat_lt, toNat_of_isClean ht hf hs' ha, toNat_of_isClean ht hf hs' hb]
    exact mul_lt_mul_iff_left₀ hscale

lemma valueOf_bool_ofBool (p : Bool) : bool.valueOf (.ofBool p) = if p then 1 else 0 := by
  cases p
  · rfl
  · rfl

lemma ofBool_eq_zero (p : Bool) : decide (Sof.Word.ofBool p = 0) = !p := by
  cases p
  · rfl
  · rfl

variable {c : Code}

lemma yields_bool {ws : List Word} {p : Bool}
    (h : ∀ s, exec c (ws ++ s) = .stack (.ofBool p :: s)) :
    Yields c ws bool.Represents (.ok (if p then 1 else 0) : Except Failure ℤ) :=
  .ok ⟨_, rfl, valueOf_bool_ofBool p⟩ h

lemma mask_eq_iff {t : FunctionType} (ha : (function t).valueOf wa = a)
    (hb : (function t).valueOf wb = b) : mask 32 &&& wb = mask 32 &&& wa ↔ a = b := by
  rw [← ha, ← hb, BitVec.toNat_inj.symm, toNat_and_mask (by norm_num),
    toNat_and_mask (by norm_num), valueOf, valueOf, Int.natCast_inj]
  exact eq_comm

lemma exec_equal (ht : t.isWordType) (ha : t.IsClean a wa) (hb : t.IsClean b wb) (c : Code)
    (s : List Word) :
    exec (maskFunctionsCode t ++ .operation .eq :: c) (wa :: wb :: s) =
      exec c (.ofBool (a = b) :: s) := by
  by_cases hf : t.isFunction = true
  · cases t with
    | function t =>
      have hinternal : t.isExternal = false := by simpa [isWordType] using ht
      have heq : decide (mask 32 &&& wb = mask 32 &&& wa) = decide (a = b) :=
        decide_eq_decide.mpr (mask_eq_iff ha.1 hb.1)
      simp only [maskFunctionsCode, hinternal, Bool.false_eq_true, if_false, cons_append,
        nil_append, exec_push, exec_and, exec_swap_zero, exec_eq, heq]
    | _ => cases hf
  · have heq : decide (wa = wb) = decide (a = b) :=
      decide_eq_decide.mpr (eq_iff_of_isClean (by simpa using hf) ha hb)
    cases t with
    | function t => exact absurd rfl hf
    | _ => simp only [maskFunctionsCode, nil_append, exec_eq, heq]

lemma ofBool_isZero (p : Bool) : Sof.Word.ofBool (decide (Sof.Word.ofBool p = 0)) = .ofBool !p :=
  congrArg _ (ofBool_eq_zero p)

variable {op : BinaryOperator}

lemma appendCompareOperatorCode_represents (h : appendCompareOperatorCode op t = some c)
    (ht : t.isWordType) (hfunction : t.isFunction → op = .equal ∨ op = .notEqual)
    (ha : t.IsClean a wa) (hb : t.IsClean b wb) :
    Yields c [wa, wb] bool.Represents
      (.ok (if comparison op a b then 1 else 0) : Except Failure ℤ) := by
  have hlt : ∀ (c : Code) s, t.isFunction = false →
      exec (operations [if t.isSigned then .slt else .lt] ++ c) (wa :: wb :: s) =
        exec c (.ofBool (decide (a < b)) :: s) := by
    intro c s hf
    have h := lt_of_isClean ht hf ha hb
    by_cases hs : t.isSigned = true
    · rw [if_pos hs] at h ⊢
      rw [← h]
      exact exec_slt c s wa wb
    · rw [if_neg hs] at h ⊢
      rw [← h]
      exact exec_lt c s wa wb
  have hgt : ∀ (c : Code) s, t.isFunction = false →
      exec (operations [if t.isSigned then .sgt else .gt] ++ c) (wa :: wb :: s) =
        exec c (.ofBool (decide (b < a)) :: s) := by
    intro c s hf
    have h := lt_of_isClean ht hf hb ha
    by_cases hs : t.isSigned = true
    · rw [if_pos hs] at h ⊢
      rw [← h]
      exact exec_sgt c s wa wb
    · rw [if_neg hs] at h ⊢
      rw [← h]
      exact exec_gt c s wa wb
  have hnot : op ≠ .equal → op ≠ .notEqual → t.isFunction = false := by
    intro h₁ h₂
    by_contra h
    rcases hfunction (by simpa using h) with h | h
    · exact h₁ h
    · exact h₂ h
  cases op with
  | equal =>
    cases h
    exact yields_bool fun s => exec_equal ht ha hb [] s
  | notEqual =>
    cases h
    refine yields_bool fun s => ?_
    refine (exec_equal ht ha hb (operations [.iszero]) s).trans ?_
    change Outcome.stack (.ofBool (decide (Sof.Word.ofBool (decide (a = b)) = 0)) :: s) = _
    rw [ofBool_isZero, ← decide_not]
    rfl
  | lessThan =>
    cases h
    exact yields_bool fun s => hlt [] s (hnot nofun nofun)
  | greaterThan =>
    cases h
    exact yields_bool fun s => hgt [] s (hnot nofun nofun)
  | lessThanOrEqual =>
    cases h
    refine yields_bool fun s => ?_
    refine (hgt (operations [.iszero]) s (hnot nofun nofun)).trans ?_
    change Outcome.stack (.ofBool (decide (Sof.Word.ofBool (decide (b < a)) = 0)) :: s) = _
    rw [ofBool_isZero, ← decide_not]
    simp only [comparison, Int.not_lt]
  | greaterThanOrEqual =>
    cases h
    refine yields_bool fun s => ?_
    refine (hlt (operations [.iszero]) s (hnot nofun nofun)).trans ?_
    change Outcome.stack (.ofBool (decide (Sof.Word.ofBool (decide (a < b)) = 0)) :: s) = _
    rw [ofBool_isZero, ← decide_not]
    simp only [comparison, Int.not_lt]
  | _ => cases h

/-! ### Arithmetic and bit operators -/

/-- What is known of the word of an operand: it represents the value, cleanly if asked for. -/
def IsOperand (t : ValueType) (cleanupNeeded : Bool) (v : ℤ) (w : Word) : Prop :=
  t.valueOf w = v ∧ (cleanupNeeded = true → t.IsClean v w)

lemma exec_testForZero {t : IntegerType} (hb : t.Clean b wb) (c : Code) (s : List Word) :
    exec ([.operation (.dup 1), .operation .iszero, .conditionalInvalid] ++ c) (wa :: wb :: s) =
      if b = 0 then .invalid else exec c (wa :: wb :: s) := by
  simp only [cons_append, nil_append, exec_dup_one, exec_iszero,
    exec_conditionalInvalid_ofBool, decide_eq_true_eq, hb.eq_zero_iff]

lemma appendArithmeticOperatorCode_represents {t : IntegerType}
    (h : appendArithmeticOperatorCode op t = some c) (hexp : op = .exp → t.isSigned = false)
    (ha : (integer t).IsOperand (cleanupNeededForOp (integer t) op) a wa)
    (hb : (integer t).IsOperand (cleanupNeededForOp (integer t) op) b wb) :
    Yields c [wa, wb] (integer t).Represents (integerOperation t op a b) := by
  cases op with
  | add =>
    cases h
    exact .ok ⟨_, rfl, valueOf_add ha.1 hb.1⟩ fun s => exec_add [] s wa wb
  | sub =>
    cases h
    exact .ok ⟨_, rfl, valueOf_sub ha.1 hb.1⟩ fun s => exec_sub [] s wa wb
  | mul =>
    cases h
    exact .ok ⟨_, rfl, valueOf_mul ha.1 hb.1⟩ fun s => exec_mul [] s wa wb
  | div =>
    cases h
    have hca := IntegerType.Clean.of_isClean (ha.2 rfl)
    have hcb := IntegerType.Clean.of_isClean (hb.2 rfl)
    by_cases hzero : b = 0
    · rw [integerOperation, if_pos hzero]
      intro s
      exact (exec_testForZero hcb _ s).trans (if_pos hzero)
    · rw [integerOperation, if_neg hzero]
      refine .ok ⟨_, rfl, valueOf_div hca hcb⟩ fun s => ?_
      refine (exec_testForZero hcb _ s).trans ((if_neg hzero).trans ?_)
      cases t.isSigned
      · exact exec_div [] s wa wb
      · exact exec_sdiv [] s wa wb
  | mod =>
    cases h
    have hca := IntegerType.Clean.of_isClean (ha.2 rfl)
    have hcb := IntegerType.Clean.of_isClean (hb.2 rfl)
    by_cases hzero : b = 0
    · rw [integerOperation, if_pos hzero]
      intro s
      exact (exec_testForZero hcb _ s).trans (if_pos hzero)
    · rw [integerOperation, if_neg hzero]
      refine .ok ⟨_, rfl, valueOf_mod hca hcb hzero⟩ fun s => ?_
      refine (exec_testForZero hcb _ s).trans ((if_neg hzero).trans ?_)
      cases t.isSigned
      · exact exec_mod [] s wa wb
      · exact exec_smod [] s wa wb
  | exp =>
    cases h
    have hca := IntegerType.Clean.of_isClean (ha.2 rfl)
    have hcb := IntegerType.Clean.of_isClean (hb.2 rfl)
    exact .ok ⟨_, rfl, valueOf_exp (hexp rfl) hca hcb⟩ fun s => exec_exp [] s wa wb
  | _ => cases h

lemma ofInt_eq_extract {t : FixedBytesType} (ha : (fixedBytes t).valueOf wa = a) :
    BitVec.ofInt (t.numBytes * 8) a = wa.extractLsb' t.padding (t.numBytes * 8) := by
  rw [← ha]
  apply BitVec.eq_of_toNat_eq
  rw [BitVec.extractLsb'_toNat, Nat.shiftRight_eq_div_pow]
  change (BitVec.ofInt _ ((wa.toNat / 2 ^ t.padding : ℕ) : ℤ)).toNat = _
  rw [BitVec.ofInt_natCast, BitVec.toNat_ofNat]

lemma valueOf_fixedBytes_eq_extract (t : FixedBytesType) (w : Word) :
    (fixedBytes t).valueOf w = (w.extractLsb' t.padding (t.numBytes * 8)).toNat := by
  rw [BitVec.extractLsb'_toNat, Nat.shiftRight_eq_div_pow, Nat.mod_eq_of_lt]
  · rfl
  · apply Nat.div_lt_of_lt_mul
    rw [Nat.mul_comm, t.two_pow_eq]
    exact w.isLt

lemma valueOf_fixedBytes_bitOperation {t : FixedBytesType} (op : BinaryOperator)
    (ha : (fixedBytes t).valueOf wa = a) (hb : (fixedBytes t).valueOf wb = b) :
    (fixedBytes t).valueOf (bitOperation op wa wb) =
      (bitOperation op (BitVec.ofInt (t.numBytes * 8) a) (.ofInt _ b)).toNat := by
  rw [ofInt_eq_extract ha, ofInt_eq_extract hb, valueOf_fixedBytes_eq_extract]
  congr 2
  unfold bitOperation
  split
  · exact BitVec.extractLsb'_or
  · exact BitVec.extractLsb'_xor
  · exact BitVec.extractLsb'_and

lemma exec_bitOperatorCode (h : appendBitOperatorCode op = some c) (s : List Word) :
    exec c (wa :: wb :: s) = .stack (bitOperation op wa wb :: s) := by
  cases op with
  | bitOr =>
    cases h
    exact exec_or [] s wa wb
  | bitXor =>
    cases h
    exact exec_xor [] s wa wb
  | bitAnd =>
    cases h
    exact exec_and [] s wa wb
  | _ => cases h

lemma isBitOp_of_appendBitOperatorCode (h : appendBitOperatorCode op = some c) :
    op.isBitOp := by
  cases op <;> first | rfl | cases h

lemma integerOperation_of_isBitOp {t : IntegerType} (h : op.isBitOp) :
    integerOperation t op a b = .ok (t.ofBits (bitOperation op (.ofInt _ a) (.ofInt _ b))) := by
  cases op <;> first | rfl | cases h

lemma fixedBytesOperation_of_isBitOp {t : FixedBytesType} (h : op.isBitOp) :
    fixedBytesOperation t op a b =
      .ok (bitOperation op (BitVec.ofInt (t.numBytes * 8) a) (.ofInt _ b)).toNat := by
  cases op <;> first | rfl | cases h

/-! ### Shift operators -/

lemma exec_testForNegative {t : IntegerType} (hb : t.Clean b wb) (c : Code) (s : List Word) :
    exec (testForNegativeCode t.isSigned ++ c) (wa :: wb :: s) =
      if b < 0 then .invalid else exec c (wa :: wb :: s) := by
  unfold testForNegativeCode
  split_ifs with hs hneg hneg
  · have hslt : wb.slt 0 = true := by
      rw [BitVec.slt_eq_decide, hb.toInt_eq hs]
      exact decide_eq_true hneg
    simp only [cons_append, nil_append, exec_push]
    rw [exec_dup (n := 2) _ _ wb rfl]
    simp only [exec_slt, exec_conditionalInvalid_ofBool, hslt, if_true]
  · have hslt : wb.slt 0 = false := by
      rw [BitVec.slt_eq_decide, hb.toInt_eq hs]
      exact decide_eq_false hneg
    simp only [cons_append, nil_append, exec_push]
    rw [exec_dup (n := 2) _ _ wb rfl]
    simp only [exec_slt, exec_conditionalInvalid_ofBool, hslt, Bool.false_eq_true, if_false]
  · have hnonneg := Int.natCast_nonneg wb.toNat
    rw [hb.toNat_eq (by simpa using hs)] at hnonneg
    omega
  · rfl

variable {w : Word} {k : ℕ}

lemma valueOf_shiftLeft {t : IntegerType} (ha : t.wrap wa.toNat = a)
    (hw : w.toNat = wa.toNat * 2 ^ k % 2 ^ 256) : (integer t).valueOf w = t.wrap (a * 2 ^ k) := by
  apply valueOf_of_modEq
  rw [hw, Int.natCast_mod]
  push_cast
  exact ((Int.mod_modEq _ _).of_dvd t.modulus_dvd).trans ((toNat_modEq ha).mul_right _)

lemma ediv_between (n : ℤ) (k : ℕ) :
    (0 ≤ n / 2 ^ k ∧ n / 2 ^ k ≤ n) ∨ (n ≤ n / 2 ^ k ∧ n / 2 ^ k ≤ 0) := by
  have hpos : (0 : ℤ) < 2 ^ k := by positivity
  rcases le_or_gt 0 n with hn | hn
  · exact .inl ⟨Int.ediv_nonneg hn hpos.le, Int.ediv_le_self _ hn⟩
  · refine .inr ⟨?_, (Int.ediv_neg_of_neg_of_pos hn hpos).le⟩
    apply (Int.le_ediv_iff_mul_le hpos).mpr
    nlinarith

lemma valueOf_shiftRight {t : IntegerType} (ha : t.Clean a wa)
    (hunsigned : t.isSigned = false → w.toNat = wa.toNat / 2 ^ k)
    (hsigned : t.isSigned → w.toInt = wa.toInt / 2 ^ k) :
    (integer t).valueOf w = a / 2 ^ k := by
  have hwrap := wrap_of_between ha.inRange (ediv_between a k)
  cases ht : t.isSigned with
  | false =>
    rw [valueOf, hunsigned ht, Int.natCast_div, ha.toNat_eq ht]
    push_cast
    exact hwrap
  | true =>
    rw [valueOf, ← wrap_toInt, hsigned ht, ha.toInt_eq ht, hwrap]

lemma valueOf_fixedBytes_shiftLeft {t : FixedBytesType} (ha : (fixedBytes t).IsClean a wa)
    (hw : w.toNat = wa.toNat * 2 ^ k % 2 ^ 256) :
    (fixedBytes t).valueOf w = a * 2 ^ k % 2 ^ (t.numBytes * 8) := by
  have hscale := toNat_of_isClean rfl rfl rfl ha
  obtain ⟨n, rfl⟩ : ∃ n : ℕ, a = n := ⟨_, ha.1.symm⟩
  have hwa : wa.toNat = n * 2 ^ t.padding := by exact_mod_cast hscale
  have hvalue : (fixedBytes t).valueOf w = (n * 2 ^ k % 2 ^ (t.numBytes * 8) : ℕ) := by
    refine (isClean_of_leftShift (t := t) (n := n * 2 ^ k) ?_).1
    rw [hw, hwa, Nat.mul_right_comm]
  rw [hvalue]
  push_cast
  rfl

lemma valueOf_fixedBytes_shiftRight {t : FixedBytesType} (ha : (fixedBytes t).IsClean a wa)
    (hw : w.toNat = wa.toNat / 2 ^ k) : (fixedBytes t).valueOf w = a / 2 ^ k := by
  have hscale := toNat_of_isClean rfl rfl rfl ha
  obtain ⟨n, rfl⟩ : ∃ n : ℕ, a = n := ⟨_, ha.1.symm⟩
  have hwa : wa.toNat = n * 2 ^ t.padding := by exact_mod_cast hscale
  change ((w.toNat / 2 ^ t.padding : ℕ) : ℤ) = _
  rw [hw, hwa, Nat.div_div_eq_div_mul, Nat.mul_comm (2 ^ k), ← Nat.div_div_eq_div_mul,
    Nat.mul_div_cancel _ (Nat.two_pow_pos _)]
  push_cast
  rfl

variable {hasBitwiseShifting : Bool}

lemma exec_shiftCode {valueSigned : Bool}
    (h : shiftCode hasBitwiseShifting op valueSigned = some c) (wa wb : Word) :
    ∃ w, (∀ s, exec c (wb :: wa :: s) = .stack (w :: s)) ∧
      ((op = .shl ∧ w.toNat = wa.toNat * 2 ^ wb.toNat % 2 ^ 256) ∨
        (op = .sar ∧ (valueSigned = false → w.toNat = wa.toNat / 2 ^ wb.toNat) ∧
          (valueSigned → w.toInt = wa.toInt / 2 ^ wb.toNat))) := by
  cases op with
  | shl =>
    cases h
    obtain ⟨w, hw, hexec⟩ := exec_shiftLeft hasBitwiseShifting wa wb
    exact ⟨w, hexec, .inl ⟨rfl, hw⟩⟩
  | sar =>
    cases h
    cases valueSigned with
    | true =>
      obtain ⟨w, hw, hexec⟩ :=
        exec_arithmeticShiftRight hasBitwiseShifting wa wb
      exact ⟨w, hexec, .inr ⟨rfl, nofun, fun _ => hw⟩⟩
    | false =>
      obtain ⟨w, hw, hexec⟩ := exec_shiftRight hasBitwiseShifting wa wb
      exact ⟨w, hexec, .inr ⟨rfl, fun _ => hw, nofun⟩⟩
  | _ => cases h

/-- A shift by a clean amount is the shift by its value, or stops if that is negative. -/
lemma yields_shift {valueSigned : Bool} {amount : IntegerType} {shift : Code}
    (h : shiftCode hasBitwiseShifting op valueSigned = some shift) (hb : amount.Clean b wb)
    {v : ℤ} {P : ℤ → List Word → Prop}
    (hv : ∀ w : Word, 0 ≤ b →
      ((op = .shl ∧ w.toNat = wa.toNat * 2 ^ b.toNat % 2 ^ 256) ∨
        (op = .sar ∧ (valueSigned = false → w.toNat = wa.toNat / 2 ^ b.toNat) ∧
          (valueSigned → w.toInt = wa.toInt / 2 ^ b.toNat))) → P v [w]) :
    Yields (testForNegativeCode amount.isSigned ++ .operation (.swap 0) :: shift) [wa, wb] P
      (if b < 0 then .error Failure.negativeShift else .ok v) := by
  split_ifs with hneg
  · intro s
    exact (exec_testForNegative hb _ s).trans (if_pos hneg)
  · have hnat : wb.toNat = b.toNat := by
      have := hb.toNat_eq_of_nonneg (Int.not_lt.mp hneg)
      omega
    obtain ⟨w, hexec, hw⟩ := exec_shiftCode h wa wb
    rw [hnat] at hw
    refine .ok (hv w (Int.not_lt.mp hneg) hw) fun s => ?_
    refine (exec_testForNegative hb _ s).trans ((if_neg hneg).trans ?_)
    rw [exec_swap_zero]
    exact hexec s

lemma appendShiftOperatorCode_represents {amount : ValueType} (hop : op.isCompareOp = false)
    (h : appendShiftOperatorCode hasBitwiseShifting op t amount = some c) (ha : t.IsClean a wa)
    (hb : amount.IsClean b wb) : Yields c [wa, wb] t.Represents (binaryOperation op t a b) := by
  unfold binaryOperation
  rw [if_neg (by simp [hop])]
  unfold appendShiftOperatorCode at h
  split at h
  · obtain ⟨shift, hshift, rfl⟩ := map_eq_some_iff.mp h
    have hca := IntegerType.Clean.of_isClean ha
    have hcb := IntegerType.Clean.of_isClean hb
    rename_i t _
    cases op with
    | shl =>
      refine yields_shift hshift hcb fun w _ hw => ⟨w, rfl, ?_⟩
      obtain ⟨-, hw⟩ | ⟨h, -⟩ := hw
      · exact valueOf_shiftLeft ha.1 hw
      · cases h
    | sar =>
      refine yields_shift hshift hcb fun w _ hw => ⟨w, rfl, ?_⟩
      obtain ⟨h, -⟩ | ⟨-, hunsigned, hsigned⟩ := hw
      · cases h
      · exact valueOf_shiftRight hca hunsigned hsigned
    | _ => cases hshift
  · obtain ⟨shift, hshift, rfl⟩ := map_eq_some_iff.mp h
    have hcb := IntegerType.Clean.of_isClean hb
    cases op with
    | shl =>
      refine yields_shift hshift hcb fun w _ hw => ⟨w, rfl, ?_⟩
      obtain ⟨-, hw⟩ | ⟨h, -⟩ := hw
      · exact valueOf_fixedBytes_shiftLeft ha hw
      · cases h
    | sar =>
      refine yields_shift hshift hcb fun w _ hw => ⟨w, rfl, ?_⟩
      obtain ⟨h, -⟩ | ⟨-, hunsigned, -⟩ := hw
      · cases h
      · exact valueOf_fixedBytes_shiftRight ha (hunsigned rfl)
    | _ => cases hshift
  · cases h

/-! ### All operators -/

/-- The types with operators other than comparisons. -/
def hasBits : ValueType → Bool
  | integer _ | fixedBytes _ => true
  | _ => false

/-- What typing says about the operator at a common type. -/
structure Applicable (op : BinaryOperator) (t : ValueType) : Prop where
  isWordType : t.isWordType = true
  exp : op = .exp → t.isSigned = false
  function : t.isFunction = true → op = .equal ∨ op = .notEqual
  hasBits : op.isCompareOp = false → t.hasBits = true

/-- The code of an operator represents the value of the operation. -/
theorem appendOperatorCode_represents {rightTarget : ValueType}
    (h : appendOperatorCode hasBitwiseShifting op t rightTarget = some c) (happ : Applicable op t)
    (hright : op.isShiftOp = false → rightTarget = t)
    (ha : t.IsOperand (cleanupNeededForOp t op) a wa)
    (hb : rightTarget.IsOperand (cleanupNeededForOp t op) b wb) :
    Yields c [wa, wb] (if op.isCompareOp then bool else t).Represents
      (binaryOperation op t a b) := by
  unfold appendOperatorCode at h
  by_cases hshift : op.isShiftOp = true
  · have hcompare : op.isCompareOp = false := by cases op <;> first | rfl | cases hshift
    have hclean : cleanupNeededForOp t op = true := by simp [cleanupNeededForOp, hshift]
    rw [if_pos hshift] at h
    rw [hcompare, if_neg Bool.false_ne_true]
    exact appendShiftOperatorCode_represents hcompare h (ha.2 hclean) (hb.2 hclean)
  have hrt := hright (by simpa using hshift)
  subst hrt
  rw [if_neg hshift] at h
  by_cases hcompare : op.isCompareOp = true
  · have hclean : cleanupNeededForOp rightTarget op = true := by
      simp [cleanupNeededForOp, hcompare]
    unfold binaryOperation
    rw [if_pos hcompare] at h
    rw [if_pos hcompare, if_pos hcompare]
    exact appendCompareOperatorCode_represents h happ.isWordType happ.function (ha.2 hclean)
      (hb.2 hclean)
  unfold binaryOperation
  rw [if_neg hcompare] at h
  rw [if_neg hcompare, if_neg hcompare]
  unfold appendOrdinaryBinaryOperatorCode at h
  split_ifs at h with harithmetic
  · cases rightTarget with
    | integer t => exact appendArithmeticOperatorCode_represents h happ.exp ha hb
    | _ => cases h
  · have hbit := isBitOp_of_appendBitOperatorCode h
    cases rightTarget with
    | integer t =>
      change Yields _ _ _ (integerOperation t op a b)
      rw [integerOperation_of_isBitOp hbit]
      exact .ok ⟨_, rfl, valueOf_bitOperation op ha.1 hb.1⟩ (exec_bitOperatorCode h)
    | fixedBytes t =>
      change Yields _ _ _ (fixedBytesOperation t op a b)
      rw [fixedBytesOperation_of_isBitOp hbit]
      exact .ok ⟨_, rfl, valueOf_fixedBytes_bitOperation op ha.1 hb.1⟩ (exec_bitOperatorCode h)
    | _ => cases happ.hasBits (by simpa using hcompare)

lemma valueOf_fixedBytes_not {t : FixedBytesType} (ha : (fixedBytes t).valueOf wa = a) :
    (fixedBytes t).valueOf (~~~wa) = (~~~(BitVec.ofInt (t.numBytes * 8) a)).toNat := by
  have ht := t.valid
  rw [ofInt_eq_extract ha, valueOf_fixedBytes_eq_extract]
  congr 2
  apply BitVec.eq_of_getLsbD_eq
  intro i hi
  have hlt : t.padding + i < 256 := by
    unfold FixedBytesType.padding
    omega
  simp only [BitVec.getLsbD_extractLsb', BitVec.getLsbD_not, hi, hlt, decide_true, Bool.true_and]

lemma unaryOperatorCode_represents {op : UnaryOperator} {s : ValueType} {v : ℤ} {ws : List Word}
    (h : s.unaryOperatorResult op = some t) (ht : t.isValueType)
    (hv : s.Represents v ws) :
    Yields (unaryOperatorCode op) ws t.Represents
      (.ok (unaryOperation op t v) : Except Failure ℤ) := by
  cases s with
  | integer s =>
    obtain ⟨w, rfl, hv⟩ := hv
    obtain ⟨hop, h⟩ := ite_none_right_eq_some.mp h
    cases h
    rcases hop with rfl | rfl
    · have hzero : s.wrap (0 : Word).toNat = 0 := wrap_of_inRange s.zero_inRange
      have hsub : (integer s).valueOf (0 - w) = s.wrap (-v) := by
        rw [valueOf_sub hzero hv, Int.zero_sub]
      exact .ok ⟨0 - w, rfl, hsub⟩ fun r => rfl
    · exact .ok ⟨_, rfl, valueOf_not hv⟩ fun r => rfl
  | fixedBytes s =>
    obtain ⟨w, rfl, hv⟩ := hv
    obtain ⟨hop, h⟩ := ite_none_right_eq_some.mp h
    cases h
    subst hop
    exact .ok ⟨_, rfl, valueOf_fixedBytes_not hv⟩ fun r => rfl
  | bool =>
    obtain ⟨w, rfl, hv⟩ := hv
    obtain ⟨hop, h⟩ := ite_none_right_eq_some.mp h
    cases h
    subst hop
    have hvalue : decide (w = 0) = decide (v = 0) := by
      rw [← hv, valueOf]
      split_ifs with hw
      · simp only [hw, decide_true]
      · simp only [hw, one_ne_zero]
    have hcode : ∀ r, exec (operations [.iszero]) ([w] ++ r) = .stack (.ofBool (v = 0) :: r) := by
      intro r
      rw [← hvalue]
      rfl
    have hbool := yields_bool hcode
    simp only [decide_eq_true_eq] at hbool
    exact hbool
  | rationalNumber q c =>
    obtain ⟨r, -, rfl⟩ := map_eq_some_iff.mp h
    cases ht
  | _ => cases h

end ValueType

end Polynomial
