import Polc.Ast.RationalNumberType.Exactness
import Polc.Ast.RationalNumberType.LiteralValues
import Polc.Semantics.Sizes

/-!
# The precision of constants

Constants are limited to 4096 bits, but the check of a result compares the position of its highest
bit, which counts from zero, with this number. Which operations and literals yield a number of more
bits, and that no expression does whose operations and literals are not among them.
-/

namespace Polynomial.RationalNumberType

open Langutil Scanner Semantics Yul List Bool
open Option hiding max_eq_left

/-! ### Operations -/

/-- The fraction that an operation computes, before it is reduced. -/
def unreduced (op : BinaryOperator) (a b : ℚ) : Option Fraction :=
  match op with
  | .add => some (.add a b)
  | .sub => some (.sub a b)
  | .mul => some (.mul a b)
  | .div => if b = 0 then none else some (.div a b)
  | .mod => if b = 0 then none else some (.mod a b)
  | _ => none

/-- Operands for which the check of the result lets no number of 4097 bits through. -/
def StaysWithin (op : BinaryOperator) (a b : ℚ) : Prop :=
  match op with
  | .bitXor =>
    isFractional a = false → isFractional b = false → (a.num - b.num).natAbs ≠ 2 ^ 4096
  | .bitAnd =>
    isFractional a = false → isFractional b = false → ¬ NoCommonBit 4096 a.num b.num
  | op => ∀ f ∈ unreduced op a b, f.topBit ≠ 4096

variable {op : BinaryOperator} {a b q : ℚ}

lemma unreduced_eq_some {f : Fraction} (h : unreduced op a b = some f) :
    f.den ≠ 0 ∧ operation op a b = some f.value := by
  have hden : a.den * b.den ≠ 0 := mul_ne_zero a.den_nz b.den_nz
  cases op with
  | add =>
    cases h
    exact ⟨hden, congrArg some (Fraction.value_add a b).symm⟩
  | sub =>
    cases h
    exact ⟨hden, congrArg some (Fraction.value_sub a b).symm⟩
  | mul =>
    cases h
    exact ⟨hden, congrArg some (Fraction.value_mul a b).symm⟩
  | div =>
    rw [unreduced] at h
    split_ifs at h with hb
    cases h
    refine ⟨mul_ne_zero (Int.natAbs_ne_zero.mpr (Rat.num_ne_zero.mpr hb)) a.den_nz, ?_⟩
    rw [operation, if_neg hb, Fraction.value_div a hb]
  | mod =>
    rw [unreduced] at h
    split_ifs at h with hb
    cases h
    refine ⟨hden, ?_⟩
    rw [operation, if_neg hb, Fraction.value_mod a hb]
    split_ifs with hfractional
    · rfl
    · obtain ⟨ha, hb'⟩ := or_eq_false_iff.mp (eq_false_iff.mpr hfractional)
      rw [Fraction.tdiv_eq_tdiv_num_den a hb, eq_num_of_not_isFractional ha,
        eq_num_of_not_isFractional hb', Int.tmod_def]
      simp only [Rat.num_intCast, Rat.den_intCast, Nat.cast_one, mul_one]
      push_cast
      rw [mul_comm]
  | _ => cases h

lemma binaryOperatorResult_eq (op : BinaryOperator) (a b : ℚ) :
    binaryOperatorResult op a b = (operation op a b).filter fun q => topBit q ≤ 4096 := by
  rw [binaryOperatorResult]
  congr 1
  funext q
  by_cases hq : q.num = 0
  · rw [Rat.num_eq_zero.mp hq]
    rfl
  · simp only [hq, decide_false, Bool.false_or]
    rfl

/-- A number is let through beyond 4096 bits exactly if its highest bit is the one with this
position. -/
lemma fits_iff_of_operation (h : operation op a b = some q) :
    (∀ r, binaryOperatorResult op a b = some r → FitsBits 4096 r) ↔ topBit q ≠ 4096 := by
  simp only [binaryOperatorResult_eq, h, filter_eq_some_iff, Option.some.injEq,
    decide_eq_true_eq, fitsBits_iff (show 0 < 4096 by decide), and_imp, forall_eq']
  exact ⟨fun hlt heq => (hlt heq.le).ne heq, fun hne hle => lt_of_le_of_ne hle hne⟩

lemma fits_of_operation (h : ∀ q, operation op a b = some q → FitsBits 4096 q) (r : ℚ)
    (hr : binaryOperatorResult op a b = some r) : FitsBits 4096 r :=
  h r (filter_eq_some_iff.mp hr).1

lemma topBit_ne_iff_natAbs_lt {m : ℤ} (hm : m.natAbs < 2 ^ (4096 + 1)) :
    topBit m ≠ 4096 ↔ m.natAbs < 2 ^ 4096 := by
  have htop : topBit m = m.natAbs.log2 := by
    rw [topBit, Rat.num_intCast, Rat.den_intCast]
    exact max_eq_left (Nat.zero_le _)
  have hle := (log2_lt_iff (Nat.succ_pos 4096)).mpr hm
  rw [htop, ← log2_lt_iff (show 0 < 4096 by decide)]
  omega

lemma lt_two_pow_log2_succ (n : ℕ) : n < 2 ^ (n.log2 + 1) :=
  lt_two_pow_of_log2_lt (Nat.lt_succ_self _)

lemma pow_lt_of_fitsPrecisionExp {base exp : ℕ} (hbase : base ≠ 0)
    (h : fitsPrecisionExp base exp) (hexp : exp ≠ 0) : base ^ exp < 2 ^ 4096 := by
  rw [fitsPrecisionExp, or_eq_true, or_eq_true, and_eq_true] at h
  simp only [decide_eq_true_eq] at h
  rcases h with (hzero | hone) | ⟨-, hle⟩
  · exact absurd hzero hbase
  · have hlt := lt_two_pow_log2_succ base
    rw [hone] at hlt
    have heq : base = 1 := by omega
    rw [heq, one_pow]
    exact Nat.one_lt_two_pow (by decide)
  · calc base ^ exp < (2 ^ (base.log2 + 1)) ^ exp :=
          Nat.pow_lt_pow_left (lt_two_pow_log2_succ base) hexp
      _ = 2 ^ (exp * (base.log2 + 1)) := by rw [← pow_mul, mul_comm]
      _ ≤ 2 ^ 4096 := Nat.pow_le_pow_right (by decide) hle

lemma fits_power {e : ℤ} (ha : FitsBits 4096 a) (h : power a e = some q) : FitsBits 4096 q := by
  unfold power at h
  split_ifs at h with he hbase hneg hlarge hfits hsign
  · cases h
    exact fitsBits_of_natAbs_le_one (m := 1) (by decide) le_rfl
  · cases h
    exact ha
  · cases h
    have hcast : (1 - 2 * (e.natAbs % 2 : ℕ) : ℚ) = ((1 - 2 * (e.natAbs % 2 : ℕ) : ℤ) : ℚ) := by
      rw [Int.cast_sub, Int.cast_mul, Int.cast_natCast]
      rfl
    rw [hcast]
    exact fitsBits_of_natAbs_le_one (by decide) (by omega)
  all_goals
    cases h
    rw [and_eq_true] at hfits
    have hnum := pow_lt_of_fitsPrecisionExp
      (Int.natAbs_ne_zero.mpr fun hzero => hbase (.inl hzero)) hfits.1 (Int.natAbs_ne_zero.mpr he)
    have hden := pow_lt_of_fitsPrecisionExp a.den_nz hfits.2 (Int.natAbs_ne_zero.mpr he)
    rw [← Int.natAbs_pow] at hnum
    rw [← Int.natAbs_natCast (a.den ^ _), Nat.cast_pow] at hden
  · exact fitsBits_divInt (by decide) hnum hden
  · exact fitsBits_divInt (by decide) hden hnum

lemma fits_shiftLeft {n s : ℤ} (h : shiftLeft n s = some q) : FitsBits 4096 q := by
  unfold shiftLeft at h
  split_ifs at h with hs hn hfits
  · cases h
    exact fitsBits_of_natAbs_le_one (m := 0) (by decide) (Nat.zero_le 1)
  · cases h
    rw [fitsPrecisionBase2, or_eq_true, and_eq_true] at hfits
    simp only [decide_eq_true_eq] at hfits
    rcases hfits with hzero | ⟨-, hle⟩
    · exact absurd (Int.natAbs_eq_zero.mp hzero) hn
    · rw [fitsBits_intCast (by decide), Int.natAbs_mul, Int.natAbs_pow]
      calc n.natAbs * 2 ^ s.toNat < 2 ^ (n.natAbs.log2 + 1) * 2 ^ s.toNat :=
            Nat.mul_lt_mul_of_pos_right (lt_two_pow_log2_succ _) (Nat.two_pow_pos _)
        _ = 2 ^ (n.natAbs.log2 + s.toNat + 1) := by rw [← pow_add]; congr 1; omega
        _ ≤ 2 ^ 4096 := Nat.pow_le_pow_right (by decide) hle

lemma fits_shiftRight {n s : ℤ} (hn : n.natAbs < 2 ^ 4096) (h : shiftRight n s = some q) :
    FitsBits 4096 q := by
  obtain ⟨-, rfl⟩ := shiftRight_eq h
  rw [fitsBits_intCast (by decide)]
  exact (Int.natAbs_ediv_le_natAbs n _).trans_lt hn

/-! ### All operators -/

lemma fits_iff_of_bits {f : ℤ → ℤ → ℤ} {P : Prop}
    (hop : operation op a b =
      if isFractional a || isFractional b then none else some ((f a.num b.num : ℤ) : ℚ))
    (hwide : (f a.num b.num).natAbs < 2 ^ (4096 + 1)) (hP : (f a.num b.num).natAbs < 2 ^ 4096 ↔ P) :
    (∀ r, binaryOperatorResult op a b = some r → FitsBits 4096 r) ↔
      (isFractional a = false → isFractional b = false → P) := by
  cases ha : isFractional a with
  | true =>
    rw [ha, Bool.true_or, if_pos rfl] at hop
    simp [binaryOperatorResult_eq, hop]
  | false =>
    cases hb : isFractional b with
    | true =>
      rw [hb, Bool.or_true, if_pos rfl] at hop
      simp [binaryOperatorResult_eq, hop]
    | false =>
      rw [ha, hb, Bool.or_self, if_neg Bool.false_ne_true] at hop
      rw [fits_iff_of_operation hop, topBit_ne_iff_natAbs_lt hwide, hP]
      simp

lemma topBit_ne_of_none (h : unreduced op a b = none) : ∀ f ∈ unreduced op a b, f.topBit ≠ 4096 := by
  rw [h]
  rintro _ ⟨⟩

lemma binaryOperatorResult_fits_iff (ha : FitsBits 4096 a) (hb : FitsBits 4096 b)
    (op : BinaryOperator) :
    (∀ r, binaryOperatorResult op a b = some r → FitsBits 4096 r) ↔ StaysWithin op a b := by
  have hsome : ∀ f, unreduced op a b = some f →
      ((∀ r, binaryOperatorResult op a b = some r → FitsBits 4096 r) ↔ f.topBit ≠ 4096) := by
    intro f hf
    obtain ⟨hden, hop⟩ := unreduced_eq_some hf
    rw [fits_iff_of_operation hop, Fraction.topBit_value hden]
  cases op with
  | bitOr =>
    have hlt := natAbs_lor_lt ha.1 hb.1
    refine iff_of_true (fits_of_operation fun q hq => ?_) (topBit_ne_of_none rfl)
    rw [operation] at hq
    split_ifs at hq
    cases hq
    exact (fitsBits_intCast (by decide) _).mpr hlt
  | bitXor =>
    exact fits_iff_of_bits rfl (natAbs_xor_lt_succ ha.1 hb.1) (natAbs_xor_lt_iff ha.1 hb.1)
  | bitAnd =>
    exact fits_iff_of_bits rfl (natAbs_land_lt_succ ha.1 hb.1) (natAbs_land_lt_iff ha.1 hb.1)
  | add => simpa [StaysWithin, unreduced] using hsome _ rfl
  | sub => simpa [StaysWithin, unreduced] using hsome _ rfl
  | mul => simpa [StaysWithin, unreduced] using hsome _ rfl
  | div | mod =>
    by_cases hzero : b = 0
    · simp [StaysWithin, unreduced, binaryOperatorResult, operation, hzero]
    · simpa [StaysWithin, unreduced, hzero] using hsome _ (if_neg hzero)
  | exp =>
    refine iff_of_true (fits_of_operation fun q hq => ?_) (topBit_ne_of_none rfl)
    rw [operation] at hq
    split_ifs at hq
    exact fits_power ha hq
  | shl =>
    refine iff_of_true (fits_of_operation fun q hq => ?_) (topBit_ne_of_none rfl)
    rw [operation] at hq
    split_ifs at hq
    exact fits_shiftLeft hq
  | sar =>
    refine iff_of_true (fits_of_operation fun q hq => ?_) (topBit_ne_of_none rfl)
    rw [operation] at hq
    split_ifs at hq
    exact fits_shiftRight ha.1 hq
  | _ => exact iff_of_true (by rintro _ ⟨⟩) (topBit_ne_of_none rfl)

lemma unaryOperatorResult_fits_iff (ha : FitsBits 4096 a) (op : UnaryOperator) :
    (∀ r, unaryOperatorResult a op = some r → FitsBits 4096 r) ↔
      (op = .bitNot → isFractional a = false → a.num ≠ 2 ^ 4096 - 1) := by
  cases op with
  | not => exact iff_of_true nofun nofun
  | add =>
    refine iff_of_true (fun r hr => ?_) nofun
    cases hr
    exact ha
  | sub =>
    refine iff_of_true (fun r hr => ?_) nofun
    cases hr
    exact fitsBits_neg.mpr ha
  | bitNot =>
    cases hf : isFractional a with
    | true => simp [unaryOperatorResult, hf]
    | false =>
      have hlt := ha.1
      have hnot : unaryOperatorResult a .bitNot = some ((-a.num - 1 : ℤ) : ℚ) := by
        rw [unaryOperatorResult, hf, if_neg Bool.false_ne_true]
      simp only [hnot, Option.some.injEq, forall_eq', forall_true_left,
        fitsBits_intCast (show 0 < 4096 by decide)]
      have hcast : (2 : ℤ) ^ 4096 = ((2 ^ 4096 : ℕ) : ℤ) := (Nat.cast_pow 2 4096).symm
      rw [hcast]
      generalize 2 ^ 4096 = m at hlt
      omega

/-! ### Literals -/

/-- The digits of a number literal. -/
inductive Numeral where
  | hexadecimal (digits : List Char) (isHex : digits.all isHexDigit = true) (nonempty : digits ≠ [])
  | decimal (n : DecimalNumeral)

def Numeral.text : Numeral → List Char
  | hexadecimal digits _ _ => '0' :: 'x' :: digits
  | decimal n => n.text

/-- A number literal that the scanner accepts. -/
structure NumberLiteral where
  text : List Char
  numeral : Numeral
  text_eq : withoutUnderscores text = numeral.text
  scanned : ∃ pointSeen source rest, scanNumber pointSeen source = .ok (text, rest)

/-- The exponent of a numeral as the library reads it. -/
def DecimalNumeral.readExponent (bigint : List Char → Option ℤ) (n : DecimalNumeral) : Option ℤ :=
  n.exponent.elim (some 0) fun e => bigint e.text

/-- All digits of a numeral over a power of ten. -/
def DecimalNumeral.toFraction (n : DecimalNumeral) (exponent : ℤ) (unit : SubDenomination) :
    Fraction where
  num := readDigits 10 (n.whole ++ n.fraction.getD []) * 10 ^ exponent.toNat * unit.factor
  den := 10 ^ ((n.fraction.getD []).length + (-exponent).toNat)

/-- A number below the limit is written. Nothing but exponents is checked in a literal. -/
def NumberLiteral.StaysWithin (bigint : List Char → Option ℤ) (l : NumberLiteral)
    (unit : SubDenomination) : Prop :=
  match l.numeral with
  | .hexadecimal digits _ _ => readDigits 16 digits * unit.factor < 2 ^ 4096
  | .decimal n => ∀ x ∈ n.readExponent bigint, ¬ TooLarge n.mantissa x →
    (n.toFraction x unit).topBit < 4096

lemma readDigits_append (base : ℕ) (s t : List Char) :
    readDigits base (s ++ t) = readDigits base s * base ^ t.length + readDigits base t := by
  induction t using List.reverseRecOn with
  | nil => simp [Yul.readDigits]
  | append_singleton t c ih =>
    have hsnoc : ∀ u : List Char,
        readDigits base (u ++ [c]) = readDigits base u * base + (digitValue c).getD 0 :=
      fun u => foldl_append
    rw [← append_assoc, hsnoc, hsnoc, ih, length_append, length_singleton, pow_succ]
    ring

lemma DecimalNumeral.value_toFraction (n : DecimalNumeral) (x : ℤ) (unit : SubDenomination) :
    (n.toFraction x unit).value = n.mantissa * 10 ^ x * unit.factor := by
  have hpow : (10 : ℚ) ^ x = 10 ^ x.toNat / 10 ^ (-x).toNat := by
    have hx : x = (x.toNat : ℤ) - ((-x).toNat : ℤ) := by omega
    conv_lhs => rw [hx, zpow_sub₀ (by norm_num), zpow_natCast, zpow_natCast]
  rw [Fraction.value_eq_div, toFraction, mantissa, readDigits_append, hpow]
  push_cast
  field_simp
  ring

section

variable {bigint : List Char → Option ℤ}

lemma not_tooLarge_zero (q : ℚ) : ¬ TooLarge q 0 := by
  simp [TooLarge]

lemma isValidLiteral_decimal (h : ReadsNumbers bigint) (l : NumberLiteral) {n : DecimalNumeral}
    (hl : l.numeral = .decimal n) (unit : SubDenomination) :
    isValidLiteral bigint l.text unit =
      if n.mantissa = 0 then some 0
      else (n.readExponent bigint).bind fun x =>
        if TooLarge n.mantissa x then none else some (n.toFraction x unit).value := by
  obtain ⟨pointSeen, source, rest, hscan⟩ := l.scanned
  have htext : withoutUnderscores l.text = n.text := by rw [l.text_eq, hl, Numeral.text]
  rw [isValidLiteral, htext, valueOfText_text h n (whole_notOctal hscan htext),
    DecimalNumeral.readExponent]
  simp only [DecimalNumeral.value_toFraction]
  rcases n.exponent with _ | e
  · rw [elim_none, bind_some, if_neg (not_tooLarge_zero _), zpow_zero, mul_one,
      map_some]
    split_ifs with hzero
    · rw [hzero, zero_mul]
    · rfl
  · split_ifs with hzero
    · simp
    · rw [elim_some, Option.map_bind]
      congr 1
      funext x
      rw [Function.comp_apply]
      split_ifs <;> rfl

lemma isValidLiteral_fits_iff (h : ReadsNumbers bigint) (l : NumberLiteral)
    (unit : SubDenomination) :
    (∀ r, isValidLiteral bigint l.text unit = some r → FitsBits 4096 r) ↔
      l.StaysWithin bigint unit := by
  rcases hl : l.numeral with ⟨digits, isHex, nonempty⟩ | n
  · obtain ⟨c, digits, rfl⟩ := exists_cons_of_ne_nil nonempty
    have hvalue : isValidLiteral bigint l.text unit =
        some (((readDigits 16 (c :: digits) * unit.factor : ℕ) : ℤ) : ℚ) := by
      rw [isValidLiteral, l.text_eq, hl, Numeral.text, valueOfText, if_pos ⟨c :: digits, rfl⟩,
        h.hexadecimal c digits isHex]
      simp
    simp only [hvalue, Option.some.injEq, forall_eq', NumberLiteral.StaysWithin, hl]
    exact fitsBits_intCast (by decide) _
  · have hden : ∀ x, (n.toFraction x unit).den ≠ 0 := fun x => pow_ne_zero _ (by decide)
    have hfits : ∀ x, FitsBits 4096 (n.toFraction x unit).value ↔
        (n.toFraction x unit).topBit < 4096 := by
      intro x
      rw [fitsBits_iff (by decide), Fraction.topBit_value (hden x)]
    rw [isValidLiteral_decimal h l hl]
    simp only [NumberLiteral.StaysWithin, hl]
    split_ifs with hzero
    · refine iff_of_true (fun r hr => ?_) (fun x _ _ => ?_)
      · cases hr
        exact fitsBits_of_natAbs_le_one (m := 0) (by decide) (Nat.zero_le 1)
      · rw [← hfits, DecimalNumeral.value_toFraction, hzero, zero_mul, zero_mul]
        exact fitsBits_of_natAbs_le_one (m := 0) (by decide) (Nat.zero_le 1)
    · simp only [← hfits, bind_eq_some_iff, forall_exists_index, and_imp, mem_def]
      constructor
      · intro hall x hx hlarge
        exact hall _ x hx (if_neg hlarge)
      · intro hall r x hx hr
        split_ifs at hr with hlarge
        cases hr
        exact hall x hx hlarge

/-! ### Expressions -/

/-- An expression of number literals. -/
inductive ConstantExpression where
  | literal (l : NumberLiteral) (unit : SubDenomination)
  | unaryOperation (op : UnaryOperator) (subExpression : ConstantExpression)
  | binaryOperation (op : BinaryOperator) (leftExpression rightExpression : ConstantExpression)

namespace ConstantExpression

variable (bigint) in
/-- The value of the type of an expression, if it has one. -/
def value : ConstantExpression → Option ℚ
  | literal l unit => isValidLiteral bigint l.text unit
  | unaryOperation op e => e.value.bind fun a => unaryOperatorResult a op
  | binaryOperation op l r => l.value.bind fun a => r.value.bind fun b => binaryOperatorResult op a b

variable (bigint) in
/-- The values of an expression and of all its parts take at most 4096 bits. -/
def EveryValueFits : ConstantExpression → Prop
  | literal l unit => ∀ q, (literal l unit).value bigint = some q → FitsBits 4096 q
  | unaryOperation op e =>
    e.EveryValueFits ∧ ∀ q, (unaryOperation op e).value bigint = some q → FitsBits 4096 q
  | binaryOperation op l r =>
    l.EveryValueFits ∧ r.EveryValueFits ∧
      ∀ q, (binaryOperation op l r).value bigint = some q → FitsBits 4096 q

variable (bigint) in
/-- Each literal and each operation of an expression stays within the precision. -/
def EveryStepStaysWithin : ConstantExpression → Prop
  | literal l unit => l.StaysWithin bigint unit
  | unaryOperation op e => e.EveryStepStaysWithin ∧ ∀ a ∈ e.value bigint,
    op = .bitNot → isFractional a = false → a.num ≠ 2 ^ 4096 - 1
  | binaryOperation op l r => l.EveryStepStaysWithin ∧ r.EveryStepStaysWithin ∧
    ∀ a ∈ l.value bigint, ∀ b ∈ r.value bigint, RationalNumberType.StaysWithin op a b

lemma EveryValueFits.value_fits {e : ConstantExpression} (h : e.EveryValueFits bigint) :
    ∀ q ∈ e.value bigint, FitsBits 4096 q := by
  cases e with
  | literal l unit => exact h
  | unaryOperation op e => exact h.2
  | binaryOperation op l r => exact h.2.2

/-- `1 << 4095` -/
def shifted : ConstantExpression :=
  .binaryOperation .shl
    (.literal ⟨['1'], .decimal ⟨['1'], none, none, leadingZero.whole_isDecimal,
      leadingZero.fraction_isDecimal, leadingZero.nonempty⟩, rfl,
      false, ['1'], [], by decide⟩ .none)
    (.literal ⟨['4', '0', '9', '5'], .decimal ⟨['4', '0', '9', '5'], none, none, rfl,
      leadingZero.fraction_isDecimal, nofun⟩,
      rfl, false, ['4', '0', '9', '5'], [], by decide⟩ .none)

/-- `(1 << 4095) * 2` -/
def doubled : ConstantExpression :=
  .binaryOperation .mul shifted
    (.literal ⟨['2'], .decimal ⟨['2'], none, none, rfl, leadingZero.fraction_isDecimal, nofun⟩, rfl,
      false, ['2'], [], by decide⟩ .none)

end ConstantExpression

end

end Polynomial.RationalNumberType
