import Polc.Ast.Types
import Polc.Langutil.Scanner
import Polc.Yul.Utilities

/-!
# Values of number literals

`RationalNumberType::isValidLiteral` of `libpolynomial/ast/Types.cpp`. The constructor of big
integers from text is the one of a library and a parameter here; `none` stands for exceptions and
for literals that are not valid.
-/

namespace Polynomial.RationalNumberType

open Langutil Scanner Yul List

/-- Round to 53 significant bits, ties to even. -/
def roundToDouble (m : ℕ) : ℕ :=
  if m.log2 < 53 then m
  else
    let unit := 2 ^ (m.log2 - 52)
    let q := m / unit
    let r := m % unit
    (if unit < 2 * r ∨ (unit = 2 * r ∧ q % 2 = 1) then q + 1 else q) * unit

/-- The integral part of the product of `exp` and `log2Of10AwayFromZero`, computed with numbers of
double precision. The constant 3.3219280948873624 is a multiple of `2 ^ (-51)`. -/
def log2OfPowerOf10 (exp : ℕ) : ℕ := roundToDouble (exp * 0x1a934f0979a371) / 2 ^ 51

/-- Checks whether `mantissa * 10 ^ exp` fits into 4096 bits. -/
def fitsPrecisionBase10 (mantissa exp : ℕ) : Bool :=
  mantissa = 0 || (mantissa.log2 ≤ 4096 && mantissa.log2 + log2OfPowerOf10 exp + 1 ≤ 4096)

/-! ### Literals -/

/-- The unit behind a number. -/
inductive SubDenomination where
  | none | wei | szabo | finney | sophy | second | minute | hour | day | week | year
  deriving DecidableEq, Repr

def SubDenomination.factor : SubDenomination → ℕ
  | none | wei | second => 1
  | szabo => 1000000000000
  | finney => 1000000000000000
  | sophy => 1000000000000000000
  | minute => 60
  | hour => 3600
  | day => 86400
  | week => 604800
  | year => 31536000

section

variable (bigint : List Char → Option ℤ)

def parseRational (value : List Char) : Option ℚ :=
  if '.' ∈ value then
    let whole := value.takeWhile (· ≠ '.')
    let fraction := (value.dropWhile (· ≠ '.')).tail
    if !fraction.all isDecimalDigit || !whole.all isDecimalDigit then none
    else
      -- Only decimal notation allowed here, leading zeros would switch to octal.
      (bigint (fraction.dropWhile (· = '0'))).bind fun (denominator : ℤ) =>
        (bigint whole).map fun (numerator : ℤ) => (numerator + denominator / 10 ^ fraction.length : ℚ)
  else (bigint value).map Int.cast

/-- Multiply a number by a power of ten, if exponent and result are not too large. -/
def applyExponent (value : ℚ) (exp : ℤ) : Option ℚ :=
  if 2 ^ 31 - 1 < exp ∨ exp < -2 ^ 31 then none
  else if exp < 0 then
    if fitsPrecisionBase10 value.den exp.natAbs then some (value / 10 ^ exp.natAbs) else none
  else if 0 < exp then
    if fitsPrecisionBase10 value.num.natAbs exp.natAbs then some (value * 10 ^ exp.natAbs) else none
  else some value

/-- Where the exponent begins, if there is one. -/
def expPoint (valueString : List Char) : Option ℕ :=
  (valueString.idxOf? 'e').or (valueString.idxOf? 'E')

/-- The value of a literal without its unit. -/
def valueOfText (valueString : List Char) : Option ℚ :=
  if ['0', 'x'] <+: valueString then (bigint valueString).map Int.cast
  else
    match expPoint valueString with
    | some i =>
      (parseRational bigint (valueString.take i)).bind fun value =>
        -- 0E... is always zero.
        if value = 0 then some 0
        else (bigint (valueString.drop (i + 1))).bind (applyExponent value)
    | none => parseRational bigint valueString

/-- The value of a literal, if it is valid. -/
def isValidLiteral (value : List Char) (subDenomination : SubDenomination) : Option ℚ :=
  (valueOfText bigint (withoutUnderscores value)).map (· * subDenomination.factor)

end

end Polynomial.RationalNumberType

/-!
## What number literals denote

The numbers that literals denote in base ten and sixteen, and when the value of a literal is this
number. The library reads digits behind a zero in base eight, and the exponent is given to it with
its leading zeros.
-/

namespace Polynomial.RationalNumberType

open Langutil Scanner Yul List

/-- How the library reads text: in base eight behind a zero, in base sixteen behind `0x`. -/
structure ReadsNumbers (bigint : List Char → Option ℤ) : Prop where
  empty : bigint [] = some 0
  decimal : ∀ c s, c ≠ '0' → (c :: s).all isDecimalDigit →
    bigint (c :: s) = some (readDigits 10 (c :: s) : ℤ)
  octal : ∀ s, s.all isDecimalDigit →
    bigint ('0' :: s) = if s.all (· < '8') then some (readDigits 8 s : ℤ) else none
  negative : ∀ c s, (c :: s).all isDecimalDigit → bigint ('-' :: c :: s) = (bigint (c :: s)).map (-·)
  hexadecimal : ∀ c s, (c :: s).all isHexDigit →
    bigint ('0' :: 'x' :: c :: s) = some (readDigits 16 (c :: s) : ℤ)

inductive Sign where
  | none | plus | minus
  deriving DecidableEq, Repr

def Sign.text : Sign → List Char
  | none => []
  | plus => ['+']
  | minus => ['-']

/-- An exponent behind its marker. -/
structure Exponent where
  marker : Char
  sign : Sign
  digits : List Char
  marker_eq : marker = 'e' ∨ marker = 'E'
  isDecimal : digits.all isDecimalDigit = true
  nonempty : digits ≠ []

namespace Exponent

/-- The text behind the marker. -/
def text (e : Exponent) : List Char := e.sign.text ++ e.digits

def value (e : Exponent) : ℤ :=
  match e.sign with
  | .minus => -readDigits 10 e.digits
  | _ => readDigits 10 e.digits

end Exponent

/-- A decimal number with digits in front of or behind the point, without underscores. -/
structure DecimalNumeral where
  whole : List Char
  fraction : Option (List Char)
  exponent : Option Exponent
  whole_isDecimal : whole.all isDecimalDigit = true
  fraction_isDecimal : ∀ f ∈ fraction, f.all isDecimalDigit = true
  nonempty : whole ++ fraction.getD [] ≠ []

namespace DecimalNumeral

def mantissaText (n : DecimalNumeral) : List Char :=
  n.whole ++ n.fraction.elim [] ('.' :: ·)

def text (n : DecimalNumeral) : List Char :=
  n.mantissaText ++ n.exponent.elim [] fun e => e.marker :: e.text

def mantissa (n : DecimalNumeral) : ℚ :=
  readDigits 10 n.whole +
    readDigits 10 (n.fraction.getD []) / 10 ^ (n.fraction.getD []).length

/-- The number that the numeral denotes. -/
def value (n : DecimalNumeral) : ℚ := n.mantissa * 10 ^ n.exponent.elim 0 Exponent.value

end DecimalNumeral

/-- A number with an exponent is too large: the exponent does not fit 32 bits, or the result does
not fit the precision. -/
def TooLarge (mantissa : ℚ) (exponent : ℤ) : Prop :=
  2 ^ 31 - 1 < exponent ∨ exponent < -2 ^ 31 ∨
    (exponent < 0 ∧ fitsPrecisionBase10 mantissa.den exponent.natAbs = false) ∨
    (0 < exponent ∧ fitsPrecisionBase10 mantissa.num.natAbs exponent.natAbs = false)

instance (mantissa : ℚ) (exponent : ℤ) : Decidable (TooLarge mantissa exponent) :=
  inferInstanceAs (Decidable (_ ∨ _ ∨ _ ∨ _))

/-! ### The parts of numerals -/

lemma applyExponent_eq (q : ℚ) (e : ℤ) :
    applyExponent q e = if TooLarge q e then none else some (q * 10 ^ e) := by
  rw [applyExponent]
  by_cases hrange : 2 ^ 31 - 1 < e ∨ e < -2 ^ 31
  · rw [if_pos hrange, if_pos]
    rcases hrange with h | h
    · exact .inl h
    · exact .inr (.inl h)
  rw [if_neg hrange]
  rw [not_or] at hrange
  rcases lt_trichotomy e 0 with hneg | rfl | hpos
  · have hpow : q / 10 ^ e.natAbs = q * 10 ^ e := by
      have he : e = -(e.natAbs : ℤ) := by omega
      conv_rhs => rw [he, zpow_neg, zpow_natCast]
      exact div_eq_mul_inv q _
    rw [if_pos hneg, hpow]
    have hiff : TooLarge q e ↔ fitsPrecisionBase10 q.den e.natAbs = false := by
      rw [TooLarge, or_iff_right hrange.1, or_iff_right hrange.2]
      simp [hneg, hneg.not_gt]
    cases hfits : fitsPrecisionBase10 q.den e.natAbs with
    | true => rw [if_pos rfl, if_neg (by rw [hiff, hfits]; decide)]
    | false => rw [if_neg (by decide), if_pos (hiff.mpr hfits)]
  · rw [if_neg (lt_irrefl 0), if_neg (lt_irrefl 0), if_neg (by simp [TooLarge]), zpow_zero, mul_one]
  · have hpow : q * 10 ^ e.natAbs = q * 10 ^ e := by
      have he : e = (e.natAbs : ℤ) := by omega
      conv_rhs => rw [he, zpow_natCast]
    rw [if_neg hpos.not_gt, if_pos hpos, hpow]
    have hiff : TooLarge q e ↔ fitsPrecisionBase10 q.num.natAbs e.natAbs = false := by
      rw [TooLarge, or_iff_right hrange.1, or_iff_right hrange.2]
      simp [hpos, hpos.not_gt]
    cases hfits : fitsPrecisionBase10 q.num.natAbs e.natAbs with
    | true => rw [if_pos rfl, if_neg (by rw [hiff, hfits]; decide)]
    | false => rw [if_neg (by decide), if_pos (hiff.mpr hfits)]

lemma readDigits_dropWhile (base : ℕ) (digits : List Char) :
    readDigits base (digits.dropWhile (· = '0')) = readDigits base digits := by
  induction digits with
  | nil => rfl
  | cons c digits ih =>
    rw [dropWhile_cons]
    split_ifs with hc
    · rw [ih, of_decide_eq_true hc, readDigits_cons_zero]
    · rfl

lemma ne_of_isDecimalDigit {c d : Char} (hc : isDecimalDigit c)
    (hd : isDecimalDigit d = false) : c ≠ d := by
  rintro rfl
  rw [hc] at hd
  cases hd

lemma notMem_of_all_isDecimalDigit {s : List Char} {d : Char} (hs : s.all isDecimalDigit)
    (hd : isDecimalDigit d = false) : d ∉ s :=
  fun hmem => ne_of_isDecimalDigit (all_eq_true.mp hs d hmem) hd rfl

section

variable {bigint : List Char → Option ℤ}

lemma ReadsNumbers.digits (h : ReadsNumbers bigint) {s : List Char}
    (hs : s.all isDecimalDigit) (hzero : ∀ c t, s = '0' :: c :: t → False) :
    bigint s = some (readDigits 10 s : ℤ) := by
  cases s with
  | nil => exact h.empty
  | cons c t =>
    by_cases hc : c = '0'
    · subst hc
      cases t with
      | nil => exact (h.octal [] rfl).trans rfl
      | cons d t => exact absurd rfl (hzero d t)
    · exact h.decimal c t hc hs

lemma dropWhile_zeros_ne (s : List Char) (c : Char) (t : List Char) :
    s.dropWhile (· = '0') = '0' :: c :: t → False := by
  intro h
  have hhead := head?_dropWhile_not (fun c : Char => decide (c = '0')) s
  rw [h] at hhead
  simp at hhead

lemma parseRational_mantissaText (h : ReadsNumbers bigint) (n : DecimalNumeral)
    (hwhole : ∀ c t, n.whole = '0' :: c :: t → False) :
    parseRational bigint n.mantissaText = some n.mantissa := by
  have hpoint : '.' ∉ n.whole := notMem_of_all_isDecimalDigit n.whole_isDecimal rfl
  rw [parseRational, DecimalNumeral.mantissaText, DecimalNumeral.mantissa]
  rcases hf : n.fraction with _ | f
  · rw [Option.elim_none, append_nil, if_neg hpoint, h.digits n.whole_isDecimal hwhole]
    simp [readDigits]
  · have hfraction := n.fraction_isDecimal f hf
    have hdrop : (f.dropWhile (· = '0')).all isDecimalDigit = true :=
      all_eq_true.mpr fun c hc =>
        all_eq_true.mp hfraction c ((dropWhile_sublist _).subset hc)
    have hne : ∀ c ∈ n.whole, decide (c ≠ '.') = true := by
      intro c hc
      exact decide_eq_true fun heq => hpoint (heq ▸ hc)
    have htake : (n.whole ++ '.' :: f).takeWhile (· ≠ '.') = n.whole := by
      rw [takeWhile_append_of_pos hne]
      simp
    have hrest : (n.whole ++ '.' :: f).dropWhile (· ≠ '.') = '.' :: f := by
      rw [dropWhile_append_of_pos hne]
      simp
    rw [Option.elim_some, if_pos (by simp)]
    simp only [htake, hrest, tail_cons, hfraction, n.whole_isDecimal, Bool.not_true,
      Bool.or_self, Bool.false_eq_true, if_false, h.digits hdrop (dropWhile_zeros_ne f),
      h.digits n.whole_isDecimal hwhole, Option.bind_some, Option.map_some, readDigits_dropWhile,
      Option.getD_some, Int.cast_natCast]

lemma idxOf?_append_cons {l : List Char} {c : Char} (hc : c ∉ l) (r : List Char) :
    (l ++ c :: r).idxOf? c = some l.length := by
  induction l with
  | nil => simp [idxOf?_cons]
  | cons d l ih =>
    rw [mem_cons, not_or] at hc
    simp [idxOf?_cons, ih hc.2, Ne.symm hc.1]

lemma notMem_mantissaText (n : DecimalNumeral) {c : Char} (hc : isDecimalDigit c = false)
    (hpoint : c ≠ '.') : c ∉ n.mantissaText := by
  rw [DecimalNumeral.mantissaText, mem_append, not_or]
  refine ⟨notMem_of_all_isDecimalDigit n.whole_isDecimal hc, ?_⟩
  rcases hf : n.fraction with _ | f
  · exact not_mem_nil
  · rw [Option.elim_some, mem_cons, not_or]
    exact ⟨hpoint, notMem_of_all_isDecimalDigit (n.fraction_isDecimal f hf) hc⟩

lemma notMem_text (e : Exponent) {c : Char} (hc : isDecimalDigit c = false) (hplus : c ≠ '+')
    (hminus : c ≠ '-') : c ∉ e.text := by
  rw [Exponent.text, mem_append, not_or]
  refine ⟨?_, notMem_of_all_isDecimalDigit e.isDecimal hc⟩
  cases e.sign with
  | none => exact not_mem_nil
  | plus => exact fun hmem => hplus (mem_singleton.mp hmem)
  | minus => exact fun hmem => hminus (mem_singleton.mp hmem)

lemma expPoint_text (n : DecimalNumeral) :
    expPoint n.text = n.exponent.map fun _ => n.mantissaText.length := by
  have he : 'e' ∉ n.mantissaText := notMem_mantissaText n rfl (by decide)
  have hE : 'E' ∉ n.mantissaText := notMem_mantissaText n rfl (by decide)
  rw [expPoint, DecimalNumeral.text]
  rcases n.exponent with _ | e
  · rw [Option.elim_none, append_nil, idxOf?_eq_none_iff.mpr he,
      idxOf?_eq_none_iff.mpr hE]
    rfl
  · rw [Option.elim_some]
    rcases e.marker_eq with hmarker | hmarker
    · rw [hmarker, idxOf?_append_cons he]
      rfl
    · have hnone : 'e' ∉ n.mantissaText ++ 'E' :: e.text := by
        rw [mem_append, mem_cons, not_or, not_or]
        exact ⟨he, by decide, notMem_text e rfl (by decide) (by decide)⟩
      rw [hmarker, idxOf?_eq_none_iff.mpr hnone, idxOf?_append_cons hE]
      rfl

lemma not_hex_text (n : DecimalNumeral) : ¬ ['0', 'x'] <+: n.text := by
  intro h
  have hmem : 'x' ∈ n.text := h.subset (by decide)
  rw [DecimalNumeral.text, mem_append] at hmem
  rcases hmem with hmem | hmem
  · exact notMem_mantissaText n rfl (by decide) hmem
  · rcases he : n.exponent with _ | e
    · rw [he] at hmem
      exact not_mem_nil hmem
    · rw [he] at hmem
      rcases mem_cons.mp hmem with hmarker | hmem
      · rcases e.marker_eq with heq | heq
        all_goals
          rw [heq] at hmarker
          exact absurd hmarker (by decide)
      · exact notMem_text e rfl (by decide) (by decide) hmem

lemma valueOfText_text (h : ReadsNumbers bigint) (n : DecimalNumeral)
    (hwhole : ∀ c t, n.whole = '0' :: c :: t → False) :
    valueOfText bigint n.text =
      match n.exponent with
      | none => some n.mantissa
      | some e =>
        if n.mantissa = 0 then some 0
        else (bigint e.text).bind fun x =>
          if TooLarge n.mantissa x then none else some (n.mantissa * 10 ^ x) := by
  have hmantissa := parseRational_mantissaText h n hwhole
  rw [valueOfText, if_neg (not_hex_text n), expPoint_text]
  rcases he : n.exponent with _ | e
  · simp only [Option.map_none, DecimalNumeral.text, he, Option.elim_none, append_nil]
    exact hmantissa
  · have hdrop : (n.mantissaText ++ e.marker :: e.text).drop (n.mantissaText.length + 1) =
        e.text := by
      rw [append_cons]
      exact drop_left' (by rw [length_append, length_singleton])
    have happly : applyExponent n.mantissa = fun x =>
        if TooLarge n.mantissa x then none else some (n.mantissa * 10 ^ x) := by
      funext x
      exact applyExponent_eq n.mantissa x
    simp only [Option.map_some, DecimalNumeral.text, he, Option.elim_some, take_left,
      hmantissa, Option.bind_some, hdrop, happly]

namespace DecimalNumeral

/-- The numeral has an exponent with which it is too large. -/
def TooLarge (n : DecimalNumeral) : Prop :=
  n.mantissa ≠ 0 ∧ ∃ e ∈ n.exponent, RationalNumberType.TooLarge n.mantissa e.value

/-- The result is what the numeral and its unit denote, or the numeral was rejected for its size. -/
def IsExact (n : DecimalNumeral) (unit : SubDenomination) (result : Option ℚ) : Prop :=
  result = some (n.value * unit.factor) ∨ (result = none ∧ n.TooLarge)

/-- The mantissa is zero, there is no exponent, or the library reads the exponent in base ten. If it
does not, the numeral is too large with the exponent that it has and with the one that is read. -/
def ExponentRead (bigint : List Char → Option ℤ) (n : DecimalNumeral) : Prop :=
  n.mantissa = 0 ∨ ∀ e ∈ n.exponent, bigint e.text = some e.value ∨
    (RationalNumberType.TooLarge n.mantissa e.value ∧
      ∀ x, bigint e.text = some x → RationalNumberType.TooLarge n.mantissa x)

end DecimalNumeral

lemma factor_ne_zero (unit : SubDenomination) : (unit.factor : ℚ) ≠ 0 := by
  have hpos : unit.factor ≠ 0 := by cases unit <;> decide
  exact_mod_cast hpos

lemma zpow_ten_injective {q : ℚ} (hq : q ≠ 0) {x y : ℤ} (h : q * 10 ^ x = q * 10 ^ y) : x = y :=
  zpow_right_injective₀ (by norm_num) (by norm_num) (mul_left_cancel₀ hq h)

lemma isExact_iff_of_exponent {n : DecimalNumeral} {e : Exponent} (he : n.exponent = some e)
    (hmantissa : n.mantissa ≠ 0) (unit : SubDenomination) :
    n.IsExact unit (((bigint e.text).bind fun x =>
        if TooLarge n.mantissa x then none else some (n.mantissa * 10 ^ x)).map (· * unit.factor)) ↔
      n.ExponentRead bigint := by
  have hlarge : n.TooLarge ↔ TooLarge n.mantissa e.value := by
    simp [DecimalNumeral.TooLarge, hmantissa, he]
  have hvalue : n.value = n.mantissa * 10 ^ e.value := by
    rw [DecimalNumeral.value, he, Option.elim_some]
  simp only [DecimalNumeral.IsExact, DecimalNumeral.ExponentRead, hmantissa, he, hlarge, hvalue,
    Option.mem_some_iff, forall_eq', false_or]
  rcases hread : bigint e.text with _ | x
  · simp
  · simp only [Option.bind_some, Option.some.injEq, forall_eq']
    by_cases hx : x = e.value
    · subst hx
      by_cases htoo : TooLarge n.mantissa e.value
      · simp [htoo]
      · simp [htoo]
    · by_cases htoo : TooLarge n.mantissa x
      · simp [htoo, hx]
      · have hne : n.mantissa * 10 ^ x * unit.factor ≠ n.mantissa * 10 ^ e.value * unit.factor := by
          intro heq
          exact hx (zpow_ten_injective hmantissa (mul_right_cancel₀ (factor_ne_zero unit) heq))
        rw [if_neg htoo, Option.map_some, Option.some_inj]
        simp [htoo, hx, hne]

lemma isExact_iff (h : ReadsNumbers bigint) (n : DecimalNumeral)
    (hwhole : ∀ c t, n.whole = '0' :: c :: t → False) (unit : SubDenomination) :
    n.IsExact unit ((valueOfText bigint n.text).map (· * unit.factor)) ↔
      n.ExponentRead bigint := by
  rw [valueOfText_text h n hwhole]
  rcases he : n.exponent with _ | e
  · simp [DecimalNumeral.IsExact, DecimalNumeral.ExponentRead, DecimalNumeral.value, he]
  · by_cases hmantissa : n.mantissa = 0
    · simp [DecimalNumeral.IsExact, DecimalNumeral.ExponentRead, DecimalNumeral.value, hmantissa]
    · simp only [if_neg hmantissa]
      exact isExact_iff_of_exponent he hmantissa unit

/-! ### Exponents with leading zeros -/

/-- The number with the digits behind the ones of `n`. -/
def readDigitsFrom (base n : ℕ) (digits : List Char) : ℕ :=
  digits.foldl (fun n c => n * base + (digitValue c).getD 0) n

lemma le_readDigitsFrom {base : ℕ} (hbase : 0 < base) (n : ℕ) (digits : List Char) :
    n ≤ readDigitsFrom base n digits := by
  induction digits generalizing n with
  | nil => exact le_rfl
  | cons c digits ih =>
    exact (Nat.le_add_right_of_le (Nat.le_mul_of_pos_right n hbase)).trans (ih _)

lemma readDigitsFrom_lt {m n : ℕ} (hmn : m < n) (digits : List Char) :
    readDigitsFrom 8 m digits < readDigitsFrom 10 n digits := by
  induction digits generalizing m n with
  | nil => exact hmn
  | cons c digits ih =>
    exact ih (show m * 8 + (digitValue c).getD 0 < n * 10 + (digitValue c).getD 0 by omega)

lemma digit_le_readDigitsFrom (n : ℕ) {digits : List Char} {c : Char} (hc : c ∈ digits) :
    (digitValue c).getD 0 ≤ readDigitsFrom 10 n digits := by
  induction digits generalizing n with
  | nil => cases hc
  | cons d digits ih =>
    rcases mem_cons.mp hc with rfl | hc
    · exact (Nat.le_add_left _ _).trans (le_readDigitsFrom (by decide) _ digits)
    · exact ih _ hc

lemma digitValue_of_isDecimalDigit {c : Char} (hc : isDecimalDigit c) :
    digitValue c = some (c.toNat - '0'.toNat) := by
  rw [isDecimalDigit, Bool.and_eq_true, decide_eq_true_eq, decide_eq_true_eq] at hc
  rw [digitValue, if_pos hc]

lemma eight_le_digitValue_iff {c : Char} (hc : isDecimalDigit c) :
    8 ≤ (digitValue c).getD 0 ↔ (decide (c < '8')) = false := by
  rw [digitValue_of_isDecimalDigit hc, Option.getD_some, decide_eq_false_iff_not, Char.not_lt,
    Char.le_def, UInt32.le_iff_toNat_le]
  show 8 ≤ c.toNat - 48 ↔ 56 ≤ c.toNat
  omega

/-- Digits below eight denote the same number in both bases only if there is at most one, zeros
apart. -/
lemma readDigits_eq_iff {digits : List Char} (hdigits : digits.all (· < '8'))
    (hdecimal : digits.all isDecimalDigit) :
    readDigits 8 digits = readDigits 10 digits ↔ readDigits 10 digits < 8 := by
  induction digits with
  | nil => decide
  | cons c digits ih =>
    rw [all_cons, Bool.and_eq_true] at hdigits hdecimal
    by_cases hzero : c = '0'
    · subst hzero
      rw [readDigits_cons_zero, readDigits_cons_zero]
      exact ih hdigits.2 hdecimal.2
    · have hlt : (digitValue c).getD 0 < 8 := by
        by_contra hge
        rw [not_lt, eight_le_digitValue_iff hdecimal.1, hdigits.1] at hge
        cases hge
      have hpos : 0 < (digitValue c).getD 0 := by
        by_contra hnot
        have hle : c.toNat ≤ '0'.toNat := by
          rw [digitValue_of_isDecimalDigit hdecimal.1, Option.getD_some] at hnot
          omega
        have hge : '0'.toNat ≤ c.toNat := by
          have hdigit := hdecimal.1
          rw [isDecimalDigit, Bool.and_eq_true, decide_eq_true_eq] at hdigit
          exact UInt32.le_iff_toNat_le.mp (Char.le_def.mp hdigit.1)
        exact hzero (Char.toNat_inj.mp (le_antisymm hle hge))
      cases digits with
      | nil =>
        have heq (base : ℕ) : readDigits base [c] = (digitValue c).getD 0 := by
          show 0 * base + (digitValue c).getD 0 = _
          omega
        rw [heq, heq]
        exact iff_of_true rfl hlt
      | cons d digits =>
        have heq (base : ℕ) : readDigits base (c :: d :: digits) =
            readDigitsFrom base ((digitValue c).getD 0 * base + (digitValue d).getD 0) digits := by
          show readDigitsFrom base ((0 * base + _) * base + _) digits = _
          rw [Nat.zero_mul, Nat.zero_add]
        rw [heq, heq]
        have hstrict : readDigitsFrom 8 ((digitValue c).getD 0 * 8 + (digitValue d).getD 0) digits <
            readDigitsFrom 10 ((digitValue c).getD 0 * 10 + (digitValue d).getD 0) digits :=
          readDigitsFrom_lt (by omega) digits
        have hlarge := le_readDigitsFrom (show 0 < 10 by decide)
          ((digitValue c).getD 0 * 10 + (digitValue d).getD 0) digits
        exact iff_of_false hstrict.ne (by omega)

variable {bigint : List Char → Option ℤ}

lemma bigint_digits_iff (h : ReadsNumbers bigint) {digits : List Char}
    (hdecimal : digits.all isDecimalDigit) :
    bigint digits = some (readDigits 10 digits : ℤ) ↔
      (digits.head? = some '0' → readDigits 10 digits < 8) := by
  cases digits with
  | nil => exact iff_of_true h.empty nofun
  | cons c digits =>
    have htail : digits.all isDecimalDigit = true := (Bool.and_eq_true _ _ ▸ hdecimal).2
    by_cases hc : c = '0'
    · subst hc
      rw [h.octal digits htail, readDigits_cons_zero]
      by_cases hoctal : digits.all (· < '8') = true
      · rw [if_pos hoctal, Option.some_inj, Nat.cast_inj, readDigits_eq_iff hoctal htail]
        simp
      · rw [if_neg hoctal]
        obtain ⟨d, hd, hlarge⟩ : ∃ d ∈ digits, decide (d < '8') = false := by
          simpa using hoctal
        have hle := (eight_le_digitValue_iff (all_eq_true.mp htail d hd)).mpr hlarge
        have hge := hle.trans (digit_le_readDigitsFrom 0 hd)
        refine iff_of_false nofun ?_
        intro hlt
        exact absurd (hlt rfl) (not_lt.mpr hge)
    · refine iff_of_true (h.decimal c digits hc hdecimal) ?_
      intro hhead
      exact absurd (Option.some.inj hhead) hc

lemma bigint_text_iff (h : ReadsNumbers bigint) {e : Exponent} (hsign : e.sign ≠ .plus) :
    bigint e.text = some e.value ↔
      (e.digits.head? = some '0' → readDigits 10 e.digits < 8) := by
  rw [← bigint_digits_iff h e.isDecimal, Exponent.text, Exponent.value]
  cases hs : e.sign with
  | none => rfl
  | plus => exact absurd hs hsign
  | minus =>
    obtain ⟨c, digits, hdigits⟩ := exists_cons_of_ne_nil e.nonempty
    have hdecimal := e.isDecimal
    rw [hdigits] at hdecimal ⊢
    rw [show Sign.minus.text ++ c :: digits = '-' :: c :: digits from rfl, h.negative c digits hdecimal]
    simp [Option.map_eq_some_iff]

end

lemma whole_notOctal {pointSeen : Bool} {source text rest : List Char}
    (hscan : scanNumber pointSeen source = .ok (text, rest)) {n : DecimalNumeral}
    (htext : withoutUnderscores text = n.text) (c : Char) (t : List Char)
    (hwhole : n.whole = '0' :: c :: t) : False := by
  have hdigits := n.whole_isDecimal
  have hnot : isDecimalDigit c = false := by
    apply not_octal hscan
    rw [htext, DecimalNumeral.text, DecimalNumeral.mantissaText, hwhole]
    rfl
  rw [hwhole, all_cons, all_cons, hnot] at hdigits
  simp at hdigits

/-- The digits of a number without a sign. -/
def readUnsigned : List Char → Option ℕ
  | '0' :: 'x' :: s => if s.all isHexDigit then some (readDigits 16 s) else none
  | '0' :: s => if s.all fun c => '0' ≤ c && c < '8' then some (readDigits 8 s) else none
  | s => if s.all isDecimalDigit then some (readDigits 10 s) else none

def readBigint : List Char → Option ℤ
  | '-' :: s => (readUnsigned s).map fun (n : ℕ) => -(n : ℤ)
  | s => (readUnsigned s).map Int.ofNat

lemma readUnsigned_zero {s : List Char} (hs : s.all isDecimalDigit) :
    readUnsigned ('0' :: s) = if s.all (· < '8') then some (readDigits 8 s) else none := by
  have hall : (s.all fun c => '0' ≤ c && c < '8') = s.all (· < '8') := by
    rw [Bool.eq_iff_iff, all_eq_true, all_eq_true]
    refine forall₂_congr fun c hc => ?_
    have hdigit := all_eq_true.mp hs c hc
    rw [isDecimalDigit, Bool.and_eq_true] at hdigit
    rw [Bool.and_eq_true, and_iff_right hdigit.1]
  unfold readUnsigned
  split
  · rename_i heq
    cases heq
    rw [all_cons] at hs
    cases hs
  · rename_i heq
    cases heq
    rw [hall]
  · rename_i hno
    exact absurd rfl (hno s)

lemma readUnsigned_of_ne {c : Char} {s : List Char} (hc : c ≠ '0')
    (hs : (c :: s).all isDecimalDigit) :
    readUnsigned (c :: s) = some (readDigits 10 (c :: s)) := by
  unfold readUnsigned
  split
  · rename_i heq
    cases heq
    exact absurd rfl hc
  · rename_i heq
    cases heq
    exact absurd rfl hc
  · rw [if_pos hs]

lemma readBigint_of_ne {c : Char} (hc : c ≠ '-') (s : List Char) :
    readBigint (c :: s) = (readUnsigned (c :: s)).map Int.ofNat := by
  unfold readBigint
  split
  · rename_i heq
    cases heq
    exact absurd rfl hc
  · rfl

lemma readBigint_readsNumbers : ReadsNumbers readBigint where
  empty := rfl
  decimal c s hc hs := by
    have hdigit : isDecimalDigit c = true := (Bool.and_eq_true _ _ ▸ hs).1
    rw [readBigint_of_ne (ne_of_isDecimalDigit hdigit rfl), readUnsigned_of_ne hc hs]
    rfl
  octal s hs := by
    rw [readBigint_of_ne (by decide), readUnsigned_zero hs]
    split_ifs <;> rfl
  negative c s hs := by
    have hdigit : isDecimalDigit c = true := (Bool.and_eq_true _ _ ▸ hs).1
    rw [readBigint_of_ne (ne_of_isDecimalDigit hdigit rfl), Option.map_map, readBigint]
    rfl
  hexadecimal c s hs := by
    rw [readBigint_of_ne (by decide), readUnsigned, if_pos hs]
    rfl

/-- The exponent of `1e010` is read in base eight. -/
def leadingZero : DecimalNumeral where
  whole := ['1']
  fraction := none
  exponent := some ⟨'e', .none, ['0', '1', '0'], .inl rfl, rfl, nofun⟩
  whole_isDecimal := rfl
  fraction_isDecimal := nofun
  nonempty := nofun

lemma value_leadingZero : leadingZero.value = 10 ^ 10 := by
  decide +kernel

end Polynomial.RationalNumberType
