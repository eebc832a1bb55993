import Polc.Langutil.SemVerHandler
import Mathlib.Data.List.TakeWhile

/-!
# The numbers of version expressions
-/

namespace Langutil

open BitVec List

namespace SemVerMatchExpressionParser

/-- The number with some digits behind it, unless a test for overflow fires. -/
def takeDigits : Unsigned → List Char → Except SemVerError Unsigned
  | v, [] => .ok v
  | v, c :: cs => if overflows v c then .error .semVerError else takeDigits (v * 10 + digitValue c) cs

variable {p : SemVerMatchExpressionParser} {v : Unsigned}

lemma parseDigits_eq {startPos : ℕ} : parseDigits startPos p v =
    if p.pos = startPos ∧ isDecimalDigit p.currentChar = true then
      if overflows v p.currentChar then .error .semVerError
      else parseDigits startPos p.nextChar (v * 10 + digitValue p.currentChar)
    else .ok (v, p) := by
  rw [parseDigits]

lemma parseDigits_of_pos_ne {startPos : ℕ} (h : p.pos ≠ startPos) :
    parseDigits startPos p v = .ok (v, p) := by
  rw [parseDigits_eq, if_neg fun h' => h h'.1]

lemma parseDigits_eq_takeDigits (cs : List Char) (p : SemVerMatchExpressionParser) (v : Unsigned)
    (h : p.rest = cs) :
    (parseDigits p.pos p v).map Prod.fst = takeDigits v (cs.takeWhile isDecimalDigit) := by
  induction cs generalizing p v with
  | nil =>
    have hchar : ¬ isDecimalDigit p.currentChar = true := by
      rw [currentChar_eq, h]
      decide
    rw [parseDigits_eq, if_neg fun h' => hchar h'.2]
    rfl
  | cons c cs ih =>
    have hchar : p.currentChar = c := by
      rw [currentChar_eq, h]
      rfl
    rw [parseDigits_eq, hchar]
    by_cases hc : isDecimalDigit c = true
    · rw [if_pos ⟨rfl, hc⟩, takeWhile_cons_of_pos hc, takeDigits]
      split_ifs
      · rfl
      · cases cs with
        | nil =>
          rw [nextChar_of_rest_singleton h, parseDigits_of_pos_ne (Nat.succ_ne_self p.pos)]
          rfl
        | cons d cs =>
          obtain ⟨hpos, hnext⟩ := nextChar_of_rest h
          rw [← hpos]
          exact ih p.nextChar _ hnext
    · rw [if_neg fun h' => hc h'.2, takeWhile_cons_of_neg hc]
      rfl

/-! ### The value of digits -/

/-- The decimal value. -/
def valueOf (digits : List Char) : ℕ := Nat.ofDigitChars 10 digits 0

/-- The test before another digit fires. -/
def Overflows (n : ℕ) (c : Char) : Prop :=
  n * 10 % 2 ^ 32 < n % 2 ^ 32 ∨ 2 ^ 32 ≤ n * 10 % 2 ^ 32 + (c.toNat - '0'.toNat)

instance (n : ℕ) (c : Char) : Decidable (Overflows n c) := inferInstanceAs (Decidable (_ ∨ _))

lemma isDecimalDigit_iff {c : Char} :
    isDecimalDigit c ↔ '0'.toNat ≤ c.toNat ∧ c.toNat ≤ '9'.toNat := by
  rw [isDecimalDigit, Bool.and_eq_true, decide_eq_true_eq, decide_eq_true_eq]
  exact Iff.rfl

lemma overflows_iff {n : ℕ} {c : Char} (hc : isDecimalDigit c) :
    overflows (.ofNat 32 n) c ↔ Overflows n c := by
  have hdigit : c.toNat - '0'.toNat < 10 := by
    have hnine := (isDecimalDigit_iff.mp hc).2
    change c.toNat ≤ 57 at hnine
    change c.toNat - 48 < 10
    omega
  generalize hd : c.toNat - '0'.toNat = d at hdigit
  rw [overflows, Overflows, Bool.or_eq_true, decide_eq_true_eq, decide_eq_true_eq, lt_def,
    lt_def, digitValue, hd]
  have hten : (10 : Unsigned).toNat = 10 := rfl
  have hmul : n % 2 ^ 32 * 10 % 2 ^ 32 = n * 10 % 2 ^ 32 := by
    rw [Nat.mul_mod, Nat.mod_mod, ← Nat.mul_mod]
  simp only [toNat_add, toNat_mul, toNat_ofNat, hten, hmul]
  have hlt : n * 10 % 2 ^ 32 < 2 ^ 32 := Nat.mod_lt _ (by decide)
  generalize n * 10 % 2 ^ 32 = x at hlt
  omega

/-- The test fires at one of the digits behind a number. -/
def FiresFrom (n : ℕ) (digits : List Char) : Prop :=
  ∃ before c after, digits = before ++ c :: after ∧ Overflows (Nat.ofDigitChars 10 before n) c

lemma not_firesFrom_nil (n : ℕ) : ¬ FiresFrom n [] := by
  rintro ⟨before, c, after, h, -⟩
  simp at h

lemma firesFrom_cons {n : ℕ} {c : Char} {cs : List Char} :
    FiresFrom n (c :: cs) ↔
      Overflows n c ∨ FiresFrom (10 * n + (c.toNat - '0'.toNat)) cs := by
  constructor
  · rintro ⟨before, d, after, h, hfires⟩
    cases before with
    | nil =>
      obtain ⟨rfl, -⟩ := List.cons.inj h
      exact .inl hfires
    | cons b before =>
      obtain ⟨rfl, hcs⟩ := List.cons.inj h
      exact .inr ⟨before, d, after, hcs, by rwa [Nat.ofDigitChars_cons] at hfires⟩
  · rintro (hfires | ⟨before, d, after, rfl, hfires⟩)
    · exact ⟨[], c, cs, rfl, hfires⟩
    · exact ⟨c :: before, d, after, rfl, by rwa [Nat.ofDigitChars_cons]⟩

lemma takeDigits_ofNat {digits : List Char} (hdigits : ∀ c ∈ digits, isDecimalDigit c)
    (n : ℕ) : (FiresFrom n digits ∧ takeDigits (.ofNat 32 n) digits = .error .semVerError) ∨
      (¬ FiresFrom n digits ∧
        takeDigits (.ofNat 32 n) digits = .ok (.ofNat 32 (Nat.ofDigitChars 10 digits n))) := by
  induction digits generalizing n with
  | nil => exact .inr ⟨not_firesFrom_nil n, rfl⟩
  | cons c cs ih =>
    have hc := hdigits c (mem_cons_self ..)
    by_cases hfires : Overflows n c
    · refine .inl ⟨firesFrom_cons.mpr (.inl hfires), ?_⟩
      rw [takeDigits, if_pos ((overflows_iff hc).mpr hfires)]
    · have hnext : BitVec.ofNat 32 n * 10 + digitValue c =
          .ofNat 32 (10 * n + (c.toNat - '0'.toNat)) := by
        rw [digitValue, ofNat_add, ofNat_mul, BitVec.mul_comm]
        rfl
      rw [takeDigits, if_neg fun h => hfires ((overflows_iff hc).mp h), hnext, firesFrom_cons,
        Nat.ofDigitChars_cons, or_iff_right hfires]
      exact ih (fun c hc => hdigits c (mem_cons_of_mem _ hc)) _

lemma le_ofDigitChars (digits : List Char) (n : ℕ) : n ≤ Nat.ofDigitChars 10 digits n := by
  induction digits generalizing n with
  | nil => exact (Nat.ofDigitChars_nil).ge
  | cons c cs ih =>
    rw [Nat.ofDigitChars_cons]
    have := ih (10 * n + (c.toNat - '0'.toNat))
    omega

lemma not_firesFrom {digits : List Char} {n : ℕ} (h : Nat.ofDigitChars 10 digits n < 2 ^ 32) :
    ¬ FiresFrom n digits := by
  rintro ⟨before, c, after, rfl, hfires⟩
  rw [Nat.ofDigitChars_append, Nat.ofDigitChars_cons] at h
  have hle : 10 * Nat.ofDigitChars 10 before n + (c.toNat - '0'.toNat) < 2 ^ 32 :=
    (le_ofDigitChars after _).trans_lt h
  rw [Overflows, Nat.mod_eq_of_lt (by omega), Nat.mod_eq_of_lt (by omega)] at hfires
  omega

/-! ### The digits of a version part -/

/-- A zero stands alone. -/
def digitsOf : List Char → List Char
  | [] => []
  | c :: cs =>
    if c = '0' then ['0']
    else if isDecimalDigit c = true then c :: cs.takeWhile isDecimalDigit
    else []

/-- What a version part should be read as: a wildcard, or the exact value of the digits. -/
def exactVersionPart (p : SemVerMatchExpressionParser) : Except SemVerError ℕ :=
  if p.currentChar = 'x' ∨ p.currentChar = 'X' ∨ p.currentChar = '*' then .ok (2 ^ 32 - 1)
  else if digitsOf p.rest = [] then .error .semVerError
  else if valueOf (digitsOf p.rest) < 2 ^ 32 then .ok (valueOf (digitsOf p.rest))
  else .error .semVerError

lemma isDecimalDigit_of_mem_digitsOf {cs : List Char} {c : Char} (h : c ∈ digitsOf cs) :
    isDecimalDigit c := by
  cases cs with
  | nil => cases h
  | cons d cs =>
    rw [digitsOf] at h
    split_ifs at h with hzero hdigit
    · rw [mem_singleton.mp h]
      decide
    · rcases mem_cons.mp h with rfl | h
      · exact hdigit
      · exact mem_takeWhile_imp h
    · cases h

lemma parseDigits_nextChar {c : Char} {cs : List Char} (h : p.rest = c :: cs) :
    (parseDigits p.pos p.nextChar v).map Prod.fst = takeDigits v (cs.takeWhile isDecimalDigit) := by
  cases cs with
  | nil =>
    rw [nextChar_of_rest_singleton h, parseDigits_of_pos_ne (Nat.succ_ne_self p.pos)]
    rfl
  | cons d cs =>
    obtain ⟨hpos, hnext⟩ := nextChar_of_rest h
    rw [← hpos]
    exact parseDigits_eq_takeDigits _ p.nextChar v hnext

lemma nonzero_digit_iff {c : Char} (hzero : c ≠ '0') :
    '1' ≤ c ∧ c ≤ '9' ↔ isDecimalDigit c := by
  have hne : c.toNat ≠ 48 := fun h => hzero (Char.toNat_inj.mp h)
  rw [isDecimalDigit_iff]
  change 49 ≤ c.toNat ∧ c.toNat ≤ 57 ↔ 48 ≤ c.toNat ∧ c.toNat ≤ 57
  omega

lemma takeDigits_zero_cons (c : Char) (cs : List Char) :
    takeDigits (.ofNat 32 0) (c :: cs) = takeDigits (digitValue c) cs := by
  rw [takeDigits, if_neg (by simp [overflows]), BitVec.zero_mul, BitVec.zero_add]

lemma parseVersionPart_eq : p.parseVersionPart.map Prod.fst =
    if p.currentChar = 'x' ∨ p.currentChar = 'X' ∨ p.currentChar = '*' then .ok (-1)
    else if digitsOf p.rest = [] then .error .semVerError
    else takeDigits (.ofNat 32 0) (digitsOf p.rest) := by
  rw [parseVersionPart]
  cases hrest : p.rest with
  | nil =>
    have hchar : p.currentChar = noChar := by
      rw [currentChar_eq, hrest]
      rfl
    rw [hchar]
    rfl
  | cons c cs =>
    have hchar : p.currentChar = c := by
      rw [currentChar_eq, hrest]
      rfl
    rw [hchar]
    by_cases hwildcard : c = 'x' ∨ c = 'X' ∨ c = '*'
    · rw [if_pos hwildcard, if_pos hwildcard]
      rfl
    · rw [if_neg hwildcard, if_neg hwildcard]
      by_cases hzero : c = '0'
      · subst hzero
        rfl
      · rw [if_neg hzero, digitsOf, if_neg hzero]
        by_cases hdigit : isDecimalDigit c = true
        · rw [if_pos ((nonzero_digit_iff hzero).mpr hdigit), if_pos hdigit,
            if_neg (cons_ne_nil _ _), parseDigits_nextChar hrest,
            takeDigits_zero_cons]
        · rw [if_neg fun h => hdigit ((nonzero_digit_iff hzero).mp h), if_neg hdigit, if_pos rfl]
          rfl

lemma digitsOf_of_wildcard
    (h : p.currentChar = 'x' ∨ p.currentChar = 'X' ∨ p.currentChar = '*') :
    digitsOf p.rest = [] := by
  rw [currentChar_eq] at h
  cases hrest : p.rest with
  | nil => rfl
  | cons c cs =>
    rw [hrest] at h
    change c = 'x' ∨ c = 'X' ∨ c = '*' at h
    rcases h with rfl | rfl | rfl <;> rfl

lemma map_toNat_eq (r : Except SemVerError (Unsigned × SemVerMatchExpressionParser)) :
    r.map (fun r => r.1.toNat) = (r.map Prod.fst).map BitVec.toNat := by
  cases r <;> rfl

/-- Version parts are read exactly if and only if the value of the digits fits, or one of the tests
for overflow fires. -/
theorem parseVersionPart_exact_iff (p : SemVerMatchExpressionParser) :
    p.parseVersionPart.map (fun r => r.1.toNat) = p.exactVersionPart ↔
      valueOf (digitsOf p.rest) < 2 ^ 32 ∨
      ∃ before c after, digitsOf p.rest = before ++ c :: after ∧ Overflows (valueOf before) c := by
  rw [map_toNat_eq, parseVersionPart_eq, exactVersionPart]
  by_cases hwildcard : p.currentChar = 'x' ∨ p.currentChar = 'X' ∨ p.currentChar = '*'
  · rw [if_pos hwildcard, if_pos hwildcard, digitsOf_of_wildcard hwildcard]
    exact iff_of_true rfl (.inl (by decide))
  rw [if_neg hwildcard, if_neg hwildcard]
  by_cases hnil : digitsOf p.rest = []
  · rw [if_pos hnil, if_pos hnil, hnil]
    exact iff_of_true rfl (.inl (by decide))
  rw [if_neg hnil, if_neg hnil]
  change _ ↔ _ ∨ FiresFrom 0 (digitsOf p.rest)
  rcases takeDigits_ofNat (fun c hc => isDecimalDigit_of_mem_digitsOf hc) 0 with
    ⟨hfires, htake⟩ | ⟨hfires, htake⟩
  · have hlarge : ¬ valueOf (digitsOf p.rest) < 2 ^ 32 := fun h => not_firesFrom h hfires
    rw [htake, if_neg hlarge]
    exact iff_of_true rfl (.inr hfires)
  · rw [htake, or_iff_left hfires]
    change Except.ok (valueOf (digitsOf p.rest) % 2 ^ 32) = _ ↔ _
    by_cases hfits : valueOf (digitsOf p.rest) < 2 ^ 32
    · rw [if_pos hfits, Nat.mod_eq_of_lt hfits]
      exact iff_of_true rfl hfits
    · rw [if_neg hfits]
      exact iff_of_false nofun hfits

/-- Ten digits that are read as `705032704`. -/
theorem parseVersionPart_inexact :
    ¬ ∀ p : SemVerMatchExpressionParser,
      p.parseVersionPart.map (fun r => r.1.toNat) = p.exactVersionPart := by
  intro h
  specialize h ⟨[.other], ["5000000000".toList], 0, 0⟩
  rw [map_toNat_eq, parseVersionPart_eq] at h
  exact absurd h (by decide)

end SemVerMatchExpressionParser

end Langutil
