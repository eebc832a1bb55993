import Mathlib.Data.List.TakeDrop

/-!
# Scanning numbers

`Scanner::scanNumber` of `liblangutil/Scanner.cpp` with the character classes of
`liblangutil/Common.h`. The functions take the text that was scanned so far and the rest of the
source, whose first character is the current one.
-/

namespace Langutil

open List

def isDecimalDigit (c : Char) : Bool := '0' ≤ c && c ≤ '9'

def isHexDigit (c : Char) : Bool :=
  isDecimalDigit c || ('a' ≤ c && c ≤ 'f') || ('A' ≤ c && c ≤ 'F')

def isIdentifierStart (c : Char) : Bool :=
  c = '_' || c = '$' || ('a' ≤ c && c ≤ 'z') || ('A' ≤ c && c ≤ 'Z')

inductive ScannerError where
  | illegalToken
  | illegalHexString
  | illegalHexDigit
  | illegalCommentTerminator
  | illegalEscapeSequence
  | illegalStringEndQuote
  | octalNotAllowed
  | illegalExponent
  | illegalNumberEnd
  deriving DecidableEq, Repr

namespace Scanner

/-- The text of a number, or an error, and the source behind it. -/
abbrev Scanned := Except (ScannerError × List Char) (List Char × List Char)

/-- The current character, zero past the end of the input. -/
def currentChar (source : List Char) : Char := source.headD (.ofNat 0)

/-- Decimal digits with underscores between them, which are validated later. -/
def scanDecimalDigits (source : List Char) : List Char × List Char :=
  if isDecimalDigit (currentChar source) then
    source.span fun c => isDecimalDigit c || c = '_'
  else ([], source)

/-- The character behind a number must not be an identifier start or a decimal digit. -/
def finish (text source : List Char) : Scanned :=
  if isDecimalDigit (currentChar source) || isIdentifierStart (currentChar source) then
    .error (.illegalNumberEnd, source)
  else .ok (text, source)

/-- The digits of an exponent, of which there must be at least one. -/
def scanExponentDigits (text source : List Char) : Scanned :=
  if isDecimalDigit (currentChar source) then
    let digits := scanDecimalDigits source
    finish (text ++ digits.1) digits.2
  else .error (.illegalExponent, source)

/-- The exponent behind `e` or `E`. -/
def scanSignedExponent (text source : List Char) : Scanned :=
  if currentChar source = '+' ∨ currentChar source = '-' then
    scanExponentDigits (text ++ [currentChar source]) source.tail
  else scanExponentDigits text source

/-- Scan the exponent, if any. -/
def scanExponent (text source : List Char) : Scanned :=
  if currentChar source = 'e' ∨ currentChar source = 'E' then
    if source[1]? = some '_' then
      -- Recover from a wrongly placed underscore by consuming until the end.
      let digits := scanDecimalDigits (source.drop 2)
      .ok (text ++ source.take 2 ++ digits.1, digits.2)
    else scanSignedExponent (text ++ [currentChar source]) source.tail
  else finish text source

/-- Scan a point and the fraction behind it. A point has to be followed by a digit. -/
def scanPoint (text source : List Char) : Scanned :=
  if source = [] ∨ isDecimalDigit (source.getD 1 (.ofNat 0)) = false then .ok (text, source)
  else
    let digits := scanDecimalDigits source.tail
    scanExponent (text ++ source.take 1 ++ digits.1) digits.2

/-- Scan the fraction, if any. -/
def scanFraction (text source : List Char) : Scanned :=
  if currentChar source = '.' then
    if source[1]? = some '_' then
      -- Recover from an underscore behind the point by consuming it all.
      let digits := scanDecimalDigits (source.drop 2)
      scanPoint (text ++ source.take 2 ++ digits.1) digits.2
    else scanPoint text source
  else scanExponent text source

/-- Parse decimal digits and allow a trailing fractional part. -/
def scanDecimal (text source : List Char) : Scanned :=
  let digits := scanDecimalDigits source
  scanFraction (text ++ digits.1) digits.2

/-- A hexadecimal number behind its prefix. No exponent can follow, since `e` is a digit. -/
def scanHex (source : List Char) : Scanned :=
  if isHexDigit (currentChar source) then
    let digits := source.span fun c => isHexDigit c || c = '_'
    finish ('0' :: 'x' :: digits.1) digits.2
  else .error (.illegalHexDigit, source)

/-- Scan a number, behind a point if `pointSeen`. Octal numbers are not allowed. -/
def scanNumber (pointSeen : Bool) (source : List Char) : Scanned :=
  if pointSeen then
    if currentChar source = '_' then .error (.illegalToken, source)
    else
      let digits := scanDecimalDigits source
      scanExponent ('.' :: digits.1) digits.2
  else if currentChar source = '0' then
    if currentChar source.tail = 'x' then scanHex (source.drop 2)
    else if isDecimalDigit (currentChar source.tail) then .error (.octalNotAllowed, source.tail)
    else scanDecimal ['0'] source.tail
  else scanDecimal [] source

example : scanNumber false "1_000.5e-3 ".toList = .ok ("1_000.5e-3".toList, [' ']) := by decide

example : scanNumber false "010".toList = .error (.octalNotAllowed, "10".toList) := by decide

/-! ### Leading zeros -/

section

variable {text source t rest : List Char}

/-- What can follow the digits in front of the point. -/
def IsSuffix (s : List Char) : Prop := ∀ c ∈ s.head?, c = '.' ∨ c = 'e' ∨ c = 'E'

lemma isSuffix_nil : IsSuffix [] := nofun

lemma finish_eq_ok (h : finish text source = .ok (t, rest)) : t = text := by
  rw [finish] at h
  split_ifs at h
  cases h
  rfl

lemma scanExponentDigits_eq_ok (h : scanExponentDigits text source = .ok (t, rest)) :
    ∃ s, t = text ++ s := by
  rw [scanExponentDigits] at h
  split_ifs at h
  exact ⟨_, finish_eq_ok h⟩

lemma scanSignedExponent_eq_ok (h : scanSignedExponent text source = .ok (t, rest)) :
    ∃ s, t = text ++ s := by
  rw [scanSignedExponent] at h
  split_ifs at h
  · obtain ⟨s, rfl⟩ := scanExponentDigits_eq_ok h
    exact ⟨_, append_assoc _ _ _⟩
  · exact scanExponentDigits_eq_ok h

lemma take_two_eq {d : Char} (h : source[1]? = some d) :
    source.take 2 = currentChar source :: [d] := by
  rcases source with _ | ⟨c, _ | ⟨d', source⟩⟩
  · cases h
  · cases h
  · cases h
    rfl

lemma scanExponent_eq_ok (h : scanExponent text source = .ok (t, rest)) :
    ∃ s, t = text ++ s ∧ IsSuffix s := by
  rw [scanExponent] at h
  split_ifs at h with he hunderscore
  · cases h
    refine ⟨_, append_assoc _ _ _, ?_⟩
    rw [take_two_eq hunderscore]
    rintro c ⟨⟩
    exact .inr he
  · obtain ⟨s, rfl⟩ := scanSignedExponent_eq_ok h
    refine ⟨_, append_assoc _ _ _, ?_⟩
    rintro c ⟨⟩
    exact .inr he
  · exact ⟨[], by rw [finish_eq_ok h, append_nil], isSuffix_nil⟩

lemma scanPoint_eq_ok (h : scanPoint text source = .ok (t, rest)) :
    ∃ s, t = text ++ s ∧ (s = [] ∨ s.head? = source.head?) := by
  rw [scanPoint] at h
  split_ifs at h with hend
  · cases h
    exact ⟨[], (append_nil _).symm, .inl rfl⟩
  · obtain ⟨s, rfl, -⟩ := scanExponent_eq_ok h
    rw [not_or] at hend
    obtain ⟨c, source, rfl⟩ := exists_cons_of_ne_nil hend.1
    refine ⟨_, by rw [append_assoc, append_assoc], ?_⟩
    exact .inr rfl

lemma scanFraction_eq_ok (h : scanFraction text source = .ok (t, rest)) :
    ∃ s, t = text ++ s ∧ IsSuffix s := by
  rw [scanFraction] at h
  split_ifs at h with hpoint hunderscore
  · obtain ⟨s, rfl, -⟩ := scanPoint_eq_ok h
    refine ⟨_, by rw [append_assoc, append_assoc], ?_⟩
    rw [take_two_eq hunderscore]
    rintro c ⟨⟩
    exact .inl hpoint
  · obtain ⟨s, rfl, hs⟩ := scanPoint_eq_ok h
    refine ⟨s, rfl, ?_⟩
    rcases hs with rfl | hs
    · exact isSuffix_nil
    · intro c hc
      rw [hs] at hc
      obtain ⟨source', rfl⟩ := List.head?_eq_some_iff.mp hc
      exact .inl hpoint
  · exact scanExponent_eq_ok h

/-- The text without its underscores. -/
def withoutUnderscores (text : List Char) : List Char := text.filter (· ≠ '_')

lemma withoutUnderscores_cons {c : Char} (hc : c ≠ '_') (text : List Char) :
    withoutUnderscores (c :: text) = c :: withoutUnderscores text := by
  simp [withoutUnderscores, hc]

lemma IsSuffix.withoutUnderscores {s : List Char} (h : IsSuffix s) :
    IsSuffix (Scanner.withoutUnderscores s) := by
  cases s with
  | nil => exact isSuffix_nil
  | cons c s =>
    have hc := h c rfl
    rw [withoutUnderscores_cons (by rintro rfl; simp at hc)]
    rintro _ ⟨⟩
    exact hc

lemma scanDecimalDigits_of_not {c : List Char} (h : isDecimalDigit (currentChar c) = false) :
    scanDecimalDigits c = ([], c) := by
  rw [scanDecimalDigits, if_neg (by rw [h]; decide)]

lemma scanDecimalDigits_of_digit (h : isDecimalDigit (currentChar source)) :
    ∃ digits, (scanDecimalDigits source).1 = currentChar source :: digits := by
  rw [scanDecimalDigits, if_pos h]
  cases source with
  | nil => cases h
  | cons c source =>
    rw [span_eq_takeWhile_dropWhile, takeWhile_cons,
      if_pos (by rw [show isDecimalDigit c = true from h]; rfl)]
    exact ⟨_, rfl⟩

lemma not_digit_of_isSuffix {c : Char} {s : List Char} (h : IsSuffix (c :: s)) :
    isDecimalDigit c = false := by
  rcases h c rfl with rfl | rfl | rfl <;> rfl

lemma not_octal {pointSeen : Bool} (h : scanNumber pointSeen source = .ok (text, rest)) {c : Char}
    {digits : List Char} (htext : withoutUnderscores text = '0' :: c :: digits) :
    isDecimalDigit c = false := by
  rw [scanNumber] at h
  split_ifs at h with hpoint hunderscore hzero hhex hoctal
  · obtain ⟨s, rfl, -⟩ := scanExponent_eq_ok h
    rw [cons_append, withoutUnderscores_cons (by decide)] at htext
    cases htext
  · rw [scanHex] at h
    split_ifs at h
    rw [finish_eq_ok h, withoutUnderscores_cons (by decide), withoutUnderscores_cons (by decide)]
      at htext
    cases htext
    rfl
  · rw [scanDecimal, scanDecimalDigits_of_not (Bool.eq_false_iff.mpr hoctal)] at h
    obtain ⟨s, rfl, hs⟩ := scanFraction_eq_ok h
    rw [append_nil, singleton_append, withoutUnderscores_cons (by decide)] at htext
    have hsuffix := hs.withoutUnderscores
    rw [(List.cons.inj htext).2] at hsuffix
    exact not_digit_of_isSuffix hsuffix
  · obtain ⟨s, rfl, hs⟩ := scanFraction_eq_ok h
    by_cases hdigit : isDecimalDigit (currentChar source) = true
    · obtain ⟨rest', hrest⟩ := scanDecimalDigits_of_digit hdigit
      have hne : currentChar source ≠ '_' := by
        intro heq
        rw [heq] at hdigit
        cases hdigit
      rw [nil_append, hrest, cons_append, withoutUnderscores_cons hne] at htext
      exact absurd (List.cons.inj htext).1 hzero
    · rw [scanDecimalDigits_of_not (Bool.eq_false_iff.mpr hdigit)] at htext
      have hsuffix := hs.withoutUnderscores
      rw [show Scanner.withoutUnderscores s = '0' :: c :: digits from htext] at hsuffix
      exact absurd (not_digit_of_isSuffix hsuffix) (by decide)

end

end Scanner

end Langutil
