import Polc.Langutil.Scanner
import Mathlib.Data.BitVec

/-!
# Version pragmas

The parser of version expressions, `liblangutil/SemVerHandler.cpp`. It reads the characters of the
tokens' literals one by one.
-/

namespace Langutil

open List Option

/-- The tokens of version expressions, and any other token. -/
inductive Token where
  | bitXor
  | bitNot
  | lessThan
  | lessThanOrEqual
  | greaterThan
  | greaterThanOrEqual
  | assign
  | or
  | sub
  | illegal
  | other
  deriving DecidableEq, Repr

instance neZero_levels : NeZero 3 := ⟨by decide⟩

/-- `unsigned` -/
abbrev Unsigned := BitVec 32

inductive SemVerError where
  | semVerError
  deriving DecidableEq, Repr

/-- `SemVerMatchExpression::MatchComponent`. The largest number stands for a wildcard, and the
numbers from `levelsPresent` on are not given. -/
structure MatchComponent where
  semVerPrefix : Token
  numbers : Fin 3 → Unsigned
  levelsPresent : ℕ
  deriving DecidableEq

/-- `SemVerMatchExpression::Conjunction` -/
structure Conjunction where
  components : List MatchComponent
  deriving DecidableEq

structure SemVerMatchExpression where
  disjunction : List Conjunction
  deriving DecidableEq

structure SemVerMatchExpressionParser where
  tokens : List Token
  literals : List (List Char)
  pos : ℕ
  posInside : ℕ
  deriving DecidableEq, Repr

namespace SemVerMatchExpressionParser

variable (p : SemVerMatchExpressionParser)

/-- `char(-1)`, past the end of the input. -/
def noChar : Char := .ofNat 255

def currentChar : Char :=
  match p.literals[p.pos]? with
  | none => noChar
  | some literal => literal.getD p.posInside noChar

def currentToken : Token := p.tokens.getD p.pos .illegal

def nextToken : SemVerMatchExpressionParser := { p with pos := p.pos + 1, posInside := 0 }

def nextChar : SemVerMatchExpressionParser :=
  match p.literals[p.pos]? with
  | none => p
  | some literal =>
    if literal.length ≤ p.posInside + 1 then p.nextToken
    else { p with posInside := p.posInside + 1 }

def rest : List Char := (p.literals.getD p.pos []).drop p.posInside

lemma currentChar_eq : p.currentChar = p.rest.headD noChar := by
  rw [currentChar, rest, getD_eq_getElem?_getD]
  cases p.literals[p.pos]? with
  | none => simp
  | some literal => simp [headD_eq_head?_getD, getD_eq_getElem?_getD]

variable {p}

lemma nextChar_of_rest {c d : Char} {cs : List Char} (h : p.rest = c :: d :: cs) :
    p.nextChar.pos = p.pos ∧ p.nextChar.rest = d :: cs := by
  rw [rest, getD_eq_getElem?_getD] at h
  cases hliteral : p.literals[p.pos]? with
  | none =>
    rw [hliteral, getD_none, drop_nil] at h
    cases h
  | some literal =>
    rw [hliteral, getD_some] at h
    have hlength : ¬ literal.length ≤ p.posInside + 1 := by
      have := congrArg List.length h
      simp only [length_drop, length_cons] at this
      omega
    have hnext : p.nextChar = { p with posInside := p.posInside + 1 } := by
      rw [nextChar, hliteral]
      exact if_neg hlength
    rw [hnext]
    refine ⟨rfl, ?_⟩
    rw [rest, getD_eq_getElem?_getD, hliteral, getD_some, ← drop_drop, h]
    rfl

lemma nextChar_of_rest_singleton {c : Char} (h : p.rest = [c]) : p.nextChar = p.nextToken := by
  rw [rest, getD_eq_getElem?_getD] at h
  cases hliteral : p.literals[p.pos]? with
  | none =>
    rw [hliteral, getD_none, drop_nil] at h
    cases h
  | some literal =>
    rw [hliteral, getD_some] at h
    have hlength : literal.length ≤ p.posInside + 1 := by
      have := congrArg List.length h
      simp only [length_drop, length_singleton] at this
      omega
    rw [nextChar, hliteral]
    exact if_pos hlength

lemma exists_rest_of_digit (h : isDecimalDigit p.currentChar) :
    ∃ cs, p.rest = p.currentChar :: cs := by
  rw [currentChar_eq] at h ⊢
  cases hrest : p.rest with
  | nil =>
    rw [hrest] at h
    exact absurd h (by decide)
  | cons c cs => exact ⟨cs, rfl⟩

def digitValue (c : Char) : Unsigned := .ofNat 32 (c.toNat - '0'.toNat)

/-- The test before another digit is taken in. -/
def overflows (v : Unsigned) (c : Char) : Bool :=
  v * 10 < v || v * 10 + digitValue c < v * 10

/-- The digits behind the first one, in the token at `startPos`. -/
def parseDigits (startPos : ℕ) (p : SemVerMatchExpressionParser) (v : Unsigned) :
    Except SemVerError (Unsigned × SemVerMatchExpressionParser) :=
  if p.pos = startPos ∧ isDecimalDigit p.currentChar = true then
    if overflows v p.currentChar then .error .semVerError
    else parseDigits startPos p.nextChar (v * 10 + digitValue p.currentChar)
  else .ok (v, p)
termination_by if p.pos = startPos then p.rest.length + 1 else 0
decreasing_by
  rename_i h _
  obtain ⟨cs, hrest⟩ := exists_rest_of_digit h.2
  rw [if_pos h.1]
  cases cs with
  | nil =>
    have hpos : p.nextChar.pos ≠ startPos := by
      rw [nextChar_of_rest_singleton hrest, ← h.1]
      exact Nat.succ_ne_self p.pos
    rw [if_neg hpos]
    exact Nat.succ_pos _
  | cons d cs =>
    obtain ⟨hpos, hnext⟩ := nextChar_of_rest hrest
    rw [if_pos (hpos.trans h.1), hnext, hrest]
    exact Nat.lt_succ_self _

def parseVersionPart (p : SemVerMatchExpressionParser) :
    Except SemVerError (Unsigned × SemVerMatchExpressionParser) :=
  let c := p.currentChar
  if c = 'x' ∨ c = 'X' ∨ c = '*' then .ok (-1, p.nextChar)
  else if c = '0' then .ok (0, p.nextChar)
  else if '1' ≤ c ∧ c ≤ '9' then parseDigits p.pos p.nextChar (digitValue c)
  else .error .semVerError

/-- The prefix of a component, and where the parser goes on. -/
def parsePrefix (p : SemVerMatchExpressionParser) : Token × SemVerMatchExpressionParser :=
  match p.currentToken with
  | .bitXor => (.bitXor, p.nextToken)
  | .bitNot => (.bitNot, p.nextToken)
  | .lessThan => (.lessThan, p.nextToken)
  | .lessThanOrEqual => (.lessThanOrEqual, p.nextToken)
  | .greaterThan => (.greaterThan, p.nextToken)
  | .greaterThanOrEqual => (.greaterThanOrEqual, p.nextToken)
  | .assign => (.assign, p.nextToken)
  | _ => (.assign, p)

/-- At most so many further numbers, with a dot between them. -/
def parseLevels : ℕ → MatchComponent → SemVerMatchExpressionParser →
    Except SemVerError (MatchComponent × SemVerMatchExpressionParser)
  | 0, component, p => .ok (component, p)
  | n + 1, component, p => do
    let (part, p) ← p.parseVersionPart
    let component := { component with
      numbers := Function.update component.numbers (.ofNat 3 component.levelsPresent) part
      levelsPresent := component.levelsPresent + 1 }
    if p.currentChar = '.' then parseLevels n component p.nextChar else .ok (component, p)

def parseMatchComponent (p : SemVerMatchExpressionParser) :
    Except SemVerError (MatchComponent × SemVerMatchExpressionParser) :=
  parseLevels 3 ⟨p.parsePrefix.1, fun _ => 0, 0⟩ p.parsePrefix.2

/-- The components behind the first one, at most `fuel` of them. -/
def parseComponents : ℕ → SemVerMatchExpressionParser →
    Except SemVerError (List MatchComponent × SemVerMatchExpressionParser)
  | 0, _ => .error .semVerError
  | fuel + 1, p =>
    if p.currentToken ≠ .or ∧ p.currentToken ≠ .illegal then do
      let (component, p) ← p.parseMatchComponent
      let (components, p) ← parseComponents fuel p
      .ok (component :: components, p)
    else .ok ([], p)

/-- A range or a conjunction. -/
def parseMatchExpression (fuel : ℕ) (p : SemVerMatchExpressionParser) :
    Except SemVerError (Conjunction × SemVerMatchExpressionParser) := do
  let (first, p) ← p.parseMatchComponent
  if p.currentToken = .sub then do
    let (second, p) ← p.nextToken.parseMatchComponent
    .ok (⟨[{ first with semVerPrefix := .greaterThanOrEqual },
      { second with semVerPrefix := .lessThanOrEqual }]⟩, p)
  else do
    let (components, p) ← parseComponents fuel p
    .ok (⟨first :: components⟩, p)

/-- At most `fuel` ranges and conjunctions. -/
def parseDisjunction : ℕ → SemVerMatchExpressionParser → Except SemVerError (List Conjunction)
  | 0, _ => .error .semVerError
  | fuel + 1, p => do
    let (conjunction, p) ← p.parseMatchExpression fuel
    if p.tokens.length ≤ p.pos then .ok [conjunction]
    else if p.currentToken ≠ .or then .error .semVerError
    else do
      let disjunction ← parseDisjunction fuel p.nextToken
      .ok (conjunction :: disjunction)

/-- After an error the expression is empty, which is not valid. -/
def parse (fuel : ℕ) (p : SemVerMatchExpressionParser) : SemVerMatchExpression :=
  match parseDisjunction fuel { p with pos := 0, posInside := 0 } with
  | .ok disjunction => ⟨disjunction⟩
  | .error _ => ⟨[]⟩

end SemVerMatchExpressionParser

end Langutil
