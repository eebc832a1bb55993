import Mathlib.Data.Nat.Digits.Lemmas
import Polc.Sof.Machine
import Polc.Yul.AsmData

/-!
# Values of literals

`libyul/Utilities.cpp` with the functions of `libdevcore` it uses, and `formatNumber`, by which
the optimiser writes numbers. A number that is written and read again is the same number.
-/

namespace Yul

open Sof List

/-- Value of a hexadecimal digit. -/
def digitValue (c : Char) : Option Nat :=
  if '0' ≤ c ∧ c ≤ '9' then some (c.toNat - '0'.toNat)
  else if 'a' ≤ c ∧ c ≤ 'f' then some (c.toNat - 'a'.toNat + 10)
  else if 'A' ≤ c ∧ c ≤ 'F' then some (c.toNat - 'A'.toNat + 10)
  else none

/-- The number with the given digits, the most significant first. -/
def readDigits (base : Nat) (digits : List Char) : Nat :=
  digits.foldl (fun n c => n * base + (digitValue c).getD 0) 0

def isValidHex (s : List Char) : Bool :=
  match s with
  | '0' :: 'x' :: digits => digits.all fun c => (digitValue c).isSome
  | _ => false

def isValidDecimal (s : List Char) : Bool :=
  match s with
  | [] => false
  | ['0'] => true
  | '0' :: _ => false
  | digits => digits.all Char.isDigit

/-- The constructor of `u256` from a string, hexadecimal or decimal. -/
def u256OfString (s : List Char) : Word :=
  match s with
  | '0' :: 'x' :: digits => .ofNat 256 (readDigits 16 digits)
  | digits => .ofNat 256 (readDigits 10 digits)

/-- The source asserts that the text is a number. -/
def valueOfNumberLiteral (text : YulString) : Option Word :=
  if isValidDecimal text.toList || isValidHex text.toList then some (u256OfString text.toList)
  else none

/-- The bytes of the string, followed by zeros; the source asserts that they fit. -/
def valueOfStringLiteral (text : YulString) : Option Word :=
  let bytes := text.toUTF8.data
  if bytes.size ≤ 32 then
    some (wordOfBytes fun i => (bytes[i]?.map UInt8.toBitVec).getD 0)
  else none

def valueOfBoolLiteral (text : YulString) : Option Word :=
  if text = "true" then some 1
  else if text = "false" then some 0
  else none

def valueOfLiteral (l : Literal) : Option Word :=
  match l.kind with
  | .number => valueOfNumberLiteral l.value
  | .boolean => valueOfBoolLiteral l.value
  | .string => valueOfStringLiteral l.value

/-- The value of a literal; those without a value are rejected by the analyser. -/
def Literal.word (l : Literal) : Word := (valueOfLiteral l).getD 0

/-- The character of a digit. -/
def digitChar (d : Nat) : Char :=
  if d < 10 then .ofNat ('0'.toNat + d) else .ofNat ('a'.toNat + (d - 10))

/-- Digits of a number, the most significant first. -/
def writeDigits (base n : Nat) : List Char := ((base.digits n).map digitChar).reverse

/-- Decimal for small numbers, hexadecimal in whole bytes for large ones. -/
def formatNumber (value : Word) : YulString :=
  if value > 0x1000000 then
    let digits := writeDigits 16 value.toNat
    .ofList ('0' :: 'x' :: if digits.length % 2 = 0 then digits else '0' :: digits)
  else if value = 0 then "0"
  else .ofList (writeDigits 10 value.toNat)

/-! ### Reading what was written -/

lemma digitValue_digitChar {d : Nat} (h : d < 16) : digitValue (digitChar d) = some d := by
  revert d
  decide

lemma isDigit_digitChar {d : Nat} (h : d < 10) : (digitChar d).isDigit := by
  revert d
  decide

lemma digitChar_ne_zero {d : Nat} (h : d < 16) (hd : d ≠ 0) : digitChar d ≠ '0' := by
  intro h0
  have hv := digitValue_digitChar h
  rw [h0] at hv
  exact hd (Option.some.inj hv).symm

lemma readDigits_writeDigits {base : Nat} (hb : 1 < base) (hb' : base ≤ 16) (n : Nat) :
    readDigits base (writeDigits base n) = n := by
  have key : ∀ ds : List Nat, (∀ d ∈ ds, d < 16) →
      (ds.map digitChar).foldr (fun c k => k * base + (digitValue c).getD 0) 0 =
        Nat.ofDigits base ds := by
    intro ds hds
    induction ds with
    | nil => rfl
    | cons d ds ih =>
      rw [map_cons, foldr_cons, ih fun d hd => hds d (mem_cons_of_mem _ hd),
        digitValue_digitChar (hds d mem_cons_self), Nat.ofDigits_cons]
      simp only [Option.getD_some]
      rw [Nat.mul_comm, Nat.add_comm]
  rw [readDigits, writeDigits, foldl_reverse,
    key _ fun d hd => lt_of_lt_of_le (Nat.digits_lt_base hb hd) hb', Nat.ofDigits_digits]

lemma readDigits_cons_zero (base : Nat) (digits : List Char) :
    readDigits base ('0' :: digits) = readDigits base digits := by
  simp [readDigits, digitValue]

lemma isSome_digitValue_of_mem_writeDigits {base n : Nat} (hb : 1 < base) (hb' : base ≤ 16)
    {c : Char} (h : c ∈ writeDigits base n) : (digitValue c).isSome := by
  rw [writeDigits, mem_reverse, mem_map] at h
  obtain ⟨d, hd, rfl⟩ := h
  rw [digitValue_digitChar (lt_of_lt_of_le (Nat.digits_lt_base hb hd) hb')]
  rfl

lemma isValidDecimal_writeDigits {n : Nat} (hn : n ≠ 0) :
    isValidDecimal (writeDigits 10 n) := by
  have hne : Nat.digits 10 n ≠ [] := Nat.digits_ne_nil_iff_ne_zero.mpr hn
  have hcons : writeDigits 10 n = digitChar ((Nat.digits 10 n).getLast hne) ::
      ((Nat.digits 10 n).dropLast.map digitChar).reverse := by
    have hsplit := congrArg (List.map digitChar) (dropLast_append_getLast hne)
    rw [writeDigits, ← hsplit, map_append, reverse_append]
    rfl
  have hhead : digitChar ((Nat.digits 10 n).getLast hne) ≠ '0' := by
    have hlt := Nat.digits_lt_base (by decide : 1 < 10) (getLast_mem hne)
    exact digitChar_ne_zero (by omega) (Nat.getLast_digit_ne_zero 10 hn)
  have hall : (writeDigits 10 n).all Char.isDigit = true := by
    rw [all_eq_true]
    intro c hc
    rw [writeDigits, mem_reverse, mem_map] at hc
    obtain ⟨d, hd, rfl⟩ := hc
    exact isDigit_digitChar (Nat.digits_lt_base (by decide) hd)
  rw [hcons] at hall ⊢
  unfold isValidDecimal
  split
  · contradiction
  · rfl
  · rename_i heq
    exact absurd (List.cons.inj heq).1 hhead
  · exact hall

lemma u256OfString_of_isValidDecimal {s : List Char} (h : isValidDecimal s) :
    u256OfString s = .ofNat 256 (readDigits 10 s) := by
  unfold u256OfString
  split
  · unfold isValidDecimal at h
    simp at h
  · rfl

lemma valueOfNumberLiteral_hex {digits : List Char}
    (h : ∀ c ∈ digits, (digitValue c).isSome) :
    valueOfNumberLiteral (.ofList ('0' :: 'x' :: digits)) =
      some (.ofNat 256 (readDigits 16 digits)) := by
  have hvalid : isValidHex ('0' :: 'x' :: digits) = true := List.all_eq_true.mpr h
  simp [valueOfNumberLiteral, hvalid, u256OfString]

/-- A number that is written and read again is the same number. -/
theorem valueOfNumberLiteral_formatNumber (w : Word) :
    valueOfNumberLiteral (formatNumber w) = some w := by
  unfold formatNumber
  split_ifs with hlarge hzero
  · have hdigits (c : Char) (hc : c ∈ writeDigits 16 w.toNat) : (digitValue c).isSome = true :=
      isSome_digitValue_of_mem_writeDigits (by decide) (by decide) hc
    have hread : readDigits 16 (writeDigits 16 w.toNat) = w.toNat :=
      readDigits_writeDigits (by decide) (by decide) _
    dsimp only
    split
    · rw [valueOfNumberLiteral_hex hdigits, hread, BitVec.ofNat_toNat, BitVec.setWidth_eq]
    · rw [valueOfNumberLiteral_hex, readDigits_cons_zero, hread, BitVec.ofNat_toNat,
        BitVec.setWidth_eq]
      intro c hc
      rcases List.mem_cons.mp hc with rfl | hc
      · rfl
      · exact hdigits c hc
  · subst w
    rfl
  · have hn : w.toNat ≠ 0 := fun h0 => hzero (BitVec.eq_of_toNat_eq h0)
    have hvalid := isValidDecimal_writeDigits hn
    simp only [valueOfNumberLiteral, String.toList_ofList, hvalid, Bool.true_or, if_true]
    rw [u256OfString_of_isValidDecimal hvalid,
      readDigits_writeDigits (by decide) (by decide), BitVec.ofNat_toNat, BitVec.setWidth_eq]

end Yul
