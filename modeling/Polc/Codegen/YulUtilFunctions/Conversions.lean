import Polc.Codegen.YulUtilFunctions.CheckedArithmetic

/-!
# Generated conversions

A generated conversion leaves the clean word of the converted value, except for negative numbers
that are widened to an unsigned type, for byte strings that lose bytes other than zero and for
members of an enumeration that the integer type does not have.
-/

namespace Polynomial

open BitVec hiding not_or
open Sof (Word)
open CompilerUtils ValueType

namespace YulUtilFunctions

variable {hasBitwiseShifting : Bool} {s t : ValueType} {i j : IntegerType} {v : ℤ} {w : Word}
  {f : Word → Run}

/-! ### Shifts and cleanup -/

lemma toNat_shiftLeftFunction {bits : ℕ} (h : bits < 256) (w : Word) :
    (shiftLeftFunction hasBitwiseShifting bits w).toNat = w.toNat * 2 ^ bits % 2 ^ 256 := by
  have hpow : 2 ^ bits < 2 ^ 256 := Nat.pow_lt_pow_right (by norm_num) h
  rw [shiftLeftFunction]
  split_ifs
  · change (Sof.Word.shl (.ofNat 256 bits) w).toNat = _
    rw [Sof.Word.shl, toNat_ofNat_of_lt (by omega), if_neg (by omega), toNat_shiftLeft,
      Nat.shiftLeft_eq]
  · change (w * powerOfTwo bits).toNat = _
    rw [toNat_mul, toNat_powerOfTwo h]

lemma toNat_shiftRightFunction {bits : ℕ} (h : bits < 256) (w : Word) :
    (shiftRightFunction hasBitwiseShifting bits w).toNat = w.toNat / 2 ^ bits := by
  rw [shiftRightFunction]
  split_ifs
  · change (Sof.Word.shr (.ofNat 256 bits) w).toNat = _
    rw [Sof.Word.shr, toNat_ofNat_of_lt (by omega), if_neg (by omega), toNat_ushiftRight,
      Nat.shiftRight_eq_div_pow]
  · change (w / powerOfTwo bits).toNat = _
    rw [toNat_udiv, toNat_powerOfTwo h]

lemma cleanupInteger_eq (t : IntegerType) (w : Word) :
    cleanupInteger t w = .ofInt 256 (t.wrap w.toNat) := by
  have h := exec_cleanHigherBits t [] w []
  rw [cleanupInteger]
  unfold cleanHigherOrderBits at h
  split_ifs at h ⊢ with hbits hsigned
  · simpa [exec_nil] using h
  · change Sof.Word.signextend (.ofNat 256 (t.numBits / 8 - 1)) w = _
    simpa [exec_push, exec_signextend, exec_nil] using h
  · change w &&& (powerOfTwo t.numBits - 1) = _
    rw [powerOfTwo_sub_one]
    simpa [exec_push, exec_and, exec_nil, BitVec.and_comm] using h

lemma toNat_cleanupFixedBytes (t : FixedBytesType) (w : Word) :
    (cleanupFixedBytes t w).toNat = w.toNat / 2 ^ t.padding * 2 ^ t.padding := by
  have hvalid := t.valid
  rw [cleanupFixedBytes]
  split_ifs with h
  · rw [FixedBytesType.padding, h]
    norm_num
  · have hmask : (powerOfTwo (t.numBytes * 8) - 1) <<< t.padding = ~~~(mask t.padding) := by
      have hpos := Nat.two_pow_pos t.padding
      have hlt : 2 ^ t.padding < 2 ^ 256 := Nat.pow_lt_pow_right (by norm_num) t.padding_lt
      have hbytes : 2 ^ (t.numBytes * 8) < 2 ^ 256 :=
        Nat.pow_lt_pow_right (by norm_num) (by omega)
      have hone := Nat.two_pow_pos (t.numBytes * 8)
      apply eq_of_toNat_eq
      rw [powerOfTwo_sub_one, toNat_shiftLeft, toNat_not, mask, mask,
        toNat_ofNat_of_lt (by omega), toNat_ofNat_of_lt (by omega), Nat.shiftLeft_eq, Nat.sub_mul,
        t.two_pow_eq, Nat.one_mul, Nat.mod_eq_of_lt (by omega)]
      omega
    change (w &&& (powerOfTwo (t.numBytes * 8) - 1) <<< t.padding).toNat = _
    rw [hmask, BitVec.and_comm, toNat_and_not_mask t.padding_lt.le]

lemma validateEnum_eq (t : EnumType) (w : Word) :
    validateEnum t w = if w.toNat < t.numberOfMembers then .ok w else .error .invalid := by
  have hlt := t.valid.2
  have hcondition : builtin .iszero [builtin .lt [w, .ofNat 256 t.numberOfMembers]] ≠ 0 ↔
      ¬ w.toNat < t.numberOfMembers := by
    change Sof.Word.ofBool (Sof.Word.ofBool (w.ult (.ofNat 256 t.numberOfMembers)) = 0) ≠ 0 ↔ _
    rw [ofBool_ne_zero, decide_eq_true_eq, ← not_ne_iff, ofBool_ne_zero, ult_iff_lt,
      lt_def, toNat_ofNat_of_lt (hlt.trans (by norm_num))]
  rw [validateEnum]
  by_cases h : w.toNat < t.numberOfMembers
  · rw [if_neg (hcondition.not_left.mpr h), if_pos h]
  · rw [if_pos (hcondition.mpr h), if_neg h]

lemma shiftLeftFunction_eq (t : FixedBytesType) (n : ℤ) :
    shiftLeftFunction hasBitwiseShifting (256 - t.numBytes * 8) (.ofInt 256 n) =
      (fixedBytes t).cleanWord (n % 256 ^ t.numBytes) := by
  have hdvd : (2 ^ (t.numBytes * 8) : ℕ) ∣ 2 ^ 256 := ⟨_, t.two_pow_eq.symm⟩
  have hn : n % 256 ^ t.numBytes =
      ((BitVec.ofInt 256 n).toNat % 2 ^ (t.numBytes * 8) : ℕ) := by
    have hmod := (toNat_ofInt_modEq n).of_dvd (Int.natCast_dvd_natCast.mpr hdvd)
    rw [← t.two_pow_eq_pow] at hmod ⊢
    push_cast at hmod ⊢
    exact hmod.symm
  rw [hn]
  exact (isClean_of_leftShift (toNat_shiftLeftFunction t.padding_lt _)).2 nofun

/-- The clean word of the converted value, or a failed assertion if there is no such value. -/
def convertedWord (s t : ValueType) (v : ℤ) : Run :=
  match s.operand t v with
  | .ok v => .ok (t.cleanWord v)
  | .error _ => .error .invalid

/-- The values whose conversion needs no other cleanup than the one that is generated. -/
def NeedsNoMore (s t : ValueType) (v : ℤ) : Prop :=
  match s, t with
  | .fixedBytes s, .fixedBytes t => v % 256 ^ (s.numBytes - t.numBytes) = 0
  | .enum s, .integer t => v < s.numberOfMembers → v ≤ t.maxValue
  | s, t =>
    match s.asInteger, t.asInteger with
    | some i, some j => v < 0 → i.numBits < j.numBits → j.isSigned = true ∨ j.numBits = 256
    | _, _ => True

/-! ### Integers -/

lemma conversionFunction_of_asInteger (hs : s.asInteger = some i) (ht : t.asInteger = some j) :
    conversionFunction hasBitwiseShifting s t =
      some fun w => .ok (cleanupInteger (if i.numBits < j.numBits then i else j) w) := by
  cases s <;> cases hs <;> cases t <;> cases ht <;>
    simp [conversionFunction, cleanupFunction, cleanupType, conversionFunction.isFractional]

lemma convertedWord_of_asInteger (hs : s.asInteger = some i) (ht : t.asInteger = some j) :
    convertedWord s t v = .ok (.ofInt 256 (j.wrap v)) := by
  rw [convertedWord, operand, convert_of_asInteger hs ht]
  cases t <;> cases ht <;> rfl

lemma needsNoMore_of_asInteger (hs : s.asInteger = some i) (ht : t.asInteger = some j) :
    NeedsNoMore s t v ↔ (v < 0 → i.numBits < j.numBits → j.isSigned ∨ j.numBits = 256) := by
  cases s <;> cases hs <;> cases t <;> cases ht <;> rfl

lemma ofInt_wrap_eq_iff (hlt : i.numBits < j.numBits) (hv : i.minValue ≤ v ∧ v ≤ i.maxValue) :
    BitVec.ofInt 256 v = .ofInt 256 (j.wrap v) ↔
      (v < 0 → j.isSigned ∨ j.numBits = 256) := by
  have hwide : (2 : ℤ) ^ i.numBits ≤ 2 ^ (j.numBits - 1) :=
    pow_le_pow_right₀ (by norm_num) (by omega)
  have hle : (2 : ℤ) ^ j.numBits ≤ 2 ^ 256 := pow_le_pow_right₀ (by norm_num) j.valid.2.1
  have hi := i.two_mul_pow_pred
  have hj := j.two_mul_pow_pred
  rw [IntegerType.modulus_eq] at hi hj
  have hbounds : -2 ^ (i.numBits - 1) ≤ v ∧ v < 2 ^ i.numBits := by
    simp only [IntegerType.minValue, IntegerType.maxValue] at hv
    split_ifs at hv
    · omega
    · omega
  constructor
  · intro h hneg
    by_contra hcon
    obtain ⟨hsigned, hbits⟩ := not_or.mp hcon
    have hlt : (2 : ℤ) ^ j.numBits < 2 ^ 256 :=
      pow_lt_pow_right₀ (by norm_num) (lt_of_le_of_ne j.valid.2.1 hbits)
    have hwrap : j.wrap v = v + 2 ^ j.numBits := by
      rw [IntegerType.wrap, if_neg hsigned]
      push_cast
      rw [← Int.add_emod_right]
      exact Int.emod_eq_of_lt (by omega) (by omega)
    rw [hwrap] at h
    have hnat := congrArg (fun w => (w.toNat : ℤ)) h
    simp only [toNat_ofInt] at hnat
    push_cast at hnat
    omega
  · intro h
    rcases lt_or_ge v 0 with hneg | hnonneg
    · rcases h hneg with hsigned | hbits
      · rw [IntegerType.wrap_of_inRange]
        rw [IntegerType.minValue, IntegerType.maxValue, if_pos hsigned, if_pos hsigned]
        omega
      · have hmod := j.wrap_modEq v
        rw [IntegerType.modulus, hbits] at hmod
        apply eq_of_toNat_eq
        rw [toNat_ofInt, toNat_ofInt]
        exact congrArg Int.toNat hmod.symm
    · rw [IntegerType.wrap_of_inRange]
      rw [IntegerType.minValue, IntegerType.maxValue]
      split_ifs
      · omega
      · omega

lemma cleanupInteger_exact_iff (hv : i.wrap w.toNat = v) :
    cleanupInteger (if i.numBits < j.numBits then i else j) w = .ofInt 256 (j.wrap v) ↔
      (v < 0 → i.numBits < j.numBits → j.isSigned ∨ j.numBits = 256) := by
  rw [cleanupInteger_eq]
  split_ifs with hlt
  · have hrange := i.wrap_inRange (w.toNat : ℤ)
    rw [hv] at hrange ⊢
    rw [ofInt_wrap_eq_iff hlt hrange]
    exact ⟨fun h hneg _ => h hneg, fun h hneg => h hneg hlt⟩
  · have hdvd : j.modulus ∣ i.modulus := Int.natCast_dvd_natCast.mpr (pow_dvd_pow 2 (by omega))
    have hwrap : j.wrap w.toNat = j.wrap v := by
      rw [← hv]
      exact (IntegerType.wrap_congr ((i.wrap_modEq _).of_dvd hdvd)).symm
    rw [hwrap]
    exact iff_of_true rfl fun _ h => absurd h hlt

lemma conversionFunction_of_rationalNumber (q : ℚ) (c : Option FixedBytesType)
    (ht : t.asInteger = some j) :
    conversionFunction hasBitwiseShifting (.rationalNumber q c) t =
      if RationalNumberType.isFractional q then none
      else some fun w => .ok (cleanupInteger j w) := by
  cases h : RationalNumberType.isFractional q <;> cases t <;> cases ht <;>
    simp [conversionFunction, cleanupFunction, cleanupType, conversionFunction.isFractional, h]

lemma convertedWord_of_rationalNumber {q : ℚ} {c : Option FixedBytesType}
    (ht : t.asInteger = some j) :
    convertedWord (.rationalNumber q c) t v = .ok (.ofInt 256 (j.wrap v)) := by
  cases t <;> cases ht <;> rfl

lemma convertedWord_enum (s : ValueType) (t : EnumType)
    (hs : s.convert (.enum t) v = .ok v ∨ s.convert (.enum t) v = enumMember t v)
    (hv : -2 ^ 255 ≤ v ∧ v < 2 ^ 256) :
    validateEnum t (.ofInt 256 v) = convertedWord s (.enum t) v := by
  have hmember := enumMember_toNat_ofInt (t := t) hv
  have hoperand : s.operand (.enum t) v = enumMember t v := by
    rw [operand]
    rcases hs with hs | hs
    · rw [hs]
      rfl
    · rw [hs, enumMember]
      split_ifs with h
      · change (if 0 ≤ v ∧ v < t.numberOfMembers then _ else _) = _
        rw [if_pos h]
      · rfl
  rw [validateEnum_eq, convertedWord, hoperand, enumMember]
  by_cases h : 0 ≤ v ∧ v < t.numberOfMembers
  · rw [if_pos (hmember.mpr h), if_pos h]
    rfl
  · rw [if_neg (hmember.not.mpr h), if_neg h]

lemma validateEnum_exact_iff {s : EnumType} {t : IntegerType} :
    validateEnum s w = convertedWord (.enum s) (.integer t) w.toNat ↔
      NeedsNoMore (.enum s) (.integer t) w.toNat := by
  have hs := s.valid.2
  rw [validateEnum_eq, convertedWord, operand, convert, enumMember]
  change _ ↔ ((w.toNat : ℤ) < s.numberOfMembers → (w.toNat : ℤ) ≤ t.maxValue)
  by_cases h : w.toNat < s.numberOfMembers
  · rw [if_pos h, if_pos ⟨Int.natCast_nonneg _, Int.ofNat_lt.mpr h⟩]
    change Except.ok w = .ok (BitVec.ofInt 256 (t.wrap w.toNat)) ↔ _
    rw [Except.ok.injEq]
    constructor
    · rintro hword -
      have hrange := t.wrap_inRange (w.toNat : ℤ)
      have hbounds := IntegerType.bounds_of_inRange hrange
      have hnat := congrArg (fun w => (w.toNat : ℤ)) hword
      simp only [toNat_ofInt] at hnat
      push_cast at hnat
      omega
    · intro hle
      have hzero := t.zero_inRange
      rw [IntegerType.wrap_of_inRange ⟨by omega, hle (Int.ofNat_lt.mpr h)⟩, ofInt_toNat]
  · rw [if_neg h, if_neg (fun hmember => h (Int.ofNat_lt.mp hmember.2))]
    exact iff_of_true rfl fun hlt => absurd (Int.ofNat_lt.mp hlt) h

lemma cleanupFixedBytes_exact_iff {s t : FixedBytesType} :
    cleanupFixedBytes s w =
        (fixedBytes t).cleanWord
          (if s.numBytes ≤ t.numBytes then
            (fixedBytes s).valueOf w * 256 ^ (t.numBytes - s.numBytes)
          else (fixedBytes s).valueOf w / 256 ^ (s.numBytes - t.numBytes)) ↔
      (fixedBytes s).valueOf w % 256 ^ (s.numBytes - t.numBytes) = 0 := by
  have hw := toNat_cleanupFixedBytes s w
  split_ifs with hle
  · rw [Nat.sub_eq_zero_of_le hle, pow_zero, Int.emod_one, ← valueOf_fixedBytes_of_le hle hw]
    rw [two_pow_padding_of_le hle, ← Nat.mul_assoc, ← two_pow_padding_of_le hle] at hw
    exact iff_of_true ((isClean_fixedBytes hw).2 nofun) rfl
  · have hpadding := two_pow_padding_of_le (Nat.le_of_not_le hle)
    have hlt : w.toNat / 2 ^ s.padding * 2 ^ s.padding ≤ w.toNat := Nat.div_mul_le_self _ _
    have hvalue : (fixedBytes s).valueOf w = (w.toNat / 2 ^ s.padding : ℕ) := rfl
    have hpos : 0 < 2 ^ s.padding := Nat.two_pow_pos _
    rw [hvalue]
    generalize w.toNat / 2 ^ s.padding = n at hw hlt ⊢
    generalize s.numBytes - t.numBytes = k at hpadding ⊢
    have hle : n / 256 ^ k * 256 ^ k * 2 ^ s.padding ≤ n * 2 ^ s.padding :=
      Nat.mul_le_mul_right _ (Nat.div_mul_le_self _ _)
    have hclean : (fixedBytes t).cleanWord ((n : ℤ) / 256 ^ k) =
        .ofNat 256 (n / 256 ^ k * 256 ^ k * 2 ^ s.padding) := by
      rw [Nat.mul_assoc, ← hpadding, ← ofInt_natCast]
      push_cast
      rfl
    rw [hclean, ← toNat_inj, hw, toNat_ofNat_of_lt (by have := w.isLt; omega),
      Nat.mul_left_inj hpos.ne']
    have hmod := Nat.div_add_mod' n (256 ^ k)
    have hcast : (n : ℤ) % 256 ^ k = (n % 256 ^ k : ℕ) := by
      push_cast
      rfl
    rw [hcast, Int.natCast_eq_zero]
    omega

lemma conversionFunction_of_fixedBytes {s : FixedBytesType} {t : IntegerType}
    (h : s.numBytes * 8 = t.numBits) :
    conversionFunction hasBitwiseShifting (.fixedBytes s) (.integer t) = some fun w =>
      .ok (cleanupInteger t (shiftRightFunction hasBitwiseShifting s.padding w)) := by
  have hlt : ¬ s.asInteger.numBits < t.numBits := h.not_lt
  rw [conversionFunction, conversionFunction_of_asInteger rfl rfl, if_neg hlt]
  rfl

lemma cleanupInteger_shiftRightFunction (hasBitwiseShifting : Bool) (s : FixedBytesType)
    (t : IntegerType) (w : Word) :
    cleanupInteger t (shiftRightFunction hasBitwiseShifting s.padding w) =
      .ofInt 256 (t.wrap ((fixedBytes s).valueOf w)) := by
  rw [cleanupInteger_eq, toNat_shiftRightFunction s.padding_lt]
  rfl

lemma exact_of_leftShift (hasBitwiseShifting : Bool) {t' : FixedBytesType} {g : Word → Word} {n : ℤ}
    (ht : t = .fixedBytes t') (hg : g w = .ofInt 256 n)
    (hfg : f = fun w => .ok (shiftLeftFunction hasBitwiseShifting t'.padding (g w)))
    (hconvert : s.operand t v = .ok (n % 256 ^ t'.numBytes)) :
    f w = convertedWord s t v := by
  subst ht hfg
  rw [convertedWord, hconvert]
  change Except.ok (shiftLeftFunction hasBitwiseShifting t'.padding (g w)) = _
  rw [hg]
  exact congrArg Except.ok (shiftLeftFunction_eq t' n)

/-! ### All conversions -/

section

variable (hf : conversionFunction hasBitwiseShifting s t = some f) (hw : s.Represents v [w])

include hf hw

lemma exact_iff_of_asInteger (hi : s.asInteger = some i) (hj : t.asInteger = some j) :
    f w = convertedWord s t v ↔ NeedsNoMore s t v := by
  obtain ⟨w', hw', hv⟩ := (represents_iff (isWordType_of_asInteger hi)).mp hw
  cases hw'
  rw [conversionFunction_of_asInteger hi hj] at hf
  cases hf
  rw [valueOf_of_asInteger hi] at hv
  rw [convertedWord_of_asInteger hi hj, needsNoMore_of_asInteger hi hj, Except.ok.injEq]
  exact cleanupInteger_exact_iff hv

lemma exact_iff_of_rationalNumber {q : ℚ} {c : Option FixedBytesType}
    (hs : s = .rationalNumber q c) (hj : t.asInteger = some j) :
    f w = convertedWord s t v ↔ NeedsNoMore s t v := by
  subst hs
  obtain ⟨rfl, hword⟩ := hw
  cases hword
  rw [conversionFunction_of_rationalNumber q c hj] at hf
  split_ifs at hf
  cases hf
  have hexact : cleanupInteger j (.ofInt 256 q.num) = .ofInt 256 (j.wrap q.num) := by
    rw [cleanupInteger_eq, IntegerType.wrap_toNat_ofInt]
  rw [convertedWord_of_rationalNumber hj]
  exact iff_of_true (congrArg Except.ok hexact) (by cases t <;> cases hj <;> trivial)

lemma exact_iff_of_fixedBytes {s' : FixedBytesType} (hs : s = .fixedBytes s')
    (hexplicit : s.isExplicitlyConvertibleTo t) :
    f w = convertedWord s t v ↔ NeedsNoMore s t v := by
  subst hs
  obtain ⟨w', hword, rfl⟩ := hw
  cases hword
  cases t with
  | fixedBytes t =>
    rw [conversionFunction, cleanupFunction] at hf
    cases hf
    refine Iff.trans ?_ cleanupFixedBytes_exact_iff
    rw [convertedWord, operand, convert]
    exact Iff.of_eq (Except.ok.injEq _ _)
  | integer t =>
    rw [conversionFunction_of_fixedBytes (of_decide_eq_true hexplicit)] at hf
    cases hf
    exact iff_of_true (congrArg Except.ok (cleanupInteger_shiftRightFunction _ s' t w)) trivial
  | address payable =>
    have hbytes : s'.numBytes = 20 := of_decide_eq_true hexplicit
    rw [conversionFunction, conversionFunction_of_fixedBytes (congrArg (· * 8) hbytes)] at hf
    cases hf
    have hexact := cleanupInteger_shiftRightFunction hasBitwiseShifting s' .ofAddress w
    exact iff_of_true (congrArg Except.ok hexact) trivial
  | _ => exact absurd hexplicit Bool.false_ne_true

lemma exact_iff_of_integer_enum {s' : IntegerType} {t' : EnumType} (hs : s = .integer s')
    (ht : t = .enum t') : f w = convertedWord s t v ↔ NeedsNoMore s t v := by
  subst hs ht
  obtain ⟨w', hword, rfl⟩ := hw
  cases hword
  have hf' : f = fun w => validateEnum t' (cleanupInteger s' w) := by
    simpa [conversionFunction, conversionFunction.isFractional, cleanupFunction, mobileType,
      Except.bind] using hf.symm
  subst hf'
  have hbounds := IntegerType.bounds_of_inRange (s'.wrap_inRange (w.toNat : ℤ))
  refine iff_of_true ?_ trivial
  change validateEnum t' (cleanupInteger s' w) = _
  rw [cleanupInteger_eq]
  exact convertedWord_enum (.integer s') t' (.inr rfl) hbounds

lemma exact_iff_of_rationalNumber_enum {q : ℚ} {c : Option FixedBytesType} {t' : EnumType}
    (hs : s = .rationalNumber q c) (ht : t = .enum t') :
    f w = convertedWord s t v ↔ NeedsNoMore s t v := by
  subst hs ht
  obtain ⟨rfl, hword⟩ := hw
  cases hword
  obtain ⟨mobile, hmobile, rfl⟩ : ∃ mobile, RationalNumberType.mobileType q = some mobile ∧
      f = fun w => validateEnum t' (cleanupInteger mobile w) := by
    cases hfractional : RationalNumberType.isFractional q with
    | true => simp [conversionFunction, conversionFunction.isFractional, hfractional] at hf
    | false =>
      cases hmobile : RationalNumberType.mobileType q with
      | none =>
        simp [conversionFunction, conversionFunction.isFractional, hfractional, mobileType,
          hmobile] at hf
      | some mobile =>
        exact ⟨mobile, rfl, by
          simpa [conversionFunction, conversionFunction.isFractional, hfractional, mobileType,
            hmobile, cleanupFunction, Except.bind] using hf.symm⟩
  have hinteger := (RationalNumberType.mobileType_eq_some hmobile).2
  have hwrap := IntegerType.wrap_of_fits (RationalNumberType.fits_of_integerType hinteger)
  have hclean : cleanupInteger mobile (.ofInt 256 q.num) = .ofInt 256 q.num := by
    rw [cleanupInteger_eq, IntegerType.wrap_toNat_ofInt, hwrap]
  refine iff_of_true ?_ trivial
  change validateEnum t' (cleanupInteger mobile (.ofInt 256 q.num)) = _
  rw [hclean]
  exact convertedWord_enum (.rationalNumber q c) t' (.inr rfl)
    (RationalNumberType.bounds_of_integerType hinteger)

end

/-- Every explicit conversion of a number, a byte string, an address, a contract, a Boolean or a
member has a function. Fractions have none, and functions and string literals are converted
elsewhere. -/
theorem exists_conversionFunction (hexplicit : s.isExplicitlyConvertibleTo t = true)
    (hs : ∀ q c, s = .rationalNumber q c → RationalNumberType.isFractional q = false)
    (hfunction : ∀ s', s ≠ .function s') (hliteral : ∀ s', s ≠ .stringLiteral s') :
    ∃ f, conversionFunction hasBitwiseShifting s t = some f := by
  cases s with
  | integer s =>
    cases t with
    | integer | address | contract => exact ⟨_, conversionFunction_of_asInteger rfl rfl⟩
    | fixedBytes | enum =>
      simp [conversionFunction, conversionFunction.isFractional, cleanupFunction, mobileType]
    | _ => exact absurd hexplicit Bool.false_ne_true
  | address =>
    cases t with
    | integer | address | contract => exact ⟨_, conversionFunction_of_asInteger rfl rfl⟩
    | fixedBytes => simp [conversionFunction, conversionFunction.isFractional, cleanupFunction]
    | _ => exact absurd hexplicit Bool.false_ne_true
  | contract =>
    cases t with
    | address | contract => exact ⟨_, conversionFunction_of_asInteger rfl rfl⟩
    | _ => exact absurd hexplicit Bool.false_ne_true
  | rationalNumber q c =>
    have hq := hs q c rfl
    cases t with
    | integer | address | contract =>
      exact ⟨_, (conversionFunction_of_rationalNumber q c rfl).trans (if_neg (by simp [hq]))⟩
    | fixedBytes =>
      simp [conversionFunction, conversionFunction.isFractional, hq, cleanupFunction]
    | enum t =>
      cases hmobile : RationalNumberType.mobileType q with
      | none =>
        simp [isExplicitlyConvertibleTo, isImplicitlyConvertibleTo, hmobile] at hexplicit
      | some mobile =>
        simp [conversionFunction, conversionFunction.isFractional, hq, cleanupFunction,
          mobileType, hmobile]
    | _ =>
      cases hmobile : RationalNumberType.mobileType q <;>
        simp [isExplicitlyConvertibleTo, isImplicitlyConvertibleTo, hmobile,
          IntegerType.isExplicitlyConvertibleTo] at hexplicit
  | fixedBytes s =>
    cases t with
    | fixedBytes => simp [conversionFunction, cleanupFunction]
    | integer => exact ⟨_, conversionFunction_of_fixedBytes (of_decide_eq_true hexplicit)⟩
    | address =>
      have hbytes : s.numBytes = 20 := of_decide_eq_true hexplicit
      rw [conversionFunction]
      exact ⟨_, conversionFunction_of_fixedBytes (congrArg (· * 8) hbytes)⟩
    | _ => exact absurd hexplicit Bool.false_ne_true
  | bool =>
    cases t with
    | bool => simp [conversionFunction, cleanupFunction]
    | _ => exact absurd hexplicit Bool.false_ne_true
  | enum s =>
    cases t with
    | integer => simp [conversionFunction, cleanupFunction]
    | enum t =>
      cases of_decide_eq_true hexplicit
      simp [conversionFunction, cleanupFunction]
    | _ => exact absurd hexplicit Bool.false_ne_true
  | function s => exact absurd rfl (hfunction s)
  | stringLiteral s => exact absurd rfl (hliteral s)

/-- Four bytes become a number. -/
theorem exists_conversionFunction_bytes4 :
    ∃ f, conversionFunction true (.fixedBytes ⟨4, by decide⟩) (.integer ⟨32, false, by decide⟩) =
      some f :=
  exists_conversionFunction rfl nofun nofun nofun

/-- A conversion leaves the clean word of the converted value in exactly these cases. -/
theorem conversionFunction_exact_iff (hasBitwiseShifting : Bool) (s t : ValueType) (v : ℤ)
    (w : Word) (f : Word → Run) (hexplicit : s.isExplicitlyConvertibleTo t = true)
    (hf : conversionFunction hasBitwiseShifting s t = some f) (hw : s.Represents v [w]) :
    f w = convertedWord s t v ↔ NeedsNoMore s t v := by
  cases s with
  | integer s =>
    cases t with
    | integer | address | contract => exact exact_iff_of_asInteger hf hw rfl rfl
    | fixedBytes t =>
      obtain ⟨w', hword, rfl⟩ := hw
      cases hword
      refine iff_of_true
        (exact_of_leftShift hasBitwiseShifting rfl (cleanupInteger_eq s w) ?_ rfl) trivial
      simpa [conversionFunction, conversionFunction.isFractional, cleanupFunction,
        Except.map] using hf.symm
    | enum t => exact exact_iff_of_integer_enum hf hw rfl rfl
    | _ => exact absurd hexplicit Bool.false_ne_true
  | address =>
    cases t with
    | integer | address | contract => exact exact_iff_of_asInteger hf hw rfl rfl
    | fixedBytes t =>
      obtain ⟨w', hword, rfl⟩ := hw
      cases hword
      refine iff_of_true
        (exact_of_leftShift hasBitwiseShifting rfl (cleanupInteger_eq .ofAddress w) ?_ rfl) trivial
      simpa [conversionFunction, conversionFunction.isFractional, cleanupFunction,
        Except.map] using hf.symm
    | _ => exact absurd hexplicit Bool.false_ne_true
  | contract =>
    cases t with
    | address | contract => exact exact_iff_of_asInteger hf hw rfl rfl
    | _ => exact absurd hexplicit Bool.false_ne_true
  | rationalNumber q c =>
    cases t with
    | integer | address | contract => exact exact_iff_of_rationalNumber hf hw rfl rfl
    | fixedBytes t =>
      obtain ⟨rfl, hword⟩ := hw
      cases hword
      refine iff_of_true (exact_of_leftShift hasBitwiseShifting (g := id) rfl rfl ?_ rfl) trivial
      cases hfractional : RationalNumberType.isFractional q <;>
        simp [conversionFunction, conversionFunction.isFractional, hfractional, cleanupFunction,
          Except.map] at hf
      exact hf.symm
    | enum t => exact exact_iff_of_rationalNumber_enum hf hw rfl rfl
    | _ => simp [conversionFunction] at hf
  | fixedBytes s => exact exact_iff_of_fixedBytes hf hw rfl hexplicit
  | bool =>
    cases t with
    | bool =>
      obtain ⟨w', hword, rfl⟩ := hw
      cases hword
      rw [conversionFunction, cleanupFunction] at hf
      cases hf
      have hexact : Sof.Word.ofBool (Sof.Word.ofBool (w = 0) = 0) =
          BitVec.ofInt 256 (if w = 0 then 0 else 1) := by
        split_ifs with h
        · rw [decide_eq_true h]
          rfl
        · rw [decide_eq_false h]
          rfl
      exact iff_of_true (congrArg Except.ok hexact) trivial
    | _ => exact absurd hexplicit Bool.false_ne_true
  | enum s =>
    obtain ⟨w', hword, rfl⟩ := hw
    cases hword
    cases t with
    | integer t =>
      rw [conversionFunction, cleanupFunction] at hf
      cases hf
      exact validateEnum_exact_iff
    | enum t => 
      cases of_decide_eq_true hexplicit
      rw [conversionFunction, if_pos rfl, cleanupFunction] at hf
      cases hf
      have hexact := convertedWord_enum (v := w.toNat) (.enum s) s (.inl rfl)
        (by have := w.isLt; omega)
      rw [ofInt_toNat] at hexact
      exact iff_of_true hexact trivial
    | _ => exact absurd hexplicit Bool.false_ne_true
  | function | stringLiteral => simp [conversionFunction] at hf

/-- A narrower number loses its higher bits. -/
theorem conversionFunction_exact_iff_narrower :
    let s : IntegerType := ⟨16, false, by decide⟩
    let t : IntegerType := ⟨8, false, by decide⟩
    Except.ok (cleanupInteger t 0x1234) = convertedWord (.integer s) (.integer t) 0x1234 ↔
      NeedsNoMore (.integer s) (.integer t) 0x1234 :=
  conversionFunction_exact_iff true (.integer ⟨16, false, by decide⟩)
    (.integer ⟨8, false, by decide⟩) 0x1234 0x1234 _ rfl
    (conversionFunction_of_asInteger rfl rfl) ⟨_, rfl, by decide⟩

/-- A negative number that is widened to an unsigned type keeps all its leading ones. -/
theorem conversionFunction_negative :
    let s : IntegerType := ⟨8, true, by decide⟩
    let t : IntegerType := ⟨16, false, by decide⟩
    ∃ f, conversionFunction true (.integer s) (.integer t) = some f ∧
      (ValueType.integer s).isExplicitlyConvertibleTo (.integer t) = true ∧
      (ValueType.integer s).Represents (-1) [0xff] ∧
      convertedWord (.integer s) (.integer t) (-1) = .ok 0xffff ∧
      f 0xff = .ok (BitVec.allOnes 256) := by
  refine ⟨_, conversionFunction_of_asInteger rfl rfl, rfl, ⟨_, rfl, by decide⟩, by decide, ?_⟩
  decide

end YulUtilFunctions

end Polynomial
