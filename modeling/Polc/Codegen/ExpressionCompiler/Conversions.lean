import Polc.Codegen.ExpressionCompiler.Words

/-!
# Conversions represent converted values

What the code of `CompilerUtils::convertType` leaves on the stack. Without a forced cleanup it is
some representation of the converted value, with it the clean one.
-/

namespace Polynomial

open List Option IntegerType
open Sof (Word)
open CompilerUtils

/-! ### Masks and shifts -/

variable {bits : ℕ}

lemma toNat_and_mask (h : bits ≤ 256) (w : Word) :
    (mask bits &&& w).toNat = w.toNat % 2 ^ bits := by
  have hle : 2 ^ bits ≤ 2 ^ 256 := Nat.pow_le_pow_right (by norm_num) h
  rw [mask, BitVec.toNat_and, BitVec.toNat_ofNat, Nat.mod_eq_of_lt (by omega), Nat.and_comm,
    Nat.and_two_pow_sub_one_eq_mod]

variable {t : IntegerType}

lemma ofInt_wrap_eq_ofNat_mod (ht : t.isSigned = false) (w : Word) :
    BitVec.ofInt 256 (t.wrap w.toNat) = .ofNat 256 (w.toNat % 2 ^ t.numBits) := by
  rw [IntegerType.wrap, if_neg (by simp [ht]), ← Int.natCast_mod, BitVec.ofInt_natCast]

lemma exec_cleanHigherBits (t : IntegerType) (c : Code) (w : Word) (s : List Word) :
    exec (cleanHigherOrderBits t ++ c) (w :: s) = exec c (.ofInt 256 (t.wrap w.toNat) :: s) := by
  obtain ⟨hpos, hle, hmod⟩ := t.valid
  unfold cleanHigherOrderBits
  split_ifs with hbits hsigned
  · have hw : BitVec.ofInt 256 (t.wrap w.toNat) = w := by
      apply BitVec.eq_of_toInt_eq
      rw [BitVec.toInt_ofInt, IntegerType.wrap, hbits]
      split_ifs
      · rw [Int.bmod_bmod, BitVec.toInt_eq_toNat_bmod]
      · rw [Int.emod_bmod, BitVec.toInt_eq_toNat_bmod]
    rw [hw]
    rfl
  · have hbytes : (BitVec.ofNat 256 (t.numBits / 8 - 1)).toNat = t.numBits / 8 - 1 := by
      rw [BitVec.toNat_ofNat]
      exact Nat.mod_eq_of_lt (by omega)
    have hwidth : 8 * (t.numBits / 8 - 1) + 8 = t.numBits := by omega
    have hw : Sof.Word.signextend (.ofNat 256 (t.numBits / 8 - 1)) w =
        .ofInt 256 (t.wrap w.toNat) := by
      rw [Sof.Word.signextend, hbytes, if_neg (by omega), BitVec.signExtend, BitVec.toInt_setWidth,
        hwidth, IntegerType.wrap, if_pos hsigned]
    simp only [cons_append, nil_append, exec_push, exec_signextend, hw]
  · have hw : mask t.numBits &&& w = .ofInt 256 (t.wrap w.toNat) := by
      rw [ofInt_wrap_eq_ofNat_mod (by simpa using hsigned)]
      apply BitVec.eq_of_toNat_eq
      rw [toNat_and_mask hle, BitVec.toNat_ofNat]
      exact (Nat.mod_eq_of_lt ((Nat.mod_le _ _).trans_lt w.isLt)).symm
    simp only [cons_append, nil_append, exec_push, exec_and, hw]

lemma toNat_ofNat_of_lt {n : ℕ} (h : n < 2 ^ 256) : (BitVec.ofNat 256 n).toNat = n := by
  rw [BitVec.toNat_ofNat, Nat.mod_eq_of_lt h]

variable {hasBitwiseShifting : Bool}

lemma exec_leftShiftNumber (hasBitwiseShifting : Bool) (h : bits < 256) (w : Word) :
    ∃ w' : Word, w'.toNat = w.toNat * 2 ^ bits % 2 ^ 256 ∧ ∀ c s,
      exec (leftShiftNumberOnStack hasBitwiseShifting bits ++ c) (w :: s) = exec c (w' :: s) := by
  have hpow : 2 ^ bits < 2 ^ 256 := Nat.pow_lt_pow_right (by norm_num) h
  have hlt : bits < 2 ^ 256 := h.trans (by norm_num)
  unfold leftShiftNumberOnStack
  split_ifs
  · refine ⟨Sof.Word.shl (.ofNat 256 bits) w, ?_, fun c s => ?_⟩
    · rw [Sof.Word.shl, toNat_ofNat_of_lt hlt, if_neg (by omega), BitVec.toNat_shiftLeft,
        Nat.shiftLeft_eq]
    · simp only [cons_append, nil_append, exec_push, exec_shl]
  · refine ⟨.ofNat 256 (2 ^ bits) * w, ?_, fun c s => ?_⟩
    · rw [BitVec.toNat_mul, toNat_ofNat_of_lt hpow, Nat.mul_comm]
    · simp only [cons_append, nil_append, exec_push, exec_mul]

lemma exec_rightShiftNumber (hasBitwiseShifting : Bool) (h : bits < 256) (w : Word) :
    ∃ w' : Word, w'.toNat = w.toNat / 2 ^ bits ∧ ∀ c s,
      exec (rightShiftNumberOnStack hasBitwiseShifting bits ++ c) (w :: s) = exec c (w' :: s) := by
  have hpow : 2 ^ bits < 2 ^ 256 := Nat.pow_lt_pow_right (by norm_num) h
  have hlt : bits < 2 ^ 256 := h.trans (by norm_num)
  unfold rightShiftNumberOnStack
  split_ifs
  · refine ⟨Sof.Word.shr (.ofNat 256 bits) w, ?_, fun c s => ?_⟩
    · rw [Sof.Word.shr, toNat_ofNat_of_lt hlt, if_neg (by omega), BitVec.toNat_ushiftRight,
        Nat.shiftRight_eq_div_pow]
    · simp only [cons_append, nil_append, exec_push, exec_shr]
  · refine ⟨w / .ofNat 256 (2 ^ bits), ?_, fun c s => ?_⟩
    · rw [BitVec.toNat_udiv, toNat_ofNat_of_lt hpow]
    · simp only [cons_append, nil_append, exec_push, exec_swap_zero, exec_div]

namespace ValueType

/-- The word for a value in which the bits outside the width are in their proper state. -/
def cleanWord (t : ValueType) (v : ℤ) : Word :=
  match t with
  | fixedBytes t => .ofInt 256 (v * 2 ^ (256 - t.numBytes * 8))
  | _ => .ofInt 256 v

/-- The word represents the value and is clean. Functions are compared under a mask of their own
and never clean. -/
def IsClean (t : ValueType) (v : ℤ) (w : Word) : Prop :=
  t.valueOf w = v ∧ ((∀ f, t ≠ function f) → w = t.cleanWord v)

/-- The types of which a value has one slot and is determined by its word. -/
def isWordType : ValueType → Bool
  | function t => !t.isExternal
  | rationalNumber _ _ | stringLiteral _ => false
  | _ => true

variable {t : ValueType}

lemma represents_iff (ht : t.isWordType) {v : ℤ} {ws : List Word} :
    t.Represents v ws ↔ ∃ w, ws = [w] ∧ t.valueOf w = v := by
  cases t with
  | function t =>
    rw [Represents, if_neg (by simpa [isWordType] using ht)]
  | rationalNumber | stringLiteral => cases ht
  | _ => exact Iff.rfl

variable {i : IntegerType}

lemma valueOf_of_asInteger (h : t.asInteger = some i) (w : Word) :
    t.valueOf w = i.wrap w.toNat := by
  cases t with
  | integer t =>
    cases h
    rfl
  | address | contract =>
    cases h
    rw [valueOf, IntegerType.wrap]
    exact Int.natCast_mod _ _
  | _ => cases h

lemma isWordType_of_asInteger (h : t.asInteger = some i) : t.isWordType := by
  cases t <;> first | rfl | cases h

lemma convert_of_asInteger {s : ValueType} {j : IntegerType} (hs : s.asInteger = some i)
    (ht : t.asInteger = some j) (v : ℤ) : s.convert t v = .ok (j.wrap v) := by
  cases t with
  | integer t =>
    cases ht
    cases s <;> first | rfl | cases hs
  | address | contract =>
    cases ht
    cases s <;> first | rfl | cases hs
  | _ => cases ht

lemma cleanWord_of_asInteger (h : t.asInteger = some i) (v : ℤ) : t.cleanWord v = .ofInt 256 v := by
  cases t <;> first | rfl | cases h

end ValueType

lemma exec_convertInteger (s t : IntegerType) (cleanupNeeded : Bool) (w : Word) :
    ∃ w' : Word, t.wrap w'.toNat = t.wrap (s.wrap w.toNat) ∧
      (cleanupNeeded → s.isImplicitlyConvertibleTo t →
        w' = .ofInt 256 (t.wrap (s.wrap w.toNat))) ∧
      ∀ c r, exec (convertInteger s t cleanupNeeded ++ c) (w :: r) = exec c (w' :: r) := by
  unfold convertInteger
  split_ifs with hwide hclean
  · refine ⟨_, wrap_toNat_ofInt _, fun _ hst => ?_, fun c r =>
      exec_cleanHigherBits s c w r⟩
    have hrange := inRange_of_implicit hst
      (wrap_inRange (t := s) w.toNat)
    rw [wrap_of_inRange hrange]
  · have hdvd : t.modulus ∣ s.modulus := Int.natCast_dvd_natCast.mpr (pow_dvd_pow 2 (by omega))
    have hwrap : t.wrap (s.wrap w.toNat) = t.wrap w.toNat :=
      wrap_congr ((s.wrap_modEq _).of_dvd hdvd)
    refine ⟨.ofInt 256 (t.wrap w.toNat), ?_, fun _ _ => ?_, fun c r =>
      exec_cleanHigherBits t c w r⟩
    · rw [wrap_toNat_ofInt, wrap_wrap, hwrap]
    · rw [hwrap]
  · have hdvd : t.modulus ∣ s.modulus := Int.natCast_dvd_natCast.mpr (pow_dvd_pow 2 (by omega))
    exact ⟨w, (wrap_congr ((s.wrap_modEq _).of_dvd hdvd)).symm,
      fun h => absurd h hclean, fun c r => rfl⟩

lemma exec_checkEnum (t : EnumType) (c : Code) (w : Word) (s : List Word) :
    exec (checkEnum t ++ c) (w :: s) =
      if w.toNat < t.numberOfMembers then exec c (w :: s) else .invalid := by
  obtain ⟨hpos, hlt⟩ := t.valid
  have hlast : (BitVec.ofNat 256 (t.numberOfMembers - 1)).toNat = t.numberOfMembers - 1 :=
    toNat_ofNat_of_lt (by omega)
  have hult : (BitVec.ofNat 256 (t.numberOfMembers - 1)).ult w =
      !decide (w.toNat < t.numberOfMembers) := by
    rw [BitVec.ult, hlast, ← decide_not]
    exact decide_eq_decide.mpr (by omega)
  simp only [checkEnum, cons_append, nil_append, exec_push, exec_dup_one, exec_gt,
    exec_conditionalInvalid_ofBool, hult]
  by_cases h : w.toNat < t.numberOfMembers
  · simp only [h, decide_true, Bool.not_true, Bool.false_eq_true, if_false, if_true]
  · simp only [h, decide_false, Bool.not_false, if_false, if_true]

variable {v : ℤ}

lemma enumMember_toNat_ofInt {t : EnumType} (hv : -2 ^ 255 ≤ v ∧ v < 2 ^ 256) :
    (BitVec.ofInt 256 v).toNat < t.numberOfMembers ↔ 0 ≤ v ∧ v < t.numberOfMembers := by
  have hlt := t.valid.2
  rw [BitVec.toNat_ofInt]
  push_cast
  omega

lemma yields_checkEnum (t : EnumType) (hv : -2 ^ 255 ≤ v ∧ v < 2 ^ 256) :
    Yields (checkEnum t) [.ofInt 256 v]
      (fun v ws => ∃ w, ws = [w] ∧ (ValueType.enum t).IsClean v w)
      (ValueType.enumMember t v) := by
  unfold ValueType.enumMember
  split_ifs with hmember
  · refine .ok ⟨_, rfl, ?_, fun _ => rfl⟩ fun s => ?_
    · change ((BitVec.ofInt 256 v).toNat : ℤ) = v
      rw [BitVec.toNat_ofInt]
      push_cast
      omega
    · rw [← append_nil (checkEnum t)]
      change exec _ (BitVec.ofInt 256 v :: s) = _
      rw [exec_checkEnum, if_pos ((enumMember_toNat_ofInt hv).mpr hmember)]
      rfl
  · intro s
    rw [← append_nil (checkEnum t)]
    change exec _ (BitVec.ofInt 256 v :: s) = _
    rw [exec_checkEnum, if_neg ((enumMember_toNat_ofInt hv).not.mpr hmember)]

lemma IntegerType.bounds_of_inRange (h : t.minValue ≤ v ∧ v ≤ t.maxValue) :
    -2 ^ 255 ≤ v ∧ v < 2 ^ 256 := by
  have hle : (2 : ℤ) ^ t.numBits ≤ 2 ^ 256 := pow_le_pow_right₀ (by norm_num) t.valid.2.1
  have hpow := t.two_mul_pow_pred
  have hmodulus := t.modulus_eq
  simp only [IntegerType.minValue, IntegerType.maxValue] at h
  split_ifs at h
  · omega
  · omega

namespace RationalNumberType

variable {q : ℚ} {t : IntegerType}

lemma fits_of_integerType (h : integerType q = some t) : t.fits q.num := by
  unfold integerType at h
  split_ifs at h
  have hlt := lt_pow_bytesRequired (magnitude q.num)
  have hle : (2 : ℕ) ^ (bytesRequired (magnitude q.num) * 8) ≤ 2 ^ t.numBits := by
    cases h
    exact Nat.pow_le_pow_right (by norm_num) (Nat.mul_le_mul_right 8 (le_max_left _ _))
  have hcast : (magnitude q.num : ℤ) < t.modulus := Int.ofNat_lt.mpr (hlt.trans_le hle)
  have hpow := t.two_mul_pow_pred
  have hmodulus := t.modulus_eq
  have hsigned : t.isSigned = decide (q.num < 0) := by
    cases h
    rfl
  unfold IntegerType.fits IntegerType.minValue IntegerType.maxValue
  unfold magnitude at hcast
  by_cases hneg : q.num < 0
  · rw [if_pos hneg] at hcast
    simp only [hsigned, hneg, decide_true, if_true, Bool.true_eq_false, and_false, if_false,
      decide_eq_true_eq]
    omega
  · rw [if_neg hneg] at hcast
    simp only [hsigned, hneg, decide_false, Bool.false_eq_true, false_and, if_false,
      decide_eq_true_eq]
    omega

lemma mobileType_eq_some (h : mobileType q = some t) :
    isFractional q = false ∧ integerType q = some t := by
  unfold mobileType at h
  split_ifs at h with hf
  exact ⟨by simpa using hf, h⟩

lemma bounds_of_integerType (h : integerType q = some t) : -2 ^ 255 ≤ q.num ∧ q.num < 2 ^ 256 :=
  bounds_of_inRange (inRange_of_fits (fits_of_integerType h))

end RationalNumberType

lemma exec_convertRational {q : ℚ} {cleanupNeeded : Bool} {c : Code}
    (h : convertRational q t cleanupNeeded = some c) :
    ∃ w' : Word, t.wrap w'.toNat = t.wrap q.num ∧
      (t.fits q.num → w' = .ofInt 256 q.num) ∧
      ∀ r, exec c (.ofInt 256 q.num :: r) = .stack (w' :: r) := by
  unfold convertRational at h
  split_ifs at h
  obtain ⟨constType, -, rfl⟩ := map_eq_some_iff.mp h
  have hwrap : t.wrap (BitVec.ofInt 256 q.num).toNat = t.wrap q.num :=
    wrap_toNat_ofInt _
  split_ifs
  · refine ⟨.ofInt 256 (t.wrap q.num), ?_, fun hfits => ?_, fun r => ?_⟩
    · rw [wrap_toNat_ofInt, wrap_wrap]
    · rw [wrap_of_fits hfits]
    · rw [← append_nil (cleanHigherOrderBits t), exec_cleanHigherBits, hwrap]
      rfl
  · exact ⟨_, hwrap, fun _ => rfl, fun r => rfl⟩

namespace FixedBytesType

variable (t : FixedBytesType)

/-- The number of bits below the bytes. -/
abbrev padding : ℕ := 256 - t.numBytes * 8

lemma padding_lt : t.padding < 256 := by
  have := t.valid
  unfold padding
  omega

lemma two_pow_eq : (2 : ℕ) ^ (t.numBytes * 8) * 2 ^ t.padding = 2 ^ 256 := by
  have := t.valid
  rw [← pow_add, padding]
  congr 1
  omega

lemma two_pow_eq_pow : (256 : ℕ) ^ t.numBytes = 2 ^ (t.numBytes * 8) := by
  rw [Nat.mul_comm, pow_mul]
  rfl

lemma mul_mod_eq (n : ℕ) : n * 2 ^ t.padding % 2 ^ 256 = n % 2 ^ (t.numBytes * 8) * 2 ^ t.padding :=
  by rw [← t.two_pow_eq, Nat.mul_mod_mul_right]

end FixedBytesType

lemma isClean_of_leftShift {t : FixedBytesType} {n : ℕ} {w : Word}
    (hw : w.toNat = n * 2 ^ t.padding % 2 ^ 256) :
    (ValueType.fixedBytes t).IsClean (n % 2 ^ (t.numBytes * 8) : ℕ) w := by
  rw [t.mul_mod_eq] at hw
  constructor
  · rw [ValueType.valueOf, hw]
    congr 1
    exact Nat.mul_div_cancel _ (Nat.two_pow_pos _)
  · intro _
    have hcast : ((n % 2 ^ (t.numBytes * 8) : ℕ) : ℤ) * 2 ^ t.padding = (w.toNat : ℤ) := by
      rw [hw]
      push_cast
      rfl
    change w = .ofInt 256 (((n % 2 ^ (t.numBytes * 8) : ℕ) : ℤ) * 2 ^ t.padding)
    rw [hcast, ofInt_toNat]

/-! ### The single conversions -/

namespace ValueType

variable {v : ℤ} {ws : List Word}

lemma yields_nil (t : ValueType) (h : t.Represents v ws) :
    Yields [] ws t.Represents (.ok v : Except Failure ℤ) := .ok h fun _ => rfl

lemma convert_self {t : ValueType} (h : t.Represents v ws) : t.convert t v = .ok v := by
  have hinteger : ∀ i, t.asInteger = some i → t.convert t v = .ok v := by
    intro i hi
    obtain ⟨w, -, rfl⟩ := (represents_iff (isWordType_of_asInteger hi)).mp h
    rw [convert_of_asInteger hi hi, valueOf_of_asInteger hi, wrap_wrap]
  cases t with
  | integer | address | contract => exact hinteger _ rfl
  | fixedBytes t =>
    rw [convert, if_pos le_rfl, Nat.sub_self, pow_zero, mul_one]
  | _ => rfl

lemma represents_integer_of_fixedBytes (s : FixedBytesType) (t : IntegerType)
    (h : (fixedBytes s).Represents v ws) :
    Yields (rightShiftNumberOnStack hasBitwiseShifting s.padding ++
      if t.numBits < s.numBytes * 8 then convertInteger s.asInteger t false else [])
      ws (integer t).Represents (.ok (t.wrap v) : Except Failure ℤ) := by
  obtain ⟨w, rfl, rfl⟩ := h
  obtain ⟨w₁, hw₁, hexec₁⟩ := exec_rightShiftNumber hasBitwiseShifting
    s.padding_lt w
  have hv : (fixedBytes s).valueOf w = w₁.toNat := by rw [hw₁]; rfl
  have hlt : w₁.toNat < 2 ^ (s.numBytes * 8) := by
    rw [hw₁]
    apply Nat.div_lt_of_lt_mul
    rw [Nat.mul_comm, s.two_pow_eq]
    exact w.isLt
  have hwrap : s.asInteger.wrap w₁.toNat = w₁.toNat :=
    Int.emod_eq_of_lt (Int.natCast_nonneg _) (Int.ofNat_lt.mpr hlt)
  obtain ⟨w₂, hw₂, -, hexec₂⟩ := exec_convertInteger s.asInteger t false w₁
  rw [hwrap] at hw₂
  split_ifs
  · refine .ok ⟨w₂, rfl, hw₂.trans (congrArg t.wrap hv.symm)⟩ fun r => ?_
    rw [cons_append, hexec₁, ← append_nil (convertInteger _ _ _), hexec₂]
    rfl
  · refine .ok ⟨w₁, rfl, congrArg t.wrap hv.symm⟩ fun r => ?_
    rw [cons_append, hexec₁]
    rfl

lemma toNat_and_not_mask {bits : ℕ} (h : bits ≤ 256) (w : Word) :
    (~~~(mask bits) &&& w).toNat = w.toNat / 2 ^ bits * 2 ^ bits := by
  have hsplit : w.toNat = (~~~(mask bits) &&& w).toNat + (mask bits &&& w).toNat := by
    have hdisjoint : (~~~(mask bits) &&& w) &&& (mask bits &&& w) = 0 := by
      apply BitVec.eq_of_getLsbD_eq
      intro i hi
      simp only [BitVec.getLsbD_and, BitVec.getLsbD_not, hi, decide_true, Bool.true_and]
      cases (mask bits).getLsbD i
      · simp
      · simp
    have hunion : (~~~(mask bits) &&& w) ||| (mask bits &&& w) = w := by
      apply BitVec.eq_of_getLsbD_eq
      intro i hi
      simp only [BitVec.getLsbD_or, BitVec.getLsbD_and, BitVec.getLsbD_not, hi, decide_true,
        Bool.true_and]
      cases (mask bits).getLsbD i
      · simp
      · simp
    have hadd := BitVec.add_eq_or_of_and_eq_zero _ _ hdisjoint
    rw [hunion] at hadd
    have hnat := congrArg BitVec.toNat hadd
    rw [BitVec.toNat_add_of_and_eq_zero hdisjoint] at hnat
    exact hnat.symm
  rw [toNat_and_mask h] at hsplit
  have hdiv := Nat.div_add_mod' w.toNat (2 ^ bits)
  omega

variable {s t : FixedBytesType}

lemma two_pow_padding_of_le (h : s.numBytes ≤ t.numBytes) :
    2 ^ s.padding = 256 ^ (t.numBytes - s.numBytes) * 2 ^ t.padding := by
  have hs := s.valid
  have ht := t.valid
  rw [show (256 : ℕ) = 2 ^ 8 from rfl, ← pow_mul, ← pow_add]
  congr 1
  simp only [FixedBytesType.padding]
  omega

variable {w : Word}

lemma valueOf_fixedBytes_of_le (h : s.numBytes ≤ t.numBytes) {w' : Word}
    (hw : w'.toNat = w.toNat / 2 ^ s.padding * 2 ^ s.padding) :
    (fixedBytes t).valueOf w' = (fixedBytes s).valueOf w * 256 ^ (t.numBytes - s.numBytes) := by
  change ((w'.toNat / 2 ^ t.padding : ℕ) : ℤ) = ((w.toNat / 2 ^ s.padding : ℕ) : ℤ) * _
  rw [hw, two_pow_padding_of_le h, ← Nat.mul_assoc,
    Nat.mul_div_cancel _ (Nat.two_pow_pos _), ← two_pow_padding_of_le h]
  push_cast
  rfl

lemma valueOf_fixedBytes_of_ge (h : t.numBytes ≤ s.numBytes) (w : Word) :
    (fixedBytes t).valueOf w = (fixedBytes s).valueOf w / 256 ^ (s.numBytes - t.numBytes) := by
  change ((w.toNat / 2 ^ t.padding : ℕ) : ℤ) = ((w.toNat / 2 ^ s.padding : ℕ) : ℤ) / _
  rw [two_pow_padding_of_le h, Nat.mul_comm, ← Nat.div_div_eq_div_mul]
  push_cast
  rfl

lemma represents_fixedBytes (s t : FixedBytesType) (h : (fixedBytes s).Represents v ws) :
    Yields (if s.numBytes < t.numBytes ∨ (false) then
        [.push (mask (256 - min s.numBytes t.numBytes * 8)), .operation .not, .operation .and]
      else [])
      ws (fixedBytes t).Represents ((fixedBytes s).convert (fixedBytes t) v) := by
  obtain ⟨w, rfl, rfl⟩ := h
  rw [convert]
  by_cases hlt : s.numBytes < t.numBytes
  · rw [if_pos (.inl hlt), if_pos hlt.le, Nat.min_eq_left hlt.le]
    refine .ok ⟨_, rfl, valueOf_fixedBytes_of_le hlt.le
      (toNat_and_not_mask s.padding_lt.le w)⟩ fun r => ?_
    simp only [cons_append, nil_append, exec_push, exec_not, exec_and, exec_nil]
  · rw [if_neg (by simpa using hlt)]
    refine .ok ⟨w, rfl, ?_⟩ fun r => rfl
    rcases Nat.lt_or_ge t.numBytes s.numBytes with hgt | hge
    · rw [if_neg (by omega), valueOf_fixedBytes_of_ge (Nat.not_lt.mp hlt)]
    · have heq : s = t := by
        cases s
        cases t
        simp only [FixedBytesType.mk.injEq]
        exact Nat.le_antisymm hge (Nat.not_lt.mp hlt)
      subst heq
      rw [if_pos le_rfl, Nat.sub_self, pow_zero, mul_one]

lemma yields_leftShift (hasBitwiseShifting : Bool) (t : FixedBytesType) {n : ℤ}
    (hn : (w.toNat : ℤ) ≡ n [ZMOD (2 ^ (t.numBytes * 8) : ℕ)]) :
    Yields (leftShiftNumberOnStack hasBitwiseShifting t.padding) [w]
      (fun v ws => ∃ w, ws = [w] ∧ (fixedBytes t).IsClean v w)
      (.ok (n % 256 ^ t.numBytes) : Except Failure ℤ) := by
  obtain ⟨w', hw', hexec⟩ := exec_leftShiftNumber hasBitwiseShifting
    t.padding_lt w
  have hvalue : n % 256 ^ t.numBytes = (w.toNat % 2 ^ (t.numBytes * 8) : ℕ) := by
    rw [← t.two_pow_eq_pow] at hn ⊢
    push_cast at hn ⊢
    exact hn.symm
  refine .ok ⟨w', rfl, ?_⟩ fun r => ?_
  · rw [hvalue]
    exact isClean_of_leftShift hw'
  · rw [← append_nil (leftShiftNumberOnStack _ _)]
    exact hexec [] r

lemma represents_address_of_fixedBytes (hs : s.numBytes * 8 = 160) (payable : Bool)
    (h : (fixedBytes s).Represents v ws) :
    Yields (rightShiftNumberOnStack hasBitwiseShifting (256 - 160)) ws
      (address payable).Represents (.ok (v % 2 ^ 160) : Except Failure ℤ) := by
  obtain ⟨w, rfl, rfl⟩ := h
  obtain ⟨w', hw', hexec⟩ := exec_rightShiftNumber hasBitwiseShifting
    (show 256 - 160 < 256 by norm_num) w
  refine .ok ⟨w', rfl, ?_⟩ fun r => ?_
  · change ((w'.toNat % 2 ^ 160 : ℕ) : ℤ) = ((w.toNat / 2 ^ s.padding : ℕ) : ℤ) % 2 ^ 160
    rw [hw', FixedBytesType.padding, hs]
    norm_num
  · rw [← append_nil (rightShiftNumberOnStack _ _)]
    exact hexec [] r

lemma represents_integer_of_enum (s : EnumType) (t : IntegerType) (h : (enum s).Represents v ws) :
    Yields (checkEnum s) ws (integer t).Represents ((enumMember s v).map t.wrap) := by
  obtain ⟨w, rfl, rfl⟩ := h
  have hbounds : -2 ^ 255 ≤ (w.toNat : ℤ) ∧ (w.toNat : ℤ) < 2 ^ 256 := by
    have := w.isLt
    omega
  have hcheck := yields_checkEnum s hbounds
  rw [ofInt_toNat] at hcheck
  refine hcheck.map fun v ws hv => ?_
  obtain ⟨w, rfl, hw⟩ := hv
  exact ⟨w, rfl, congrArg t.wrap hw.1⟩

lemma represents_fixedBytes_of_integer (s : IntegerType) (t : FixedBytesType)
    (h : (integer s).Represents v ws) :
    Yields ((if s.numBits < t.numBytes * 8 then cleanHigherOrderBits s else []) ++
      leftShiftNumberOnStack hasBitwiseShifting t.padding) ws
      (fixedBytes t).Represents (.ok (v % 256 ^ t.numBytes) : Except Failure ℤ) := by
  obtain ⟨w, rfl, rfl⟩ := h
  obtain ⟨w₁, hw₁, hexec⟩ : ∃ w₁ : Word,
      (w₁.toNat : ℤ) ≡ s.wrap w.toNat [ZMOD (2 ^ (t.numBytes * 8) : ℕ)] ∧ ∀ r,
      exec (if s.numBits < t.numBytes * 8 then cleanHigherOrderBits s else []) (w :: r) =
        .stack (w₁ :: r) := by
    split_ifs with hlt
    · refine ⟨.ofInt 256 (s.wrap w.toNat), ?_, fun r => ?_⟩
      · refine (toNat_ofInt_modEq _).of_dvd (Int.natCast_dvd_natCast.mpr (pow_dvd_pow 2 ?_))
        have := t.valid
        omega
      · rw [← append_nil (cleanHigherOrderBits s), exec_cleanHigherBits]
        rfl
    · refine ⟨w, ?_, fun r => rfl⟩
      exact ((s.wrap_modEq _).of_dvd
        (Int.natCast_dvd_natCast.mpr (pow_dvd_pow 2 (Nat.not_lt.mp hlt)))).symm
  have hfirst : Yields (if s.numBits < t.numBytes * 8 then cleanHigherOrderBits s else []) [w]
      (fun _ ws => ws = [w₁]) (.ok () : Except Failure Unit) := .ok rfl hexec
  have hboth := hfirst.append (f := fun _ => .ok (s.wrap w.toNat % 256 ^ t.numBytes))
    fun _ ws hws => by
      subst hws
      exact yields_leftShift hasBitwiseShifting t hw₁
  exact hboth.mono fun v ws hv => by
    obtain ⟨w, rfl, hw⟩ := hv
    exact ⟨w, rfl, hw.1⟩

lemma isClean_enum_of_integer (s : IntegerType) (t : EnumType) (h : (integer s).Represents v ws) :
    Yields (convertInteger s s true ++ checkEnum t) ws
      (fun v ws => ∃ w, ws = [w] ∧ (enum t).IsClean v w) (enumMember t v) := by
  obtain ⟨w, rfl, rfl⟩ := h
  have hself : s.isImplicitlyConvertibleTo s = true := by
    unfold IntegerType.isImplicitlyConvertibleTo
    cases s.isSigned <;> simp
  obtain ⟨w', -, hclean, hexec⟩ := exec_convertInteger s s true w
  have hw' := hclean rfl hself
  rw [wrap_wrap] at hw'
  subst hw'
  have hfirst : Yields (convertInteger s s true) [w]
      (fun _ ws => ws = [.ofInt 256 (s.wrap w.toNat)]) (.ok () : Except Failure Unit) := by
    refine .ok rfl fun r => ?_
    rw [← append_nil (convertInteger s s true)]
    exact hexec [] r
  exact hfirst.append (f := fun _ => enumMember t (s.wrap w.toNat)) fun _ ws hws => by
    subst hws
    exact yields_checkEnum t (bounds_of_inRange (wrap_inRange _))

variable {c : Code}

lemma isClean_enum_of_rationalNumber {q : ℚ} {mobile : IntegerType} (t : EnumType)
    (hmobile : RationalNumberType.mobileType q = some mobile)
    (hc : convertRational q mobile true = some c) :
    Yields (c ++ checkEnum t) [.ofInt 256 q.num]
      (fun v ws => ∃ w, ws = [w] ∧ (enum t).IsClean v w) (enumMember t q.num) := by
  obtain ⟨-, htype⟩ := RationalNumberType.mobileType_eq_some hmobile
  obtain ⟨w', -, hclean, hexec⟩ := exec_convertRational hc
  have hw' := hclean (RationalNumberType.fits_of_integerType htype)
  subst hw'
  have hfirst : Yields c [.ofInt 256 q.num]
      (fun _ ws => ws = [.ofInt 256 q.num]) (.ok () : Except Failure Unit) := .ok rfl hexec
  exact hfirst.append (f := fun _ => enumMember t q.num) fun _ ws hws => by
    subst hws
    exact yields_checkEnum t (RationalNumberType.bounds_of_integerType htype)

lemma bytesToNat_lt (s : List (BitVec 8)) : bytesToNat s < 256 ^ s.length := by
  induction s using List.reverseRecOn with
  | nil => exact Nat.one_pos
  | append_singleton s b ih =>
    have hb := b.isLt
    rw [bytesToNat, foldl_append, length_append, length_singleton, pow_succ]
    change bytesToNat s * 256 + b.toNat < _
    omega

lemma isClean_of_stringLiteral {s : List (BitVec 8)} (h : s.length ≤ t.numBytes) :
    (fixedBytes t).IsClean (bytesToNat s * 256 ^ (t.numBytes - s.length))
      (stringWord s t.numBytes) := by
  have ht := t.valid
  have hsplit : (256 : ℕ) ^ (32 - s.length) = 256 ^ (t.numBytes - s.length) * 2 ^ t.padding := by
    rw [show (256 : ℕ) = 2 ^ 8 from rfl, ← pow_mul, ← pow_mul, ← pow_add]
    congr 1
    simp only [FixedBytesType.padding]
    omega
  have hlt : bytesToNat s * 256 ^ (32 - s.length) < 2 ^ 256 := by
    calc bytesToNat s * 256 ^ (32 - s.length)
        < 256 ^ s.length * 256 ^ (32 - s.length) :=
          Nat.mul_lt_mul_of_pos_right (bytesToNat_lt s) (by positivity)
      _ = 256 ^ 32 := by rw [← pow_add, Nat.add_sub_cancel' (h.trans ht.2)]
      _ = 2 ^ 256 := by norm_num
  have hmask : BitVec.allOnes 256 >>> (8 * t.numBytes) = mask t.padding := by
    apply BitVec.eq_of_toNat_eq
    have hpow : 2 ^ t.padding ≤ 2 ^ 256 := Nat.pow_le_pow_right (by norm_num) t.padding_lt.le
    have hpos : 0 < 2 ^ t.padding := Nat.two_pow_pos _
    rw [BitVec.toNat_ushiftRight, BitVec.toNat_allOnes, Nat.shiftRight_eq_div_pow, mask,
      toNat_ofNat_of_lt (by omega), ← t.two_pow_eq, Nat.mul_comm 8]
    apply Nat.div_eq_of_lt_le
    · rw [Nat.sub_mul, Nat.mul_comm (2 ^ t.padding), Nat.one_mul]
      have := Nat.two_pow_pos (t.numBytes * 8)
      omega
    · rw [Nat.sub_add_cancel hpos, Nat.mul_comm (2 ^ t.padding)]
      have := Nat.two_pow_pos (t.numBytes * 8)
      have := Nat.mul_pos this hpos
      omega
  have hw : (stringWord s t.numBytes).toNat =
      bytesToNat s * 256 ^ (t.numBytes - s.length) * 2 ^ t.padding := by
    rw [stringWord, hmask, BitVec.and_comm, toNat_and_not_mask t.padding_lt.le,
      toNat_ofNat_of_lt hlt, hsplit, ← Nat.mul_assoc, Nat.mul_div_cancel _ (Nat.two_pow_pos _)]
  constructor
  · rw [valueOf, hw, Nat.mul_div_cancel _ (Nat.two_pow_pos _)]
    push_cast
    rfl
  · intro _
    have hcast : (bytesToNat s : ℤ) * 256 ^ (t.numBytes - s.length) * 2 ^ t.padding =
        ((stringWord s t.numBytes).toNat : ℤ) := by
      rw [hw]
      push_cast
      rfl
    change _ = BitVec.ofInt 256 _
    rw [hcast, ofInt_toNat]

/-! ### All conversions -/

lemma isImplicitly_isExplicitly {s t : ValueType} (h : s.isImplicitlyConvertibleTo t) :
    s.isExplicitlyConvertibleTo t := by
  cases s <;> cases t <;>
    first
    | rfl
    | exact h
    | exact absurd h Bool.false_ne_true
    | simp only [isExplicitlyConvertibleTo, h, Bool.true_or]

lemma length_le_of_isExplicitly {s : List (BitVec 8)}
    (h : stringLiteral s = fixedBytes t ∨
      (stringLiteral s).isExplicitlyConvertibleTo (fixedBytes t)) :
    s.length ≤ t.numBytes := by
  rcases h with h | h
  · cases h
  · exact of_decide_eq_true h

lemma represents_function {s t : FunctionType} (hst : s.isImplicitlyConvertibleTo t)
    (h : (function s).Represents v ws) : (function t).Represents v ws := by
  have hkind : s.isExternal = t.isExternal := by
    simp only [FunctionType.isImplicitlyConvertibleTo, Bool.and_eq_true, decide_eq_true_eq] at hst
    exact hst.1.1
  rw [Represents, hkind] at h
  rw [Represents]
  exact h

/-- Without a forced cleanup, a conversion leaves a representation of the converted value. -/
theorem convertType_represents {s t : ValueType}
    (h : convertType hasBitwiseShifting s t false = some c)
    (hconv : s = t ∨ s.isExplicitlyConvertibleTo t) (hv : s.Represents v ws) :
    Yields c ws t.Represents (s.convert t v) := by
  unfold convertType at h
  by_cases hst : s = t
  · subst hst
    rw [if_pos ⟨rfl, rfl⟩] at h
    cases h
    rw [convert_self hv]
    exact yields_nil s hv
  rw [if_neg (fun h => hst h.1)] at h
  split at h
  · cases h
    exact represents_integer_of_fixedBytes _ _ hv
  · split_ifs at h with hsize
    cases h
    exact represents_address_of_fixedBytes hsize _ hv
  · cases h
    exact represents_fixedBytes _ _ hv
  · split_ifs at h with heq
    exact absurd (congrArg enum heq) hst
  · cases h
    exact represents_integer_of_enum _ _ hv
  · cases h
    exact represents_fixedBytes_of_integer _ _ hv
  · split_ifs at h with hsize
    cases h
    obtain ⟨w, rfl, rfl⟩ := hv
    refine (yields_leftShift _ _ ?_).mono fun v ws ⟨w, hws, hw⟩ => ⟨w, hws, hw.1⟩
    rw [hsize]
    exact (Int.mod_modEq _ _).symm
  · cases h
    obtain ⟨rfl, rfl⟩ := hv
    refine (yields_leftShift _ _ ?_).mono fun v ws ⟨w, hws, hw⟩ => ⟨w, hws, hw.1⟩
    have := FixedBytesType.valid ‹_›
    exact (toNat_ofInt_modEq _).of_dvd
      (Int.natCast_dvd_natCast.mpr (pow_dvd_pow 2 (by omega)))
  · cases h
    exact (isClean_enum_of_integer _ _ hv).mono fun v ws ⟨w, hws, hw⟩ => ⟨w, hws, hw.1⟩
  · obtain ⟨mobile, hmobile, h⟩ := bind_eq_some_iff.mp h
    obtain ⟨c, hc, rfl⟩ := map_eq_some_iff.mp h
    obtain ⟨rfl, rfl⟩ := hv
    exact (isClean_enum_of_rationalNumber _ hmobile hc).mono
      fun v ws ⟨w, hws, hw⟩ => ⟨w, hws, hw.1⟩
  · obtain ⟨j, hj, h⟩ := bind_eq_some_iff.mp h
    obtain ⟨rfl, rfl⟩ := hv
    obtain ⟨w', hw', -, hexec⟩ := exec_convertRational h
    have hconvert : ∀ q c, (rationalNumber q c).convert t q.num = .ok (j.wrap q.num) := by
      intro q c
      cases t <;> first | (cases hj; rfl) | cases hj
    rw [hconvert]
    refine .ok ((represents_iff (isWordType_of_asInteger hj)).mpr ⟨w', rfl, ?_⟩) hexec
    rw [valueOf_of_asInteger hj, hw']
  · split_ifs at h with hlength
    cases h
    obtain ⟨rfl, rfl⟩ := hv
    exact .ok ⟨_, rfl, (isClean_of_stringLiteral (length_le_of_isExplicitly hconv)).1⟩ fun r => rfl
  · exact absurd rfl hst
  · split_ifs at h with hexternal
    cases h
    rw [Represents, if_pos hexternal] at hv
    obtain ⟨selector, address, rfl, rfl⟩ := hv
    refine .ok ⟨address, rfl, ?_⟩ fun r => by
      simp only [cons_append, nil_append, exec_pop, exec_nil]
    rw [valueOf]
    norm_cast
    omega
  · obtain ⟨himplicit, h⟩ := ite_none_right_eq_some.mp h
    cases h
    exact .ok (represents_function himplicit hv) fun r => rfl
  · obtain ⟨i, hi, h⟩ := bind_eq_some_iff.mp h
    obtain ⟨j, hj, rfl⟩ := map_eq_some_iff.mp h
    obtain ⟨w, rfl, rfl⟩ := (represents_iff (isWordType_of_asInteger hi)).mp hv
    obtain ⟨w', hw', -, hexec⟩ := exec_convertInteger i j false w
    rw [convert_of_asInteger hi hj, valueOf_of_asInteger hi]
    refine .ok ((represents_iff (isWordType_of_asInteger hj)).mpr ⟨w', rfl, ?_⟩) fun r => ?_
    · rw [valueOf_of_asInteger hj, hw']
    · rw [← append_nil (convertInteger i j false)]
      exact hexec [] r

/-! ### Forced cleanups -/

/-- The words that represent a value cleanly. -/
def RepresentsClean (t : ValueType) (v : ℤ) (ws : List Word) : Prop :=
  ∃ w, ws = [w] ∧ t.IsClean v w

lemma isClean_of_asInteger {t : ValueType} {i : IntegerType} (h : t.asInteger = some i)
    (hv : i.wrap w.toNat = v) (hw : w = .ofInt 256 v) : t.IsClean v w := by
  refine ⟨(valueOf_of_asInteger h w).trans hv, fun _ => ?_⟩
  rw [cleanWord_of_asInteger h]
  exact hw

lemma representsClean_of_asInteger {s t : ValueType} {i j : IntegerType}
    (hs : s.asInteger = some i) (ht : t.asInteger = some j)
    (hij : i.isImplicitlyConvertibleTo j) (hv : s.Represents v ws) :
    Yields (convertInteger i j true) ws t.RepresentsClean
      (.ok (j.wrap v) : Except Failure ℤ) := by
  obtain ⟨w, rfl, rfl⟩ := (represents_iff (isWordType_of_asInteger hs)).mp hv
  obtain ⟨w', hw', hclean, hexec⟩ := exec_convertInteger i j true w
  rw [valueOf_of_asInteger hs]
  refine .ok ⟨w', rfl, isClean_of_asInteger ht hw' (hclean rfl hij)⟩ fun r => ?_
  rw [← append_nil (convertInteger i j true)]
  exact hexec [] r

lemma isClean_fixedBytes {k : ℕ} (hw : w.toNat = k * 2 ^ t.padding) :
    (fixedBytes t).IsClean ((fixedBytes t).valueOf w) w := by
  refine ⟨rfl, fun _ => ?_⟩
  have hvalue : (fixedBytes t).valueOf w = k := by
    change ((w.toNat / 2 ^ t.padding : ℕ) : ℤ) = k
    rw [hw, Nat.mul_div_cancel _ (Nat.two_pow_pos _)]
  have hcast : (k : ℤ) * 2 ^ t.padding = (w.toNat : ℤ) := by
    rw [hw]
    push_cast
    rfl
  change w = .ofInt 256 ((fixedBytes t).valueOf w * 2 ^ t.padding)
  rw [hvalue, hcast, ofInt_toNat]

lemma representsClean_fixedBytes (hst : s.numBytes ≤ t.numBytes)
    (h : (fixedBytes s).Represents v ws) :
    Yields [.push (mask (256 - min s.numBytes t.numBytes * 8)), .operation .not, .operation .and]
      ws (fixedBytes t).RepresentsClean
      (.ok (v * 256 ^ (t.numBytes - s.numBytes)) : Except Failure ℤ) := by
  obtain ⟨w, rfl, rfl⟩ := h
  have hw := toNat_and_not_mask s.padding_lt.le w
  rw [Nat.min_eq_left hst, ← valueOf_fixedBytes_of_le hst hw]
  refine .ok ⟨~~~(mask s.padding) &&& w, rfl, ?_⟩ fun r => ?_
  · rw [two_pow_padding_of_le hst, ← Nat.mul_assoc, ← two_pow_padding_of_le hst] at hw
    exact isClean_fixedBytes hw
  · simp only [cons_append, nil_append, exec_push, exec_not, exec_and, exec_nil]

lemma representsClean_bool (h : bool.Represents v ws) :
    Yields (operations [.iszero, .iszero]) ws bool.RepresentsClean
      (.ok v : Except Failure ℤ) := by
  obtain ⟨w, rfl, rfl⟩ := h
  refine .ok ⟨.ofBool (Sof.Word.ofBool (w = 0) = 0), rfl, ?_⟩ fun r => rfl
  by_cases hw : w = 0
  · subst hw
    exact ⟨rfl, fun _ => rfl⟩
  · simp only [IsClean, valueOf, hw, decide_false, if_false]
    exact ⟨rfl, fun _ => rfl⟩

lemma representsClean_enum (t : EnumType) (h : (enum t).Represents v ws) :
    Yields (checkEnum t) ws (enum t).RepresentsClean (enumMember t v) := by
  obtain ⟨w, rfl, rfl⟩ := h
  have hcheck := yields_checkEnum t (v := w.toNat) (by have := w.isLt; omega)
  rw [ofInt_toNat] at hcheck
  exact hcheck

lemma representsClean_function {t : FunctionType} (ht : t.isExternal = false)
    (h : (function t).Represents v ws) :
    Yields [.push (mask (8 * if t.isExternal then 24 else 8)), .operation .and] ws
      (function t).RepresentsClean (.ok v : Except Failure ℤ) := by
  have hword : (function t).isWordType = true := by simp [isWordType, ht]
  obtain ⟨w, rfl, rfl⟩ := (represents_iff hword).mp h
  rw [ht, if_neg Bool.false_ne_true]
  refine .ok ⟨mask 64 &&& w, rfl, ?_, fun h => absurd rfl (h t)⟩ fun r => by
    simp only [cons_append, nil_append, exec_push, exec_and, exec_nil]
  rw [valueOf, valueOf, toNat_and_mask (by norm_num)]
  congr 1
  omega

/-- With a forced cleanup, an implicit conversion leaves the clean word of the operand. -/
theorem convertType_representsClean {s t : ValueType}
    (h : convertType hasBitwiseShifting s t true = some c)
    (hst : s.isImplicitlyConvertibleTo t) (ht : t.isWordType)
    (hv : s.Represents v ws) : Yields c ws t.RepresentsClean (s.operand t v) := by
  unfold convertType at h
  rw [if_neg (fun h => absurd h.2 Bool.true_eq_false.mp)] at h
  cases s with
  | integer s =>
    cases t with
    | integer t =>
      cases h
      exact representsClean_of_asInteger rfl rfl hst hv
    | _ => exact absurd hst Bool.false_ne_true
  | fixedBytes s =>
    cases t with
    | fixedBytes t =>
      have hle : s.numBytes ≤ t.numBytes := of_decide_eq_true hst
      cases h
      rw [if_pos (.inr rfl)]
      have hoperand : (fixedBytes s).operand (fixedBytes t) v =
          .ok (v * 256 ^ (t.numBytes - s.numBytes)) := by
        rw [operand, convert, if_pos hle]
        rfl
      rw [hoperand]
      exact representsClean_fixedBytes hle hv
    | _ => exact absurd hst Bool.false_ne_true
  | bool =>
    cases t with
    | bool =>
      cases h
      exact representsClean_bool hv
    | _ => exact absurd hst Bool.false_ne_true
  | enum s =>
    cases t with
    | enum t =>
      have heq : s = t := of_decide_eq_true hst
      subst heq
      dsimp only at h
      rw [if_pos rfl] at h
      cases h
      exact representsClean_enum s hv
    | _ => exact absurd hst Bool.false_ne_true
  | address payable =>
    cases t with
    | address =>
      cases h
      exact representsClean_of_asInteger rfl rfl rfl hv
    | _ => exact absurd hst Bool.false_ne_true
  | contract s =>
    cases t with
    | contract =>
      cases h
      exact representsClean_of_asInteger rfl rfl rfl hv
    | _ => exact absurd hst Bool.false_ne_true
  | function s =>
    cases t with
    | function t =>
      obtain ⟨himplicit, h⟩ := ite_none_right_eq_some.mp h
      cases h
      have hexternal : t.isExternal = false := by simpa [isWordType] using ht
      exact representsClean_function hexternal (represents_function hst hv)
    | _ => exact absurd hst Bool.false_ne_true
  | rationalNumber q compatibleBytesType =>
    obtain ⟨rfl, rfl⟩ := hv
    cases t with
    | integer t =>
      have hfits : t.fits q.num = true := (Bool.and_eq_true _ _ ▸ hst).2
      obtain ⟨w', hw', hclean, hexec⟩ := exec_convertRational h
      refine .ok ⟨w', rfl, isClean_of_asInteger rfl hw' ?_⟩ hexec
      rw [wrap_of_fits hfits]
      exact hclean hfits
    | fixedBytes t =>
      cases h
      have := t.valid
      exact yields_leftShift _ t ((toNat_ofInt_modEq _).of_dvd
        (Int.natCast_dvd_natCast.mpr (pow_dvd_pow 2 (by omega))))
    | _ => exact absurd hst Bool.false_ne_true
  | stringLiteral s =>
    obtain ⟨rfl, rfl⟩ := hv
    cases t with
    | fixedBytes t =>
      dsimp only at h
      split_ifs at h with hlength
      cases h
      exact .ok ⟨_, rfl, isClean_of_stringLiteral (of_decide_eq_true hst)⟩ fun r => rfl
    | _ => exact absurd hst Bool.false_ne_true

end ValueType

end Polynomial
