import Polc.Codegen.ExpressionCompiler.Words

/-!
# Implicit conversions

Which values survive an implicit conversion between integers, fixed point types, constants, bytes
and addresses. The rules for fixed point types of `libpolynomial/ast/Types.cpp` compare integer
parts, which do not tell whether the largest fraction fits.
-/

namespace Polynomial

/-! ### The conversions -/

namespace FixedPointType

/-- The quotient of big integers is rounded towards zero. -/
def maxIntegerValue (t : FixedPointType) : ℤ :=
  ((2 : ℤ) ^ (t.totalBits - if t.isSigned then 1 else 0) - 1).tdiv (10 ^ t.fractionalDigits)

def minIntegerValue (t : FixedPointType) : ℤ :=
  if t.isSigned then (-2 ^ (t.totalBits - 1) : ℤ).tdiv (10 ^ t.fractionalDigits) else 0

def isImplicitlyConvertibleTo (t convertTo : FixedPointType) : Bool :=
  if convertTo.fractionalDigits < t.fractionalDigits then false
  else if convertTo.totalBits < t.totalBits then false
  else
    t.maxIntegerValue ≤ convertTo.maxIntegerValue &&
      convertTo.minIntegerValue ≤ t.minIntegerValue

end FixedPointType

def IntegerType.isConvertibleToFixedPoint (t : IntegerType) (convertTo : FixedPointType) : Bool :=
  t.maxValue ≤ convertTo.maxIntegerValue && convertTo.minIntegerValue ≤ t.minValue

namespace RationalNumberType

/-- `fitsIntoBits` with the sizes of a fixed point type. -/
def fitsIntoBits (value : ℤ) (targetType : FixedPointType) : Bool :=
  IntegerType.fits ⟨targetType.totalBits, targetType.isSigned,
    by have := targetType.valid; omega⟩ value

def isConvertibleToFixedPoint (q : ℚ) (targetType : FixedPointType) : Bool :=
  if q < 0 ∧ targetType.isSigned = false then false
  else if isFractional q = false then
    targetType.minIntegerValue ≤ q && q ≤ targetType.maxIntegerValue
  else
    let value := q * 10 ^ targetType.fractionalDigits
    -- Need explicit conversion since truncation will occur.
    if value.den ≠ 1 then false else fitsIntoBits value.num targetType

/-- The number that hexadecimal digits denote. -/
def ofDigits (digits : List (Fin 16)) : ℕ := digits.foldl (fun n d => n * 16 + d.val) 0

/-- The bytes that a hexadecimal literal can be converted to. -/
def compatibleBytesType (digits : List (Fin 16)) : Option FixedBytesType :=
  if h : digits.length % 2 = 0 ∧ 0 < digits.length / 2 ∧ digits.length / 2 ≤ 32 then
    some ⟨digits.length / 2, h.2⟩
  else none

end RationalNumberType

open RationalNumberType

/-- The types of the conversions, with the constants that literals and operators make. -/
inductive ScalarType where
  | integer (type : IntegerType)
  | fixedPoint (type : FixedPointType)
  | fixedBytes (type : FixedBytesType)
  | address (payable : Bool)
  | hexLiteral (digits : List (Fin 16))
  | constant (value : ℚ)

namespace ScalarType

/-- The type among those without fixed point types. -/
def toValueType : ScalarType → Option ValueType
  | integer t => some (.integer t)
  | fixedPoint _ => none
  | fixedBytes t => some (.fixedBytes t)
  | address payable => some (.address payable)
  | hexLiteral digits => some (.rationalNumber (ofDigits digits) (compatibleBytesType digits))
  | constant q => some (.rationalNumber q none)

def isImplicitlyConvertibleTo (t convertTo : ScalarType) : Bool :=
  match t.toValueType, convertTo with
  | some (.integer t), fixedPoint convertTo => t.isConvertibleToFixedPoint convertTo
  | some (.rationalNumber q _), fixedPoint convertTo => isConvertibleToFixedPoint q convertTo
  | some t, convertTo => convertTo.toValueType.any t.isImplicitlyConvertibleTo
  | none, fixedPoint convertTo =>
    match t with
    | fixedPoint t => t.isImplicitlyConvertibleTo convertTo
    | _ => false
  | none, _ => false

end ScalarType

/-- What the types stand for. Bytes are kept at the front and padded with zeros. -/
inductive ScalarValue where
  | number (q : ℚ)
  | bytes (l : List (BitVec 8))
  | address (a : BitVec 160)

namespace ScalarType

/-- The value is one of the type, or for bytes and constants exactly represented by one. -/
def Holds : ScalarType → ScalarValue → Prop
  | integer t, .number q => ∃ n : ℤ, q = n ∧ t.minValue ≤ n ∧ n ≤ t.maxValue
  | fixedPoint t, .number q =>
    ∃ n : ℤ, q * 10 ^ t.fractionalDigits = n ∧ t.minStored ≤ n ∧ n ≤ t.maxStored
  | fixedBytes t, .number q => ∃ n : ℕ, q = n ∧ n < 2 ^ (8 * t.numBytes)
  | fixedBytes t, .bytes l => l.length ≤ t.numBytes
  | address _, .address _ => True
  | hexLiteral digits, .number q => q = ofDigits digits
  | constant q, .number r => r = q
  | _, _ => False

/-- The values of a type; those of `bytesN` have `N` bytes. -/
def IsValue : ScalarType → ScalarValue → Prop
  | fixedBytes t, .bytes l => l.length = t.numBytes
  | fixedBytes _, _ => False
  | t, v => t.Holds v

/-- If the types can be converted implicitly, every value is kept. -/
def KeepsValues (t convertTo : ScalarType) : Prop :=
  t.isImplicitlyConvertibleTo convertTo = true → ∀ v, t.IsValue v → convertTo.Holds v

end ScalarType

/-! ### Where fixed point types keep their values -/

namespace FixedPointType

variable {t t' : FixedPointType}

lemma maxStored_nonneg (t : FixedPointType) : 0 ≤ t.maxStored := by
  rw [maxStored]
  split_ifs
  · exact sub_nonneg.mpr (one_le_pow₀ one_le_two)
  · exact sub_nonneg.mpr (one_le_pow₀ one_le_two)

lemma maxIntegerValue_eq (t : FixedPointType) :
    t.maxIntegerValue = t.maxStored / 10 ^ t.fractionalDigits := by
  rw [← Int.tdiv_eq_ediv_of_nonneg t.maxStored_nonneg, maxIntegerValue, maxStored]
  cases t.isSigned <;> rfl

lemma minIntegerValue_eq (t : FixedPointType) :
    t.minIntegerValue = -(-t.minStored / 10 ^ t.fractionalDigits) := by
  rw [minIntegerValue, minStored]
  split_ifs
  · rw [Int.neg_tdiv, neg_neg, Int.tdiv_eq_ediv_of_nonneg (by positivity)]
  · rw [neg_zero, Int.zero_ediv, neg_zero]

lemma stored_of_integer {n : ℤ} (hmin : t.minIntegerValue ≤ n) (hmax : n ≤ t.maxIntegerValue) :
    t.minStored ≤ n * 10 ^ t.fractionalDigits ∧ n * 10 ^ t.fractionalDigits ≤ t.maxStored := by
  have hpos : (0 : ℤ) < 10 ^ t.fractionalDigits := by positivity
  rw [maxIntegerValue_eq, Int.le_ediv_iff_mul_le hpos] at hmax
  rw [minIntegerValue_eq, neg_le, Int.le_ediv_iff_mul_le hpos, neg_mul, neg_le_neg_iff] at hmin
  exact ⟨hmin, hmax⟩

/-- The bounds of the type, with more digits, are within those of the other one. -/
def BoundsFit (t convertTo : FixedPointType) : Prop :=
  t.maxStored * 10 ^ (convertTo.fractionalDigits - t.fractionalDigits) ≤ convertTo.maxStored ∧
    convertTo.minStored ≤ t.minStored * 10 ^ (convertTo.fractionalDigits - t.fractionalDigits)

lemma implicit_iff : t.isImplicitlyConvertibleTo t' ↔
    t.fractionalDigits ≤ t'.fractionalDigits ∧ t.totalBits ≤ t'.totalBits ∧
      t.maxIntegerValue ≤ t'.maxIntegerValue ∧ t'.minIntegerValue ≤ t.minIntegerValue := by
  rw [isImplicitlyConvertibleTo]
  split_ifs with h h' <;> simp <;> omega

lemma minStored_le_maxStored (t : FixedPointType) : t.minStored ≤ t.maxStored := by
  refine le_trans ?_ t.maxStored_nonneg
  rw [minStored]
  split_ifs
  · exact neg_nonpos.mpr (by positivity)
  · exact le_rfl

lemma keeps_iff (h : t.fractionalDigits ≤ t'.fractionalDigits) :
    (∀ v, (ScalarType.fixedPoint t).IsValue v → (ScalarType.fixedPoint t').Holds v) ↔
      t.BoundsFit t' := by
  have hsplit : (10 : ℚ) ^ t'.fractionalDigits =
      10 ^ t.fractionalDigits * 10 ^ (t'.fractionalDigits - t.fractionalDigits) := by
    rw [← pow_add, Nat.add_sub_cancel' h]
  have hscale : ∀ {q : ℚ} {n : ℤ}, q * 10 ^ t.fractionalDigits = n →
      q * 10 ^ t'.fractionalDigits =
        (n * 10 ^ (t'.fractionalDigits - t.fractionalDigits) : ℤ) := by
    intro q n hq
    rw [hsplit, ← mul_assoc, hq]
    push_cast
    rfl
  constructor
  · intro hkeeps
    have hbound : ∀ n, t.minStored ≤ n → n ≤ t.maxStored →
        t'.minStored ≤ n * 10 ^ (t'.fractionalDigits - t.fractionalDigits) ∧
          n * 10 ^ (t'.fractionalDigits - t.fractionalDigits) ≤ t'.maxStored := by
      intro n hmin hmax
      have hvalue : (n / 10 ^ t.fractionalDigits : ℚ) * 10 ^ t.fractionalDigits = n :=
        div_mul_cancel₀ _ (by positivity)
      obtain ⟨m, hm, hle⟩ := hkeeps (.number (n / 10 ^ t.fractionalDigits)) ⟨n, hvalue, hmin, hmax⟩
      rw [hscale hvalue] at hm
      rwa [Int.cast_injective hm]
    exact ⟨(hbound _ t.minStored_le_maxStored le_rfl).2,
      (hbound _ le_rfl t.minStored_le_maxStored).1⟩
  · rintro ⟨hmax', hmin'⟩ (q | _ | _) hq
    · obtain ⟨n, hn, hmin, hmax⟩ := hq
      have hpos : (0 : ℤ) ≤ 10 ^ (t'.fractionalDigits - t.fractionalDigits) := by positivity
      exact ⟨_, hscale hn, hmin'.trans (mul_le_mul_of_nonneg_right hmin hpos),
        (mul_le_mul_of_nonneg_right hmax hpos).trans hmax'⟩
    · exact hq
    · exact hq

end FixedPointType

/-! ### The other conversions -/

lemma holds_of_isConvertibleToFixedPoint {q : ℚ} {t : FixedPointType}
    (h : isConvertibleToFixedPoint q t) : (ScalarType.fixedPoint t).Holds (.number q) := by
  rw [isConvertibleToFixedPoint] at h
  split_ifs at h with hsign hinteger
  · obtain ⟨hmin, hmax⟩ := Bool.and_eq_true_iff.mp h
    have hq : q = q.num := by
      rw [isFractional, decide_eq_false_iff_not, not_not] at hinteger
      exact (Rat.coe_int_num_of_den_eq_one hinteger).symm
    rw [hq] at hmin hmax
    have hstored := FixedPointType.stored_of_integer (n := q.num)
      (by exact_mod_cast of_decide_eq_true hmin) (by exact_mod_cast of_decide_eq_true hmax)
    refine ⟨q.num * 10 ^ t.fractionalDigits, ?_, hstored⟩
    rw [hq]
    push_cast
    rfl
  · dsimp only at h
    split_ifs at h with hden
    rw [not_not] at hden
    refine ⟨_, (Rat.coe_int_num_of_den_eq_one hden).symm, ?_⟩
    rw [fitsIntoBits, IntegerType.fits] at h
    split_ifs at h
    simpa [IntegerType.minValue, IntegerType.maxValue, FixedPointType.minStored,
      FixedPointType.maxStored] using of_decide_eq_true h

lemma ofDigits_lt (digits : List (Fin 16)) : ofDigits digits < 2 ^ (4 * digits.length) := by
  induction digits using List.reverseRecOn with
  | nil => exact Nat.one_pos
  | append_singleton digits d ih =>
    rw [ofDigits, List.foldl_append, List.length_append]
    change ofDigits digits * 16 + d < 2 ^ (4 * digits.length + 4)
    rw [pow_add]
    have hd := d.isLt
    omega

lemma lt_of_compatibleBytesType {digits : List (Fin 16)} {t : FixedBytesType}
    (h : compatibleBytesType digits = some t) : ofDigits digits < 2 ^ (8 * t.numBytes) := by
  rw [compatibleBytesType] at h
  split_ifs at h with hcount
  cases h
  have hlt := ofDigits_lt digits
  rwa [show 4 * digits.length = 8 * (digits.length / 2) by omega] at hlt

namespace ScalarType

/-- Two fixed point types whose bounds fit, or that differ where the program looks. -/
def Fits : ScalarType → ScalarType → Prop
  | fixedPoint t, fixedPoint t' =>
    t'.fractionalDigits < t.fractionalDigits ∨ t'.totalBits < t.totalBits ∨
      t'.maxIntegerValue < t.maxIntegerValue ∨ t.minIntegerValue < t'.minIntegerValue ∨
      t.BoundsFit t'
  | _, _ => True

lemma holds_of_integer {t : IntegerType} {t' : ScalarType}
    (h : (integer t).isImplicitlyConvertibleTo t') {n : ℤ} (hmin : t.minValue ≤ n)
    (hmax : n ≤ t.maxValue) : t'.Holds (.number n) := by
  cases t' with
  | integer t' => exact ⟨n, rfl, IntegerType.inRange_of_implicit h ⟨hmin, hmax⟩⟩
  | fixedPoint t' =>
    obtain ⟨hmax', hmin'⟩ := Bool.and_eq_true_iff.mp h
    have hstored := FixedPointType.stored_of_integer ((of_decide_eq_true hmin').trans hmin)
      (hmax.trans (of_decide_eq_true hmax'))
    exact ⟨n * 10 ^ t'.fractionalDigits, by push_cast; rfl, hstored⟩
  | _ => cases h

lemma holds_of_rationalNumber {q : ℚ} {c : Option FixedBytesType} {t t' : ScalarType}
    (ht : t.toValueType = some (.rationalNumber q c))
    (hc : ∀ t, c = some t → ∃ n : ℕ, q = n ∧ n < 2 ^ (8 * t.numBytes))
    (h : t.isImplicitlyConvertibleTo t') : t'.Holds (.number q) := by
  cases t' with
  | integer t' =>
    simp only [isImplicitlyConvertibleTo, ht] at h
    obtain ⟨hinteger, hfits⟩ := Bool.and_eq_true_iff.mp h
    rw [Bool.not_eq_true', isFractional, decide_eq_false_iff_not, not_not] at hinteger
    exact ⟨_, (Rat.coe_int_num_of_den_eq_one hinteger).symm, IntegerType.inRange_of_fits hfits⟩
  | fixedPoint t' =>
    simp only [isImplicitlyConvertibleTo, ht] at h
    exact holds_of_isConvertibleToFixedPoint h
  | fixedBytes t' =>
    simp only [isImplicitlyConvertibleTo, ht] at h
    rcases (Bool.or_eq_true_iff.mp h).imp of_decide_eq_true of_decide_eq_true with rfl | rfl
    · exact ⟨0, rfl, Nat.two_pow_pos _⟩
    · exact hc t' rfl
  | _ =>
    simp only [isImplicitlyConvertibleTo, ht] at h
    cases h

end ScalarType

end Polynomial
