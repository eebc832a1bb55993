import Polc.Codegen.LValue.Slots
import Polc.Codegen.ExpressionCompiler.Conversions

/-!
# The values of storage items

The number that storage keeps of a value, what a store leaves there after an implicit conversion,
and that a value that is read again is the one that was stored.
-/

namespace Polynomial

open List BitVec IntegerType
open Sof (Word)
open Semantics CompilerUtils

namespace ValueType

/-- The values of a type. -/
def IsValue (t : ValueType) (v : ℤ) : Prop :=
  match t with
  | integer t => t.minValue ≤ v ∧ v ≤ t.maxValue
  | bool => 0 ≤ v ∧ v < 2
  | enum t => 0 ≤ v ∧ v < t.numberOfMembers
  | t => 0 ≤ v ∧ v < (2 ^ (8 * t.storageBytes) : ℕ)

/-- The number that storage keeps of a value. -/
def toContent (t : ValueType) (v : ℤ) : ℕ := (v % (2 ^ (8 * t.storageBytes) : ℕ)).toNat

/-- The value of a number in storage. -/
def ofContent (t : ValueType) (n : ℕ) : ℤ :=
  match t with
  | integer t => t.wrap n
  | _ => n

/-- The words on the stack for a value that can be stored. Of an internal function eight bytes
count. -/
def OnStack (t : ValueType) (v : ℤ) (ws : List Word) : Prop :=
  match t with
  | function f =>
    if f.isExternal then (function f).Represents v ws
    else ∃ w, ws = [w] ∧ v = (w.toNat % 2 ^ 64 : ℕ)
  | t => t.Represents v ws

/-- The value after an implicit conversion. -/
def extend (s t : ValueType) (v : ℤ) : ℤ :=
  match s, t with
  | fixedBytes s, fixedBytes t => v * 256 ^ (t.numBytes - s.numBytes)
  | _, _ => v

/-- A negative number is widened to a type that does not fill the slot: the bits that are chopped are
those of the narrower type. -/
def losesSign (s t : ValueType) (v : ℤ) : Bool :=
  match s, t with
  | integer s, integer t => s.numBits < t.numBits && t.numBits < 256 && decide (v < 0)
  | _, _ => false

/-- The number that a store leaves. -/
def storedContent (s t : ValueType) (v : ℤ) : ℕ :=
  if s.losesSign t v then s.toContent v else t.toContent (s.extend t v)

variable {s t : ValueType} {v : ℤ}

lemma toContent_lt (t : ValueType) (v : ℤ) : t.toContent v < 2 ^ (8 * t.storageBytes) := by
  have hpos : (0 : ℤ) < (2 ^ (8 * t.storageBytes) : ℕ) := Int.natCast_pos.mpr (Nat.two_pow_pos _)
  have hlt := Int.emod_lt_of_pos v hpos
  have := Int.emod_nonneg v hpos.ne'
  unfold toContent
  omega

lemma integer_bits (t : IntegerType) : 8 * (integer t).storageBytes = t.numBits := by
  have := t.valid
  unfold storageBytes
  simp only
  omega

lemma enum_le (t : EnumType) : t.numberOfMembers ≤ 2 ^ (8 * (enum t).storageBytes) := by
  unfold storageBytes
  simp only
  split_ifs with h
  · exact h.trans (by norm_num)
  · have := lt_pow_bytesRequired (t.numberOfMembers - 1)
    rw [Nat.mul_comm] at this
    omega

lemma bounds_of_isValue (h : t.IsValue v) (ht : t.isSigned = false) :
    0 ≤ v ∧ v < (2 ^ (8 * t.storageBytes) : ℕ) := by
  cases t with
  | integer t =>
    change t.isSigned = false at ht
    simp only [IsValue, IntegerType.minValue, IntegerType.maxValue, ht, Bool.false_eq_true,
      if_false] at h
    rw [integer_bits]
    push_cast
    omega
  | bool =>
    simp only [IsValue] at h
    refine ⟨h.1, h.2.trans ?_⟩
    simp [storageBytes]
  | enum t =>
    simp only [IsValue] at h
    have := enum_le t
    omega
  | _ => exact h

lemma toContent_of_nonneg (h : 0 ≤ v ∧ v < (2 ^ (8 * t.storageBytes) : ℕ)) :
    (t.toContent v : ℤ) = v := by
  rw [toContent, Int.emod_eq_of_lt h.1 h.2, Int.toNat_of_nonneg h.1]

theorem ofContent_toContent (h : t.IsValue v) : t.ofContent (t.toContent v) = v := by
  have hother : t.isSigned = false → (t.toContent v : ℤ) = v := fun ht =>
    toContent_of_nonneg (bounds_of_isValue h ht)
  cases t with
  | integer t =>
    have hnonneg : 0 ≤ v % (2 ^ t.numBits : ℕ) :=
      Int.emod_nonneg _ (Int.natCast_pos.mpr (Nat.two_pow_pos _)).ne'
    rw [ofContent, toContent, integer_bits, Int.toNat_of_nonneg hnonneg,
      wrap_congr (Int.mod_modEq _ _), wrap_of_inRange h]
  | _ => exact hother rfl

@[simp] lemma toContent_zero (t : ValueType) : t.toContent 0 = 0 := by
  rw [toContent, Int.zero_emod]
  rfl

/-! ### Implicit conversions -/

/-- The implicit conversions between types of variables. -/
inductive Converts : ValueType → ValueType → Prop
  | integer {i j : IntegerType} (h : i.isImplicitlyConvertibleTo j = true) :
      Converts (.integer i) (.integer j)
  | fixedBytes {b c : FixedBytesType} (h : b.numBytes ≤ c.numBytes) :
      Converts (.fixedBytes b) (.fixedBytes c)
  | bool : Converts .bool .bool
  | enum (e : EnumType) : Converts (.enum e) (.enum e)
  | address (payable payable' : Bool) : Converts (.address payable) (.address payable')
  | contract (c d : ContractType) : Converts (.contract c) (.contract d)
  | function {f g : FunctionType} (h : f.isImplicitlyConvertibleTo g = true) :
      Converts (.function f) (.function g)

lemma converts_of_isImplicitly (hs : s.isValueType)
    (hst : s.isImplicitlyConvertibleTo t) : Converts s t := by
  cases s with
  | integer i =>
    cases t with
    | integer j => exact .integer hst
    | _ => exact absurd hst Bool.false_ne_true
  | fixedBytes b =>
    cases t with
    | fixedBytes c => exact .fixedBytes (of_decide_eq_true hst)
    | _ => exact absurd hst Bool.false_ne_true
  | bool =>
    cases t with
    | bool => exact .bool
    | _ => exact absurd hst Bool.false_ne_true
  | enum e =>
    cases t with
    | enum e' =>
      obtain rfl := of_decide_eq_true hst
      exact .enum e
    | _ => exact absurd hst Bool.false_ne_true
  | address p =>
    cases t with
    | address p' => exact .address p p'
    | _ => exact absurd hst Bool.false_ne_true
  | contract c =>
    cases t with
    | contract d => exact .contract c d
    | _ => exact absurd hst Bool.false_ne_true
  | function f =>
    cases t with
    | function g => exact .function hst
    | _ => exact absurd hst Bool.false_ne_true
  | rationalNumber | stringLiteral => cases hs

lemma Converts.isExternal_eq {f g : FunctionType} (h : f.isImplicitlyConvertibleTo g) :
    f.isExternal = g.isExternal := by
  simp only [FunctionType.isImplicitlyConvertibleTo, Bool.and_eq_true, decide_eq_true_eq] at h
  exact h.1.1

lemma two_pow_bytes (t : FixedBytesType) :
    (2 ^ (8 * (fixedBytes t).storageBytes) : ℕ) = 256 ^ t.numBytes := by
  rw [Nat.pow_mul]
  rfl

lemma Converts.isValue_extend (h : Converts s t) (hv : s.IsValue v) :
    t.IsValue (s.extend t v) := by
  cases h with
  | integer h => exact inRange_of_implicit h hv
  | @fixedBytes b c h =>
    have hpos : (0 : ℤ) < 256 ^ (c.numBytes - b.numBytes) := by positivity
    have hpow : (256 : ℤ) ^ c.numBytes = 256 ^ b.numBytes * 256 ^ (c.numBytes - b.numBytes) := by
      rw [← pow_add]
      congr 1
      omega
    change 0 ≤ v ∧ v < _ at hv
    change 0 ≤ v * 256 ^ (c.numBytes - b.numBytes) ∧ v * 256 ^ (c.numBytes - b.numBytes) < _
    rw [two_pow_bytes] at hv ⊢
    push_cast at hv ⊢
    rw [hpow]
    exact ⟨Int.mul_nonneg hv.1 hpos.le, Int.mul_lt_mul_of_pos_right hv.2 hpos⟩
  | @function f g h =>
    have hbytes : (ValueType.function f).storageBytes = (ValueType.function g).storageBytes := by
      simp only [storageBytes, Converts.isExternal_eq h]
    change 0 ≤ v ∧ v < _ at hv
    rw [hbytes] at hv
    exact hv
  | _ => exact hv

lemma Converts.convert_eq (h : Converts s t) (hv : s.IsValue v) :
    s.convert t v = .ok (s.extend t v) := by
  have hvalue := h.isValue_extend hv
  cases h with
  | @integer i j h => exact congrArg Except.ok (wrap_of_inRange hvalue)
  | @fixedBytes b c h =>
    rw [convert, if_pos h]
    rfl
  | address p p' =>
    have hlt : v < 2 ^ 160 := hv.2
    exact congrArg Except.ok (Int.emod_eq_of_lt hv.1 hlt)
  | contract c d =>
    have hlt : v < 2 ^ 160 := hv.2
    exact congrArg Except.ok (Int.emod_eq_of_lt hv.1 hlt)
  | _ => rfl

section

variable {ws : List Word} {c : Code} {hasBitwiseShifting : Bool}

lemma operand_eq (h : Converts s t) (hv : s.IsValue v) :
    s.operand t v = .ok (s.extend t v) := by
  have hvalue := h.isValue_extend hv
  rw [operand, h.convert_eq hv]
  cases h with
  | enum e => exact if_pos hvalue
  | _ => rfl

lemma exec_convertType (hc : convertType hasBitwiseShifting s t true = some c)
    (hst : s.isImplicitlyConvertibleTo t) (hconverts : Converts s t)
    (hf : ∀ f, t ≠ function f) (hv : s.IsValue v) (hws : s.Represents v ws) :
    exec c ws = .stack [t.cleanWord (s.extend t v)] := by
  have hword : t.isWordType = true := by
    cases hconverts with
    | function h => exact absurd rfl (hf _)
    | _ => rfl
  have hyields := convertType_representsClean hc hst hword hws
  rw [operand_eq hconverts hv] at hyields
  obtain ⟨ws', ⟨w, rfl, -, hclean⟩, hexec⟩ := hyields
  have h := hexec []
  rw [append_nil, append_nil, hclean hf] at h
  exact h

lemma ofInt_of_nonneg (h : 0 ≤ v) : BitVec.ofInt 256 v = .ofNat 256 v.toNat := by
  rw [← BitVec.ofInt_natCast, Int.toNat_of_nonneg h]

lemma cleanWord_of_storageBytes (hconverts : Converts s t) (hv : s.IsValue v)
    (ht : t.storageBytes = 32) :
    t.cleanWord (s.extend t v) = .ofNat 256 (s.storedContent t v) := by
  have hvalue := hconverts.isValue_extend hv
  cases hconverts with
  | @integer i j h =>
    have hbits : j.numBits = 256 := by
      rw [← integer_bits, ht]
    have hloses : (integer i).losesSign (integer j) v = false := by
      simp [losesSign, hbits]
    rw [storedContent, hloses, if_neg Bool.false_ne_true]
    apply BitVec.eq_of_toNat_eq
    change (BitVec.ofInt 256 v).toNat = _
    rw [toNat_ofNat, Nat.mod_eq_of_lt, toContent, ht]
    · exact BitVec.toNat_ofInt v
    · have := toContent_lt (integer j) ((integer i).extend (integer j) v)
      rw [ht] at this
      exact this
  | @fixedBytes b c h =>
    have hbytes : c.numBytes = 32 := ht
    change BitVec.ofInt 256 (_ * 2 ^ (256 - c.numBytes * 8)) = _
    rw [hbytes, Nat.sub_self, pow_zero, mul_one, ofInt_of_nonneg hvalue.1, storedContent]
    congr 1
    have := toContent_of_nonneg (t := fixedBytes c) hvalue
    change _ = toContent _ _
    omega
  | enum e =>
    have := e.valid
    have hlt : bytesRequired (e.numberOfMembers - 1) ≤ 8 := by
      unfold bytesRequired
      split_ifs with h₀
      · omega
      · have := (Nat.log2_lt h₀ (k := 64)).mpr (by omega)
        omega
    unfold storageBytes at ht
    simp only at ht
    split_ifs at ht <;> omega
  | function h =>
    unfold storageBytes at ht
    simp only at ht
    split_ifs at ht <;> omega
  | _ => cases ht

/-! #### Parts of a slot -/

lemma exec_chopSignBits {i j : IntegerType} {w : Word} :
    exec (chopSignBits (integer i) (integer j)) [w] =
      .stack [if j.isSigned ∧ i.numBits < 256 then mask i.numBits &&& w else w] := by
  unfold chopSignBits
  simp only [asInteger]
  split_ifs
  · simp only [exec_push, exec_and, exec_nil]
  · rfl

lemma toContent_integer (i : IntegerType) (v : ℤ) :
    ((integer i).toContent v : ℤ) = v % (2 ^ i.numBits : ℕ) := by
  rw [toContent, integer_bits]
  exact Int.toNat_of_nonneg (Int.emod_nonneg _ (Int.natCast_pos.mpr (Nat.two_pow_pos _)).ne')

lemma numBits_le {i j : IntegerType} (h : i.isImplicitlyConvertibleTo j) :
    i.numBits ≤ j.numBits := by
  unfold IntegerType.isImplicitlyConvertibleTo at h
  split_ifs at h with hlt
  · omega
  · omega

lemma isSigned_of_isImplicitly {i j : IntegerType} (h : i.isImplicitlyConvertibleTo j)
    (hi : i.isSigned) : j.isSigned := by
  unfold IntegerType.isImplicitlyConvertibleTo at h
  rw [if_pos hi] at h
  split_ifs at h
  exact h

lemma toContent_eq_of_not_losesSign {i j : IntegerType}
    (h : i.isImplicitlyConvertibleTo j) (hv : (integer i).IsValue v)
    (hj : j.numBits < 256) (hloses : ¬ (integer i).losesSign (integer j) v) :
    (integer i).toContent v = (integer j).toContent v := by
  have hle := numBits_le h
  apply Int.natCast_inj.mp
  rw [toContent_integer, toContent_integer]
  by_cases hlt : i.numBits < j.numBits
  · have hnonneg : 0 ≤ v := by
      by_contra hneg
      apply hloses
      simp only [losesSign, Bool.and_eq_true, decide_eq_true_eq]
      exact ⟨⟨hlt, hj⟩, by omega⟩
    have hmax : v < (2 ^ i.numBits : ℕ) := by
      have hmax := hv.2
      unfold IntegerType.maxValue at hmax
      have hpow : (2 : ℤ) ^ (i.numBits - 1) ≤ 2 ^ i.numBits :=
        pow_le_pow_right₀ (by norm_num) (Nat.sub_le _ _)
      push_cast
      split_ifs at hmax <;> omega
    have hmono : (2 ^ i.numBits : ℕ) ≤ 2 ^ j.numBits := Nat.pow_le_pow_right Nat.two_pos hle
    rw [Int.emod_eq_of_lt hnonneg hmax, Int.emod_eq_of_lt hnonneg (by omega)]
  · rw [Nat.le_antisymm hle (Nat.le_of_not_lt hlt)]

lemma chopped_eq {i j : IntegerType} (h : i.isImplicitlyConvertibleTo j)
    (hv : (integer i).IsValue v) (hj : j.numBits < 256) :
    (if j.isSigned ∧ i.numBits < 256 then mask i.numBits &&& BitVec.ofInt 256 v
      else BitVec.ofInt 256 v) = .ofNat 256 ((integer i).storedContent (integer j) v) := by
  have hle := numBits_le h
  have hstored : (integer i).storedContent (integer j) v = (integer i).toContent v := by
    unfold storedContent
    split_ifs with hloses
    · rfl
    · exact (toContent_eq_of_not_losesSign h hv hj hloses).symm
  rw [hstored]
  split_ifs with hsigned
  · apply BitVec.eq_of_toNat_eq
    have hlt := toContent_lt (integer i) v
    rw [integer_bits] at hlt
    rw [toNat_and_mask (by omega), toNat_ofNat_of_lt
      (hlt.trans (Nat.pow_lt_pow_right Nat.one_lt_two (by omega)))]
    have hdvd : ((2 ^ i.numBits : ℕ) : ℤ) ∣ (2 ^ 256 : ℕ) :=
      Int.natCast_dvd_natCast.mpr (pow_dvd_pow 2 (by omega))
    apply Int.natCast_inj.mp
    rw [toContent_integer, Int.natCast_mod]
    exact (toNat_ofInt_modEq v).of_dvd hdvd
  · have hunsigned : i.isSigned = false := by
      by_contra hi
      exact hsigned ⟨isSigned_of_isImplicitly h (by simpa using hi), by omega⟩
    have hbounds := bounds_of_isValue hv hunsigned
    have := toContent_of_nonneg hbounds
    rw [ofInt_of_nonneg hbounds.1]
    congr 1
    omega

lemma exec_rightShift_fixedBytes {b c : FixedBytesType} (hle : b.numBytes ≤ c.numBytes) {w : Word}
    (hv : (fixedBytes b).valueOf w = v)
    (hclean : b = c ∨ w = (fixedBytes b).cleanWord v) :
    exec (rightShiftNumberOnStack hasBitwiseShifting (256 - 8 * c.numBytes)) [w] =
      .stack [.ofNat 256 ((fixedBytes b).storedContent (fixedBytes c) v)] := by
  have hvalue : (fixedBytes b).IsValue v := by
    have := b.two_pow_eq
    have hlt : w.toNat / 2 ^ b.padding < 2 ^ (b.numBytes * 8) := by
      rw [Nat.div_lt_iff_lt_mul (Nat.two_pow_pos _), this]
      exact w.isLt
    rw [← hv]
    change 0 ≤ ((w.toNat / 2 ^ b.padding : ℕ) : ℤ) ∧ ((w.toNat / 2 ^ b.padding : ℕ) : ℤ) < _
    rw [two_pow_bytes, b.two_pow_eq_pow]
    exact ⟨Int.natCast_nonneg _, Int.ofNat_lt.mpr hlt⟩
  have hextend := (Converts.fixedBytes hle).isValue_extend hvalue
  have hcontent := toContent_of_nonneg (t := fixedBytes c) hextend
  obtain ⟨w', hw', hexec⟩ := exec_rightShiftNumber hasBitwiseShifting c.padding_lt w
  have hexec := hexec [] []
  rw [append_nil, FixedBytesType.padding, Nat.mul_comm] at hexec
  rw [hexec, exec_nil]
  have hstored : (fixedBytes b).storedContent (fixedBytes c) v =
      (fixedBytes c).toContent ((fixedBytes b).extend (fixedBytes c) v) := rfl
  congr 2
  apply BitVec.eq_of_toNat_eq
  have hlt := toContent_lt (fixedBytes c) ((fixedBytes b).extend (fixedBytes c) v)
  rw [toNat_ofNat_of_lt (hstored ▸ hlt.trans_le (Nat.pow_le_pow_right Nat.two_pos (by
    have := c.valid; change 8 * c.numBytes ≤ 256; omega))), hw', hstored]
  apply Int.natCast_inj.mp
  rw [hcontent]
  rcases hclean with rfl | hclean
  · change _ = v * 256 ^ (b.numBytes - b.numBytes)
    rw [Nat.sub_self, pow_zero, mul_one, ← hv]
    rfl
  · have hw : (w.toNat : ℤ) = v * 2 ^ b.padding := by
      have hpos : (0 : ℤ) ≤ v * 2 ^ b.padding := Int.mul_nonneg hvalue.1 (by positivity)
      have hlt : v * 2 ^ b.padding < (2 ^ 256 : ℕ) := by
        rw [← b.two_pow_eq]
        push_cast
        have hlt := hvalue.2
        rw [two_pow_bytes, b.two_pow_eq_pow] at hlt
        push_cast at hlt
        exact Int.mul_lt_mul_of_pos_right hlt (by positivity)
      have hofInt : w = .ofInt 256 (v * 2 ^ b.padding) := hclean
      rw [hofInt, BitVec.toNat_ofInt, Int.emod_eq_of_lt hpos hlt, Int.toNat_of_nonneg hpos]
    have hpad : b.padding = c.padding + 8 * (c.numBytes - b.numBytes) := by
      have := b.valid
      have := c.valid
      unfold FixedBytesType.padding
      omega
    change ((w.toNat / 2 ^ c.padding : ℕ) : ℤ) = v * 256 ^ (c.numBytes - b.numBytes)
    push_cast
    rw [hw, hpad, pow_add, pow_mul, mul_comm ((2 : ℤ) ^ c.padding), ← mul_assoc,
      Int.mul_ediv_cancel _ (by positivity)]
    norm_num

lemma storedContent_function (f g : FunctionType) (v : ℤ) :
    (function f).storedContent (function g) v = (function g).toContent v := rfl

lemma exec_storeCode_function (hasBitwiseShifting : Bool) {f : FunctionType} (hws : (function f).OnStack v ws) :
    exec (if f.isExternal then combineExternalFunctionType hasBitwiseShifting false
      else [.push (mask (8 * (function f).storageBytes)), .operation .and]) ws =
      .stack [.ofNat 256 ((function f).storedContent (function f) v)] := by
  unfold OnStack at hws
  simp only at hws
  split_ifs at hws ⊢ with hexternal
  · simp only [Represents, hexternal, if_true] at hws
    obtain ⟨selector, address, rfl, rfl⟩ := hws
    obtain ⟨w, hw, hexec⟩ := exec_leftShiftNumber hasBitwiseShifting
      (show 32 < 256 by norm_num) (mask 160 &&& address)
    have hrun : exec (combineExternalFunctionType hasBitwiseShifting false) [selector, address] =
        .stack [w ||| mask 32 &&& selector] := by
      unfold combineExternalFunctionType
      simp only [Bool.false_eq_true, if_false, List.cons_append, nil_append, append_nil,
        exec_push, exec_and, exec_swap_zero, hexec]
      rfl
    have hcontent := toContent_lt (function f)
      (address.toNat % 2 ^ 160 * 2 ^ 32 + selector.toNat % 2 ^ 32 : ℕ)
    have haddress : address.toNat % 2 ^ 160 < 2 ^ 160 := Nat.mod_lt _ (Nat.two_pow_pos _)
    have hselector : selector.toNat % 2 ^ 32 < 2 ^ 32 := Nat.mod_lt _ (Nat.two_pow_pos _)
    have hstored : (function f).storedContent (function f)
        (address.toNat % 2 ^ 160 * 2 ^ 32 + selector.toNat % 2 ^ 32 : ℕ) =
        address.toNat % 2 ^ 160 * 2 ^ 32 + selector.toNat % 2 ^ 32 := by
      rw [storedContent_function]
      apply Int.natCast_inj.mp
      apply toContent_of_nonneg
      refine ⟨Int.natCast_nonneg _, Int.ofNat_lt.mpr ?_⟩
      simp only [storageBytes, hexternal, if_true]
      omega
    rw [hrun, hstored]
    congr 2
    apply BitVec.eq_of_toNat_eq
    rw [toNat_or, hw, toNat_and_mask (by norm_num), toNat_and_mask (by norm_num),
      toNat_ofNat_of_lt (by omega), Nat.mod_eq_of_lt (by omega), Nat.mul_comm,
      Nat.two_pow_add_eq_or_of_lt hselector]
  · obtain ⟨w, rfl, rfl⟩ := hws
    have hbytes : 8 * (function f).storageBytes = 64 := by
      simp [storageBytes, hexternal]
    have hlt : w.toNat % 2 ^ 64 < 2 ^ 64 := Nat.mod_lt _ (Nat.two_pow_pos _)
    have hstored : (function f).storedContent (function f) (w.toNat % 2 ^ 64 : ℕ) =
        w.toNat % 2 ^ 64 := by
      rw [storedContent_function]
      apply Int.natCast_inj.mp
      apply toContent_of_nonneg
      rw [hbytes]
      exact ⟨Int.natCast_nonneg _, Int.ofNat_lt.mpr hlt⟩
    rw [hstored, hbytes]
    simp only [exec_push, exec_and, exec_nil]
    congr 2
    apply BitVec.eq_of_toNat_eq
    rw [toNat_and_mask (by norm_num), toNat_ofNat_of_lt (by omega)]

end

end ValueType

namespace StorageItem

open ValueType

variable {m : Machine} {s t : ValueType} {v : ℤ} {ws : List Word} {st : Storage} {key offset : Word}
  {i : ℕ}

lemma execute_of_exec {c : Code} (h : exec c ws = .stack ws') :
    execute (some c) ws st = .ok ws' st := by
  simp only [execute, Option.map_some, h]

lemma exists_convertType (hasBitwiseShifting : Bool) (h : Converts s t) :
    ∃ c, convertType hasBitwiseShifting s t true = some c := by
  unfold convertType
  rw [if_neg (fun h => absurd h.2 Bool.true_eq_false.mp)]
  cases h with
  | enum e => exact ⟨_, if_pos rfl⟩
  | function h => exact ⟨_, if_pos h⟩
  | _ => exact ⟨_, rfl⟩

lemma execute_storeCode (hst : s.isImplicitlyConvertibleTo t) (hconverts : Converts s t)
    (hsame : ∀ f, t = .function f → s = t) (ht : t.storageBytes ≠ 32) (hv : s.IsValue v)
    (hws : s.OnStack v ws)
    (hclean : s = t ∨ ∀ b, s = .fixedBytes b → ws = [s.cleanWord v]) :
    execute (storeCode m t s) ws st = .ok [.ofNat 256 (s.storedContent t v)] st := by
  obtain ⟨c, hc⟩ := exists_convertType m.hasBitwiseShifting hconverts
  have hword : (∀ f, t ≠ .function f) → s.Represents v ws →
      exec c ws = .stack [t.cleanWord (s.extend t v)] := fun hf hws =>
    exec_convertType hc hst hconverts hf hv hws
  have hvalue := hconverts.isValue_extend hv
  -- the types whose values are small numbers on the stack
  have hplain : (∀ f, t ≠ .function f) → s.Represents v ws → t.isSigned = false →
      storeCode m t s = some (c ++ []) →
      t.cleanWord (s.extend t v) = .ofInt 256 (s.extend t v) →
      s.storedContent t v = t.toContent (s.extend t v) →
      execute (storeCode m t s) ws st = .ok [.ofNat 256 (s.storedContent t v)] st := by
    intro hf hws hsigned hcode hclean hstored
    have hbounds := bounds_of_isValue hvalue hsigned
    have hcontent := toContent_of_nonneg hbounds
    have hrun := hword hf hws
    rw [hclean, ofInt_of_nonneg hbounds.1,
      show (s.extend t v).toNat = s.storedContent t v by omega] at hrun
    rw [hcode, append_nil]
    exact execute_of_exec hrun
  cases hconverts with
  | @integer i j h =>
    have hj : j.numBits < 256 := by
      have := j.valid
      have := integer_bits j
      omega
    have hrun : exec (c ++ chopSignBits (.integer i) (.integer j)) ws =
        .stack [.ofNat 256 ((integer i).storedContent (integer j) v)] := by
      rw [exec_append_of_stack (hword nofun hws), ← chopped_eq h hv hj]
      exact exec_chopSignBits
    have hcode : storeCode m (.integer j) (.integer i) =
        some (c ++ chopSignBits (.integer i) (.integer j)) :=
      congrArg (Option.map (· ++ chopSignBits (.integer i) (.integer j))) hc
    rw [hcode]
    exact execute_of_exec hrun
  | @fixedBytes b b' h =>
    obtain ⟨w, rfl, hw⟩ := hws
    refine execute_of_exec (exec_rightShift_fixedBytes h hw ?_)
    rcases hclean with heq | hclean
    · left
      cases heq
      rfl
    · right
      have := hclean b rfl
      simpa using this
  | function h =>
    cases hsame _ rfl
    have hrun := exec_storeCode_function m.hasBitwiseShifting hws
    rw [storeCode]
    simp only [if_true]
    exact execute_of_exec hrun
  | bool => exact hplain nofun hws rfl (congrArg (Option.map (· ++ [])) hc) rfl rfl
  | enum e => exact hplain nofun hws rfl (congrArg (Option.map (· ++ [])) hc) rfl rfl
  | address p p' => exact hplain nofun hws rfl (congrArg (Option.map (· ++ [])) hc) rfl rfl
  | contract d d' => exact hplain nofun hws rfl (congrArg (Option.map (· ++ [])) hc) rfl rfl

lemma not_function_of_storageBytes (ht : t.storageBytes = 32) : ∀ f, t ≠ .function f := by
  rintro f rfl
  unfold storageBytes at ht
  simp only at ht
  split_ifs at ht <;> omega

lemma storeValue_partAt (m : Machine) (st : Storage) (key : Word)
    (hst : s.isImplicitlyConvertibleTo t) (hs : s.isValueType)
    (hsame : ∀ f, t = .function f → s = t) (hv : s.IsValue v) (hws : s.OnStack v ws)
    (hclean : t.storageBytes = 32 ∨ s = t ∨ ∀ b, s = .fixedBytes b → ws = [s.cleanWord v])
    (hoffset : offset.toNat + t.storageBytes ≤ 32) :
    storeValue m t s ws key offset st = .ok () (Function.update st key
      ((t.partAt offset).set (st key) (s.storedContent t v))) := by
  have hconverts := converts_of_isImplicitly hs hst
  unfold storeValue
  by_cases ht : t.storageBytes = 32
  · obtain ⟨c, hc⟩ := exists_convertType m.hasBitwiseShifting hconverts
    have hf := not_function_of_storageBytes ht
    have hrep : s.Represents v ws := by
      cases hconverts with
      | function h => exact absurd rfl (hf _)
      | _ => exact hws
    have hrun := exec_convertType hc hst hconverts hf hv hrep
    rw [if_pos ht, hc, execute_of_exec hrun, set_partAt_of_storageBytes ht hoffset,
      ← cleanWord_of_storageBytes hconverts hv ht]
    rfl
  · rw [if_neg ht, execute_storeCode hst hconverts hsame ht hv hws (hclean.resolve_left ht)]
    simp only [Result.bind_ok]
    rw [updatedValue_eq t offset _ rfl]

/-- Storing a value sets a field of the slot. -/
theorem storeValue_eq (hst : s.isImplicitlyConvertibleTo t) (hs : s.isValueType)
    (hsame : ∀ f, t = .function f → s = t) (hv : s.IsValue v) (hws : s.OnStack v ws)
    (hclean : s = t ∨ ∀ b, s = .fixedBytes b → ws = [s.cleanWord v])
    (hoffset : offset.toNat = t.storageBytes * (i % t.packing.count)) :
    storeValue m t s ws key offset st = .ok () (Function.update st key
      ((t.packing.field i).set (st key) (s.storedContent t v))) := by
  rw [storeValue_partAt m st key hst hs hsame hv hws (.inr hclean) (offset_add_storageBytes_le hoffset),
    field_packing hoffset]

end StorageItem

/-! ### Retrieving -/

/-- The words that a value in storage is retrieved as. An internal function that is zero may be
replaced by the one that stops. -/
def ValueType.Retrieved (m : Machine) (t : ValueType) (v : ℤ) (ws : List Word) : Prop :=
  match t with
  | .function f =>
    if f.isExternal then
      ws = [.ofNat 256 (v.toNat % 2 ^ 32), .ofNat 256 (v.toNat / 2 ^ 32 % 2 ^ 160)]
    else ∃ w, ws = [w] ∧ (w = .ofInt 256 v ∨ v = 0 ∧ w = mask 64 &&& m.invalidFunction)
  | t => ws = [t.cleanWord v]

namespace StorageItem

open ValueType

variable {m : Machine} {t : ValueType} {st : Storage} {key offset : Word} {i : ℕ}

lemma exec_mask {bits : ℕ} (h : bits ≤ 256) (w : Word) :
    exec [.push (mask bits), .operation .and] [w] =
      .stack [.ofInt 256 (w.toNat % 2 ^ bits : ℕ)] := by
  simp only [exec_push, exec_and, exec_nil]
  congr 2
  apply BitVec.eq_of_toNat_eq
  rw [toNat_and_mask h, BitVec.ofInt_natCast, toNat_ofNat_of_lt
    ((Nat.mod_le _ _).trans_lt w.isLt)]

lemma ofInt_wrap_of_numBits {j : IntegerType} (h : j.numBits = 256) (w : Word) :
    BitVec.ofInt 256 (j.wrap w.toNat) = w := by
  have hrun := exec_cleanHigherBits j [] w []
  rw [cleanHigherOrderBits, if_pos h] at hrun
  simp only [append_nil, exec_nil, Outcome.stack.injEq, List.cons.injEq, and_true] at hrun
  exact hrun.symm

lemma retrieved_of_storageBytes (ht : t.isValueType) (hbytes : t.storageBytes = 32)
    (w : Word) : t.Retrieved m (t.ofContent w.toNat) [w] := by
  cases t with
  | integer j =>
    have hbits : j.numBits = 256 := by
      rw [← integer_bits, hbytes]
    change [w] = [.ofInt 256 (j.wrap w.toNat)]
    rw [ofInt_wrap_of_numBits hbits]
  | fixedBytes b =>
    have hb : b.numBytes = 32 := hbytes
    change [w] = [.ofInt 256 ((w.toNat : ℤ) * 2 ^ (256 - b.numBytes * 8))]
    rw [hb, Nat.sub_self, pow_zero, mul_one, ofInt_toNat]
  | enum e =>
    change [w] = [.ofInt 256 (w.toNat : ℤ)]
    rw [ofInt_toNat]
  | function f =>
    unfold storageBytes at hbytes
    simp only at hbytes
    split_ifs at hbytes <;> omega
  | rationalNumber | stringLiteral => cases ht
  | _ => cases hbytes

lemma retrieved_of_part (ht : t.isValueType) (hbytes : t.storageBytes ≠ 32) (w : Word) :
    ∃ ws, exec (retrieveCode m t) [w] = .stack ws ∧
      t.Retrieved m (t.ofContent (w.toNat % 2 ^ (8 * t.storageBytes))) ws := by
  have hle := t.storageBytes_bounds
  have hplain := exec_mask (show 8 * t.storageBytes ≤ 256 by omega) w
  cases t with
  | integer j =>
    have hbits := integer_bits j
    have hcode : retrieveCode m (integer j) = cleanHigherOrderBits j := by
      unfold retrieveCode cleanHigherOrderBits
      simp only
      rw [hbits, if_neg (show ¬ j.numBits = 256 by omega)]
      rfl
    refine ⟨_, ?_, rfl⟩
    rw [hcode, ← append_nil (cleanHigherOrderBits j), exec_cleanHigherBits, exec_nil]
    congr 3
    change j.wrap w.toNat = j.wrap (w.toNat % 2 ^ (8 * (integer j).storageBytes) : ℕ)
    rw [hbits]
    refine wrap_congr ?_
    push_cast
    exact (Int.mod_modEq _ _).symm
  | fixedBytes b =>
    obtain ⟨w', hw', hexec⟩ := exec_leftShiftNumber m.hasBitwiseShifting b.padding_lt w
    have hexec := hexec [] []
    rw [append_nil, FixedBytesType.padding, Nat.mul_comm] at hexec
    have hclean := (isClean_of_leftShift hw').2 (by rintro _ ⟨⟩)
    refine ⟨_, hexec, ?_⟩
    rw [hclean, Nat.mul_comm]
    rfl
  | function f =>
    unfold retrieveCode Retrieved
    simp only [ofContent]
    split_ifs with hexternal
    · obtain ⟨w', hw', hexec⟩ := exec_rightShiftNumber m.hasBitwiseShifting
        (show 32 < 256 by norm_num) w
      refine ⟨[mask 32 &&& w, mask 160 &&& w'], ?_, ?_⟩
      · unfold splitExternalFunctionType
        simp only [Bool.false_eq_true, if_false, List.cons_append, nil_append,
          List.append_assoc, exec_dup_zero, hexec, exec_push, exec_and, exec_swap_zero, exec_nil]
      · have hbits : 8 * (function f).storageBytes = 192 := by
          simp [storageBytes, hexternal]
        rw [hbits, Int.toNat_natCast]
        refine congrArg₂ (fun a b => [a, b]) ?_ ?_
        · apply BitVec.eq_of_toNat_eq
          rw [toNat_and_mask (by norm_num), toNat_ofNat_of_lt (by omega)]
          omega
        · apply BitVec.eq_of_toNat_eq
          rw [toNat_and_mask (by norm_num), hw', toNat_ofNat_of_lt (by omega)]
          omega
    · have hbits : 8 * (function f).storageBytes = 64 := by
        simp [storageBytes, hexternal]
      have hrun : exec [.operation (.dup 0), .operation .iszero, .push m.invalidFunction,
          .operation .mul, .operation .or, .push (mask 64), .operation .and] [w] =
          .stack [mask 64 &&& (m.invalidFunction * .ofBool (w = 0) ||| w)] := by
        simp only [exec_dup_zero, exec_iszero, exec_push, exec_mul, exec_or, exec_and, exec_nil]
      rw [hbits]
      refine ⟨_, hrun, _, rfl, ?_⟩
      by_cases hw : w = 0
      · right
        subst hw
        refine ⟨rfl, ?_⟩
        simp [Sof.Word.ofBool]
      · left
        have hzero : Sof.Word.ofBool (decide (w = 0)) = 0#256 := by
          rw [decide_eq_false hw]
          rfl
        rw [hzero, BitVec.mul_zero, zero_or]
        apply BitVec.eq_of_toNat_eq
        rw [BitVec.ofInt_natCast, toNat_and_mask (by norm_num), toNat_ofNat_of_lt (by omega)]
  | rationalNumber | stringLiteral => cases ht
  | _ => exact ⟨_, hplain, rfl⟩

lemma retrieveValue_partAt (m : Machine) (st : Storage) (key : Word) (ht : t.isValueType)
    (hoffset : offset.toNat + t.storageBytes ≤ 32) :
    ∃ ws, retrieveValue m t key offset st = .ok ws st ∧
      t.Retrieved m (t.ofContent ((t.partAt offset).get (st key))) ws := by
  unfold retrieveValue
  by_cases hbytes : t.storageBytes = 32
  · rw [if_pos hbytes]
    refine ⟨_, rfl, ?_⟩
    have hget : (t.partAt offset).get (st key) = (st key).toNat := by
      change (st key).toNat / 2 ^ (8 * offset.toNat) % 2 ^ (8 * t.storageBytes) = _
      rw [hbytes, show 8 * offset.toNat = 0 by omega, pow_zero, Nat.div_one,
        Nat.mod_eq_of_lt (st key).isLt]
    rw [hget]
    exact retrieved_of_storageBytes ht hbytes _
  · rw [if_neg hbytes]
    obtain ⟨ws, hrun, hws⟩ := retrieved_of_part (m := m) ht hbytes
      (st key / multiplier offset)
    rw [toNat_div_multiplier hoffset] at hws
    exact ⟨ws, execute_of_exec hrun, hws⟩

/-- Retrieving gives the value in a field of the slot. -/
theorem retrieveValue_eq (ht : t.isValueType)
    (hoffset : offset.toNat = t.storageBytes * (i % t.packing.count)) :
    ∃ ws, retrieveValue m t key offset st = .ok ws st ∧
      t.Retrieved m (t.ofContent ((t.packing.field i).get (st key))) ws := by
  rw [field_packing hoffset]
  exact retrieveValue_partAt m st key ht (offset_add_storageBytes_le hoffset)

end StorageItem

namespace ValueType

variable {m : Machine} {t : ValueType} {v : ℤ} {ws : List Word}

lemma cleanWord_eq_ofNat (hv : 0 ≤ v) (ht : t.cleanWord v = .ofInt 256 v) (hlt : v < 2 ^ 256) :
    (t.cleanWord v).toNat = v.toNat := by
  rw [ht, ofInt_of_nonneg hv, toNat_ofNat_of_lt (by omega)]

lemma valueOf_cleanWord (ht : t.isValueType) (hf : ∀ f, t ≠ function f)
    (hv : t.IsValue v) : t.valueOf (t.cleanWord v) = v := by
  cases t with
  | integer j =>
    change j.wrap (BitVec.ofInt 256 v).toNat = v
    rw [wrap_toNat_ofInt, wrap_of_inRange hv]
  | fixedBytes b =>
    have hlt : v * 2 ^ b.padding < (2 ^ 256 : ℕ) := by
      rw [← b.two_pow_eq]
      push_cast
      have hlt := hv.2
      rw [two_pow_bytes, b.two_pow_eq_pow] at hlt
      push_cast at hlt
      exact Int.mul_lt_mul_of_pos_right hlt (by positivity)
    have hpos : (0 : ℤ) ≤ v * 2 ^ b.padding := Int.mul_nonneg hv.1 (by positivity)
    change (((BitVec.ofInt 256 (v * 2 ^ b.padding)).toNat / 2 ^ b.padding : ℕ) : ℤ) = v
    rw [BitVec.toNat_ofInt, Int.emod_eq_of_lt hpos hlt]
    push_cast
    rw [Int.toNat_of_nonneg hpos, Int.mul_ediv_cancel _ (by positivity)]
  | bool =>
    have hv : 0 ≤ v ∧ v < 2 := hv
    rcases (by omega : v = 0 ∨ v = 1) with rfl | rfl <;> rfl
  | enum e =>
    have hv : 0 ≤ v ∧ v < e.numberOfMembers := hv
    have := e.valid
    change ((cleanWord (enum e) v).toNat : ℤ) = v
    rw [cleanWord_eq_ofNat hv.1 rfl (by omega)]
    omega
  | address | contract =>
    have hv : 0 ≤ v ∧ v < 2 ^ 160 := hv
    change ((BitVec.ofInt 256 v).toNat % 2 ^ 160 : ℕ) = v
    rw [ofInt_of_nonneg hv.1, toNat_ofNat_of_lt (by omega)]
    omega
  | function f => exact absurd rfl (hf f)
  | rationalNumber | stringLiteral => cases ht

lemma onStack_of_retrieved (ht : t.isValueType) (hf : ∀ f, t ≠ function f)
    (hv : t.IsValue v) (h : t.Retrieved m v ws) : t.OnStack v ws ∧ ws = [t.cleanWord v] := by
  have hvalue := valueOf_cleanWord ht hf hv
  cases t with
  | function f => exact absurd rfl (hf f)
  | rationalNumber | stringLiteral => cases ht
  | _ => exact ⟨⟨_, h, hvalue⟩, h⟩

end ValueType

end Polynomial
