import Polc.Codegen.ArrayUtils.Copying

/-!
# Elements of arrays

The words that stand for values in memory and calldata, what is loaded of them, and what the copy of
a single element leaves in the target.
-/

namespace Polynomial

open List Bool
open Sof (Word)
open Semantics ArrayUtils CompilerUtils

namespace ValueType

/-- The word at a place in memory or calldata stands for the value. In memory values are clean. Of an
external function the first 24 bytes count, of an internal function the last eight. -/
def IsLoaded (location : DataLocation) (t : ValueType) (v : ℤ) (w : Word) : Prop :=
  match t with
  | function f =>
    if f.isExternal then v = (w.toNat / 2 ^ 64 : ℕ) else v = (w.toNat % 2 ^ 64 : ℕ)
  | t => if location = .callData then t.valueOf w = v else w = t.cleanWord v

variable {s t : ValueType} {v : ℤ} {w : Word}

lemma implicit_self (ht : t.isValueType) :
    t.isImplicitlyConvertibleTo t := by
  cases t with
  | integer i =>
    change i.isImplicitlyConvertibleTo i = true
    unfold IntegerType.isImplicitlyConvertibleTo
    cases hsigned : i.isSigned <;> simp
  | fixedBytes b => exact decide_eq_true le_rfl
  | enum e => exact decide_eq_true rfl
  | function f =>
    change f.isImplicitlyConvertibleTo f = true
    unfold FunctionType.isImplicitlyConvertibleTo
    cases f.stateMutability <;> simp
  | address p => cases p <;> rfl
  | contract c =>
    simp [isImplicitlyConvertibleTo]
  | rationalNumber | stringLiteral => cases ht
  | _ => rfl

@[simp] lemma extend_self (t : ValueType) (v : ℤ) : t.extend t v = v := by
  cases t with
  | fixedBytes b =>
    change v * 256 ^ (b.numBytes - b.numBytes) = v
    rw [Nat.sub_self, pow_zero, Int.mul_one]
  | _ => rfl

@[simp] lemma losesSign_self (t : ValueType) (v : ℤ) : t.losesSign t v = false := by
  cases t with
  | integer i => simp [losesSign]
  | _ => rfl

/-! ### Contents -/

theorem toContent_ofContent (t : ValueType) {n : ℕ} (hn : n < 2 ^ (8 * t.storageBytes)) :
    t.toContent (t.ofContent n) = n := by
  have hplain : ∀ v : ℤ, v % (2 ^ (8 * t.storageBytes) : ℕ) = n % (2 ^ (8 * t.storageBytes) : ℕ) →
      t.toContent v = n := by
    intro v hv
    rw [toContent, hv, Int.emod_eq_of_lt (Int.natCast_nonneg n) (Int.ofNat_lt.mpr hn),
      Int.toNat_natCast]
  cases t with
  | integer i =>
    refine hplain _ ?_
    rw [integer_bits]
    exact i.wrap_modEq n
  | _ => exact hplain _ rfl

lemma storedContent_self (t : ValueType) {n : ℕ} (hn : n < 2 ^ (8 * t.storageBytes)) :
    t.storedContent t (t.ofContent n) = n := by
  rw [storedContent, losesSign_self, if_neg Bool.false_ne_true, extend_self, toContent_ofContent t hn]

lemma toContent_injective (hv : t.IsValue v) {n : ℕ} (hn : n < 2 ^ (8 * t.storageBytes)) :
    t.ofContent n = v ↔ n = t.toContent v := by
  constructor
  · rintro rfl
    exact (toContent_ofContent t hn).symm
  · rintro rfl
    exact ofContent_toContent hv

lemma isValue_zero (ht : t.isValueType) : t.IsValue 0 := by
  cases t with
  | integer i =>
    change i.minValue ≤ 0 ∧ 0 ≤ i.maxValue
    unfold IntegerType.minValue IntegerType.maxValue
    have hpow : ∀ k : ℕ, (0 : ℤ) < 2 ^ k := fun k => by positivity
    have := hpow (i.numBits - 1)
    have := hpow i.numBits
    split_ifs <;> omega
  | enum e => exact ⟨le_rfl, Int.natCast_pos.mpr e.valid.1⟩
  | bool => exact ⟨le_rfl, by norm_num⟩
  | rationalNumber | stringLiteral => cases ht
  | _ => exact ⟨le_rfl, Int.natCast_pos.mpr (Nat.two_pow_pos _)⟩

lemma ofContent_zero (t : ValueType) : t.ofContent 0 = 0 := by
  cases t with
  | integer i =>
    have hzero : (integer i).IsValue 0 := isValue_zero rfl
    exact IntegerType.wrap_of_inRange hzero
  | _ => rfl

lemma toContent_eq_zero_iff (hv : t.IsValue v) : t.toContent v = 0 ↔ v = 0 := by
  constructor
  · intro h
    rw [← ofContent_toContent hv, h, ofContent_zero]
  · rintro rfl
    exact toContent_zero t

lemma extend_eq_zero_iff (s t : ValueType) (v : ℤ) : s.extend t v = 0 ↔ v = 0 := by
  cases s <;> cases t
  case fixedBytes.fixedBytes b c =>
    have hpow : (256 : ℤ) ^ (c.numBytes - b.numBytes) ≠ 0 := by positivity
    exact (mul_eq_zero).trans (or_iff_left hpow)
  all_goals exact Iff.rfl

lemma storedContent_eq_zero_iff (h : Converts s t) (hv : s.IsValue v) :
    s.storedContent t v = 0 ↔ v = 0 := by
  unfold storedContent
  split_ifs
  · exact toContent_eq_zero_iff hv
  · rw [toContent_eq_zero_iff (h.isValue_extend hv), extend_eq_zero_iff]

lemma toContent_ne_of_losesSign (hv : s.IsValue v) (h : s.losesSign t v) :
    s.toContent v ≠ t.toContent v := by
  cases s with
  | integer i =>
    cases t with
    | integer j =>
      simp only [losesSign, and_eq_true, decide_eq_true_eq] at h
      obtain ⟨⟨hlt, -⟩, hneg⟩ := h
      have hmin : -2 ^ (i.numBits - 1) ≤ v := by
        have hmin := hv.1
        unfold IntegerType.minValue at hmin
        split_ifs at hmin with hsigned
        · exact hmin
        · omega
      have hi := i.valid
      obtain ⟨k, hk⟩ : ∃ k, i.numBits = k + 1 := ⟨i.numBits - 1, by omega⟩
      have hpow : (2 : ℤ) ^ (i.numBits + 1) ≤ 2 ^ j.numBits :=
        pow_le_pow_right₀ (by norm_num) hlt
      have hpos : (0 : ℤ) < 2 ^ k := by positivity
      rw [hk, Nat.add_sub_cancel] at hmin
      rw [hk, pow_succ, pow_succ] at hpow
      have hsource := Int.emod_lt_of_pos v
        (Int.natCast_pos.mpr (Nat.two_pow_pos i.numBits))
      have htarget : v % (2 ^ j.numBits : ℕ) = v + 2 ^ j.numBits := by
        rw [← Int.add_emod_right]
        push_cast
        exact Int.emod_eq_of_lt (by omega) (by omega)
      intro heq
      have hcast := congrArg (Nat.cast (R := ℤ)) heq
      rw [toContent_integer, toContent_integer, htarget] at hcast
      rw [hcast, hk] at hsource
      push_cast at hsource
      rw [pow_succ] at hsource
      omega
    | _ => cases h
  | _ => cases h

lemma storedContent_eq_iff (hv : s.IsValue v) :
    s.storedContent t v = t.toContent (s.extend t v) ↔ s.losesSign t v = false := by
  unfold storedContent
  cases h : s.losesSign t v with
  | false => simp
  | true =>
    have hextend : s.extend t v = v := by
      cases s <;> cases t <;> first | rfl | cases h
    rw [if_pos rfl, hextend]
    exact iff_of_false (toContent_ne_of_losesSign hv h) true_eq_false.mp

lemma storageBytes_le_of_losesSign (h : s.losesSign t v) :
    s.storageBytes ≤ t.storageBytes := by
  cases s with
  | integer i =>
    cases t with
    | integer j =>
      simp only [losesSign, and_eq_true, decide_eq_true_eq] at h
      exact Nat.div_le_div_right h.1.1.le
    | _ => cases h
  | _ => cases h

lemma storedContent_lt (s t : ValueType) (v : ℤ) :
    s.storedContent t v < 2 ^ (8 * t.storageBytes) := by
  unfold storedContent
  split_ifs with h
  · exact (toContent_lt s v).trans_le (Nat.pow_le_pow_right Nat.two_pos
      (Nat.mul_le_mul_left 8 (storageBytes_le_of_losesSign h)))
  · exact toContent_lt _ _

/-! ### Loading -/

variable {m : Machine} {location : DataLocation} {position : Word}

lemma exec_splitExternalFunctionType (hasBitwiseShifting : Bool) {f : FunctionType}
    (hexternal : f.isExternal) (w : Word) :
    ∃ ws, exec (splitExternalFunctionType hasBitwiseShifting true) [w] = .stack ws ∧
      (function f).OnStack (w.toNat / 2 ^ 64 : ℕ) ws ∧
      ∀ c, exec (splitExternalFunctionType hasBitwiseShifting true ++
        [.push (mask (8 * 24)), .operation .and] ++ c) [w] = exec c ws := by
  obtain ⟨address, haddress, hexec⟩ := exec_rightShiftNumber hasBitwiseShifting
    (show 64 + 32 < 256 by norm_num) w
  obtain ⟨selector, hselector, hexec'⟩ := exec_rightShiftNumber hasBitwiseShifting
    (show 64 < 256 by norm_num) w
  have hrun : ∀ c, exec (splitExternalFunctionType hasBitwiseShifting true ++ c) [w] =
      exec c [mask 32 &&& selector, address] := by
    intro c
    unfold splitExternalFunctionType
    simp only [if_true, cons_append, nil_append, append_assoc, exec_dup_zero, hexec,
      exec_swap_zero, hexec', exec_push, exec_and]
  have hmasked : (mask 32 &&& selector).toNat = w.toNat / 2 ^ 64 % 2 ^ 32 := by
    rw [toNat_and_mask (by norm_num), hselector]
  refine ⟨[mask 32 &&& selector, address], ?_, ?_, fun c => ?_⟩
  · rw [← append_nil (splitExternalFunctionType _ _), hrun, exec_nil]
  · have hw := w.isLt
    unfold OnStack
    simp only [hexternal, if_true, Represents]
    refine ⟨_, _, rfl, ?_⟩
    rw [hmasked, haddress]
    congr 1
    omega
  · have hsame : mask (8 * 24) &&& (mask 32 &&& selector) = mask 32 &&& selector := by
      apply BitVec.eq_of_toNat_eq
      rw [toNat_and_mask (by norm_num), hmasked]
      omega
    rw [append_assoc, hrun]
    simp only [cons_append, nil_append, exec_push, exec_and, hsame]

/-- What is loaded is the value. -/
theorem loadFromMemoryDynamic_eq (st : Storage) (ht : t.isValueType) (hv : t.IsValue v)
    (h : t.IsLoaded location v (m.load location position)) :
    ∃ ws, loadFromMemoryDynamic m t location position st = .ok ws st ∧ t.OnStack v ws ∧
      ∀ b, t = .fixedBytes b → ws = [t.cleanWord v] := by
  have hself := implicit_self ht
  have hconverts := converts_of_isImplicitly ht hself
  obtain ⟨code, hcode⟩ := StorageItem.exists_convertType m.hasBitwiseShifting hconverts
  have hplain : (∀ f, t ≠ function f) →
      (if location = .callData then t.valueOf (m.load location position) = v
        else m.load location position = t.cleanWord v) →
      ∃ ws, (if location = .callData then
          asRevert (execute ((convertType m.hasBitwiseShifting t t true).map (([] : Code) ++ ·))
            [m.load location position] st)
        else execute (some []) [m.load location position] st) = .ok ws st ∧
        ws = [t.cleanWord v] := by
    intro hf hloaded
    split_ifs at hloaded ⊢ with hlocation
    · have hrep : t.Represents v [m.load location position] := by
        cases hconverts with
        | function => exact absurd rfl (hf _)
        | _ => exact ⟨_, rfl, hloaded⟩
      have hrun := exec_convertType hcode hself hconverts hf hv hrep
      rw [extend_self] at hrun
      rw [hcode]
      refine ⟨_, ?_, rfl⟩
      exact congrArg asRevert (StorageItem.execute_of_exec hrun)
    · exact ⟨_, rfl, by rw [hloaded]⟩
  have honStack : (∀ f, t ≠ function f) → t.OnStack v [t.cleanWord v] := by
    intro hf
    have hvalue := valueOf_cleanWord ht hf hv
    cases t with
    | function f => exact absurd rfl (hf f)
    | rationalNumber | stringLiteral => cases ht
    | _ => exact ⟨_, rfl, hvalue⟩
  cases t with
  | function f =>
    unfold loadFromMemoryDynamic
    have hconvert : convertType m.hasBitwiseShifting (function f) (function f) true =
        some [.push (mask (8 * if f.isExternal then 24 else 8)), .operation .and] := by
      unfold convertType
      rw [if_neg (fun h => absurd h.2 true_eq_false.mp)]
      simp only
      rw [if_pos (show f.isImplicitlyConvertibleTo f = true from hself)]
      rfl
    unfold IsLoaded at h
    simp only at h
    simp only [hconvert, Option.map_some]
    cases hexternal : f.isExternal with
    | true =>
      obtain ⟨ws, hsplit, honstack, hrun⟩ :=
        exec_splitExternalFunctionType m.hasBitwiseShifting hexternal (m.load location position)
      have hrun := hrun []
      rw [append_nil, exec_nil] at hrun
      simp only [hexternal, if_true] at h ⊢
      refine ⟨ws, ?_, h ▸ honstack, nofun⟩
      split_ifs
      · exact congrArg asRevert (StorageItem.execute_of_exec hrun)
      · exact StorageItem.execute_of_exec hsplit
    | false =>
      have hrun : exec [.push (mask (8 * 8)), .operation .and] [m.load location position] =
          .stack [mask (8 * 8) &&& m.load location position] := by
        simp only [exec_push, exec_and, exec_nil]
      have honstack : ∀ w : Word, v = (w.toNat % 2 ^ 64 : ℕ) → (function f).OnStack v [w] := by
        intro w hw
        unfold OnStack
        simp only [hexternal, false_eq_true, if_false]
        exact ⟨w, rfl, hw⟩
      simp only [hexternal, false_eq_true, if_false] at h ⊢
      split_ifs
      · refine ⟨_, congrArg asRevert (StorageItem.execute_of_exec hrun), honstack _ ?_, nofun⟩
        rw [h, toNat_and_mask (by norm_num), Nat.mod_mod]
      · exact ⟨_, rfl, honstack _ h, nofun⟩
  | rationalNumber | stringLiteral => cases ht
  | fixedBytes b =>
    obtain ⟨ws, hload, rfl⟩ := hplain nofun h
    exact ⟨_, hload, honStack nofun, fun _ _ => rfl⟩
  | _ =>
    obtain ⟨ws, hload, rfl⟩ := hplain nofun h
    exact ⟨_, hload, honStack nofun, nofun⟩

/-- Types of storage that are different and convertible have only numbers of one width. -/
lemma isValue_ofContent (h : Converts s t) (hne : s ≠ t) (hsame : ∀ f, t = .function f → s = t)
    {n : ℕ} (hn : n < 2 ^ (8 * s.storageBytes)) : s.IsValue (s.ofContent n) := by
  have hplain : 0 ≤ (n : ℤ) ∧ (n : ℤ) < (2 ^ (8 * s.storageBytes) : ℕ) :=
    ⟨Int.natCast_nonneg n, Int.ofNat_lt.mpr hn⟩
  cases h with
  | integer => exact IntegerType.wrap_inRange _
  | bool | enum => exact absurd rfl hne
  | function h => exact absurd (hsame _ rfl) hne
  | _ => exact hplain

end ValueType

/-! ### Copies of single elements -/

namespace ArrayUtils

open ValueType

variable {m : Machine} {targetType sourceType : ArrayType} {location : DataLocation} {c : Cursor}
  {st : Storage} {v : ℤ} {i : ℕ}

lemma copiedType_of_not {type : ArrayType} (h : type.isByteArray = false) :
    type.copiedType = type.baseType := by
  rw [ArrayType.copiedType, h]
  exact if_neg Bool.false_ne_true

lemma copyElement_loaded (htarget : targetType.isByteArray = false)
    (hsource : sourceType.isByteArray = false) (hlocation : location ≠ .storage)
    (hconvertible : sourceType.baseType.isImplicitlyConvertibleTo targetType.baseType)
    (hsame : ∀ f, targetType.baseType = .function f → sourceType.baseType = targetType.baseType)
    (hv : sourceType.baseType.IsValue v)
    (hloaded : sourceType.baseType.IsLoaded location v (m.load location c.sourcePosition))
    (hoffset : c.targetByteOffset = offsetOf targetType.baseType i) :
    copyElement m targetType sourceType location c st =
      .ok () (Function.update st c.targetPosition ((targetType.baseType.packing.field i).set
        (st c.targetPosition) (sourceType.baseType.storedContent targetType.baseType v))) := by
  obtain ⟨ws, hload, honstack, hclean⟩ :=
    loadFromMemoryDynamic_eq st sourceType.isValueType hv hloaded
  have hdirect : directCopy targetType sourceType location = false := by
    rw [directCopy, decide_eq_false hlocation, Bool.false_and]
  unfold copyElement loadElement
  rw [hdirect, if_neg Bool.false_ne_true, if_neg hlocation, copiedType_of_not htarget,
    copiedType_of_not hsource, hload, Result.bind_ok]
  exact StorageItem.storeValue_eq hconvertible sourceType.isValueType hsame hv honstack
    (.inr hclean) (hoffset ▸ toNat_offsetOf _ i)

lemma copyElement_direct (htarget : targetType.isByteArray = false)
    (hsource : sourceType.isByteArray = false)
    (htype : sourceType.baseType = targetType.baseType) :
    copyElement m targetType sourceType .storage c st =
      .ok () (Function.update st c.targetPosition (st c.sourcePosition)) := by
  have hdirect : directCopy targetType sourceType .storage = true := by
    rw [directCopy, copiedType_of_not htarget, copiedType_of_not hsource, htype]
    simp
  unfold copyElement
  rw [hdirect, if_pos rfl]

lemma copyElement_stored (htarget : targetType.isByteArray = false)
    (hsource : sourceType.isByteArray = false)
    (htype : sourceType.baseType ≠ targetType.baseType)
    (hconvertible : sourceType.baseType.isImplicitlyConvertibleTo targetType.baseType)
    (hsame : ∀ f, targetType.baseType = .function f → sourceType.baseType = targetType.baseType)
    (hsourceOffset : c.sourceByteOffset = offsetOf sourceType.baseType i)
    (hoffset : c.targetByteOffset = offsetOf targetType.baseType i) :
    copyElement m targetType sourceType .storage c st =
      .ok () (Function.update st c.targetPosition ((targetType.baseType.packing.field i).set
        (st c.targetPosition) (sourceType.baseType.storedContent targetType.baseType
          (sourceType.baseType.ofContent
            ((sourceType.baseType.packing.field i).get (st c.sourcePosition)))))) := by
  have hconverts := converts_of_isImplicitly sourceType.isValueType hconvertible
  have hf : ∀ f, sourceType.baseType ≠ .function f := by
    intro f hf
    rw [hf] at hconverts htype hsame
    generalize targetType.baseType = t at hconverts htype hsame
    cases hconverts with
    | function h => exact htype (hsame _ rfl)
  obtain ⟨ws, hretrieve, hretrieved⟩ : ∃ ws,
      StorageItem.retrieveValue m sourceType.baseType c.sourcePosition c.sourceByteOffset st =
        .ok ws st ∧
      sourceType.baseType.Retrieved m (sourceType.baseType.ofContent
        ((sourceType.baseType.packing.field i).get (st c.sourcePosition))) ws :=
    StorageItem.retrieveValue_eq sourceType.isValueType (hsourceOffset ▸ toNat_offsetOf _ i)
  have hv : sourceType.baseType.IsValue (sourceType.baseType.ofContent
      ((sourceType.baseType.packing.field i).get (st c.sourcePosition))) :=
    isValue_ofContent hconverts htype hsame (Field.get_lt _ _)
  obtain ⟨honstack, hclean⟩ := onStack_of_retrieved sourceType.isValueType hf hv hretrieved
  have hdirect : directCopy targetType sourceType .storage = false := by
    rw [directCopy, copiedType_of_not htarget, copiedType_of_not hsource,
      decide_eq_false htype, Bool.and_false]
  unfold copyElement loadElement
  rw [hdirect, if_neg Bool.false_ne_true, if_pos rfl, copiedType_of_not htarget,
    copiedType_of_not hsource, hretrieve, Result.bind_ok]
  exact StorageItem.storeValue_eq hconvertible sourceType.isValueType hsame hv honstack
    (.inr fun _ _ => hclean) (hoffset ▸ toNat_offsetOf _ i)

end ArrayUtils

end Polynomial
