import Polc.Codegen.ExpressionCompiler.Operators

/-!
# What typing says about operands

The operands of an operator convert implicitly to the types that the code converts them to.
-/

namespace Polynomial

open ExpressionCompiler Option Bool

lemma IntegerType.implicit_self (t : IntegerType) :
    t.isImplicitlyConvertibleTo t := by
  unfold IntegerType.isImplicitlyConvertibleTo
  cases t.isSigned <;> simp

lemma FunctionType.implicit_self (t : FunctionType) :
    t.isImplicitlyConvertibleTo t := by
  unfold FunctionType.isImplicitlyConvertibleTo
  cases t.stateMutability <;> simp

lemma IntegerType.fits_of_implicit {s t : IntegerType}
    (h : s.isImplicitlyConvertibleTo t) {n : ℤ} (hn : s.fits n) :
    t.fits n := by
  have hrange := inRange_of_implicit h (inRange_of_fits hn)
  unfold fits
  rw [if_neg, decide_eq_true hrange]
  rintro ⟨hneg, hunsigned⟩
  have hmin := hrange.1
  rw [minValue, hunsigned, if_neg Bool.false_ne_true] at hmin
  omega

namespace ValueType

variable {op : BinaryOperator} {a b s t common : ValueType}

lemma isImplicitly_mobileType (h : s.mobileType = some t) : s.isImplicitlyConvertibleTo t := by
  cases s with
  | rationalNumber q c =>
    obtain ⟨i, hi, rfl⟩ := map_eq_some_iff.mp h
    obtain ⟨hf, htype⟩ := RationalNumberType.mobileType_eq_some hi
    simp only [isImplicitlyConvertibleTo, hf, Bool.not_false, Bool.true_and]
    exact RationalNumberType.fits_of_integerType htype
  | stringLiteral => cases h
  | integer s =>
    cases h
    exact s.implicit_self
  | function s =>
    cases h
    exact s.implicit_self
  | address payable =>
    cases h
    cases payable <;> rfl
  | _ =>
    cases h
    simp [isImplicitlyConvertibleTo]

lemma isImplicitly_commonType (h : commonType a b = some t) :
    a.isImplicitlyConvertibleTo t ∧ b.isImplicitlyConvertibleTo t := by
  unfold commonType at h
  split at h
  · rename_i t' ht'
    cases h
    obtain ⟨hmobile, hb⟩ := filter_eq_some_iff.mp ht'
    exact ⟨isImplicitly_mobileType hmobile, hb⟩
  · obtain ⟨hmobile, ha⟩ := filter_eq_some_iff.mp h
    exact ⟨ha, isImplicitly_mobileType hmobile⟩

lemma isImplicitly_trans {q : ℚ} {c : Option FixedBytesType} {i j : IntegerType}
    (h : (rationalNumber q c).isImplicitlyConvertibleTo (integer i))
    (hij : i.isImplicitlyConvertibleTo j) :
    (rationalNumber q c).isImplicitlyConvertibleTo (integer j) := by
  simp only [isImplicitlyConvertibleTo, and_eq_true] at h ⊢
  exact ⟨h.1, IntegerType.fits_of_implicit hij h.2⟩

/-- What the type checker guarantees for an operator that is executed. -/
structure OperandTypes (op : BinaryOperator) (leftType rightType common : ValueType) : Prop where
  left : leftType.isImplicitlyConvertibleTo common = true
  right : ∀ rightTarget, rightTargetType op common rightType = some rightTarget →
    rightType.isImplicitlyConvertibleTo rightTarget = true ∧
      (op.isShiftOp = true → ∃ i, rightTarget = integer i)
  applicable : Applicable op common

lemma rightTargetType_of_not_isShiftOp (h : op.isShiftOp = false) :
    rightTargetType op common b = some common := by
  rw [rightTargetType, if_neg (by simp [h])]

lemma right_of_isShiftOp (hop : op.isShiftOp) (h : isValidShiftAndAmountType op b)
    (t' : ValueType) (ht' : rightTargetType op common b = some t') :
    b.isImplicitlyConvertibleTo t' ∧ (op.isShiftOp → ∃ i, t' = integer i) := by
  rw [rightTargetType, if_pos hop] at ht'
  refine ⟨isImplicitly_mobileType ht', fun _ => ?_⟩
  cases b with
  | integer i =>
    cases ht'
    exact ⟨i, rfl⟩
  | rationalNumber q c =>
    obtain ⟨i, -, rfl⟩ := map_eq_some_iff.mp ht'
    exact ⟨i, rfl⟩
  | _ => cases op <;> cases h

lemma right_of_not_isShiftOp (hop : op.isShiftOp = false)
    (h : b.isImplicitlyConvertibleTo common) (t' : ValueType)
    (ht' : rightTargetType op common b = some t') :
    b.isImplicitlyConvertibleTo t' ∧ (op.isShiftOp → ∃ i, t' = integer i) := by
  rw [rightTargetType_of_not_isShiftOp hop] at ht'
  cases ht'
  refine ⟨h, fun h' => ?_⟩
  rw [hop] at h'
  cases h'

lemma applicable_integer {i : IntegerType} (h : op = .exp → i.isSigned = false) :
    Applicable op (integer i) := ⟨rfl, h, nofun, fun _ => rfl⟩

lemma operandTypes_integerOperatorResult {i : IntegerType}
    (h : integerOperatorResult op i b = some common) :
    OperandTypes op (integer i) b common ∧ ∃ j, common = integer j ∧
      i.isImplicitlyConvertibleTo j := by
  unfold integerOperatorResult at h
  split_ifs at h with hnumeric hshift hvalid
  · cases h
    exact ⟨⟨i.implicit_self, right_of_isShiftOp hshift hvalid,
      applicable_integer (by rintro rfl; cases hshift)⟩, i, rfl, i.implicit_self⟩
  · split at h
    · rename_i j hj
      split_ifs at h with hexp
      cases h
      obtain ⟨hi, hb⟩ := isImplicitly_commonType hj
      refine ⟨⟨hi, right_of_not_isShiftOp (by simpa using hshift) hb,
        applicable_integer fun hop => ?_⟩, j, rfl, hi⟩
      by_contra hsigned
      exact hexp ⟨hop, by simpa using hsigned⟩
    · cases h

lemma not_isShiftOp_of_isCompareOp (h : op.isCompareOp) : op.isShiftOp = false := by
  cases op <;> first | rfl | cases h

lemma operandTypes_commonType (hop : op.isCompareOp) (hcommon : commonType a b = some common)
    (hword : common.isWordType)
    (hfunction : common.isFunction → op = .equal ∨ op = .notEqual) :
    OperandTypes op a b common := by
  obtain ⟨ha, hb⟩ := isImplicitly_commonType hcommon
  refine ⟨ha, right_of_not_isShiftOp (not_isShiftOp_of_isCompareOp hop) hb,
    ⟨hword, ?_, hfunction, fun h => ?_⟩⟩
  · rintro rfl
    cases hop
  · rw [hop] at h
    cases h

lemma operandTypes_fixedBytes {i : FixedBytesType}
    (h : (fixedBytes i).binaryOperatorResult op b = some common) :
    OperandTypes op (fixedBytes i) b common := by
  have hshiftExp : op.isShiftOp = true → op = .exp → False := by
    rintro hshift rfl
    cases hshift
  unfold binaryOperatorResult at h
  dsimp only at h
  by_cases hshift : op.isShiftOp = true
  · rw [if_pos hshift] at h
    split_ifs at h with hvalid
    cases h
    exact ⟨of_decide_eq_true (decide_eq_true (by simp [isImplicitlyConvertibleTo])),
      right_of_isShiftOp hshift hvalid,
      ⟨rfl, fun hop => (hshiftExp hshift hop).elim, nofun, fun _ => rfl⟩⟩
  · rw [if_neg hshift] at h
    split at h
    · rename_i j hj
      split_ifs at h with hop
      cases h
      obtain ⟨hi, hb⟩ := isImplicitly_commonType hj
      exact ⟨hi, right_of_not_isShiftOp (by simpa using hshift) hb,
        ⟨rfl, fun _ => rfl, nofun, fun _ => rfl⟩⟩
    · cases h

/-- Operands of every operator that is not evaluated by the type checker. -/
theorem operandTypes_of_binaryOperatorResult (h : a.binaryOperatorResult op b = some common)
    (hcommon : ∀ q c, common ≠ rationalNumber q c) : OperandTypes op a b common := by
  cases a with
  | integer i => exact (operandTypes_integerOperatorResult h).1
  | fixedBytes i => exact operandTypes_fixedBytes h
  | rationalNumber q c =>
    cases b with
    | integer i =>
      unfold binaryOperatorResult at h
      dsimp only at h
      split at h
      · rename_i j hj
        obtain ⟨htypes, k, rfl, hjk⟩ := operandTypes_integerOperatorResult h
        exact ⟨isImplicitly_trans (isImplicitly_commonType hj).1 hjk, htypes.right,
          htypes.applicable⟩
      · cases h
    | rationalNumber r c' =>
      unfold binaryOperatorResult at h
      dsimp only at h
      split_ifs at h with hop
      · split at h
        · rename_i i j hi hj
          obtain ⟨htypes, k, rfl, hik⟩ := operandTypes_integerOperatorResult h
          have hshift := not_isShiftOp_of_isCompareOp hop
          obtain ⟨hjk, -⟩ := htypes.right _ (rightTargetType_of_not_isShiftOp hshift)
          have hq : (rationalNumber q c).mobileType = some (integer i) := by
            rw [mobileType, hi]
            rfl
          have hr : (rationalNumber r c').mobileType = some (integer j) := by
            rw [mobileType, hj]
            rfl
          exact ⟨isImplicitly_trans (isImplicitly_mobileType hq) hik,
            right_of_not_isShiftOp hshift (isImplicitly_trans (isImplicitly_mobileType hr) hjk),
            htypes.applicable⟩
        · cases h
      · obtain ⟨r, -, rfl⟩ := map_eq_some_iff.mp h
        exact absurd rfl (hcommon r none)
    | _ => cases h
  | bool =>
    cases b with
    | bool =>
      obtain ⟨hop, h⟩ := ite_none_right_eq_some.mp h
      cases h
      have hcompare : op.isCompareOp = true := by rcases hop with rfl | rfl <;> rfl
      refine ⟨rfl, right_of_not_isShiftOp (not_isShiftOp_of_isCompareOp hcompare) rfl,
        ⟨rfl, fun _ => rfl, (absurd · false_ne_true), fun h => ?_⟩⟩
      rw [hcompare] at h
      cases h
    | _ => cases h
  | function f =>
    cases b with
    | function g =>
      obtain ⟨⟨hop, hf, -⟩, h⟩ := ite_none_right_eq_some.mp h
      have hcompare : op.isCompareOp = true := by rcases hop with rfl | rfl <;> rfl
      obtain ⟨hleft, -⟩ := isImplicitly_commonType h
      cases common with
      | function k =>
        have hkind : f.isExternal = k.isExternal := by
          simp only [isImplicitlyConvertibleTo, FunctionType.isImplicitlyConvertibleTo,
            and_eq_true, decide_eq_true_eq] at hleft
          exact hleft.1.1
        refine operandTypes_commonType hcompare h ?_ fun _ => hop
        rw [isWordType, ← hkind]
        exact hf
      | _ => exact absurd hleft false_ne_true
    | _ => cases h
  | address payable =>
    obtain ⟨hop, h⟩ := ite_none_right_eq_some.mp h
    obtain ⟨hleft, -⟩ := isImplicitly_commonType h
    cases common with
    | address => exact operandTypes_commonType hop h rfl (absurd · false_ne_true)
    | _ => exact absurd hleft false_ne_true
  | contract i =>
    obtain ⟨hop, h⟩ := ite_none_right_eq_some.mp h
    obtain ⟨hleft, -⟩ := isImplicitly_commonType h
    cases common with
    | contract => exact operandTypes_commonType hop h rfl (absurd · false_ne_true)
    | _ => exact absurd hleft false_ne_true
  | enum i =>
    obtain ⟨hop, h⟩ := ite_none_right_eq_some.mp h
    obtain ⟨hleft, -⟩ := isImplicitly_commonType h
    cases common with
    | enum => exact operandTypes_commonType hop h rfl (absurd · false_ne_true)
    | _ => exact absurd hleft false_ne_true
  | stringLiteral => cases h

lemma not_rationalNumber_of_isCompareOp {q : ℚ} {c : Option FixedBytesType}
    (hop : op.isCompareOp) :
    a.binaryOperatorResult op b ≠ some (rationalNumber q c) := by
  intro h
  have hcommonType : ∀ {a b : ValueType}, commonType a b ≠ some (rationalNumber q c) := by
    intro a b h
    have himplicit := (isImplicitly_commonType h).1
    cases a <;> exact absurd himplicit false_ne_true
  cases a with
  | integer i =>
    obtain ⟨-, j, hj, -⟩ := operandTypes_integerOperatorResult h
    cases hj
  | fixedBytes i =>
    have hleft := (operandTypes_fixedBytes h).left
    exact absurd hleft false_ne_true
  | rationalNumber r c' =>
    unfold binaryOperatorResult at h
    cases b with
    | integer i =>
      dsimp only at h
      split at h
      · obtain ⟨-, j, hj, -⟩ := operandTypes_integerOperatorResult h
        cases hj
      · cases h
    | rationalNumber r' c'' =>
      dsimp only at h
      rw [if_pos hop] at h
      split at h
      · obtain ⟨-, j, hj, -⟩ := operandTypes_integerOperatorResult h
        cases hj
      · cases h
    | _ => cases h
  | bool =>
    cases b with
    | bool =>
      obtain ⟨-, h⟩ := ite_none_right_eq_some.mp h
      cases h
    | _ => cases h
  | function f =>
    cases b with
    | function g => exact hcommonType (ite_none_right_eq_some.mp h).2
    | _ => cases h
  | address | contract | enum => exact hcommonType (ite_none_right_eq_some.mp h).2
  | stringLiteral => cases h

variable {v : ℤ} {ws : List Sof.Word}

lemma operand_of_hasBits (ht : t.hasBits) (s : ValueType) (v : ℤ) :
    s.operand t v = s.convert t v := by
  unfold operand
  cases t with
  | integer | fixedBytes =>
    cases s.convert _ v
    · rfl
    · rfl
  | _ => cases ht

lemma convertType_operand {hasBitwiseShifting cleanupNeeded : Bool} {c : Code}
    (h : CompilerUtils.convertType hasBitwiseShifting s t cleanupNeeded = some c)
    (hst : s.isImplicitlyConvertibleTo t) (hword : t.isWordType)
    (hbits : cleanupNeeded = false → t.hasBits) (hv : s.Represents v ws) :
    Yields c ws (fun v ws => ∃ w, ws = [w] ∧ t.IsOperand cleanupNeeded v w) (s.operand t v) := by
  cases cleanupNeeded with
  | true =>
    refine (convertType_representsClean h hst hword hv).mono fun v ws hws => ?_
    obtain ⟨w, rfl, hw⟩ := hws
    exact ⟨w, rfl, hw.1, fun _ => hw⟩
  | false =>
    rw [operand_of_hasBits (hbits rfl)]
    refine (convertType_represents h (.inr (isImplicitly_isExplicitly hst)) hv).mono
      fun v ws hws => ?_
    obtain ⟨w, rfl, hw⟩ := (represents_iff hword).mp hws
    exact ⟨w, rfl, hw, nofun⟩

end ValueType

end Polynomial
