import Polc.Codegen.ExpressionCompiler.Frame
import Polc.Codegen.ExpressionCompiler.Typing

/-!
# Compiled expressions represent their values

Whatever the bits outside the widths of the variables are, the code of an expression leaves a
representation of its value and of the variables after it, or stops where the expression does.
-/

namespace Polynomial

open List Option ValueType IntegerType Bool
open Sof (Word)
open ExpressionCompiler CompilerUtils Expression

variable {setting : Setting} {Γ : LocalVariables}

variable {q : ℚ}

lemma literalValue_eq_some {w : Word} (h : RationalNumberType.literalValue q = some w) :
    w = .ofInt 256 q.num := by
  unfold RationalNumberType.literalValue at h
  split_ifs at h
  cases h
  rfl

variable {c : Option FixedBytesType}

lemma runs_constant {code : Code}
    (h : (RationalNumberType.literalValue q).map (fun w => [Item.push w]) = some code) {σ : Store}
    {temps frame : List Word} (hholds : Γ.Holds σ frame) :
    Runs Γ (ValueType.rationalNumber q c).Represents code temps temps frame (.ok (q.num, σ)) := by
  obtain ⟨w, hw, rfl⟩ := map_eq_some_iff.mp h
  exact ⟨[w], frame, rfl, ⟨rfl, by rw [literalValue_eq_some hw]⟩, hholds, rfl⟩

variable {e r : Expression}

lemma eval_of_rationalNumber (h : typeOf Γ e = some (.rationalNumber q c)) (σ : Store) :
    Expression.eval Γ e σ = .ok (q.num, σ) := by
  cases e with
  | identifier o =>
    have := Γ.isValueType o _ h
    cases this
  | numberLiteral r c' =>
    cases h
    rfl
  | typeConversion t e =>
    obtain ⟨ht, h⟩ := ite_none_right_eq_some.mp h
    obtain ⟨a, -, h⟩ := bind_eq_some_iff.mp h
    obtain ⟨-, h⟩ := ite_none_right_eq_some.mp h
    cases t <;> first | exact (false_ne_true ht).elim | exact nomatch h
  | unaryOperation op e =>
    rw [Expression.eval, h]
  | countOperation inc pre o =>
    obtain ⟨-, h⟩ := filter_eq_some_iff.mp h
    cases h
  | binaryOperation op l r =>
    unfold typeOf at h
    obtain ⟨lt, hlt, h⟩ := bind_eq_some_iff.mp h
    obtain ⟨rt, hrt, h⟩ := bind_eq_some_iff.mp h
    obtain ⟨common, hcommon, h⟩ := bind_eq_some_iff.mp h
    have hcommon' : common = .rationalNumber q c := by
      by_cases hop : op.isCompareOp = true
      · rw [if_pos hop] at h
        cases h
      · rw [if_neg hop] at h
        cases h
        rfl
    subst hcommon'
    simp only [Expression.eval, hlt, hrt, hcommon]
  | assignment o r =>
    unfold typeOf at h
    obtain ⟨t, ht, h⟩ := bind_eq_some_iff.mp h
    obtain ⟨rt, -, h⟩ := bind_eq_some_iff.mp h
    obtain ⟨-, h⟩ := ite_none_right_eq_some.mp h
    cases h
    have := Γ.isValueType o _ ht
    cases this
  | compoundAssignment op o r =>
    unfold typeOf at h
    obtain ⟨t, ht, h⟩ := bind_eq_some_iff.mp h
    obtain ⟨rt, -, h⟩ := bind_eq_some_iff.mp h
    obtain ⟨-, h⟩ := ite_none_right_eq_some.mp h
    cases h
    have := Γ.isValueType o _ ht
    cases this
  | boolLiteral | addressLiteral | stringLiteral => cases h

/-! ### Single expressions -/

/-- The code of the expression, wherever it is, represents its value. -/
def Compiles (setting : Setting) (Γ : LocalVariables) (e : Expression) : Prop :=
  ∀ t height code temps frame σ, typeOf Γ e = some t → visit setting Γ e height = some code →
    Γ.Holds σ frame → height = temps.length + frame.length →
    Runs Γ t.Represents code temps temps frame (Expression.eval Γ e σ)

lemma compiles_identifier (o : ℕ) : Compiles setting Γ (identifier o) := by
  intro t height code temps frame σ ht hcode hholds hheight
  obtain ⟨t', ht', hcode⟩ := bind_eq_some_iff.mp hcode
  change Γ.type o = some t at ht
  rw [ht] at ht'
  cases ht'
  exact .retrieve hcode ht hholds hheight

lemma compiles_boolLiteral (b : Bool) : Compiles setting Γ (boolLiteral b) := by
  intro t height code temps frame σ ht hcode hholds hheight
  cases ht
  cases hcode
  exact ⟨[.ofBool b], frame, rfl, ⟨_, rfl, valueOf_bool_ofBool b⟩, hholds, rfl⟩

lemma compiles_numberLiteral (q : ℚ) (c : Option FixedBytesType) :
    Compiles setting Γ (numberLiteral q c) := by
  intro t height code temps frame σ ht hcode hholds hheight
  cases ht
  exact runs_constant hcode hholds

lemma compiles_addressLiteral (a : BitVec 160) : Compiles setting Γ (addressLiteral a) := by
  intro t height code temps frame σ ht hcode hholds hheight
  cases ht
  cases hcode
  refine ⟨[a.setWidth 256], frame, rfl, ⟨_, rfl, ?_⟩, hholds, rfl⟩
  have ha := a.isLt
  rw [ValueType.valueOf, BitVec.toNat_setWidth]
  norm_cast
  omega

lemma compiles_stringLiteral (s : List (BitVec 8)) : Compiles setting Γ (stringLiteral s) := by
  intro t height code temps frame σ ht hcode hholds hheight
  cases ht
  cases hcode
  exact ⟨[], frame, rfl, ⟨rfl, rfl⟩, hholds, rfl⟩

variable {s t : ValueType}

lemma isExplicitly_of_typeConversionResult {t' : ValueType}
    (h : typeConversionResult s t = some t') : s.isExplicitlyConvertibleTo t' := by
  obtain ⟨hst, h⟩ := ite_none_right_eq_some.mp h
  cases t with
  | address payable =>
    cases h
    cases hpayable : s.isExplicitlyConvertibleTo (.address true) with
    | true => exact hpayable
    | false =>
      cases payable with
      | false => exact hst
      | true =>
        rw [hpayable] at hst
        cases hst
  | _ =>
    cases h
    exact hst

lemma compiles_typeConversion (t : ValueType) (ih : Compiles setting Γ e) :
    Compiles setting Γ (typeConversion t e) := by
  intro t' height code temps frame σ ht hcode hholds hheight
  unfold visit at hcode
  obtain ⟨s, hs, hcode⟩ := bind_eq_some_iff.mp hcode
  obtain ⟨result, hresult, hcode⟩ := bind_eq_some_iff.mp hcode
  obtain ⟨c, hc, hcode⟩ := bind_eq_some_iff.mp hcode
  obtain ⟨convert, hconvert, hcode⟩ := bind_eq_some_iff.mp hcode
  cases hcode
  rw [ht] at hresult
  cases hresult
  have hexplicit : s.isExplicitlyConvertibleTo t' = true := by
    obtain ⟨-, h⟩ := ite_none_right_eq_some.mp ht
    rw [hs] at h
    exact isExplicitly_of_typeConversionResult h
  unfold Expression.eval
  rw [hs, ht]
  refine Runs.bind (ih s height c temps frame σ hs hc hholds hheight)
    fun v σ' ws frame' hws hholds' hlength => ?_
  exact Runs.of_yields (convertType_represents hconvert (.inr hexplicit) hws) hholds'

lemma isValueType_of_unaryOperatorResult {op : UnaryOperator}
    (h : s.unaryOperatorResult op = some t) (ht : ∀ q c, t ≠ .rationalNumber q c) :
    t.isValueType := by
  cases s with
  | integer | fixedBytes | bool =>
    obtain ⟨-, h⟩ := ite_none_right_eq_some.mp h
    cases h
    rfl
  | rationalNumber q c =>
    obtain ⟨r, -, rfl⟩ := map_eq_some_iff.mp h
    exact absurd rfl (ht r none)
  | _ => cases h

lemma compiles_unaryOperation (op : UnaryOperator) (ih : Compiles setting Γ e) :
    Compiles setting Γ (.unaryOperation op e) := by
  intro t height code temps frame σ ht hcode hholds hheight
  unfold visit at hcode
  rw [ht] at hcode
  by_cases hrational : ∃ q c, t = .rationalNumber q c
  · obtain ⟨q, c, rfl⟩ := hrational
    rw [eval_of_rationalNumber ht]
    exact runs_constant hcode hholds
  · obtain ⟨s, hs, hresult⟩ := bind_eq_some_iff.mp ht
    have hvalueType := isValueType_of_unaryOperatorResult hresult fun q c h => hrational ⟨q, c, h⟩
    obtain ⟨c, hc, rfl⟩ : ∃ c, visit setting Γ e height = some c ∧
        c ++ unaryOperatorCode op = code := by
      cases t with
      | rationalNumber q c => exact absurd ⟨q, c, rfl⟩ hrational
      | _ => exact map_eq_some_iff.mp hcode
    have heval : Expression.eval Γ (.unaryOperation op e) σ =
        (Expression.eval Γ e σ).bind fun x => .ok (Polynomial.unaryOperation op t x.1, x.2) := by
      rw [Expression.eval, ht]
      cases t with
      | rationalNumber q c => exact absurd ⟨q, c, rfl⟩ hrational
      | _ => rfl
    rw [heval]
    refine Runs.bind (ih s height c temps frame σ hs hc hholds hheight)
      fun v σ' ws frame' hws hholds' hlength => ?_
    exact Runs.of_yields (unaryOperatorCode_represents hresult hvalueType hws) hholds'

lemma valueOf_count {t : IntegerType} {v : ℤ} {w : Word} (isIncrement : Bool)
    (hw : (ValueType.integer t).valueOf w = v) :
    (ValueType.integer t).valueOf (if isIncrement then 1 + w else w - 1) =
      t.wrap (if isIncrement then v + 1 else v - 1) := by
  have hone : t.wrap (1 : Word).toNat = t.wrap 1 := rfl
  have hcongr : ∀ m n : ℤ, m ≡ n [ZMOD t.modulus] → t.wrap m = t.wrap n :=
    fun _ _ => wrap_congr
  cases isIncrement with
  | true =>
    rw [if_pos rfl, if_pos rfl, valueOf_add hone hw]
    rw [Int.add_comm]
    exact hcongr _ _ ((Int.ModEq.refl v).add (t.wrap_modEq 1))
  | false =>
    rw [if_neg Bool.false_ne_true, if_neg Bool.false_ne_true, valueOf_sub hw hone]
    exact hcongr _ _ ((Int.ModEq.refl v).sub (t.wrap_modEq 1))

lemma compiles_countOperation (isIncrement isPrefixOperation : Bool) (o : ℕ) :
    Compiles setting Γ (countOperation isIncrement isPrefixOperation o) := by
  intro t height code temps frame σ ht hcode hholds hheight
  obtain ⟨ho, htype⟩ := filter_eq_some_iff.mp ht
  cases t with
  | integer t =>
    unfold visit at hcode
    obtain ⟨value, hvalue, hcode⟩ := bind_eq_some_iff.mp hcode
    obtain ⟨store, hstore, hcode⟩ := bind_eq_some_iff.mp hcode
    cases hcode
    have hchange : ∀ w : Word, ∀ s, exec (.push 1 :: operations
        (if isIncrement then [.add] else [.swap 0, .sub])) (w :: s) =
          .stack ((if isIncrement then 1 + w else w - 1) :: s) := by
      intro w s
      cases isIncrement
      · rfl
      · rfl
    have heval : Expression.eval Γ (countOperation isIncrement isPrefixOperation o) σ =
        Except.bind (.ok (σ o, σ)) fun x =>
          (Except.ok (t.wrap (if isIncrement then x.1 + 1 else x.1 - 1)) : Except Failure ℤ).bind
            fun v => .ok (if isPrefixOperation then v else x.1, Function.update x.2 o v) := by
      rw [Expression.eval, ho]
      rfl
    rw [heval]
    simp only [append_assoc]
    refine Runs.bind (Runs.retrieve (t := .integer t) hvalue ho hholds hheight)
      fun v σ' ws frame' hws hholds' hlength => ?_
    obtain ⟨w, rfl, hw⟩ := hws
    have hcount := valueOf_count isIncrement hw
    cases isPrefixOperation with
    | true =>
      change Runs _ _ ([] ++ _) _ _ _ _
      rw [nil_append]
      refine Runs.bind_yields (R := (ValueType.integer t).Represents)
        (.ok ⟨_, rfl, hcount⟩ (hchange w)) fun u us hus => ?_
      refine Runs.store (t := .integer t) hstore ho hholds' hus ?_
      simp only [if_true, length_nil, ValueType.sizeOnStack]
      omega
    | false =>
      change Runs _ _ ([.operation (.dup 0)] ++ _) _ _ _ _
      have hcopy : ∀ s, exec [.operation (.dup 0)] ([w] ++ s) = .stack ([w, w] ++ s) :=
        fun s => rfl
      refine Runs.bind_yields (ε := Unit) (r := .ok ()) (R := fun _ ws => ws = [w, w])
        (k := fun _ => (Except.ok (t.wrap (if isIncrement then v + 1 else v - 1)) :
          Except Failure ℤ).bind fun u => .ok (v, Function.update σ' o u))
        (.ok rfl hcopy) fun _ ws hws => ?_
      subst hws
      change Runs _ _ _ ([w] ++ ([w] ++ temps)) _ _ _
      refine Runs.bind_yields (R := (ValueType.integer t).Represents)
        (.ok ⟨_, rfl, hcount⟩ (hchange w)) fun u us hus => ?_
      refine Runs.storeMoved (t := .integer t) hstore ho hholds' hus ⟨w, rfl, hw⟩ ?_
      simp only [false_eq_true, if_false, length_map, length_cons, length_nil,
        length_append, ValueType.sizeOnStack, operations]
      omega
  | _ => cases htype

lemma compiles_assignment (o : ℕ) (ih : Compiles setting Γ r) :
    Compiles setting Γ (assignment o r) := by
  intro t height code temps frame σ ht hcode hholds hheight
  unfold visit at hcode
  obtain ⟨t', ht', hcode⟩ := bind_eq_some_iff.mp hcode
  obtain ⟨s, hs, hcode⟩ := bind_eq_some_iff.mp hcode
  obtain ⟨c, hc, hcode⟩ := bind_eq_some_iff.mp hcode
  obtain ⟨convert, hconvert, hcode⟩ := bind_eq_some_iff.mp hcode
  obtain ⟨store, hstore, hcode⟩ := bind_eq_some_iff.mp hcode
  cases hcode
  have himplicit : s.isImplicitlyConvertibleTo t' = true ∧ t = t' := by
    unfold typeOf at ht
    rw [ht', hs] at ht
    obtain ⟨himplicit, h⟩ := ite_none_right_eq_some.mp ht
    cases h
    exact ⟨himplicit, rfl⟩
  obtain ⟨himplicit, rfl⟩ := himplicit
  have heval : Expression.eval Γ (assignment o r) σ = (Expression.eval Γ r σ).bind fun x =>
      (s.convert t x.1).bind fun v => .ok (v, Function.update x.2 o v) := by
    rw [Expression.eval, ht', hs]
    rfl
  rw [heval]
  simp only [append_assoc]
  refine Runs.bind (ih s height c temps frame σ hs hc hholds hheight)
    fun v σ' ws frame' hws hholds' hlength => ?_
  refine Runs.bind_yields (convertType_represents hconvert
    (.inr (isImplicitly_isExplicitly himplicit)) hws) fun u us hus => ?_
  exact Runs.store hstore ht' hholds' hus (by omega)

lemma compiles_compoundAssignment (op : BinaryOperator) (o : ℕ) (ih : Compiles setting Γ r) :
    Compiles setting Γ (compoundAssignment op o r) := by
  intro t height code temps frame σ ht hcode hholds hheight
  unfold visit at hcode
  obtain ⟨t', ht', hcode⟩ := bind_eq_some_iff.mp hcode
  obtain ⟨s, hs, hcode⟩ := bind_eq_some_iff.mp hcode
  obtain ⟨rightTarget, hright, hcode⟩ := bind_eq_some_iff.mp hcode
  obtain ⟨c, hc, hcode⟩ := bind_eq_some_iff.mp hcode
  obtain ⟨convertRight, hconvertRight, hcode⟩ := bind_eq_some_iff.mp hcode
  obtain ⟨value, hvalue, hcode⟩ := bind_eq_some_iff.mp hcode
  obtain ⟨convertLeft, hconvertLeft, hcode⟩ := bind_eq_some_iff.mp hcode
  obtain ⟨operator, hoperator, hcode⟩ := bind_eq_some_iff.mp hcode
  obtain ⟨store, hstore, hcode⟩ := bind_eq_some_iff.mp hcode
  cases hcode
  have htyping : (op.hasAssignmentOp = true ∧ t'.binaryOperatorResult op s = some t') ∧ t = t' := by
    unfold typeOf at ht
    rw [ht', hs] at ht
    obtain ⟨htyping, h⟩ := ite_none_right_eq_some.mp ht
    cases h
    exact ⟨htyping, rfl⟩
  obtain ⟨⟨hassign, hresult⟩, rfl⟩ := htyping
  have hcompare : op.isCompareOp = false := by
    cases op <;> first | rfl | cases hassign
  have htypes := operandTypes_of_binaryOperatorResult hresult fun q c h => by
    have hvalueType := Γ.isValueType o t ht'
    rw [h] at hvalueType
    cases hvalueType
  have hbits := htypes.applicable.hasBits hcompare
  have hsize : t.sizeOnStack = 1 := by
    cases t <;> first | rfl | cases hbits
  obtain ⟨hrightImplicit, hshift⟩ := htypes.right _ hright
  have hrightBits : rightTarget.hasBits = true := by
    by_cases hop : op.isShiftOp = true
    · obtain ⟨i, rfl⟩ := hshift hop
      rfl
    · rw [rightTargetType_of_not_isShiftOp (by simpa using hop)] at hright
      cases hright
      exact hbits
  have hword : ∀ {u : ValueType}, u.hasBits = true → u.isWordType = true := by
    intro u hu
    cases u <;> first | rfl | cases hu
  have heval : Expression.eval Γ (compoundAssignment op o r) σ =
      (Expression.eval Γ r σ).bind fun x =>
      (s.operand rightTarget x.1).bind fun b =>
        Except.bind (.ok (x.2 o, x.2)) fun y =>
          (Except.ok y.1 : Except Failure ℤ).bind fun a =>
            (Polynomial.binaryOperation op t a b).bind fun v =>
              .ok (v, Function.update y.2 o v) := by
    rw [Expression.eval, ht', hs]
    dsimp only
    rw [hright]
    rfl
  rw [heval]
  simp only [append_assoc]
  refine Runs.bind (ih s height c temps frame σ hs hc hholds hheight)
    fun b σ' ws frame' hws hholds' hlength => ?_
  refine Runs.bind_yields (convertType_operand hconvertRight hrightImplicit
    (hword hrightBits) (fun _ => hrightBits) hws) fun b' us hus => ?_
  obtain ⟨wb, rfl, hwb⟩ := hus
  have hvalue' : retrieveValue o t.sizeOnStack (height + 1) = some value := by
    rw [hsize]
    exact hvalue
  refine Runs.bind (Runs.retrieve hvalue' ht' hholds' (by
    simp only [length_cons, length_append, length_nil]
    omega)) fun a σ'' ws' frame'' hws' hholds'' hlength' => ?_
  have hself := convertType_operand hconvertLeft
    (isImplicitly_mobileType (by cases t <;> first | rfl | cases hbits)) (hword hbits)
    (fun _ => hbits) hws'
  rw [operand_of_hasBits hbits, convert_self hws'] at hself
  refine Runs.bind_yields hself fun a' us hus => ?_
  obtain ⟨wa, rfl, hwa⟩ := hus
  have hyields := appendOperatorCode_represents hoperator htypes.applicable
    (fun hop => by
      rw [rightTargetType_of_not_isShiftOp hop] at hright
      exact (Option.some.inj hright).symm) hwa hwb
  rw [hcompare, if_neg Bool.false_ne_true] at hyields
  change Runs _ _ _ ([wa, wb] ++ temps) _ _ _
  refine Runs.bind_yields hyields fun v vs hvs => ?_
  have hstore' : storeValue o t.sizeOnStack (height + 1) false = some store := by
    rw [hsize]
    exact hstore
  exact Runs.store hstore' ht' hholds'' hvs (by omega)

/-! ### Binary operators -/

lemma binaryOperation_comm {op : BinaryOperator} (h : op.isCommutativeOp) (t : ValueType)
    (a b : ℤ) : Polynomial.binaryOperation op t a b = Polynomial.binaryOperation op t b a := by
  have hbits : ∀ {n : ℕ} (x y : BitVec n), op.isBitOp = true →
      bitOperation op x y = bitOperation op y x := by
    intro n x y hop
    cases op with
    | bitOr => exact BitVec.or_comm x y
    | bitXor => exact BitVec.xor_comm x y
    | bitAnd => exact BitVec.and_comm x y
    | _ => cases hop
  unfold Polynomial.binaryOperation
  cases op with
  | bitOr | bitXor | bitAnd =>
    cases t with
    | integer t => exact congrArg (fun x => Except.ok (t.ofBits x)) (hbits _ _ rfl)
    | fixedBytes t => exact congrArg (fun x => Except.ok (BitVec.toNat x : ℤ)) (hbits _ _ rfl)
    | _ => rfl
  | add =>
    cases t with
    | integer t => exact congrArg (fun x => Except.ok (t.wrap x)) (Int.add_comm a b)
    | fixedBytes t =>
      exact congrArg (fun x => Except.ok (BitVec.toNat x : ℤ)) (BitVec.and_comm _ _)
    | _ => rfl
  | mul =>
    cases t with
    | integer t => exact congrArg (fun x => Except.ok (t.wrap x)) (Int.mul_comm a b)
    | fixedBytes t =>
      exact congrArg (fun x => Except.ok (BitVec.toNat x : ℤ)) (BitVec.and_comm _ _)
    | _ => rfl
  | equal =>
    have hcomm : decide (a = b) = decide (b = a) := decide_eq_decide.mpr eq_comm
    exact congrArg (fun p : Bool => Except.ok (if p then (1 : ℤ) else 0)) hcomm
  | notEqual =>
    have hcomm : decide (a ≠ b) = decide (b ≠ a) := decide_eq_decide.mpr ne_comm
    exact congrArg (fun p : Bool => Except.ok (if p then (1 : ℤ) else 0)) hcomm
  | _ => cases h

lemma eval_of_rational (h : (typeOf Γ e).any (· matches .rationalNumber _ _)) :
    ∃ v, ∀ σ, Expression.eval Γ e σ = .ok (v, σ) := by
  cases ht : typeOf Γ e with
  | none =>
    rw [ht] at h
    cases h
  | some t =>
    rw [ht] at h
    cases t with
    | rationalNumber q c => exact ⟨q.num, eval_of_rationalNumber ht⟩
    | _ => cases h

lemma eval_of_isLiteral (h : e.isLiteral Γ) :
    ∃ v, ∀ σ, Expression.eval Γ e σ = .ok (v, σ) := by
  cases e with
  | boolLiteral b => exact ⟨_, fun σ => rfl⟩
  | numberLiteral q c => exact ⟨_, fun σ => rfl⟩
  | addressLiteral a => exact ⟨_, fun σ => rfl⟩
  | stringLiteral s => exact ⟨_, fun σ => rfl⟩
  | _ => exact eval_of_rational h

lemma exists_operand (h : s.isImplicitlyConvertibleTo t) (hs : ∀ e, s ≠ .enum e) (v : ℤ) :
    ∃ u, s.operand t v = .ok u := by
  cases s with
  | enum e => exact absurd rfl (hs e)
  | _ =>
    cases t <;> first | exact ⟨_, rfl⟩ | exact absurd h false_ne_true

lemma not_rational_of_enum {i : EnumType} (ht : typeOf Γ e = some (.enum i)) :
    ¬ (typeOf Γ e).any (· matches .rationalNumber _ _) := by
  rw [ht]
  exact false_ne_true

lemma not_enum_of_isLiteral (h : e.isLiteral Γ) (ht : typeOf Γ e = some t) (i : EnumType) :
    t ≠ .enum i := by
  rintro rfl
  cases e with
  | boolLiteral | numberLiteral | addressLiteral | stringLiteral => cases ht
  | _ => exact not_rational_of_enum ht h

lemma operandsCode_eq_some {first second : Option Code} {convertFirst convertSecond code : Code}
    (h : operandsCode first convertFirst second convertSecond = some code) :
    ∃ c c', first = some c ∧ second = some c' ∧
      code = c ++ (convertFirst ++ (c' ++ convertSecond)) := by
  obtain ⟨c, hc, h⟩ := bind_eq_some_iff.mp h
  obtain ⟨c', hc', h⟩ := bind_eq_some_iff.mp h
  cases h
  refine ⟨c, c', hc, hc', ?_⟩
  simp only [append_assoc]

lemma runs_operands {first second : Expression} {s' t' : ValueType} {height : ℕ}
    {c c' convertFirst convertSecond operator : Code} {temps frame : List Word} {σ : Store}
    {cleanupNeeded hasBitwiseShifting : Bool} {P : ℤ → List Word → Prop}
    {k : ℤ → ℤ → Except Failure ℤ} (ihFirst : Compiles setting Γ first)
    (ihSecond : Compiles setting Γ second) (hs : typeOf Γ first = some s)
    (hs' : typeOf Γ second = some s') (hc : visit setting Γ first height = some c)
    (hc' : visit setting Γ second (height + 1) = some c')
    (hconvert : convertType hasBitwiseShifting s t cleanupNeeded = some convertFirst)
    (hconvert' : convertType hasBitwiseShifting s' t' cleanupNeeded = some convertSecond)
    (hst : s.isImplicitlyConvertibleTo t) (hst' : s'.isImplicitlyConvertibleTo t')
    (ht : t.isWordType ∧ (cleanupNeeded = false → t.hasBits))
    (ht' : t'.isWordType ∧ (cleanupNeeded = false → t'.hasBits))
    (hk : ∀ v v' w w', t.IsOperand cleanupNeeded v w → t'.IsOperand cleanupNeeded v' w' →
      Yields operator [w', w] P (k v v')) (hholds : Γ.Holds σ frame)
    (hheight : height = temps.length + frame.length) :
    Runs Γ P (c ++ (convertFirst ++ (c' ++ convertSecond)) ++ operator) temps temps frame
      ((Expression.eval Γ first σ).bind fun x => (s.operand t x.1).bind fun v =>
        (Expression.eval Γ second x.2).bind fun y => (s'.operand t' y.1).bind fun v' =>
          (k v v').bind fun u => .ok (u, y.2)) := by
  simp only [append_assoc]
  refine Runs.bind (ihFirst s height c temps frame σ hs hc hholds hheight)
    fun v σ' ws frame' hws hholds' hlength => ?_
  refine Runs.bind_yields (convertType_operand hconvert hst ht.1 ht.2 hws)
    fun v us hus => ?_
  obtain ⟨w, rfl, hw⟩ := hus
  refine Runs.bind (ihSecond s' (height + 1) c' ([w] ++ temps) frame' σ' hs' hc' hholds' (by
    simp only [length_append, length_cons, length_nil]
    omega)) fun v' σ'' ws' frame'' hws' hholds'' hlength' => ?_
  refine Runs.bind_yields (convertType_operand hconvert' hst' ht'.1 ht'.2 hws')
    fun v' us hus => ?_
  obtain ⟨w', rfl, hw'⟩ := hus
  exact Runs.of_yields (hk v v' w w' hw hw') hholds''

lemma compiles_binaryOperation {l : Expression} (op : BinaryOperator) (ihl : Compiles setting Γ l)
    (ihr : Compiles setting Γ r) : Compiles setting Γ (.binaryOperation op l r) := by
  intro t height code temps frame σ ht hcode hholds hheight
  unfold visit at hcode
  obtain ⟨lt, hlt, hcode⟩ := bind_eq_some_iff.mp hcode
  obtain ⟨rt, hrt, hcode⟩ := bind_eq_some_iff.mp hcode
  obtain ⟨common, hcommon, hcode⟩ := bind_eq_some_iff.mp hcode
  have htype : t = if op.isCompareOp then .bool else common := by
    unfold typeOf at ht
    rw [hlt, hrt] at ht
    obtain ⟨common', hcommon', h⟩ :
        ∃ c, lt.binaryOperatorResult op rt = some c ∧ some (if op.isCompareOp then .bool else c) =
          some t := bind_eq_some_iff.mp ht
    rw [hcommon] at hcommon'
    cases hcommon'
    exact (Option.some.inj h).symm
  by_cases hrational : ∃ q c, common = .rationalNumber q c
  · obtain ⟨q, c, rfl⟩ := hrational
    have hcompare : op.isCompareOp = false := by
      by_contra hop
      exact not_rationalNumber_of_isCompareOp (by simpa using hop) hcommon
    rw [hcompare, if_neg Bool.false_ne_true] at htype
    subst htype
    rw [eval_of_rationalNumber ht]
    exact runs_constant hcode hholds
  have hnot : ∀ q c, common ≠ .rationalNumber q c := fun q c h => hrational ⟨q, c, h⟩
  have htypes := operandTypes_of_binaryOperatorResult hcommon hnot
  obtain ⟨rightTarget, hright, hcode⟩ : ∃ rightTarget,
      rightTargetType op common rt = some rightTarget ∧
      ((convertType setting.hasBitwiseShifting lt common (cleanupNeededForOp common op)).bind
        fun convertLeft =>
      (convertType setting.hasBitwiseShifting rt rightTarget (cleanupNeededForOp common op)).bind
        fun convertRight =>
      (bif setting.optimiseOrderLiterals && op.isCommutativeOp && r.isLiteral Γ && !l.isLiteral Γ then
        operandsCode (visit setting Γ l height) convertLeft (visit setting Γ r (height + 1))
          convertRight
      else operandsCode (visit setting Γ r height) convertRight
        (visit setting Γ l (height + 1)) convertLeft).bind fun operands =>
      (appendOperatorCode setting.hasBitwiseShifting op common rightTarget).bind fun operator =>
        some (operands ++ operator)) = some code := by
    cases common with
    | rationalNumber q c => exact absurd rfl (hnot q c)
    | _ => exact bind_eq_some_iff.mp hcode
  obtain ⟨convertLeft, hconvertLeft, hcode⟩ := bind_eq_some_iff.mp hcode
  obtain ⟨convertRight, hconvertRight, hcode⟩ := bind_eq_some_iff.mp hcode
  obtain ⟨operands, hoperands, hcode⟩ := bind_eq_some_iff.mp hcode
  obtain ⟨operator, hoperator, hcode⟩ := bind_eq_some_iff.mp hcode
  cases hcode
  subst htype
  have heval : Expression.eval Γ (.binaryOperation op l r) σ =
      (Expression.eval Γ r σ).bind fun x =>
      (rt.operand rightTarget x.1).bind fun b => (Expression.eval Γ l x.2).bind fun y =>
        (lt.operand common y.1).bind fun a =>
          (Polynomial.binaryOperation op common a b).bind fun v => .ok (v, y.2) := by
    rw [Expression.eval, hlt, hrt]
    dsimp only
    rw [hcommon]
    cases common with
    | rationalNumber q c => exact absurd rfl (hnot q c)
    | _ =>
      dsimp only
      rw [hright]
      rfl
  have hcommonWord : common.isWordType = true ∧
      (cleanupNeededForOp common op = false → common.hasBits = true) := by
    refine ⟨htypes.applicable.isWordType, fun hclean => htypes.applicable.hasBits ?_⟩
    simp only [cleanupNeededForOp, or_eq_false_iff] at hclean
    exact hclean.1.1
  obtain ⟨hrightImplicit, hshift⟩ := htypes.right _ hright
  have hrightCommon : op.isShiftOp = false → rightTarget = common := by
    intro hop
    rw [rightTargetType_of_not_isShiftOp hop] at hright
    exact (Option.some.inj hright).symm
  have hrightWord : rightTarget.isWordType = true ∧
      (cleanupNeededForOp common op = false → rightTarget.hasBits = true) := by
    by_cases hop : op.isShiftOp = true
    · obtain ⟨i, rfl⟩ := hshift hop
      exact ⟨rfl, fun _ => rfl⟩
    · rw [hrightCommon (by simpa using hop)]
      exact hcommonWord
  rw [heval]
  by_cases hswap : (setting.optimiseOrderLiterals && op.isCommutativeOp && r.isLiteral Γ &&
      !l.isLiteral Γ) = true
  · rw [hswap, cond_true] at hoperands
    obtain ⟨c, c', hc, hc', rfl⟩ := operandsCode_eq_some hoperands
    simp only [and_eq_true] at hswap
    obtain ⟨⟨⟨-, hcomm⟩, hliteral⟩, -⟩ := hswap
    have hop : op.isShiftOp = false := by cases op <;> first | rfl | cases hcomm
    have hrc := hrightCommon hop
    subst hrc
    have hruns := runs_operands ihl ihr hlt hrt hc hc' hconvertLeft hconvertRight htypes.left
      hrightImplicit hcommonWord hrightWord
      (k := fun a b => Polynomial.binaryOperation op rightTarget a b)
      (fun a b wa wb ha hb => by
        rw [binaryOperation_comm hcomm]
        exact appendOperatorCode_represents hoperator htypes.applicable (fun _ => rfl)
          hb ha) hholds hheight
    obtain ⟨v, hv⟩ := eval_of_isLiteral hliteral
    obtain ⟨u, hu⟩ := exists_operand hrightImplicit
      (fun i => not_enum_of_isLiteral hliteral hrt i) v
    simp only [hv, hu, Except.bind] at hruns ⊢
    exact hruns
  · rw [not_eq_true] at hswap
    rw [hswap, cond_false] at hoperands
    obtain ⟨c, c', hc, hc', rfl⟩ := operandsCode_eq_some hoperands
    exact runs_operands ihr ihl hrt hlt hc hc' hconvertRight hconvertLeft hrightImplicit
      htypes.left hrightWord hcommonWord
      (k := fun b a => Polynomial.binaryOperation op common a b)
      (fun b a wb wa hb ha => appendOperatorCode_represents hoperator htypes.applicable
        hrightCommon ha hb) hholds hheight

lemma compiles (e : Expression) : Compiles setting Γ e := by
  induction e with
  | identifier o => exact compiles_identifier o
  | boolLiteral b => exact compiles_boolLiteral b
  | numberLiteral q c => exact compiles_numberLiteral q c
  | addressLiteral a => exact compiles_addressLiteral a
  | stringLiteral s => exact compiles_stringLiteral s
  | typeConversion t e ih => exact compiles_typeConversion t ih
  | unaryOperation op e ih => exact compiles_unaryOperation op ih
  | countOperation isIncrement isPrefixOperation o => exact compiles_countOperation _ _ o
  | binaryOperation op l r ihl ihr => exact compiles_binaryOperation op ihl ihr
  | assignment o r ih => exact compiles_assignment o ih
  | compoundAssignment op o r ih => exact compiles_compoundAssignment op o ih

/-! ### Dirty bits -/

namespace ExpressionCompiler

/-- The code of an expression that has one leaves a representation of the value of the expression,
and of the variables after it, whatever the dirty bits of the variables are. It stops at an invalid
instruction exactly where the expression fails. -/
theorem visit_represents (setting : Setting) (Γ : LocalVariables) (e : Expression) (t : ValueType)
    (code : Code) (σ : Store) (frame : List Word) (ht : typeOf Γ e = some t)
    (hcode : visit setting Γ e frame.length = some code) (hholds : Γ.Holds σ frame) :
    match Expression.eval Γ e σ with
    | .ok (v, σ') => ∃ ws frame', exec code frame.reverse = .stack (ws ++ frame'.reverse) ∧
        t.Represents v ws ∧ Γ.Holds σ' frame' ∧ frame'.length = frame.length
    | .error _ => exec code frame.reverse = .invalid := by
  have hruns := compiles e t frame.length code [] frame σ ht hcode hholds (Nat.zero_add _).symm
  unfold Runs at hruns
  cases hresult : Expression.eval Γ e σ with
  | ok r =>
    rw [hresult] at hruns
    exact hruns
  | error f =>
    rw [hresult] at hruns
    exact hruns

end ExpressionCompiler

/-- Two local variables of the same type with one stack slot. -/
def LocalVariables.pair (t : ValueType) (h : t.isValueType = true) (hsize : t.sizeOnStack = 1) :
    LocalVariables where
  type o := if o < 2 then some t else none
  isValueType o u hu := by
    obtain ⟨-, hu⟩ := ite_none_right_eq_some.mp hu
    cases hu
    exact h
  apart o u hu hsize' := by
    obtain ⟨-, hu⟩ := ite_none_right_eq_some.mp hu
    cases hu
    rw [hsize] at hsize'
    cases hsize'

namespace ExpressionCompiler

def int8 : ValueType := .integer ⟨8, true, valid_eight⟩

/-- `a /= b` for variables of the type `int8`. -/
def division : Expression := .compoundAssignment .div 0 (.identifier 1)

lemma eval_division :
    Expression.eval (.pair int8 rfl rfl) division (fun o => if o = 0 then -7 else 2) =
      .ok (-3, Function.update (fun o => if o = 0 then -7 else 2) 0 (-3)) := by
  rfl

lemma holds_division :
    (LocalVariables.pair int8 rfl rfl).Holds (fun o => if o = 0 then -7 else 2) [0x1F9, 0x302] := by
  intro o t ht
  obtain ⟨ho, ht⟩ := ite_none_right_eq_some.mp ht
  cases ht
  rcases (by omega : o = 0 ∨ o = 1) with rfl | rfl
  · exact ⟨0x1F9, rfl, by decide⟩
  · exact ⟨0x302, rfl, by decide⟩

/-- The code of `a /= b` for `a = -7` and `b = 2`, both with dirty higher order bits. -/
theorem visit_represents_dirtyDivision :
    ∃ code, visit ⟨true, true⟩ (.pair int8 rfl rfl) division 2 = some code ∧
      ∃ ws frame', exec code [0x302, 0x1F9] = .stack (ws ++ frame'.reverse) ∧
        int8.Represents (-3) ws ∧
        (LocalVariables.pair int8 rfl rfl).Holds
          (Function.update (fun o => if o = 0 then -7 else 2) 0 (-3)) frame' ∧
        frame'.length = 2 := by
  obtain ⟨code, hcode⟩ : ∃ code,
      visit ⟨true, true⟩ (.pair int8 rfl rfl) division 2 = some code :=
    isSome_iff_exists.mp (by decide +kernel)
  have h := visit_represents ⟨true, true⟩ (.pair int8 rfl rfl) division int8 code
    (fun o => if o = 0 then -7 else 2) [0x1F9, 0x302] (by decide +kernel) hcode holds_division
  rw [eval_division] at h
  exact ⟨code, hcode, h⟩

/-- The code of `!b` does not take a word as false whose lowest bits are those of false. -/
theorem visit_dirtyBool :
    ∃ code, visit ⟨true, true⟩ (.pair .bool rfl rfl) (.unaryOperation .not (.identifier 0)) 2 =
        some code ∧
      Expression.eval (.pair .bool rfl rfl) (.unaryOperation .not (.identifier 0)) (fun _ => 0) =
        .ok (1, fun _ => 0) ∧
      (0x100 : Word).setWidth 8 = 0 ∧
      ¬ ∃ w : Word, exec code [0, 0x100] = .stack [w, 0, 0x100] ∧ w.setWidth 8 = 1#8 := by
  refine ⟨[.operation (.dup 1), .operation .iszero], by decide +kernel, rfl, by decide, ?_⟩
  rintro ⟨w, hw, hone⟩
  cases hw
  revert hone
  decide

end ExpressionCompiler

end Polynomial
