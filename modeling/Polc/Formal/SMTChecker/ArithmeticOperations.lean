import Polc.Codegen.ExpressionCompiler.Words
import Polc.Formal.SMTLib2Interface
import Std.Data.String.ToInt

/-!
# Integer arithmetic for solvers

`SMTChecker::arithmeticOperation` and `SMTChecker::division` of `libpolynomial/formal/SMTChecker.cpp`
against the operators of the language. A solver evaluates over all integers, and its division and
modulo are Euclidean.
-/

namespace Polynomial.Smt

open Option

inductive SmtValue where
  | int (n : ℤ)
  | bool (b : Bool)
  deriving DecidableEq

/-- The operators on numbers and truth values. -/
def applyOperator : String → List SmtValue → Option SmtValue
  | "ite", [.bool c, v, w] => some (if c then v else w)
  | "not", [.bool a] => some (.bool !a)
  | "and", [.bool a, .bool b] => some (.bool (a && b))
  | "or", [.bool a, .bool b] => some (.bool (a || b))
  | "=", [v, w] => some (.bool (v = w))
  | "<", [.int a, .int b] => some (.bool (a < b))
  | "<=", [.int a, .int b] => some (.bool (a ≤ b))
  | ">", [.int a, .int b] => some (.bool (b < a))
  | ">=", [.int a, .int b] => some (.bool (b ≤ a))
  | "+", [.int a, .int b] => some (.int (a + b))
  | "-", [.int a, .int b] => some (.int (a - b))
  | "*", [.int a, .int b] => some (.int (a * b))
  | "/", [.int a, .int b] => some (.int (a / b))
  | "mod", [.int a, .int b] => some (.int (a % b))
  | _, _ => none

namespace Expression

section

-- the values of the variables
variable (values : String → Option SmtValue)

mutual

def eval : Expression → Option SmtValue
  | symbol name _ => values name
  | literal name .int => name.toInt?.map .int
  | literal name .bool => some (.bool (name = "true"))
  | operation name arguments _ => (evalArguments arguments).bind (applyOperator name)
  | _ => none

def evalArguments : List Expression → Option (List SmtValue)
  | [] => some []
  | e :: es => (eval e).bind fun v => (evalArguments es).map (v :: ·)

end

end

def number (n : ℤ) : Expression := literal n.repr .int

def ite (condition trueValue falseValue : Expression) : Expression :=
  operation "ite" [condition, trueValue, falseValue] trueValue.sort

def not (a : Expression) : Expression := operation "not" [a] .bool

def or (a b : Expression) : Expression := operation "or" [a, b] .bool

def equal (a b : Expression) : Expression := operation "=" [a, b] .bool

def less (a b : Expression) : Expression := operation "<" [a, b] .bool

def greater (a b : Expression) : Expression := operation ">" [a, b] .bool

def greaterOrEqual (a b : Expression) : Expression := operation ">=" [a, b] .bool

def plus (a b : Expression) : Expression := operation "+" [a, b] .int

def minus (a b : Expression) : Expression := operation "-" [a, b] .int

def times (a b : Expression) : Expression := operation "*" [a, b] .int

def divide (a b : Expression) : Expression := operation "/" [a, b] .int

def modulo (a b : Expression) : Expression := operation "mod" [a, b] .int

end Expression

/-- `smt::minValue` -/
def minValue (t : IntegerType) : Expression := .number t.minValue

/-- `smt::maxValue` -/
def maxValue (t : IntegerType) : Expression := .number t.maxValue

/-- What an operation leaves with the checker. -/
structure ArithmeticResult where
  value : Expression
  /-- The conditions whose satisfiability is a warning. -/
  checkedConditions : List Expression
  assertions : List Expression
  overflowTarget : IntegerType × Expression

def validOperators : List BinaryOperator := [.add, .sub, .mul, .div, .mod]

def division (left right : Expression) (type : IntegerType) : Expression :=
  -- Signed division in SMTLIB2 rounds differently for negative division.
  let zero := Expression.number 0
  if type.isSigned then
    .ite (left.greaterOrEqual zero)
      (.ite (right.greaterOrEqual zero)
        (left.divide right)
        (zero.minus (left.divide (zero.minus right))))
      (.ite (right.greaterOrEqual zero)
        (zero.minus ((zero.minus left).divide right))
        ((zero.minus left).divide (zero.minus right)))
  else left.divide right

/-- The value before it is brought into the range of the type. -/
def unboundedValue (op : BinaryOperator) (left right : Expression) (type : IntegerType) :
    Expression :=
  match op with
  | .add => left.plus right
  | .sub => left.minus right
  | .div => division left right type
  | .mul => left.times right
  | _ => left.modulo right

def intValueRange (type : IntegerType) : Expression :=
  ((Expression.minus (.number 0) (minValue type)).plus (maxValue type)).plus (.number 1)

/-- Without a valid operator an assertion fails. -/
def arithmeticOperation (op : BinaryOperator) (left right : Expression) (type : IntegerType) :
    Option ArithmeticResult :=
  if op ∈ validOperators then
    let value := unboundedValue op left right type
    let wrapped := Expression.ite
      ((value.greater (maxValue type)).or (value.less (minValue type)))
      (value.modulo (intValueRange type)) value
    let divides := op = .div ∨ op = .mod
    some
      { value :=
          if type.isSigned then
            .ite (wrapped.greater (maxValue type)) (wrapped.minus (intValueRange type)) wrapped
          else wrapped
        checkedConditions := if divides then [right.equal (.number 0)] else []
        assertions := if divides then [(right.equal (.number 0)).not] else []
        overflowTarget := (type, value) }
  else none

section

variable {values : String → Option SmtValue} {a b c : Expression} {m n : ℤ} {p q : Bool}

@[simp] lemma eval_number (n : ℤ) : (Expression.number n).eval values = some (.int n) := by
  rw [Expression.number, Expression.eval, Int.toInt?_repr, map_some]

lemma eval_binary {name : String} {s : SmtSort} {v w : SmtValue} (ha : a.eval values = some v)
    (hb : b.eval values = some w) :
    (Expression.operation name [a, b] s).eval values = applyOperator name [v, w] := by
  simp only [Expression.eval, Expression.evalArguments, ha, hb, bind_some, map_some]

lemma eval_ite (hc : c.eval values = some (.bool p)) (ha : a.eval values = some (.int m))
    (hb : b.eval values = some (.int n)) :
    (Expression.ite c a b).eval values = some (.int (if p then m else n)) := by
  simp only [Expression.ite, Expression.eval, Expression.evalArguments, hc, ha, hb,
    bind_some, map_some, applyOperator]
  split_ifs <;> rfl

lemma eval_or (ha : a.eval values = some (.bool p)) (hb : b.eval values = some (.bool q)) :
    (a.or b).eval values = some (.bool (p || q)) := eval_binary ha hb

variable (ha : a.eval values = some (.int m)) (hb : b.eval values = some (.int n))

include ha hb

lemma eval_plus : (a.plus b).eval values = some (.int (m + n)) := eval_binary ha hb

lemma eval_minus : (a.minus b).eval values = some (.int (m - n)) := eval_binary ha hb

lemma eval_times : (a.times b).eval values = some (.int (m * n)) := eval_binary ha hb

lemma eval_divide : (a.divide b).eval values = some (.int (m / n)) := eval_binary ha hb

lemma eval_modulo : (a.modulo b).eval values = some (.int (m % n)) := eval_binary ha hb

lemma eval_less : (a.less b).eval values = some (.bool (m < n)) := eval_binary ha hb

lemma eval_greater : (a.greater b).eval values = some (.bool (n < m)) := eval_binary ha hb

lemma eval_greaterOrEqual : (a.greaterOrEqual b).eval values = some (.bool (n ≤ m)) :=
  eval_binary ha hb

end

/-! ### Division and wrapping -/

section

variable {values : String → Option SmtValue} {left right value : Expression} {t : IntegerType}
  {l r n : ℤ}

/-- A number of the type. -/
def InRange (t : IntegerType) (n : ℤ) : Prop := t.minValue ≤ n ∧ n ≤ t.maxValue

lemma nonneg_of_inRange (ht : t.isSigned = false) (hn : InRange t n) : 0 ≤ n := by
  have hmin := hn.1
  rwa [IntegerType.minValue, ht, if_neg Bool.false_ne_true] at hmin

lemma eval_division (hl : left.eval values = some (.int l)) (hr : right.eval values = some (.int r))
    (hlrange : InRange t l) :
    (division left right t).eval values = some (.int (l.tdiv r)) := by
  have hzero : (Expression.number 0).eval values = some (.int 0) := eval_number 0
  have hnegl := eval_minus hzero hl
  have hnegr := eval_minus hzero hr
  unfold division
  cases ht : t.isSigned with
  | false =>
    have hl' := nonneg_of_inRange ht hlrange
    rw [if_neg Bool.false_ne_true, eval_divide hl hr, Int.tdiv_eq_ediv_of_nonneg hl']
  | true =>
    rw [if_pos rfl, eval_ite (eval_greaterOrEqual hl hzero)
      (eval_ite (eval_greaterOrEqual hr hzero) (eval_divide hl hr)
        (eval_minus hzero (eval_divide hl hnegr)))
      (eval_ite (eval_greaterOrEqual hr hzero) (eval_minus hzero (eval_divide hnegl hr))
        (eval_divide hnegl hnegr))]
    simp only [Int.zero_sub, decide_eq_true_eq]
    congr 2
    split_ifs with hl' hr' hr'
    · exact (Int.tdiv_eq_ediv_of_nonneg hl').symm
    · rw [← Int.tdiv_eq_ediv_of_nonneg hl', Int.tdiv_neg, Int.neg_neg]
    · rw [← Int.tdiv_eq_ediv_of_nonneg (by omega), Int.neg_tdiv, Int.neg_neg]
    · rw [← Int.tdiv_eq_ediv_of_nonneg (by omega), Int.neg_tdiv, Int.tdiv_neg, Int.neg_neg]

lemma eval_minValue : (minValue t).eval values = some (.int t.minValue) := eval_number _

lemma eval_maxValue : (maxValue t).eval values = some (.int t.maxValue) := eval_number _

lemma modulus_eq_sub (t : IntegerType) : t.modulus = t.maxValue - t.minValue + 1 := by
  have hpow := t.two_mul_pow_pred
  have hmodulus := t.modulus_eq
  simp only [IntegerType.minValue, IntegerType.maxValue]
  split_ifs <;> omega

lemma eval_intValueRange : (intValueRange t).eval values = some (.int t.modulus) := by
  rw [intValueRange, eval_plus (eval_plus (eval_minus (eval_number _) eval_minValue)
    eval_maxValue) (eval_number _), modulus_eq_sub]
  congr 2
  omega

lemma wrap_eq (t : IntegerType) (n : ℤ) :
    t.wrap n =
      let wrapped := if t.maxValue < n ∨ n < t.minValue then n % t.modulus else n
      if t.isSigned ∧ t.maxValue < wrapped then wrapped - t.modulus else wrapped := by
  have hpow := t.two_mul_pow_pred
  have hmodulus := t.modulus_eq
  by_cases hn : InRange t n
  · have hnot : ¬ (t.maxValue < n ∨ n < t.minValue) := by
      rintro (h | h)
      · exact absurd hn.2 (by omega)
      · exact absurd hn.1 (by omega)
    rw [IntegerType.wrap_of_inRange hn]
    simp only [if_neg hnot]
    rw [if_neg fun h => absurd hn.2 (by omega)]
  · have hout : t.maxValue < n ∨ n < t.minValue := by
      by_contra hnot
      exact hn ⟨by omega, by omega⟩
    simp only [if_pos hout]
    unfold IntegerType.wrap
    by_cases ht : t.isSigned = true
    · have hmax : t.maxValue = 2 ^ (t.numBits - 1) - 1 := if_pos ht
      rw [if_pos ht, Int.bmod_def]
      change (if n % t.modulus < (t.modulus + 1) / 2 then n % t.modulus
        else n % t.modulus - t.modulus) = _
      by_cases hlarge : t.maxValue < n % t.modulus
      · rw [if_neg (by omega), if_pos ⟨ht, hlarge⟩]
      · rw [if_pos (by omega), if_neg fun h => hlarge h.2]
    · rw [if_neg ht, if_neg fun h => ht h.1]

lemma eval_wrapped (hv : value.eval values = some (.int n)) :
    let wrapped := Expression.ite
      ((value.greater (maxValue t)).or (value.less (minValue t)))
      (value.modulo (intValueRange t)) value
    (if t.isSigned then
      Expression.ite (wrapped.greater (maxValue t)) (wrapped.minus (intValueRange t)) wrapped
      else wrapped).eval values = some (.int (t.wrap n)) := by
  intro wrapped
  have hwrapped : wrapped.eval values =
      some (.int (if t.maxValue < n ∨ n < t.minValue then n % t.modulus else n)) := by
    rw [show wrapped = _ from rfl, eval_ite (eval_or (eval_greater hv eval_maxValue)
      (eval_less hv eval_minValue)) (eval_modulo hv eval_intValueRange) hv]
    simp only [Bool.or_eq_true, decide_eq_true_eq]
  rw [wrap_eq]
  generalize (if t.maxValue < n ∨ n < t.minValue then n % t.modulus else n) = m at hwrapped ⊢
  by_cases ht : t.isSigned = true
  · rw [if_pos ht, eval_ite (eval_greater hwrapped eval_maxValue)
      (eval_minus hwrapped eval_intValueRange) hwrapped]
    simp only [decide_eq_true_eq, ht, true_and]
  · rw [if_neg ht, hwrapped, if_neg fun h => ht h.1]

/-! ### The operation against the language -/

/-- The result as a number, without a bound. -/
def exactResult (op : BinaryOperator) (l r : ℤ) : ℤ :=
  match op with
  | .add => l + r
  | .sub => l - r
  | .mul => l * r
  | .div => l.tdiv r
  | _ => l.tmod r

/-- The value is that of the language, and the target is out of range exactly where the result is
as a number. -/
structure ArithmeticResult.Matches (values : String → Option SmtValue) (t : IntegerType)
    (op : BinaryOperator) (l r : ℤ) (result : ArithmeticResult) : Prop where
  value : ∃ v, integerOperation t op l r = .ok v ∧ result.value.eval values = some (.int v)
  overflowTarget : result.overflowTarget.1 = t ∧
    ∃ n, result.overflowTarget.2.eval values = some (.int n) ∧
      (InRange t n ↔ InRange t (exactResult op l r))

lemma mem_validOperators {op : BinaryOperator} :
    op ∈ validOperators ↔ op = .add ∨ op = .sub ∨ op = .mul ∨ op = .div ∨ op = .mod := by
  simp [validOperators]

lemma eval_unboundedValue {op : BinaryOperator} (hop : op ∈ validOperators)
    (hl : left.eval values = some (.int l)) (hr : right.eval values = some (.int r))
    (hlrange : InRange t l) :
    (unboundedValue op left right t).eval values =
      some (.int (if op = .mod then l % r else exactResult op l r)) := by
  rcases mem_validOperators.mp hop with rfl | rfl | rfl | rfl | rfl
  · exact eval_plus hl hr
  · exact eval_minus hl hr
  · exact eval_times hl hr
  · exact eval_division hl hr hlrange
  · exact eval_modulo hl hr

lemma integerOperation_eq {op : BinaryOperator} (hop : op ∈ validOperators) (hmod : op ≠ .mod)
    (hne : op = .div → r ≠ 0) : integerOperation t op l r = .ok (t.wrap (exactResult op l r)) := by
  rcases mem_validOperators.mp hop with rfl | rfl | rfl | rfl | rfl
  · rfl
  · rfl
  · rfl
  · exact if_neg (hne rfl)
  · exact absurd rfl hmod

lemma inRange_zero (t : IntegerType) : InRange t 0 := by
  have hpow : ∀ k : ℕ, (0 : ℤ) < 2 ^ k := fun k => pow_pos (by decide) k
  have hbits := hpow t.numBits
  have hpred := hpow (t.numBits - 1)
  unfold InRange IntegerType.minValue IntegerType.maxValue
  split_ifs <;> omega

lemma inRange_tmod (hl : InRange t l) (r : ℤ) : InRange t (l.tmod r) := by
  have hzero := inRange_zero t
  have habs : (l.tmod r).natAbs ≤ l.natAbs := (Int.natAbs_tmod l r).trans_le (Nat.mod_le _ _)
  unfold InRange at *
  rcases le_total 0 l with hpos | hneg
  · have := Int.tmod_nonneg r hpos
    omega
  · have hneg' := Int.tmod_nonneg r (Int.neg_nonneg_of_nonpos hneg)
    rw [Int.neg_tmod] at hneg'
    omega

lemma inRange_emod (l : ℤ) (hr : InRange t r) (hne : r ≠ 0) : InRange t (l % r) := by
  have hzero := inRange_zero t
  have hlow := Int.emod_nonneg l hne
  have hhigh := Int.emod_lt l hne
  have hsymm : r < 0 → -r ≤ t.maxValue + 1 := by
    intro hneg
    have hmin := hr.1
    unfold IntegerType.minValue at hmin
    unfold IntegerType.maxValue
    split_ifs at hmin ⊢ <;> omega
  unfold InRange at *
  omega

/-- On numbers of the type, with a divisor other than zero, what the checker computes is what the
language says, except for the remainder of a negative dividend that is no multiple of the
divisor. -/
theorem arithmeticOperation_matches_iff {op : BinaryOperator} (hop : op ∈ validOperators)
    (hl : left.eval values = some (.int l)) (hr : right.eval values = some (.int r))
    (hlrange : InRange t l) (hrrange : InRange t r) (hne : op = .div ∨ op = .mod → r ≠ 0) :
    ∃ result, arithmeticOperation op left right t = some result ∧
      (result.Matches values t op l r ↔ (op = .mod → 0 ≤ l ∨ r ∣ l)) := by
  have hvalue := eval_unboundedValue hop hl hr hlrange
  refine ⟨_, if_pos hop, ?_⟩
  by_cases hmod : op = .mod
  · subst hmod
    rw [if_pos rfl] at hvalue
    have hne' := hne (.inr rfl)
    have hemod := inRange_emod l hrrange hne'
    have htmod := inRange_tmod hlrange r
    have hwrapped := eval_wrapped (t := t) hvalue
    rw [IntegerType.wrap_of_inRange hemod] at hwrapped
    have hlanguage : integerOperation t .mod l r = .ok (l.tmod r) := if_neg hne'
    have hequal : l.tmod r = l % r ↔ 0 ≤ l ∨ r ∣ l := by
      rw [Int.tmod_eq_emod]
      split_ifs with hcase
      · simp [hcase]
      · simp only [hcase, iff_false]
        omega
    constructor
    · rintro ⟨⟨v, hv, heval⟩, -⟩ -
      rw [hlanguage] at hv
      obtain rfl := Except.ok.inj hv
      have hv' := heval.symm.trans hwrapped
      rw [some_inj, SmtValue.int.injEq] at hv'
      exact hequal.mp hv'
    · intro hcase
      have heq := hequal.mpr (hcase rfl)
      exact ⟨⟨_, hlanguage, by rw [heq]; exact hwrapped⟩, rfl, _, hvalue,
        iff_of_true hemod htmod⟩
  · rw [if_neg hmod] at hvalue
    refine iff_of_true ⟨⟨_, integerOperation_eq hop hmod fun h => hne (.inl h), ?_⟩, rfl, _, hvalue,
      Iff.rfl⟩ fun h => absurd h hmod
    exact eval_wrapped hvalue

end

theorem arithmeticOperation_matches_iff_mod :
    ∃ result, arithmeticOperation .mod (.number 7) (.number (-2)) ⟨8, true, by decide⟩ =
      some result ∧ (result.Matches (fun _ => none) ⟨8, true, by decide⟩ .mod 7 (-2) ↔
        (BinaryOperator.mod = .mod → (0 : ℤ) ≤ 7 ∨ (-2 : ℤ) ∣ 7)) :=
  arithmeticOperation_matches_iff (by decide) (eval_number 7) (eval_number (-2))
    ⟨by decide, by decide⟩ ⟨by decide, by decide⟩ (fun _ => by decide)

/-- The remainder of `-7` by `2` is `-1`, and the checker takes it for `1`. -/
theorem arithmeticOperation_remainder :
    ∃ result, arithmeticOperation .mod (.number (-7)) (.number 2) ⟨8, true, by decide⟩ =
      some result ∧ result.value.eval (fun _ => none) = some (.int 1) ∧
        integerOperation ⟨8, true, by decide⟩ .mod (-7) 2 = .ok (-1) ∧
        ¬ result.Matches (fun _ => none) ⟨8, true, by decide⟩ .mod (-7) 2 := by
  have hvalue := @eval_wrapped (fun _ => none) _ ⟨8, true, by decide⟩ _
    (eval_modulo (eval_number (-7)) (eval_number 2))
  refine ⟨_, if_pos (by decide), hvalue, rfl, ?_⟩
  rintro ⟨⟨v, hv, heval⟩, -⟩
  obtain rfl : -1 = v := Except.ok.inj hv
  cases heval.symm.trans hvalue

end Polynomial.Smt
