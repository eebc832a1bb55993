import Polc.Sof.ExpressionClasses.Termination
import Polc.Yul.Optimiser.DataFlowAnalyzer.Totality
import Polc.Yul.Optimiser.SimplificationRules

/-!
# The expression simplifier

`libyul/optimiser/ExpressionSimplifier.cpp`: how an expression is visited when values of variables
are known. It comes to an end: where no value leads back to its variable, variables weigh as much
as their values, and every turn of the loop makes the expression better. The data flow analysis
records no other values.
-/

namespace Yul

open Sof List Option Expression Pattern Bool

namespace ExpressionSimplifier

/-- Reasons for which there is no simplified expression. -/
inductive Stop where
  | exception (e : MatchException)
  /-- The model ran out of fuel. -/
  | timeout
  deriving DecidableEq, Repr

section

variable (dialect : Dialect) (ssaValues : SSAValues)

/-- The expression by which the loop replaces the given one, if it goes on. -/
def rewrite (e : Expression) : Except MatchException (Option Expression) :=
  match SimplificationRules.findFirstMatch dialect ssaValues e with
  | .error x => .error x
  | .ok none => .ok none
  | .ok (some (rule, groups)) =>
    -- Do not apply the rule if it removes non-constant parts of the expression.
    if rule.removesNonConstants && !e.movable dialect then .ok none
    else .ok (some (Pattern.toExpression groups (rule.action groups.d)))

/-- The loop. -/
def simplify (fuel : Nat) (e : Expression) : Except Stop Expression :=
  match fuel with
  | 0 => .error .timeout
  | fuel + 1 =>
    match rewrite dialect ssaValues e with
    | .error x => .error (.exception x)
    | .ok none => .ok e
    | .ok (some e') => simplify fuel e'

mutual

/-- Arguments first. -/
def visit (fuel : Nat) : Expression → Except Stop Expression
  | .functionalInstruction i args =>
    (visitArguments fuel args).bind fun args =>
      simplify dialect ssaValues fuel (.functionalInstruction i args)
  | .functionCall f args =>
    (visitArguments fuel args).bind fun args =>
      simplify dialect ssaValues fuel (.functionCall f args)
  | .identifier x => simplify dialect ssaValues fuel (.identifier x)
  | .literal l => simplify dialect ssaValues fuel (.literal l)

/-- From right to left. -/
def visitArguments (fuel : Nat) : List Expression → Except Stop (List Expression)
  | [] => .ok []
  | e :: es =>
    (visitArguments fuel es).bind fun es => (visit fuel e).bind fun e => .ok (e :: es)

end

end

end ExpressionSimplifier

/-! ### Weights of expressions -/

/-- The weight of a function, its arguments apart. -/
def functionWeight (dialect : Dialect) (f : YulString) : Nat :=
  ((dialect.builtin f).bind (·.instruction)).elim 1 Instruction.weight

mutual

/-- The weight of an expression for given weights of variables. -/
def Expression.weight (dialect : Dialect) (w : YulString → Nat) : Expression → Nat
  | .functionalInstruction i args => i.weight + argumentsWeight dialect w args
  | .functionCall f args => functionWeight dialect f + argumentsWeight dialect w args
  | .identifier x => w x
  | .literal _ => 1

def argumentsWeight (dialect : Dialect) (w : YulString → Nat) : List Expression → Nat
  | [] => 0
  | e :: es => e.weight dialect w + argumentsWeight dialect w es

end

/-- Weights of variables such that known values weigh as much as their variables. -/
structure SSAValues.Weights (dialect : Dialect) (ssaValues : SSAValues) where
  weight : YulString → Nat
  pos : ∀ x, 0 < weight x
  value : ∀ x e, ssaValues x = some e → e.weight dialect weight = weight x

/-- The value of `x` mentions `y`. -/
def SSAValues.Mentions (ssaValues : SSAValues) (y x : YulString) : Prop :=
  ∃ e, ssaValues x = some e ∧ y ∈ e.referencedVariables

/-- No value leads back to its variable. -/
abbrev SSAValues.Acyclic (ssaValues : SSAValues) : Prop := WellFounded ssaValues.Mentions

section

variable {dialect : Dialect} {ssaValues : SSAValues} {w w' : YulString → Nat}

mutual

lemma Expression.weight_congr (e : Expression)
    (h : ∀ x ∈ e.referencedVariables, w x = w' x) :
    e.weight dialect w = e.weight dialect w' := by
  match e with
  | .functionalInstruction i args =>
    rw [Expression.weight, Expression.weight, argumentsWeight_congr args h]
  | .functionCall f args =>
    rw [Expression.weight, Expression.weight, argumentsWeight_congr args h]
  | .identifier x => exact h x mem_cons_self
  | .literal l => rfl

lemma argumentsWeight_congr (es : List Expression)
    (h : ∀ x ∈ argumentsReferencedVariables es, w x = w' x) :
    argumentsWeight dialect w es = argumentsWeight dialect w' es := by
  match es with
  | [] => rfl
  | e :: es =>
    rw [argumentsReferencedVariables, forall_mem_append] at h
    rw [argumentsWeight, argumentsWeight, e.weight_congr h.1, argumentsWeight_congr es h.2]

end

lemma functionWeight_pos (f : YulString) : 0 < functionWeight dialect f := by
  unfold functionWeight
  cases (dialect.builtin f).bind (·.instruction) with
  | none => exact Nat.one_pos
  | some i => exact i.weight_pos

lemma Expression.weight_pos (hw : ∀ x, 0 < w x) (e : Expression) : 0 < e.weight dialect w := by
  cases e with
  | functionalInstruction i args => exact Nat.add_pos_left i.weight_pos _
  | functionCall f args => exact Nat.add_pos_left (functionWeight_pos f) _
  | identifier x => exact hw x
  | literal l => exact Nat.one_pos

namespace SSAValues.Acyclic

open Classical in
/-- The weight of a variable, found by following the values. -/
noncomputable def weight (dialect : Dialect) (h : ssaValues.Acyclic) : YulString → Nat :=
  WellFounded.fix h fun x ih => (ssaValues x).elim 1 fun e =>
    e.weight dialect fun y => if hy : ssaValues.Mentions y x then ih y hy else 1

lemma weight_eq (h : ssaValues.Acyclic) (x : YulString) :
    h.weight dialect x = (ssaValues x).elim 1 fun e => e.weight dialect (h.weight dialect) := by
  rw [weight, WellFounded.fix_eq]
  cases hx : ssaValues x with
  | none => rfl
  | some e => exact e.weight_congr fun y hy => dif_pos ⟨e, hx, hy⟩

lemma weight_pos (h : ssaValues.Acyclic) (x : YulString) : 0 < h.weight dialect x := by
  induction x using WellFounded.induction h with
  | _ x ih =>
    rw [weight_eq]
    cases hx : ssaValues x with
    | none => exact Nat.one_pos
    | some e =>
      have heq : e.weight dialect (h.weight dialect) =
          e.weight dialect fun y => max 1 (h.weight dialect y) :=
        e.weight_congr fun y hy => (Nat.max_eq_right (ih y ⟨e, hx, hy⟩)).symm
      rw [elim_some, heq]
      exact e.weight_pos fun y => Nat.le_max_left _ _

/-- Values weigh as much as their variables. -/
noncomputable def weights (dialect : Dialect) (h : ssaValues.Acyclic) :
    ssaValues.Weights dialect where
  weight := h.weight dialect
  pos := h.weight_pos
  value x e he := by rw [weight_eq, he, elim_some]

end SSAValues.Acyclic

end

/-! ### Matched expressions -/

section

variable (dialect : Dialect) (ssaValues : SSAValues)

/-- The expression is a number, or a variable whose value is one. -/
def Expression.isConstant (e : Expression) : Bool := (e.resolve ssaValues).numberLiteral.isSome

/-- An associative operation with a constant argument. -/
def Expression.settled (e : Expression) : Bool :=
  (instructionAndArguments dialect e).any fun (i, args) =>
    i.isAssociative && args.any (·.isConstant ssaValues)

mutual

/-- The pattern with what its placeholders have matched is the expression. -/
def Pattern.Matched (groups : MatchGroups) (p : Pattern) (e : Expression) : Prop :=
  match p with
  | .constant _ => e.isConstant ssaValues = true
  | .group g =>
    ∃ e', groups g = some e' ∧
      if g.isConstant then (e.resolve ssaValues).numberLiteral = e'.numberLiteral ∧
        e'.numberLiteral.isSome
      else e' = e ∨ e'.syntacticallyEqual e = true
  | .operation i ps =>
    ∃ args, instructionAndArguments dialect (e.resolve ssaValues) = some (i, args) ∧
      Pattern.ArgumentsMatched groups ps args

def Pattern.ArgumentsMatched (groups : MatchGroups) (ps : List Pattern)
    (args : List Expression) : Prop :=
  match ps, args with
  | [], [] => True
  | p :: ps, e :: es => Pattern.Matched groups p e ∧ Pattern.ArgumentsMatched groups ps es
  | _, _ => False

end

end

/-- What has been matched stays matched. -/
def MatchGroups.Le (groups groups' : MatchGroups) : Prop :=
  ∀ g e, groups g = some e → groups' g = some e

lemma MatchGroups.Le.refl (groups : MatchGroups) : groups.Le groups := fun _ _ h => h

variable {groups : MatchGroups}

lemma MatchGroups.Le.trans {groups' groups'' : MatchGroups} (h : groups.Le groups')
    (h' : groups'.Le groups'') : groups.Le groups'' := fun g e he => h' g e (h g e he)

lemma MatchGroups.le_set {g : MatchGroup} (h : groups g = none) (e : Expression) :
    groups.Le (groups.set g e) := by
  intro g' e' he'
  unfold MatchGroups.set
  split
  · subst g'
    rw [h] at he'
    cases he'
  · exact he'

@[simp] lemma MatchGroups.set_self (groups : MatchGroups) (g : MatchGroup) (e : Expression) :
    groups.set g e g = some e := if_pos rfl

variable {e : Expression}

lemma numberLiteral_literal {l : Literal} (h : e.numberLiteral = some l) :
    (Expression.literal l).numberLiteral = some l := by
  cases e with
  | literal l' =>
    rw [Expression.numberLiteral] at h
    split_ifs at h with hkind
    cases h
    exact if_pos hkind
  | _ => cases h

section

variable {dialect : Dialect} {ssaValues : SSAValues}

mutual

lemma Pattern.matched_of_matches (p : Pattern) {e : Expression} {groups groups' : MatchGroups}
    (h : Pattern.matches dialect ssaValues p e groups = .ok (some groups')) :
    groups.Le groups' ∧
      ∀ final, groups'.Le final → Pattern.Matched dialect ssaValues final p e := by
  match p with
  | .constant w =>
    rw [matches_constant] at h
    split at h
    · cases h
    · rename_i l hl
      split at h
      · cases h
        refine ⟨.refl _, fun final _ => ?_⟩
        rw [Pattern.Matched, Expression.isConstant, hl]
        rfl
      · cases h
  | .group g =>
    rw [matches_group] at h
    split at h
    · rename_i hg
      split at h
      · cases h
      · rename_i l hl
        split at h
        · cases h
        · rename_i hnone
          cases h
          refine ⟨MatchGroups.le_set hnone _, fun final hfinal => ?_⟩
          refine ⟨.literal l, hfinal g _ (groups.set_self g _), ?_⟩
          rw [if_pos hg, hl, numberLiteral_literal hl]
          exact ⟨rfl, rfl⟩
    · rename_i hg
      split at h
      · rename_i e' he'
        split at h
        · rename_i hequal
          cases h
          refine ⟨.refl _, fun final hfinal => ⟨e', hfinal g e' he', ?_⟩⟩
          rw [and_eq_true] at hequal
          rw [if_neg hg]
          exact .inr hequal.1
        · cases h
      · rename_i hnone
        cases h
        refine ⟨MatchGroups.le_set hnone _, fun final hfinal => ?_⟩
        refine ⟨e, hfinal g e (groups.set_self g e), ?_⟩
        rw [if_neg hg]
        exact .inl rfl
  | .operation i ps =>
    rw [matches_operation] at h
    split at h
    · cases h
    · rename_i i' args hargs
      by_cases hi : i = i'
      swap
      · rw [if_pos hi] at h
        cases h
      subst hi
      rw [if_neg (not_not_intro rfl)] at h
      split_ifs at h with hlen
      obtain ⟨hle, hmatched⟩ := argumentsMatched_of_matches ps hlen h
      exact ⟨hle, fun final hfinal => ⟨args, hargs, hmatched final hfinal⟩⟩

lemma Pattern.argumentsMatched_of_matches (ps : List Pattern) {es : List Expression}
    {groups groups' : MatchGroups} (hlen : ps.length = es.length)
    (h : Pattern.matchesArguments dialect ssaValues ps es groups = .ok (some groups')) :
    groups.Le groups' ∧
      ∀ final, groups'.Le final → Pattern.ArgumentsMatched dialect ssaValues final ps es := by
  match ps, es with
  | [], [] =>
    cases h
    exact ⟨.refl _, fun _ _ => trivial⟩
  | p :: ps, e :: es =>
    rw [matchesArguments_cons] at h
    split at h
    · rename_i groups₁ hp
      obtain ⟨hle, hmatched⟩ := matched_of_matches p hp
      obtain ⟨hle', hmatched'⟩ := argumentsMatched_of_matches ps (Nat.succ.inj hlen) h
      exact ⟨hle.trans hle', fun final hfinal =>
        ⟨hmatched final (hle'.trans hfinal), hmatched' final hfinal⟩⟩
    · rename_i hne
      exact absurd h (hne groups')

end

/-! ### Weights of matched expressions -/

variable (W : ssaValues.Weights dialect)

/-- The weights of what the placeholders have matched. -/
def MatchGroups.weighing (groups : MatchGroups) : Weighing where
  value g := if g.isConstant then 1 else (groups g).elim 1 (·.weight dialect W.weight)
  pos g := by
    split
    · exact Nat.one_pos
    · cases groups g with
      | none => exact Nat.one_pos
      | some e => exact e.weight_pos W.pos
  constant g hg := if_pos hg

mutual

lemma Expression.weight_eq_of_equal {w : YulString → Nat} (e e' : Expression)
    (h : e.syntacticallyEqual e') : e.weight dialect w = e'.weight dialect w := by
  match e, e' with
  | .functionalInstruction i args, .functionalInstruction i' args' =>
    simp only [Expression.syntacticallyEqual, and_eq_true, decide_eq_true_eq] at h
    rw [Expression.weight, Expression.weight, h.1, argumentsWeight_eq_of_equal args args' h.2]
  | .functionCall f args, .functionCall f' args' =>
    simp only [Expression.syntacticallyEqual, and_eq_true, decide_eq_true_eq] at h
    rw [Expression.weight, Expression.weight, h.1, argumentsWeight_eq_of_equal args args' h.2]
  | .identifier x, .identifier y =>
    simp only [Expression.syntacticallyEqual, decide_eq_true_eq] at h
    rw [h]
  | .literal _, .literal _ => rfl

lemma argumentsWeight_eq_of_equal {w : YulString → Nat} (es es' : List Expression)
    (h : argumentsSyntacticallyEqual es es') :
    argumentsWeight dialect w es = argumentsWeight dialect w es' := by
  match es, es' with
  | [], [] => rfl
  | e :: es, e' :: es' =>
    rw [argumentsSyntacticallyEqual, and_eq_true] at h
    rw [argumentsWeight, argumentsWeight, e.weight_eq_of_equal e' h.1,
      argumentsWeight_eq_of_equal es es' h.2]

end

lemma Expression.weight_resolve (e : Expression) :
    (e.resolve ssaValues).weight dialect W.weight = e.weight dialect W.weight := by
  cases e with
  | identifier x =>
    rw [resolve]
    cases hx : ssaValues x with
    | none => rfl
    | some v => exact W.value x v hx
  | _ => rfl

variable {i : Instruction}

lemma weight_of_arguments {w : YulString → Nat} {args : List Expression}
    (h : instructionAndArguments dialect e = some (i, args)) :
    e.weight dialect w = i.weight + argumentsWeight dialect w args := by
  cases e with
  | functionalInstruction i' args' =>
    cases h
    rfl
  | functionCall f args' =>
    simp only [instructionAndArguments, bind_eq_some_iff, map_eq_some_iff,
      Prod.mk.injEq] at h
    obtain ⟨b, hb, i', hi, rfl, rfl⟩ := h
    rw [Expression.weight, functionWeight, hb, bind_some, hi, elim_some]
  | identifier x => cases h
  | literal l => cases h

mutual

lemma Pattern.weight_le_of_matched {groups : MatchGroups} (p : Pattern) {e : Expression}
    (h : Pattern.Matched dialect ssaValues groups p e) :
    p.weight (groups.weighing W) ≤ e.weight dialect W.weight := by
  match p with
  | .constant w => exact e.weight_pos W.pos
  | .group g =>
    obtain ⟨e', he', h⟩ := h
    simp only [weight_group, MatchGroups.weighing]
    by_cases hg : g.isConstant = true
    · rw [if_pos hg]
      exact e.weight_pos W.pos
    · rw [if_neg hg] at h ⊢
      rw [he', elim_some]
      rcases h with rfl | h
      · exact le_rfl
      · exact (e'.weight_eq_of_equal e h).le
  | .operation i ps =>
    obtain ⟨args, hargs, hmatched⟩ := h
    rw [← e.weight_resolve W, weight_of_arguments hargs, weight_operation]
    exact Nat.add_le_add_left (weightOfArguments_le_of_matched ps hmatched) _

lemma Pattern.weightOfArguments_le_of_matched {groups : MatchGroups} (ps : List Pattern)
    {es : List Expression} (h : Pattern.ArgumentsMatched dialect ssaValues groups ps es) :
    Pattern.weightOfArguments (groups.weighing W) ps ≤ argumentsWeight dialect W.weight es := by
  match ps, es with
  | [], [] => exact le_rfl
  | p :: ps, e :: es =>
    rw [Pattern.weightOfArguments, argumentsWeight]
    exact Nat.add_le_add (weight_le_of_matched p h.1)
      (weightOfArguments_le_of_matched ps h.2)

end

/-- The placeholders for constants have matched numbers. -/
def MatchGroups.Numbers (groups : MatchGroups) (gs : List MatchGroup) : Prop :=
  ∀ g ∈ gs, g.isConstant = true → ∃ l, groups g = some (.literal l) ∧ l.kind = .number

lemma eq_literal_of_numberLiteral (h : e.numberLiteral.isSome) :
    ∃ l, e = .literal l ∧ l.kind = .number := by
  cases e with
  | literal l =>
    refine ⟨l, rfl, ?_⟩
    rw [Expression.numberLiteral] at h
    split_ifs at h with hkind
    · exact hkind
    · cases h
  | _ => cases h

mutual

lemma Pattern.numbers_of_matched {groups : MatchGroups} (p : Pattern) {e : Expression}
    (h : Pattern.Matched dialect ssaValues groups p e) : groups.Numbers p.groups := by
  match p with
  | .constant w => exact fun g hg => absurd hg not_mem_nil
  | .group g =>
    obtain ⟨e', he', h⟩ := h
    intro g' hg' hconst
    obtain rfl := mem_singleton.mp hg'
    rw [if_pos hconst] at h
    obtain ⟨l, rfl, hl⟩ := eq_literal_of_numberLiteral h.2
    exact ⟨l, he', hl⟩
  | .operation i ps =>
    obtain ⟨args, -, hmatched⟩ := h
    exact numbers_of_argumentsMatched ps hmatched

lemma Pattern.numbers_of_argumentsMatched {groups : MatchGroups} (ps : List Pattern)
    {es : List Expression} (h : Pattern.ArgumentsMatched dialect ssaValues groups ps es) :
    groups.Numbers (Pattern.groupsOfArguments ps) := by
  match ps, es with
  | [], [] => exact fun g hg => absurd hg not_mem_nil
  | p :: ps, e :: es =>
    intro g hg
    rcases mem_append.mp hg with hg | hg
    · exact numbers_of_matched p h.1 g hg
    · exact numbers_of_argumentsMatched ps h.2 g hg

end

mutual

lemma Pattern.weight_toExpression_le {groups : MatchGroups} (p : Pattern)
    (h : groups.Numbers p.groups) :
    (Pattern.toExpression groups p).weight dialect W.weight ≤ p.weight (groups.weighing W) := by
  match p with
  | .constant w => exact le_rfl
  | .group g =>
    simp only [Pattern.toExpression, weight_group, MatchGroups.weighing]
    split
    · rename_i hg
      obtain ⟨l, hl, -⟩ := h g mem_cons_self hg
      rw [hl]
      exact le_rfl
    · cases groups g <;> exact le_rfl
  | .operation i ps =>
    simp only [Pattern.toExpression, Expression.weight, weight_operation]
    exact Nat.add_le_add_left (argumentsWeight_toExpressions_le ps h) _

lemma Pattern.argumentsWeight_toExpressions_le {groups : MatchGroups} (ps : List Pattern)
    (h : groups.Numbers (Pattern.groupsOfArguments ps)) :
    argumentsWeight dialect W.weight (Pattern.toExpressions groups ps) ≤
      Pattern.weightOfArguments (groups.weighing W) ps := by
  match ps with
  | [] => exact le_rfl
  | p :: ps =>
    rw [Pattern.toExpressions, argumentsWeight, Pattern.weightOfArguments]
    exact Nat.add_le_add
      (weight_toExpression_le p fun g hg => h g (mem_append_left _ hg))
      (argumentsWeight_toExpressions_le ps fun g hg => h g (mem_append_right _ hg))

end

lemma isConstant_literal {l : Literal} (h : l.kind = .number) :
    (Expression.literal l).isConstant ssaValues := by
  change (Expression.literal l).numberLiteral.isSome = true
  rw [Expression.numberLiteral, if_pos h]
  rfl

variable {p : Pattern}

lemma Pattern.isConstant_toExpression (hp : p.isConstant) (h : groups.Numbers p.groups) :
    (Pattern.toExpression groups p).isConstant ssaValues := by
  cases p with
  | constant w => rfl
  | group g =>
    obtain ⟨l, hl, hkind⟩ := h g mem_cons_self hp
    rw [Pattern.toExpression, hl]
    exact isConstant_literal hkind
  | operation i ps => cases hp

lemma Pattern.any_isConstant_toExpressions {ps : List Pattern}
    (hps : ps.any Pattern.isConstant) (h : groups.Numbers (Pattern.groupsOfArguments ps)) :
    (Pattern.toExpressions groups ps).any (·.isConstant ssaValues) := by
  induction ps with
  | nil => cases hps
  | cons p ps ih =>
    rw [any_cons, or_eq_true] at hps
    rw [Pattern.toExpressions, any_cons, or_eq_true]
    rcases hps with hp | hps
    · exact .inl (isConstant_toExpression hp fun g hg => h g (mem_append_left _ hg))
    · exact .inr (ih hps fun g hg => h g (mem_append_right _ hg))

lemma Pattern.settled_toExpression (hp : p.settled) (h : groups.Numbers p.groups) :
    (Pattern.toExpression groups p).settled dialect ssaValues := by
  cases p with
  | operation i ps =>
    rw [Pattern.settled, and_eq_true] at hp
    simp only [Pattern.toExpression, Expression.settled, instructionAndArguments, any_some,
      and_eq_true]
    exact ⟨hp.1, any_isConstant_toExpressions hp.2 h⟩
  | _ => cases hp

/-! ### Rules that are found -/

lemma Pattern.exists_two_of_matched {matched : MatchGroups} {p q : Pattern}
    {args : List Expression}
    (h : Pattern.ArgumentsMatched dialect ssaValues matched [p, q] args) :
    ∃ x y, args = [x, y] ∧ Pattern.Matched dialect ssaValues matched p x ∧
      Pattern.Matched dialect ssaValues matched q y := by
  rcases args with _ | ⟨x, _ | ⟨y, _ | ⟨z, zs⟩⟩⟩
  · cases h
  · cases h.2
  · exact ⟨x, y, rfl, h.1, h.2.1⟩
  · cases h.2.2

open MatchGroup in
lemma Pattern.matches_of_matched {op : Instruction} {xa : List Pattern}
    (hxa : xa = [.group X, .group A] ∨ xa = [.group A, .group X]) {matched : MatchGroups}
    (h : Pattern.Matched dialect ssaValues matched (.operation op xa) e) (groups : MatchGroups)
    (hX : groups X = none) (hA : groups A = none) :
    ∃ groups', Pattern.matches dialect ssaValues (.operation op xa) e groups = .ok (some groups') ∧
      groups' B = groups B := by
  obtain ⟨args, hargs, hmatched⟩ := h
  rw [matches_operation, hargs]
  have hconst {a : Expression} (ha : Pattern.Matched dialect ssaValues matched (.group A) a) :
      ∃ l, (a.resolve ssaValues).numberLiteral = some l := by
    obtain ⟨a', -, heq, hsome⟩ := ha
    exact isSome_iff_exists.mp (heq ▸ hsome)
  rcases hxa with rfl | rfl
  · obtain ⟨x, a, rfl, -, ha⟩ := exists_two_of_matched hmatched
    obtain ⟨l, hl⟩ := hconst ha
    refine ⟨(groups.set X x).set A (.literal l), ?_, ?_⟩
    · simp [matchesArguments_cons, matchesArguments_nil, matches_group,
        MatchGroup.isConstant, hX, hA, hl, MatchGroups.set]
    · simp [MatchGroups.set]
  · obtain ⟨a, x, rfl, ha, -⟩ := exists_two_of_matched hmatched
    obtain ⟨l, hl⟩ := hconst ha
    refine ⟨(groups.set A (.literal l)).set X x, ?_, ?_⟩
    · simp [matchesArguments_cons, matchesArguments_nil, matches_group,
        MatchGroup.isConstant, hX, hA, hl, MatchGroups.set]
    · simp [MatchGroups.set]

lemma Pattern.matches_constantGroup (dialect : Dialect) {g : MatchGroup}
    (hg : g.isConstant) (he : e.isConstant ssaValues) (groups : MatchGroups)
    (hgroups : groups g = none) :
    ∃ l, Pattern.matches dialect ssaValues (.group g) e groups =
      .ok (some (groups.set g (.literal l))) := by
  obtain ⟨l, hl⟩ := isSome_iff_exists.mp he
  exact ⟨l, by simp [matches_group, hg, hl, hgroups]⟩

lemma Pattern.isConstant_of_matched {matched : MatchGroups} {op : Instruction} {ps : List Pattern}
    (h : Pattern.Matched dialect ssaValues matched (.operation op ps) e) :
    e.isConstant ssaValues = false := by
  obtain ⟨args, hargs, -⟩ := h
  unfold Expression.isConstant
  cases he : e.resolve ssaValues with
  | literal l =>
    rw [he] at hargs
    cases hargs
  | _ => rfl

namespace SimplificationRules

lemma findFirstMatchIn_cons {e : Expression} {r rule : SimplificationRule}
    {rs : List SimplificationRule} {groups : MatchGroups}
    (h : findFirstMatchIn dialect ssaValues e (r :: rs) = .ok (some (rule, groups))) :
    rule = r ∧ Pattern.matches dialect ssaValues r.pattern e (fun _ => none) = .ok (some groups) ∨
      (∀ groups', Pattern.matches dialect ssaValues r.pattern e (fun _ => none) =
        .ok (some groups') → r.feasible groups'.d = false) ∧
      findFirstMatchIn dialect ssaValues e rs = .ok (some (rule, groups)) := by
  rw [findFirstMatchIn] at h
  split at h
  · cases h
  · rename_i hnone
    refine .inr ⟨fun groups' h' => ?_, h⟩
    rw [hnone] at h'
    cases h'
  · rename_i groups₁ hsome
    split_ifs at h with hfeasible
    · cases h
      exact .inl ⟨rfl, hsome⟩
    · refine .inr ⟨fun groups' h' => ?_, h⟩
      rw [hsome] at h'
      cases h'
      exact eq_false_iff.mpr hfeasible

end SimplificationRules

lemma Expression.resolve_of_instruction {args : List Expression}
    (h : instructionAndArguments dialect e = some (i, args)) : e.resolve ssaValues = e := by
  cases e with
  | identifier x => cases h
  | _ => rfl

section

variable {op : Instruction} {xa : List Pattern} {e : Expression} {groups : MatchGroups}

open MatchGroup

/-- Where the rule for a constant on the right does not apply, the outer operation has none. -/
lemma Expression.settled_eq_false_of_right
    (hxa : xa = [.group X, .group A] ∨ xa = [.group A, .group X])
    (he : e.resolve ssaValues = e)
    (h : Pattern.Matched dialect ssaValues groups (.operation op [.operation op xa, .group Y]) e)
    (hnot : ∀ groups', Pattern.matches dialect ssaValues
      (.operation op [.operation op xa, .group B]) e (fun _ => none) ≠ .ok (some groups')) :
    e.settled dialect ssaValues = false := by
  obtain ⟨args, hargs, hmatched⟩ := h
  match args, hmatched with
  | [e₁, e₂], ⟨h₁, _, _⟩ =>
    have h₂ : e₂.isConstant ssaValues = false := by
      rw [eq_false_iff]
      intro hconst
      obtain ⟨groups₁, hm₁, hB⟩ := matches_of_matched hxa h₁ (fun _ => none) rfl rfl
      obtain ⟨l, hm₂⟩ := matches_constantGroup dialect (g := B) rfl hconst groups₁ hB
      refine hnot (groups₁.set B (.literal l)) ?_
      rw [matches_operation, hargs]
      simp [matchesArguments_cons, matchesArguments_nil, hm₁, hm₂]
    rw [he] at hargs
    simp [Expression.settled, hargs, isConstant_of_matched h₁, h₂]

lemma Expression.settled_eq_false_of_left
    (hxa : xa = [.group X, .group A] ∨ xa = [.group A, .group X])
    (he : e.resolve ssaValues = e)
    (h : Pattern.Matched dialect ssaValues groups (.operation op [.group Y, .operation op xa]) e)
    (hnot : ∀ groups', Pattern.matches dialect ssaValues
      (.operation op [.group B, .operation op xa]) e (fun _ => none) ≠ .ok (some groups')) :
    e.settled dialect ssaValues = false := by
  obtain ⟨args, hargs, hmatched⟩ := h
  match args, hmatched with
  | [e₁, e₂], ⟨_, h₂, _⟩ =>
    have h₁ : e₁.isConstant ssaValues = false := by
      rw [eq_false_iff]
      intro hconst
      obtain ⟨l, hm₁⟩ := matches_constantGroup dialect (g := B) rfl hconst
        (fun _ => none) rfl
      obtain ⟨groups₂, hm₂, -⟩ := matches_of_matched hxa h₂
        (MatchGroups.set (fun _ => none) B (.literal l)) rfl rfl
      refine hnot groups₂ ?_
      rw [matches_operation, hargs]
      simp [matchesArguments_cons, matchesArguments_nil, hm₁, hm₂]
    rw [he] at hargs
    simp [Expression.settled, hargs, isConstant_of_matched h₂, h₁]

end

lemma Pattern.instruction_of_matched (hp : p.instruction = some i)
    (h : Pattern.Matched dialect ssaValues groups p e) :
    ∃ args, instructionAndArguments dialect (e.resolve ssaValues) = some (i, args) := by
  cases p with
  | operation i' ps =>
    cases hp
    obtain ⟨args, hargs, -⟩ := h
    exact ⟨args, hargs⟩
  | _ => cases hp

namespace SimplificationRules

variable {e : Expression} {rule : SimplificationRule} {groups : MatchGroups}

variable {rs : List SimplificationRule}

lemma matched_of_findFirstMatchIn
    (h : findFirstMatchIn dialect ssaValues e rs = .ok (some (rule, groups))) :
    rule ∈ rs ∧ Pattern.Matched dialect ssaValues groups rule.pattern e := by
  induction rs with
  | nil => cases h
  | cons r rs ih =>
    rcases findFirstMatchIn_cons h with ⟨rfl, hmatch⟩ | ⟨-, hrest⟩
    · exact ⟨mem_cons_self, (matched_of_matches _ hmatch).2 _ (.refl _)⟩
    · exact ⟨mem_cons_of_mem _ (ih hrest).1, (ih hrest).2⟩

lemma improves_of_lightens (h : rule.Lightens)
    (hmatched : Pattern.Matched dialect ssaValues groups rule.pattern e) (settled : Bool) :
    (rule.action groups.d).Improves (groups.weighing W) (e.weight dialect W.weight) settled :=
  .inl (Nat.lt_of_lt_of_le (h _ _) (weight_le_of_matched W _ hmatched))

lemma improves_of_settles (h : rule.Settles)
    (hmatched : Pattern.Matched dialect ssaValues groups rule.pattern e)
    (hsettled : e.settled dialect ssaValues = false) :
    (rule.action groups.d).Improves (groups.weighing W) (e.weight dialect W.weight)
      (e.settled dialect ssaValues) :=
  .inr ⟨(h.weight_le _ _).trans (weight_le_of_matched W _ hmatched), h.settled _,
    hsettled⟩

/-- Every rule that is found improves the expression: those that only move a constant out are not
found where one is outside already. -/
lemma improves_of_findFirstMatchIn (hrs : Terminating rs) {i : Instruction}
    {args : List Expression} (he : instructionAndArguments dialect e = some (i, args))
    (h : findFirstMatchIn dialect ssaValues e rs = .ok (some (rule, groups))) :
    (rule.action groups.d).Improves (groups.weighing W) (e.weight dialect W.weight)
      (e.settled dialect ssaValues) := by
  have hresolve : e.resolve ssaValues = e := resolve_of_instruction he
  induction hrs with
  | nil => cases h
  | lightens hr _ ih =>
    rcases findFirstMatchIn_cons h with ⟨rfl, hmatch⟩ | ⟨-, hrest⟩
    · exact improves_of_lightens W hr ((matched_of_matches _ hmatch).2 _ (.refl _)) _
    · exact ih hrest
  | @settles r rs i' hi hassoc hr _ ih =>
    rcases findFirstMatchIn_cons h with ⟨rfl, hmatch⟩ | ⟨-, hrest⟩
    · have hmatched := (matched_of_matches _ hmatch).2 _ (.refl _)
      refine improves_of_settles W hr hmatched ?_
      obtain ⟨args', hargs⟩ := instruction_of_matched hi hmatched
      rw [hresolve] at hargs
      simp [Expression.settled, hargs, hassoc]
    · exact ih hrest
  | @regroups op f xa rs hop hxa _ ih =>
    obtain ⟨r₁, r₂, r₃, r₄, heq, ⟨h₁, hp₁, hf₁⟩, ⟨h₂, hp₂⟩, ⟨h₃, hp₃, hf₃⟩, h₄, hp₄⟩ :=
      RuleList.moveConstantOut_eq hop f hxa
    rw [heq] at h
    rcases findFirstMatchIn_cons h with ⟨rfl, hmatch⟩ | ⟨hnot₁, h⟩
    · exact improves_of_lightens W h₁ ((matched_of_matches _ hmatch).2 _ (.refl _)) _
    rcases findFirstMatchIn_cons h with ⟨rfl, hmatch⟩ | ⟨-, h⟩
    · have hmatched := (matched_of_matches _ hmatch).2 _ (.refl _)
      refine improves_of_settles W h₂ hmatched ?_
      rw [hp₂] at hmatched
      refine settled_eq_false_of_right hxa hresolve hmatched fun groups' hmatch' => ?_
      exact absurd (hf₁ _) (eq_false_iff.mp (hnot₁ groups' (hp₁ ▸ hmatch')))
    rcases findFirstMatchIn_cons h with ⟨rfl, hmatch⟩ | ⟨hnot₃, h⟩
    · exact improves_of_lightens W h₃ ((matched_of_matches _ hmatch).2 _ (.refl _)) _
    rcases findFirstMatchIn_cons h with ⟨rfl, hmatch⟩ | ⟨-, h⟩
    · have hmatched := (matched_of_matches _ hmatch).2 _ (.refl _)
      refine improves_of_settles W h₄ hmatched ?_
      rw [hp₄] at hmatched
      refine settled_eq_false_of_left hxa hresolve hmatched fun groups' hmatch' => ?_
      exact absurd (hf₃ _) (eq_false_iff.mp (hnot₃ groups' (hp₃ ▸ hmatch')))
    · exact ih h

end SimplificationRules

namespace ExpressionSimplifier

/-- What every turn of the loop makes smaller. -/
def potential (e : Expression) : Nat :=
  Sof.potential (e.weight dialect W.weight) (e.settled dialect ssaValues)

variable {e e' : Expression}

lemma potential_rewrite_lt (h : rewrite dialect ssaValues e = .ok (some e')) :
    potential W e' < potential W e := by
  unfold rewrite at h
  split at h
  · cases h
  · cases h
  · rename_i rule groups hfound
    split at h
    · cases h
    cases h
    unfold SimplificationRules.findFirstMatch at hfound
    split at hfound
    · cases hfound
    · rename_i i args hargs
      have himproves := SimplificationRules.improves_of_findFirstMatchIn W
        (terminating_rules.filter i) hargs hfound
      obtain ⟨hmem, hmatched⟩ := SimplificationRules.matched_of_findFirstMatchIn hfound
      have hclosed := closed_of_mem_rules (Rules.mem_rulesFor hmem).1
      have hnumbers : groups.Numbers (rule.action groups.d).groups := fun g hg =>
        numbers_of_matched _ hmatched g (hclosed.groups_action groups.d hg)
      refine lt_of_le_of_lt ?_ himproves.potential_lt
      exact potential_mono (weight_toExpression_le W _ hnumbers) fun hp =>
        settled_toExpression hp hnumbers

lemma settles_simplify (W : ssaValues.Weights dialect) (e : Expression) :
    Semantics.Settles .timeout fun fuel => simplify dialect ssaValues fuel e := by
  induction hn : potential W e using Nat.strong_induction_on generalizing e with
  | _ n ih =>
    refine .succ ?_
    simp only [simplify]
    cases hrewrite : rewrite dialect ssaValues e with
    | error x => exact .const nofun
    | ok next =>
      cases next with
      | none => exact .const nofun
      | some e' => exact ih _ (hn ▸ potential_rewrite_lt W hrewrite) e' rfl

mutual

lemma settles_visit (W : ssaValues.Weights dialect) (e : Expression) :
    Semantics.Settles .timeout fun fuel => visit dialect ssaValues fuel e := by
  match e with
  | .functionalInstruction i args =>
    exact (settles_visitArguments W args).bind fun _ args' _ => settles_simplify W _
  | .functionCall f args =>
    exact (settles_visitArguments W args).bind fun _ args' _ => settles_simplify W _
  | .identifier x => exact settles_simplify W _
  | .literal l => exact settles_simplify W _

lemma settles_visitArguments (W : ssaValues.Weights dialect) (es : List Expression) :
    Semantics.Settles .timeout fun fuel => visitArguments dialect ssaValues fuel es := by
  match es with
  | [] => exact .const nofun
  | e :: es =>
    exact (settles_visitArguments W es).bind fun _ es' _ =>
      (settles_visit W e).bind fun _ e' _ => .const nofun

end

end ExpressionSimplifier

end

lemma SSAValues.acyclic_of_rank {ssaValues : SSAValues} (rank : YulString → Nat)
    (h : ∀ x e, ssaValues x = some e → ∀ y ∈ e.referencedVariables, rank y < rank x) :
    ssaValues.Acyclic := by
  refine Subrelation.wf ?_ (InvImage.wf rank Nat.lt_wfRel.wf)
  rintro y x ⟨e, he, hy⟩
  exact h x e he y hy

/-- The values that the data flow analysis records do not lead back to their variables. -/
lemma DataFlowAnalyzer.Consistent.acyclic_value {S : DataFlowAnalyzer} (h : S.Consistent) :
    SSAValues.Acyclic S.value := by
  obtain ⟨rank, hrank⟩ := h.acyclic
  exact SSAValues.acyclic_of_rank rank hrank

/-- Wherever the analysis comes to an expression, the simplifier visits it in finitely many
steps. -/
theorem DataFlowAnalyzer.Ready.settles_visit {dialect : Dialect} {Γ : Scope}
    {S : DataFlowAnalyzer} (h : S.Ready dialect Γ) (e : Expression) :
    Semantics.Settles .timeout fun fuel => ExpressionSimplifier.visit dialect S.value fuel e :=
  ExpressionSimplifier.settles_visit (h.consistent.acyclic_value.weights dialect) e

/-- Algebraic simplification ends: of Yul expressions, where no known value leads back to its
variable, and of assembly expressions over known classes. -/
theorem simplification_terminates :
    (∀ (dialect : Dialect) (ssaValues : SSAValues), ssaValues.Acyclic → ∀ e : Expression,
      Semantics.Settles .timeout (ExpressionSimplifier.simplify dialect ssaValues · e) ∧
        Semantics.Settles .timeout (ExpressionSimplifier.visit dialect ssaValues · e)) ∧
      ∀ s : ExpressionClasses.State, ExpressionClasses.Reachable s →
        ∀ (item : AssemblyItem) (arguments : List ExpressionClasses.Id) (sequenceNumber : Nat),
          (∀ a ∈ arguments, a < s.size) →
            Semantics.Settles .timeout
              (ExpressionClasses.find · s item arguments sequenceNumber) := by
  refine ⟨fun dialect ssaValues h e => ⟨?_, ?_⟩, fun s hs item arguments n harguments => ?_⟩
  · exact ExpressionSimplifier.settles_simplify (h.weights dialect) e
  · exact ExpressionSimplifier.settles_visit (h.weights dialect) e
  · exact ExpressionClasses.settles_find hs.coherent item arguments harguments n

/-- `x`, which is `add(y, 2)`, plus 1; and the word 1 in a class of its own. -/
theorem simplification_terminates_sum :
    Semantics.Settles .timeout
        (ExpressionSimplifier.visit .strictAssemblyForSVMObjects
          (fun x => if x = "x" then
            some (.functionalInstruction .add [.identifier "y", .literal (.number "2")]) else none)
          · (.functionalInstruction .add [.identifier "x", .literal (.number "1")])) ∧
      Semantics.Settles .timeout (ExpressionClasses.find · ⟨⟨[]⟩, []⟩ (.push 1) [] 0) := by
  have hacyclic : SSAValues.Acyclic fun x => if x = "x" then
      some (.functionalInstruction .add [.identifier "y", .literal (.number "2")]) else none := by
    refine SSAValues.acyclic_of_rank (fun x => if x = "x" then 1 else 0) fun x e he y hy => ?_
    split_ifs at he with hx
    cases he
    obtain rfl : y = "y" := mem_singleton.mp hy
    rw [if_pos hx]
    decide
  exact ⟨(simplification_terminates.1 _ _ hacyclic _).2,
    simplification_terminates.2 _ .empty _ [] 0 nofun⟩

/-- A mask of a variable, which the variable is said to equal. -/
def ownMask : Expression :=
  .functionalInstruction .and [.identifier "x", .literal (.number "5")]

set_option maxRecDepth 4000 in
/-- `and(x, 5)` is replaced by itself where `x` is said to equal `and(x, 5)`. -/
theorem simplify_ownMask :
    ¬ Semantics.Settles .timeout
      (ExpressionSimplifier.simplify .strictAssemblyForSVMObjects
        (fun x => if x = "x" then some ownMask else none) · ownMask) := by
  have hloop (fuel : Nat) : ExpressionSimplifier.simplify .strictAssemblyForSVMObjects
      (fun x => if x = "x" then some ownMask else none) fuel ownMask = .error .timeout := by
    induction fuel with
    | zero => rfl
    | succ fuel ih => exact ih
  rintro ⟨n, r, hr, hsettles⟩
  exact hr ((hsettles n le_rfl).symm.trans (hloop n))

end Yul
