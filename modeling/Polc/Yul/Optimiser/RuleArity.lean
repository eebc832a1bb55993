import Polc.Yul.Optimiser.SimplificationRules

/-!
# The matcher and the number of arguments of opcodes

The rules for the mask of addresses leave out the arguments of `CREATE` and `CREATE2`, which
the assembly optimiser allows. The matcher for Yul asserts that an opcode in a pattern has
as many arguments as the one it is compared to, so it aborts where such a rule is reached.
-/

namespace Yul

open Sof List Expression

/-! ### Arguments of opcodes -/

/-- A call of `f` has as many arguments as the builtin function takes, if `f` is one. -/
def arityCorrect (dialect : Dialect) (f : YulString) (args : List Expression) : Bool :=
  match dialect.builtin f with
  | some b => args.length = b.parameters
  | none => true

mutual

/-- Each opcode is applied to as many arguments as it takes. -/
def Expression.arityCorrect (dialect : Dialect) : Expression → Bool
  | .functionalInstruction i args =>
    args.length = (instructionInfo i).args && argumentsArityCorrect dialect args
  | .functionCall f args =>
    Yul.arityCorrect dialect f args && argumentsArityCorrect dialect args
  | .identifier _ | .literal _ => true

def argumentsArityCorrect (dialect : Dialect) : List Expression → Bool
  | [] => true
  | e :: es => e.arityCorrect dialect && argumentsArityCorrect dialect es

end

mutual

/-- Each opcode of a pattern is applied to as many arguments as it takes. -/
def Pattern.arityCorrect : Pattern → Bool
  | .group _ | .constant _ => true
  | .operation i ps => ps.length = (instructionInfo i).args && Pattern.argumentsArityCorrect ps

def Pattern.argumentsArityCorrect : List Pattern → Bool
  | [] => true
  | p :: ps => Pattern.arityCorrect p && Pattern.argumentsArityCorrect ps

end

variable {args : List Expression} {e e₁ e₂ : Expression} {i : Instruction}

section

variable {dialect : Dialect} {ssaValues : SSAValues}

attribute [simp] Pattern.arityCorrect Pattern.argumentsArityCorrect

@[simp] lemma Pattern.arityCorrect_ofNat (n : Nat) :
    Pattern.arityCorrect (no_index (OfNat.ofNat n)) := rfl

lemma argumentsArity_iff :
    argumentsArityCorrect dialect args ↔ ∀ e ∈ args, e.arityCorrect dialect := by
  induction args with
  | nil => simp [argumentsArityCorrect]
  | cons e es ih => simp [argumentsArityCorrect, ih]

/-- An opcode of a correct expression, however it is written, has its number of arguments. -/
lemma arityCorrect_of_arguments (he : e.arityCorrect dialect)
    (h : instructionAndArguments dialect e = some (i, args)) :
    args.length = (instructionInfo i).args ∧ ∀ e ∈ args, e.arityCorrect dialect := by
  cases e with
  | functionalInstruction i' args' =>
    cases h
    simpa [Expression.arityCorrect, argumentsArity_iff] using he
  | functionCall f args' =>
    simp only [Expression.arityCorrect, Bool.and_eq_true, argumentsArity_iff] at he
    obtain ⟨hcall, hargs⟩ := he
    simp only [instructionAndArguments, Option.bind_eq_some_iff, Option.map_eq_some_iff,
      Prod.mk.injEq] at h
    obtain ⟨b, hb, i', hi, rfl, rfl⟩ := h
    refine ⟨?_, hargs⟩
    simp only [Yul.arityCorrect, hb, decide_eq_true_eq] at hcall
    rw [hcall]
    rcases Dialect.builtin_cases hb with ⟨j, rfl, -⟩ | hmem
    · cases hi
      rfl
    · simp only [objectFunctions, mem_cons, Prod.mk.injEq, not_mem_nil, or_false]
        at hmem
      rcases hmem with ⟨-, rfl⟩ | ⟨-, rfl⟩ | ⟨-, rfl⟩ <;> cases hi
  | identifier x => cases h
  | literal l => cases h

lemma arityCorrect_resolve (he : e.arityCorrect dialect)
    (hssa : ∀ x v, ssaValues x = some v → v.arityCorrect dialect) :
    (e.resolve ssaValues).arityCorrect dialect := by
  cases e with
  | identifier x =>
    cases hx : ssaValues x with
    | none => simp [Expression.resolve, hx, Expression.arityCorrect]
    | some v => simpa [Expression.resolve, hx] using hssa x v hx
  | _ => exact he

end

/-! ### Matching correct patterns -/

section

variable {dialect : Dialect} {ssaValues : SSAValues}

/-- All matched expressions have correct arguments. -/
def MatchGroups.ArityCorrect (dialect : Dialect) (groups : MatchGroups) : Prop :=
  ∀ g e, groups g = some e → e.arityCorrect dialect = true

lemma MatchGroups.ArityCorrect.set {groups : MatchGroups} (h : groups.ArityCorrect dialect)
    {g : MatchGroup} {e : Expression} (he : e.arityCorrect dialect) :
    (groups.set g e).ArityCorrect dialect := by
  intro g' e' heq
  unfold MatchGroups.set at heq
  split at heq
  · cases heq
    exact he
  · exact h g' e' heq

/-- A match succeeds with correct expressions, fails, or throws for another reason. -/
def MatchSafe (dialect : Dialect) (r : Except MatchException (Option MatchGroups)) : Prop :=
  match r with
  | .error x => x ≠ .argumentCount
  | .ok none => True
  | .ok (some groups) => groups.ArityCorrect dialect

mutual

lemma Pattern.matchSafe (hssa : ∀ x v, ssaValues x = some v → v.arityCorrect dialect)
    (p : Pattern) (hp : Pattern.arityCorrect p) {e : Expression}
    (he : e.arityCorrect dialect) {groups : MatchGroups}
    (hg : groups.ArityCorrect dialect) :
    MatchSafe dialect (Pattern.matches dialect ssaValues p e groups) := by
  match p with
  | .constant w =>
    rw [matches_constant]
    split
    · trivial
    · split
      · exact hg
      · trivial
  | .group g =>
    rw [matches_group]
    split
    · split
      · trivial
      · split
        · exact MatchException.noConfusion
        · exact hg.set rfl
    · split
      · split
        · exact hg
        · trivial
      · exact hg.set he
  | .operation i ps =>
    rw [matches_operation]
    split
    · trivial
    · rename_i i' args hargs
      obtain ⟨hlen, hall⟩ := arityCorrect_of_arguments
        (arityCorrect_resolve he hssa) hargs
      simp only [Pattern.arityCorrect, Bool.and_eq_true, decide_eq_true_eq] at hp
      split
      · trivial
      · rename_i hi
        obtain rfl : i = i' := not_not.mp hi
        rw [if_pos (hp.1.trans hlen.symm)]
        exact matchSafe_arguments hssa ps hp.2 hall (hp.1.trans hlen.symm) hg

lemma Pattern.matchSafe_arguments
    (hssa : ∀ x v, ssaValues x = some v → v.arityCorrect dialect) (ps : List Pattern)
    (hp : Pattern.argumentsArityCorrect ps) {es : List Expression}
    (he : ∀ e ∈ es, e.arityCorrect dialect) (hlen : ps.length = es.length)
    {groups : MatchGroups} (hg : groups.ArityCorrect dialect) :
    MatchSafe dialect (Pattern.matchesArguments dialect ssaValues ps es groups) := by
  match ps, es with
  | [], _ =>
    rw [matchesArguments_nil]
    exact hg
  | p :: ps, e :: es =>
    simp only [Pattern.argumentsArityCorrect, Bool.and_eq_true] at hp
    rw [matchesArguments_cons]
    have hhead := Pattern.matchSafe hssa p hp.1 (he e mem_cons_self) hg
    split
    · rename_i groups' heq
      rw [heq] at hhead
      exact matchSafe_arguments hssa ps hp.2
        (fun e' h => he e' (mem_cons_of_mem _ h)) (Nat.succ.inj hlen) hhead
    · exact hhead

end

mutual

lemma Pattern.arityCorrect_toExpression {groups : MatchGroups}
    (hg : groups.ArityCorrect dialect) (p : Pattern) (hp : Pattern.arityCorrect p) :
    (Pattern.toExpression groups p).arityCorrect dialect := by
  match p with
  | .constant w => rfl
  | .group g =>
    unfold Pattern.toExpression
    cases h : groups g with
    | none => rfl
    | some e => exact hg g e h
  | .operation i ps =>
    simp only [Pattern.arityCorrect, Bool.and_eq_true, decide_eq_true_eq] at hp
    obtain ⟨hlen, hargs⟩ := arityCorrect_toExpressions hg ps hp.2
    simp only [Pattern.toExpression, Expression.arityCorrect, hlen, hp.1, decide_true,
      Bool.true_and]
    exact argumentsArity_iff.mpr hargs

lemma Pattern.arityCorrect_toExpressions {groups : MatchGroups}
    (hg : groups.ArityCorrect dialect) (ps : List Pattern)
    (hp : Pattern.argumentsArityCorrect ps) :
    (Pattern.toExpressions groups ps).length = ps.length ∧
      ∀ e ∈ Pattern.toExpressions groups ps, e.arityCorrect dialect := by
  match ps with
  | [] => exact ⟨rfl, fun _ h => absurd h not_mem_nil⟩
  | p :: ps =>
    simp only [Pattern.argumentsArityCorrect, Bool.and_eq_true] at hp
    obtain ⟨hlen, hargs⟩ := arityCorrect_toExpressions hg ps hp.2
    have hhead := arityCorrect_toExpression hg p hp.1
    refine ⟨congrArg Nat.succ hlen, fun e he => ?_⟩
    rcases mem_cons.mp he with rfl | he
    · exact hhead
    · exact hargs e he

end

end

/-! ### The rules with correct arguments -/

/-- Pattern and action apply each opcode to its number of arguments. -/
def ArityCorrectRule (r : SimplificationRule) : Prop :=
  Pattern.arityCorrect r.pattern = true ∧ ∀ d, Pattern.arityCorrect (r.action d) = true

open RuleList

lemma arityCorrect_part1 : ∀ r ∈ simplificationRuleListPart1, ArityCorrectRule r := by
  simp only [simplificationRuleListPart1, forall_mem_cons, forall_mem_nil_iff, and_true]
  and_intros
  all_goals simp [instructionInfo]

lemma arityCorrect_part2 : ∀ r ∈ simplificationRuleListPart2, ArityCorrectRule r := by
  simp only [simplificationRuleListPart2, forall_mem_cons, forall_mem_nil_iff, and_true]
  and_intros
  all_goals simp [instructionInfo]

lemma arityCorrect_part3 : ∀ r ∈ simplificationRuleListPart3, ArityCorrectRule r := by
  simp only [simplificationRuleListPart3, forall_mem_cons, forall_mem_nil_iff, and_true]
  and_intros
  all_goals simp [instructionInfo]

lemma arityCorrect_part4 : ∀ r ∈ simplificationRuleListPart4, ArityCorrectRule r := by
  simp only [simplificationRuleListPart4, forall_mem_cons, forall_mem_nil_iff, and_true]
  and_intros
  all_goals simp [instructionInfo]

lemma arityCorrect_part6 : ∀ r ∈ simplificationRuleListPart6, ArityCorrectRule r := by
  simp only [simplificationRuleListPart6, doubleNegation, List.map, cons_append,
    nil_append, forall_mem_cons, forall_mem_nil_iff, and_true]
  and_intros
  all_goals simp [instructionInfo]

lemma arityCorrect_part7 : ∀ r ∈ simplificationRuleListPart7, ArityCorrectRule r := by
  simp only [simplificationRuleListPart7, associativeOperation, moveConstantOut,
    flatMap_cons, flatMap_nil, cons_append, nil_append, append_nil,
    forall_mem_cons, forall_mem_nil_iff, and_true]
  and_intros
  all_goals
    simp [combineShifts, combineShlShr, combineShrShl, moveMaskOut, instructionInfo]
  all_goals
    intro d
    split_ifs <;> simp [instructionInfo]

lemma arityCorrect_part8 : ∀ r ∈ simplificationRuleListPart8, ArityCorrectRule r := by
  simp only [simplificationRuleListPart8, forall_mem_cons, forall_mem_nil_iff, and_true]
  and_intros
  all_goals simp [instructionInfo]

/-- The rules that leave out the arguments of `CREATE` and `CREATE2`. -/
def createRules : List SimplificationRule := addressMaskRules .create ++ addressMaskRules .create2

lemma arityCorrect_part5 :
    ∀ r ∈ simplificationRuleListPart5, ArityCorrectRule r ∨ r ∈ createRules := by
  intro r hr
  simp only [simplificationRuleListPart5, mem_append, mem_map, mem_cons,
    mem_flatMap, not_mem_nil, or_false] at hr
  rcases hr with (⟨i, -, rfl⟩ | rfl | rfl) | ⟨op, hop, hr⟩
  · exact .inl (by simp [ArityCorrectRule, modPowerOfTwo, instructionInfo])
  · exact .inl (by simp [ArityCorrectRule, shiftOut, instructionInfo])
  · exact .inl (by simp [ArityCorrectRule, shiftOut, instructionInfo])
  · rcases hop with rfl | rfl | rfl | rfl | rfl | rfl
    case inr.inr.inr.inr.inr.inl => exact .inr (mem_append_left _ hr)
    case inr.inr.inr.inr.inr.inr => exact .inr (mem_append_right _ hr)
    all_goals
      simp only [addressMaskRules, mem_cons, not_mem_nil, or_false] at hr
      rcases hr with rfl | rfl <;> exact .inl (by simp [ArityCorrectRule, instructionInfo])

/-- All rules apply opcodes to their number of arguments, but those for the results of `CREATE`
and `CREATE2`. -/
lemma arityCorrect_of_mem_rules {r : SimplificationRule}
    (h : r ∈ simplificationRuleList) : ArityCorrectRule r ∨ r ∈ createRules := by
  simp only [simplificationRuleList, mem_append] at h
  rcases h with ((((((h | h) | h) | h) | h) | h) | h) | h
  · exact .inl (arityCorrect_part1 r h)
  · exact .inl (arityCorrect_part2 r h)
  · exact .inl (arityCorrect_part3 r h)
  · exact .inl (arityCorrect_part4 r h)
  · exact arityCorrect_part5 r h
  · exact .inl (arityCorrect_part6 r h)
  · exact .inl (arityCorrect_part7 r h)
  · exact .inl (arityCorrect_part8 r h)

open Pattern MatchGroup in
/-- The patterns tried before the rules for `CREATE` and `CREATE2`. -/
def andPatterns : List Pattern :=
  List.map (operation .and) [
    [A, B], [X, ↑(~~~0 : Word)], [↑(~~~0 : Word), X], [X, 0], [0, X],
    [operation .byte [X, Y], 0xff], [X, X],
    [X, operation .or [X, Y]], [X, operation .or [Y, X]], [operation .or [X, Y], X],
    [operation .or [Y, X], X], [X, operation .not [X]], [operation .not [X], X],
    [operation .address [], addressMask], [addressMask, operation .address []],
    [operation .caller [], addressMask], [addressMask, operation .caller []],
    [operation .origin [], addressMask], [addressMask, operation .origin []],
    [operation .coinbase [], addressMask], [addressMask, operation .coinbase []]]

set_option maxRecDepth 8000 in
/-- The rules for `AND` are those with the patterns above, the ones for `CREATE` and `CREATE2`
and further ones. -/
lemma rulesFor_and :
    ∃ before after, Rules.rulesFor .and = before ++ (createRules ++ after) ∧
      before.map (·.pattern) = andPatterns ∧
      before.map (·.feasible) = List.replicate 21 (fun _ => true) ∧
      (before.all fun r => Pattern.arityCorrect r.pattern) ∧
      (after.all fun r => Pattern.arityCorrect r.pattern) :=
  ⟨(Rules.rulesFor .and).take 21, (Rules.rulesFor .and).drop 25, rfl, rfl, rfl, rfl, rfl⟩

/-! ### What the search for a rule returns -/

section

variable {dialect : Dialect} {ssaValues : SSAValues}

open SimplificationRules

/-- The matcher does not abort at a number of arguments, and what replaces the expression
applies each opcode to as many arguments as it takes. -/
structure FindSafe (dialect : Dialect)
    (r : Except MatchException (Option (SimplificationRule × MatchGroups))) : Prop where
  ne_argumentCount : r ≠ .error .argumentCount
  arityCorrect : ∀ rule groups, r = .ok (some (rule, groups)) →
    (Pattern.toExpression groups (rule.action groups.d)).arityCorrect dialect = true

lemma findSafe_none : FindSafe dialect (.ok none) :=
  ⟨nofun, fun _ _ h => nomatch h⟩

lemma findFirstMatchIn_append (e : Expression) (rules rules' : List SimplificationRule) :
    findFirstMatchIn dialect ssaValues e (rules ++ rules') =
      match findFirstMatchIn dialect ssaValues e rules with
      | .ok none => findFirstMatchIn dialect ssaValues e rules'
      | r => r := by
  induction rules with
  | nil => rfl
  | cons rule rules ih =>
    rw [cons_append, findFirstMatchIn, findFirstMatchIn]
    split
    · rfl
    · exact ih
    · split
      · rfl
      · exact ih

variable {rules : List SimplificationRule}

/-- Rules that can always be applied are passed over exactly if none of their patterns matches. -/
lemma findFirstMatchIn_eq_none_iff (hf : ∀ r ∈ rules, ∀ d, r.feasible d) :
    findFirstMatchIn dialect ssaValues e rules = .ok none ↔
      ∀ r ∈ rules, Pattern.matches dialect ssaValues r.pattern e (fun _ => none) = .ok none := by
  induction rules with
  | nil => simp [findFirstMatchIn]
  | cons rule rules ih =>
    have ih := ih fun r hr => hf r (mem_cons_of_mem _ hr)
    rw [findFirstMatchIn, forall_mem_cons, ← ih]
    cases hm : Pattern.matches dialect ssaValues rule.pattern e (fun _ => none) with
    | error x => simp
    | ok m =>
      cases m with
      | none => simp
      | some groups => simp [hf rule mem_cons_self]

lemma findSafe_findFirstMatchIn
    (hssa : ∀ x v, ssaValues x = some v → v.arityCorrect dialect)
    (he : e.arityCorrect dialect) (hrules : ∀ r ∈ rules, ArityCorrectRule r) :
    FindSafe dialect (findFirstMatchIn dialect ssaValues e rules) := by
  induction rules with
  | nil => exact findSafe_none
  | cons rule rules ih =>
    obtain ⟨hp, ha⟩ := hrules rule mem_cons_self
    have ih := ih fun r hr => hrules r (mem_cons_of_mem _ hr)
    have hnone : MatchGroups.ArityCorrect dialect (fun _ => none) := fun _ _ h => nomatch h
    have hsafe := Pattern.matchSafe hssa rule.pattern hp he hnone
    rw [findFirstMatchIn]
    split
    · rename_i x heq
      rw [heq] at hsafe
      exact ⟨fun h => hsafe (Except.error.inj h), fun _ _ h => nomatch h⟩
    · exact ih
    · rename_i groups heq
      rw [heq] at hsafe
      split
      · refine ⟨nofun, fun rule' groups' h => ?_⟩
        cases h
        exact Pattern.arityCorrect_toExpression hsafe _ (ha _)
      · exact ih

end

/-! ### Where the matcher aborts -/

section

variable (dialect : Dialect) (ssaValues : SSAValues)

/-- The instruction at the root of the expression, or of the value of the variable, is `i` and
its arguments satisfy `p`. -/
def Expression.isOperation (i : Instruction) (p : List Expression → Bool) (e : Expression) :
    Bool :=
  match instructionAndArguments dialect (e.resolve ssaValues) with
  | some (i', args) => i = i' && p args
  | none => false

/-- The expression is a number of value `w`. -/
def Expression.hasValue (w : Word) (e : Expression) : Bool :=
  match (e.resolve ssaValues).numberLiteral with
  | some l => u256OfString l.value.toList = w
  | none => false

/-- The expression creates a contract. -/
def Expression.creates (e : Expression) : Bool :=
  e.isOperation dialect ssaValues .create (fun _ => true) ||
    e.isOperation dialect ssaValues .create2 (fun _ => true)

/-- The movable expression `e'` says `e` again. -/
def Expression.repeatedBy (e e' : Expression) : Bool :=
  e.syntacticallyEqual e' && e'.movable dialect

/-- One of the rules before those for `CREATE` matches `AND` of an expression that creates a
contract and `e₂`. -/
def matchedEarlier (e₁ e₂ : Expression) : Bool :=
  e₂.hasValue ssaValues (~~~0) || e₂.hasValue ssaValues 0 || e₁.repeatedBy dialect e₂ ||
    e₂.isOperation dialect ssaValues .or (·.any (e₁.repeatedBy dialect)) ||
    e₂.isOperation dialect ssaValues .not (·.any (e₁.repeatedBy dialect))

/-- The matcher gets to a rule for `CREATE` or `CREATE2` and to its opcode there: in the first
argument of `AND`, or in the second one if the first one is the mask for addresses. -/
def reachesCreateRule (e : Expression) : Bool :=
  match instructionAndArguments dialect e with
  | some (.and, [e₁, e₂]) =>
    e₁.creates dialect ssaValues && !matchedEarlier dialect ssaValues e₁ e₂ ||
      e₁.hasValue ssaValues RuleList.addressMask && e₂.creates dialect ssaValues
  | _ => false

end

section

variable {dialect : Dialect} {ssaValues : SSAValues}

variable {r : Instruction × List Expression}

lemma resolve_of_arguments (h : instructionAndArguments dialect e = some r) :
    e.resolve ssaValues = e := by
  cases e with
  | identifier x => cases h
  | _ => rfl

lemma numberLiteral_of_arguments (h : instructionAndArguments dialect e = some r) :
    e.numberLiteral = none := by
  cases e with
  | literal l => cases h
  | _ => rfl

lemma arguments_of_numberLiteral {l : Literal} (h : e.numberLiteral = some l) :
    instructionAndArguments dialect e = none := by
  cases e with
  | literal l => rfl
  | _ => cases h

lemma Pattern.matches_and (he : instructionAndArguments dialect e = some (.and, [e₁, e₂]))
    (p q : Pattern) :
    Pattern.matches dialect ssaValues (.operation .and [p, q]) e (fun _ => none) =
      match Pattern.matches dialect ssaValues p e₁ (fun _ => none) with
      | .ok (some groups) => Pattern.matches dialect ssaValues q e₂ groups
      | r => r := by
  rw [matches_operation, resolve_of_arguments he, he]
  simp only [ne_eq, not_true_eq_false, if_false, length_cons, length_nil, if_true]
  rw [matchesArguments_cons]
  cases Pattern.matches dialect ssaValues p e₁ (fun _ => none) with
  | error x => rfl
  | ok m =>
    cases m with
    | none => rfl
    | some groups =>
      simp only [matchesArguments_cons, matchesArguments_nil]
      cases Pattern.matches dialect ssaValues q e₂ groups with
      | error x => rfl
      | ok m' => cases m' <;> rfl

/-! ### Matching single arguments -/

lemma Pattern.matches_constant_eq (w : Word) (e : Expression) (groups : MatchGroups) :
    Pattern.matches dialect ssaValues (.constant w) e groups =
      .ok (if e.hasValue ssaValues w then some groups else none) := by
  rw [matches_constant, Expression.hasValue]
  cases (e.resolve ssaValues).numberLiteral with
  | none => rfl
  | some l => simp

variable {g : MatchGroup} {groups : MatchGroups}

lemma Pattern.matches_group_none (hg : g.isConstant = false) (e : Expression)
    (h : groups g = none) :
    Pattern.matches dialect ssaValues (.group g) e groups = .ok (some (groups.set g e)) := by
  rw [matches_group, hg, h]
  rfl

lemma Pattern.matches_group_some (hg : g.isConstant = false) (e : Expression) {e' : Expression}
    (h : groups g = some e') :
    Pattern.matches dialect ssaValues (.group g) e groups =
      .ok (if e'.repeatedBy dialect e then some groups else none) := by
  rw [matches_group, hg, h]
  rfl

lemma Pattern.matches_operation_none (ps : List Pattern)
    (h : e.isOperation dialect ssaValues i (fun _ => true) = false) (groups : MatchGroups) :
    Pattern.matches dialect ssaValues (.operation i ps) e groups = .ok none := by
  rw [matches_operation]
  rw [Expression.isOperation] at h
  split
  · rfl
  · rename_i i' args heq
    rw [heq] at h
    rw [if_pos (by simpa using h)]

lemma Pattern.matches_operation_nil (he : (e.resolve ssaValues).arityCorrect dialect)
    (hi : (instructionInfo i).args ≠ 0)
    (h : e.isOperation dialect ssaValues i (fun _ => true)) (groups : MatchGroups) :
    Pattern.matches dialect ssaValues (.operation i []) e groups = .error .argumentCount := by
  rw [matches_operation]
  rw [Expression.isOperation] at h
  split
  · simp_all
  · rename_i i' args heq
    obtain rfl : i = i' := by simpa [heq] using h
    have hlen := (arityCorrect_of_arguments he heq).1
    rw [if_neg (by simp), if_neg (by simp only [length_nil]; omega)]

lemma Pattern.matches_or_iff (he : (e₂.resolve ssaValues).arityCorrect dialect) :
    (Pattern.matches dialect ssaValues (.operation .or [MatchGroup.X, MatchGroup.Y]) e₂
        (MatchGroups.set (fun _ => none) .X e₁) = .ok none ∧
      Pattern.matches dialect ssaValues (.operation .or [MatchGroup.Y, MatchGroup.X]) e₂
        (MatchGroups.set (fun _ => none) .X e₁) = .ok none) ↔
      e₂.isOperation dialect ssaValues .or (·.any (e₁.repeatedBy dialect)) = false := by
  rw [matches_operation, matches_operation, Expression.isOperation]
  cases h : instructionAndArguments dialect (e₂.resolve ssaValues) with
  | none => simp
  | some r =>
    obtain ⟨i, args⟩ := r
    by_cases hi : Instruction.or = i
    · subst hi
      obtain ⟨p, q, rfl⟩ := length_eq_two.mp
        (arityCorrect_of_arguments he h).1
      have hX (e : Expression) : Pattern.matches dialect ssaValues (.group .X) e
          (MatchGroups.set (fun _ => none) .X e₁) = .ok (if e₁.repeatedBy dialect e then
            some (MatchGroups.set (fun _ => none) .X e₁) else none) :=
        matches_group_some rfl e rfl
      have hY (e : Expression) : Pattern.matches dialect ssaValues (.group .Y) e
          (MatchGroups.set (fun _ => none) .X e₁) =
            .ok (some ((MatchGroups.set (fun _ => none) .X e₁).set .Y e)) :=
        matches_group_none rfl e rfl
      have hXY (e e' : Expression) : Pattern.matches dialect ssaValues (.group .X) e
          ((MatchGroups.set (fun _ => none) .X e₁).set .Y e') =
            .ok (if e₁.repeatedBy dialect e then
              some ((MatchGroups.set (fun _ => none) .X e₁).set .Y e') else none) :=
        matches_group_some rfl e rfl
      simp only [ne_eq, not_true_eq_false, if_false, length_cons, length_nil, if_true,
        matchesArguments_cons, hX, hY, hXY, any_cons, any_nil, decide_true,
        Bool.true_and, Bool.or_false, Bool.or_eq_false_iff]
      by_cases hp : e₁.repeatedBy dialect p = true <;>
        by_cases hq : e₁.repeatedBy dialect q = true <;>
        simp [hp, hq, hY, matchesArguments_nil]
    · simp [hi]

lemma Pattern.matches_not_iff (he : (e₂.resolve ssaValues).arityCorrect dialect) :
    Pattern.matches dialect ssaValues (.operation .not [MatchGroup.X]) e₂
        (MatchGroups.set (fun _ => none) .X e₁) = .ok none ↔
      e₂.isOperation dialect ssaValues .not (·.any (e₁.repeatedBy dialect)) = false := by
  rw [matches_operation, Expression.isOperation]
  cases h : instructionAndArguments dialect (e₂.resolve ssaValues) with
  | none => simp
  | some r =>
    obtain ⟨i, args⟩ := r
    by_cases hi : Instruction.not = i
    · subst hi
      obtain ⟨p, rfl⟩ := length_eq_one_iff.mp
        (arityCorrect_of_arguments he h).1
      have hX : Pattern.matches dialect ssaValues (.group .X) p
          (MatchGroups.set (fun _ => none) .X e₁) = .ok (if e₁.repeatedBy dialect p then
            some (MatchGroups.set (fun _ => none) .X e₁) else none) :=
        matches_group_some rfl p rfl
      by_cases hp : e₁.repeatedBy dialect p = true <;>
        simp [hp, hX, matchesArguments_cons, matchesArguments_nil]
    · simp [hi]

/-! ### The two orders of the arguments -/

lemma Expression.isOperation_eq_false
    (h : instructionAndArguments dialect (e.resolve ssaValues) = some (i, args)) {j : Instruction}
    (hj : j ≠ i) (p : List Expression → Bool) : e.isOperation dialect ssaValues j p = false := by
  simp [isOperation, h, hj]

lemma Expression.creates_iff :
    e.creates dialect ssaValues ↔ ∃ i args,
      instructionAndArguments dialect (e.resolve ssaValues) = some (i, args) ∧
        (i = .create ∨ i = .create2) := by
  unfold creates isOperation
  cases h : instructionAndArguments dialect (e.resolve ssaValues) with
  | none => simp
  | some r =>
    obtain ⟨i, args⟩ := r
    simp only [Bool.and_true, Bool.or_eq_true, decide_eq_true_eq, Option.some.injEq,
      Prod.mk.injEq]
    constructor
    · exact fun hi => ⟨i, args, ⟨rfl, rfl⟩, Or.imp Eq.symm Eq.symm hi⟩
    · rintro ⟨_, _, ⟨rfl, rfl⟩, hi⟩
      exact Or.imp Eq.symm Eq.symm hi

lemma Expression.hasValue_of_creates (h : e.creates dialect ssaValues) (w : Word) :
    e.hasValue ssaValues w = false := by
  obtain ⟨i, args, hi, -⟩ := creates_iff.mp h
  rw [hasValue, numberLiteral_of_arguments hi]

lemma Pattern.matches_constantGroup_none (hg : g.isConstant)
    (h : (e.resolve ssaValues).numberLiteral = none) (groups : MatchGroups) :
    Pattern.matches dialect ssaValues (.group g) e groups = .ok none := by
  rw [matches_group, hg, h]
  rfl

lemma ok_ite_eq_none_iff {c : Bool} :
    (Except.ok (if c then some groups else none) :
      Except MatchException (Option MatchGroups)) = .ok none ↔ c = false := by
  cases c <;> simp

lemma andPatterns_of_creates (he : instructionAndArguments dialect e = some (.and, [e₁, e₂]))
    (he₂ : (e₂.resolve ssaValues).arityCorrect dialect)
    (h : e₁.creates dialect ssaValues) :
    (∀ p ∈ andPatterns, Pattern.matches dialect ssaValues p e (fun _ => none) = .ok none) ↔
      matchedEarlier dialect ssaValues e₁ e₂ = false := by
  obtain ⟨i, args, hargs, hi⟩ := creates_iff.mp h
  have hop (j : Instruction) (hj : j ≠ .create ∧ j ≠ .create2) (ps : List Pattern) :
      Pattern.matches dialect ssaValues (.operation j ps) e₁ (fun _ => none) = .ok none := by
    refine Pattern.matches_operation_none ps (isOperation_eq_false hargs ?_ _) _
    rintro rfl
    exact hi.elim hj.1 hj.2
  have hA : Pattern.matches dialect ssaValues (.group .A) e₁ (fun _ => none) = .ok none :=
    Pattern.matches_constantGroup_none rfl (numberLiteral_of_arguments hargs) _
  have hX : Pattern.matches dialect ssaValues (.group .X) e₁ (fun _ => none) =
      .ok (some (MatchGroups.set (fun _ => none) .X e₁)) :=
    Pattern.matches_group_none rfl e₁ rfl
  have hX' : Pattern.matches dialect ssaValues (.group .X) e₂
      (MatchGroups.set (fun _ => none) .X e₁) = .ok (if e₁.repeatedBy dialect e₂ then
        some (MatchGroups.set (fun _ => none) .X e₁) else none) :=
    Pattern.matches_group_some rfl e₂ rfl
  have hnum (n : Nat) : (OfNat.ofNat n : Pattern) = .constant (.ofNat 256 n) := rfl
  simp only [andPatterns, map_cons, map_nil, forall_mem_cons, forall_mem_nil_iff,
    and_true, Pattern.matches_and he, hnum, Pattern.matches_constant_eq,
    hasValue_of_creates h, hA, hX, hX', hop, ne_eq, reduceCtorEq, not_false_eq_true,
    and_self, Bool.false_eq_true, if_false, true_and, ok_ite_eq_none_iff,
    Pattern.matches_not_iff he₂]
  rw [← and_assoc (a := Pattern.matches _ _ _ _ _ = _), Pattern.matches_or_iff he₂]
  simp only [matchedEarlier, Bool.or_eq_false_iff, and_assoc]
  rfl

lemma Expression.hasValue_iff {w : Word} :
    e.hasValue ssaValues w ↔ ∃ l, (e.resolve ssaValues).numberLiteral = some l ∧
      u256OfString l.value.toList = w := by
  unfold hasValue
  cases (e.resolve ssaValues).numberLiteral with
  | none => simp
  | some l => simp

lemma Expression.repeatedBy_eq_false {w : Word} (h₁ : e₁.hasValue ssaValues w)
    (h₂ : e₂.creates dialect ssaValues) : e₁.repeatedBy dialect e₂ = false := by
  obtain ⟨l, hl, -⟩ := hasValue_iff.mp h₁
  obtain ⟨i, args, hargs, -⟩ := creates_iff.mp h₂
  rw [repeatedBy, Bool.and_eq_false_iff]
  left
  cases e₁ with
  | functionalInstruction j es => cases hl
  | functionCall f es => cases hl
  | identifier x =>
    cases e₂ with
    | identifier y =>
      by_contra hxy
      obtain rfl : x = y := by simpa [syntacticallyEqual] using hxy
      rw [arguments_of_numberLiteral hl] at hargs
      cases hargs
    | _ => rfl
  | literal l' =>
    cases e₂ with
    | literal l'' => cases hargs
    | _ => rfl

lemma andPatterns_of_mask (he : instructionAndArguments dialect e = some (.and, [e₁, e₂]))
    (h₁ : e₁.hasValue ssaValues RuleList.addressMask)
    (h₂ : e₂.creates dialect ssaValues) :
    ∀ p ∈ andPatterns, Pattern.matches dialect ssaValues p e (fun _ => none) = .ok none := by
  obtain ⟨l, hl, hw⟩ := hasValue_iff.mp h₁
  obtain ⟨i, args, hargs, hi⟩ := creates_iff.mp h₂
  have hop (j : Instruction) (ps : List Pattern) :
      Pattern.matches dialect ssaValues (.operation j ps) e₁ (fun _ => none) = .ok none := by
    apply Pattern.matches_operation_none
    rw [Expression.isOperation, arguments_of_numberLiteral hl]
  have hop₂ (j : Instruction) (hj : j ≠ .create ∧ j ≠ .create2) (ps : List Pattern)
      (groups : MatchGroups) :
      Pattern.matches dialect ssaValues (.operation j ps) e₂ groups = .ok none := by
    refine Pattern.matches_operation_none ps (isOperation_eq_false hargs ?_ _) _
    rintro rfl
    exact hi.elim hj.1 hj.2
  have hA : Pattern.matches dialect ssaValues (.group .A) e₁ (fun _ => none) =
      .ok (some (MatchGroups.set (fun _ => none) .A (.literal l))) := by
    rw [Pattern.matches_group, hl]
    rfl
  have hB (groups : MatchGroups) :
      Pattern.matches dialect ssaValues (.group .B) e₂ groups = .ok none :=
    Pattern.matches_constantGroup_none rfl (numberLiteral_of_arguments hargs) _
  have hX : Pattern.matches dialect ssaValues (.group .X) e₁ (fun _ => none) =
      .ok (some (MatchGroups.set (fun _ => none) .X e₁)) :=
    Pattern.matches_group_none rfl e₁ rfl
  have hX' : Pattern.matches dialect ssaValues (.group .X) e₂
      (MatchGroups.set (fun _ => none) .X e₁) = .ok none := by
    rw [Pattern.matches_group_some rfl e₂ rfl, repeatedBy_eq_false h₁ h₂]
    rfl
  have hconst (w : Word) : e₁.hasValue ssaValues w = decide (RuleList.addressMask = w) := by
    rw [Expression.hasValue, hl, ← hw]
  have hmask : RuleList.addressMask ≠ ~~~0 ∧ RuleList.addressMask ≠ 0#256 := by
    decide
  have hnum (n : Nat) : (OfNat.ofNat n : Pattern) = .constant (.ofNat 256 n) := rfl
  simp only [andPatterns, map_cons, map_nil, forall_mem_cons, forall_mem_nil_iff,
    Pattern.matches_and he, hnum, Pattern.matches_constant_eq, hconst,
    hasValue_of_creates h₂, hA, hB, hX, hX', hop, hop₂, ne_eq, reduceCtorEq,
    not_false_eq_true, and_self, Bool.false_eq_true, if_false, if_true, decide_eq_true_eq, hmask.1,
    hmask.2]

open SimplificationRules

/-- The rules for `CREATE` and `CREATE2` abort at the creation of a contract, on either side. -/
lemma findFirstMatchIn_createRules_error
    (he : instructionAndArguments dialect e = some (.and, [e₁, e₂]))
    (he₁ : (e₁.resolve ssaValues).arityCorrect dialect)
    (he₂ : (e₂.resolve ssaValues).arityCorrect dialect)
    (h : e₁.creates dialect ssaValues ∨
      e₁.hasValue ssaValues RuleList.addressMask ∧ e₂.creates dialect ssaValues)
    (rules : List SimplificationRule) :
    findFirstMatchIn dialect ssaValues e (createRules ++ rules) = .error .argumentCount := by
  simp only [createRules, RuleList.addressMaskRules, cons_append, nil_append,
    findFirstMatchIn, Pattern.matches_and he, Pattern.matches_constant_eq]
  rcases h with h | ⟨hm, h⟩
  · have hm := hasValue_of_creates h RuleList.addressMask
    by_cases hc : e₁.isOperation dialect ssaValues .create (fun _ => true) = true
    · simp only [Pattern.matches_operation_nil he₁ (by decide) hc]
    · rw [Bool.not_eq_true] at hc
      have hc' : e₁.isOperation dialect ssaValues .create2 (fun _ => true) = true := by
        simpa [Expression.creates, hc] using h
      simp only [Pattern.matches_operation_none _ hc, hm, Bool.false_eq_true, if_false,
        Pattern.matches_operation_nil he₁ (by decide) hc']
  · have hnone (j : Instruction) :
        Pattern.matches dialect ssaValues (.operation j []) e₁ (fun _ => none) = .ok none := by
      obtain ⟨l, hl, -⟩ := hasValue_iff.mp hm
      apply Pattern.matches_operation_none
      rw [Expression.isOperation, arguments_of_numberLiteral hl]
    by_cases hc : e₂.isOperation dialect ssaValues .create (fun _ => true) = true
    · simp only [hnone, hm, if_true, Pattern.matches_operation_nil he₂ (by decide) hc]
    · rw [Bool.not_eq_true] at hc
      have hc' : e₂.isOperation dialect ssaValues .create2 (fun _ => true) = true := by
        simpa [Expression.creates, hc] using h
      simp only [hnone, Pattern.matches_operation_none _ hc, hm, if_true,
        Pattern.matches_operation_nil he₂ (by decide) hc']

lemma findFirstMatchIn_createRules_none
    (he : instructionAndArguments dialect e = some (.and, [e₁, e₂]))
    (h₁ : e₁.creates dialect ssaValues = false)
    (h₂ : (e₁.hasValue ssaValues RuleList.addressMask && e₂.creates dialect ssaValues) = false) :
    findFirstMatchIn dialect ssaValues e createRules = .ok none := by
  have hf : ∀ r ∈ createRules, ∀ d, r.feasible d = true := by
    simp [createRules, RuleList.addressMaskRules]
  rw [findFirstMatchIn_eq_none_iff hf]
  obtain ⟨hc, hc'⟩ : e₁.isOperation dialect ssaValues .create (fun _ => true) = false ∧
      e₁.isOperation dialect ssaValues .create2 (fun _ => true) = false := by
    simpa [Expression.creates] using h₁
  simp only [createRules, RuleList.addressMaskRules, cons_append, nil_append,
    forall_mem_cons, forall_mem_nil_iff, and_true, Pattern.matches_and he,
    Pattern.matches_operation_none _ hc, Pattern.matches_operation_none _ hc',
    Pattern.matches_constant_eq, true_and]
  by_cases hm : e₁.hasValue ssaValues RuleList.addressMask = true
  · obtain ⟨hc, hc'⟩ : e₂.isOperation dialect ssaValues .create (fun _ => true) = false ∧
        e₂.isOperation dialect ssaValues .create2 (fun _ => true) = false := by
      simpa [Expression.creates, hm] using h₂
    simp only [hm, if_true, Pattern.matches_operation_none _ hc,
      Pattern.matches_operation_none _ hc', and_self]
  · simp [hm]

lemma findSafe_and_iff (hssa : ∀ x v, ssaValues x = some v → v.arityCorrect dialect)
    (he : e.arityCorrect dialect)
    (hroot : instructionAndArguments dialect e = some (.and, [e₁, e₂])) :
    FindSafe dialect (findFirstMatchIn dialect ssaValues e (Rules.rulesFor .and)) ↔
      (e₁.creates dialect ssaValues && !matchedEarlier dialect ssaValues e₁ e₂ ||
        e₁.hasValue ssaValues RuleList.addressMask && e₂.creates dialect ssaValues) = false := by
  obtain ⟨before, after, hrules, hpatterns, hfeasible, hbefore, hafter⟩ := rulesFor_and
  obtain ⟨-, hargs⟩ := arityCorrect_of_arguments he hroot
  have he₁ := arityCorrect_resolve (hargs e₁ (by simp)) hssa
  have he₂ := arityCorrect_resolve (hargs e₂ (by simp)) hssa
  -- Only the rules in the middle are not correct.
  have hcorrect {rules : List SimplificationRule} (hsub : rules ⊆ Rules.rulesFor .and)
      (hall : (rules.all fun r => Pattern.arityCorrect r.pattern) = true) :
      FindSafe dialect (findFirstMatchIn dialect ssaValues e rules) := by
    apply findSafe_findFirstMatchIn hssa he
    intro r hr
    have hmem := (Rules.mem_rulesFor (hsub hr)).1
    rcases arityCorrect_of_mem_rules hmem with h | h
    · exact h
    · have hp := all_eq_true.mp hall r hr
      simp only [createRules, RuleList.addressMaskRules, cons_append, nil_append,
        mem_cons, not_mem_nil, or_false] at h
      rcases h with rfl | rfl | rfl | rfl <;> simp [instructionInfo] at hp
  have hsafe_before := hcorrect (show before ⊆ _ by simp [hrules]) hbefore
  have hsafe_after := hcorrect (show after ⊆ _ by simp [hrules]) hafter
  have hnone : findFirstMatchIn dialect ssaValues e before = .ok none ↔
      ∀ p ∈ andPatterns, Pattern.matches dialect ssaValues p e (fun _ => none) = .ok none := by
    rw [findFirstMatchIn_eq_none_iff, ← hpatterns, forall_mem_map]
    intro r hr
    have hf : r.feasible ∈ before.map (·.feasible) := mem_map_of_mem hr
    rw [hfeasible] at hf
    simp [eq_of_mem_replicate hf]
  rw [hrules, findFirstMatchIn_append]
  by_cases hreach : e₁.creates dialect ssaValues = true ∨
      e₁.hasValue ssaValues RuleList.addressMask = true ∧ e₂.creates dialect ssaValues = true
  · rw [findFirstMatchIn_createRules_error hroot he₁ he₂ hreach]
    by_cases hearlier :
        e₁.creates dialect ssaValues = true ∧ matchedEarlier dialect ssaValues e₁ e₂ = true
    · -- A rule before those for `CREATE` is found.
      obtain ⟨hc, hm⟩ := hearlier
      have hfound : findFirstMatchIn dialect ssaValues e before ≠ .ok none := by
        rw [Ne, hnone, andPatterns_of_creates hroot he₂ hc, hm]
        exact Bool.noConfusion
      refine iff_of_true ?_ (by simp [hc, hm, hasValue_of_creates hc])
      split
      · exact absurd ‹_› hfound
      · exact hsafe_before
    · have hpassed : findFirstMatchIn dialect ssaValues e before = .ok none := by
        rw [hnone]
        rcases hreach with hc | ⟨hm, hc⟩
        · rw [andPatterns_of_creates hroot he₂ hc]
          simpa [hc] using hearlier
        · exact andPatterns_of_mask hroot hm hc
      rw [hpassed]
      refine iff_of_false (fun h => h.ne_argumentCount rfl) ?_
      rcases hreach with hc | ⟨hm, hc⟩
      · simp only [hc, true_and, Bool.not_eq_true] at hearlier
        simp [hc, hearlier]
      · simp [hm, hc]
  · rw [not_or, Bool.not_eq_true, ← Bool.and_eq_true, Bool.not_eq_true] at hreach
    obtain ⟨hc, hm⟩ := hreach
    rw [findFirstMatchIn_append, findFirstMatchIn_createRules_none hroot hc hm]
    refine iff_of_true ?_ (by simp [hc, hm])
    split
    · exact hsafe_after
    · exact hsafe_before

/-- A search that does not get to a rule for `CREATE` or `CREATE2` and its opcode is safe, and
only such a search is. -/
theorem findSafe_findFirstMatch_iff (dialect : Dialect) (ssaValues : SSAValues)
    (hssa : ∀ x v, ssaValues x = some v → v.arityCorrect dialect = true) (e : Expression)
    (he : e.arityCorrect dialect = true) :
    FindSafe dialect (findFirstMatch dialect ssaValues e) ↔
      reachesCreateRule dialect ssaValues e = false := by
  rw [findFirstMatch, reachesCreateRule]
  cases hroot : instructionAndArguments dialect e with
  | none => exact iff_of_true findSafe_none rfl
  | some r =>
    obtain ⟨i, args⟩ := r
    obtain ⟨hlen, hargs⟩ := arityCorrect_of_arguments he hroot
    by_cases hi : i = .and
    · subst hi
      obtain ⟨e₁, e₂, rfl⟩ := length_eq_two.mp hlen
      exact findSafe_and_iff hssa he hroot
    · have hsafe : FindSafe dialect (findFirstMatchIn dialect ssaValues e (Rules.rulesFor i)) := by
        apply findSafe_findFirstMatchIn hssa he
        intro r hr
        obtain ⟨hmem, hinstr⟩ := Rules.mem_rulesFor hr
        rcases arityCorrect_of_mem_rules hmem with h | h
        · exact h
        · simp only [createRules, RuleList.addressMaskRules, cons_append, nil_append,
            mem_cons, not_mem_nil, or_false] at h
          rcases h with rfl | rfl | rfl | rfl <;> exact absurd (Option.some.inj hinstr).symm hi
      refine iff_of_true hsafe ?_
      split
      · rename_i heq
        cases heq
        exact absurd rfl hi
      · rfl

end

/-- `and(create(0, 0, 0), x)` -/
def maskedCreation (x : Expression) : Expression :=
  .functionalInstruction .and
    [.functionalInstruction .create (.replicate 3 (.literal (.number "0"))), x]

theorem findFirstMatch_maskedCreation :
    ¬ ∀ (dialect : Dialect) (ssaValues : SSAValues),
      (∀ x v, ssaValues x = some v → v.arityCorrect dialect = true) →
      ∀ e : Expression, e.arityCorrect dialect = true →
        FindSafe dialect (SimplificationRules.findFirstMatch dialect ssaValues e) := by
  intro h
  refine (h .strictAssemblyForSVMObjects (fun _ => none) (fun _ _ h => nomatch h)
    (maskedCreation (.functionalInstruction .address [])) (by decide)).ne_argumentCount ?_
  rfl

theorem findSafe_findFirstMatch_repeated :
    FindSafe .strictAssemblyForSVMObjects (SimplificationRules.findFirstMatch
      .strictAssemblyForSVMObjects (fun _ => none)
      (maskedCreation (.literal (.number "0")))) :=
  (findSafe_findFirstMatch_iff .strictAssemblyForSVMObjects (fun _ => none)
    (fun _ _ h => nomatch h) (maskedCreation (.literal (.number "0"))) (by decide)).mpr rfl

end Yul
