import Polc.Sof.AssemblyItem
import Polc.Sof.RuleSoundness

/-!
# Matching the simplification rules against expression classes

`libsvmasm/SimplificationRules.cpp`: the matcher of the assembly optimiser. A rule it returns
may be applied: under every assignment of words that agrees with the matched constants, the
pattern and the action of the rule denote the same word.
-/

namespace Sof

open ExpressionClasses List Pattern

/-- What the placeholders have matched so far. -/
abbrev MatchGroups := MatchGroup → Option Expression

namespace MatchGroups

def set (groups : MatchGroups) (g : MatchGroup) (e : Expression) : MatchGroups :=
  fun g' => if g' = g then some e else groups g'

/-- The data of the expression a placeholder has matched (`Pattern::d`). The source throws
where there is none; no rule asks for it then. -/
def d (groups : MatchGroups) (g : MatchGroup) : Word :=
  (((groups g).bind (·.item)).bind AssemblyItem.data).getD 0

end MatchGroups

/-- Reasons for which matching throws. -/
inductive OptimizerException where
  | itemMissing
  | notAnOperation
  | argumentCount
  | classOutOfRange
  deriving DecidableEq, Repr

/-- Does the pattern match the item of an expression, its arguments apart? -/
def Pattern.matchesBaseItem : Pattern → Option AssemblyItem → Bool
  | .group g, item =>
    if g.isConstant then
      match item with
      | some (.push _) => true
      | _ => false
    else true
  | .constant w, item => item == some (.push w)
  | .operation i _, item => item == some (.operation i)

mutual

/-- Match an expression and collect what the placeholders match. -/
def Pattern.matches (classes : ExpressionClasses) (p : Pattern) (expr : Expression)
    (groups : MatchGroups) : Except OptimizerException (Option MatchGroups) :=
  if p.matchesBaseItem expr.item then
    match p with
    | .group g =>
      match groups g with
      | none => .ok (some (groups.set g expr))
      | some e => .ok (if e.id = expr.id then some groups else none)
    | .constant _ => .ok (some groups)
    | .operation _ ps =>
      if ps.length = 0 ∨ expr.arguments.length = ps.length then
        Pattern.matchesArguments classes ps expr.arguments groups
      else .error .argumentCount
  else .ok none

/-- Match the arguments from left to right; there are as many as patterns, if there are any. -/
def Pattern.matchesArguments (classes : ExpressionClasses) (ps : List Pattern) (ids : List Id)
    (groups : MatchGroups) : Except OptimizerException (Option MatchGroups) :=
  match ps, ids with
  | [], _ => .ok (some groups)
  | _ :: _, [] => .error .argumentCount
  | p :: ps, id :: ids =>
    match classes.representative id with
    | none => .error .classOutOfRange
    | some e =>
      match p.matches classes e groups with
      | .ok (some groups) => Pattern.matchesArguments classes ps ids groups
      | r => r

end

/-- The instruction at the root of a pattern. -/
def Pattern.instruction : Pattern → Option Instruction
  | .operation i _ => some i
  | _ => none

namespace Rules

/-- The first of the given rules that matches and is feasible, with what it matched. -/
def findFirstMatchIn (classes : ExpressionClasses) (expr : Expression) :
    List SimplificationRule →
      Except OptimizerException (Option (SimplificationRule × MatchGroups))
  | [] => .ok none
  | rule :: rules =>
    match rule.pattern.matches classes expr (fun _ => none) with
    | .error e => .error e
    | .ok none => findFirstMatchIn classes expr rules
    | .ok (some groups) =>
      if rule.feasible groups.d then .ok (some (rule, groups))
      else findFirstMatchIn classes expr rules

/-- The rules for one instruction, in the order of the list. -/
def rulesFor (i : Instruction) : List SimplificationRule :=
  simplificationRuleList.filter fun rule => rule.pattern.instruction == some i

/-- The first matching rule and what its placeholders have matched. -/
def findFirstMatch (classes : ExpressionClasses) (expr : Expression) :
    Except OptimizerException (Option (SimplificationRule × MatchGroups)) :=
  match expr.item with
  | none => .error .itemMissing
  | some item =>
    match item.instruction with
    | none => .error .notAnOperation
    | some i => findFirstMatchIn classes expr (rulesFor i)

end Rules

/-! ### What a match guarantees -/

/-- `groups'` has what `groups` has, and all of `gs` besides. -/
structure MatchGroups.Extends (groups groups' : MatchGroups) (gs : List MatchGroup) : Prop where
  isSome : ∀ g, (groups g).isSome → (groups' g).isSome
  isSome_of_mem : ∀ g ∈ gs, (groups' g).isSome

/-- The placeholders for constants have matched constants. -/
def MatchGroups.Constants (groups : MatchGroups) : Prop :=
  ∀ g e, g.isConstant = true → groups g = some e → ∃ w, e.item = some (.push w)

namespace MatchGroups

lemma Extends.refl (groups : MatchGroups) : Extends groups groups [] :=
  ⟨fun _ h => h, fun _ h => absurd h not_mem_nil⟩

lemma Extends.trans {groups groups' groups'' : MatchGroups} {gs gs' : List MatchGroup}
    (h : Extends groups groups' gs) (h' : Extends groups' groups'' gs') :
    Extends groups groups'' (gs ++ gs') := by
  refine ⟨fun g hg => h'.isSome g (h.isSome g hg), fun g hg => ?_⟩
  rcases mem_append.mp hg with hg | hg
  · exact h'.isSome g (h.isSome_of_mem g hg)
  · exact h'.isSome_of_mem g hg

lemma extends_set (groups : MatchGroups) (g : MatchGroup) (e : Expression) :
    Extends groups (groups.set g e) [g] := by
  refine ⟨fun g' h => ?_, fun g' h => ?_⟩
  · unfold set
    split
    · rfl
    · exact h
  · simp [set, mem_singleton.mp h]

lemma Constants.set {groups : MatchGroups} (h : groups.Constants) {g : MatchGroup}
    {e : Expression} (he : g.isConstant → ∃ w, e.item = some (.push w)) :
    (groups.set g e).Constants := by
  intro g' e' hg' heq
  unfold MatchGroups.set at heq
  split at heq
  · cases heq
    subst g'
    exact he hg'
  · exact h g' e' hg' heq

end MatchGroups

variable {classes : ExpressionClasses}

mutual

lemma Pattern.matches_extends (p : Pattern) {e : Expression} {groups groups' : MatchGroups}
    (h : p.matches classes e groups = .ok (some groups')) (hc : groups.Constants) :
    groups.Extends groups' p.groups ∧ groups'.Constants := by
  match p with
  | .constant w =>
    unfold Pattern.matches at h
    split at h
    · cases h
      exact ⟨.refl _, hc⟩
    · cases h
  | .group g =>
    unfold Pattern.matches at h
    split at h
    · rename_i hbase
      cases hg : groups g with
      | none =>
        simp only [hg, Except.ok.injEq, Option.some.injEq] at h
        subst h
        refine ⟨groups.extends_set g e, hc.set fun hconst => ?_⟩
        simp only [Pattern.matchesBaseItem, hconst, if_true] at hbase
        split at hbase
        · exact ⟨_, by assumption⟩
        · cases hbase
      | some e' =>
        simp only [hg, Except.ok.injEq] at h
        split at h
        · cases h
          refine ⟨⟨fun _ h => h, fun g' hg' => ?_⟩, hc⟩
          rw [mem_singleton.mp hg', hg]
          rfl
        · cases h
    · cases h
  | .operation i ps =>
    unfold Pattern.matches at h
    split at h
    · dsimp only at h
      split at h
      · exact matchesArguments_extends ps h hc
      · cases h
    · cases h

lemma Pattern.matchesArguments_extends (ps : List Pattern) {ids : List Id}
    {groups groups' : MatchGroups}
    (h : Pattern.matchesArguments classes ps ids groups = .ok (some groups'))
    (hc : groups.Constants) :
    groups.Extends groups' (Pattern.groupsOfArguments ps) ∧ groups'.Constants := by
  match ps, ids with
  | [], _ =>
    cases h
    exact ⟨.refl _, hc⟩
  | _ :: _, [] => cases h
  | p :: ps, id :: ids =>
    unfold Pattern.matchesArguments at h
    split at h
    · cases h
    · split at h
      · rename_i hm
        obtain ⟨hext, hc'⟩ := matches_extends p hm hc
        obtain ⟨hext', hc''⟩ := matchesArguments_extends ps h hc'
        exact ⟨hext.trans hext', hc''⟩
      · rename_i hne
        exact absurd h (hne _)

end

namespace Rules

variable {classes : ExpressionClasses} {e : Expression} {rule : SimplificationRule}
  {groups : MatchGroups}

/-- A rule that is found is one of those searched, its pattern matches and it is feasible. -/
lemma findFirstMatchIn_spec {rules : List SimplificationRule}
    (h : findFirstMatchIn classes e rules = .ok (some (rule, groups))) :
    rule ∈ rules ∧ rule.pattern.matches classes e (fun _ => none) = .ok (some groups) ∧
      rule.feasible groups.d := by
  induction rules with
  | nil => cases h
  | cons r rules ih =>
    unfold findFirstMatchIn at h
    split at h
    · cases h
    · obtain ⟨hmem, hrest⟩ := ih h
      exact ⟨mem_cons_of_mem _ hmem, hrest⟩
    · split at h
      · cases h
        exact ⟨mem_cons_self, ‹_›, ‹_›⟩
      · obtain ⟨hmem, hrest⟩ := ih h
        exact ⟨mem_cons_of_mem _ hmem, hrest⟩

lemma findFirstMatchIn_shadowed {r r' : SimplificationRule}
    (h : findFirstMatchIn classes e [r, r'] = .ok (some (rule, groups)))
    (hp : r.pattern = r'.pattern) (hf : ∀ d, r.feasible d) : rule = r := by
  simp only [findFirstMatchIn, hp, hf, if_true] at h
  cases hm : r'.pattern.matches classes e (fun _ => none) with
  | error => simp [hm] at h
  | ok found =>
    cases found with
    | none => simp [hm] at h
    | some groups' =>
      simp only [hm, Except.ok.injEq, Option.some.injEq, Prod.mk.injEq] at h
      exact h.1.symm

set_option maxRecDepth 4000 in
lemma rulesFor_mulmod :
    ∃ r : SimplificationRule, rulesFor .mulmod = [r, RuleList.mulmodProduct] ∧
      r.pattern = RuleList.mulmodProduct.pattern ∧ (∀ d, r.feasible d) ∧ r.Sound :=
  ⟨_, rfl, rfl, fun _ => rfl, fun _ _ _ _ _ => rfl⟩

lemma mem_rulesFor {i : Instruction} (h : rule ∈ rulesFor i) :
    rule ∈ simplificationRuleList ∧ rule.pattern.instruction = some i := by
  obtain ⟨hmem, hi⟩ := mem_filter.mp h
  exact ⟨hmem, beq_iff_eq.mp hi⟩

lemma sound_of_findFirstMatchIn {i : Instruction}
    (h : findFirstMatchIn classes e (rulesFor i) = .ok (some (rule, groups))) : rule.Sound := by
  obtain ⟨hmem, hinstr⟩ := mem_rulesFor (findFirstMatchIn_spec h).1
  rcases sound_of_mem_rules hmem with rfl | hsound
  · obtain rfl : Instruction.mulmod = i := Option.some.inj hinstr
    obtain ⟨r, hr, hp, hf, hsound⟩ := rulesFor_mulmod
    rw [hr] at h
    rw [findFirstMatchIn_shadowed h hp hf]
    exact hsound
  · exact hsound

/-- Every rewrite by a rule that is found is an identity: under each assignment of words that
binds the placeholders for constants to the matched constants, the pattern and the action of
the rule denote the same word. -/
theorem findFirstMatch_denote (classes : ExpressionClasses) (e : Expression)
    (rule : SimplificationRule) (groups : MatchGroups)
    (h : findFirstMatch classes e = .ok (some (rule, groups))) (v : Assignment)
    (hv : ∀ g e' w, g.isConstant = true → groups g = some e' → e'.item = some (.push w) →
      v.value g = w)
    {World : Type} (env : Environment World) (m : SvmState World) :
    rule.pattern.denote env m v = (rule.action groups.d).denote env m v := by
  unfold findFirstMatch at h
  split at h
  · cases h
  · split at h
    · cases h
    · obtain ⟨hmem, hmatch, hfeasible⟩ := findFirstMatchIn_spec h
      have hclosed := closed_of_mem_rules (mem_rulesFor hmem).1
      obtain ⟨hext, hconst⟩ := matches_extends rule.pattern hmatch
        (fun _ _ _ h => nomatch h)
      -- The assignment agrees with what the rule reads.
      have hd : ∀ g ∈ rule.pattern.groups, g.isConstant = true → groups.d g = v.value g := by
        intro g hg hgc
        obtain ⟨e', he'⟩ := Option.isSome_iff_exists.mp (hext.isSome_of_mem g hg)
        obtain ⟨w, hw⟩ := hconst g e' hgc he'
        rw [hv g e' w hgc he' hw]
        simp [MatchGroups.d, he', hw, AssemblyItem.data]
      rw [hclosed.action_congr _ _ hd]
      apply sound_of_findFirstMatchIn h
      rw [← hclosed.feasible_congr _ _ hd]
      exact hfeasible

set_option maxRecDepth 4000 in
theorem findFirstMatch_denote_add_zero :
    Pattern.denote (default : Environment Unit) default ⟨fun _ => 7, fun _ => []⟩
        (.operation .add [.group .X, .constant 0]) =
      Pattern.denote (default : Environment Unit) default ⟨fun _ => 7, fun _ => []⟩ (.group .X) := by
  let x : Expression := ⟨1, some (.undefinedItem 0), [], 0⟩
  let classes : ExpressionClasses := ⟨[⟨0, some (.push 0), [], 0⟩, x]⟩
  refine findFirstMatch_denote classes ⟨2, some (.operation .add), [1, 0], 0⟩
    (RuleList.rule (.operation .add [.group .X, .constant 0]) (fun _ => .group .X) false)
    (MatchGroups.set (fun _ => none) .X x) rfl _ ?_ default default
  intro g e' w hg hmatch _
  cases g <;> simp_all [MatchGroups.set, MatchGroup.isConstant]

end Rules

end Sof
