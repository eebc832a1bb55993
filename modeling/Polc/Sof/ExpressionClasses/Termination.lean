import Polc.Semantics.Fallible
import Polc.Sof.ExpressionClasses
import Polc.Sof.RuleTermination
import Mathlib.Data.List.GetD

/-!
# The search for a class comes to an end

Each class has a weight, which rules do not increase. A rule that is found leaves less to do: the
parts of the new expression weigh less, and the whole of it does or is settled.
-/

namespace Sof

open List Option

namespace ExpressionClasses

/-! ### Weights of classes -/

/-- The weight of an expression for given weights of classes. -/
def Expression.weight (w : Id → Nat) (e : Expression) : Nat :=
  match e.item with
  | some (.operation i) => i.weight + (e.arguments.map w).sum
  | _ => 1

/-- The weights of expressions each of which is built from those before it. -/
def weights (es : List Expression) : List Nat :=
  es.foldl (fun ws e => ws ++ [e.weight fun id => ws.getD id 1]) []

/-- The weight of a class is that of its representative. -/
def weight (classes : ExpressionClasses) (id : Id) : Nat :=
  (weights classes.representatives).getD id 1

/-- The representative of each class is built from classes before it. -/
def Ordered (classes : ExpressionClasses) : Prop :=
  ∀ id e, classes.representative id = some e → e.id = id ∧ ∀ a ∈ e.arguments, a < id

section

variable {e : Expression} {id : Id} {w w' : Id → Nat}

lemma Expression.weight_pos : 0 < e.weight w := by
  unfold Expression.weight
  split
  · exact Nat.add_pos_left (Instruction.weight_pos _) _
  · exact Nat.one_pos

lemma Expression.weight_congr (h : ∀ a ∈ e.arguments, w a = w' a) : e.weight w = e.weight w' := by
  unfold Expression.weight
  rw [map_congr_left h]

lemma weights_concat (es : List Expression) (e : Expression) :
    weights (es ++ [e]) = weights es ++ [e.weight fun id => (weights es).getD id 1] := by
  rw [weights, foldl_append]
  rfl

lemma length_weights (es : List Expression) : (weights es).length = es.length := by
  induction es using List.reverseRecOn with
  | nil => rfl
  | append_singleton es e ih =>
    rw [weights_concat, length_append, length_append, ih]
    rfl

lemma weights_append (es es' : List Expression) : weights es <+: weights (es ++ es') := by
  induction es' using List.reverseRecOn with
  | nil =>
    rw [append_nil]
  | append_singleton es' e ih =>
    rw [← append_assoc, weights_concat]
    exact ih.trans (prefix_append _ _)

lemma getD_weights_append (es es' : List Expression) (h : id < es.length) :
    (weights (es ++ es')).getD id 1 = (weights es).getD id 1 := by
  obtain ⟨t, ht⟩ := weights_append es es'
  rw [← ht, getD_append _ _ _ _ ((length_weights es).symm ▸ h)]

variable {classes classes' : ExpressionClasses}

lemma lt_of_representative (h : classes.representative id = some e) :
    id < classes.representatives.length := (List.getElem?_eq_some_iff.mp h).1

lemma weight_of_prefix (h : classes.representatives <+: classes'.representatives)
    (hid : id < classes.representatives.length) : classes'.weight id = classes.weight id := by
  obtain ⟨es, hes⟩ := h
  rw [weight, weight, ← hes, getD_weights_append _ _ hid]

lemma representative_of_prefix (h : classes.representatives <+: classes'.representatives)
    (hid : classes.representative id = some e) : classes'.representative id = some e := by
  obtain ⟨es, hes⟩ := h
  rw [representative, ← hes, getElem?_append_left (lt_of_representative hid)]
  exact hid

lemma weight_representative (hordered : classes.Ordered) (h : classes.representative id = some e) :
    classes.weight id = e.weight classes.weight := by
  obtain ⟨es⟩ := classes
  obtain ⟨hlt, rfl⟩ := List.getElem?_eq_some_iff.mp h
  have hsplit : es = es.take id ++ [es[id]] ++ es.drop (id + 1) := by
    rw [take_append_getElem, take_append_drop]
  have hlength : (es.take id).length = id := length_take_of_le (Nat.le_of_lt hlt)
  -- The weights of the arguments do not depend on what comes after them.
  have harguments : ∀ a ∈ es[id].arguments,
      (weights (es.take id)).getD a 1 = weight ⟨es⟩ a := by
    intro a ha
    have hlt' : a < (es.take id).length := hlength.symm ▸ (hordered id _ h).2 a ha
    rw [weight, ← getD_weights_append _ (es.drop id) hlt', take_append_drop]
  calc weight ⟨es⟩ id
      = (weights (es.take id ++ [es[id]] ++ es.drop (id + 1))).getD id 1 := by
        rw [← hsplit]
        rfl
    _ = (weights (es.take id ++ [es[id]])).getD id 1 := by
        apply getD_weights_append
        rw [length_append, hlength]
        exact Nat.lt_succ_self id
    _ = es[id].weight fun a => (weights (es.take id)).getD a 1 := by
        have hweights : (weights (es.take id)).length = id := (length_weights _).trans hlength
        rw [weights_concat, getD_append_right _ _ _ _ hweights.le, hweights, Nat.sub_self]
        rfl
    _ = es[id].weight (weight ⟨es⟩) := Expression.weight_congr harguments

lemma weight_pos (hordered : classes.Ordered) (id : Id) : 0 < classes.weight id := by
  cases h : classes.representative id with
  | none =>
    have hle : (weights classes.representatives).length ≤ id := by
      rw [length_weights]
      exact List.getElem?_eq_none_iff.mp h
    rw [weight, getD_eq_default _ _ hle]
    exact Nat.one_pos
  | some e =>
    rw [weight_representative hordered h]
    exact Expression.weight_pos

end

/-! ### Matched expressions -/

/-- The expression is a word that is pushed. -/
def Expression.isConstant (e : Expression) : Bool :=
  match e.item with
  | some (.push _) => true
  | _ => false

def isConstant (classes : ExpressionClasses) (id : Id) : Bool :=
  (classes.representative id).any Expression.isConstant

/-- An associative operation with a constant argument. -/
def settled (classes : ExpressionClasses) (e : Expression) : Bool :=
  match e.item with
  | some (.operation i) => i.isAssociative && e.arguments.any classes.isConstant
  | _ => false

end ExpressionClasses

open ExpressionClasses

mutual

/-- The pattern with what its placeholders have matched is the expression. -/
def Pattern.Matched (classes : ExpressionClasses) (groups : MatchGroups) (p : Pattern)
    (e : Expression) : Prop :=
  match p with
  | .constant _ => e.isConstant = true
  | .group g =>
    (∃ e', groups g = some e' ∧ e'.id = e.id) ∧ (g.isConstant = true → e.isConstant = true)
  | .operation i ps =>
    e.item = some (.operation i) ∧ (ps.length = 0 ∨ e.arguments.length = ps.length) ∧
      Pattern.ArgumentsMatched classes groups ps e.arguments

def Pattern.ArgumentsMatched (classes : ExpressionClasses) (groups : MatchGroups)
    (ps : List Pattern) (ids : List Id) : Prop :=
  match ps, ids with
  | [], _ => True
  | _ :: _, [] => False
  | p :: ps, id :: ids =>
    (∃ e, classes.representative id = some e ∧ Pattern.Matched classes groups p e) ∧
      Pattern.ArgumentsMatched classes groups ps ids

end

/-- What has been matched stays matched. -/
def MatchGroups.Le (groups groups' : MatchGroups) : Prop :=
  ∀ g e, groups g = some e → groups' g = some e

namespace MatchGroups

lemma Le.refl (groups : MatchGroups) : groups.Le groups := fun _ _ h => h

lemma Le.trans {groups groups' groups'' : MatchGroups} (h : groups.Le groups')
    (h' : groups'.Le groups'') : groups.Le groups'' := fun g e he => h' g e (h g e he)

lemma le_set {groups : MatchGroups} {g : MatchGroup} (h : groups g = none) (e : Expression) :
    groups.Le (groups.set g e) := by
  intro g' e' he'
  unfold set
  split
  · subst g'
    rw [h] at he'
    cases he'
  · exact he'

lemma set_self (groups : MatchGroups) (g : MatchGroup) (e : Expression) :
    groups.set g e g = some e := if_pos rfl

end MatchGroups

section

variable {classes : ExpressionClasses}

variable {g : MatchGroup} {e : Expression}

lemma Pattern.matchesBaseItem_group (h : (Pattern.group g).matchesBaseItem e.item)
    (hg : g.isConstant) : e.isConstant := by
  simp only [Pattern.matchesBaseItem, hg, if_true] at h
  split at h
  · rename_i w hw
    rw [Expression.isConstant, hw]
  · cases h

mutual

lemma Pattern.matched_of_matches (p : Pattern) {e : Expression} {groups groups' : MatchGroups}
    (h : p.matches classes e groups = .ok (some groups')) :
    groups.Le groups' ∧ ∀ final, groups'.Le final → p.Matched classes final e := by
  match p with
  | .constant w =>
    unfold Pattern.matches at h
    split at h
    · rename_i hbase
      cases h
      refine ⟨.refl _, fun final _ => ?_⟩
      rw [Pattern.Matched, Expression.isConstant, beq_iff_eq.mp hbase]
    · cases h
  | .group g =>
    unfold Pattern.matches at h
    split at h
    · rename_i hbase
      have hconst := Pattern.matchesBaseItem_group hbase
      cases hg : groups g with
      | none =>
        simp only [hg, Except.ok.injEq, Option.some.injEq] at h
        subst h
        exact ⟨MatchGroups.le_set hg e, fun final hfinal =>
          ⟨⟨e, hfinal g e (groups.set_self g e), rfl⟩, hconst⟩⟩
      | some e' =>
        simp only [hg, Except.ok.injEq] at h
        split at h
        · rename_i hid
          cases h
          exact ⟨.refl _, fun final hfinal => ⟨⟨e', hfinal g e' hg, hid⟩, hconst⟩⟩
        · cases h
    · cases h
  | .operation i ps =>
    unfold Pattern.matches at h
    split at h
    · rename_i hbase
      dsimp only at h
      split at h
      · rename_i hlen
        obtain ⟨hle, hmatched⟩ := Pattern.argumentsMatched_of_matches ps h
        exact ⟨hle, fun final hfinal =>
          ⟨beq_iff_eq.mp hbase, hlen, hmatched final hfinal⟩⟩
      · cases h
    · cases h

lemma Pattern.argumentsMatched_of_matches (ps : List Pattern) {ids : List Id}
    {groups groups' : MatchGroups}
    (h : Pattern.matchesArguments classes ps ids groups = .ok (some groups')) :
    groups.Le groups' ∧
      ∀ final, groups'.Le final → Pattern.ArgumentsMatched classes final ps ids := by
  match ps, ids with
  | [], _ =>
    cases h
    exact ⟨.refl _, fun _ _ => trivial⟩
  | _ :: _, [] => cases h
  | p :: ps, id :: ids =>
    unfold Pattern.matchesArguments at h
    split at h
    · cases h
    · rename_i e he
      split at h
      · rename_i hm
        obtain ⟨hle, hmatched⟩ := Pattern.matched_of_matches p hm
        obtain ⟨hle', hmatched'⟩ := Pattern.argumentsMatched_of_matches ps h
        exact ⟨hle.trans hle', fun final hfinal =>
          ⟨⟨e, he, hmatched final (hle'.trans hfinal)⟩, hmatched' final hfinal⟩⟩
      · rename_i hne
        exact absurd h (hne groups')

end

/-! ### Rules that are found -/

lemma Pattern.matches_constantGroup (hg : g.isConstant) (he : e.isConstant)
    (groups : MatchGroups) (hgroups : groups g = none) :
    (Pattern.group g).matches classes e groups = .ok (some (groups.set g e)) := by
  have hbase : (Pattern.group g).matchesBaseItem e.item = true := by
    unfold Expression.isConstant at he
    split at he
    · rename_i w hw
      simp [Pattern.matchesBaseItem, hg, hw]
    · cases he
  simp [Pattern.matches, hbase, hgroups]

lemma Pattern.matches_anyGroup (hg : g.isConstant = false) (e : Expression) (groups : MatchGroups)
    (hgroups : groups g = none) :
    (Pattern.group g).matches classes e groups = .ok (some (groups.set g e)) := by
  simp [Pattern.matches, Pattern.matchesBaseItem, hg, hgroups]

variable {i op : Instruction} {p : Pattern} {groups : MatchGroups}

lemma Pattern.matches_operation_two {q : Pattern} {e₁ e₂ : Expression} {a₁ a₂ : Id}
    {groups₁ groups₂ : MatchGroups} (hitem : e.item = some (.operation op))
    (harguments : e.arguments = [a₁, a₂]) (h₁ : classes.representative a₁ = some e₁)
    (h₂ : classes.representative a₂ = some e₂)
    (hp : p.matches classes e₁ groups = .ok (some groups₁))
    (hq : q.matches classes e₂ groups₁ = .ok (some groups₂)) :
    (Pattern.operation op [p, q]).matches classes e groups = .ok (some groups₂) := by
  simp [Pattern.matches, Pattern.matchesBaseItem, Pattern.matchesArguments, hitem, harguments, h₁,
    h₂, hp, hq]

lemma Pattern.matched_operation_two {q : Pattern}
    (h : (Pattern.operation op [p, q]).Matched classes groups e) :
    e.item = some (.operation op) ∧ ∃ a₁ a₂ e₁ e₂, e.arguments = [a₁, a₂] ∧
      classes.representative a₁ = some e₁ ∧ classes.representative a₂ = some e₂ ∧
      p.Matched classes groups e₁ ∧ q.Matched classes groups e₂ := by
  obtain ⟨hitem, hlength, hmatched⟩ := h
  refine ⟨hitem, ?_⟩
  obtain ⟨a₁, a₂, heq⟩ := length_eq_two.mp (hlength.resolve_left (by simp))
  rw [heq] at hmatched
  obtain ⟨⟨e₁, h₁, hp⟩, ⟨e₂, h₂, hq⟩, -⟩ := hmatched
  exact ⟨a₁, a₂, e₁, e₂, heq, h₁, h₂, hp, hq⟩

open MatchGroup in
lemma Pattern.matches_of_matched {xa : List Pattern}
    (hxa : xa = [.group X, .group A] ∨ xa = [.group A, .group X]) {matched : MatchGroups}
    (h : (Pattern.operation op xa).Matched classes matched e) (groups : MatchGroups)
    (hX : groups X = none) (hA : groups A = none) :
    ∃ groups', (Pattern.operation op xa).matches classes e groups = .ok (some groups') ∧
      groups' B = groups B := by
  rcases hxa with rfl | rfl
  · obtain ⟨hitem, a₁, a₂, e₁, e₂, harguments, h₁, h₂, -, -, hconst⟩ :=
      Pattern.matched_operation_two h
    have hA' : groups.set X e₁ A = none := hA
    exact ⟨(groups.set X e₁).set A e₂, Pattern.matches_operation_two hitem harguments h₁ h₂
      (Pattern.matches_anyGroup rfl e₁ groups hX)
      (Pattern.matches_constantGroup rfl (hconst rfl) _ hA'), rfl⟩
  · obtain ⟨hitem, a₁, a₂, e₁, e₂, harguments, h₁, h₂, ⟨-, hconst⟩, -⟩ :=
      Pattern.matched_operation_two h
    have hX' : groups.set A e₁ X = none := hX
    exact ⟨(groups.set A e₁).set X e₂, Pattern.matches_operation_two hitem harguments h₁ h₂
      (Pattern.matches_constantGroup rfl (hconst rfl) groups hA)
      (Pattern.matches_anyGroup rfl e₂ _ hX'), rfl⟩

lemma Pattern.isConstant_of_matched {matched : MatchGroups} {ps : List Pattern}
    (h : (Pattern.operation op ps).Matched classes matched e) : e.isConstant = false := by
  rw [Expression.isConstant, h.1]

section

variable {op : Instruction} {xa : List Pattern} {e : Expression} {groups : MatchGroups}

open MatchGroup

/-- Where the rule for a constant on the right does not apply, the outer operation has none. -/
lemma ExpressionClasses.settled_eq_false_of_right
    (hxa : xa = [.group X, .group A] ∨ xa = [.group A, .group X])
    (h : (Pattern.operation op [.operation op xa, .group Y]).Matched classes groups e)
    (hnot : ∀ groups', (Pattern.operation op [.operation op xa, .group B]).matches classes e
      (fun _ => none) ≠ .ok (some groups')) :
    classes.settled e = false := by
  obtain ⟨hitem, a₁, a₂, e₁, e₂, harguments, h₁, h₂, hm₁, -⟩ := Pattern.matched_operation_two h
  have he₂ : e₂.isConstant = false := by
    rw [Bool.eq_false_iff]
    intro hconst
    obtain ⟨groups₁, hgroups₁, hB⟩ := Pattern.matches_of_matched hxa hm₁ (fun _ => none) rfl rfl
    exact hnot (groups₁.set B e₂) (Pattern.matches_operation_two hitem harguments h₁ h₂ hgroups₁
      (Pattern.matches_constantGroup rfl hconst groups₁ hB))
  simp [settled, isConstant, hitem, harguments, h₁, h₂, Pattern.isConstant_of_matched hm₁, he₂]

lemma ExpressionClasses.settled_eq_false_of_left
    (hxa : xa = [.group X, .group A] ∨ xa = [.group A, .group X])
    (h : (Pattern.operation op [.group Y, .operation op xa]).Matched classes groups e)
    (hnot : ∀ groups', (Pattern.operation op [.group B, .operation op xa]).matches classes e
      (fun _ => none) ≠ .ok (some groups')) :
    classes.settled e = false := by
  obtain ⟨hitem, a₁, a₂, e₁, e₂, harguments, h₁, h₂, -, hm₂⟩ := Pattern.matched_operation_two h
  have he₁ : e₁.isConstant = false := by
    rw [Bool.eq_false_iff]
    intro hconst
    obtain ⟨groups₂, hgroups₂, -⟩ := Pattern.matches_of_matched hxa hm₂
      (MatchGroups.set (fun _ => none) B e₁) rfl rfl
    exact hnot groups₂ (Pattern.matches_operation_two hitem harguments h₁ h₂
      (Pattern.matches_constantGroup rfl hconst _ rfl) hgroups₂)
  simp [settled, isConstant, hitem, harguments, h₁, h₂, Pattern.isConstant_of_matched hm₂, he₁]

end

/-! ### Weights of matched expressions -/

/-- The weights of what the placeholders have matched. -/
def MatchGroups.weighing (hordered : classes.Ordered) (groups : MatchGroups) : Weighing where
  value g := if g.isConstant then 1 else (groups g).elim 1 fun e => classes.weight e.id
  pos g := by
    split
    · exact Nat.one_pos
    · cases groups g with
      | none => exact Nat.one_pos
      | some e => exact weight_pos hordered e.id
  constant g hg := if_pos hg

/-- The placeholders have matched expressions of classes, those for constants words. -/
def MatchGroups.Known (classes : ExpressionClasses) (groups : MatchGroups)
    (gs : List MatchGroup) : Prop :=
  ∀ g ∈ gs, ∃ e, groups g = some e ∧ e.id < classes.representatives.length ∧
    (g.isConstant = true → classes.isConstant e.id = true)

section

variable (hordered : classes.Ordered) {groups : MatchGroups}

mutual

lemma Pattern.weight_le_of_matched (p : Pattern) {id : Id} {e : Expression}
    (he : classes.representative id = some e) (h : p.Matched classes groups e) :
    p.weight (groups.weighing hordered) ≤ classes.weight id := by
  match p with
  | .constant w => exact weight_pos hordered id
  | .group g =>
    obtain ⟨⟨e', he', hid⟩, -⟩ := h
    simp only [Pattern.weight_group, MatchGroups.weighing]
    split
    · exact weight_pos hordered id
    · rw [he', elim_some, hid, (hordered id e he).1]
  | .operation i ps =>
    obtain ⟨hitem, -, hmatched⟩ := h
    rw [weight_representative hordered he, Expression.weight, hitem, Pattern.weight_operation]
    exact Nat.add_le_add_left (Pattern.weightOfArguments_le_of_matched ps hmatched) _

lemma Pattern.weightOfArguments_le_of_matched (ps : List Pattern) {ids : List Id}
    (h : Pattern.ArgumentsMatched classes groups ps ids) :
    Pattern.weightOfArguments (groups.weighing hordered) ps ≤ (ids.map classes.weight).sum := by
  match ps, ids with
  | [], _ => exact Nat.zero_le _
  | p :: ps, id :: ids =>
    obtain ⟨⟨e, he, hp⟩, hps⟩ := h
    rw [Pattern.weightOfArguments, map_cons, sum_cons]
    exact Nat.add_le_add (Pattern.weight_le_of_matched p he hp)
      (Pattern.weightOfArguments_le_of_matched ps hps)

end

lemma Pattern.weight_le_of_matched_root (hp : p.instruction = some i)
    (h : p.Matched classes groups e) :
    p.weight (groups.weighing hordered) ≤ e.weight classes.weight := by
  cases p with
  | operation i' ps =>
    obtain ⟨hitem, -, hmatched⟩ := h
    rw [Expression.weight, hitem, Pattern.weight_operation]
    exact Nat.add_le_add_left (Pattern.weightOfArguments_le_of_matched hordered ps hmatched) _
  | _ => cases hp

end

section

variable {groups : MatchGroups}

mutual

lemma Pattern.known_of_matched (hordered : classes.Ordered) (p : Pattern) {id : Id}
    {e : Expression} (he : classes.representative id = some e) (h : p.Matched classes groups e) :
    groups.Known classes p.groups := by
  match p with
  | .constant w => exact fun g hg => absurd hg not_mem_nil
  | .group g =>
    obtain ⟨⟨e', he', hid⟩, hconst⟩ := h
    intro g' hg'
    obtain rfl := mem_singleton.mp hg'
    rw [(hordered id e he).1] at hid
    refine ⟨e', he', hid ▸ lt_of_representative he, fun hg => ?_⟩
    rw [ExpressionClasses.isConstant, hid, he]
    exact hconst hg
  | .operation i ps =>
    obtain ⟨-, -, hmatched⟩ := h
    exact Pattern.known_of_argumentsMatched hordered ps hmatched

lemma Pattern.known_of_argumentsMatched (hordered : classes.Ordered) (ps : List Pattern)
    {ids : List Id} (h : Pattern.ArgumentsMatched classes groups ps ids) :
    groups.Known classes (Pattern.groupsOfArguments ps) := by
  match ps, ids with
  | [], _ => exact fun g hg => absurd hg not_mem_nil
  | p :: ps, id :: ids =>
    obtain ⟨⟨e, he, hp⟩, hps⟩ := h
    intro g hg
    rcases mem_append.mp hg with hg | hg
    · exact Pattern.known_of_matched hordered p he hp g hg
    · exact Pattern.known_of_argumentsMatched hordered ps hps g hg

end

lemma Pattern.known_of_matched_root (hordered : classes.Ordered) (hp : p.instruction = some i)
    (h : p.Matched classes groups e) : groups.Known classes p.groups := by
  cases p with
  | operation i' ps =>
    obtain ⟨-, -, hmatched⟩ := h
    exact Pattern.known_of_argumentsMatched hordered ps hmatched
  | _ => cases hp

end

lemma Pattern.item_of_matched (hp : p.instruction = some i) (h : p.Matched classes groups e) :
    e.item = some (.operation i) := by
  cases p with
  | operation i' ps =>
    cases hp
    exact h.1
  | _ => cases hp

namespace Rules

variable {e : Expression} {rule : SimplificationRule} {groups : MatchGroups}

variable {rs : List SimplificationRule}

lemma findFirstMatchIn_cons {r : SimplificationRule}
    (h : findFirstMatchIn classes e (r :: rs) = .ok (some (rule, groups))) :
    rule = r ∧ r.pattern.matches classes e (fun _ => none) = .ok (some groups) ∨
      (∀ groups', r.pattern.matches classes e (fun _ => none) = .ok (some groups') →
        r.feasible groups'.d = false) ∧
      findFirstMatchIn classes e rs = .ok (some (rule, groups)) := by
  rw [findFirstMatchIn] at h
  split at h
  · cases h
  · rename_i hnone
    refine .inr ⟨fun groups' h' => ?_, h⟩
    rw [hnone] at h'
    cases h'
  · rename_i groups₁ hsome
    split_ifs at h with hfeasible
    · cases h
      exact .inl ⟨rfl, hsome⟩
    · refine .inr ⟨fun groups' h' => ?_, h⟩
      rw [hsome] at h'
      cases h'
      exact Bool.eq_false_iff.mpr hfeasible

variable (hordered : classes.Ordered) {i : Instruction}

lemma improves_of_lightens (h : rule.Lightens) (hi : rule.pattern.instruction = some i)
    (hmatched : rule.pattern.Matched classes groups e) (settled : Bool) :
    (rule.action groups.d).Improves (groups.weighing hordered) (e.weight classes.weight)
      settled :=
  .inl (Nat.lt_of_lt_of_le (h _ _) (Pattern.weight_le_of_matched_root hordered hi hmatched))

lemma improves_of_settles (h : rule.Settles) (hi : rule.pattern.instruction = some i)
    (hmatched : rule.pattern.Matched classes groups e) (hsettled : classes.settled e = false) :
    (rule.action groups.d).Improves (groups.weighing hordered) (e.weight classes.weight)
      (classes.settled e) :=
  .inr ⟨(h.weight_le _ _).trans (Pattern.weight_le_of_matched_root hordered hi hmatched),
    h.settled _, hsettled⟩

/-- Every rule that is found improves the expression: those that only move a constant out are not
found where one is outside already. -/
lemma improves_of_findFirstMatchIn (hrs : Terminating rs)
    (hroot : ∀ r ∈ rs, r.pattern.instruction = some i)
    (h : findFirstMatchIn classes e rs = .ok (some (rule, groups))) :
    (rule.action groups.d).Improves (groups.weighing hordered) (e.weight classes.weight)
      (classes.settled e) := by
  induction hrs with
  | nil => cases h
  | lightens hr _ ih =>
    rw [forall_mem_cons] at hroot
    rcases findFirstMatchIn_cons h with ⟨rfl, hmatch⟩ | ⟨-, hrest⟩
    · exact improves_of_lightens hordered hr hroot.1
        ((Pattern.matched_of_matches _ hmatch).2 _ (.refl _)) _
    · exact ih hroot.2 hrest
  | @settles r rs i' hi hassoc hr _ ih =>
    rw [forall_mem_cons] at hroot
    rcases findFirstMatchIn_cons h with ⟨rfl, hmatch⟩ | ⟨-, hrest⟩
    · have hmatched := (Pattern.matched_of_matches _ hmatch).2 _ (.refl _)
      refine improves_of_settles hordered hr hroot.1 hmatched ?_
      rw [settled, Pattern.item_of_matched hi hmatched]
      simp [hassoc]
    · exact ih hroot.2 hrest
  | @regroups op f xa rs hop hxa _ ih =>
    obtain ⟨r₁, r₂, r₃, r₄, heq, ⟨h₁, hp₁, hf₁⟩, ⟨h₂, hp₂⟩, ⟨h₃, hp₃, hf₃⟩, h₄, hp₄⟩ :=
      RuleList.moveConstantOut_eq hop f hxa
    rw [heq] at h hroot
    simp only [cons_append, nil_append, forall_mem_cons] at hroot
    obtain ⟨hi₁, hi₂, hi₃, hi₄, hroot⟩ := hroot
    rcases findFirstMatchIn_cons h with ⟨rfl, hmatch⟩ | ⟨hnot₁, h⟩
    · exact improves_of_lightens hordered h₁ hi₁
        ((Pattern.matched_of_matches _ hmatch).2 _ (.refl _)) _
    rcases findFirstMatchIn_cons h with ⟨rfl, hmatch⟩ | ⟨-, h⟩
    · have hmatched := (Pattern.matched_of_matches _ hmatch).2 _ (.refl _)
      refine improves_of_settles hordered h₂ hi₂ hmatched ?_
      rw [hp₂] at hmatched
      refine settled_eq_false_of_right hxa hmatched fun groups' hmatch' => ?_
      exact absurd (hf₁ _) (Bool.eq_false_iff.mp (hnot₁ groups' (hp₁ ▸ hmatch')))
    rcases findFirstMatchIn_cons h with ⟨rfl, hmatch⟩ | ⟨hnot₃, h⟩
    · exact improves_of_lightens hordered h₃ hi₃
        ((Pattern.matched_of_matches _ hmatch).2 _ (.refl _)) _
    rcases findFirstMatchIn_cons h with ⟨rfl, hmatch⟩ | ⟨-, h⟩
    · have hmatched := (Pattern.matched_of_matches _ hmatch).2 _ (.refl _)
      refine improves_of_settles hordered h₄ hi₄ hmatched ?_
      rw [hp₄] at hmatched
      refine settled_eq_false_of_left hxa hmatched fun groups' hmatch' => ?_
      exact absurd (hf₃ _) (Bool.eq_false_iff.mp (hnot₃ groups' (hp₃ ▸ hmatch')))
    · exact ih hroot h

end Rules

end

namespace ExpressionClasses

/-! ### States in which weights do not increase -/

/-- The class of an expression weighs no more than the expression, and is a constant if that is
one. -/
structure State.Classifies (s : State) (e : Expression) : Prop where
  arguments_lt : ∀ a ∈ e.arguments, a < s.size
  id_lt : e.id < s.size
  weight_le : s.weight e.id ≤ e.weight s.weight
  constant : e.isConstant = true → s.isConstant e.id = true

/-- What holds of all states that are reached. -/
structure State.Coherent (s : State) : Prop where
  ordered : s.Ordered
  classifies : ∀ e ∈ s.expressions, s.Classifies e

/-- Classes are only added. -/
def State.Le (s s' : State) : Prop := s.representatives <+: s'.representatives

section

variable {s s' : State} {e : Expression} {id : Id}

lemma State.Le.refl (s : State) : s.Le s := prefix_refl _

lemma State.Le.trans {s'' : State} (h : s.Le s') (h' : s'.Le s'') : s.Le s'' :=
  List.IsPrefix.trans h h'

lemma State.Le.size_le (h : s.Le s') : s.size ≤ s'.size := h.length_le

variable {ids arguments : List Id}

lemma State.Le.arguments_lt (h : s.Le s') (hids : ∀ a ∈ ids, a < s.size) :
    ∀ a ∈ ids, a < s'.size := fun a ha => Nat.lt_of_lt_of_le (hids a ha) h.size_le

lemma State.Le.weight_eq (h : s.Le s') (hid : id < s.size) : s'.weight id = s.weight id :=
  weight_of_prefix h hid

lemma State.Le.isConstant (h : s.Le s') (hid : s.isConstant id) :
    s'.isConstant id := by
  obtain ⟨e, he, hconst⟩ := (Option.any_eq_true _ _).mp hid
  rw [ExpressionClasses.isConstant, representative_of_prefix h he]
  exact hconst

lemma State.Classifies.mono (h : s.Le s') (he : s.Classifies e) : s'.Classifies e where
  arguments_lt := h.arguments_lt he.arguments_lt
  id_lt := Nat.lt_of_lt_of_le he.id_lt h.size_le
  weight_le := by
    rw [h.weight_eq he.id_lt,
      Expression.weight_congr fun a ha => h.weight_eq (he.arguments_lt a ha)]
    exact he.weight_le
  constant hconst := h.isConstant (he.constant hconst)

@[simp] lemma representatives_insert : (s.insert e).representatives = s.representatives := by
  unfold State.insert
  split <;> rfl

lemma State.le_insert : s.Le (s.insert e) := by
  rw [State.Le, representatives_insert]

lemma State.Coherent.insert (hs : s.Coherent) (he : s.Classifies e) : (s.insert e).Coherent := by
  refine ⟨?_, fun e' he' => ?_⟩
  · have hordered := hs.ordered
    unfold Ordered representative at hordered ⊢
    rw [representatives_insert]
    exact hordered
  · refine State.Classifies.mono State.le_insert ?_
    unfold State.insert at he'
    split at he'
    · exact hs.classifies e' he'
    · rcases mem_cons.mp he' with rfl | he'
      · exact he
      · exact hs.classifies e' he'

/-- What a search leads to: the class of the expression, with more classes perhaps. -/
structure Found (s s' : State) (e : Expression) (id : Id) : Prop where
  coherent : s'.Coherent
  le : s.Le s'
  classifies : s'.Classifies { e with id }

lemma found_insert (hs : s.Coherent) (he : s.Classifies { e with id }) :
    Found s (s.insert { e with id }) e id :=
  ⟨hs.insert he, State.le_insert, he.mono State.le_insert⟩

lemma found_pushRepresentative (hs : s.Coherent) (harguments : ∀ a ∈ e.arguments, a < s.size) :
    Found s (s.pushRepresentative e).2 e (s.pushRepresentative e).1 := by
  let e' : Expression := { e with id := s.size }
  let s₁ : State := { s with representatives := s.representatives ++ [e'] }
  have hle : s.Le s₁ := prefix_append _ _
  have hsize : s₁.size = s.size + 1 := length_append
  have hnew : s₁.representative s.size = some e' := getElem?_concat_length
  have hordered : s₁.Ordered := by
    intro id e'' he''
    rcases Nat.lt_or_ge id s.size with hlt | hge
    · apply hs.ordered
      rw [representative] at he'' ⊢
      rwa [getElem?_append_left hlt] at he''
    · have hid : id < s.size + 1 := hsize ▸ lt_of_representative he''
      obtain rfl : id = s.size := Nat.le_antisymm (Nat.le_of_lt_succ hid) hge
      rw [hnew] at he''
      cases he''
      exact ⟨rfl, harguments⟩
  have hclassifies : s₁.Classifies e' := by
    refine ⟨hle.arguments_lt harguments, ?_, ?_, fun hconst => ?_⟩
    · rw [hsize]
      exact Nat.lt_succ_self _
    · exact (weight_representative hordered hnew).le
    · rw [ExpressionClasses.isConstant, hnew]
      exact hconst
  have hcoherent : s₁.Coherent := ⟨hordered, fun e he => (hs.classifies e he).mono hle⟩
  have hfound := found_insert hcoherent hclassifies
  exact ⟨hfound.coherent, hle.trans hfound.le, hfound.classifies⟩

lemma found_register (hs : s.Coherent) (harguments : ∀ a ∈ e.arguments, a < s.size)
    {known : Option Id} (hknown : ∀ id, known = some id → s.Classifies { e with id }) :
    Found s (s.register e known).2 e (s.register e known).1 := by
  unfold State.register
  split
  · rename_i id
    split
    · exact found_insert hs (hknown id rfl)
    · exact found_pushRepresentative hs harguments
  · exact found_pushRepresentative hs harguments

/-! ### What a search leads to -/

variable {item : AssemblyItem}

lemma mem_toExpression {n : Nat} {a : Id} :
    a ∈ (toExpression item arguments n).arguments ↔ a ∈ arguments := by
  simp only [toExpression]
  split
  · exact mem_insertionSort _
  · exact Iff.rfl

lemma perm_toExpression (item : AssemblyItem) (arguments : List Id) (n : Nat) :
    (toExpression item arguments n).arguments.Perm arguments := by
  simp only [toExpression]
  split
  · exact perm_insertionSort _ _
  · exact List.Perm.refl _

lemma weight_toExpression (i : Instruction) (arguments : List Id) (n : Nat) (w : Id → Nat) :
    (toExpression (.operation i) arguments n).weight w =
      i.weight + (arguments.map w).sum := by
  change i.weight + ((toExpression (.operation i) arguments n).arguments.map w).sum = _
  rw [((perm_toExpression _ arguments n).map w).sum_nat]

lemma settled_toExpression (i : Instruction) (arguments : List Id) (n : Nat) :
    s.settled (toExpression (.operation i) arguments n) =
      (i.isAssociative && arguments.any s.isConstant) := by
  change (i.isAssociative && (toExpression (.operation i) arguments n).arguments.any _) = _
  rw [(perm_toExpression _ arguments n).any_eq]

lemma classifies_of_known {e' : Expression} (hs : s.Coherent) (h : known s item e = some e') :
    s.Classifies { e with id := e'.id } := by
  unfold known State.lookup at h
  split at h
  · have hclassifies := hs.classifies e' (mem_of_find?_eq_some h)
    have hequivalent := find?_some h
    simp only [Expression.equivalent, Bool.and_eq_true, decide_eq_true_eq] at hequivalent
    obtain ⟨⟨hitem, harguments⟩, hnumber⟩ := hequivalent
    have heq : { e with id := e'.id } = e' := by
      obtain ⟨id, item, arguments, n⟩ := e
      cases hitem
      cases harguments
      cases hnumber
      rfl
    rw [heq]
    exact hclassifies
  · cases h

/-- The placeholders have matched expressions of classes, with at most the given weights. -/
def Weighed (s : State) (v : Weighing) (groups : MatchGroups) (gs : List MatchGroup) : Prop :=
  ∀ g ∈ gs, ∃ e, groups g = some e ∧ e.id < s.size ∧
    (g.isConstant = true → s.isConstant e.id = true) ∧ s.weight e.id ≤ v.value g

variable {v : Weighing} {groups : MatchGroups}

lemma Weighed.mono {gs : List MatchGroup} (h : Weighed s v groups gs) (hle : s.Le s') :
    Weighed s' v groups gs := by
  intro g hg
  obtain ⟨e, he, hlt, hconst, hweight⟩ := h g hg
  exact ⟨e, he, Nat.lt_of_lt_of_le hlt hle.size_le, fun hg => hle.isConstant (hconst hg),
    (hle.weight_eq hlt).trans_le hweight⟩

lemma weight_of_isConstant (hs : s.Coherent) (h : s.isConstant id) : s.weight id = 1 := by
  obtain ⟨e, he, hconst⟩ := (Option.any_eq_true _ _).mp h
  rw [weight_representative hs.ordered he]
  unfold Expression.isConstant at hconst
  split at hconst
  · rename_i w hw
    rw [Expression.weight, hw]
  · cases hconst

lemma weighed_of_known {gs : List MatchGroup} (hs : s.Coherent)
    (h : groups.Known s.toExpressionClasses gs) :
    Weighed s (groups.weighing hs.ordered) groups gs := by
  intro g hg
  obtain ⟨e, he, hlt, hconst⟩ := h g hg
  refine ⟨e, he, hlt, hconst, ?_⟩
  simp only [MatchGroups.weighing]
  split
  · rename_i hg
    exact (weight_of_isConstant hs (hconst hg)).le
  · rw [he, elim_some]

/-- What the search does for items without sequence numbers. -/
def Finds (find : State → AssemblyItem → List Id → Except Stop (Id × State)) : Prop :=
  ∀ s item arguments id s', s.Coherent → (∀ a ∈ arguments, a < s.size) →
    find s item arguments = .ok (id, s') → Found s s' (toExpression item arguments 0) id

/-- A class for a pattern, no heavier than that. -/
structure Rebuilt (s s' : State) (v : Weighing) (p : Pattern) (id : Id) : Prop where
  coherent : s'.Coherent
  le : s.Le s'
  lt : id < s'.size
  weight_le : s'.weight id ≤ p.weight v
  constant : p.isConstant = true → s'.isConstant id = true

/-- Classes for a list of patterns. -/
structure ArgumentsRebuilt (s s' : State) (v : Weighing) (ps : List Pattern) (ids : List Id) :
    Prop where
  coherent : s'.Coherent
  le : s.Le s'
  lt : ∀ a ∈ ids, a < s'.size
  weight_le : (ids.map s'.weight).sum ≤ Pattern.weightOfArguments v ps
  constant : ps.any Pattern.isConstant = true → ids.any s'.isConstant = true

lemma Rebuilt.cons {s₁ s₂ : State} {p : Pattern} {ps : List Pattern} (h : Rebuilt s s₁ v p id)
    (h' : ArgumentsRebuilt s₁ s₂ v ps ids) :
    ArgumentsRebuilt s s₂ v (p :: ps) (id :: ids) where
  coherent := h'.coherent
  le := h.le.trans h'.le
  lt := forall_mem_cons.mpr ⟨Nat.lt_of_lt_of_le h.lt h'.le.size_le, h'.lt⟩
  weight_le := by
    rw [map_cons, sum_cons, Pattern.weightOfArguments, h'.le.weight_eq h.lt]
    exact Nat.add_le_add h.weight_le h'.weight_le
  constant hconst := by
    rw [any_cons, Bool.or_eq_true] at hconst ⊢
    exact hconst.imp (fun hp => h'.le.isConstant (h.constant hp)) h'.constant

section

variable {find : State → AssemblyItem → List Id → Except Stop (Id × State)}

mutual

lemma rebuilt (hfind : Finds find) (p : Pattern) {s s' : State} {id : Id} (hs : s.Coherent)
    (hgroups : Weighed s v groups p.groups)
    (h : rebuildExpression find groups s p = .ok (id, s')) : Rebuilt s s' v p id := by
  match p with
  | .group g =>
    obtain ⟨e, he, hlt, hconst, hweight⟩ := hgroups g mem_cons_self
    simp only [rebuildExpression, he] at h
    cases h
    exact ⟨hs, .refl _, hlt, hweight, hconst⟩
  | .constant w =>
    have hfound := hfind s _ _ id s' hs (fun a ha => absurd ha not_mem_nil) h
    exact ⟨hfound.coherent, hfound.le, hfound.classifies.id_lt, hfound.classifies.weight_le,
      fun _ => hfound.classifies.constant rfl⟩
  | .operation i ps =>
    obtain ⟨⟨ids, s₁⟩, hids, h⟩ := Semantics.bind_eq_ok_iff.mp h
    have hrebuilt := argumentsRebuilt hfind ps hs hgroups hids
    have hfound := hfind s₁ _ ids id s' hrebuilt.coherent hrebuilt.lt h
    refine ⟨hfound.coherent, hrebuilt.le.trans hfound.le, hfound.classifies.id_lt, ?_, nofun⟩
    have hweight : (ids.map s'.weight).sum = (ids.map s₁.weight).sum := by
      rw [map_congr_left fun a ha => hfound.le.weight_eq (hrebuilt.lt a ha)]
    calc s'.weight id
        ≤ (toExpression (.operation i) ids 0).weight s'.weight := hfound.classifies.weight_le
      _ = i.weight + (ids.map s₁.weight).sum := by rw [weight_toExpression, hweight]
      _ ≤ (Pattern.operation i ps).weight v := Nat.add_le_add_left hrebuilt.weight_le _

lemma argumentsRebuilt (hfind : Finds find) (ps : List Pattern) {s s' : State} {ids : List Id}
    (hs : s.Coherent) (hgroups : Weighed s v groups (Pattern.groupsOfArguments ps))
    (h : rebuildArguments find groups s ps = .ok (ids, s')) : ArgumentsRebuilt s s' v ps ids := by
  match ps with
  | [] =>
    cases h
    exact ⟨hs, .refl _, forall_mem_nil _, Nat.zero_le _, (absurd · Bool.false_ne_true)⟩
  | p :: ps =>
    obtain ⟨⟨id, s₁⟩, hid, h⟩ := Semantics.bind_eq_ok_iff.mp h
    obtain ⟨⟨ids', s₂⟩, hids, h⟩ := Semantics.bind_eq_ok_iff.mp h
    cases h
    have hrebuilt := rebuilt hfind p hs (fun g hg => hgroups g (mem_append_left _ hg)) hid
    have hgroups' : Weighed s v groups (Pattern.groupsOfArguments ps) :=
      fun g hg => hgroups g (mem_append_right _ hg)
    exact hrebuilt.cons
      (argumentsRebuilt hfind ps hrebuilt.coherent (hgroups'.mono hrebuilt.le) hids)

end

end

lemma improves_of_findFirstMatch (hs : s.Coherent) {rule : SimplificationRule}
    (h : Rules.findFirstMatch s.toExpressionClasses e = .ok (some (rule, groups))) :
    (rule.action groups.d).Improves (groups.weighing hs.ordered) (e.weight s.weight)
        (s.settled e) ∧
      Weighed s (groups.weighing hs.ordered) groups (rule.action groups.d).groups := by
  unfold Rules.findFirstMatch at h
  split at h
  · cases h
  · split at h
    · cases h
    · rename_i i _
      have hroot : ∀ r ∈ Rules.rulesFor i, r.pattern.instruction = some i :=
        fun r hr => (Rules.mem_rulesFor hr).2
      obtain ⟨hmem, hmatch, -⟩ := Rules.findFirstMatchIn_spec h
      have hclosed := closed_of_mem_rules (Rules.mem_rulesFor hmem).1
      have hmatched := (Pattern.matched_of_matches _ hmatch).2 _ (.refl _)
      refine ⟨Rules.improves_of_findFirstMatchIn hs.ordered
        (terminating_rules.filter i) hroot h, fun g hg => ?_⟩
      exact weighed_of_known hs (Pattern.known_of_matched_root hs.ordered (hroot _ hmem) hmatched)
        g (hclosed.groups_action groups.d hg)

lemma classifies_of_tryToSimplify
    {find : State → AssemblyItem → List Id → Except Stop (Id × State)} (hfind : Finds find)
    (hs : s.Coherent) (harguments : ∀ a ∈ e.arguments, a < s.size) {simplified : Option Id}
    (h : tryToSimplify find s e = .ok (simplified, s')) :
    s'.Coherent ∧ s.Le s' ∧ ∀ id, simplified = some id → s'.Classifies { e with id } := by
  unfold tryToSimplify at h
  split at h
  · rename_i i hitem
    split_ifs at h
    · split at h
      · cases h
      · cases h
        exact ⟨hs, .refl _, nofun⟩
      · rename_i rule groups hfound
        obtain ⟨⟨id, s₁⟩, hrebuild, h⟩ := Semantics.bind_eq_ok_iff.mp h
        cases h
        obtain ⟨himproves, hweighed⟩ := improves_of_findFirstMatch hs hfound
        have hrebuilt := rebuilt hfind _ hs hweighed hrebuild
        refine ⟨hrebuilt.coherent, hrebuilt.le, ?_⟩
        rintro _ ⟨⟩
        refine ⟨hrebuilt.le.arguments_lt harguments, hrebuilt.lt, ?_, fun hconst => ?_⟩
        · calc s'.weight id
              ≤ e.weight s.weight := hrebuilt.weight_le.trans himproves.weight_le
            _ = e.weight s'.weight :=
              Expression.weight_congr fun a ha => (hrebuilt.le.weight_eq (harguments a ha)).symm
        · change e.isConstant = true at hconst
          rw [Expression.isConstant, hitem] at hconst
          cases hconst
    · cases h
      exact ⟨hs, .refl _, nofun⟩
  · cases h
    exact ⟨hs, .refl _, nofun⟩

lemma found_of_find {fuel : Nat} {n : Nat} (hs : s.Coherent)
    (harguments : ∀ a ∈ arguments, a < s.size) (h : find fuel s item arguments n = .ok (id, s')) :
    Found s s' (toExpression item arguments n) id := by
  induction fuel generalizing s s' item arguments n id with
  | zero => cases h
  | succ fuel ih =>
    have harguments' : ∀ a ∈ (toExpression item arguments n).arguments, a < s.size :=
      fun a ha => harguments a (mem_toExpression.mp ha)
    rw [find] at h
    split at h
    · rename_i e' hknown
      cases h
      exact ⟨hs, .refl _, classifies_of_known hs hknown⟩
    · obtain ⟨⟨simplified, s₁⟩, hsimplify, h⟩ := Semantics.bind_eq_ok_iff.mp h
      have hfind : Finds fun s item arguments => find fuel s item arguments 0 :=
        fun s item arguments id s' hs harguments h => ih hs harguments h
      obtain ⟨hs₁, hle, hclassifies⟩ := classifies_of_tryToSimplify hfind hs harguments' hsimplify
      have hfound := found_register hs₁ (hle.arguments_lt harguments') hclassifies
      rw [show s₁.register (toExpression item arguments n) simplified = (id, s') from
        Except.ok.inj h] at hfound
      exact ⟨hfound.coherent, hle.trans hfound.le, hfound.classifies⟩

lemma coherent_newClass (hs : s.Coherent) : s.newClass.2.Coherent :=
  (found_pushRepresentative hs fun _ ha => absurd ha not_mem_nil).coherent

lemma coherent_forceEqual {w : Word} (hs : s.Coherent) (hid : s.representative id = some e)
    (he : e.item = some (.push w)) (harguments : ∀ a ∈ arguments, a < s.size) :
    (s.forceEqual id item arguments).Coherent := by
  have hconst : s.isConstant id = true := by
    rw [ExpressionClasses.isConstant, hid, any_some, Expression.isConstant, he]
  have harguments' : ∀ a ∈ (toExpression item arguments 0).arguments, a < s.size :=
    fun a ha => harguments a (mem_toExpression.mp ha)
  refine hs.insert ⟨harguments', lt_of_representative hid, ?_, fun _ => hconst⟩
  exact (weight_of_isConstant hs hconst).trans_le Expression.weight_pos

lemma Reachable.coherent (h : Reachable s) : s.Coherent := by
  induction h with
  | empty => exact ⟨nofun, nofun⟩
  | find _ harguments hfind ih => exact (found_of_find ih harguments hfind).coherent
  | newClass _ ih => exact coherent_newClass ih
  | forceEqual _ hid he harguments ih => exact coherent_forceEqual ih hid he harguments

/-! ### Searches come to an end -/

/-- What every search that a search leads to makes smaller. -/
def potential (s : State) (e : Expression) : Nat :=
  Sof.potential (e.weight s.weight) (s.settled e)

lemma potential_of_rebuilt {i : Instruction} {ps : List Pattern}
    (h : ArgumentsRebuilt s s' v ps ids) :
    potential s' (toExpression (.operation i) ids 0) ≤
      Sof.potential ((Pattern.operation i ps).weight v) (Pattern.operation i ps).settled := by
  rw [potential, weight_toExpression, settled_toExpression, Pattern.weight_operation,
    Pattern.settled]
  refine potential_mono (Nat.add_le_add_left h.weight_le _) fun hsettled => ?_
  rw [Bool.and_eq_true] at hsettled ⊢
  exact ⟨hsettled.1, h.constant hsettled.2⟩

/-- Searches with less to do come to an end. -/
def SettlesBelow (n : Nat) : Prop :=
  ∀ s item arguments, State.Coherent s → (∀ a ∈ arguments, a < s.size) →
    potential s (toExpression item arguments 0) < n →
      Semantics.Settles .timeout fun fuel => find fuel s item arguments 0

lemma finds_find (fuel : Nat) : Finds fun s item arguments => find fuel s item arguments 0 :=
  fun _ _ _ _ _ hs harguments h => found_of_find hs harguments h

mutual

lemma settles_rebuildExpression {n : Nat} (hbelow : SettlesBelow n) (p : Pattern) {s : State}
    (hs : s.Coherent) (hgroups : Weighed s v groups p.groups)
    (hp : Sof.potential (p.weight v) p.settled < n) :
    Semantics.Settles .timeout fun fuel =>
      rebuildExpression (fun s item arguments => find fuel s item arguments 0) groups s p := by
  match p with
  | .group g =>
    simp only [rebuildExpression]
    split
    · exact .const nofun
    · exact .const nofun
  | .constant w => exact hbelow s _ _ hs (fun a ha => absurd ha not_mem_nil) hp
  | .operation i ps =>
    have hps : 2 * Pattern.weightOfArguments v ps + 1 < n := by
      have hpos := i.weight_pos
      rw [Pattern.weight_operation, Sof.potential] at hp
      omega
    refine (settles_rebuildArguments hbelow ps hs hgroups hps).bind fun fuel r hr => ?_
    obtain ⟨ids, s₁⟩ := r
    have hrebuilt := argumentsRebuilt (finds_find fuel) ps hs hgroups hr
    exact hbelow s₁ _ _ hrebuilt.coherent hrebuilt.lt
      (lt_of_le_of_lt (potential_of_rebuilt hrebuilt) hp)

lemma settles_rebuildArguments {n : Nat} (hbelow : SettlesBelow n) (ps : List Pattern) {s : State}
    (hs : s.Coherent) (hgroups : Weighed s v groups (Pattern.groupsOfArguments ps))
    (hps : 2 * Pattern.weightOfArguments v ps + 1 < n) :
    Semantics.Settles .timeout fun fuel =>
      rebuildArguments (fun s item arguments => find fuel s item arguments 0) groups s ps := by
  match ps with
  | [] => exact .const nofun
  | p :: ps =>
    rw [Pattern.weightOfArguments] at hps
    have hp : Sof.potential (p.weight v) p.settled < n :=
      lt_of_le_of_lt (potential_le _ _) (by omega)
    have hgroups₁ : Weighed s v groups p.groups := fun g hg =>
      hgroups g (mem_append_left _ hg)
    refine (settles_rebuildExpression hbelow p hs hgroups₁ hp).bind fun fuel r hr => ?_
    obtain ⟨id, s₁⟩ := r
    have hrebuilt := rebuilt (finds_find fuel) p hs hgroups₁ hr
    have hgroups₂ : Weighed s v groups (Pattern.groupsOfArguments ps) := fun g hg =>
      hgroups g (mem_append_right _ hg)
    exact (settles_rebuildArguments hbelow ps hrebuilt.coherent (hgroups₂.mono hrebuilt.le)
      (by omega)).bind fun _ _ _ => .const nofun

end

lemma settles_tryToSimplify (hs : s.Coherent) (hbelow : SettlesBelow (potential s e)) :
    Semantics.Settles .timeout fun fuel =>
      tryToSimplify (fun s item arguments => find fuel s item arguments 0) s e := by
  simp only [tryToSimplify]
  split
  · split_ifs
    · split
      · exact .const nofun
      · exact .const nofun
      · rename_i rule groups hfound
        obtain ⟨himproves, hweighed⟩ := improves_of_findFirstMatch hs hfound
        exact (settles_rebuildExpression hbelow _ hs hweighed himproves.potential_lt).bind
          fun _ _ _ => .const nofun
    · exact .const nofun
  · exact .const nofun

lemma settles_find (hs : s.Coherent) (item : AssemblyItem) (arguments : List Id)
    (harguments : ∀ a ∈ arguments, a < s.size) (n : Nat) :
    Semantics.Settles .timeout fun fuel => find fuel s item arguments n := by
  induction hpotential : potential s (toExpression item arguments n) using Nat.strong_induction_on
    generalizing s item arguments n with
  | _ k ih =>
    have hbelow : SettlesBelow k := fun s item arguments hs harguments hlt =>
      ih _ hlt hs item arguments harguments 0 rfl
    refine .succ ?_
    simp only [find]
    split
    · exact .const nofun
    · exact (settles_tryToSimplify hs (hpotential ▸ hbelow)).bind fun _ _ _ => .const nofun

end

end ExpressionClasses

end Sof
