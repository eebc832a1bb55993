import Polc.Sof.SimplificationRules

/-!
# The simplification rules make expressions lighter

Operations have weights, such that every rule takes weight off an expression or moves a constant
out of an inner operation. The latter happens once only, as long as the rules that combine two
constants are tried first.
-/

namespace Sof

open MatchGroup List

/-! ### Weights -/

namespace Instruction

/-- Operations that are replaced by others are heavier than these. -/
def weight : Instruction → Nat
  | mul => 3
  | sub | mod | byte | lt | gt | shl | shr => 2
  | _ => 1

/-- The operations whose constants are moved out. -/
def isAssociative : Instruction → Bool
  | add | mul | and | or | xor => true
  | _ => false

lemma weight_pos (i : Instruction) : 0 < i.weight := by
  unfold weight
  split <;> decide

end Instruction

/-- Weights of what the placeholders have matched. -/
structure Weighing where
  value : MatchGroup → Nat
  pos : ∀ g, 0 < value g
  constant : ∀ g, g.isConstant = true → value g = 1

namespace Weighing

variable (v : Weighing)

@[simp] lemma value_A : v.value A = 1 := v.constant A rfl

@[simp] lemma value_B : v.value B = 1 := v.constant B rfl

@[simp] lemma value_C : v.value C = 1 := v.constant C rfl

end Weighing

namespace Pattern

mutual

def weight (v : Weighing) : Pattern → Nat
  | constant _ => 1
  | group g => v.value g
  | operation i ps => i.weight + weightOfArguments v ps

def weightOfArguments (v : Weighing) : List Pattern → Nat
  | [] => 0
  | p :: ps => p.weight v + weightOfArguments v ps

end

/-- The pattern matches constants only. -/
def isConstant : Pattern → Bool
  | constant _ => true
  | group g => g.isConstant
  | operation _ _ => false

/-- An associative operation with a constant argument. -/
def settled : Pattern → Bool
  | operation i ps => i.isAssociative && ps.any isConstant
  | _ => false

section

variable (v : Weighing)

@[simp] lemma weight_constant (w : Word) : (constant w).weight v = 1 := rfl

@[simp] lemma weight_ofNat (n : Nat) : weight v (no_index (OfNat.ofNat n)) = 1 := rfl

@[simp] lemma weight_group (g : MatchGroup) : (group g).weight v = v.value g := rfl

@[simp] lemma weight_operation (i : Instruction) (ps : List Pattern) :
    (operation i ps).weight v = i.weight + weightOfArguments v ps := rfl

attribute [simp] Pattern.weightOfArguments

end

end Pattern

namespace SimplificationRule

/-- The rule takes weight off. -/
def Lightens (r : SimplificationRule) : Prop :=
  ∀ v d, (r.action d).weight v < r.pattern.weight v

/-- The rule adds no weight and leads to an associative operation with a constant argument. -/
structure Settles (r : SimplificationRule) : Prop where
  weight_le : ∀ v d, (r.action d).weight v ≤ r.pattern.weight v
  settled : ∀ d, (r.action d).settled = true

end SimplificationRule

/-- A list of rules that cannot be applied forever: some take weight off, some settle an operation
that is not associative, and some move a constant out of an associative operation unless there is
one outside already. -/
inductive Terminating : List SimplificationRule → Prop
  | nil : Terminating []
  | lightens {r : SimplificationRule} {rs : List SimplificationRule} (h : r.Lightens)
      (hrs : Terminating rs) : Terminating (r :: rs)
  | settles {r : SimplificationRule} {rs : List SimplificationRule} {i : Instruction}
      (hi : r.pattern.instruction = some i) (hassoc : i.isAssociative = false) (h : r.Settles)
      (hrs : Terminating rs) : Terminating (r :: rs)
  | regroups {op : Instruction} {f : Word → Word → Word} {xa : List Pattern}
      {rs : List SimplificationRule} (hop : op.isAssociative = true)
      (hxa : xa = [.group X, .group A] ∨ xa = [.group A, .group X]) (hrs : Terminating rs) :
      Terminating (RuleList.moveConstantOut op f xa ++ rs)

namespace Terminating

variable {rs rs' : List SimplificationRule}

lemma append (h : Terminating rs) (h' : Terminating rs') : Terminating (rs ++ rs') := by
  induction h with
  | nil => exact h'
  | lightens h _ ih => exact .lightens h ih
  | settles hi hassoc h _ ih => exact .settles hi hassoc h ih
  | regroups hop hxa _ ih =>
    rw [append_assoc]
    exact .regroups hop hxa ih

lemma of_forall (h : ∀ r ∈ rs, r.Lightens) : Terminating rs := by
  induction rs with
  | nil => exact .nil
  | cons r rs ih =>
    rw [forall_mem_cons] at h
    exact .lightens h.1 (ih h.2)

lemma filter (h : Terminating rs) (i : Instruction) :
    Terminating (rs.filter fun r => r.pattern.instruction == some i) := by
  induction h with
  | nil => exact .nil
  | lightens h _ ih =>
    rw [filter_cons]
    split
    · exact .lightens h ih
    · exact ih
  | settles hi hassoc h _ ih =>
    rw [filter_cons]
    split
    · exact .settles hi hassoc h ih
    · exact ih
  | @regroups op f xa rs hop hxa _ ih =>
    rw [filter_append]
    by_cases hi : op = i
    · have hall : (RuleList.moveConstantOut op f xa).filter
          (fun r => r.pattern.instruction == some i) = RuleList.moveConstantOut op f xa := by
        simp [RuleList.moveConstantOut, Pattern.instruction, hi]
      rw [hall]
      exact .regroups hop hxa ih
    · have hnone : (RuleList.moveConstantOut op f xa).filter
          (fun r => r.pattern.instruction == some i) = [] := by
        simp [RuleList.moveConstantOut, Pattern.instruction, hi]
      rw [hnone]
      exact ih

end Terminating

/-! ### The rules, part by part -/

namespace RuleList

open Pattern Instruction

lemma lightens_part1 : ∀ r ∈ simplificationRuleListPart1, r.Lightens := by
  simp only [simplificationRuleListPart1, forall_mem_cons, forall_mem_nil_iff, and_true]
  and_intros
  all_goals
    intro v d
    simp [Instruction.weight]

lemma lightens_part2 : ∀ r ∈ simplificationRuleListPart2, r.Lightens := by
  simp only [simplificationRuleListPart2, forall_mem_cons, forall_mem_nil_iff, and_true]
  and_intros
  all_goals
    intro v d
    simp only [weight_constant, weight_ofNat, weight_group, weight_operation,
      Pattern.weightOfArguments, Instruction.weight]
    omega

lemma lightens_part3 : ∀ r ∈ simplificationRuleListPart3, r.Lightens := by
  simp only [simplificationRuleListPart3, forall_mem_cons, forall_mem_nil_iff, and_true]
  and_intros
  all_goals
    intro v d
    have hX := v.pos X
    simp only [weight_ofNat, weight_group, weight_operation, Pattern.weightOfArguments, Instruction.weight]
    omega

lemma lightens_part4 : ∀ r ∈ simplificationRuleListPart4, r.Lightens := by
  simp only [simplificationRuleListPart4, forall_mem_cons, forall_mem_nil_iff, and_true]
  and_intros
  all_goals
    intro v d
    have hX := v.pos X
    simp only [weight_constant, weight_ofNat, weight_group, weight_operation,
      Pattern.weightOfArguments, Instruction.weight]
    omega

lemma lightens_part5 : ∀ r ∈ simplificationRuleListPart5, r.Lightens := by
  intro r hr v d
  simp only [simplificationRuleListPart5, mem_append, mem_map, mem_cons,
    mem_flatMap, not_mem_nil, or_false] at hr
  rcases hr with (⟨i, -, rfl⟩ | rfl | rfl) | ⟨op, -, hr⟩
  · simp [modPowerOfTwo, Instruction.weight]
  · simp [shiftOut, Instruction.weight]
    omega
  · simp [shiftOut, Instruction.weight]
    omega
  · simp only [addressMaskRules, mem_cons, not_mem_nil, or_false] at hr
    rcases hr with rfl | rfl
    all_goals
      simp only [weight_constant, weight_operation, Pattern.weightOfArguments]
      omega

lemma lightens_part6 : ∀ r ∈ simplificationRuleListPart6, r.Lightens := by
  simp only [simplificationRuleListPart6, doubleNegation, List.map, cons_append,
    nil_append, forall_mem_cons, forall_mem_nil_iff, and_true]
  and_intros
  all_goals
    intro v d
    simp only [weight_group, weight_operation, Pattern.weightOfArguments,
      Instruction.weight]
    omega

lemma lightens_combineShifts {shiftOp : Instruction} : (combineShifts shiftOp).Lightens := by
  intro v d
  have hop := shiftOp.weight_pos
  have hand : Instruction.and.weight = 1 := rfl
  simp only [combineShifts]
  split_ifs
  all_goals
    simp only [weight_constant, weight_ofNat, weight_group, weight_operation,
      Pattern.weightOfArguments, Weighing.value_A, Weighing.value_B, hand]
    omega

lemma lightens_combineShlShr : combineShlShr.Lightens := by
  intro v d
  simp only [combineShlShr]
  split_ifs
  all_goals
    simp only [weight_constant, weight_group, weight_operation, Pattern.weightOfArguments, Weighing.value_A, Weighing.value_B, Instruction.weight]
    omega

lemma lightens_combineShrShl : combineShrShl.Lightens := by
  intro v d
  simp only [combineShrShl]
  split_ifs
  all_goals
    simp only [weight_constant, weight_group, weight_operation, Pattern.weightOfArguments, Weighing.value_A, Weighing.value_B, Instruction.weight]
    omega

lemma settles_moveMaskOut {shiftOp : Instruction} {xa : List Pattern}
    (hxa : xa = [.group X, .group A] ∨ xa = [.group A, .group X]) :
    (moveMaskOut shiftOp xa).Settles where
  weight_le v d := by
    rcases hxa with rfl | rfl
    all_goals
      simp only [moveMaskOut, weight_constant, weight_group, weight_operation,
        Pattern.weightOfArguments, Weighing.value_A, Weighing.value_B]
      omega
  settled d := rfl

/-- Of the four rules that move a constant out, those that combine it with another one take weight
off, and each of them comes before the one for an arbitrary expression in the same place. -/
lemma moveConstantOut_eq {op : Instruction} (hop : op.isAssociative)
    (f : Word → Word → Word) {xa : List Pattern}
    (hxa : xa = [.group X, .group A] ∨ xa = [.group A, .group X]) :
    ∃ r₁ r₂ r₃ r₄, moveConstantOut op f xa = [r₁, r₂, r₃, r₄] ∧
      (r₁.Lightens ∧ r₁.pattern = operation op [operation op xa, .group B] ∧
        ∀ d, r₁.feasible d) ∧
      (r₂.Settles ∧ r₂.pattern = operation op [operation op xa, .group Y]) ∧
      (r₃.Lightens ∧ r₃.pattern = operation op [.group B, operation op xa] ∧
        ∀ d, r₃.feasible d) ∧
      r₄.Settles ∧ r₄.pattern = operation op [.group Y, operation op xa] := by
  have hpos := op.weight_pos
  have hsettled (p : Pattern) : (operation op [p, .group A]).settled = true := by
    rw [settled, hop]
    simp [Pattern.isConstant, MatchGroup.isConstant]
  refine ⟨_, _, _, _, rfl, ⟨fun v d => ?_, rfl, fun d => rfl⟩,
    ⟨⟨fun v d => ?_, fun d => hsettled _⟩, rfl⟩, ⟨fun v d => ?_, rfl, fun d => rfl⟩,
    ⟨fun v d => ?_, fun d => hsettled _⟩, rfl⟩
  all_goals
    rcases hxa with rfl | rfl
    all_goals
      simp only [weight_constant, weight_group, weight_operation, Pattern.weightOfArguments, Weighing.value_A, Weighing.value_B]
      omega

lemma terminating_part7 : Terminating simplificationRuleListPart7 := by
  refine .append (.append (.append ?_ ?_) ?_) (.of_forall ?_)
  · exact .regroups rfl (.inl rfl) (.regroups rfl (.inr rfl) (.regroups rfl (.inl rfl)
      (.regroups rfl (.inr rfl) (.regroups rfl (.inl rfl) (.regroups rfl (.inr rfl)
      (.regroups rfl (.inl rfl) (.regroups rfl (.inr rfl) (.regroups rfl (.inl rfl)
      (.regroups rfl (.inr rfl) .nil)))))))))
  · exact .lightens lightens_combineShifts (.lightens lightens_combineShifts
      (.lightens lightens_combineShlShr (.lightens lightens_combineShrShl .nil)))
  · exact .settles rfl rfl (settles_moveMaskOut (.inl rfl))
      (.settles rfl rfl (settles_moveMaskOut (.inr rfl))
      (.settles rfl rfl (settles_moveMaskOut (.inl rfl))
      (.settles rfl rfl (settles_moveMaskOut (.inr rfl)) .nil)))
  · simp only [forall_mem_cons, forall_mem_nil_iff, and_true]
    and_intros
    all_goals
      intro v d
      simp only [weight_ofNat, weight_group, weight_operation, Pattern.weightOfArguments, Weighing.value_A, Weighing.value_B, Instruction.weight]
      omega

lemma settles_part8 : ∀ r ∈ simplificationRuleListPart8.drop 1, r.Settles := by
  simp only [simplificationRuleListPart8, drop_succ_cons, drop_zero,
    forall_mem_cons, forall_mem_nil_iff, and_true]
  and_intros
  all_goals
    refine ⟨fun v d => ?_, fun d => rfl⟩
    simp only [weight_constant, weight_group, weight_operation, Pattern.weightOfArguments, Weighing.value_A, Instruction.weight]
    omega

lemma terminating_part8 : Terminating simplificationRuleListPart8 := by
  have h := settles_part8
  simp only [simplificationRuleListPart8, drop_succ_cons, drop_zero,
    forall_mem_cons, forall_mem_nil_iff, and_true] at h
  obtain ⟨h₂, h₃, h₄, h₅⟩ := h
  refine .lightens (fun v d => ?_) (.settles rfl rfl h₂ (.settles rfl rfl h₃
    (.settles rfl rfl h₄ (.settles rfl rfl h₅ .nil))))
  simp [Instruction.weight]

end RuleList

/-- The whole list of rules. -/
theorem terminating_rules : Terminating simplificationRuleList :=
  .append (.append (.append (.append (.append (.append (.append
    (.of_forall RuleList.lightens_part1) (.of_forall RuleList.lightens_part2))
    (.of_forall RuleList.lightens_part3)) (.of_forall RuleList.lightens_part4))
    (.of_forall RuleList.lightens_part5)) (.of_forall RuleList.lightens_part6))
    RuleList.terminating_part7) RuleList.terminating_part8

/-- Less weight counts more than a constant argument outside. -/
def potential (weight : Nat) (settled : Bool) : Nat := 2 * weight + (!settled).toNat

/-- The pattern is better than an expression of the given weight. -/
def Pattern.Improves (v : Weighing) (p : Pattern) (weight : Nat) (settled : Bool) : Prop :=
  p.weight v < weight ∨ p.weight v ≤ weight ∧ p.settled = true ∧ settled = false

lemma potential_le (weight : Nat) (settled : Bool) : potential weight settled ≤ 2 * weight + 1 := by
  cases settled <;> simp [potential]

lemma potential_mono {weight weight' : Nat} {settled settled' : Bool} (hweight : weight' ≤ weight)
    (hsettled : settled → settled') :
    potential weight' settled' ≤ potential weight settled := by
  unfold potential
  cases settled with
  | false =>
    have hle : (!settled').toNat ≤ 1 := Bool.toNat_le _
    simp only [Bool.not_false, Bool.toNat_true]
    omega
  | true =>
    rw [hsettled rfl]
    omega

lemma Pattern.Improves.weight_le {v : Weighing} {p : Pattern} {weight : Nat} {settled : Bool}
    (h : p.Improves v weight settled) : p.weight v ≤ weight := by
  rcases h with h | ⟨h, -, -⟩
  · exact Nat.le_of_lt h
  · exact h

lemma Pattern.Improves.potential_lt {v : Weighing} {p : Pattern} {weight : Nat} {settled : Bool}
    (h : p.Improves v weight settled) :
    potential (p.weight v) p.settled < potential weight settled := by
  rcases h with h | ⟨h, hp, rfl⟩
  · have hle := potential_le (p.weight v) p.settled
    unfold potential at hle ⊢
    omega
  · rw [hp]
    simp only [potential, Bool.not_true, Bool.not_false, Bool.toNat_true, Bool.toNat_false]
    omega

end Sof
