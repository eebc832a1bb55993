import Polc.Semantics.BitVec
import Polc.Sof.RuleList

/-!
# The simplification rules are identities on words

A pattern denotes a word once its placeholders are assigned words; a rule is sound when its
pattern and its action denote the same word wherever it is feasible. All rules are, but the
second one for `MULMOD`.
-/

namespace Sof

open Semantics List

variable {World : Type}

/-- The word an instruction pushes when it is executed in the state `m`. -/
def instructionValue (env : Environment World) (m : SvmState World) (i : Instruction)
    (args : List Word) : Word :=
  match execInstruction env i args m with
  | .ok vs _ => vs.headD 0
  | _ => 0

/-- Words for the placeholders, and the arguments of the operations for which a pattern leaves
them open. -/
structure Assignment where
  value : MatchGroup → Word
  openArguments : Instruction → List Word

mutual

/-- The word a pattern denotes. -/
def Pattern.denote (env : Environment World) (m : SvmState World) (v : Assignment) :
    Pattern → Word
  | .constant w => w
  | .group g => v.value g
  | .operation i [] => instructionValue env m i (v.openArguments i)
  | .operation i (p :: ps) =>
    instructionValue env m i (p.denote env m v :: Pattern.denoteArguments env m v ps)

def Pattern.denoteArguments (env : Environment World) (m : SvmState World) (v : Assignment) :
    List Pattern → List Word
  | [] => []
  | p :: ps => p.denote env m v :: Pattern.denoteArguments env m v ps

end

section

variable (env : Environment World) (m : SvmState World) (v : Assignment) (i : Instruction)
  (p : Pattern) (ps : List Pattern)

namespace Pattern

@[simp] lemma denote_constant (w : Word) : (constant w).denote env m v = w := rfl

@[simp] lemma denote_ofNat (n : Nat) :
    denote env m v (no_index (OfNat.ofNat n)) = .ofNat 256 n := rfl

@[simp] lemma denote_group (g : MatchGroup) : (group g).denote env m v = v.value g := rfl

@[simp] lemma denote_operation_nil :
    (operation i []).denote env m v = instructionValue env m i (v.openArguments i) := rfl

@[simp] lemma denote_operation_cons :
    (operation i (p :: ps)).denote env m v =
      instructionValue env m i (denoteArguments env m v (p :: ps)) := rfl

@[simp] lemma denoteArguments_nil : denoteArguments env m v [] = [] := rfl

@[simp] lemma denoteArguments_cons :
    denoteArguments env m v (p :: ps) = p.denote env m v :: denoteArguments env m v ps := rfl

lemma denote_operation_two (q : Pattern) :
    (operation i [p, q]).denote env m v =
      instructionValue env m i [p.denote env m v, q.denote env m v] := rfl

end Pattern

end

/-- Wherever the rule may be applied, its pattern and its action denote the same word. -/
def SimplificationRule.Sound (r : SimplificationRule) : Prop :=
  ∀ (World : Type) (env : Environment World) (m : SvmState World) (v : Assignment),
    r.feasible v.value = true →
      r.pattern.denote env m v = (r.action v.value).denote env m v

/-- Action and feasibility test depend on the matched constants only, and the action has no
placeholder that the pattern has not. -/
structure SimplificationRule.Closed (r : SimplificationRule) : Prop where
  action_congr : ∀ d d', (∀ g ∈ r.pattern.groups, g.isConstant → d g = d' g) →
    r.action d = r.action d'
  feasible_congr : ∀ d d', (∀ g ∈ r.pattern.groups, g.isConstant → d g = d' g) →
    r.feasible d = r.feasible d'
  groups_action : ∀ d, (r.action d).groups ⊆ r.pattern.groups

lemma forall_mem_nil_iff {α : Type*} {p : α → Prop} : (∀ x ∈ ([] : List α), p x) ↔ True := by
  simp

namespace Word

lemma shl_eq (s x : Word) : shl s x = x <<< s.toNat := by
  unfold shl
  split
  · exact (BitVec.shiftLeft_eq_zero ‹_›).symm
  · rfl

lemma shr_eq (s x : Word) : shr s x = x >>> s.toNat := by
  unfold shr
  split
  · exact (BitVec.ushiftRight_eq_zero ‹_›).symm
  · rfl

end Word

/-! ### Values of single instructions -/

lemma instructionValue_arithmetic {env : Environment World} {m : SvmState World}
    {i : Instruction} {args : List Word} {w : Word} (h : arithmetic i args = some w) :
    instructionValue env m i args = w := by
  simp only [instructionValue, execInstruction, h, Option.some_or, headD_cons]

section

variable (env : Environment World) (m : SvmState World) (args : List Word) (a b c : Word)

@[simp] lemma value_add : instructionValue env m .add [a, b] = a + b := rfl
@[simp] lemma value_mul : instructionValue env m .mul [a, b] = a * b := rfl
@[simp] lemma value_sub : instructionValue env m .sub [a, b] = a - b := rfl
@[simp] lemma value_div : instructionValue env m .div [a, b] = a / b := rfl
@[simp] lemma value_sdiv : instructionValue env m .sdiv [a, b] = a.sdiv b := rfl
@[simp] lemma value_mod : instructionValue env m .mod [a, b] = if b = 0 then 0 else a % b := rfl

@[simp] lemma value_smod :
    instructionValue env m .smod [a, b] = if b = 0 then 0 else a.srem b := rfl

@[simp] lemma value_exp :
    instructionValue env m .exp [a, b] = .ofNat 256 (a.toNat ^ b.toNat) := rfl

@[simp] lemma value_addmod :
    instructionValue env m .addmod [a, b, c] =
      if c = 0 then 0 else .ofNat 256 ((a.toNat + b.toNat) % c.toNat) := rfl

@[simp] lemma value_mulmod :
    instructionValue env m .mulmod [a, b, c] =
      if c = 0 then 0 else .ofNat 256 ((a.toNat * b.toNat) % c.toNat) := rfl

@[simp] lemma value_signextend : instructionValue env m .signextend [a, b] = .signextend a b := rfl
@[simp] lemma value_lt : instructionValue env m .lt [a, b] = .ofBool (a.ult b) := rfl
@[simp] lemma value_gt : instructionValue env m .gt [a, b] = .ofBool (b.ult a) := rfl
@[simp] lemma value_slt : instructionValue env m .slt [a, b] = .ofBool (a.slt b) := rfl
@[simp] lemma value_sgt : instructionValue env m .sgt [a, b] = .ofBool (b.slt a) := rfl
@[simp] lemma value_eq : instructionValue env m .eq [a, b] = .ofBool (a = b) := rfl
@[simp] lemma value_iszero : instructionValue env m .iszero [a] = .ofBool (a = 0) := rfl
@[simp] lemma value_and : instructionValue env m .and [a, b] = a &&& b := rfl
@[simp] lemma value_or : instructionValue env m .or [a, b] = a ||| b := rfl
@[simp] lemma value_xor : instructionValue env m .xor [a, b] = a ^^^ b := rfl
@[simp] lemma value_not : instructionValue env m .not [a] = ~~~a := rfl
@[simp] lemma value_byte : instructionValue env m .byte [a, b] = .byteAt a b := rfl

@[simp] lemma value_shl : instructionValue env m .shl [a, b] = b <<< a.toNat := Word.shl_eq a b

@[simp] lemma value_shr : instructionValue env m .shr [a, b] = b >>> a.toNat := Word.shr_eq a b

lemma value_address {i : Instruction}
    (h : i ∈ [Instruction.address, .caller, .origin, .coinbase, .create, .create2]) :
    ∃ a : BitVec 160, instructionValue env m i args = a.setWidth 256 := by
  simp only [mem_cons, not_mem_nil, or_false] at h
  rcases h with rfl | rfl | rfl | rfl | rfl | rfl <;> exact ⟨_, rfl⟩

end

namespace Word

lemma byteAt_eq (i x : Word) :
    byteAt i x = if i ≥ 32 then 0 else x >>> (8 * (31 - i.toNat)) &&& 0xff := by
  have h : i ≥ 32 ↔ 32 ≤ i.toNat := Iff.rfl
  unfold byteAt
  simp only [h]
  split
  · rfl
  · apply BitVec.eq_of_toNat_eq
    rw [byte, BitVec.toNat_setWidth, BitVec.toNat_setWidth, BitVec.toNat_and,
      show (0xff : Word).toNat = 2 ^ 8 - 1 from rfl, Nat.and_two_pow_sub_one_eq_mod]
    omega

lemma signextend_eq (k x : Word) :
    signextend k x =
      if k ≥ 31 then x
      else if x.getLsbD (k.toNat * 8 + 7) then x ||| ~~~((1 : Word) <<< (k.toNat * 8 + 7) - 1)
      else x &&& ((1 : Word) <<< (k.toNat * 8 + 7) - 1) := by
  have h : k ≥ 31 ↔ 31 ≤ k.toNat := Iff.rfl
  unfold signextend
  simp only [h]
  split
  · rfl
  · have hw := signExtend_setWidth_succ (i := k.toNat * 8 + 7) (by omega) x
    rw [show 8 * k.toNat + 8 = k.toNat * 8 + 7 + 1 by omega]
    exact hw

end Word

lemma u2s_eq_toInt (u : Word) : u2s u = u.toInt := by
  rw [u2s, BitVec.toInt_eq_msb_cond, BitVec.msb_eq_getLsbD_last]
  split <;> simp

lemma s2u_eq_ofInt {i : Int} (h : -2 ^ 256 ≤ i) : s2u i = .ofInt 256 i := by
  unfold s2u
  apply BitVec.eq_of_toNat_eq
  split
  · rw [BitVec.toNat_ofNat, BitVec.toNat_ofInt]
    omega
  · rw [BitVec.toNat_ofNat, BitVec.toNat_ofInt]
    omega

lemma neg_two_pow_le_of_natAbs_le {i j : Int} (u : Word) (hj : j = u.toInt)
    (h : i.natAbs ≤ j.natAbs) : -2 ^ 256 ≤ i := by
  have h₁ := BitVec.le_toInt u
  have h₂ := BitVec.toInt_lt (x := u)
  omega

lemma s2u_tdiv (a b : Word) : s2u ((u2s a).tdiv (u2s b)) = a.sdiv b := by
  rw [u2s_eq_toInt, u2s_eq_toInt, s2u_eq_ofInt]
  · apply BitVec.eq_of_toInt_eq
    rw [BitVec.toInt_ofInt, BitVec.toInt_sdiv]
  · exact neg_two_pow_le_of_natAbs_le a rfl (Int.natAbs_tdiv_le_natAbs _ _)

lemma s2u_tmod (a b : Word) : s2u ((u2s a).tmod (u2s b)) = a.srem b := by
  rw [u2s_eq_toInt, u2s_eq_toInt, ← BitVec.toInt_srem, s2u_eq_ofInt, BitVec.ofInt_toInt]
  exact neg_two_pow_le_of_natAbs_le (a.srem b) rfl le_rfl

lemma shlWorkaround_eq (x : Word) (n : Nat) : shlWorkaround x n = x <<< n := by
  apply BitVec.eq_of_toNat_eq
  rw [shlWorkaround, BitVec.toNat_shiftLeft, BitVec.toNat_ofNat]

/-! ### Identities of the rules -/

namespace Word

variable (a s b x : Word)

lemma div_eq : a / b = if b = 0 then 0 else divWorkaround a b := by
  split
  · subst b
    exact BitVec.udiv_zero
  · apply BitVec.eq_of_toNat_eq
    rw [divWorkaround, BitVec.toNat_ofNat, BitVec.toNat_udiv, Nat.mod_eq_of_lt]
    exact lt_of_le_of_lt (Nat.div_le_self _ _) a.isLt

lemma sdiv_eq : a.sdiv b = if b = 0 then 0 else s2u ((u2s a).tdiv (u2s b)) := by
  split
  · subst b
    exact BitVec.sdiv_zero
  · exact (s2u_tdiv a b).symm

lemma mod_eq : (if b = 0 then 0 else a % b) = if b = 0 then 0 else modWorkaround a b := by
  split
  · rfl
  · apply BitVec.eq_of_toNat_eq
    rw [modWorkaround, BitVec.toNat_ofNat, BitVec.toNat_umod]
    exact (Nat.mod_eq_of_lt (lt_of_le_of_lt (Nat.mod_le _ _) a.isLt)).symm

lemma smod_eq :
    (if b = 0 then 0 else a.srem b) = if b = 0 then 0 else s2u ((u2s a).tmod (u2s b)) := by
  rw [s2u_tmod]

lemma exp_eq : BitVec.ofNat 256 (a.toNat ^ b.toNat) = .ofNat 256 (a.toNat ^ b.toNat % 2 ^ 256) := by
  apply BitVec.eq_of_toNat_eq
  rw [BitVec.toNat_ofNat, BitVec.toNat_ofNat, Nat.mod_mod]

lemma ofBool_ult : ofBool (a.ult b) = if a < b then 1 else 0 := by
  simp [ofBool, BitVec.ult_iff_lt]

lemma ofBool_slt : ofBool (a.slt b) = if u2s a < u2s b then 1 else 0 := by
  simp [ofBool, BitVec.slt, u2s_eq_toInt]

lemma shl_eq_workaround : shl s x = if s > 255 then 0 else shlWorkaround x s.toNat := by
  have h : s > 255 ↔ 256 ≤ s.toNat := by simp [BitVec.lt_def]; omega
  unfold shl
  simp only [h]
  split
  · rfl
  · exact (shlWorkaround_eq x s.toNat).symm

lemma shr_eq_guard : shr s x = if s > 255 then 0 else x >>> s.toNat := by
  have h : s > 255 ↔ 256 ≤ s.toNat := by simp [BitVec.lt_def]; omega
  unfold shr
  simp only [h]

@[simp] lemma shl_zero_left : shl 0#256 x = x := by simp [shl_eq]
@[simp] lemma shl_zero_right : shl s 0#256 = 0#256 := by simp [shl_eq]
@[simp] lemma shr_zero_left : shr 0#256 x = x := by simp [shr_eq]
@[simp] lemma shr_zero_right : shr s 0#256 = 0#256 := by simp [shr_eq]

@[simp] lemma mul_max :
    x * 0xffffffffffffffffffffffffffffffffffffffffffffffffffffffffffffffff#256 = -x := by
  rw [show 0xffffffffffffffffffffffffffffffffffffffffffffffffffffffffffffffff#256 = -1#256 from rfl,
    BitVec.mul_neg, BitVec.mul_one]

@[simp] lemma max_mul :
    0xffffffffffffffffffffffffffffffffffffffffffffffffffffffffffffffff#256 * x = -x := by
  rw [BitVec.mul_comm, mul_max]

@[simp] lemma and_max :
    x &&& 0xffffffffffffffffffffffffffffffffffffffffffffffffffffffffffffffff#256 = x := by
  exact BitVec.and_allOnes

@[simp] lemma max_and :
    0xffffffffffffffffffffffffffffffffffffffffffffffffffffffffffffffff#256 &&& x = x := by
  exact BitVec.allOnes_and

@[simp] lemma or_max :
    x ||| 0xffffffffffffffffffffffffffffffffffffffffffffffffffffffffffffffff#256 =
      0xffffffffffffffffffffffffffffffffffffffffffffffffffffffffffffffff#256 := by
  exact BitVec.or_allOnes

@[simp] lemma max_or :
    0xffffffffffffffffffffffffffffffffffffffffffffffffffffffffffffffff#256 ||| x =
      0xffffffffffffffffffffffffffffffffffffffffffffffffffffffffffffffff#256 := by
  exact BitVec.allOnes_or

@[simp] lemma not_max_ult :
    BitVec.ult 0xffffffffffffffffffffffffffffffffffffffffffffffffffffffffffffffff#256 x =
      false := by
  simp [BitVec.ult]
  omega

@[simp] lemma not_ult_zero : BitVec.ult x 0#256 = false := by simp [BitVec.ult]

@[simp] lemma not_ult_self : BitVec.ult x x = false := by simp [BitVec.ult]

@[simp] lemma not_slt_self : BitVec.slt x x = false := by simp [BitVec.slt]

@[simp] lemma byteAt_and_mask (i x : Word) : byteAt i x &&& 255#256 = byteAt i x := by
  unfold byteAt
  split
  · rfl
  · apply BitVec.eq_of_toNat_eq
    rw [BitVec.toNat_and, BitVec.toNat_setWidth, show (255#256 : Word).toNat = 2 ^ 8 - 1 from rfl,
      Nat.and_two_pow_sub_one_eq_mod]
    omega

@[simp] lemma byteAt_31 : byteAt 31#256 x = x &&& 255#256 := by
  simp [byteAt_eq]

@[simp] lemma setWidth_and_addressMask (a : BitVec 160) :
    a.setWidth 256 &&& RuleList.addressMask = a.setWidth 256 := by
  apply BitVec.eq_of_toNat_eq
  have hm : RuleList.addressMask.toNat = 2 ^ 160 - 1 := rfl
  rw [BitVec.toNat_and, hm, Nat.and_two_pow_sub_one_eq_mod, BitVec.toNat_setWidth]
  omega

@[simp] lemma addressMask_and_setWidth (a : BitVec 160) :
    RuleList.addressMask &&& a.setWidth 256 = a.setWidth 256 := by
  rw [BitVec.and_comm, setWidth_and_addressMask]

lemma zero_ult : BitVec.ult 0#256 x = !decide (x = 0#256) := by
  rw [BitVec.ult, Bool.eq_iff_iff]
  simp [BitVec.toNat_eq]
  omega

end Word

/-! ### The rules, part by part -/

namespace RuleList

open Pattern MatchGroup

/-- The second rule for `MULMOD`, which leaves out the modulus. -/
def mulmodProduct : SimplificationRule :=
  rule (operation .mulmod [A, B, C]) (fun d => ↑(d A * d B)) false

/-- Constant folding computes what the machine does, the second rule for `MULMOD` apart. -/
lemma sound_part1 : ∀ r ∈ simplificationRuleListPart1, r = mulmodProduct ∨ r.Sound := by
  simp only [simplificationRuleListPart1, forall_mem_cons,
    forall_mem_nil_iff, and_true]
  refine ⟨.inr ?_, .inr ?_, .inr ?_, .inr ?_, .inr ?_, .inr ?_, .inr ?_, .inr ?_, .inr ?_,
    .inr ?_, .inr ?_, .inr ?_, .inr ?_, .inr ?_, .inr ?_, .inr ?_, .inr ?_, .inr ?_, .inr ?_,
    .inr ?_, .inr ?_, .inl rfl, .inr ?_, .inr ?_, .inr ?_⟩
  all_goals
    intro World env m v _
    simp only [denote_constant, denote_group, denote_operation_cons, denoteArguments_cons,
      denoteArguments_nil]
  case refine_4 => exact Word.div_eq _ _
  case refine_5 => exact Word.sdiv_eq _ _
  case refine_6 => exact Word.mod_eq _ _
  case refine_7 => exact Word.smod_eq _ _
  case refine_8 => exact Word.exp_eq _ _
  case refine_10 | refine_11 => exact Word.ofBool_ult _ _
  case refine_12 | refine_13 => exact Word.ofBool_slt _ _
  case refine_14 | refine_15 => simp [Word.ofBool]
  case refine_19 => exact Word.byteAt_eq _ _
  case refine_22 => exact Word.signextend_eq _ _
  case refine_23 => exact Word.shl_eq_workaround _ _
  case refine_24 => exact Word.shr_eq_guard _ _
  all_goals rfl

lemma sound_part2 : ∀ r ∈ simplificationRuleListPart2, r.Sound := by
  simp only [simplificationRuleListPart2, forall_mem_cons,
    forall_mem_nil_iff, and_true]
  refine ⟨?_, ?_, ?_, ?_, ?_, ?_, ?_, ?_, ?_, ?_, ?_, ?_, ?_, ?_, ?_, ?_, ?_, ?_, ?_, ?_,
    ?_, ?_, ?_, ?_, ?_, ?_, ?_, ?_, ?_, ?_, ?_, ?_, ?_, ?_, ?_, ?_, ?_, ?_, ?_, ?_, ?_⟩
  all_goals
    intro World env m v _
    simp [Word.ofBool, Word.zero_ult,
      eq_comm (a := 0#256)]

lemma sound_part3 : ∀ r ∈ simplificationRuleListPart3, r.Sound := by
  simp only [simplificationRuleListPart3, forall_mem_cons,
    forall_mem_nil_iff, and_true]
  refine ⟨?_, ?_, ?_, ?_, ?_, ?_, ?_, ?_, ?_, ?_⟩
  all_goals
    intro World env m v _
    simp [Word.ofBool]

lemma sound_part4 : ∀ r ∈ simplificationRuleListPart4, r.Sound := by
  simp only [simplificationRuleListPart4, forall_mem_cons,
    forall_mem_nil_iff, and_true]
  refine ⟨?_, ?_, ?_, ?_, ?_, ?_, ?_, ?_, ?_, ?_, ?_, ?_, ?_, ?_, ?_, ?_, ?_⟩
  all_goals
    intro World env m v _
    simp only [denote_constant, denote_group, denote_operation_cons, denoteArguments_cons,
      denoteArguments_nil]
    apply BitVec.eq_of_getLsbD_eq
    intro i _
    simp [-BitVec.getLsbD_eq_getElem]
  all_goals grind

lemma sound_modPowerOfTwo {i : Nat} (h : i < 256) : (modPowerOfTwo i).Sound := by
  intro World env m v _
  have hne : (1 : Word) <<< i ≠ 0 := by
    intro h0
    have hpow := toNat_one_shiftLeft (w := 256) h
    have h0' : (1#256 <<< i).toNat = 0 := congrArg BitVec.toNat h0
    have hpos := Nat.two_pow_pos i
    omega
  simp only [modPowerOfTwo, denote_operation_two, denote_group, denote_constant, value_mod,
    value_and, if_neg hne]
  exact umod_one_shiftLeft h _

lemma sound_shiftOut_shl : (shiftOut .shl).Sound := by
  intro World env m v h
  have h : 256 ≤ (v.value A).toNat := of_decide_eq_true h
  simp [shiftOut, BitVec.shiftLeft_eq_zero h]

lemma sound_shiftOut_shr : (shiftOut .shr).Sound := by
  intro World env m v h
  have h : 256 ≤ (v.value A).toNat := of_decide_eq_true h
  simp [shiftOut, BitVec.ushiftRight_eq_zero h]

lemma sound_addressMaskRules {op : Instruction}
    (hop : op ∈ [Instruction.address, .caller, .origin, .coinbase, .create, .create2]) :
    ∀ r ∈ addressMaskRules op, r.Sound := by
  simp only [addressMaskRules, forall_mem_cons, forall_mem_nil_iff, and_true]
  refine ⟨?_, ?_⟩
  all_goals
    intro World env m v _
    obtain ⟨a, ha⟩ := value_address env m (v.openArguments op) hop
    simp [ha]

lemma sound_part5 : ∀ r ∈ simplificationRuleListPart5, r.Sound := by
  intro r hr
  simp only [simplificationRuleListPart5, mem_append, mem_map, mem_range,
    mem_cons, mem_flatMap, not_mem_nil, or_false] at hr
  rcases hr with (⟨i, hi, rfl⟩ | rfl | rfl) | ⟨op, hop, hr⟩
  · exact sound_modPowerOfTwo hi
  · exact sound_shiftOut_shl
  · exact sound_shiftOut_shr
  · exact sound_addressMaskRules (by simpa using hop) r hr

lemma sound_part6 : ∀ r ∈ simplificationRuleListPart6, r.Sound := by
  simp only [simplificationRuleListPart6, doubleNegation, List.map, cons_append,
    nil_append, forall_mem_cons,
    forall_mem_nil_iff, and_true]
  refine ⟨?_, ?_, ?_, ?_, ?_, ?_, ?_⟩
  all_goals
    intro World env m v _
    simp [Word.ofBool]

/-! ### Part 7 -/

lemma sound_associativeOperation {op : Instruction} {f : Word → Word → Word}
    [Std.Associative f] [Std.Commutative f]
    (hop : ∀ a b, arithmetic op [a, b] = some (f a b)) :
    ∀ r ∈ associativeOperation (op, f), r.Sound := by
  have hval (World : Type) (env : Environment World) (m : SvmState World) (a b : Word) :
      instructionValue env m op [a, b] = f a b :=
    instructionValue_arithmetic (hop a b)
  simp only [associativeOperation, moveConstantOut, cons_append, nil_append,
    forall_mem_cons, forall_mem_nil_iff, and_true]
  refine ⟨?_, ?_, ?_, ?_, ?_, ?_, ?_, ?_⟩
  all_goals
    intro World env m v _
    simp only [denote_operation_two, denote_group, denote_constant, hval]
    ac_rfl

lemma sound_combineShifts_shl : (combineShifts .shl).Sound := by
  intro World env m v _
  simp only [combineShifts]
  split
  · rename_i h
    simp only [denote_operation_two, denote_group, denote_ofNat,
      value_shl, value_and, ← BitVec.shiftLeft_add]
    rw [BitVec.shiftLeft_eq_zero h, BitVec.and_zero]
  · rename_i h
    simp only [denote_operation_two, denote_group, denote_constant,
      value_shl, ← BitVec.shiftLeft_add]
    rw [BitVec.toNat_ofNat, Nat.mod_eq_of_lt (by omega)]

lemma sound_combineShifts_shr : (combineShifts .shr).Sound := by
  intro World env m v _
  simp only [combineShifts]
  split
  · rename_i h
    simp only [denote_operation_two, denote_group, denote_ofNat,
      value_shr, value_and, ← BitVec.shiftRight_add]
    rw [BitVec.ushiftRight_eq_zero h, BitVec.and_zero]
  · rename_i h
    simp only [denote_operation_two, denote_group, denote_constant,
      value_shr, ← BitVec.shiftRight_add]
    rw [BitVec.toNat_ofNat, Nat.mod_eq_of_lt (by omega)]

lemma toNat_sub_of_lt {a b : Word} (h : b < a) : (a - b).toNat = a.toNat - b.toNat :=
  BitVec.toNat_sub_of_le (BitVec.le_of_lt h)

lemma sound_combineShlShr : combineShlShr.Sound := by
  intro World env m v _
  simp only [combineShlShr, shlWorkaround_eq]
  split_ifs with hgt hlt
  · simp only [denote_operation_two, denote_group, denote_constant,
      value_shl, value_shr, value_and, toNat_sub_of_lt hgt]
    exact shiftLeft_ushiftRight_of_le (le_of_lt hgt) _
  · simp only [denote_operation_two, denote_group, denote_constant,
      value_shl, value_shr, value_and, toNat_sub_of_lt hlt]
    exact shiftLeft_ushiftRight_of_ge (le_of_lt hlt) _
  · have heq : (v.value A).toNat = (v.value B).toNat := by
      simp only [gt_iff_lt, BitVec.lt_def] at hgt hlt
      omega
    simp only [denote_operation_two, denote_group, denote_constant,
      value_shl, value_shr, value_and, heq]
    have h := shiftLeft_ushiftRight_of_le (le_refl (v.value B).toNat) (v.value X)
    rwa [Nat.sub_self, BitVec.shiftLeft_zero] at h

lemma sound_combineShrShl : combineShrShl.Sound := by
  intro World env m v _
  simp only [combineShrShl, shlWorkaround_eq]
  split_ifs with hgt hlt
  · simp only [denote_operation_two, denote_group, denote_constant,
      value_shl, value_shr, value_and, toNat_sub_of_lt hgt]
    exact ushiftRight_shiftLeft_of_le (le_of_lt hgt) _
  · simp only [denote_operation_two, denote_group, denote_constant,
      value_shl, value_shr, value_and, toNat_sub_of_lt hlt]
    exact ushiftRight_shiftLeft_of_ge (le_of_lt hlt) _
  · have heq : (v.value A).toNat = (v.value B).toNat := by
      simp only [gt_iff_lt, BitVec.lt_def] at hgt hlt
      omega
    simp only [denote_operation_two, denote_group, denote_constant,
      value_shl, value_shr, value_and, heq]
    have h := ushiftRight_shiftLeft_of_le (le_refl (v.value B).toNat) (v.value X)
    rwa [Nat.sub_self, BitVec.ushiftRight_zero] at h

lemma sound_moveMaskOut {xa : List Pattern} (hxa : xa = [↑X, ↑A] ∨ xa = [↑A, ↑X])
    {shiftOp : Instruction} (hop : shiftOp = .shl ∨ shiftOp = .shr) :
    (moveMaskOut shiftOp xa).Sound := by
  intro World env m v _
  rcases hop with rfl | rfl <;> rcases hxa with rfl | rfl
  all_goals
    simp only [moveMaskOut, denote_operation_two, denote_group, denote_constant, value_shl,
      value_shr, value_and, shlWorkaround_eq, BitVec.shiftLeft_and_distrib,
      BitVec.ushiftRight_and_distrib, reduceCtorEq, if_true, if_false]
    try rw [BitVec.and_comm]

lemma and_shr_of_feasible {d : MatchGroup → Word} (h : feasibilityFunction d) (x : Word) :
    d A &&& x >>> (d B).toNat = x >>> (d B).toNat := by
  unfold feasibilityFunction at h
  split at h
  · cases h
  · exact and_ushiftRight_of_covers (beq_iff_eq.mp h)

lemma sound_part7 : ∀ r ∈ simplificationRuleListPart7, r.Sound := by
  intro r hr
  simp only [simplificationRuleListPart7, mem_append, mem_flatMap, mem_cons,
    not_mem_nil, or_false, or_assoc] at hr
  rcases hr with ⟨_, hop, hr⟩ | rfl | rfl | rfl | rfl | ⟨_, hop, rfl | rfl⟩ | rfl | rfl | rfl |
    rfl | rfl
  case inl =>
    rcases hop with rfl | rfl | rfl | rfl | rfl
    all_goals exact sound_associativeOperation (fun _ _ => rfl) r hr
  · exact sound_combineShifts_shl
  · exact sound_combineShifts_shr
  · exact sound_combineShlShr
  · exact sound_combineShrShl
  · exact sound_moveMaskOut (.inl rfl) hop
  · exact sound_moveMaskOut (.inr rfl) hop
  -- Products and quotients of powers of two.
  · intro World env m v _
    simp only [denote_operation_two, denote_group, denote_ofNat, value_mul, value_shl]
    exact mul_one_shiftLeft _ _
  · intro World env m v _
    simp only [denote_operation_two, denote_group, denote_ofNat, value_mul, value_shl]
    rw [BitVec.mul_comm]
    exact mul_one_shiftLeft _ _
  · intro World env m v _
    simp only [denote_operation_two, denote_group, denote_ofNat, value_div, value_shl, value_shr]
    exact udiv_one_shiftLeft _ _
  · intro World env m v h
    simp only [denote_operation_two, denote_group, value_and, value_shr]
    exact and_shr_of_feasible h _
  · intro World env m v h
    simp only [denote_operation_two, denote_group, value_and, value_shr]
    rw [BitVec.and_comm]
    exact and_shr_of_feasible h _

lemma sound_part8 : ∀ r ∈ simplificationRuleListPart8, r.Sound := by
  simp only [simplificationRuleListPart8, forall_mem_cons,
    forall_mem_nil_iff, and_true]
  refine ⟨?_, ?_, ?_, ?_, ?_⟩
  all_goals
    intro World env m v _
    simp
    grind

/-! ### What a rule reads -/

lemma closed_part1 : ∀ r ∈ simplificationRuleListPart1, r.Closed := by
  simp only [simplificationRuleListPart1, forall_mem_cons, forall_mem_nil_iff, and_true]
  and_intros
  all_goals
    constructor <;> intro d <;> simp +contextual [isConstant]

lemma closed_part2 : ∀ r ∈ simplificationRuleListPart2, r.Closed := by
  simp only [simplificationRuleListPart2, forall_mem_cons, forall_mem_nil_iff, and_true]
  and_intros
  all_goals
    constructor <;> intro d <;> simp +contextual [isConstant]

lemma closed_part3 : ∀ r ∈ simplificationRuleListPart3, r.Closed := by
  simp only [simplificationRuleListPart3, forall_mem_cons, forall_mem_nil_iff, and_true]
  and_intros
  all_goals
    constructor <;> intro d <;> simp +contextual [isConstant]

lemma closed_part4 : ∀ r ∈ simplificationRuleListPart4, r.Closed := by
  simp only [simplificationRuleListPart4, forall_mem_cons, forall_mem_nil_iff, and_true]
  and_intros
  all_goals
    constructor <;> intro d <;> simp +contextual [isConstant]

lemma closed_modPowerOfTwo (i : Nat) : (modPowerOfTwo i).Closed := by
  constructor <;> intro d <;>
    simp +contextual [modPowerOfTwo, isConstant]

lemma closed_shiftOut (op : Instruction) : (shiftOut op).Closed := by
  constructor <;> intro d <;> simp +contextual [shiftOut, isConstant]

lemma closed_addressMaskRules (op : Instruction) : ∀ r ∈ addressMaskRules op, r.Closed := by
  simp only [addressMaskRules, forall_mem_cons, forall_mem_nil_iff, and_true]
  and_intros
  all_goals
    constructor <;> intro d <;> simp +contextual [isConstant]

lemma closed_part6 : ∀ r ∈ simplificationRuleListPart6, r.Closed := by
  simp only [simplificationRuleListPart6, doubleNegation, List.map, cons_append,
    nil_append, forall_mem_cons, forall_mem_nil_iff, and_true]
  and_intros
  all_goals
    constructor <;> intro d <;> simp +contextual [isConstant]

lemma closed_part8 : ∀ r ∈ simplificationRuleListPart8, r.Closed := by
  simp only [simplificationRuleListPart8, forall_mem_cons, forall_mem_nil_iff, and_true]
  and_intros
  all_goals
    constructor <;> intro d <;> simp +contextual [isConstant]

lemma closed_part7 : ∀ r ∈ simplificationRuleListPart7, r.Closed := by
  simp only [simplificationRuleListPart7, associativeOperation, moveConstantOut,
    flatMap_cons, flatMap_nil, cons_append, nil_append, append_nil,
    forall_mem_cons, forall_mem_nil_iff, and_true]
  and_intros
  all_goals
    constructor <;> intro d <;>
      simp +contextual [combineShifts, combineShlShr, combineShrShl, moveMaskOut,
        feasibilityFunction, isConstant]
  all_goals
    split_ifs <;> simp

lemma closed_part5 : ∀ r ∈ simplificationRuleListPart5, r.Closed := by
  intro r hr
  simp only [simplificationRuleListPart5, mem_append, mem_map, mem_cons,
    mem_flatMap, not_mem_nil, or_false] at hr
  rcases hr with (⟨i, -, rfl⟩ | rfl | rfl) | ⟨op, -, hr⟩
  · exact closed_modPowerOfTwo i
  · exact closed_shiftOut _
  · exact closed_shiftOut _
  · exact closed_addressMaskRules op r hr

end RuleList

open RuleList

/-- All rules but one are identities. -/
theorem sound_of_mem_rules {r : SimplificationRule}
    (h : r ∈ simplificationRuleList) : r = mulmodProduct ∨ r.Sound := by
  simp only [simplificationRuleList, mem_append] at h
  rcases h with ((((((h | h) | h) | h) | h) | h) | h) | h
  · exact sound_part1 r h
  · exact .inr (sound_part2 r h)
  · exact .inr (sound_part3 r h)
  · exact .inr (sound_part4 r h)
  · exact .inr (sound_part5 r h)
  · exact .inr (sound_part6 r h)
  · exact .inr (sound_part7 r h)
  · exact .inr (sound_part8 r h)

theorem closed_of_mem_rules {r : SimplificationRule}
    (h : r ∈ simplificationRuleList) : r.Closed := by
  simp only [simplificationRuleList, mem_append] at h
  rcases h with ((((((h | h) | h) | h) | h) | h) | h) | h
  · exact closed_part1 r h
  · exact closed_part2 r h
  · exact closed_part3 r h
  · exact closed_part4 r h
  · exact closed_part5 r h
  · exact closed_part6 r h
  · exact closed_part7 r h
  · exact closed_part8 r h

end Sof
