import Polc.Sof.Execution.StraightLine
import Polc.Sof.PeepholeOptimiser

/-!
# The windows of the peephole optimiser

Each window of straight-line code does what the items do that are put out for it.
-/

namespace Sof.PeepholeOptimiser

open AssemblyItem Semantics List BitVec

/-- Straight-line code that faults or does the same as `out`. -/
structure Replaces (w out : List AssemblyItem) : Prop where
  ne_nil : w ≠ []
  plain : w.all isPlain = true
  plain_out : out.all isPlain = true
  pushTag_mem : ∀ d, .pushTag d ∈ out → .pushTag d ∈ w
  same : ∀ {World : Type} (env : Environment World) (layout : Layout) (stack : List Value)
    (state : SvmState World),
    (∃ f, straight env layout w stack state = .inr (.fault f)) ∨
      ∃ r, straight env layout w stack state = .inl r ∧
        straight env layout out stack state = .inl r

variable {World : Type} {env : Environment World} {layout : Layout} {stack : List Value}
  {state : SvmState World}

lemma straight_cons (i : AssemblyItem) (w : List AssemblyItem) :
    straight env layout (i :: w) stack state =
      match execItem env layout.symbolic [] i [] stack state with
      | .inl c => straight env layout w c.stack c.state
      | .inr o => .inr o := rfl

/-! ### Values that are dropped -/

variable {i j : AssemblyItem} {out : List AssemblyItem}

lemma replaces_pushPop (h : pushPop i j = some out) : Replaces [i, j] out := by
  rw [pushPop] at h
  split_ifs at h with hij
  obtain ⟨rfl, hi⟩ := hij
  cases h
  have hplain : isPlain i = true := by
    cases i with
    | tag => cases hi
    | operation i => cases i <;> first | rfl | cases hi
    | _ => rfl
  refine ⟨cons_ne_nil _ _, ?_, rfl, nofun, ?_⟩
  · rw [all_cons, hplain]
    rfl
  · intro World env layout stack state
    cases i with
    | operation i =>
      cases i with
      | dup n =>
        simp only [straight, execItem]
        cases stack[n.val]? with
        | none => exact .inl ⟨_, rfl⟩
        | some v => exact .inr ⟨_, rfl, rfl⟩
      | _ => cases hi
    | undefinedItem => cases hi
    | tag => cases hi
    | pushDeployTimeAddress => cases hi
    | _ => exact .inr ⟨_, rfl, rfl⟩

lemma straight_replicate_pop {n : Nat} (h : n ≤ stack.length) :
    straight env layout (List.replicate n (.operation .pop)) stack state =
      .inl (stack.drop n, state) := by
  induction n generalizing stack with
  | zero => rfl
  | succ n ih =>
    cases stack with
    | nil => exact absurd h (Nat.not_succ_le_zero n)
    | cons v stack => exact ih (Nat.le_of_succ_le_succ h)

lemma execInstruction_of_ret (env : Environment World) (state : SvmState World)
    {i : Instruction} (hret : (instructionInfo i).ret = 1)
    (heff : (instructionInfo i).sideEffects = false) (args : List Word) :
    ∃ v, execInstruction env i args state = .ok [v] state := by
  cases i <;> first
    | exact ⟨_, rfl⟩
    | (cases hret; done)
    | cases heff

lemma execItem_of_ret (env : Environment World) (layout : Layout) {i : Instruction}
    (hret : (instructionInfo i).ret = 1) (heff : (instructionInfo i).sideEffects = false)
    (stack : List Value) (state : SvmState World) :
    (∃ f, execItem env layout.symbolic [] (.operation i) [] stack state = .inr (.fault f)) ∨
      ∃ v, (instructionInfo i).args ≤ stack.length ∧
        execItem env layout.symbolic [] (.operation i) [] stack state =
          .inl ⟨[], v :: stack.drop (instructionInfo i).args, state⟩ := by
  have hoperation : (∃ f, execOperation env i [] stack state = .inr (.fault f)) ∨
      ∃ v, (instructionInfo i).args ≤ stack.length ∧ execOperation env i [] stack state =
        .inl ⟨[], v :: stack.drop (instructionInfo i).args, state⟩ := by
    rw [execOperation]
    split_ifs with hlen
    · exact .inl ⟨_, rfl⟩
    · cases Value.words (stack.take (instructionInfo i).args) with
      | none => exact .inl ⟨_, rfl⟩
      | some args =>
        obtain ⟨v, hv⟩ := execInstruction_of_ret env state hret heff args
        refine .inr ⟨.word v, ?_, ?_⟩
        · rw [length_take] at hlen
          omega
        · simp only [hv]
          rfl
  cases i with
  | jump => cases hret
  | jumpi => cases hret
  | dup n => cases hret
  | swap n => cases hret
  | pop => cases hret
  | push n => exact .inl ⟨_, rfl⟩
  | pc => exact .inl ⟨_, rfl⟩
  | gas => exact .inl ⟨_, rfl⟩
  | and =>
    rcases stack with _ | ⟨v, _ | ⟨w, stack⟩⟩
    · exact .inl ⟨_, rfl⟩
    · exact .inl ⟨_, rfl⟩
    · simp only [execItem]
      cases Value.maskTag v w with
      | none => exact hoperation
      | some masked => exact .inr ⟨masked, Nat.le_add_left 2 _, rfl⟩
  | _ => exact hoperation

lemma replaces_opPop (h : opPop i j = some out) : Replaces [i, j] out := by
  cases i with
  | operation i =>
    rw [opPop] at h
    split_ifs at h with hij
    obtain ⟨rfl, hret, heff⟩ := hij
    rw [Bool.not_eq_true'] at heff
    cases h
    have hplain : isPlain (.operation i) = true := by
      cases i <;> first | rfl | cases hret
    refine ⟨cons_ne_nil _ _, ?_, ?_, ?_, ?_⟩
    · rw [all_cons, hplain]
      rfl
    · rw [all_eq_true]
      intro j hj
      rw [eq_of_mem_replicate hj]
      rfl
    · intro d hd
      cases eq_of_mem_replicate hd
    · intro World env layout stack state
      rw [straight_cons]
      rcases execItem_of_ret env layout hret heff stack state with ⟨f, hf⟩ | ⟨v, hlen, hv⟩
      · rw [hf]
        exact .inl ⟨f, rfl⟩
      · rw [hv, straight_replicate_pop hlen]
        exact .inr ⟨_, rfl, rfl⟩
  | _ => cases h

/-! ### Duplicates and swaps -/

lemma replaces_doublePush (h : doublePush i j = some out) : Replaces [i, j] out := by
  cases i with
  | push a =>
    cases j with
    | push b =>
      rw [doublePush] at h
      split_ifs at h with hab
      cases h
      subst hab
      exact ⟨cons_ne_nil _ _, rfl, rfl, by simp,
        fun _ _ _ _ => .inr ⟨_, rfl, rfl⟩⟩
    | _ => cases h
  | _ => cases h

lemma replaces_doubleSwap (h : doubleSwap i j = some out) : Replaces [i, j] out := by
  rw [doubleSwap] at h
  split_ifs at h with hij
  obtain ⟨rfl, hswap⟩ := hij
  cases h
  cases i with
  | operation i =>
    cases i with
    | swap n =>
      refine ⟨cons_ne_nil _ _, rfl, rfl, nofun, fun env layout stack state => ?_⟩
      cases stack with
      | nil => exact .inl ⟨_, rfl⟩
      | cons top stack =>
        simp only [straight, execItem]
        cases hn : stack[n.val]? with
        | none => exact .inl ⟨_, rfl⟩
        | some v =>
          obtain ⟨hlt, rfl⟩ := List.getElem?_eq_some_iff.mp hn
          simp only [getElem?_set_self hlt, set_set, set_getElem_self]
          exact .inr ⟨_, rfl, rfl⟩
    | _ => cases hswap
  | _ => cases hswap

lemma replaces_swapped {i j : Instruction} (hplain : isPlain (.operation i))
    (hplain' : isPlain (.operation j)) (hret : (instructionInfo j).ret = 1)
    (heff : (instructionInfo j).sideEffects = false)
    (h : ∀ {World : Type} (env : Environment World) (layout : Layout) (v w : Value)
      (stack : List Value) (state : SvmState World),
      execItem env layout.symbolic [] (.operation i) [] (w :: v :: stack) state =
        execItem env layout.symbolic [] (.operation j) [] (v :: w :: stack) state) :
    Replaces [.operation (.swap 0), .operation i] [.operation j] := by
  refine ⟨cons_ne_nil _ _, ?_, ?_, by simp, fun env layout stack state => ?_⟩
  · rw [all_cons, all_cons, hplain]
    rfl
  · rw [all_cons, hplain']
    rfl
  · rcases stack with _ | ⟨v, _ | ⟨w, stack⟩⟩
    · exact .inl ⟨_, rfl⟩
    · exact .inl ⟨_, rfl⟩
    · have hswap : execItem env layout.symbolic [] (.operation (.swap 0)) [] (v :: w :: stack)
          state = .inl ⟨[], w :: v :: stack, state⟩ := rfl
      simp only [straight, hswap, h]
      rcases execItem_of_ret env layout hret heff (v :: w :: stack) state with
        ⟨f, hf⟩ | ⟨x, -, hx⟩
      · rw [hf]
        exact .inl ⟨f, rfl⟩
      · rw [hx]
        exact .inr ⟨_, rfl, rfl⟩

lemma execOperation_two {i : Instruction} (hargs : (instructionInfo i).args = 2) (v w : Value) :
    execOperation env i [] (v :: w :: stack) state =
      match Value.words [v, w] with
      | some args =>
        match execInstruction env i args state with
        | .ok values state => .inl ⟨[], values.map .word ++ stack, state⟩
        | .halt reason state => .inr (.halt reason stack state)
        | .timeout => .inr (.fault .undefinedItem)
      | none => .inr (.fault .tagAsNumber) := by
  rw [execOperation, hargs]
  rfl

lemma execOperation_swapped (env : Environment World) (i j : Instruction) (hi : (instructionInfo i).args = 2)
    (hj : (instructionInfo j).args = 2)
    (h : ∀ x y : Word, ∃ z, arithmetic i [y, x] = some z ∧ arithmetic j [x, y] = some z)
    (v w : Value) (stack : List Value) (state : SvmState World) :
    execOperation env i [] (w :: v :: stack) state =
      execOperation env j [] (v :: w :: stack) state := by
  rw [execOperation_two hi, execOperation_two hj]
  cases v with
  | tag => cases w <;> rfl
  | word x =>
    cases w with
    | tag => rfl
    | word y =>
      obtain ⟨z, hz, hz'⟩ := h x y
      simp only [Value.words, Option.map_some, execInstruction, hz, hz', Option.some_or]

lemma arithmetic_comm {i : Instruction}
    (hi : SemanticInformation.isCommutativeOperation i) (x y : Word) :
    ∃ z, arithmetic i [y, x] = some z ∧ arithmetic i [x, y] = some z := by
  cases i with
  | add => exact ⟨x + y, congrArg some (BitVec.add_comm y x), rfl⟩
  | mul => exact ⟨x * y, congrArg some (BitVec.mul_comm y x), rfl⟩
  | and => exact ⟨x &&& y, congrArg some (BitVec.and_comm y x), rfl⟩
  | or => exact ⟨x ||| y, congrArg some (BitVec.or_comm y x), rfl⟩
  | xor => exact ⟨x ^^^ y, congrArg some (BitVec.xor_comm y x), rfl⟩
  | eq =>
    have hxy : decide (y = x) = decide (x = y) := decide_eq_decide.mpr eq_comm
    exact ⟨.ofBool (decide (x = y)), congrArg (fun b => some (Word.ofBool b)) hxy, rfl⟩
  | _ => cases hi

lemma maskTag_comm (v w : Value) : Value.maskTag v w = Value.maskTag w v := by
  cases v <;> cases w <;> rfl

lemma execItem_comm {i : Instruction}
    (hi : SemanticInformation.isCommutativeOperation i) (env : Environment World)
    (layout : Layout) (v w : Value) (stack : List Value) (state : SvmState World) :
    execItem env layout.symbolic [] (.operation i) [] (w :: v :: stack) state =
      execItem env layout.symbolic [] (.operation i) [] (v :: w :: stack) state := by
  have hcomm := arithmetic_comm hi
  cases i with
  | add => exact execOperation_swapped env .add .add rfl rfl hcomm v w stack state
  | mul => exact execOperation_swapped env .mul .mul rfl rfl hcomm v w stack state
  | eq => exact execOperation_swapped env .eq .eq rfl rfl hcomm v w stack state
  | or => exact execOperation_swapped env .or .or rfl rfl hcomm v w stack state
  | xor => exact execOperation_swapped env .xor .xor rfl rfl hcomm v w stack state
  | and =>
    simp only [execItem, maskTag_comm w v]
    cases Value.maskTag v w with
    | some => rfl
    | none => exact execOperation_swapped env .and .and rfl rfl hcomm v w stack state
  | _ => cases hi

lemma replaces_commutativeSwap (h : commutativeSwap i j = some out) : Replaces [i, j] out := by
  cases j with
  | operation j =>
    rw [commutativeSwap] at h
    split_ifs at h with hij
    obtain ⟨rfl, hj⟩ := hij
    cases h
    have hinfo : isPlain (.operation j) = true ∧ (instructionInfo j).ret = 1 ∧
        (instructionInfo j).sideEffects = false := by
      cases j <;> first | exact ⟨rfl, rfl, rfl⟩ | cases hj
    exact replaces_swapped hinfo.1 hinfo.1 hinfo.2.1 hinfo.2.2 (execItem_comm hj)
  | _ => cases h

lemma replaces_swapComparison (h : swapComparison i j = some out) : Replaces [i, j] out := by
  cases j with
  | operation j =>
    rw [swapComparison] at h
    split_ifs at h with hi
    subst hi
    obtain ⟨k, hk, rfl⟩ := Option.map_eq_some_iff.mp h
    cases j with
    | lt =>
      cases hk
      exact replaces_swapped rfl rfl rfl rfl fun env _ =>
        execOperation_swapped env .lt .gt rfl rfl fun x y => ⟨_, rfl, rfl⟩
    | gt =>
      cases hk
      exact replaces_swapped rfl rfl rfl rfl fun env _ =>
        execOperation_swapped env .gt .lt rfl rfl fun x y => ⟨_, rfl, rfl⟩
    | slt =>
      cases hk
      exact replaces_swapped rfl rfl rfl rfl fun env _ =>
        execOperation_swapped env .slt .sgt rfl rfl fun x y => ⟨_, rfl, rfl⟩
    | sgt =>
      cases hk
      exact replaces_swapped rfl rfl rfl rfl fun env _ =>
        execOperation_swapped env .sgt .slt rfl rfl fun x y => ⟨_, rfl, rfl⟩
    | _ => cases hk
  | _ => cases h

lemma replaces_tagConjunctions {k : AssemblyItem} (h : tagConjunctions i j k = some out) :
    Replaces [i, j, k] out := by
  cases i with
  | pushTag d =>
    cases j with
    | push w =>
      rw [tagConjunctions] at h
      split_ifs at h with hw
      obtain ⟨rfl, hmask⟩ := hw
      cases h
      refine ⟨cons_ne_nil _ _, rfl, rfl, by simp,
        fun env layout stack state => .inr ⟨_, ?_, rfl⟩⟩
      simp only [straight, execItem, Value.maskTag, if_pos hmask]
    | _ => cases h
  | _ => cases h

lemma replaces_truthyAnd {k : AssemblyItem} (h : truthyAnd i j k = some out) :
    Replaces [i, j, k] out := by
  rw [truthyAnd] at h
  split_ifs at h with hijk
  obtain ⟨rfl, rfl, rfl⟩ := hijk
  cases h
  refine ⟨cons_ne_nil _ _, rfl, rfl, nofun, fun env layout stack state => ?_⟩
  have hnot : ∀ stack, straight env layout [.push 0, .operation .not, .operation .and] stack state =
      straight env layout [.operation .and] (.word (~~~0) :: stack) state := fun _ => rfl
  rw [hnot]
  cases stack with
  | nil => exact .inl ⟨_, rfl⟩
  | cons v stack =>
    refine .inr ⟨_, ?_, rfl⟩
    cases v with
    | tag s t => rfl
    | word x =>
      have hand : execOperation env .and [] (.word (~~~0) :: .word x :: stack) state =
          .inl ⟨[], .word (~~~0 &&& x) :: stack, state⟩ := execOperation_two rfl _ _
      have hones : ~~~(0 : Word) = BitVec.allOnes 256 := by decide
      rw [hones, allOnes_and] at hand
      rw [straight_cons, hones]
      simp only [execItem, Value.maskTag, hand]
      rfl

end Sof.PeepholeOptimiser
