import Polc.Sof.Execution

/-!
# Straight-line code

Items that are executed one after the other, wherever they are, in runs that neither observe code
positions and gas nor jump to numbers.
-/

namespace Sof

open AssemblyItem Semantics List

variable {World : Type} {env : Environment World} {layout : Layout}
  {items rest : List AssemblyItem} {stack : List Value} {state : SvmState World}

/-- Nothing about the code is observed, and only tags can be jumped to. -/
def Layout.symbolic (layout : Layout) : Layout :=
  { layout.blind with tagAt := fun _ => none }

lemma execItem_symbolic (i : AssemblyItem) (rest : List AssemblyItem) (stack : List Value)
    (state : SvmState World) :
    (∃ f, execItem env layout.symbolic items i rest stack state = .inr (.fault f)) ∨
      execItem env layout items i rest stack state =
        execItem env layout.symbolic items i rest stack state := by
  have hjump : ∀ v stack, (∃ f, jumpTo layout.symbolic items v stack state = .inr (.fault f)) ∨
      jumpTo layout items v stack state = jumpTo layout.symbolic items v stack state := by
    intro v stack
    cases v with
    | word w => exact .inl ⟨_, rfl⟩
    | tag s t => exact .inr rfl
  cases i with
  | operation i =>
    cases i with
    | pc => exact .inl ⟨_, rfl⟩
    | gas => exact .inl ⟨_, rfl⟩
    | jump =>
      cases stack with
      | nil => exact .inr rfl
      | cons v stack => exact hjump v stack
    | jumpi =>
      rcases stack with _ | ⟨v, _ | ⟨w, stack⟩⟩
      · exact .inr rfl
      · exact .inr rfl
      · cases w with
        | tag => exact .inr rfl
        | word w =>
          simp only [execItem]
          split_ifs
          · exact .inr rfl
          · exact hjump v stack
    | _ => exact .inr rfl
  | _ => exact .inr rfl

lemma execStep_symbolic (c : Config World) :
    (∃ f, execStep env layout.symbolic items c = .inr (.fault f)) ∨
      execStep env layout items c = execStep env layout.symbolic items c := by
  rw [execStep, execStep]
  cases skipTags c.code with
  | nil => exact .inr rfl
  | cons i rest => exact execItem_symbolic i rest c.stack c.state

lemma ends_symbolic_iff {c : Config World}
    (h : ∀ f, ¬ Ends (execStep env layout.symbolic items) c (.fault f)) (o : Outcome World) :
    Ends (execStep env layout.symbolic items) c o ↔ Ends (execStep env layout items) c o := by
  have hstep : ∀ c d : Config World, c = d →
      Advances (execStep env layout.symbolic items) (execStep env layout items) Eq Eq
        (fun o => ∃ f, o = .fault f) (fun _ => 0) c d := by
    rintro c _ rfl
    rcases execStep_symbolic c with ⟨f, hc⟩ | hc
    · exact .bad _ ⟨1, runFor_succ_of_end hc 0⟩ ⟨f, rfl⟩
    · apply Advances.of_liftRel
      rw [hc]
  have hgood : ∀ o, Ends (execStep env layout.symbolic items) c o → ¬ ∃ f, o = .fault f := by
    rintro o ho ⟨f, rfl⟩
    exact h f ho
  constructor
  · intro ho
    obtain ⟨_, ho', rfl⟩ := ends_of_advances hstep rfl hgood ho
    exact ho'
  · intro ho
    obtain ⟨_, ho', rfl⟩ := ends_of_advances_symm hstep rfl hgood ho
    exact ho'

/-! ### Plain items -/

/-- The item is neither a tag nor a jump. -/
def isPlain : AssemblyItem → Bool
  | .tag _ | .operation .jump | .operation .jumpi => false
  | _ => true

lemma execOperation_rest (env : Environment World) (i : Instruction)
    (rest : List AssemblyItem) (stack : List Value) (state : SvmState World) :
    execOperation env i rest stack state =
      (execOperation env i [] stack state).map (fun c => { c with code := rest }) id := by
  rw [execOperation, execOperation]
  split_ifs
  · rfl
  · cases Value.words (stack.take (instructionInfo i).args) with
    | none => rfl
    | some args =>
      simp only
      cases execInstruction env i args state <;> rfl

/-- What a plain item does depends neither on the program nor on the code behind it. -/
lemma execItem_plain {i : AssemblyItem} (hi : isPlain i) :
    execItem env layout.symbolic items i rest stack state =
      (execItem env layout.symbolic [] i [] stack state).map
        (fun c => { c with code := rest }) id := by
  cases i with
  | operation i =>
    cases i with
    | jump => cases hi
    | jumpi => cases hi
    | dup n =>
      simp only [execItem]
      cases stack[n.val]? <;> rfl
    | swap n =>
      cases stack with
      | nil => rfl
      | cons top stack =>
        simp only [execItem]
        cases stack[n.val]? <;> rfl
    | pop => cases stack <;> rfl
    | and =>
      rcases stack with _ | ⟨v, _ | ⟨w, stack⟩⟩
      · rfl
      · rfl
      · simp only [execItem]
        cases Value.maskTag v w with
        | none => exact execOperation_rest env .and rest (v :: w :: stack) state
        | some => rfl
    | push n => rfl
    | pc => rfl
    | gas => rfl
    | _ =>
      simp only [execItem]
      exact execOperation_rest env _ rest stack state
  | tag => cases hi
  | _ => rfl

/-- Execute plain items one after the other. -/
def straight (env : Environment World) (layout : Layout) :
    List AssemblyItem → List Value → SvmState World →
      (List Value × SvmState World) ⊕ Outcome World
  | [], stack, state => .inl (stack, state)
  | i :: items, stack, state =>
    match execItem env layout.symbolic [] i [] stack state with
    | .inl c => straight env layout items c.stack c.state
    | .inr o => .inr o

lemma skipTags_of_isPlain {i : AssemblyItem} (hi : isPlain i) (l : List AssemblyItem) :
    skipTags (i :: l) = i :: l := by
  rw [skipTags_cons]
  cases i with
  | tag => cases hi
  | _ => rfl

lemma execStep_congr {code code' : List AssemblyItem} (h : skipTags code = skipTags code') :
    execStep env layout items ⟨code, stack, state⟩ =
      execStep env layout items ⟨code', stack, state⟩ := by
  rw [execStep, execStep, h]

lemma ends_straight {w l code : List AssemblyItem} {o : Outcome World}
    (hw : ∀ i ∈ w, isPlain i) (hcode : skipTags code = skipTags (w ++ l))
    (h : straight env layout w stack state = .inr o) :
    Ends (execStep env layout.symbolic items) ⟨code, stack, state⟩ o := by
  induction w generalizing code stack state with
  | nil => cases h
  | cons i w ih =>
    have hi := hw i mem_cons_self
    have hstep : execStep env layout.symbolic items ⟨code, stack, state⟩ =
        execItem env layout.symbolic items i (w ++ l) stack state := by
      rw [execStep_congr hcode, execStep, cons_append, skipTags_of_isPlain hi]
    rw [execItem_plain hi] at hstep
    rw [straight] at h
    cases hexec : execItem env layout.symbolic [] i [] stack state with
    | inl c =>
      rw [hexec] at h hstep
      exact .of_runFor (runFor_succ_of_step hstep 0)
        (ih (fun j hj => hw j (mem_cons_of_mem i hj)) rfl h)
    | inr o' =>
      rw [hexec] at h hstep
      cases h
      exact ⟨1, runFor_succ_of_end hstep 0⟩

lemma runFor_straight {w l code : List AssemblyItem} {stack' : List Value}
    {state' : SvmState World} (hw : ∀ i ∈ w, isPlain i)
    (hcode : skipTags code = skipTags (w ++ l))
    (h : straight env layout w stack state = .inl (stack', state')) :
    ∃ code', skipTags code' = skipTags l ∧
      runFor (execStep env layout.symbolic items) w.length ⟨code, stack, state⟩ =
        .inl ⟨code', stack', state'⟩ := by
  induction w generalizing code stack state with
  | nil =>
    cases h
    exact ⟨code, hcode, rfl⟩
  | cons i w ih =>
    have hi := hw i mem_cons_self
    have hstep : execStep env layout.symbolic items ⟨code, stack, state⟩ =
        execItem env layout.symbolic items i (w ++ l) stack state := by
      rw [execStep_congr hcode, execStep, cons_append, skipTags_of_isPlain hi]
    rw [execItem_plain hi] at hstep
    rw [straight] at h
    cases hexec : execItem env layout.symbolic [] i [] stack state with
    | inl c =>
      rw [hexec] at h hstep
      obtain ⟨code', hcode', hrun⟩ := ih (fun j hj => hw j (mem_cons_of_mem i hj)) rfl h
      exact ⟨code', hcode', (runFor_succ_of_step hstep _).trans hrun⟩
    | inr o' =>
      rw [hexec] at h
      cases h

end Sof
