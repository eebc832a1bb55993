import Polc.Sof.BlockDeduplicator.Meaning

/-!
# Code that computes something

A run from some place of the code proceeds as a computation if it gets where the computation
returns, ends as the computation halts, and goes on for some time if the computation runs out of
fuel. There is a rule for each kind of item, one for what follows a part of the code, and one for
jumps.
-/

namespace Sof

open AssemblyItem Semantics BlockDeduplicator List

/-- How a computation ends before its code does. -/
inductive Ending where
  | halt (reason : Halt)
  | fault (f : Fault)
  deriving DecidableEq, Repr

variable {World : Type}

/-- Configurations with the same next instruction, stack and state. -/
structure Config.Equiv (c d : Config World) : Prop where
  code : skipTags c.code = skipTags d.code
  stack : c.stack = d.stack
  state : c.state = d.state

namespace Config.Equiv

@[refl] lemma refl (c : Config World) : c.Equiv c := ⟨rfl, rfl, rfl⟩

lemma symm {c d : Config World} (h : c.Equiv d) : d.Equiv c :=
  ⟨h.code.symm, h.stack.symm, h.state.symm⟩

lemma trans {c d e : Config World} (h : c.Equiv d) (h' : d.Equiv e) : c.Equiv e :=
  ⟨h.code.trans h'.code, h.stack.trans h'.stack, h.state.trans h'.state⟩

lemma tag (d : Word) (code : List AssemblyItem) (stack : List Value) (state : SvmState World) :
    (⟨.tag d :: code, stack, state⟩ : Config World).Equiv ⟨code, stack, state⟩ :=
  ⟨skipTags_cons (.tag d) code, rfl, rfl⟩

end Config.Equiv

/-- Where a computation that returns goes on: in front of which code, and with what stack. -/
abbrev Continuation (World : Type) :=
  Result Ending (SvmState World) (List AssemblyItem × List Value)

section

variable {env : Environment World} {layout : Layout} {items : List AssemblyItem}

variable {c d : Config World}

lemma execStep_equiv (h : c.Equiv d) :
    execStep env layout items c = execStep env layout items d := by
  rw [execStep, execStep, h.code, h.stack, h.state]

lemma runFor_equiv {c' : Config World} (h : c.Equiv d) {n : ℕ}
    (hrun : runFor (execStep env layout items) n c = .inl c') :
    ∃ d', runFor (execStep env layout items) n d = .inl d' ∧ c'.Equiv d' := by
  cases n with
  | zero =>
    cases hrun
    exact ⟨d, rfl, h⟩
  | succ n =>
    rw [runFor, execStep_equiv h] at hrun
    exact ⟨c', hrun, .refl c'⟩

lemma ends_equiv (h : c.Equiv d) {o : Outcome World} (hrun : Ends (execStep env layout items) c o) :
    Ends (execStep env layout items) d o := by
  obtain ⟨n, hn⟩ := hrun
  cases n with
  | zero => cases hn
  | succ n =>
    rw [runFor, execStep_equiv h] at hn
    exact ⟨n + 1, hn⟩

end

/-- The run from `c` does what the computation does; without fuel it makes at least `n` steps. -/
def Proceeds (env : Environment World) (layout : Layout) (items : List AssemblyItem) (n : ℕ)
    (c : Config World) : Continuation World → Prop
  | .ok target state => ∃ k d, runFor (execStep env layout items) k c = .inl d ∧
      d.Equiv ⟨target.1, target.2, state⟩
  | .halt (.halt reason) state =>
    ∃ stack, Ends (execStep env layout items) c (.halt reason stack state)
  | .halt (.fault f) _ => Ends (execStep env layout items) c (.fault f)
  | .timeout => ∃ k ≥ n, ∃ d, runFor (execStep env layout items) k c = .inl d

namespace Proceeds

variable {env : Environment World} {layout : Layout} {items code l : List AssemblyItem} {n : ℕ}
  {c d : Config World} {stack : List Value} {state : SvmState World} {r : Continuation World}

lemma ok (code : List AssemblyItem) (stack : List Value) (state : SvmState World) :
    Proceeds env layout items n ⟨code, stack, state⟩ (.ok (code, stack) state) :=
  ⟨0, _, rfl, .refl _⟩

lemma congr (h : c.Equiv d) (hd : Proceeds env layout items n d r) :
    Proceeds env layout items n c r := by
  match r with
  | .ok target state =>
    obtain ⟨k, d', hrun, hd'⟩ := hd
    obtain ⟨c', hc', heq⟩ := runFor_equiv h.symm hrun
    exact ⟨k, c', hc', heq.symm.trans hd'⟩
  | .halt (.halt reason) state =>
    obtain ⟨stack, hends⟩ := hd
    exact ⟨stack, ends_equiv h.symm hends⟩
  | .halt (.fault f) _ => exact ends_equiv h.symm hd
  | .timeout =>
    obtain ⟨k, hk, d', hrun⟩ := hd
    obtain ⟨c', hc', -⟩ := runFor_equiv h.symm hrun
    exact ⟨k, hk, c', hc'⟩

lemma of_runFor {k m : ℕ} (h : runFor (execStep env layout items) k c = .inl d)
    (hm : m ≤ n + k) (hd : Proceeds env layout items n d r) : Proceeds env layout items m c r := by
  match r with
  | .ok target state =>
    obtain ⟨k', d', hrun, hd'⟩ := hd
    exact ⟨k + k', d', by rw [runFor_add h, hrun], hd'⟩
  | .halt (.halt reason) state =>
    obtain ⟨stack, hends⟩ := hd
    exact ⟨stack, hends.of_runFor h⟩
  | .halt (.fault f) _ => exact Ends.of_runFor h hd
  | .timeout =>
    obtain ⟨k', hk', d', hrun⟩ := hd
    exact ⟨k + k', by omega, d', by rw [runFor_add h, hrun]⟩

lemma mono {m : ℕ} (hm : m ≤ n) (h : Proceeds env layout items n c r) :
    Proceeds env layout items m c r :=
  h.of_runFor (k := 0) rfl hm

lemma step (h : execStep env layout items c = .inl d)
    (hd : Proceeds env layout items n d r) : Proceeds env layout items (n + 1) c r :=
  of_runFor (k := 1) (runFor_succ_of_step h 0) le_rfl hd

lemma tag (t : Word) (h : Proceeds env layout items n ⟨code, stack, state⟩ r) :
    Proceeds env layout items n ⟨.tag t :: code, stack, state⟩ r :=
  congr (.tag t code stack state) h

lemma item {i : AssemblyItem} (hi : i.placedTag = none)
    (hexec : execItem env layout items i code stack state = .inl d)
    (hd : Proceeds env layout items n d r) :
    Proceeds env layout items n ⟨i :: code, stack, state⟩ r := by
  have hstep : execStep env layout items ⟨i :: code, stack, state⟩ = .inl d := by
    rw [execStep, skipTags_cons, hi]
    exact hexec
  exact mono (Nat.le_succ n) (step hstep hd)

lemma item_ends {i : AssemblyItem} {o : Outcome World} (hi : i.placedTag = none)
    (hexec : execItem env layout items i code stack state = .inr o) :
    Ends (execStep env layout items) ⟨i :: code, stack, state⟩ o := by
  have hstep : execStep env layout items ⟨i :: code, stack, state⟩ = .inr o := by
    rw [execStep, skipTags_cons, hi]
    exact hexec
  exact ⟨1, runFor_succ_of_end hstep 0⟩

lemma push (w : Word) (h : Proceeds env layout items n ⟨code, .word w :: stack, state⟩ r) :
    Proceeds env layout items n ⟨.push w :: code, stack, state⟩ r :=
  item rfl rfl h

end Proceeds

/-! ### Operations on words -/

/-- The operation of an instruction that is no jump and does not move the stack. -/
def performs : Instruction → Bool
  | .jump | .jumpi | .push _ | .dup _ | .swap _ => false
  | _ => true

/-- What an instruction does to numbers, with so many items still ahead. -/
def perform (env : Environment World) (layout : Layout) (ahead : ℕ) (i : Instruction)
    (args : List Word) (state : SvmState World) : Result Ending (SvmState World) (List Word) :=
  match i with
  | .pc => observe (layout.pc ahead)
  | .gas => observe (layout.gas ahead state.events)
  | i =>
    match execInstruction env i args state with
    | .ok values state => .ok values state
    | .halt reason state => .halt (.halt reason) state
    | .timeout => .halt (.fault .undefinedItem) state
where
  observe (value : Option Word) : Result Ending (SvmState World) (List Word) :=
    value.elim (.halt (.fault .observed) state) fun w => .ok [w] state

variable {i : Instruction} {args : List Word}

lemma perform_eq {env : Environment World} {layout : Layout} {ahead : ℕ} {state : SvmState World}
    (hpc : i ≠ .pc) (hgas : i ≠ .gas) :
    perform env layout ahead i args state =
      match execInstruction env i args state with
      | .ok values state => .ok values state
      | .halt reason state => .halt (.halt reason) state
      | .timeout => .halt (.fault .undefinedItem) state := by
  cases i with
  | pc => exact absurd rfl hpc
  | gas => exact absurd rfl hgas
  | _ => rfl

@[simp]
lemma words_map_word (ws : List Word) : Value.words (ws.map .word) = some ws := by
  induction ws with
  | nil => rfl
  | cons w ws ih => simp [Value.words, ih]

section

variable {env : Environment World} {layout : Layout} {items code : List AssemblyItem} {n : ℕ}
  {stack : List Value} {state : SvmState World}

lemma execOperation_words (hargs : args.length = (instructionInfo i).args) :
    execOperation env i code (args.map .word ++ stack) state =
      match execInstruction env i args state with
      | .ok values state => .inl ⟨code, values.map .word ++ stack, state⟩
      | .halt reason state => .inr (.halt reason stack state)
      | .timeout => .inr (.fault .undefinedItem) := by
  have hlength : (args.map Value.word).length = (instructionInfo i).args := by
    rw [length_map, hargs]
  rewrite [execOperation, take_left' hlength, drop_left' hlength, hlength,
    if_neg (Nat.lt_irrefl _), words_map_word]
  rfl

lemma execItem_words (hi : performs i) (hpc : i ≠ .pc) (hgas : i ≠ .gas)
    (hargs : args.length = (instructionInfo i).args) :
    execItem env layout items (.operation i) code (args.map .word ++ stack) state =
      execOperation env i code (args.map .word ++ stack) state := by
  cases i with
  | pc => exact absurd rfl hpc
  | gas => exact absurd rfl hgas
  | pop =>
    obtain ⟨w, rfl⟩ := length_eq_one_iff.mp hargs
    rfl
  | and =>
    obtain ⟨a, b, rfl⟩ := length_eq_two.mp hargs
    rfl
  | jump | jumpi | push | dup | swap => cases hi
  | _ => rfl

lemma Proceeds.observe (value : Option Word)
    (hexec : execItem env layout items (.operation i) code stack state =
      execObserve value code stack state) :
    Proceeds env layout items n ⟨.operation i :: code, stack, state⟩
      ((Sof.perform.observe state value).map fun values => (code, values.map .word ++ stack)) := by
  have hplaced : (AssemblyItem.operation i).placedTag = none := rfl
  cases value with
  | none => exact item_ends hplaced hexec
  | some w => exact item hplaced hexec (.ok _ _ _)

lemma Proceeds.perform (hi : performs i) (hargs : args.length = (instructionInfo i).args) :
    Proceeds env layout items n ⟨.operation i :: code, args.map .word ++ stack, state⟩
      ((Sof.perform env layout (code.length + 1) i args state).map fun values =>
        (code, values.map .word ++ stack)) := by
  by_cases hpc : i = .pc
  · subst hpc
    obtain rfl := length_eq_zero_iff.mp hargs
    exact observe _ rfl
  by_cases hgas : i = .gas
  · subst hgas
    obtain rfl := length_eq_zero_iff.mp hargs
    exact observe _ rfl
  have hexec : execItem env layout items (.operation i) code (args.map .word ++ stack) state = _ :=
    (execItem_words hi hpc hgas hargs).trans (execOperation_words hargs)
  rw [perform_eq hpc hgas]
  cases hrun : execInstruction env i args state with
  | ok values state' =>
    rw [hrun] at hexec
    exact item rfl hexec (.ok _ _ _)
  | halt reason state' =>
    rw [hrun] at hexec
    exact ⟨_, item_ends rfl hexec⟩
  | timeout =>
    rw [hrun] at hexec
    exact item_ends rfl hexec

lemma Proceeds.operation (i : Instruction) (args : List Word) {values : List Word}
    {state' : SvmState World} {r : Continuation World} (hi : performs i)
    (hargs : args.length = (instructionInfo i).args)
    (hperform : Sof.perform env layout (code.length + 1) i args state = .ok values state')
    (h : Proceeds env layout items n ⟨code, values.map .word ++ stack, state'⟩ r) :
    Proceeds env layout items n ⟨.operation i :: code, args.map .word ++ stack, state⟩ r := by
  have hrun : Proceeds env layout items n ⟨.operation i :: code, args.map .word ++ stack, state⟩ _ :=
    .perform hi hargs
  rw [hperform] at hrun
  obtain ⟨k, d, hk, hd⟩ := hrun
  exact of_runFor hk (Nat.le_add_right n k) (congr hd h)

end

section

variable {env : Environment World} {layout : Layout} {items code l : List AssemblyItem} {n : ℕ}
  {stack : List Value} {state : SvmState World} {r : Continuation World} {t : Word}

lemma codeAt_suffix (htags : TagsPlacedOnce items) (hsuffix : .tag t :: l <:+ items) :
    codeAt items t.toNat = some (.tag t :: l) := by
  obtain ⟨before, rfl⟩ := hsuffix
  have hplace : (before ++ .tag t :: l)[before.length]? = some (.tag t) := by simp
  rw [codeAt_eq htags hplace, drop_left]

lemma jumpTo_suffix (htags : TagsPlacedOnce items) (hsuffix : .tag t :: l <:+ items) :
    jumpTo layout items (.tag (splitForeignPushTag t).1 (splitForeignPushTag t).2) stack
      state = .inl ⟨.tag t :: l, stack, state⟩ := by
  have hlt : t.toNat < 2 ^ 64 := htags.lt t (hsuffix.subset mem_cons_self)
  rw [splitForeignPushTag_of_lt hlt, jumpTo, jumpTag, if_pos rfl, Option.bind_some,
    codeAt_suffix htags hsuffix]

lemma Proceeds.jump (htags : TagsPlacedOnce items) (hsuffix : .tag t :: l <:+ items)
    (h : Proceeds env layout items n ⟨l, stack, state⟩ r) :
    Proceeds env layout items (n + 1)
      ⟨.pushTag t :: .operation .jump :: code, stack, state⟩ r := by
  refine item rfl rfl (step (d := ⟨.tag t :: l, stack, state⟩) ?_ (tag t h))
  exact jumpTo_suffix htags hsuffix

lemma Proceeds.jumpi (htags : TagsPlacedOnce items) (hsuffix : .tag t :: l <:+ items)
    {condition : Word}
    (hjump : condition ≠ 0 → Proceeds env layout items n ⟨l, stack, state⟩ r)
    (hnext : condition = 0 → Proceeds env layout items n ⟨code, stack, state⟩ r) :
    Proceeds env layout items n
      ⟨.pushTag t :: .operation .jumpi :: code, .word condition :: stack, state⟩ r := by
  refine item rfl rfl ?_
  by_cases hzero : condition = 0
  · exact item rfl (if_pos hzero) (hnext hzero)
  · refine item (d := ⟨.tag t :: l, stack, state⟩) rfl ?_ (tag t (hjump hzero))
    exact (if_neg hzero).trans (jumpTo_suffix htags hsuffix)

end

end Sof
