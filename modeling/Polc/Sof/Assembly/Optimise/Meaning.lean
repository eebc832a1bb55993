import Polc.Sof.Assembly.Optimise.Termination

/-!
# The rounds of the optimiser keep the meaning

Runs from the start of the code, on an empty stack. The jumpdest remover takes away tags that no
run can jump to, since every tag on the stack was pushed by an item.
-/

namespace Sof

open AssemblyItem Semantics List PeepholeOptimiser
open BlockDeduplicator (TagsPlacedOnce)

/-- The end of a run without the stack. -/
def Outcome.effect {World : Type} : Outcome World → (Halt × SvmState World) ⊕ Fault
  | halt reason _ state => .inl (reason, state)
  | fault f => .inr f

/-- The code ends so when it is run from the start on an empty stack. -/
def EndsWith {World : Type} (env : Environment World) (layout : Layout)
    (items : List AssemblyItem) (state : SvmState World)
    (e : (Halt × SvmState World) ⊕ Fault) : Prop :=
  ∃ o, Ends (execStep env layout items) ⟨items, [], state⟩ o ∧ o.effect = e

/-- Runs end with the same effects, unless the first one faults. Both pieces of code are given the
same values for what neither `Push` nor `PushTag` pushes. -/
def KeepsEffects (items items' : List AssemblyItem) : Prop :=
  ∀ (World : Type) (env : Environment World) (layout layout' : Layout) (state : SvmState World),
    layout.pushed = layout'.pushed →
      (∀ f, ¬ EndsWith env layout.symbolic items state (.inr f)) →
        ∀ e, EndsWith env layout items state e ↔ EndsWith env layout' items' state e

section

variable {World : Type} {env : Environment World} {layout layout' : Layout}
  {state : SvmState World} {items items' items'' : List AssemblyItem}

lemma endsWith_symbolic_iff (h : ∀ f, ¬ EndsWith env layout.symbolic items state (.inr f))
    (e : (Halt × SvmState World) ⊕ Fault) :
    EndsWith env layout.symbolic items state e ↔ EndsWith env layout items state e := by
  have hgood : ∀ f, ¬ Ends (execStep env layout.symbolic items) ⟨items, [], state⟩ (.fault f) :=
    fun f hf => h f ⟨_, hf, rfl⟩
  simp only [EndsWith, ends_symbolic_iff hgood]

lemma KeepsEffects.refl (items : List AssemblyItem) : KeepsEffects items items := by
  intro World env layout layout' state hpushed hgood e
  rw [← endsWith_symbolic_iff hgood, symbolic_congr hpushed, endsWith_symbolic_iff]
  rwa [← symbolic_congr hpushed]

lemma keepsEffects_of_symbolic (h : ∀ (World : Type) (env : Environment World) (layout : Layout)
    (state : SvmState World), (∀ f, ¬ EndsWith env layout.symbolic items state (.inr f)) →
      ∀ e, EndsWith env layout.symbolic items state e ↔
        EndsWith env layout.symbolic items' state e) : KeepsEffects items items' := by
  intro World env layout layout' state hpushed hgood e
  have hiff := h World env layout state hgood
  rw [← endsWith_symbolic_iff hgood, hiff, symbolic_congr hpushed, endsWith_symbolic_iff]
  rw [← symbolic_congr hpushed]
  exact fun f hf => hgood f ((hiff _).mpr hf)

lemma KeepsEffects.trans (h : KeepsEffects items items') (h' : KeepsEffects items' items'') :
    KeepsEffects items items'' := by
  refine keepsEffects_of_symbolic fun World env layout state hgood e => ?_
  have hiff := h World env layout.symbolic layout.symbolic state rfl hgood
  exact (hiff e).trans (h' World env layout.symbolic layout.symbolic state rfl
    (fun f hf => hgood f ((hiff _).mpr hf)) e)

/-! ### The peephole optimiser and the deduplicator -/

lemma keepsEffects_of_rewrites (h : Rewrites items items') : KeepsEffects items items' := by
  intro World env layout layout' state hpushed hgood e
  have hends := sameRuns_of_rewrites h h (suffix_refl items) [] state env layout layout' hpushed
    fun f hf => hgood f ⟨_, hf, rfl⟩
  simp only [EndsWith, hends]

lemma effect_eq_of_rel {E : Nat → Nat → Prop} {o o' : Outcome World} (h : OutcomeRel E o o') :
    o'.effect = o.effect := by
  cases h <;> rfl

open BlockDeduplicator in
lemma keepsEffects_of_deduplicate (hrel : Forall₂ (Rel (Interchangeable items)) items items') :
    KeepsEffects items items' := by
  have heqv := SameBlock.equivalence (interchangeable_equivalence items)
  have hjump : SameJumps (Interchangeable items) (SameAhead (Interchangeable items)) items
      items' := fun t t' h => sameAhead_of_sameBlock
    (heqv.trans (isSimulation_interchangeable t t' h) (sameBlock_blockAt hrel t'))
  refine keepsEffects_of_symbolic fun World env layout state hgood e => ?_
  have hstart : ConfigRel (Interchangeable items) (SameAhead (Interchangeable items))
      (⟨items, [], state⟩ : Config World) ⟨items', [], state⟩ :=
    ⟨forall₂_blockItems hrel, .nil, rfl⟩
  obtain ⟨hends, hends'⟩ := behaveAlike (interchangeable_equivalence items).refl hjump
    hstart env layout.symbolic fun hf => hgood .observed ⟨_, hf, rfl⟩
  constructor
  · rintro ⟨o, ho, rfl⟩
    obtain ⟨o', ho', h⟩ := hends o ho
    exact ⟨o', ho', effect_eq_of_rel h⟩
  · rintro ⟨o', ho', rfl⟩
    obtain ⟨o, ho, h⟩ := hends' o' ho'
    exact ⟨o, ho, (effect_eq_of_rel h).symm⟩

end

/-! ### The jumpdest remover -/

namespace JumpdestRemover

/-- The items without the tags that are not among the given ones. -/
def kept (references : Finset Nat) (items : List AssemblyItem) : List AssemblyItem :=
  items.filter fun i => !isUnreferenced references i

/-- All tags of the code itself that are on the stack are among the given ones. -/
def TagsIn (references : Finset Nat) (stack : List Value) : Prop :=
  ∀ t, .tag noSub t ∈ stack → t ∈ references

section

variable {World : Type} {env : Environment World} {layout : Layout} {state : SvmState World}
  {references : Finset Nat} {items code rest : List AssemblyItem} {stack : List Value}

lemma kept_cons_of_not_tag {i : AssemblyItem} (hi : i.placedTag = none) :
    kept references (i :: rest) = i :: kept references rest := by
  refine filter_cons_of_pos ?_
  cases i with
  | tag d => cases hi
  | _ => rfl

lemma skipTags_kept (code : List AssemblyItem) :
    skipTags (kept references code) = kept references (skipTags code) := by
  induction code with
  | nil => rfl
  | cons i code ih =>
    cases hi : i.placedTag with
    | none =>
      have hnot : ¬ i.placedTag.isSome = true := by simp [hi]
      rw [kept_cons_of_not_tag hi, skipTags_cons, skipTags_cons, if_neg hnot, if_neg hnot,
        kept_cons_of_not_tag hi]
    | some d =>
      have htag : i.placedTag.isSome = true := by simp [hi]
      rw [skipTags_cons, if_pos htag, kept, filter_cons]
      split_ifs
      · rw [skipTags_cons, if_pos htag]
        exact ih
      · exact ih

lemma codeAt_kept {t : Nat} (ht : t ∈ references) :
    codeAt (kept references items) t = (codeAt items t).map (kept references) := by
  have hkeep : ∀ i, placesTag t i = true → (!isUnreferenced references i) = true := by
    intro i hi
    cases i with
    | tag d => simp [isUnreferenced, of_decide_eq_true hi, ht]
    | _ => rfl
  have hcount : (kept references items).countP (placesTag t) = items.countP (placesTag t) := by
    rw [kept, countP_filter]
    refine countP_congr fun i _ => ?_
    rw [Bool.and_eq_true, and_iff_left_of_imp (hkeep i)]
  have hdrop : (kept references items).dropWhile (!placesTag t ·) =
      kept references (items.dropWhile (!placesTag t ·)) := by
    rw [kept, dropWhile_filter]
    congr 2
    funext i
    cases hi : placesTag t i with
    | false => simp
    | true => simpa using hkeep i hi
  rw [codeAt, codeAt, hcount, hdrop]
  split_ifs <;> rfl

lemma eq_of_maskTag {a b v : Value} (h : Value.maskTag a b = some v) : v = a ∨ v = b := by
  cases a with
  | word w =>
    cases b with
    | word => cases h
    | tag => exact .inr (Option.some.inj (Option.ite_none_right_eq_some.mp h).2).symm
  | tag =>
    cases b with
    | word => exact .inl (Option.some.inj (Option.ite_none_right_eq_some.mp h).2).symm
    | tag => cases h

lemma mem_execOperation {i : Instruction} {c : Config World}
    (h : execOperation env i rest stack state = .inl c) {v : Value} (hv : v ∈ c.stack) :
    v ∈ stack ∨ ∃ w, v = .word w := by
  rw [execOperation] at h
  split_ifs at h
  cases hwords : Value.words (stack.take (instructionInfo i).args) with
  | none =>
    rw [hwords] at h
    cases h
  | some args =>
    simp only [hwords] at h
    cases hexec : execInstruction env i args state with
    | ok values state' =>
      rw [hexec] at h
      cases h
      rcases mem_append.mp hv with hv | hv
      · obtain ⟨w, -, rfl⟩ := mem_map.mp hv
        exact .inr ⟨w, rfl⟩
      · exact .inl (mem_of_mem_drop hv)
    | halt reason state' =>
      rw [hexec] at h
      cases h
    | timeout =>
      rw [hexec] at h
      cases h

/-- A plain item leaves numbers and what was on the stack, and a tag only if it pushes it. -/
lemma mem_execItem {i : AssemblyItem} (hi : isPlain i) {c : Config World}
    (h : execItem env layout.symbolic [] i [] stack state = .inl c) {v : Value}
    (hv : v ∈ c.stack) :
    v ∈ stack ∨ (∃ w, v = .word w) ∨
      ∃ d, i = .pushTag d ∧ v = .tag (splitForeignPushTag d).1 (splitForeignPushTag d).2 := by
  have hword {w : Word} (hv : v ∈ .word w :: stack) : v ∈ stack ∨ ∃ w, v = .word w :=
    (mem_cons.mp hv).symm.imp_right fun h => ⟨w, h⟩
  cases i with
  | operation i =>
    rw [← or_assoc]
    refine .inl ?_
    cases i with
    | jump | jumpi => cases hi
    | push n => cases h
    | pc | gas => cases h
    | dup n =>
      simp only [execItem] at h
      cases hn : stack[n.val]? with
      | none =>
        rw [hn] at h
        cases h
      | some u =>
        rw [hn] at h
        cases h
        rcases mem_cons.mp hv with rfl | hv
        · exact .inl (mem_of_getElem? hn)
        · exact .inl hv
    | swap n =>
      cases stack with
      | nil => cases h
      | cons top stack =>
        simp only [execItem] at h
        cases hn : stack[n.val]? with
        | none =>
          rw [hn] at h
          cases h
        | some u =>
          rw [hn] at h
          cases h
          rcases mem_cons.mp hv with rfl | hv
          · exact .inl (mem_cons_of_mem _ (mem_of_getElem? hn))
          · rcases mem_or_eq_of_mem_set hv with hv | rfl
            · exact .inl (mem_cons_of_mem _ hv)
            · exact .inl mem_cons_self
    | pop =>
      cases stack with
      | nil => cases h
      | cons top stack =>
        cases h
        exact .inl (mem_cons_of_mem _ hv)
    | and =>
      rcases stack with _ | ⟨a, _ | ⟨b, stack⟩⟩
      · cases h
      · cases h
      · simp only [execItem] at h
        cases hmask : Value.maskTag a b with
        | none =>
          rw [hmask] at h
          exact mem_execOperation h hv
        | some u =>
          rw [hmask] at h
          cases h
          rcases mem_cons.mp hv with rfl | hv
          · rcases eq_of_maskTag hmask with rfl | rfl <;> exact .inl (by simp)
          · exact .inl (mem_cons_of_mem _ (mem_cons_of_mem _ hv))
    | _ =>
      simp only [execItem] at h
      exact mem_execOperation h hv
  | tag d => cases hi
  | undefinedItem d => cases h
  | pushTag d =>
    cases h
    exact (mem_cons.mp hv).symm.imp_right fun h => .inr ⟨d, rfl, h⟩
  | _ =>
    cases h
    exact (hword hv).imp_right .inl

/-- The second code is the first one without tags that the first one never pushes. -/
structure Trimmed (references : Finset Nat) (items : List AssemblyItem) (c c' : Config World) :
    Prop where
  code : c'.code = kept references c.code
  stack : c'.stack = c.stack
  state : c'.state = c.state
  tags : TagsIn references c.stack
  subset : c.code ⊆ items

/-- Every tag that the items push is among the given ones. -/
def PushedIn (references : Finset Nat) (items : List AssemblyItem) : Prop :=
  ∀ d, .pushTag d ∈ items → (splitForeignPushTag d).1 = noSub →
    (splitForeignPushTag d).2 ∈ references

lemma TagsIn.execItem (hpushed : PushedIn references items) (hstack : TagsIn references stack)
    {i : AssemblyItem} (hmem : i ∈ items) (hi : isPlain i) {c : Config World}
    (h : execItem env layout.symbolic [] i [] stack state = .inl c) :
    TagsIn references c.stack := by
  intro t ht
  rcases mem_execItem hi h ht with ht | ⟨w, hw⟩ | ⟨d, rfl, hd⟩
  · exact hstack t ht
  · cases hw
  · obtain ⟨hsub, rfl⟩ := Value.tag.inj hd
    exact hpushed d hmem hsub.symm

lemma jumpTo_kept {v : Value} (hstack : TagsIn references (v :: stack)) :
    Sum.LiftRel (Trimmed references items) Eq
      (jumpTo layout.symbolic items v stack state : Config World ⊕ Outcome World)
      (jumpTo layout.symbolic (kept references items) v stack state) := by
  cases v with
  | word w => exact .inr rfl
  | tag s t =>
    rw [jumpTo, jumpTo, jumpTag]
    split_ifs with hs
    · subst hs
      rw [Option.bind_some, Option.bind_some, codeAt_kept (hstack t mem_cons_self)]
      cases hcode : codeAt items t with
      | none => exact .inr rfl
      | some code =>
        rw [codeAt] at hcode
        obtain rfl := Option.some.inj (Option.ite_none_right_eq_some.mp hcode).2
        exact .inl ⟨rfl, rfl, rfl, fun t ht => hstack t (mem_cons_of_mem _ ht),
          (dropWhile_sublist _).subset⟩
    · exact .inr rfl

lemma execStep_kept (hpushed : PushedIn references items) {c c' : Config World}
    (h : Trimmed references items c c') :
    Sum.LiftRel (Trimmed references items) Eq (execStep env layout.symbolic items c)
      (execStep env layout.symbolic (kept references items) c') := by
  obtain ⟨code, stack', state'⟩ := c
  obtain ⟨code', stack, state⟩ := c'
  obtain ⟨hcode', hstack', hstate', hstack, hsubset⟩ := h
  dsimp only at hcode' hstack' hstate' hstack hsubset
  subst hcode' hstack' hstate'
  rw [execStep, execStep, skipTags_kept]
  cases hskip : skipTags code with
  | nil => exact .inr rfl
  | cons i rest =>
    have htag := placedTag_of_skipTags hskip
    have hcode : i :: rest ⊆ items :=
      List.Subset.trans (hskip ▸ (dropWhile_sublist _).subset) hsubset
    have hrest : rest ⊆ items := List.Subset.trans (subset_cons_self i rest) hcode
    rw [kept_cons_of_not_tag htag]
    have hplain (hi : isPlain i = true) :
        Sum.LiftRel (Trimmed references items) Eq
          (execItem env layout.symbolic items i rest stack state)
          (execItem env layout.symbolic (kept references items) i (kept references rest) stack
            state) := by
      rw [execItem_plain hi, @execItem_plain World env layout (kept references items) _ _ _ _ hi]
      cases hexec : execItem env layout.symbolic [] i [] stack state with
      | inl c =>
        have htags := hstack.execItem hpushed (hcode mem_cons_self) hi hexec
        exact .inl ⟨rfl, rfl, rfl, htags, hrest⟩
      | inr o => exact .inr rfl
    cases i with
    | tag d => cases htag
    | operation i =>
      cases i with
      | jump =>
        cases stack with
        | nil => exact .inr rfl
        | cons v stack => exact jumpTo_kept hstack
      | jumpi =>
        rcases stack with _ | ⟨v, _ | ⟨_ | _, stack⟩⟩
        · exact .inr rfl
        · exact .inr rfl
        · rename_i condition
          have hstack' : TagsIn references (v :: stack) := fun t ht =>
            hstack t (mem_cons.mpr ((mem_cons.mp ht).imp_right (mem_cons_of_mem _)))
          simp only [Sof.execItem]
          split_ifs
          · exact .inl ⟨rfl, rfl, rfl, fun t ht => hstack' t (mem_cons_of_mem _ ht), hrest⟩
          · exact jumpTo_kept hstack'
        · exact .inr rfl
      | _ => exact hplain rfl
    | _ => exact hplain rfl

lemma keepsEffects_kept (hpushed : PushedIn references items) :
    KeepsEffects items (kept references items) := by
  refine keepsEffects_of_symbolic fun World env layout state hgood e => ?_
  have hsim : ∀ c c' : Config World, Trimmed references items c c' →
      Semantics.Advances (execStep env layout.symbolic items)
        (execStep env layout.symbolic (kept references items)) (Trimmed references items) Eq
        (fun _ => False) (fun _ => 0) c c' := fun c c' h => .of_liftRel (execStep_kept hpushed h)
  have hstart : Trimmed references items (⟨items, [], state⟩ : Config World)
      ⟨kept references items, [], state⟩ := ⟨rfl, rfl, rfl, nofun, List.Subset.refl _⟩
  constructor
  · rintro ⟨o, ho, rfl⟩
    obtain ⟨_, ho', rfl⟩ := ends_of_advances hsim hstart (fun _ _ => not_false) ho
    exact ⟨o, ho', rfl⟩
  · rintro ⟨o', ho', rfl⟩
    obtain ⟨_, ho, rfl⟩ := ends_of_advances_symm hsim hstart (fun _ _ => not_false) ho'
    exact ⟨_, ho, rfl⟩

end

lemma pushedIn_referencedTags (items : List AssemblyItem) (references : Finset Nat) :
    PushedIn (referencedTags items noSub ∪ references) items := by
  intro d hd hsub
  refine Finset.mem_union_left _ (List.mem_toFinset.mpr (mem_filterMap.mpr ⟨_, hd, ?_⟩))
  exact if_pos hsub

end JumpdestRemover

/-! ### Rounds -/

namespace Assembly

variable {steps : OptimiserSteps} {settings : OptimiserSettings} {s : OptimiserState} {fuel : Nat}
  {items items' : List AssemblyItem}

lemma keepsEffects_stepJumpdestRemover {r : List AssemblyItem × Nat}
    (h : stepJumpdestRemover settings s = .ok r) : KeepsEffects s.items r.1 := by
  rw [stepJumpdestRemover] at h
  split_ifs at h
  · rw [JumpdestRemover.optimise] at h
    split_ifs at h
    cases h
    exact JumpdestRemover.keepsEffects_kept (JumpdestRemover.pushedIn_referencedTags _ _)
  · cases h
    exact .refl _

lemma keepsEffects_runPeephole {count count' : Nat}
    (h : runPeephole fuel items count = .ok (items', count')) : KeepsEffects items items' := by
  induction fuel generalizing items count with
  | zero => cases h
  | succ fuel ih =>
    rw [runPeephole] at h
    split at h
    · cases h
    · rename_i hoptimise
      cases h
      exact keepsEffects_of_rewrites (rewrites_of_improves (.optimise false hoptimise))
    · rename_i next hoptimise
      split_ifs at h
      exact (keepsEffects_of_rewrites (rewrites_of_improves (.optimise true hoptimise))).trans (ih h)

lemma keepsEffects_stepPeephole {r r' : List AssemblyItem × Nat}
    (h : stepPeephole fuel settings r = .ok r') : KeepsEffects r.1 r'.1 := by
  rw [stepPeephole] at h
  split_ifs at h
  · exact keepsEffects_runPeephole h
  · cases h
    exact .refl _

lemma keepsEffects_runDeduplicate {r : OptimiserState × Bool}
    (h : runDeduplicate fuel s = .ok r) (hitems : TagsPlacedOnce s.items) :
    KeepsEffects s.items r.1.items := by
  rw [runDeduplicate] at h
  cases hr : BlockDeduplicator.deduplicate fuel s.items with
  | none =>
    rw [hr] at h
    cases h
  | some t =>
    have hkeeps : KeepsEffects s.items t.items := by
      rw [BlockDeduplicator.deduplicate] at hr
      split_ifs at hr with habort
      · cases hr
        exact .refl _
      · exact keepsEffects_of_deduplicate
          (deduplicateLoop_places hitems (BlockDeduplicator.unified_refl habort) hr).1.rel
    rw [hr] at h
    simp only at h
    split_ifs at h
    · cases hnotes : t.replacedTags.toList.foldlM noteReplacement { s with items := t.items } with
      | error e =>
        rw [hnotes] at h
        cases h
      | ok u =>
        rw [hnotes] at h
        cases h
        rw [items_noteReplacements hnotes]
        exact hkeeps
    · cases h
      exact hkeeps

lemma keepsEffects_round (hcse : settings.runCSE = false) {r : OptimiserState × Nat}
    (h : round steps fuel settings s = .ok r) (hitems : TagsPlacedOnce s.items) :
    TagsPlacedOnce r.1.items ∧ KeepsEffects s.items r.1.items := by
  rw [round_eq] at h
  obtain ⟨t, ht, h⟩ := bind_eq_ok h
  obtain ⟨u, hu, h⟩ := bind_eq_ok h
  cases h
  have hplaced := (advances_beforeDeduplicate ht hitems).placed
  rw [beforeDeduplicate_eq] at ht
  obtain ⟨v, hv, ht⟩ := bind_eq_ok ht
  obtain ⟨w, hw, ht⟩ := bind_eq_ok ht
  cases ht
  have hkeeps := (keepsEffects_stepJumpdestRemover hv).trans (keepsEffects_stepPeephole hw)
  rw [stepCSE, hcse]
  refine ⟨(advances_stepDeduplicate hu hplaced).placed, hkeeps.trans ?_⟩
  rw [stepDeduplicate] at hu
  split_ifs at hu
  · exact keepsEffects_runDeduplicate hu hplaced
  · cases hu
    exact .refl _

end Assembly

end Sof
