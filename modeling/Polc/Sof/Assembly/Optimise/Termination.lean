import Polc.Semantics.Fallible
import Polc.Sof.Assembly.Optimise
import Polc.Sof.BlockDeduplicator.Meaning
import Polc.Sof.PeepholeOptimiser.Termination

/-!
# The rounds of the optimiser come to an end

Tags are removed and chunks are replaced only if the code becomes shorter, and passes of the
peephole optimiser make it cheaper. The deduplicator changes only which tags are pushed, to tags
that are placed earlier.
-/

namespace Sof

open AssemblyItem BlockDeduplicator PeepholeOptimiser List Bool

namespace Assembly

lemma nextChunk_append (msizeImportant : Bool) (items : List AssemblyItem) :
    (nextChunk msizeImportant items).1 ++ (nextChunk msizeImportant items).2 = items := by
  induction items with
  | nil => rfl
  | cons i items ih =>
    rw [nextChunk]
    split_ifs
    · rfl
    · exact congrArg (i :: ·) ih

lemma nextChunk_rest_lt (msizeImportant : Bool) (i : AssemblyItem) (items : List AssemblyItem) :
    (nextChunk msizeImportant (i :: items)).2.length < (i :: items).length := by
  have hle : (nextChunk msizeImportant items).2.length ≤ items.length := by
    conv_rhs => rw [← nextChunk_append msizeImportant items, length_append]
    exact Nat.le_add_left _ _
  rw [nextChunk]
  split_ifs
  · exact Nat.lt_succ_self _
  · exact Nat.lt_succ_of_le hle

lemma noteReplacement_eq_ok {s s' : OptimiserState} {p : Word × Word}
    (h : noteReplacement s p = .ok s') :
    s.tagReplacements[p.1]? = none ∧ s' = { s with
      tagReplacements := s.tagReplacements.insert p.1 p.2
      tagsReferencedFromOutside :=
        if p.1.toNat ∈ s.tagsReferencedFromOutside then
          insert p.2.toNat (s.tagsReferencedFromOutside.erase p.1.toNat)
        else s.tagsReferencedFromOutside } := by
  rw [noteReplacement] at h
  by_cases hsize : 2 ^ 64 ≤ p.1.toNat ∨ 2 ^ 64 ≤ p.2.toNat
  · rw [if_pos hsize] at h
    cases h
  rw [if_neg hsize] at h
  by_cases hknown : s.tagReplacements.contains p.1 = true
  · rw [if_pos hknown] at h
    cases h
  · rw [if_neg hknown] at h
    cases h
    refine ⟨?_, rfl⟩
    rw [Std.TreeMap.contains_eq_isSome_getElem?, not_eq_true,
      Option.isSome_eq_false_iff, Option.isNone_iff_eq_none] at hknown
    exact hknown

end Assembly

variable {items items' : List AssemblyItem}

/-- No tags are placed that were not placed before. -/
def PlacesNoMore (items items' : List AssemblyItem) : Prop :=
  (items'.filterMap placedTag).Sublist (items.filterMap placedTag)

lemma PlacesNoMore.refl (items : List AssemblyItem) : PlacesNoMore items items :=
  List.Sublist.refl _

variable {items'' : List AssemblyItem}

lemma PlacesNoMore.trans (h : PlacesNoMore items items') (h' : PlacesNoMore items' items'') :
    PlacesNoMore items items'' :=
  List.Sublist.trans h' h

lemma PlacesNoMore.append {l l' : List AssemblyItem} (h : PlacesNoMore items items')
    (h' : PlacesNoMore l l') : PlacesNoMore (items ++ l) (items' ++ l') := by
  rw [PlacesNoMore, filterMap_append, filterMap_append]
  exact List.Sublist.append h h'

lemma PlacesNoMore.tagsPlacedOnce (h : PlacesNoMore items items') (hitems : TagsPlacedOnce items) :
    TagsPlacedOnce items' := by
  refine ⟨hitems.nodup.sublist h, fun d hd => hitems.lt d ?_⟩
  have hmem : d ∈ items'.filterMap placedTag :=
    mem_filterMap.mpr ⟨_, hd, placedTag_eq_some.mpr rfl⟩
  obtain ⟨i, hi, hplaced⟩ := mem_filterMap.mp (h.subset hmem)
  exact placedTag_eq_some.mp hplaced ▸ hi

lemma filterMap_placedTag_eq_nil {w : List AssemblyItem} (h : ∀ i ∈ w, i.placedTag = none) :
    w.filterMap placedTag = [] := filterMap_eq_nil_iff.mpr h

lemma placesNoMore_rewrites (h : Rewrites items items') : PlacesNoMore items items' := by
  suffices heq : items'.filterMap placedTag = items.filterMap placedTag by
    rw [PlacesNoMore, heq]
  induction h with
  | nil => rfl
  | keep i _ ih => rw [filterMap_cons, filterMap_cons, ih]
  | window w out hw _ ih =>
    rw [filterMap_append, filterMap_append, ih,
      filterMap_placedTag_eq_nil (placedTag_of_all hw.plain),
      filterMap_placedTag_eq_nil (placedTag_of_all hw.plain_out)]
  | isZero d _ ih => simpa [filterMap_cons, placedTag] using ih
  | jump d _ ih => simpa [filterMap_cons, placedTag] using ih
  | jumpi d _ ih => simpa [filterMap_cons, placedTag] using ih
  | unreachable i _ w hw _ ih =>
    rw [filterMap_cons, filterMap_cons, filterMap_append,
      filterMap_placedTag_eq_nil hw, ih, nil_append]

/-- Where the pushed tags are placed. -/
def places (items : List AssemblyItem) : ℕ := (items.map (rank items)).sum

/-- What every accepted change makes smaller. -/
def progress (items : List AssemblyItem) : (ℕ ×ₗ ℕ ×ₗ ℕ ×ₗ ℕ) ×ₗ ℕ :=
  toLex (cost items, places items)

lemma progress_lt_of_cost (h : cost items' < cost items) : progress items' < progress items :=
  Prod.Lex.toLex_lt_toLex.mpr (.inl h)

/-- A step with `n` changes, which keeps tags placed once. -/
structure Advances (items items' : List AssemblyItem) (n : ℕ) : Prop where
  placed : TagsPlacedOnce items'
  same_or_lt : n = 0 ∧ items' = items ∨ 0 < n ∧ progress items' < progress items

lemma Advances.trans {m n : ℕ} (h : Advances items items' m) (h' : Advances items' items'' n) :
    Advances items items'' (m + n) := by
  refine ⟨h'.placed, ?_⟩
  rcases h.same_or_lt with ⟨rfl, rfl⟩ | ⟨hm, hlt⟩
  · rw [Nat.zero_add]
    exact h'.same_or_lt
  · refine .inr ⟨Nat.add_pos_left hm n, ?_⟩
    rcases h'.same_or_lt with ⟨-, rfl⟩ | ⟨-, hlt'⟩
    · exact hlt
    · exact hlt'.trans hlt

lemma advances_zero (h : TagsPlacedOnce items) : Advances items items 0 := ⟨h, .inl ⟨rfl, rfl⟩⟩

lemma advances_of_cost (h : TagsPlacedOnce items) (hplaces : PlacesNoMore items items') {n : ℕ}
    (hn : 0 < n) (hlt : cost items' < cost items) : Advances items items' n :=
  ⟨hplaces.tagsPlacedOnce h, .inr ⟨hn, progress_lt_of_cost hlt⟩⟩

lemma advances_jumpdestRemover {references : Finset Nat} {changed : Bool}
    (h : JumpdestRemover.optimise items references = some (items', changed))
    (hitems : TagsPlacedOnce items) : Advances items items' changed.toNat := by
  rw [JumpdestRemover.optimise] at h
  split_ifs at h
  cases h
  have hsublist := filter_sublist (l := items)
    (p := fun i => !JumpdestRemover.isUnreferenced
      (JumpdestRemover.referencedTags items noSub ∪ references) i)
  generalize items.filter _ = kept at hsublist ⊢
  by_cases heq : kept.length = items.length
  · rw [hsublist.eq_of_length heq]
    simpa using advances_zero hitems
  · have hlt := lt_of_le_of_ne hsublist.length_le heq
    exact advances_of_cost hitems (hsublist.filterMap _) (by simp [heq]) (cost_lt_of_length hlt)

namespace Assembly

variable {fuel : Nat}

lemma advances_runPeephole {count count' : Nat}
    (h : runPeephole fuel items count = .ok (items', count')) (hitems : TagsPlacedOnce items) :
    ∃ n, count' = count + n ∧ Advances items items' n := by
  induction fuel generalizing items count with
  | zero => cases h
  | succ fuel ih =>
    rw [runPeephole] at h
    split at h
    · cases h
    · rename_i hoptimise
      cases h
      obtain rfl : _ = items := cost_optimise hoptimise
      exact ⟨0, rfl, advances_zero hitems⟩
    · rename_i next hoptimise
      split_ifs at h
      have hrewrites := rewrites_of_improves (.optimise true hoptimise)
      have hnext := advances_of_cost hitems (placesNoMore_rewrites hrewrites) Nat.one_pos
        (cost_optimise hoptimise)
      obtain ⟨n, rfl, hrest⟩ := ih h hnext.placed
      exact ⟨1 + n, Nat.add_assoc _ _ _, hnext.trans hrest⟩

lemma settles_runPeephole (items : List AssemblyItem) (count : Nat) :
    Semantics.Settles .timeout fun fuel => runPeephole fuel items count := by
  induction items using wellFounded_optimise.induction generalizing count with
  | _ items ih =>
    refine .succ ?_
    simp only [runPeephole]
    cases hoptimise : PeepholeOptimiser.optimise items with
    | none => exact .const nofun
    | some r =>
      obtain ⟨items', changed⟩ := r
      cases changed with
      | false => exact .const nofun
      | true =>
        simp only
        split_ifs
        · exact ih items' hoptimise _
        · exact .const nofun

/-! ### The deduplicator -/

lemma deduplicateLoop_places (hitems : TagsPlacedOnce items) {k : Nat} {m : ReplacedTags}
    {r : Result} (h : Unified items items' m) (hr : deduplicateLoop fuel items' m k = some r) :
    Unified items r.items r.replacedTags ∧
      (r.items = items' ∧ r.changed = decide (0 < k) ∨
        r.changed ∧ (r.items.map (rank items)).sum < (items'.map (rank items)).sum) := by
  induction fuel generalizing items' m k with
  | zero => cases hr
  | succ fuel ih =>
    obtain ⟨hnext, hlt⟩ := unified_round hitems h
    rw [deduplicateLoop] at hr
    split_ifs at hr with hchanged
    · obtain ⟨hunified, hcases⟩ := ih hnext hr
      refine ⟨hunified, .inr ?_⟩
      rcases hcases with ⟨heq, hr'⟩ | ⟨hr', hlt'⟩
      · exact ⟨by rw [hr']; simp, heq ▸ hlt hchanged⟩
      · exact ⟨hr', hlt'.trans (hlt hchanged)⟩
    · cases hr
      refine ⟨hnext, .inl ⟨?_, rfl⟩⟩
      -- nothing is replaced
      rw [applyTagReplacement]
      refine (map_congr_left fun i hi => ?_).trans (map_id _)
      have hnone := any_eq_false.mp (not_eq_true _ ▸ hchanged) i hi
      rw [Option.not_isSome_iff_eq_none.mp hnone]
      rfl

section

variable {E : Nat → Nat → Prop}

lemma weight_rel (h : List.Forall₂ (Rel E) items items') : weight items' = weight items := by
  induction h with
  | nil => rfl
  | @cons i i' l l' hi _ ih =>
    have hitem : weight [i'] = weight [i] := by
      cases hi with
      | refl => rfl
      | pushTag => rfl
    have happend (j : AssemblyItem) (k : List AssemblyItem) :
        weight (j :: k) = weight [j] + weight k := weight_append [j] k
    rw [happend, happend i l, hitem, ih]

lemma placeOf_rel (h : List.Forall₂ (Rel E) items items') (d : Word) :
    placeOf items' d = placeOf items d := by
  induction h with
  | nil => rfl
  | @cons i i' l l' hi _ ih =>
    have hitem : (i' = .tag d) ↔ (i = .tag d) := by
      rw [← placedTag_eq_some, ← placedTag_eq_some, hi.placedTag_eq]
    rw [placeOf, placeOf, findIdx_cons, findIdx_cons, decide_eq_decide.mpr hitem]
    change cond _ _ (placeOf l' d + 1) = cond _ _ (placeOf l d + 1)
    rw [ih]

lemma places_rel (h : List.Forall₂ (Rel E) items items') :
    places items' = (items'.map (rank items)).sum := by
  have hrank : rank items' = rank items := by
    funext i
    cases i with
    | pushTag d => exact placeOf_rel h _
    | _ => rfl
  rw [places, hrank]

end

lemma advances_deduplicate (hitems : TagsPlacedOnce items) {r : Result}
    (h : deduplicate fuel items = some r) : Advances items r.items r.changed.toNat := by
  rw [deduplicate] at h
  split_ifs at h with habort
  · cases h
    exact advances_zero hitems
  · obtain ⟨hunified, ⟨heq, hchanged⟩ | ⟨hchanged, hlt⟩⟩ :=
      deduplicateLoop_places hitems (unified_refl habort) h
    · rw [heq, hchanged]
      exact advances_zero hitems
    · refine ⟨tagsPlacedOnce_congr hunified.rel hitems, .inr ⟨by rw [hchanged]; simp, ?_⟩⟩
      have hcost : cost r.items = cost items := by
        rw [cost, cost, weight_rel hunified.rel, hunified.rel.length_eq]
      refine Prod.Lex.toLex_lt_toLex.mpr (.inr ⟨hcost, ?_⟩)
      change places r.items < places items
      rw [places_rel hunified.rel]
      exact hlt

variable {s : OptimiserState}

lemma items_noteReplacements {l : List (Word × Word)} {s' : OptimiserState}
    (h : l.foldlM noteReplacement s = .ok s') : s'.items = s.items := by
  induction l generalizing s with
  | nil =>
    cases h
    rfl
  | cons p l ih =>
    rw [foldlM_cons] at h
    cases hnote : noteReplacement s p with
    | error e =>
      rw [hnote] at h
      cases h
    | ok t =>
      rw [hnote] at h
      rw [ih h, (noteReplacement_eq_ok hnote).2]

lemma advances_runDeduplicate {s' : OptimiserState} {changed : Bool}
    (h : runDeduplicate fuel s = .ok (s', changed)) (hitems : TagsPlacedOnce s.items) :
    Advances s.items s'.items changed.toNat := by
  rw [runDeduplicate] at h
  cases hr : deduplicate fuel s.items with
  | none =>
    rw [hr] at h
    cases h
  | some r =>
    have hadvances := advances_deduplicate hitems hr
    rw [hr] at h
    simp only at h
    split_ifs at h with hchanged
    · cases hnotes : r.replacedTags.toList.foldlM noteReplacement { s with items := r.items } with
      | error e =>
        rw [hnotes] at h
        cases h
      | ok t =>
        rw [hnotes] at h
        cases h
        rw [items_noteReplacements hnotes]
        exact hchanged ▸ hadvances
    · cases h
      exact eq_false_iff.mpr hchanged ▸ hadvances

lemma noteReplacements_ne_timeout (l : List (Word × Word)) (s : OptimiserState) :
    l.foldlM noteReplacement s ≠ .error .timeout := by
  induction l generalizing s with
  | nil => exact nofun
  | cons p l ih =>
    rw [foldlM_cons, noteReplacement]
    split_ifs
    · exact nofun
    · exact nofun
    · exact ih _
    · exact ih _

lemma settles_runDeduplicate (hitems : TagsPlacedOnce s.items) :
    Semantics.Settles .timeout fun fuel => runDeduplicate fuel s := by
  obtain ⟨r, n, hr, -⟩ := deduplicate_unified hitems
  have hconst : Semantics.Settles OptimiserException.timeout fun _ =>
      if r.changed then do
        let s ← r.replacedTags.toList.foldlM noteReplacement { s with items := r.items }
        return (s, true)
      else .ok ({ s with items := r.items }, false) := by
    refine .const ?_
    split_ifs
    · have hne := noteReplacements_ne_timeout r.replacedTags.toList { s with items := r.items }
      cases hnotes : r.replacedTags.toList.foldlM noteReplacement { s with items := r.items } with
      | error e =>
        rw [hnotes] at hne
        exact fun h => hne (congrArg _ (Except.error.inj h))
      | ok t => exact nofun
    · exact nofun
  exact hconst.congr fun fuel (hfuel : n ≤ fuel) => by rw [runDeduplicate, hr fuel hfuel]

end Assembly

/-- What the optimiser relies on: the eliminator places no tags of its own. -/
def OptimiserSteps.PlacesNoMore (steps : OptimiserSteps) : Prop :=
  ∀ chunk out, steps.getOptimizedItems chunk = some out → Sof.PlacesNoMore chunk out

namespace Assembly

variable {steps : OptimiserSteps}

lemma placesNoMore_optimiseChunks (hsteps : steps.PlacesNoMore) (msizeImportant : Bool) {n : Nat}
    (hn : items.length ≤ n) : PlacesNoMore items (optimiseChunks steps msizeImportant n items) := by
  induction n generalizing items with
  | zero =>
    rw [length_eq_zero_iff.mp (Nat.le_zero.mp hn)]
    exact .refl []
  | succ n ih =>
    cases items with
    | nil => exact .refl []
    | cons i items =>
      have hlt := nextChunk_rest_lt msizeImportant i items
      have happend := nextChunk_append msizeImportant (i :: items)
      rw [optimiseChunks]
      · generalize nextChunk msizeImportant (i :: items) = r at hlt happend ⊢
        rw [← happend]
        refine PlacesNoMore.append ?_ (ih (Nat.le_of_lt_succ (Nat.lt_of_lt_of_le hlt hn)))
        split
        · rename_i out hout
          split_ifs
          · exact hsteps _ _ hout
          · exact .refl _
        · exact .refl _
      · exact cons_ne_nil i items

lemma advances_runCSE (hsteps : steps.PlacesNoMore) (hitems : TagsPlacedOnce items) :
    Advances items (runCSE steps items).1 (runCSE steps items).2.toNat := by
  rw [runCSE]
  split_ifs with hlt
  · exact advances_of_cost hitems (placesNoMore_optimiseChunks hsteps _ le_rfl) Nat.one_pos
      (cost_lt_of_length hlt)
  · exact advances_zero hitems

/-! ### The steps of a round -/

def stepJumpdestRemover (settings : OptimiserSettings) (s : OptimiserState) :
    Optimising (List AssemblyItem × Nat) :=
  if settings.runJumpdestRemover then
    match JumpdestRemover.optimise s.items s.tagsReferencedFromOutside with
    | none => .error .subAssemblyTagUsedAsLabel
    | some (items, changed) => .ok (items, changed.toNat)
  else .ok (s.items, 0)

def stepPeephole (fuel : Nat) (settings : OptimiserSettings) (r : List AssemblyItem × Nat) :
    Optimising (List AssemblyItem × Nat) :=
  if settings.runPeephole then runPeephole fuel r.1 r.2 else .ok r

def stepDeduplicate (fuel : Nat) (settings : OptimiserSettings) (s : OptimiserState) :
    Optimising (OptimiserState × Bool) :=
  if settings.runDeduplicate then runDeduplicate fuel s else .ok (s, false)

def stepCSE (steps : OptimiserSteps) (settings : OptimiserSettings) (items : List AssemblyItem) :
    List AssemblyItem × Bool :=
  if settings.runCSE then runCSE steps items else (items, false)

lemma beforeDeduplicate_eq (fuel : Nat) (settings : OptimiserSettings) (s : OptimiserState) :
    beforeDeduplicate fuel settings s = (stepJumpdestRemover settings s).bind fun r =>
      (stepPeephole fuel settings r).bind fun r => .ok ({ s with items := r.1 }, r.2) := by
  rw [beforeDeduplicate, stepJumpdestRemover]
  cases settings.runJumpdestRemover with
  | false => cases hpeephole : settings.runPeephole <;> simp [stepPeephole, hpeephole] <;> rfl
  | true =>
    cases JumpdestRemover.optimise s.items s.tagsReferencedFromOutside with
    | none => rfl
    | some r => cases hpeephole : settings.runPeephole <;> simp [stepPeephole, hpeephole] <;> rfl

lemma round_eq (fuel : Nat) (settings : OptimiserSettings) (s : OptimiserState) :
    round steps fuel settings s = (beforeDeduplicate fuel settings s).bind fun r =>
      (stepDeduplicate fuel settings r.1).bind fun r' =>
        .ok ({ r'.1 with items := (stepCSE steps settings r'.1.items).1 },
          r.2 + r'.2.toNat + (stepCSE steps settings r'.1.items).2.toNat) := by
  rw [round]
  cases beforeDeduplicate fuel settings s with
  | error e => rfl
  | ok r =>
    cases hdeduplicate : settings.runDeduplicate <;> simp [stepDeduplicate, hdeduplicate] <;> rfl

lemma bind_eq_ok {α β : Type} {r : Optimising α} {f : α → Optimising β} {b : β}
    (h : r.bind f = .ok b) : ∃ a, r = .ok a ∧ f a = .ok b := by
  cases r with
  | error e => cases h
  | ok a => exact ⟨a, rfl, h⟩

variable {settings : OptimiserSettings} {s : OptimiserState}

lemma advances_stepJumpdestRemover {r : List AssemblyItem × Nat}
    (h : stepJumpdestRemover settings s = .ok r) (hitems : TagsPlacedOnce s.items) :
    Advances s.items r.1 r.2 := by
  rw [stepJumpdestRemover] at h
  split_ifs at h
  · cases hremove : JumpdestRemover.optimise s.items s.tagsReferencedFromOutside with
    | none =>
      rw [hremove] at h
      cases h
    | some r =>
      rw [hremove] at h
      cases h
      exact advances_jumpdestRemover hremove hitems
  · cases h
    exact advances_zero hitems

variable {fuel : Nat}

lemma advances_stepPeephole {r r' : List AssemblyItem × Nat}
    (h : stepPeephole fuel settings r = .ok r') (hitems : Advances items r.1 r.2) :
    Advances items r'.1 r'.2 := by
  rw [stepPeephole] at h
  split_ifs at h
  · obtain ⟨n, hn, hadvances⟩ := advances_runPeephole h hitems.placed
    rw [hn]
    exact hitems.trans hadvances
  · cases h
    exact hitems

lemma advances_stepDeduplicate {r : OptimiserState × Bool}
    (h : stepDeduplicate fuel settings s = .ok r) (hitems : TagsPlacedOnce s.items) :
    Advances s.items r.1.items r.2.toNat := by
  rw [stepDeduplicate] at h
  split_ifs at h
  · exact advances_runDeduplicate h hitems
  · cases h
    exact advances_zero hitems

lemma advances_stepCSE (hsteps : steps.PlacesNoMore) (settings : OptimiserSettings)
    (hitems : TagsPlacedOnce items) :
    Advances items (stepCSE steps settings items).1 (stepCSE steps settings items).2.toNat := by
  rw [stepCSE]
  split_ifs
  · exact advances_runCSE hsteps hitems
  · exact advances_zero hitems

lemma advances_beforeDeduplicate {r : OptimiserState × Nat}
    (h : beforeDeduplicate fuel settings s = .ok r) (hitems : TagsPlacedOnce s.items) :
    Advances s.items r.1.items r.2 := by
  rw [beforeDeduplicate_eq] at h
  obtain ⟨t, ht, h⟩ := bind_eq_ok h
  obtain ⟨u, hu, h⟩ := bind_eq_ok h
  cases h
  exact advances_stepPeephole hu (advances_stepJumpdestRemover ht hitems)

/-- In a round with changes there is progress. -/
theorem advances_round (hsteps : steps.PlacesNoMore) {r : OptimiserState × Nat}
    (h : round steps fuel settings s = .ok r) (hitems : TagsPlacedOnce s.items) :
    Advances s.items r.1.items r.2 := by
  rw [round_eq] at h
  obtain ⟨t, ht, h⟩ := bind_eq_ok h
  obtain ⟨u, hu, h⟩ := bind_eq_ok h
  cases h
  have hfirst := advances_beforeDeduplicate ht hitems
  have hsecond := hfirst.trans (advances_stepDeduplicate hu hfirst.placed)
  exact hsecond.trans (advances_stepCSE hsteps settings hsecond.placed)

lemma settles_beforeDeduplicate (settings : OptimiserSettings) (s : OptimiserState) :
    Semantics.Settles .timeout fun fuel => beforeDeduplicate fuel settings s := by
  simp only [beforeDeduplicate_eq]
  refine .bind (.const ?_) fun _ r _ => .bind ?_ fun _ r _ => .pure _
  · rw [stepJumpdestRemover]
    split_ifs
    · cases JumpdestRemover.optimise s.items s.tagsReferencedFromOutside with
      | none => exact nofun
      | some r => exact nofun
    · exact nofun
  · simp only [stepPeephole]
    split_ifs
    · exact settles_runPeephole r.1 r.2
    · exact .pure r

lemma settles_round (steps : OptimiserSteps) (settings : OptimiserSettings)
    (hitems : TagsPlacedOnce s.items) :
    Semantics.Settles .timeout fun fuel => round steps fuel settings s := by
  simp only [round_eq]
  refine .bind (settles_beforeDeduplicate settings s) fun fuel r hr =>
    .bind ?_ fun _ r' _ => .pure _
  simp only [stepDeduplicate]
  split_ifs
  · exact settles_runDeduplicate (advances_beforeDeduplicate hr hitems).placed
  · exact .pure _

/-! ### The loop -/

/-- A round with changes, from items with every tag placed once. -/
def Changes (steps : OptimiserSteps) (settings : OptimiserSettings) (s' s : OptimiserState) :
    Prop :=
  TagsPlacedOnce s.items ∧
    ∃ fuel count, round steps fuel settings s = .ok (s', count) ∧ 0 < count

/-- No sequence of rounds with changes goes on forever. -/
theorem wellFounded_changes (hsteps : steps.PlacesNoMore) (settings : OptimiserSettings) :
    WellFounded (Changes steps settings) := by
  refine Subrelation.wf ?_ (InvImage.wf (fun s => progress s.items) wellFounded_lt)
  rintro s' s ⟨hitems, fuel, count, hround, hcount⟩
  rcases (advances_round hsteps hround hitems).same_or_lt with ⟨hzero, -⟩ | ⟨-, hlt⟩
  · exact absurd hzero hcount.ne'
  · exact hlt

/-- With enough fuel for each round and for the number of rounds, the loop has one result. -/
lemma exists_rounds (hsteps : steps.PlacesNoMore) (settings : OptimiserSettings)
    (s : OptimiserState) (hitems : TagsPlacedOnce s.items) :
    ∃ n r, r ≠ .error .timeout ∧
      ∀ fuel m, n ≤ fuel → n ≤ m → rounds steps fuel settings m s = r := by
  induction s using (wellFounded_changes hsteps settings).induction with
  | _ s ih =>
    obtain ⟨n, r, hr, hround⟩ := settles_round steps settings hitems
    beta_reduce at hround
    cases r with
    | error e =>
      refine ⟨n + 1, .error e, fun h => hr (congrArg _ (Except.error.inj h)), ?_⟩
      intro fuel m hfuel hm
      obtain ⟨m, rfl⟩ := Nat.exists_eq_add_of_le' (Nat.le_trans (Nat.le_add_left 1 n) hm)
      rw [rounds, hround fuel (Nat.le_of_succ_le hfuel)]
      rfl
    | ok r =>
      obtain ⟨s', count⟩ := r
      by_cases hcount : 0 < count
      · have hadvances := advances_round hsteps (hround n le_rfl) hitems
        obtain ⟨n', r', hr', hrounds⟩ :=
          ih s' ⟨hitems, n, count, hround n le_rfl, hcount⟩ hadvances.placed
        refine ⟨max n n' + 1, r', hr', fun fuel m hfuel hm => ?_⟩
        obtain ⟨m, rfl⟩ := Nat.exists_eq_add_of_le' (Nat.le_trans (Nat.le_add_left 1 _) hm)
        have hn : n ≤ fuel := (le_max_left n n').trans (Nat.le_of_succ_le hfuel)
        have hn' : n' ≤ fuel := (le_max_right n n').trans (Nat.le_of_succ_le hfuel)
        have hm' : n' ≤ m := (le_max_right n n').trans (Nat.le_of_succ_le_succ hm)
        rw [rounds, hround fuel hn]
        exact (if_pos hcount).trans (hrounds fuel m hn' hm')
      · refine ⟨n + 1, .ok s', nofun, fun fuel m hfuel hm => ?_⟩
        obtain ⟨m, rfl⟩ := Nat.exists_eq_add_of_le' (Nat.le_trans (Nat.le_add_left 1 n) hm)
        rw [rounds, hround fuel (Nat.le_of_succ_le hfuel)]
        exact if_neg hcount

/-- Repeated passes of the peephole optimiser come to an end for all items, and the rounds of the
optimiser for all items with every tag placed once. -/
theorem optimise_terminates (steps : OptimiserSteps) (hsteps : steps.PlacesNoMore)
    (settings : OptimiserSettings) :
    (WellFounded fun items' items => PeepholeOptimiser.optimise items = some (items', true)) ∧
    (WellFounded (Changes steps settings)) ∧
    ∀ s, TagsPlacedOnce s.items →
      ∃ n, ∀ fuel, n ≤ fuel → rounds steps fuel settings fuel s ≠ .error .timeout := by
  refine ⟨wellFounded_optimise, wellFounded_changes hsteps settings, fun s hitems => ?_⟩
  obtain ⟨n, r, hr, hrounds⟩ := exists_rounds hsteps settings s hitems
  exact ⟨n, fun fuel hfuel => hrounds fuel fuel hfuel hfuel ▸ hr⟩

/-- A jump to the next tag, with all steps enabled and nothing to eliminate. -/
theorem optimise_terminates_jumpToNext :
    ∃ n, ∀ fuel, n ≤ fuel →
      rounds ⟨some, fun _ a => a⟩ fuel ⟨false, true, true, true, true, false⟩ fuel
        ⟨[.pushTag 1, .operation .jump, .tag 1, .operation .stop], ∅, ∅⟩ ≠ .error .timeout := by
  have hsteps : OptimiserSteps.PlacesNoMore ⟨some, fun _ a => a⟩ := by
    rintro chunk _ ⟨⟩
    exact .refl chunk
  have hitems : TagsPlacedOnce [.pushTag 1, .operation .jump, .tag 1, .operation .stop] := by
    refine ⟨by decide, fun d hd => ?_⟩
    obtain rfl : d = 1 := by simpa using hd
    decide
  exact (optimise_terminates _ hsteps _).2.2 ⟨_, ∅, ∅⟩ hitems

/-- A tag that is placed twice is replaced by itself, again and again. -/
theorem rounds_tagTwice : ¬ ∀ (steps : OptimiserSteps) (settings : OptimiserSettings)
    (s : OptimiserState),
    ∃ n, ∀ fuel, n ≤ fuel → rounds steps fuel settings fuel s ≠ .error .timeout := by
  intro h
  obtain ⟨n, hn⟩ := h ⟨some, fun _ a => a⟩ ⟨false, false, false, true, false, false⟩
    ⟨tagTwice, ∅, ∅⟩
  refine hn (n + 1) (Nat.le_succ n) ?_
  have hdeduplicate : deduplicate (n + 1) tagTwice = none := deduplicateLoop_tagTwice (n + 1) ∅ 0
  rw [rounds, round_eq]
  change ((runDeduplicate (n + 1) ⟨tagTwice, ∅, ∅⟩).bind _).bind _ = _
  rw [runDeduplicate, hdeduplicate]
  rfl

end Assembly

end Sof
