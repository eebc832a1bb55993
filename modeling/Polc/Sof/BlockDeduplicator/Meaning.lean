import Polc.Sof.BlockDeduplicator
import Polc.Sof.Execution.LockStep
import Mathlib.Algebra.Order.BigOperators.Group.List
import Mathlib.Algebra.Order.Group.Nat

/-!
# Deduplicated blocks behave the same

Two tags are interchangeable if some relation that contains them relates only tags whose blocks
are equal up to related tags. Every tag that the deduplicator replaces is interchangeable with
its replacement in the items it started from, whatever it has replaced before.
-/

namespace Sof

open AssemblyItem Semantics Function Bool

/-- Blocks that are equal up to related tags, or missing. -/
abbrev SameBlock (E : Nat → Nat → Prop) : Option (List AssemblyItem) →
    Option (List AssemblyItem) → Prop :=
  Option.Rel (List.Forall₂ (AssemblyItem.Rel E))

lemma SameBlock.equivalence (hE : Equivalence E) : Equivalence (SameBlock E) where
  refl b := by
    cases b with
    | none => exact .none
    | some l => exact .some ((forall₂_equivalence (Rel.equivalence hE)).refl l)
  symm h := by
    cases h with
    | none => exact .none
    | some h => exact .some ((forall₂_equivalence (Rel.equivalence hE)).symm h)
  trans h h' := by
    cases h with
    | none => exact h'
    | some h =>
      cases h' with
      | some h' => exact .some ((forall₂_equivalence (Rel.equivalence hE)).trans h h')

lemma SameBlock.mono (hE : ∀ a b, E a b → E' a b) {b b' : Option (List AssemblyItem)}
    (h : SameBlock E b b') : SameBlock E' b b' := by
  cases h with
  | none => exact .none
  | some h => exact .some (h.imp fun _ _ => Rel.mono hE)

namespace BlockDeduplicator

variable {items items' : List AssemblyItem}

lemma forall₂_blockItems (h : List.Forall₂ (Rel E) items items') :
    List.Forall₂ (Rel E) (blockItems items) (blockItems items') := by
  induction h with
  | nil => exact .nil
  | cons hi _ ih =>
    rw [blockItems, blockItems, hi.placedTag_eq, hi.endsBlock_eq]
    split_ifs
    · exact ih
    · exact .cons hi .nil
    · exact .cons hi ih

lemma codeAt_rel (h : List.Forall₂ (Rel E) items items') (t : Nat) :
    Option.Rel (List.Forall₂ (Rel E)) (codeAt items t) (codeAt items' t) := by
  have hplaces : ∀ {i i' : AssemblyItem}, Rel E i i' → placesTag t i = placesTag t i' := by
    intro i i' hi
    cases hi <;> rfl
  have hcount : items.countP (placesTag t) = items'.countP (placesTag t) := by
    induction h with
    | nil => rfl
    | cons hi _ ih => rw [List.countP_cons, List.countP_cons, ih, hplaces hi]
  have hdrop : List.Forall₂ (Rel E) (items.dropWhile (!placesTag t ·))
      (items'.dropWhile (!placesTag t ·)) := by
    clear hcount
    induction h with
    | nil => exact .nil
    | cons hi h ih =>
      rw [List.dropWhile_cons, List.dropWhile_cons, hplaces hi]
      split_ifs
      · exact ih
      · exact .cons hi h
  rw [codeAt, codeAt, hcount]
  split_ifs
  · exact .some hdrop
  · exact .none

/-- The block of a tag. -/
def blockAt (items : List AssemblyItem) (t : Nat) : Option (List AssemblyItem) :=
  (codeAt items t).map blockItems

lemma sameBlock_blockAt (h : List.Forall₂ (Rel E) items items') (t : Nat) :
    SameBlock E (blockAt items t) (blockAt items' t) := by
  have hcode := codeAt_rel h t
  rw [blockAt, blockAt]
  generalize codeAt items t = code at hcode ⊢
  generalize codeAt items' t = code' at hcode ⊢
  cases hcode with
  | none => exact .none
  | some hcode => exact .some (forall₂_blockItems hcode)

/-- Related tags have blocks that are equal up to related tags. -/
def IsSimulation (items : List AssemblyItem) (E : Nat → Nat → Prop) : Prop :=
  ∀ a b, E a b → SameBlock E (blockAt items a) (blockAt items b)

/-- Some such relation holds between the tags. -/
def Interchangeable (items : List AssemblyItem) (a b : Nat) : Prop :=
  ∃ E, IsSimulation items E ∧ E a b

lemma isSimulation_eqvGen {R : Nat → Nat → Prop}
    (h : ∀ a b, R a b →
      SameBlock (Relation.EqvGen R) (blockAt items a) (blockAt items b)) :
    IsSimulation items (Relation.EqvGen R) := by
  have heqv := SameBlock.equivalence (Relation.EqvGen.is_equivalence R)
  intro a b hab
  induction hab with
  | rel a b hab => exact h a b hab
  | refl a => exact heqv.refl _
  | symm a b _ ih => exact heqv.symm ih
  | trans a b c _ _ ih ih' => exact heqv.trans ih ih'

lemma isSimulation_interchangeable : IsSimulation items (Interchangeable items) := by
  rintro a b ⟨E, hE, hab⟩
  exact (hE a b hab).mono fun a b h => ⟨E, hE, h⟩

/-- Tags whose blocks are equal up to interchangeable tags and these tags themselves are
interchangeable. -/
lemma interchangeable_of_step {R : Nat → Nat → Prop}
    (h : ∀ a b, R a b → SameBlock (Relation.EqvGen fun a b => Interchangeable items a b ∨ R a b)
      (blockAt items a) (blockAt items b)) {a b : Nat} (hab : R a b) :
    Interchangeable items a b := by
  refine ⟨Relation.EqvGen fun a b => Interchangeable items a b ∨ R a b,
    isSimulation_eqvGen ?_, .rel _ _ (Or.inr hab)⟩
  rintro a b (hab | hab)
  · exact (isSimulation_interchangeable a b hab).mono fun a b h => .rel _ _ (.inl h)
  · exact h a b hab

lemma interchangeable_equivalence (items : List AssemblyItem) :
    Equivalence (Interchangeable items) := by
  have hgen : ∀ a b, Relation.EqvGen (Interchangeable items) a b → Interchangeable items a b :=
    fun a b h => ⟨_, isSimulation_eqvGen fun a b hab =>
      (isSimulation_interchangeable a b hab).mono fun a b h => .rel _ _ h, h⟩
  exact {
    refl := fun a => hgen a a (.refl a)
    symm := fun h => hgen _ _ (.symm _ _ (.rel _ _ h))
    trans := fun h h' => hgen _ _ (.trans _ _ _ (.rel _ _ h) (.rel _ _ h')) }

/-! ### Equal keys -/

lemma blockItems_subset : ∀ {l : List AssemblyItem}, blockItems l ⊆ l
  | [] => List.Subset.refl _
  | i :: rest => by
    rw [blockItems]
    split_ifs
    · exact List.subset_cons_of_subset i blockItems_subset
    · exact List.cons_subset_cons i (List.nil_subset rest)
    · exact List.cons_subset_cons i blockItems_subset

lemma forall₂_of_map_eq {own own' : AssemblyItem} {l l' : List AssemblyItem}
    (hl : pushSelf ∉ l) (hl' : pushSelf ∉ l')
    (h : (l.map fun i => if i = own then pushSelf else i) =
      l'.map fun i => if i = own' then pushSelf else i) :
    List.Forall₂ (fun i i' => i = i' ∨ i = own ∧ i' = own') l l' := by
  induction l generalizing l' with
  | nil =>
    rw [List.map_nil, eq_comm, List.map_eq_nil_iff] at h
    rw [h]
    exact .nil
  | cons i l ih =>
    obtain ⟨i', l', rfl, hi, htail⟩ := List.map_eq_cons_iff.mp h.symm
    obtain ⟨hne, hl⟩ := not_or.mp (mt List.mem_cons.mpr hl)
    obtain ⟨hne', hl'⟩ := not_or.mp (mt List.mem_cons.mpr hl')
    refine .cons ?_ (ih hl hl' htail.symm)
    beta_reduce at hi
    split_ifs at hi with hown' hown hown
    · exact .inr ⟨hown, hown'⟩
    · exact absurd hi hne
    · exact absurd hi.symm hne'
    · exact .inl hi.symm

lemma placesTag_toNat {d d' : Word} (hd' : d'.toNat < 2 ^ 64) :
    placesTag d.toNat (.tag d') ↔ d' = d := by
  rw [placesTag, decide_eq_true_iff, splitForeignPushTag_of_lt hd', Prod.mk.injEq,
    ← BitVec.toNat_inj]
  exact and_iff_right rfl

lemma codeAt_eq (h : TagsPlacedOnce items) {i : Nat} {d : Word}
    (hi : items[i]? = some (.tag d)) : codeAt items d.toNat = some (items.drop i) := by
  obtain ⟨hlt, hget⟩ := List.getElem?_eq_some_iff.mp hi
  have hd := h.lt d (List.mem_of_getElem? hi)
  have hplaces : ∀ (j : Nat) (x : AssemblyItem), items[j]? = some x →
      placesTag d.toNat x = true → j = i := by
    intro j x hj hx
    cases x with
    | tag d' =>
      rw [placesTag_toNat (h.lt d' (List.mem_of_getElem? hj))] at hx
      subst hx
      exact h.index_eq hj hi
    | _ => cases hx
  have hself : placesTag d.toNat (.tag d) = true := (placesTag_toNat hd).mpr rfl
  have hbefore : ∀ x ∈ items.take i, ¬ placesTag d.toNat x = true := by
    intro x hx hp
    obtain ⟨j, hj, rfl⟩ := List.mem_take_iff_getElem.mp hx
    have hji := hplaces j _ (List.getElem?_eq_getElem _) hp
    omega
  have hbehind : ∀ x ∈ items.drop (i + 1), ¬ placesTag d.toNat x = true := by
    intro x hx hp
    obtain ⟨j, hj, rfl⟩ := List.mem_drop_iff_getElem.mp hx
    have hji := hplaces _ _ (List.getElem?_eq_getElem _) hp
    omega
  have hsplit : items = items.take i ++ .tag d :: items.drop (i + 1) := by
    rw [← hget, ← List.drop_eq_getElem_cons hlt, List.take_append_drop]
  have hcount : items.countP (placesTag d.toNat) = 1 := by
    rw [hsplit, List.countP_append, List.countP_cons_of_pos hself,
      List.countP_eq_zero.mpr hbefore, List.countP_eq_zero.mpr hbehind]
  have hdrop : items.dropWhile (!placesTag d.toNat ·) = items.drop i := by
    rw [List.drop_eq_getElem_cons hlt, hget]
    conv_lhs => rw [hsplit]
    rw [List.dropWhile_append_of_pos, List.dropWhile_cons_of_neg]
    · rw [hself]
      exact false_ne_true
    · intro x hx
      rw [not_eq_true']
      exact eq_false_iff.mpr (hbefore x hx)
  rw [codeAt, if_pos hcount, hdrop]

lemma tagsPlacedOnce_congr (h : List.Forall₂ (Rel E) items items')
    (hitems : TagsPlacedOnce items) : TagsPlacedOnce items' := by
  have htags : items'.filterMap placedTag = items.filterMap placedTag := by
    clear hitems
    induction h with
    | nil => rfl
    | cons hi _ ih => rw [List.filterMap_cons, List.filterMap_cons, ← hi.placedTag_eq, ih]
  refine ⟨htags ▸ hitems.nodup, fun d hd => hitems.lt d ?_⟩
  have hmem : d ∈ items'.filterMap placedTag := List.mem_filterMap.mpr ⟨_, hd, rfl⟩
  rw [htags] at hmem
  obtain ⟨i, hi, hid⟩ := List.mem_filterMap.mp hmem
  rwa [← placedTag_eq_some.mp hid]

lemma rel_getElem?_tag (h : List.Forall₂ (Rel E) items items') {i : Nat} {d : Word} :
    items'[i]? = some (.tag d) ↔ items[i]? = some (.tag d) := by
  induction h generalizing i with
  | nil => rfl
  | cons hi _ ih =>
    cases i with
    | zero =>
      simp only [List.getElem?_cons_zero, Option.some.injEq]
      rw [← placedTag_eq_some, ← placedTag_eq_some, hi.placedTag_eq]
    | succ i => exact ih

/-- The blocks of a duplicate and of what it duplicates are equal up to their tags. -/
lemma sameBlock_of_duplicate (hitems : TagsPlacedOnce items) (hself : pushSelf ∉ items)
    {d e : Word} (h : Duplicate items d e) :
    SameBlock (fun a b => a = d.toNat ∧ b = e.toNat) (blockAt items d.toNat)
      (blockAt items e.toNat) := by
  obtain ⟨i, j, -, hi, hj, hkey⟩ := h
  have hd := hitems.lt d (List.mem_of_getElem? hi)
  have he := hitems.lt e (List.mem_of_getElem? hj)
  rw [blockAt, blockAt, codeAt_eq hitems hi, codeAt_eq hitems hj]
  have hown : pushOwnTag items i = .pushTag d := by rw [pushOwnTag, hi]
  have hown' : pushOwnTag items j = .pushTag e := by rw [pushOwnTag, hj]
  rw [blockKey, blockKey, hown, hown'] at hkey
  have hsub : ∀ n, pushSelf ∉ blockItems (items.drop n) := fun n hn =>
    hself (List.mem_of_mem_drop (blockItems_subset hn))
  refine .some ((forall₂_of_map_eq (hsub i) (hsub j) hkey).imp fun a b hab => ?_)
  rcases hab with rfl | ⟨rfl, rfl⟩
  · exact .refl a
  · apply Rel.pushTag
    · rw [splitForeignPushTag_of_lt hd]
    · rw [splitForeignPushTag_of_lt he]
    · rw [splitForeignPushTag_of_lt hd, splitForeignPushTag_of_lt he]
      exact ⟨rfl, rfl⟩

/-- A duplicate that appears after replacements is interchangeable in the original items. -/
lemma interchangeable_of_duplicate (hitems : TagsPlacedOnce items)
    (hrel : List.Forall₂ (Rel (Interchangeable items)) items items')
    (hself : pushSelf ∉ items') {d e : Word} (h : Duplicate items' d e) :
    Interchangeable items d.toNat e.toNat := by
  have hblock := sameBlock_of_duplicate (tagsPlacedOnce_congr hrel hitems) hself h
  apply interchangeable_of_step (R := fun a b => a = d.toNat ∧ b = e.toNat) ?_ ⟨rfl, rfl⟩
  rintro _ _ ⟨rfl, rfl⟩
  have heqv := SameBlock.equivalence (Relation.EqvGen.is_equivalence
    fun a b => Interchangeable items a b ∨ a = d.toNat ∧ b = e.toNat)
  have hrel' := fun t => (sameBlock_blockAt hrel t).mono fun a b hab =>
    Relation.EqvGen.rel (r := fun a b => Interchangeable items a b ∨ a = d.toNat ∧ b = e.toNat)
      a b (.inl hab)
  have hblock' := hblock.mono fun a b hab =>
    Relation.EqvGen.rel (r := fun a b => Interchangeable items a b ∨ a = d.toNat ∧ b = e.toNat)
      a b (.inr hab)
  exact heqv.trans (hrel' _) (heqv.trans hblock' (heqv.symm (hrel' _)))

/-! ### The loop -/

/-- What every round keeps. -/
structure Unified (items items' : List AssemblyItem) (m : ReplacedTags) : Prop where
  rel : List.Forall₂ (Rel (Interchangeable items)) items items'
  pushSelf_not_mem : pushSelf ∉ items'
  replaced : ∀ d e, m[d]? = some e → .tag d ∈ items ∧ .tag e ∈ items ∧
    placeOf items e < placeOf items d ∧ Interchangeable items d.toNat e.toNat

lemma unified_refl
    (habort : ¬ (items.contains (.tag (-4)) || items.contains pushSelf)) :
    Unified items items ∅ := by
  refine ⟨(forall₂_equivalence (Rel.equivalence (interchangeable_equivalence _))).refl items,
    fun hself => habort ?_, fun d e hde => ?_⟩
  · rw [or_eq_true, List.contains_iff_mem, List.contains_iff_mem]
    exact .inr hself
  · rw [Std.TreeMap.getElem?_emptyc] at hde
    cases hde

/-- Where the pushed tag is placed, zero for items that push none. -/
def rank (items : List AssemblyItem) : AssemblyItem → Nat
  | .pushTag d => placeOf items (.ofNat 256 (splitForeignPushTag d).2)
  | _ => 0

lemma pushTag_ne_pushSelf {e : Word} (he : e.toNat < 2 ^ 64) : .pushTag e ≠ pushSelf := by
  intro h
  rw [AssemblyItem.pushTag.inj h] at he
  exact absurd he (by decide)

lemma replaceTag_unified (hitems : TagsPlacedOnce items) {m : ReplacedTags}
    (hm : ∀ d e, m[d]? = some e → .tag d ∈ items ∧ .tag e ∈ items ∧
      placeOf items e < placeOf items d ∧ Interchangeable items d.toNat e.toNat)
    {i i' : AssemblyItem} (h : replaceTag m noSub i = some i') :
    Rel (Interchangeable items) i i' ∧ i' ≠ pushSelf ∧ rank items i' < rank items i := by
  obtain ⟨d, e, rfl, hsub, he, rfl⟩ := replaceTag_eq_some h
  obtain ⟨-, hmem, hlt, hE⟩ := hm _ _ he
  have hsmall := hitems.lt e hmem
  have hjoin : joinPushTag noSub (e.toNat % 2 ^ 64) = e := by
    rw [joinPushTag, if_pos rfl, Nat.mod_eq_of_lt hsmall, BitVec.ofNat_toNat, BitVec.setWidth_eq]
  have htag : (BitVec.ofNat 256 (splitForeignPushTag d).2).toNat = (splitForeignPushTag d).2 := by
    rw [BitVec.toNat_ofNat]
    apply Nat.mod_eq_of_lt
    exact (Nat.mod_lt _ (Nat.two_pow_pos 64)).trans (Nat.pow_lt_pow_right (by simp) (by simp))
  rw [htag] at hE
  rw [hjoin]
  refine ⟨.pushTag d e hsub ?_ ?_, pushTag_ne_pushSelf hsmall, ?_⟩
  · rw [splitForeignPushTag_of_lt hsmall]
  · rw [splitForeignPushTag_of_lt hsmall]
    exact hE
  · rw [rank, rank, splitForeignPushTag_of_lt hsmall, BitVec.ofNat_toNat, BitVec.setWidth_eq]
    exact hlt

lemma unified_round (hitems : TagsPlacedOnce items) {m : ReplacedTags}
    (h : Unified items items' m) :
    Unified items (applyTagReplacement items' (findReplacements items' m) noSub).1
      (findReplacements items' m) ∧
    ((applyTagReplacement items' (findReplacements items' m) noSub).2 →
      ((applyTagReplacement items' (findReplacements items' m) noSub).1.map (rank items)).sum <
        (items'.map (rank items)).sum) := by
  have hm : ∀ d e, (findReplacements items' m)[d]? = some e → .tag d ∈ items ∧ .tag e ∈ items ∧
      placeOf items e < placeOf items d ∧ Interchangeable items d.toNat e.toNat := by
    apply findReplacements_induction h.replaced
    intro d e hde
    have hE := interchangeable_of_duplicate hitems h.rel h.pushSelf_not_mem hde
    obtain ⟨i, j, hij, hi, hj, -⟩ := hde
    rw [rel_getElem?_tag h.rel] at hi hj
    rw [hitems.placeOf_eq hi, hitems.placeOf_eq hj]
    exact ⟨List.mem_of_getElem? hi, List.mem_of_getElem? hj, hij, hE⟩
  generalize findReplacements items' m = m' at hm ⊢
  have hreplaced := fun i i' h => @replaceTag_unified items hitems m' hm i i' h
  refine ⟨⟨?_, ?_, hm⟩, ?_⟩
  · apply (forall₂_equivalence (Rel.equivalence (interchangeable_equivalence _))).trans h.rel
    rw [applyTagReplacement, List.forall₂_map_right_iff]
    refine List.forall₂_same.mpr fun i _ => ?_
    rcases hi : replaceTag m' noSub i with _ | i'
    · exact .refl i
    · exact (hreplaced i i' hi).1
  · intro hself
    obtain ⟨i, hmem, hi⟩ := List.mem_map.mp hself
    rcases hi' : replaceTag m' noSub i with _ | i'
    · rw [hi', Option.getD_none] at hi
      exact h.pushSelf_not_mem (hi ▸ hmem)
    · rw [hi', Option.getD_some] at hi
      exact (hreplaced i i' hi').2.1 hi
  · intro hchanged
    obtain ⟨i, hmem, hi⟩ := List.any_eq_true.mp hchanged
    obtain ⟨i', hi'⟩ := Option.isSome_iff_exists.mp hi
    rw [applyTagReplacement, List.map_map]
    apply List.sum_lt_sum
    · intro k _
      rcases hk : replaceTag m' noSub k with _ | k'
      · rw [comp_apply, hk, Option.getD_none]
      · rw [comp_apply, hk, Option.getD_some]
        exact Nat.le_of_lt (hreplaced k k' hk).2.2
    · refine ⟨i, hmem, ?_⟩
      rw [comp_apply, hi', Option.getD_some]
      exact (hreplaced i i' hi').2.2

/-- The deduplicator returns, its result is equal up to interchangeable tags, and tags are
replaced by interchangeable ones. -/
theorem deduplicate_unified (hitems : TagsPlacedOnce items) :
    ∃ r n, (∀ fuel, n ≤ fuel → deduplicate fuel items = some r) ∧
      List.Forall₂ (Rel (Interchangeable items)) items r.items ∧
      ∀ d e, r.replacedTags[d]? = some e → .tag d ∈ items ∧ .tag e ∈ items ∧
        Interchangeable items d.toNat e.toNat := by
  have hrefl : List.Forall₂ (Rel (Interchangeable items)) items items :=
    (forall₂_equivalence (Rel.equivalence (interchangeable_equivalence _))).refl items
  by_cases habort : (items.contains (.tag (-4)) || items.contains pushSelf) = true
  · refine ⟨⟨items, ∅, false⟩, 0, fun fuel _ => if_pos habort, hrefl, fun d e hde => ?_⟩
    rw [Std.TreeMap.getElem?_emptyc] at hde
    cases hde
  · have hstart := unified_refl habort
    obtain ⟨r, n, hr, hunified⟩ := deduplicateLoop_of_invariant
      (fun l => (l.map (rank items)).sum)
      (fun items' m (h : Unified items items' m) => unified_round hitems h) hstart 0
    refine ⟨r, n, fun fuel hfuel => (if_neg habort).trans (hr fuel hfuel), hunified.rel, ?_⟩
    intro d e hde
    obtain ⟨hd, he, -, hE⟩ := hunified.replaced d e hde
    exact ⟨hd, he, hE⟩

/-! ### Steps and runs -/

section

variable {World : Type} {rest : List AssemblyItem} {env : Environment World} {layout : Layout}

/-- In front of blocks that are equal up to related tags. -/
abbrev SameAhead (E : Nat → Nat → Prop) (code code' : List AssemblyItem) : Prop :=
  List.Forall₂ (Rel E) (blockItems code) (blockItems code')

lemma blockItems_skipTags (l : List AssemblyItem) : blockItems (skipTags l) = blockItems l := by
  induction l with
  | nil => rfl
  | cons i l ih =>
    rw [skipTags_cons, blockItems]
    split_ifs with hi hends
    · exact ih
    · rw [blockItems, if_neg hi, if_pos hends]
    · rw [blockItems, if_neg hi, if_neg hends]

lemma blockItems_of_skipTags {l : List AssemblyItem} {i : AssemblyItem}
    (h : skipTags l = i :: rest) :
    blockItems l = i :: if endsBlock i = true then [] else blockItems rest := by
  have hi : ¬ i.placedTag.isSome = true :=
    Option.not_isSome_iff_eq_none.mpr (placedTag_of_skipTags h)
  rw [← blockItems_skipTags, h, blockItems, if_neg hi]
  split_ifs <;> rfl

lemma sameAhead_of_sameBlock {t t' : Nat}
    (h : SameBlock E (blockAt items t) (blockAt items' t')) :
    Option.Rel (SameAhead E) (codeAt items t) (codeAt items' t') := by
  rw [blockAt, blockAt] at h
  cases hc : codeAt items t with
  | none =>
    cases hc' : codeAt items' t' with
    | none => exact .none
    | some code' =>
      rw [hc, hc'] at h
      cases h
  | some code =>
    cases hc' : codeAt items' t' with
    | none =>
      rw [hc, hc'] at h
      cases h
    | some code' =>
      rw [hc, hc'] at h
      cases h with
      | some h => exact .some h

lemma execStep_rel (hE : ∀ t, E t t) (hjump : SameJumps E (SameAhead E) items items')
    {c c' : Config World} (h : ConfigRel E (SameAhead E) c c') :
    StepRel E (SameAhead E) (execStep env layout.blind items c) (execStep env layout.blind items' c') := by
  obtain ⟨code, stack, state⟩ := c
  obtain ⟨code', stack', _⟩ := c'
  obtain ⟨hcode, hstack, rfl⟩ := h
  simp only [execStep]
  simp only [SameAhead] at hcode
  rw [← blockItems_skipTags code, ← blockItems_skipTags code'] at hcode
  rcases hl : skipTags code with _ | ⟨i, rest⟩
  · rcases hl' : skipTags code' with _ | ⟨i', rest'⟩
    · exact .inr (.halt .stop _ _ _ hstack)
    · rw [blockItems_skipTags code', blockItems_of_skipTags hl', hl] at hcode
      cases hcode
  · rcases hl' : skipTags code' with _ | ⟨i', rest'⟩
    · rw [blockItems_skipTags code, blockItems_of_skipTags hl, hl'] at hcode
      cases hcode
    · rw [blockItems_skipTags, blockItems_skipTags, blockItems_of_skipTags hl,
        blockItems_of_skipTags hl'] at hcode
      cases hcode with
      | cons hi hrest =>
        refine execItem_rel layout hE hjump hi (fun hends => ?_) hstack
        rw [← hi.endsBlock_eq, hends] at hrest
        exact hrest

/-- Runs from related configurations end alike, unless positions or gas are observed. -/
def BehaveAlike (E : Nat → Nat → Prop) (items items' : List AssemblyItem)
    (c c' : Config World) : Prop :=
  ∀ (env : Environment World) (layout : Layout),
    ¬ Ends (execStep env layout.blind items) c (.fault .observed) →
      (∀ o, Ends (execStep env layout items) c o →
        ∃ o', Ends (execStep env layout items') c' o' ∧ OutcomeRel E o o') ∧
      ∀ o', Ends (execStep env layout items') c' o' →
        ∃ o, Ends (execStep env layout items) c o ∧ OutcomeRel E o o'

lemma behaveAlike (hE : ∀ t, E t t) (hjump : SameJumps E (SameAhead E) items items')
    {c c' : Config World} (h : ConfigRel E (SameAhead E) c c') : BehaveAlike E items items' c c' := by
  intro env layout hblind
  have hstep : ∀ c c' : Config World, ConfigRel E (SameAhead E) c c' →
      Advances (execStep env layout.blind items) (execStep env layout.blind items')
        (ConfigRel E (SameAhead E)) (OutcomeRel E) (fun _ => False) (fun _ => 0) c c' :=
    fun c c' h => .of_liftRel (execStep_rel hE hjump h)
  have hgood : ∀ o, Ends (execStep env layout.blind items) c o → ¬ False := fun _ _ => not_false
  have hblind' : ¬ Ends (execStep env layout.blind items') c' (.fault .observed) := by
    intro hend
    obtain ⟨o, ho, hrel⟩ := ends_of_advances_symm hstep h hgood hend
    cases hrel with
    | fault => exact hblind ho
  constructor
  · intro o ho
    obtain ⟨o', ho', hrel⟩ := ends_of_advances hstep h hgood ((ends_blind_iff hblind o).mpr ho)
    exact ⟨o', (ends_blind_iff hblind' o').mp ho', hrel⟩
  · intro o' ho'
    obtain ⟨o, ho, hrel⟩ :=
      ends_of_advances_symm hstep h hgood ((ends_blind_iff hblind' o').mpr ho')
    exact ⟨o, (ends_blind_iff hblind o).mp ho, hrel⟩

end

/-! ### The result -/

/-- The result behaves like the items: entered at any index, and entered at the replacement of
a tag instead of the tag. -/
structure KeepsMeaning (items : List AssemblyItem) (r : Result) : Prop where
  index : ∀ (World : Type) (k : Nat) (stack stack' : List Value) (state : SvmState World),
    List.Forall₂ (Value.Rel (Interchangeable items)) stack stack' →
      BehaveAlike (Interchangeable items) items r.items ⟨items.drop k, stack, state⟩
        ⟨r.items.drop k, stack', state⟩
  replaced : ∀ d e : Word, r.replacedTags[d]? = some e → ∃ code code',
    codeAt items d.toNat = some code ∧ codeAt r.items e.toNat = some code' ∧
      ∀ (World : Type) (stack stack' : List Value) (state : SvmState World),
        List.Forall₂ (Value.Rel (Interchangeable items)) stack stack' →
          BehaveAlike (Interchangeable items) items r.items ⟨code, stack, state⟩
            ⟨code', stack', state⟩

/-- If every tag is placed once, then the deduplicator returns and keeps the meaning. -/
theorem deduplicate_keepsMeaning (items : List AssemblyItem) (hitems : TagsPlacedOnce items) :
    ∃ r n, (∀ fuel, n ≤ fuel → deduplicate fuel items = some r) ∧ KeepsMeaning items r := by
  obtain ⟨r, n, hr, hrel, hreplaced⟩ := deduplicate_unified hitems
  have heqv := SameBlock.equivalence (interchangeable_equivalence items)
  have hrefl := (interchangeable_equivalence items).refl
  have hjump : SameJumps (Interchangeable items) (SameAhead (Interchangeable items)) items
      r.items := fun t t' h => sameAhead_of_sameBlock
    (heqv.trans (isSimulation_interchangeable t t' h) (sameBlock_blockAt hrel t'))
  refine ⟨r, n, hr, ?_, ?_⟩
  · intro World k stack stack' state hstack
    exact behaveAlike hrefl hjump ⟨forall₂_blockItems (List.forall₂_drop k hrel), hstack, rfl⟩
  · intro d e hde
    obtain ⟨hd, he, hE⟩ := hreplaced d e hde
    obtain ⟨i, hi⟩ := List.getElem?_of_mem hd
    obtain ⟨j, hj⟩ := List.getElem?_of_mem he
    have hcode := codeAt_eq hitems hi
    have hcode' := codeAt_eq (tagsPlacedOnce_congr hrel hitems) ((rel_getElem?_tag hrel).mpr hj)
    refine ⟨_, _, hcode, hcode', fun World stack stack' state hstack => ?_⟩
    have hahead := hjump _ _ hE
    rw [hcode, hcode'] at hahead
    cases hahead with
    | some hahead => exact behaveAlike hrefl hjump ⟨hahead, hstack, rfl⟩

/-- Two loops that are equal up to their own tags. -/
def twoLoops : List AssemblyItem :=
  [.pushTag 2, .operation .jumpi, .tag 1, .push 7, .operation .pop, .pushTag 1, .operation .jump,
    .tag 2, .push 7, .operation .pop, .pushTag 2, .operation .jump]

theorem deduplicate_keepsMeaning_twoLoops :
    ∃ r n, (∀ fuel, n ≤ fuel → deduplicate fuel twoLoops = some r) ∧ KeepsMeaning twoLoops r := by
  apply deduplicate_keepsMeaning
  refine ⟨by decide, fun d hd => ?_⟩
  have hd' : d = 1 ∨ d = 2 := by simpa [twoLoops] using hd
  rcases hd' with rfl | rfl <;> simp

/-- Two blocks that store their positions; the second one is entered. -/
def storePosition : List AssemblyItem :=
  [.pushTag 2, .operation .jump, .tag 1, .operation .pc, .push 0, .operation .sstore,
    .operation .stop, .tag 2, .operation .pc, .push 0, .operation .sstore, .operation .stop]

/-- A tag that is placed twice. -/
def tagTwice : List AssemblyItem :=
  [.pushTag 1, .operation .jump, .tag 1, .operation .stop, .tag 1, .operation .stop]

/-- A tag that is not one of the code itself. -/
def foreignTag : List AssemblyItem :=
  [.pushTag 1, .operation .jump, .tag 0x10000000000000002, .operation .stop, .tag 1,
    .operation .stop]

/-- `PC` yields the number of items ahead. -/
def numberedLayout : Layout where
  pc n := some (.ofNat 256 n)
  gas _ _ := none
  pushed _ := 0
  tagAt _ := none

lemma findReplacements_tagTwice (m : ReplacedTags) :
    findReplacements tagTwice m = m.insert 1 1 := by
  rfl

lemma replaceTag_tagTwice (m : ReplacedTags) :
    replaceTag (m.insert 1 1) noSub (.pushTag 1) = some (.pushTag 1) := by
  have hsplit : splitForeignPushTag 1 = (noSub, 1) := by decide
  have hjoin : joinPushTag noSub ((1 : Word).toNat % 2 ^ 64) = 1 := by decide
  have hget : (m.insert 1 1)[BitVec.ofNat 256 1]? = some 1 := Std.TreeMap.getElem?_insert_self
  rw [replaceTag, hsplit, if_pos rfl, hget, Option.map_some, hjoin]

lemma applyTagReplacement_tagTwice (m : ReplacedTags) :
    applyTagReplacement tagTwice (m.insert 1 1) noSub = (tagTwice, true) := by
  rw [applyTagReplacement, tagTwice, List.map_cons, List.any_cons, replaceTag_tagTwice]
  rfl

lemma deduplicateLoop_tagTwice (fuel : Nat) (m : ReplacedTags) (k : Nat) :
    deduplicateLoop fuel tagTwice m k = none := by
  induction fuel generalizing m k with
  | zero => rfl
  | succ fuel ih =>
    rw [deduplicateLoop, findReplacements_tagTwice, applyTagReplacement_tagTwice]
    exact ih _ _

/-- The run from the first item ends with the outcome. -/
def RunsTo (items : List AssemblyItem) (o : Outcome Unit) : Prop :=
  Ends (execStep default numberedLayout items) ⟨items, [], default⟩ o

/-- Positions are observed, the loop does not end, and a push tag gets lost. -/
theorem deduplicate_changesMeaning :
    (∃ r s s', deduplicate 2 storePosition = some r ∧
      RunsTo storePosition (.halt .stop [] s) ∧ RunsTo r.items (.halt .stop [] s') ∧
      s.storage 0 ≠ s'.storage 0) ∧
    (∀ fuel, deduplicate fuel tagTwice = none) ∧
    ∃ r s, deduplicate 2 foreignTag = some r ∧
      RunsTo foreignTag (.halt .stop [] s) ∧ RunsTo r.items (.fault .badDestination) := by
  refine ⟨⟨_, _, _, rfl, ⟨6, rfl⟩, ⟨6, rfl⟩, ?_⟩, fun fuel => ?_, ⟨_, _, rfl, ⟨6, rfl⟩, ⟨6, rfl⟩⟩⟩
  · decide
  · exact deduplicateLoop_tagTwice fuel ∅ 0

end BlockDeduplicator

end Sof
