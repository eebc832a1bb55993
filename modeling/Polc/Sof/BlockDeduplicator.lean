import Polc.Sof.AssemblyItem

/-!
# The block deduplicator

`libsvmasm/BlockDeduplicator.cpp`: basic blocks that share content are unified, until nothing
changes. The loop stops when every tag is placed once, since a replaced tag is then placed
behind the one that replaces it.
-/

namespace Sof

open AssemblyItem List Bool

/-- The tags that were replaced, and the tags they were replaced by. -/
abbrev ReplacedTags := Std.TreeMap Word Word

namespace BlockDeduplicator

/-- Virtual tag that signifies the current block and which is used to optimise loops. -/
def pushSelf : AssemblyItem := .pushTag (-4)

/-- The items of the block at the start of the code, without tags. The block may fall through
to the next ones. -/
def blockItems : List AssemblyItem → List AssemblyItem
  | [] => []
  | i :: rest =>
    if i.placedTag.isSome then blockItems rest
    else if endsBlock i then [i]
    else i :: blockItems rest

/-- The push tag of the block at an index. -/
def pushOwnTag (items : List AssemblyItem) (i : Nat) : AssemblyItem :=
  match items[i]? with
  | some (.tag d) => .pushTag d
  | _ => pushSelf

/-- What blocks are compared by. -/
def blockKey (items : List AssemblyItem) (i : Nat) : List AssemblyItem :=
  (blockItems (items.drop i)).map fun item =>
    if item = pushOwnTag items i then pushSelf else item

def lexicographicalCompare : List AssemblyItem → List AssemblyItem → Bool
  | [], [] => false
  | [], _ :: _ => true
  | _ :: _, [] => false
  | a :: as, b :: bs =>
    if a.lt b then true else if b.lt a then false else lexicographicalCompare as bs

/-- Compares indices based on the suffix that starts there. -/
def comparator (items : List AssemblyItem) (i j : Nat) : Bool :=
  if i = j then false else lexicographicalCompare (blockKey items i) (blockKey items j)

/-- Note the block at an index as seen, or its tag as replaced by the one of an equal block. -/
def visitBlock (items : List AssemblyItem) (r : List Nat × ReplacedTags) (i : Nat) :
    List Nat × ReplacedTags :=
  match items[i]? with
  | some (.tag d) =>
    match r.1.find? fun j => !comparator items j i && !comparator items i j with
    | some j => (r.1, r.2.insert d ((items[j]?.bind (·.data)).getD 0))
    | none => (r.1 ++ [i], r.2)
  | _ => r

/-- The replaced tags after all blocks have been compared. -/
def findReplacements (items : List AssemblyItem) (replacedTags : ReplacedTags) : ReplacedTags :=
  ((List.range items.length).foldl (visitBlock items) ([], replacedTags)).2

/-- What the item becomes if it pushes a replaced tag of the sub-assembly. -/
def replaceTag (replacements : ReplacedTags) (subId : Nat) : AssemblyItem → Option AssemblyItem
  | .pushTag d =>
    if (splitForeignPushTag d).1 = subId then
      replacements[BitVec.ofNat 256 (splitForeignPushTag d).2]?.map fun e =>
        .pushTag (joinPushTag subId (e.toNat % 2 ^ 64))
    else none
  | _ => none

/-- Replace all push tags of the sub-assembly, and say whether a replacement was performed. -/
def applyTagReplacement (items : List AssemblyItem) (replacements : ReplacedTags) (subId : Nat) :
    List AssemblyItem × Bool :=
  (items.map fun i => (replaceTag replacements subId i).getD i,
    items.any fun i => (replaceTag replacements subId i).isSome)

/-- The items and the tags replaced, and whether something was changed. -/
structure Result where
  items : List AssemblyItem
  replacedTags : ReplacedTags
  changed : Bool

/-- The loop of `deduplicate`. -/
def deduplicateLoop : Nat → List AssemblyItem → ReplacedTags → Nat → Option Result
  | 0, _, _, _ => none
  | fuel + 1, items, replacedTags, iterations =>
    let replacedTags := findReplacements items replacedTags
    let r := applyTagReplacement items replacedTags noSub
    if r.2 then deduplicateLoop fuel r.1 replacedTags (iterations + 1)
    else some ⟨r.1, replacedTags, 0 < iterations⟩

/-- Unify blocks that share content. Nothing is done if the virtual tag actually exists. -/
def deduplicate (fuel : Nat) (items : List AssemblyItem) : Option Result :=
  if items.contains (.tag (-4)) || items.contains pushSelf then some ⟨items, ∅, false⟩
  else deduplicateLoop fuel items ∅ 0

/-! ### Equal blocks -/

lemma eq_of_lexicographicalCompare {as bs : List AssemblyItem}
    (h : lexicographicalCompare as bs = false) (h' : lexicographicalCompare bs as = false) :
    as = bs := by
  induction as generalizing bs with
  | nil =>
    cases bs with
    | nil => rfl
    | cons b bs => cases h
  | cons a as ih =>
    cases bs with
    | nil => cases h'
    | cons b bs =>
      rw [lexicographicalCompare] at h h'
      rcases hab : a.lt b with _ | _
      · rcases hba : b.lt a with _ | _
        · simp only [hab, hba, false_eq_true, if_false] at h h'
          rw [eq_of_not_lt hab hba, ih h h']
        · simp only [hba, if_true, true_eq_false] at h'
      · simp only [hab, if_true, true_eq_false] at h

/-- Tag `d` is placed behind tag `e`, and their blocks are equal. -/
def Duplicate (items : List AssemblyItem) (d e : Word) : Prop :=
  ∃ i j, j < i ∧ items[i]? = some (.tag d) ∧ items[j]? = some (.tag e) ∧
    blockKey items i = blockKey items j

variable {items : List AssemblyItem} {m : ReplacedTags}

lemma blockKey_eq_of_comparator {i j : Nat} (hij : j < i)
    (h : (!comparator items j i && !comparator items i j)) :
    blockKey items i = blockKey items j := by
  rw [and_eq_true, not_eq_true', not_eq_true', comparator, comparator,
    if_neg (Nat.ne_of_lt hij), if_neg (Nat.ne_of_gt hij)] at h
  exact eq_of_lexicographicalCompare h.2 h.1

/-- The tags of the blocks seen before index `n`. -/
def SeenBefore (items : List AssemblyItem) (n : Nat) (seen : List Nat) : Prop :=
  ∀ j ∈ seen, j < n ∧ ∃ e, items[j]? = some (.tag e)

lemma seenBefore_visitBlock {n : Nat} {r : List Nat × ReplacedTags}
    (h : SeenBefore items n r.1) : SeenBefore items (n + 1) (visitBlock items r n).1 := by
  have hmono : SeenBefore items (n + 1) r.1 := fun j hj => ⟨(h j hj).1.trans n.lt_succ_self,
    (h j hj).2⟩
  rw [visitBlock]
  split
  · rename_i d hd
    split
    · exact hmono
    · intro j hj
      rcases mem_append.mp hj with hj | hj
      · exact hmono j hj
      · rw [mem_singleton.mp hj]
        exact ⟨n.lt_succ_self, d, hd⟩
  · exact hmono

/-- What holds of all duplicates and of the tags replaced before holds of all replaced tags. -/
lemma findReplacements_induction {P : Word → Word → Prop}
    (hm : ∀ d e, m[d]? = some e → P d e) (hnew : ∀ d e, Duplicate items d e → P d e) :
    ∀ d e, (findReplacements items m)[d]? = some e → P d e := by
  suffices h : ∀ n, SeenBefore items n ((List.range n).foldl (visitBlock items) ([], m)).1 ∧
      ∀ d e, ((List.range n).foldl (visitBlock items) ([], m)).2[d]? = some e → P d e from
    (h items.length).2
  intro n
  induction n with
  | zero => exact ⟨nofun, hm⟩
  | succ n ih =>
    rw [range_succ, foldl_append, foldl_cons, foldl_nil]
    generalize (List.range n).foldl (visitBlock items) ([], m) = r at ih ⊢
    obtain ⟨hseen, hP⟩ := ih
    refine ⟨seenBefore_visitBlock hseen, ?_⟩
    rw [visitBlock]
    split
    · rename_i d hd
      split
      · rename_i j hj
        obtain ⟨hlt, e, he⟩ := hseen j (mem_of_find?_eq_some hj)
        have hfound : (!comparator items j n && !comparator items n j) = true :=
          find?_some (p := fun j => !comparator items j n && !comparator items n j) hj
        have hkey := blockKey_eq_of_comparator hlt hfound
        intro d' e' hde
        rw [Std.TreeMap.getElem?_insert] at hde
        split_ifs at hde with hd'
        · cases Option.some.inj hde
          cases Std.LawfulEqCmp.eq_of_compare hd'
          rw [he]
          exact hnew d e ⟨n, j, hlt, hd, he, hkey⟩
        · exact hP d' e' hde
      · exact hP
    · exact hP

lemma replaceTag_eq_some {subId : Nat} {i i' : AssemblyItem}
    (h : replaceTag m subId i = some i') :
    ∃ d e, i = .pushTag d ∧ (splitForeignPushTag d).1 = subId ∧
      m[BitVec.ofNat 256 (splitForeignPushTag d).2]? = some e ∧
      i' = .pushTag (joinPushTag subId (e.toNat % 2 ^ 64)) := by
  cases i with
  | pushTag d =>
    rw [replaceTag] at h
    split_ifs at h with hsub
    obtain ⟨e, he, rfl⟩ := Option.map_eq_some_iff.mp h
    exact ⟨d, e, rfl, hsub, he, rfl⟩
  | _ => cases h

/-- What every round keeps holds in the end, and the end is reached if the rounds that change
something make a measure smaller. -/
theorem deduplicateLoop_of_invariant {Inv : List AssemblyItem → ReplacedTags → Prop}
    (μ : List AssemblyItem → Nat)
    (hround : ∀ items m, Inv items m →
      Inv (applyTagReplacement items (findReplacements items m) noSub).1
        (findReplacements items m) ∧
      ((applyTagReplacement items (findReplacements items m) noSub).2 →
        μ (applyTagReplacement items (findReplacements items m) noSub).1 < μ items))
    (h : Inv items m) (k : Nat) :
    ∃ r n, (∀ fuel, n ≤ fuel → deduplicateLoop fuel items m k = some r) ∧
      Inv r.items r.replacedTags := by
  induction hμ : μ items using Nat.strongRecOn generalizing items m k with
  | ind l ih =>
    obtain ⟨hInv, hlt⟩ := hround items m h
    by_cases hchanged : (applyTagReplacement items (findReplacements items m) noSub).2 = true
    · obtain ⟨r, n, hr, hInv'⟩ := ih _ (hμ ▸ hlt hchanged) hInv (k + 1) rfl
      refine ⟨r, n + 1, fun fuel hfuel => ?_, hInv'⟩
      obtain ⟨fuel, rfl⟩ := Nat.exists_eq_add_of_le' (Nat.le_trans (Nat.le_add_left 1 n) hfuel)
      rw [deduplicateLoop]
      exact (if_pos hchanged).trans (hr fuel (Nat.le_of_succ_le_succ hfuel))
    · refine ⟨⟨_, _, 0 < k⟩, 1, fun fuel hfuel => ?_, hInv⟩
      obtain ⟨fuel, rfl⟩ := Nat.exists_eq_add_of_le' hfuel
      rw [deduplicateLoop]
      exact if_neg hchanged

/-- Every tag is placed once, and is not one of a sub-assembly. -/
structure TagsPlacedOnce (items : List AssemblyItem) : Prop where
  nodup : (items.filterMap placedTag).Nodup
  lt : ∀ d, .tag d ∈ items → d.toNat < 2 ^ 64

/-- The index at which a tag is placed. -/
def placeOf (items : List AssemblyItem) (d : Word) : Nat :=
  items.findIdx (· = .tag d)

lemma TagsPlacedOnce.index_eq (h : TagsPlacedOnce items) {i j : Nat} {d : Word}
    (hi : items[i]? = some (.tag d)) (hj : items[j]? = some (.tag d)) : i = j := by
  have hpair := pairwise_filterMap.mp h.nodup
  have hne : ∀ i j : Nat, i < j → items[i]? = some (tag d) → items[j]? = some (tag d) → False := by
    intro i j hij hi hj
    obtain ⟨hi', hi⟩ := List.getElem?_eq_some_iff.mp hi
    obtain ⟨hj', hj⟩ := List.getElem?_eq_some_iff.mp hj
    exact pairwise_iff_getElem.mp hpair i j hi' hj' hij d (placedTag_eq_some.mpr hi) d
      (placedTag_eq_some.mpr hj) rfl
  rcases Nat.lt_trichotomy i j with hij | rfl | hij
  · exact (hne i j hij hi hj).elim
  · rfl
  · exact (hne j i hij hj hi).elim

lemma TagsPlacedOnce.placeOf_eq (h : TagsPlacedOnce items) {i : Nat} {d : Word}
    (hi : items[i]? = some (.tag d)) : placeOf items d = i := by
  obtain ⟨hlt, hi'⟩ := List.getElem?_eq_some_iff.mp hi
  have hfound : items.findIdx (· = .tag d) < items.length :=
    findIdx_lt_length.mpr ⟨_, getElem_mem hlt, decide_eq_true hi'⟩
  apply h.index_eq _ hi
  rw [placeOf, getElem?_eq_getElem hfound]
  exact congrArg some (of_decide_eq_true (findIdx_getElem (w := hfound)))

end BlockDeduplicator

end Sof
