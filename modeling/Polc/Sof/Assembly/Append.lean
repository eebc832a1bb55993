import Polc.Sof.Assembly

/-!
# Appending an assembly to another one

What `Assembly::append(Assembly const&)` does to references: exactly which items refer in the
result to what they referred to before.
-/

namespace Sof

open AssemblyItem List BitVec
open Option (bind_eq_some_iff isSome_iff_exists map_eq_some_iff map_some)

lemma getElem?_foldl_insertIfNew (l : List (Word × List Byte)) (m : Std.TreeMap Word (List Byte))
    (k : Word) :
    (l.foldl (fun m e => m.insertIfNew e.1 e.2) m)[k]? = m[k]?.or (l.lookup k) := by
  induction l generalizing m with
  | nil => simp
  | cons e l ih =>
    obtain ⟨k', v⟩ := e
    rw [foldl_cons, ih, Std.TreeMap.getElem?_insertIfNew, lookup_cons]
    by_cases hk : k' = k
    · subst hk
      by_cases hm : k' ∈ m <;> simp [hm]
    · have hk' : (k == k') = false := beq_false_of_ne (Ne.symm hk)
      simp [hk, hk']

lemma getElem?_insertAll (m n : Std.TreeMap Word (List Byte)) (k : Word) :
    (insertAll m n)[k]? = m[k]?.or n[k]? := by
  rw [insertAll, Std.TreeMap.foldl_eq_foldl_toList, getElem?_foldl_insertIfNew, lookup_toList]

namespace Assembly

variable {a b r : Assembly}

lemma foldlM_appendItem (l : List AssemblyItem)
    (h : l.foldlM (fun (r : Assembly) i => r.appendItem (r.relocate i)) a = some r) :
    r = { a with items := a.items ++ l.map a.relocate, deposit := r.deposit } := by
  induction l generalizing a with
  | nil =>
    cases h
    cases r
    simp only [map_nil, append_nil]
  | cons i l ih =>
    rw [foldlM_cons] at h
    obtain ⟨a', ha', hl⟩ := bind_eq_some_iff.mp h
    rw [appendItem] at ha'
    split_ifs at ha'
    cases ha'
    rw [ih hl]
    have hrelocate : ∀ d x, relocate { a with deposit := d, items := x } = a.relocate := by
      intro d x
      funext i
      cases i <;> rfl
    simp [hrelocate]

lemma append_eq (h : a.append b = some r) :
    r.items = a.items ++ b.items.map a.relocate ∧ r.subs = a.subs ++ b.subs ∧
      r.usedTags = (a.usedTags + b.usedTags) % 2 ^ 32 ∧ r.data = insertAll a.data b.data ∧
      r.strings = insertAll a.strings b.strings ∧
      r.libraries = insertAll a.libraries b.libraries := by
  rw [append, map_eq_some_iff] at h
  obtain ⟨r', hr', rfl⟩ := h
  have hfold := foldlM_appendItem _ hr'
  rw [hfold]
  simp

lemma splitForeignPushTag_add_snd (d : Word) (u : Nat) :
    (splitForeignPushTag (d + .ofNat 256 u)).2 = ((splitForeignPushTag d).2 + u) % 2 ^ 64 := by
  simp only [splitForeignPushTag, toNat_add, toNat_ofNat]
  omega

lemma splitForeignPushTag_add {d : Word} {u : Nat}
    (h : (splitForeignPushTag d).2 + u < 2 ^ 64) :
    splitForeignPushTag (d + .ofNat 256 u) =
      ((splitForeignPushTag d).1, (splitForeignPushTag d).2 + u) := by
  have hd := d.isLt
  simp only [splitForeignPushTag] at h
  have hshift : (d + .ofNat 256 u) >>> 64 = d >>> 64 := by
    apply eq_of_toNat_eq
    simp only [toNat_ushiftRight, toNat_add, toNat_ofNat,
      Nat.shiftRight_eq_div_pow]
    omega
  simp only [splitForeignPushTag, hshift, toNat_add, toNat_ofNat, Prod.mk.injEq,
    true_and]
  omega

lemma splitForeignPushTag_snd_lt (d : Word) : (splitForeignPushTag d).2 < 2 ^ 64 :=
  Nat.mod_lt _ (by decide)

lemma tagTarget_inj {t t' : Nat} {x : TagTarget} (ht : t < 2 ^ 64) (ht' : t' < 2 ^ 64)
    (h : a.tagTarget t = some x) (h' : a.tagTarget t' = some x) : t = t' := by
  simp only [tagTarget] at h h'
  split_ifs at h h' with _ h0 _ h0' _ h0'
  · exact h0.trans h0'.symm
  · obtain ⟨k, -, rfl⟩ := map_eq_some_iff.mp h
    obtain ⟨k', -, hne⟩ := map_eq_some_iff.mp h'
    cases hne
  · obtain ⟨k', -, rfl⟩ := map_eq_some_iff.mp h'
    obtain ⟨k, -, hne⟩ := map_eq_some_iff.mp h
    cases hne
  · obtain ⟨k, hk, rfl⟩ := map_eq_some_iff.mp h
    obtain ⟨k', hk', heq⟩ := map_eq_some_iff.mp h'
    cases heq
    obtain ⟨_, hi, -⟩ := findIdx?_eq_some_iff_getElem.mp hk
    obtain ⟨_, hi', -⟩ := findIdx?_eq_some_iff_getElem.mp hk'
    have htag := (of_decide_eq_true hi).symm.trans (of_decide_eq_true hi')
    injection htag with htag
    have hnat := congrArg BitVec.toNat htag
    simp only [toNat_ofNat] at hnat
    omega

lemma tagTarget_eq_none {t : Nat} (h0 : t ≠ 0) (h : .tag (.ofNat 256 t) ∉ a.items) :
    a.tagTarget t = none := by
  have hnone : a.items.findIdx? (· = .tag (.ofNat 256 t)) = none := by
    rw [findIdx?_eq_none_iff]
    intro i hi
    exact decide_eq_false (fun heq => h (heq ▸ hi))
  rw [tagTarget, hnone, if_neg h0]
  split_ifs <;> rfl

lemma tagTarget_kept (h : a.append b = some r) {t : Nat} {x : TagTarget}
    (ht : a.tagTarget t = some x) (hr : t < r.usedTags) : r.tagTarget t = some x := by
  obtain ⟨hitems, -⟩ := append_eq h
  rw [tagTarget, if_pos (tagTarget_lt ht)] at ht
  rw [tagTarget, if_pos hr]
  split_ifs at ht ⊢ with h0
  · obtain ⟨k, hk, rfl⟩ := map_eq_some_iff.mp ht
    rw [hitems, findIdx?_append, hk]
    rfl
  · obtain ⟨k, hk, rfl⟩ := map_eq_some_iff.mp ht
    rw [hitems, findIdx?_append, hk]
    rfl

/-- The tag counter after `append`. -/
def mergedTags (a b : Assembly) : Nat := (a.usedTags + b.usedTags) % 2 ^ 32

/-- The item's tag is below the merged tag counter. -/
def Keeps (a b : Assembly) : AssemblyItem → Prop
  | .tag d => d.toNat < mergedTags a b
  | .pushTag d =>
    (splitForeignPushTag d).1 = noSub → (splitForeignPushTag d).2 < mergedTags a b
  | _ => True

/-- An item of `a` keeps its reference exactly if the tag counter stays above its tag. -/
lemma target_kept_iff (h : a.append b = some r) {i : AssemblyItem} (hi : (a.target i).isSome) :
    r.target i = a.target i ↔ a.Keeps b i := by
  obtain ⟨-, hsubs, hused, hdata, hstrings, hlibraries⟩ := append_eq h
  obtain ⟨x, hx⟩ := isSome_iff_exists.mp hi
  cases i with
  | tag d =>
    obtain ⟨y, hy, rfl⟩ := map_eq_some_iff.mp hx
    rw [Keeps, mergedTags, ← hused]
    constructor
    · intro heq
      obtain ⟨z, hz, -⟩ := map_eq_some_iff.mp (heq.trans hx)
      exact tagTarget_lt hz
    · intro hlt
      rw [target, target, tagTarget_kept h hy hlt, hy]
  | pushTag d =>
    rw [target, pushTagTarget] at hx
    rw [target, target, pushTagTarget, pushTagTarget, Keeps, mergedTags, ← hused]
    split_ifs at hx ⊢ with hlocal
    · obtain ⟨y, hy, rfl⟩ := map_eq_some_iff.mp hx
      simp only [hlocal, true_implies]
      constructor
      · intro heq
        obtain ⟨z, hz, -⟩ := map_eq_some_iff.mp (heq.trans hx)
        exact tagTarget_lt hz
      · intro hlt
        rw [tagTarget_kept h hy hlt, hy]
    · obtain ⟨s, hs, -⟩ := bind_eq_some_iff.mp hx
      obtain ⟨hlt, -⟩ := List.getElem?_eq_some_iff.mp hs
      simp only [hsubs, getElem?_append_left hlt, hlocal, false_implies]
  | pushData k =>
    obtain ⟨v, hv, rfl⟩ := map_eq_some_iff.mp hx
    simp [target, Keeps, hdata, getElem?_insertAll, hv]
  | pushString k =>
    obtain ⟨v, hv, rfl⟩ := map_eq_some_iff.mp hx
    simp [target, Keeps, hstrings, getElem?_insertAll, hv]
  | pushLibraryAddress k =>
    obtain ⟨v, hv, rfl⟩ := map_eq_some_iff.mp hx
    simp [target, Keeps, hlibraries, getElem?_insertAll, hv]
  | pushSub d | pushSubSize d =>
    obtain ⟨s, hs, rfl⟩ := map_eq_some_iff.mp hx
    obtain ⟨hlt, -⟩ := List.getElem?_eq_some_iff.mp hs
    simp only [target, Keeps, hsubs, getElem?_append_left hlt]
  | undefinedItem _ => cases hx
  | operation _ | push _ | pushProgramSize _ | pushDeployTimeAddress _ =>
    simp only [target, Keeps]

end Assembly

/-! ### References of the items that were added -/

/-- The target that lies `items` items and `subs` sub-assemblies further on. -/
def TagTarget.shift (items : Nat) : TagTarget → TagTarget
  | invalidDestination i => invalidDestination (items + i)
  | item i => item (items + i)

def Target.shift (items subs : Nat) : Target → Target
  | label t => label (t.shift items)
  | destination t => destination (t.shift items)
  | subDestination s sub t => subDestination (subs + s) sub t
  | subOffset s sub => subOffset (subs + s) sub
  | subSize s sub => subSize (subs + s) sub
  | t => t

namespace Assembly

variable {a b r : Assembly}

/-- The item of `b` refers in the result to what it referred to in `b`. -/
def Relocates (a b : Assembly) : AssemblyItem → Prop
  | .tag d => d.toNat + a.usedTags < mergedTags a b
  | .pushTag d =>
    (splitForeignPushTag d).1 = noSub ∧ (splitForeignPushTag d).2 ≠ 0 ∧
      (splitForeignPushTag d).2 + a.usedTags < mergedTags a b
  | .pushData h => ∀ v, a.data[h]? = some v → b.data[h]? = some v
  | .pushString h => ∀ v, a.strings[h]? = some v → b.strings[h]? = some v
  | .pushLibraryAddress h => ∀ v, a.libraries[h]? = some v → b.libraries[h]? = some v
  | _ => True

lemma relocate_eq_tag (i : AssemblyItem) (t : Nat) :
    a.relocate i = .tag (.ofNat 256 (t + a.usedTags)) ↔ i = .tag (.ofNat 256 t) := by
  cases i <;> simp [relocate, ofNat_add]

lemma tag_notMem_of_le (ha : a.WellFormed) {t : Nat} (ht : t < 2 ^ 64) (hle : a.usedTags ≤ t) :
    .tag (.ofNat 256 t) ∉ a.items := by
  intro hmem
  have hlt := ha.tag_lt _ (mem_tags.mpr hmem)
  rw [toNat_ofNat, Nat.mod_eq_of_lt (ht.trans (by decide))] at hlt
  omega

lemma tagTarget_relocated (ha : a.WellFormed) (h : a.append b = some r) {t : Nat} {x : TagTarget}
    (h0 : t ≠ 0) (ht : b.tagTarget t = some x) (hr : t + a.usedTags < r.usedTags) :
    r.tagTarget (t + a.usedTags) = some (x.shift a.items.length) := by
  obtain ⟨hitems, -, hused, -⟩ := append_eq h
  have hlt : r.usedTags < 2 ^ 32 := hused ▸ Nat.mod_lt _ (by decide)
  rw [tagTarget, if_pos (tagTarget_lt ht), if_neg h0] at ht
  obtain ⟨k, hk, rfl⟩ := map_eq_some_iff.mp ht
  have hleft : a.items.findIdx? (· = .tag (.ofNat 256 (t + a.usedTags))) = none := by
    rw [findIdx?_eq_none_iff]
    intro i hi
    refine decide_eq_false fun heq => ?_
    exact tag_notMem_of_le ha (by omega) (Nat.le_add_left _ _) (heq ▸ hi)
  have hright : (fun i => decide (i = .tag (.ofNat 256 (t + a.usedTags)))) ∘ a.relocate =
      fun i => decide (i = .tag (.ofNat 256 t)) := by
    funext i
    exact decide_eq_decide.mpr (relocate_eq_tag i t)
  rw [tagTarget, if_pos hr, if_neg (by omega), hitems, findIdx?_append, hleft,
    findIdx?_map, hright, hk, Option.none_or, map_some, map_some,
    TagTarget.shift, Nat.add_comm]

lemma tagTarget_usedTags (ha : a.WellFormed) (hb : b.WellFormed) (h : a.append b = some r) :
    r.tagTarget a.usedTags = none := by
  obtain ⟨hitems, -⟩ := append_eq h
  have hpos := ha.usedTags_pos
  have hlt := ha.usedTags_lt
  refine tagTarget_eq_none hpos.ne' fun hmem => ?_
  rw [hitems, mem_append, mem_map] at hmem
  rcases hmem with hmem | ⟨i, hi, heq⟩
  · exact tag_notMem_of_le ha (by omega) le_rfl hmem
  · rw [← Nat.zero_add a.usedTags, relocate_eq_tag] at heq
    exact absurd (hb.tag_pos _ (mem_tags.mpr (heq ▸ hi))) (by decide)

lemma relocated_tag_iff (ha : a.WellFormed) (hb : b.WellFormed) (h : a.append b = some r)
    {d : Word} (hmem : .tag d ∈ b.items) :
    r.target (a.relocate (.tag d)) =
        (b.target (.tag d)).map (.shift a.items.length a.subs.length) ↔
      a.Relocates b (.tag d) := by
  obtain ⟨-, -, hused, -⟩ := append_eq h
  obtain ⟨x, hx⟩ := isSome_iff_exists.mp (hb.resolves _ hmem)
  obtain ⟨y, hy, rfl⟩ := map_eq_some_iff.mp hx
  have hpos := hb.tag_pos _ (mem_tags.mpr hmem)
  have hbelow := hb.tag_lt _ (mem_tags.mpr hmem)
  have hda : (d + .ofNat 256 a.usedTags).toNat = d.toNat + a.usedTags := by
    have := ha.usedTags_lt
    have := hb.usedTags_lt
    rw [toNat_add, toNat_ofNat]
    omega
  rw [Relocates, mergedTags, ← hused, hx, relocate, target, hda, map_some, Target.shift]
  constructor
  · intro heq
    obtain ⟨z, hz, -⟩ := map_eq_some_iff.mp heq
    exact tagTarget_lt hz
  · intro hlt
    rw [tagTarget_relocated ha h hpos.ne' hy hlt]
    rfl

lemma relocated_pushTag_iff_of_local (ha : a.WellFormed) (hb : b.WellFormed)
    (h : a.append b = some r) {d : Word} (hmem : .pushTag d ∈ b.items)
    (hlocal : (splitForeignPushTag d).1 = noSub) :
    r.target (a.relocate (.pushTag d)) =
        (b.target (.pushTag d)).map (.shift a.items.length a.subs.length) ↔
      a.Relocates b (.pushTag d) := by
  obtain ⟨-, -, hused, -⟩ := append_eq h
  obtain ⟨x, hx⟩ := isSome_iff_exists.mp (hb.resolves _ hmem)
  have hx' := hx
  rw [target, pushTagTarget, if_pos hlocal] at hx'
  obtain ⟨y, hy, rfl⟩ := map_eq_some_iff.mp hx'
  have hsplit : splitForeignPushTag (d + .ofNat 256 a.usedTags) =
      (noSub, (splitForeignPushTag d).2 + a.usedTags) := by
    have := ha.usedTags_lt
    have := hb.usedTags_lt
    have := tagTarget_lt hy
    rw [splitForeignPushTag_add (by omega), hlocal]
  rw [Relocates, mergedTags, ← hused, hx, relocate, target, pushTagTarget, hsplit, if_pos rfl,
    map_some, Target.shift]
  by_cases h0 : (splitForeignPushTag d).2 = 0
  · rw [h0, Nat.zero_add, tagTarget_usedTags ha hb h]
    simp
  · constructor
    · intro heq
      obtain ⟨z, hz, -⟩ := map_eq_some_iff.mp heq
      exact ⟨hlocal, h0, tagTarget_lt hz⟩
    · rintro ⟨-, -, hlt⟩
      rw [tagTarget_relocated ha h h0 hy hlt]
      rfl

/-- A push of a tag of a sub-assembly of `b` never refers to that tag any more: the tag number
is changed although the sub-assembly is not. -/
lemma relocated_pushTag_ne_of_foreign (ha : a.WellFormed) (hb : b.WellFormed)
    {d : Word} (hmem : .pushTag d ∈ b.items)
    (hforeign : (splitForeignPushTag d).1 ≠ noSub) :
    r.target (a.relocate (.pushTag d)) ≠
      (b.target (.pushTag d)).map (.shift a.items.length a.subs.length) := by
  obtain ⟨x, hx⟩ := isSome_iff_exists.mp (hb.resolves _ hmem)
  have hx' := hx
  rw [target, pushTagTarget, if_neg hforeign] at hx'
  obtain ⟨sub, -, hsub⟩ := bind_eq_some_iff.mp hx'
  obtain ⟨y, hy, rfl⟩ := map_eq_some_iff.mp hsub
  rw [hx, relocate, target, pushTagTarget]
  intro heq
  split_ifs at heq
  · obtain ⟨z, -, hz⟩ := map_eq_some_iff.mp heq
    cases hz
  · obtain ⟨sub', -, hsub'⟩ := bind_eq_some_iff.mp heq
    obtain ⟨y', hy', hz⟩ := map_eq_some_iff.mp hsub'
    injection hz with _ hsubs hys
    subst hsubs hys
    have hsame := tagTarget_inj (splitForeignPushTag_snd_lt _) (splitForeignPushTag_snd_lt _) hy' hy
    rw [splitForeignPushTag_add_snd] at hsame
    have := ha.usedTags_pos
    have := ha.usedTags_lt
    have := splitForeignPushTag_snd_lt d
    omega

lemma sub_relocated (ha : a.WellFormed) (hb : b.WellFormed) (h : a.append b = some r) {d : Word}
    {sub : Assembly} (hd : b.subs[d.toNat % 2 ^ 64]? = some sub) :
    (d + .ofNat 256 a.subs.length).toNat % 2 ^ 64 = a.subs.length + d.toNat % 2 ^ 64 ∧
      r.subs[a.subs.length + d.toNat % 2 ^ 64]? = some sub := by
  obtain ⟨-, hsubs, -⟩ := append_eq h
  obtain ⟨hlt, -⟩ := List.getElem?_eq_some_iff.mp hd
  constructor
  · have := ha.subs_length
    have := hb.subs_length
    rw [toNat_add, toNat_ofNat]
    omega
  · rw [hsubs, getElem?_append_right (Nat.le_add_right _ _), Nat.add_sub_cancel_left, hd]

/-- An item of `b` is relocated correctly exactly if it meets the condition for its kind. -/
lemma target_relocated_iff (ha : a.WellFormed) (hb : b.WellFormed) (h : a.append b = some r)
    {i : AssemblyItem} (hmem : i ∈ b.items) :
    r.target (a.relocate i) = (b.target i).map (.shift a.items.length a.subs.length) ↔
      a.Relocates b i := by
  obtain ⟨-, -, -, hdata, hstrings, hlibraries⟩ := append_eq h
  obtain ⟨x, hx⟩ := isSome_iff_exists.mp (hb.resolves _ hmem)
  cases i with
  | tag d => exact relocated_tag_iff ha hb h hmem
  | pushTag d =>
    by_cases hlocal : (splitForeignPushTag d).1 = noSub
    · exact relocated_pushTag_iff_of_local ha hb h hmem hlocal
    · exact iff_of_false (relocated_pushTag_ne_of_foreign ha hb hmem hlocal)
        fun hrel => hlocal hrel.1
  | pushData k =>
    obtain ⟨v, hv, rfl⟩ := map_eq_some_iff.mp hx
    rcases hk : a.data[k]? <;>
      simp [target, relocate, Relocates, hdata, getElem?_insertAll, hv, hk, Target.shift,
        eq_comm]
  | pushString k =>
    obtain ⟨v, hv, rfl⟩ := map_eq_some_iff.mp hx
    rcases hk : a.strings[k]? <;>
      simp [target, relocate, Relocates, hstrings, getElem?_insertAll, hv, hk, Target.shift,
        eq_comm]
  | pushLibraryAddress k =>
    obtain ⟨v, hv, rfl⟩ := map_eq_some_iff.mp hx
    rcases hk : a.libraries[k]? <;>
      simp [target, relocate, Relocates, hlibraries, getElem?_insertAll, hv, hk, Target.shift,
        eq_comm]
  | pushSub d | pushSubSize d =>
    obtain ⟨s, hs, rfl⟩ := map_eq_some_iff.mp hx
    obtain ⟨hid, hsub⟩ := sub_relocated ha hb h hs
    simp only [target, relocate, Relocates, hid, hsub, hs, map_some, Target.shift]
  | undefinedItem _ => cases hx
  | operation _ | push _ | pushProgramSize _ | pushDeployTimeAddress _ =>
    simp only [target, relocate, Relocates, map_some, Target.shift]

lemma placedTag_relocate (i : AssemblyItem) :
    (a.relocate i).placedTag = i.placedTag.map (· + .ofNat 256 a.usedTags) := by
  cases i <;> rfl

lemma tags_append (h : a.append b = some r) :
    r.tags = a.tags ++ b.tags.map (· + .ofNat 256 a.usedTags) := by
  obtain ⟨hitems, -⟩ := append_eq h
  simp only [tags, hitems, filterMap_append, filterMap_map, map_filterMap]
  congr 2
  funext i
  exact placedTag_relocate i

lemma tags_append_nodup (ha : a.WellFormed) (hb : b.WellFormed) (h : a.append b = some r) :
    r.tags.Nodup := by
  rw [tags_append h, nodup_append]
  refine ⟨ha.tags_nodup, hb.tags_nodup.map (add_left_injective _), ?_⟩
  intro d hd e he heq
  obtain ⟨e', he', rfl⟩ := mem_map.mp he
  have hd' := ha.tag_lt _ hd
  have := hb.tag_lt _ he'
  have := ha.usedTags_lt
  have := hb.usedTags_lt
  rw [heq, toNat_add, toNat_ofNat] at hd'
  omega

/-! ### The whole assembly -/

/-- In `r`, the items of `a` come first and refer to what they referred to in `a`, the items of
`b` follow and refer to what they referred to in `b`, now behind the contents of `a`, and no two
of the tags are the same. -/
structure AppendedCorrectly (a b r : Assembly) : Prop where
  length : r.items.length = a.items.length + b.items.length
  kept : ∀ (k : Nat) i, a.items[k]? = some i → r.items[k]? = some i ∧ r.target i = a.target i
  relocated : ∀ (k : Nat) i, b.items[k]? = some i →
    ∃ j, r.items[a.items.length + k]? = some j ∧
      r.target j = (b.target i).map (.shift a.items.length a.subs.length)
  tags_nodup : r.tags.Nodup

/-- `append` relocates all references correctly exactly if the appended assembly pushes neither
a tag of one of its sub-assemblies nor the special tag 0, entries of both assemblies under one
hash are the same, and no tag exceeds the merged tag counter. -/
theorem append_appendedCorrectly_iff (ha : a.WellFormed) (hb : b.WellFormed)
    (h : a.append b = some r) :
    AppendedCorrectly a b r ↔
      (∀ i ∈ a.items, a.Keeps b i) ∧ ∀ i ∈ b.items, a.Relocates b i := by
  obtain ⟨hitems, -⟩ := append_eq h
  have hright : ∀ k : Nat, r.items[a.items.length + k]? = b.items[k]?.map a.relocate := by
    intro k
    rw [hitems, getElem?_append_right (Nat.le_add_right _ _), Nat.add_sub_cancel_left,
      getElem?_map]
  constructor
  · intro hc
    constructor
    · intro i hi
      obtain ⟨k, hk⟩ := mem_iff_getElem?.mp hi
      exact (target_kept_iff h (ha.resolves i hi)).mp (hc.kept k i hk).2
    · intro i hi
      obtain ⟨k, hk⟩ := mem_iff_getElem?.mp hi
      obtain ⟨j, hj, htarget⟩ := hc.relocated k i hk
      rw [hright, hk] at hj
      cases hj
      exact (target_relocated_iff ha hb h hi).mp htarget
  · rintro ⟨hkeeps, hrelocates⟩
    have hlength : r.items.length = a.items.length + b.items.length := by
      rw [hitems, length_append, length_map]
    refine ⟨hlength, ?_, ?_, tags_append_nodup ha hb h⟩
    · intro k i hk
      have hi := mem_of_getElem? hk
      obtain ⟨hlt, -⟩ := List.getElem?_eq_some_iff.mp hk
      refine ⟨by rw [hitems, getElem?_append_left hlt, hk], ?_⟩
      exact (target_kept_iff h (ha.resolves i hi)).mpr (hkeeps i hi)
    · intro k i hk
      have hi := mem_of_getElem? hk
      refine ⟨a.relocate i, by rw [hright, hk, map_some], ?_⟩
      exact (target_relocated_iff ha hb h hi).mpr (hrelocates i hi)

/-- Jumps over a tag of its own and copies its only sub-assembly. -/
def copiesSub : Assembly where
  usedTags := 2
  items := [.pushTag 1, .operation .jump, .tag 1, .pushSub 0, .pushSubSize 0, .pushData 5]
  data := Std.TreeMap.empty.insert 5 [1, 2]
  subs := [{ usedTags := 2, items := [.tag 1] }]

lemma copiesSub_wellFormed : copiesSub.WellFormed := by
  have hlength : copiesSub.subs.length < 2 ^ 60 := by simp [copiesSub]
  have htags : ∀ d ∈ copiesSub.tags, 0 < d.toNat ∧ d.toNat < 2 := by
    simp [copiesSub, tags, placedTag]
  exact ⟨by decide, by decide, hlength, fun d hd => (htags d hd).1, fun d hd => (htags d hd).2,
    by decide, by decide⟩

theorem append_appendedCorrectly_copiesSub :
    ∃ r, copiesSub.append copiesSub = some r ∧ AppendedCorrectly copiesSub copiesSub r := by
  have h : (copiesSub.append copiesSub).isSome := by decide
  obtain ⟨r, hr⟩ := isSome_iff_exists.mp h
  have hkeeps : ∀ i ∈ copiesSub.items, copiesSub.Keeps copiesSub i := by
    simp [copiesSub, Keeps, splitForeignPushTag, mergedTags, noSub]
  have hrelocates : ∀ i ∈ copiesSub.items, copiesSub.Relocates copiesSub i := by
    simp [copiesSub, Relocates, splitForeignPushTag, mergedTags, noSub]
  exact ⟨r, hr, (append_appendedCorrectly_iff copiesSub_wellFormed copiesSub_wellFormed hr).mpr
    ⟨hkeeps, hrelocates⟩⟩

/-- Pushes tag 1 of its only sub-assembly. -/
def pushesTagOfSub : Assembly where
  items := [.pushTag (0x10000000000000001)]
  subs := [{ usedTags := 2, items := [.tag 1] }]

/-- The pushed tag of the sub-assembly becomes a tag that the sub-assembly does not have. -/
theorem append_pushesTagOfSub :
    copiesSub.WellFormed ∧ pushesTagOfSub.WellFormed ∧
      ∃ r, copiesSub.append pushesTagOfSub = some r ∧
        ¬ AppendedCorrectly copiesSub pushesTagOfSub r := by
  have hlength : pushesTagOfSub.subs.length < 2 ^ 60 := by simp [pushesTagOfSub]
  have hsub : pushesTagOfSub.WellFormed :=
    ⟨by decide, by decide, hlength, nofun, nofun, by decide, by decide⟩
  have h : (copiesSub.append pushesTagOfSub).isSome := by decide
  have hnone : ((copiesSub.append pushesTagOfSub).bind fun r =>
      r.items[6]?.bind r.target).isNone := by decide
  obtain ⟨r, hr⟩ := isSome_iff_exists.mp h
  refine ⟨copiesSub_wellFormed, hsub, r, hr, fun hc => ?_⟩
  obtain ⟨j, hj, htarget⟩ := hc.relocated 0 (.pushTag (0x10000000000000001)) rfl
  rw [hr, Option.bind_some, show r.items[6]? = some j from hj, Option.bind_some, htarget] at hnone
  exact absurd hnone (by decide)

section

variable {a r : Assembly}

lemma appendItem_eq {i : AssemblyItem} (h : a.appendItem i = some r) :
    0 ≤ a.deposit ∧ r = { a with deposit := a.deposit + i.deposit, items := a.items ++ [i] } := by
  rw [appendItem] at h
  split_ifs at h with hdeposit
  exact ⟨hdeposit, (Option.some.inj h).symm⟩

lemma newTag_eq {t : Word} (h : a.newTag = some (t, r)) : r = { a with usedTags := r.usedTags } := by
  rw [newTag] at h
  split_ifs at h
  cases h
  rfl

end

end Assembly

end Sof
