import Polc.Sof.Assembly.Assemble

/-!
# The layout of assembled code

Sizes and positions as sums over the items, without any bytes: what the numbers filled in by
`assemble` ought to be.
-/

namespace Sof

open Semantics List

/-- What a super-assembly reads of an assembled assembly. -/
structure Outline where
  size : Nat
  tagPositions : List (Option Nat)
  deriving DecidableEq

def Assembled.outline (o : Assembled) : Outline := ⟨o.object.bytecode.length, o.tagPositions⟩

namespace Assembly

/-- The estimate of the size of the code from which both widths are taken. -/
def bytesRequiredForCode (a : Assembly) (subs : List Outline) : Nat :=
  (a.bytesRequired (subTagSize (subs.map (·.tagPositions)))).getD 0

/-- The width of a tag. -/
def bytesPerTag (a : Assembly) (subs : List Outline) : Nat :=
  Semantics.bytesRequired (a.bytesRequiredForCode subs)

/-- The width of a reference to data, to a sub-assembly or to the size of the program. -/
def bytesPerDataRef (a : Assembly) (subs : List Outline) : Nat :=
  Semantics.bytesRequired
    (a.bytesRequiredIncludingData (a.bytesRequiredForCode subs) (subs.map (·.size)))

/-- The size of the sub-assembly with the given id, which is cut to 64 bits. -/
def subSize (subs : List Outline) (d : Word) : Nat :=
  (subs[d.toNat % 2 ^ 64]?.map (·.size)).getD 0

/-- The number of bytes the item really takes. -/
def itemSize (a : Assembly) (subs : List Outline) : AssemblyItem → Nat
  | .operation _ | .tag _ => 1
  | .pushString _ => 1 + 32
  | .push d => 1 + max 1 (Semantics.bytesRequired d.toNat)
  | .pushTag _ => 1 + a.bytesPerTag subs
  | .pushData _ | .pushSub _ | .pushProgramSize _ => 1 + a.bytesPerDataRef subs
  | .pushSubSize d => 1 + max 1 (Semantics.bytesRequired (subSize subs d))
  | .pushLibraryAddress _ | .pushDeployTimeAddress _ => 1 + 20
  | .undefinedItem _ => 0

/-- The position of item `k`. -/
def offset (a : Assembly) (subs : List Outline) (k : Nat) : Nat :=
  ((a.items.take k).map (a.itemSize subs)).sum

/-- The position of a tag, if there is one. -/
def tagOffset (a : Assembly) (subs : List Outline) (t : Nat) : Option Nat :=
  (a.tagTarget t).map fun target => a.offset subs target.index

/-- The position that a push of a tag stands for. -/
def pushedPosition (a : Assembly) (subs : List Outline) (d : Word) : Option Nat :=
  if (AssemblyItem.splitForeignPushTag d).1 = AssemblyItem.noSub then
    a.tagOffset subs (AssemblyItem.splitForeignPushTag d).2
  else
    subs[(AssemblyItem.splitForeignPushTag d).1]?.bind fun o =>
      o.tagPositions[(AssemblyItem.splitForeignPushTag d).2]?.join

/-- The byte between the code and what follows it. -/
def separator (a : Assembly) : List Byte :=
  if a.subs = [] ∧ a.data.isEmpty ∧ a.auxiliaryData = [] then []
  else [Instruction.invalid.opcode]

/-- Some item pushes the offset of the sub-assembly. -/
def refersToSub (a : Assembly) (s : Nat) : Bool :=
  a.items.any fun
    | .pushSub d => d.toNat % 2 ^ 64 = s
    | _ => false

/-- Some item pushes the offset of the data. -/
def refersToData (a : Assembly) (h : Word) : Bool := a.items.any (· = .pushData h)

/-- The bytes that the sub-assemblies take, in order. -/
def subSizes (a : Assembly) (subs : List Outline) : List Nat :=
  subs.zipIdx.map fun s => if a.refersToSub s.2 then s.1.size else 0

def subStart (a : Assembly) (subs : List Outline) (s : Nat) : Nat :=
  a.offset subs a.items.length + a.separator.length + ((a.subSizes subs).take s).sum

/-- The bytes that data entries take, in order. -/
def dataSizes (a : Assembly) (entries : List (Word × List Byte)) : List Nat :=
  entries.map fun e => if a.refersToData e.1 then e.2.length else 0

def dataStart (a : Assembly) (subs : List Outline) (h : Word) : Nat :=
  a.subStart subs subs.length + (a.dataSizes (a.data.toList.takeWhile (·.1 ≠ h))).sum

def totalSize (a : Assembly) (subs : List Outline) : Nat :=
  a.subStart subs subs.length + (a.dataSizes a.data.toList).sum + a.auxiliaryData.length

def outlineWith (a : Assembly) (subs : List Outline) : Outline :=
  ⟨a.totalSize subs, (List.range a.usedTags).map (a.tagOffset subs)⟩

mutual

/-- The size and the tag positions of the assembled assembly. -/
def outline : Assembly → Outline
  | ⟨usedTags, items, data, auxiliaryData, subs, strings, libraries, deposit⟩ =>
    outlineWith ⟨usedTags, items, data, auxiliaryData, subs, strings, libraries, deposit⟩
      (outlines subs)

def outlines : List Assembly → List Outline
  | [] => []
  | s :: subs => s.outline :: outlines subs

end

lemma outlines_eq_map (subs : List Assembly) : outlines subs = subs.map outline := by
  induction subs with
  | nil => rfl
  | cons s subs ih => rw [outlines, ih, map_cons]

lemma outline_eq (a : Assembly) : a.outline = a.outlineWith (a.subs.map outline) := by
  cases a
  rw [outline, outlines_eq_map]

variable {a : Assembly} {subs : List Outline}

@[simp] lemma offset_zero : a.offset subs 0 = 0 := rfl

variable {k : Nat}

lemma offset_succ {i : AssemblyItem} (h : a.items[k]? = some i) :
    a.offset subs (k + 1) = a.offset subs k + a.itemSize subs i := by
  rw [offset, offset, take_add_one, h, map_append, sum_append]
  simp

lemma offset_mono (subs : List Outline) {l : Nat} (h : k ≤ l) :
    a.offset subs k ≤ a.offset subs l := by
  induction l, h using Nat.le_induction with
  | base => rfl
  | succ l _ ih =>
    refine ih.trans ?_
    rcases hi : a.items[l]? with _ | i
    · rw [offset, offset, take_add_one, hi]
      simp
    · rw [offset_succ hi]
      exact Nat.le_add_right _ _

lemma offset_disjoint (subs : List Outline) {l : Nat} {i : AssemblyItem}
    (h : a.items[k]? = some i) (hlt : k < l) :
    a.offset subs k + a.itemSize subs i ≤ a.offset subs l := by
  rw [← offset_succ h]
  exact offset_mono subs hlt

end Assembly

end Sof

/-!
## The loop over the items

What `assemble` has collected after each item: the bytes with room for the references, the
places of the references, and the positions of the tags.
-/

namespace Sof

open Semantics AssemblyItem List

namespace Assembly

variable {a : Assembly} {subs : List Assembled} {outlines : List Outline} {n : Nat}
  {e e' : Emission}

/-! ### The state after `n` items -/

/-- The bytes of an item before references are filled in. -/
def template (a : Assembly) (subs : List Outline) : AssemblyItem → List Byte
  | .operation i => [i.opcode]
  | .tag _ => [Instruction.jumpdest.opcode]
  | .pushString h =>
    let s := (a.strings[h]?).getD []
    pushOpcode 32 :: (s.take 32 ++ List.replicate (32 - s.length) 0)
  | .push d =>
    let b := max 1 (Semantics.bytesRequired d.toNat)
    pushOpcode b :: toBigEndian b d.toNat
  | .pushTag _ => pushOpcode (a.bytesPerTag subs) :: List.replicate (a.bytesPerTag subs) 0
  | .pushData _ | .pushSub _ | .pushProgramSize _ =>
    pushOpcode (a.bytesPerDataRef subs) :: List.replicate (a.bytesPerDataRef subs) 0
  | .pushSubSize d =>
    let b := max 1 (Semantics.bytesRequired (subSize subs d))
    pushOpcode b :: toBigEndian b (subSize subs d)
  | .pushLibraryAddress _ | .pushDeployTimeAddress _ => pushOpcode 20 :: List.replicate 20 0
  | .undefinedItem _ => []

lemma length_template (i : AssemblyItem) :
    (a.template outlines i).length = a.itemSize outlines i := by
  cases i <;> simp [template, itemSize] <;> omega

/-- The references of the first `n` items, where `f` says what an item at a place refers to. -/
def refs {ρ : Type} (a : Assembly) (f : Nat → AssemblyItem → Option ρ) (n : Nat) : List ρ :=
  (List.range n).filterMap fun k => a.items[k]?.bind (f k)

def tagRefAt (a : Assembly) (subs : List Outline) (k : Nat) :
    AssemblyItem → Option (Nat × Nat × Nat)
  | .pushTag d => some (a.offset subs k + 1, splitForeignPushTag d)
  | _ => none

def dataRefAt (a : Assembly) (subs : List Outline) (k : Nat) : AssemblyItem → Option (Word × Nat)
  | .pushData h => some (h, (a.offset subs k + 1) % 2 ^ 32)
  | _ => none

def subRefAt (a : Assembly) (subs : List Outline) (k : Nat) : AssemblyItem → Option (Nat × Nat)
  | .pushSub d => some (d.toNat % 2 ^ 64, a.offset subs k + 1)
  | _ => none

def sizeRefAt (a : Assembly) (subs : List Outline) (k : Nat) : AssemblyItem → Option Nat
  | .pushProgramSize _ => some ((a.offset subs k + 1) % 2 ^ 32)
  | _ => none

variable {i : AssemblyItem}

lemma refs_succ {ρ : Type} (f : Nat → AssemblyItem → Option ρ) (h : a.items[n]? = some i) :
    a.refs f (n + 1) = a.refs f n ++ (f n i).toList := by
  rw [refs, refs, range_succ, filterMap_append]
  congr 1
  rcases hr : f n i with _ | r <;> simp [h, hr]

lemma mem_refs {ρ : Type} {f : Nat → AssemblyItem → Option ρ} {r : ρ} :
    r ∈ a.refs f n ↔ ∃ k i, k < n ∧ a.items[k]? = some i ∧ f k i = some r := by
  simp only [refs, mem_filterMap, mem_range, Option.bind_eq_some_iff]
  constructor
  · rintro ⟨k, hk, i, hi, hr⟩
    exact ⟨k, i, hk, hi, hr⟩
  · rintro ⟨k, i, hk, hi, hr⟩
    exact ⟨k, hk, i, hi, hr⟩

/-- The position of a tag as far as it is known after `n` items. -/
def tagOffsetBefore (a : Assembly) (subs : List Outline) (n t : Nat) : Option Nat :=
  (a.tagTarget t).bind fun target =>
    if target.index < n then some (a.offset subs target.index) else none

structure Emitted (a : Assembly) (subs : List Outline) (n : Nat) (e : Emission) : Prop where
  code : e.object.bytecode = (a.items.take n).flatMap (a.template subs)
  tagRef : e.tagRef = a.refs (a.tagRefAt subs) n
  dataRef : e.dataRef = a.refs (a.dataRefAt subs) n
  subRef : e.subRef = a.refs (a.subRefAt subs) n
  sizeRef : e.sizeRef = a.refs (a.sizeRefAt subs) n
  tagPositions : e.tagPositions = (List.range a.usedTags).map (a.tagOffsetBefore subs n)

lemma Emitted.size (h : Emitted a outlines n e) : e.size = a.offset outlines n := by
  rw [Emission.size, h.code, length_flatMap, offset]
  congr 2
  funext i
  exact length_template i

lemma emitted_zero :
    Emitted a outlines 0 { tagPositions := List.replicate a.usedTags none } := by
  refine ⟨rfl, rfl, rfl, rfl, rfl, ?_⟩
  have hnone : a.tagOffsetBefore outlines 0 = fun _ => none := by
    funext t
    rcases ht : a.tagTarget t with _ | _ <;> simp [tagOffsetBefore, ht]
  simp [hnone]

lemma tagOffsetBefore_length (t : Nat) :
    a.tagOffsetBefore outlines a.items.length t = a.tagOffset outlines t := by
  rw [tagOffsetBefore, tagOffset]
  rcases hx : a.tagTarget t with _ | x
  · rfl
  · rw [Option.bind_some, Option.map_some, if_pos (tagTarget_index_lt hx)]

/-! ### Positions of tags after one more item -/

variable {d : Word}

lemma index_eq_of_tag (ha : a.WellFormed) {k l : Nat} (hk : a.items[k]? = some (.tag d))
    (hl : a.items[l]? = some (.tag d)) : k = l := by
  have hpairwise := pairwise_filterMap.mp ha.tags_nodup
  obtain ⟨hk', hkd⟩ := List.getElem?_eq_some_iff.mp hk
  obtain ⟨hl', hld⟩ := List.getElem?_eq_some_iff.mp hl
  rw [pairwise_iff_getElem] at hpairwise
  rcases Nat.lt_trichotomy k l with hlt | heq | hlt
  · exact absurd rfl (hpairwise k l hk' hl' hlt d (by rw [hkd]; rfl) d (by rw [hld]; rfl))
  · exact heq
  · exact absurd rfl (hpairwise l k hl' hk' hlt d (by rw [hld]; rfl) d (by rw [hkd]; rfl))

variable {t : Nat}

lemma findIdx_eq_of_tag (ha : a.WellFormed) (hi : a.items[n]? = some (.tag d))
    (ht : t < a.usedTags) : a.items.findIdx? (isAt t) = some n ↔ t = d.toNat := by
  have hused := ha.usedTags_lt
  obtain ⟨hn, hd⟩ := List.getElem?_eq_some_iff.mp hi
  rw [findIdx?_eq_some_iff_getElem]
  constructor
  · rintro ⟨_, hat, -⟩
    rw [hd, isAt] at hat
    split_ifs at hat with h0
    · cases hat
    · have heq := AssemblyItem.tag.inj (of_decide_eq_true hat)
      rw [heq, BitVec.toNat_ofNat, Nat.mod_eq_of_lt (by omega)]
  · rintro rfl
    have h0 : d.toNat ≠ 0 := (ha.tag_pos d (mem_tags.mpr (mem_of_getElem? hi))).ne'
    refine ⟨hn, ?_, fun j hj hat => ?_⟩
    · rw [hd, isAt, if_neg h0, BitVec.ofNat_toNat, BitVec.setWidth_eq]
      exact decide_eq_true rfl
    · rw [isAt, if_neg h0, BitVec.ofNat_toNat, BitVec.setWidth_eq] at hat
      have hj' := List.getElem?_eq_some_iff.mpr ⟨hj.trans hn, of_decide_eq_true hat⟩
      exact absurd (index_eq_of_tag ha hj' hi) hj.ne

lemma eq_zero_of_findIdx (hi : a.items[n]? = some i) (hplaced : i.placedTag = none)
    (h : a.items.findIdx? (isAt t) = some n) : t = 0 := by
  obtain ⟨_, hat, -⟩ := findIdx?_eq_some_iff_getElem.mp h
  obtain ⟨_, hn⟩ := List.getElem?_eq_some_iff.mp hi
  rw [hn, isAt] at hat
  split_ifs at hat with h0
  · exact h0
  · rw [of_decide_eq_true hat] at hplaced
    cases hplaced

lemma tagOffsetBefore_succ (ht : t < a.usedTags) :
    a.tagOffsetBefore outlines (n + 1) t =
      if a.items.findIdx? (isAt t) = some n then some (a.offset outlines n)
      else a.tagOffsetBefore outlines n t := by
  rw [← tagTarget_map_index a ht, tagOffsetBefore, tagOffsetBefore]
  rcases a.tagTarget t with _ | x
  · rfl
  · simp only [Option.bind_some, Option.map_some, Option.some.injEq]
    by_cases hx : x.index = n
    · rw [if_pos hx, if_pos (by omega), hx]
    · rw [if_neg hx]
      congr 1
      exact propext ⟨fun h => by omega, fun h => by omega⟩

/-- Before an item that is not a tag, the invalid jump destination is either known or here. -/
lemma findIdx_zero_iff (outlines : List Outline) (hi : a.items[n]? = some i)
    (hplaced : i.placedTag = none) (ht : 0 < a.usedTags) :
    a.items.findIdx? (isAt 0) = some n ↔ a.tagOffsetBefore outlines n 0 = none := by
  obtain ⟨hn, hin⟩ := List.getElem?_eq_some_iff.mp hi
  have hat : isAt 0 a.items[n] = true := by
    rw [hin, isAt, if_pos rfl, hplaced]
    rfl
  rcases hx : a.tagTarget 0 with _ | x
  · have hnone := tagTarget_map_index a ht
    rw [hx] at hnone
    have hall := findIdx?_eq_none_iff.mp hnone.symm _ (getElem_mem hn)
    rw [hat] at hall
    cases hall
  · have hfind := findIdx_of_tagTarget hx
    obtain ⟨hlt, -, hfirst⟩ := findIdx?_eq_some_iff_getElem.mp hfind
    have hle : x.index ≤ n := by
      by_contra hgt
      exact hfirst n (by omega) hat
    rw [hfind, tagOffsetBefore, hx, Option.bind_some, Option.some.injEq]
    split_ifs with hlt'
    · simp [hlt'.ne]
    · simp only [iff_true]
      omega

lemma tagPositions_tag (ha : a.WellFormed) (hi : a.items[n]? = some (.tag d)) :
    (List.range a.usedTags).map (a.tagOffsetBefore outlines (n + 1)) =
      ((List.range a.usedTags).map (a.tagOffsetBefore outlines n)).set d.toNat
        (some (a.offset outlines n)) := by
  refine ext_getElem (by simp) fun t ht _ => ?_
  have ht' : t < a.usedTags := by simpa using ht
  rw [getElem_set]
  simp only [getElem_map, getElem_range]
  rw [tagOffsetBefore_succ ht']
  exact if_congr ((findIdx_eq_of_tag ha hi ht').trans eq_comm) rfl rfl

lemma tagPositions_other (ha : a.WellFormed) (hi : a.items[n]? = some i)
    (hplaced : i.placedTag = none) :
    (List.range a.usedTags).map (a.tagOffsetBefore outlines (n + 1)) =
      if a.tagOffsetBefore outlines n 0 = none then
        ((List.range a.usedTags).map (a.tagOffsetBefore outlines n)).set 0
          (some (a.offset outlines n))
      else (List.range a.usedTags).map (a.tagOffsetBefore outlines n) := by
  have hzero := findIdx_zero_iff outlines hi hplaced ha.usedTags_pos
  refine ext_getElem (by split_ifs <;> simp) fun t ht _ => ?_
  have ht' : t < a.usedTags := by simpa using ht
  by_cases hnone : a.tagOffsetBefore outlines n 0 = none
  · simp only [if_pos hnone, getElem_set, getElem_map, getElem_range]
    rw [tagOffsetBefore_succ ht']
    refine if_congr ?_ rfl rfl
    constructor
    · intro h
      exact (eq_zero_of_findIdx hi hplaced h).symm
    · rintro rfl
      exact hzero.mpr hnone
  · simp only [if_neg hnone, getElem_map, getElem_range]
    rw [tagOffsetBefore_succ ht', if_neg]
    intro h
    cases eq_zero_of_findIdx hi hplaced h
    exact hnone (hzero.mp h)

/-! ### One item -/

lemma storeInvalid_eq (e : Emission) (i : AssemblyItem) :
    ∃ positions, e.storeInvalid i = { e with tagPositions := positions } := by
  rw [Emission.storeInvalid]
  split_ifs
  · exact ⟨_, rfl⟩
  · exact ⟨e.tagPositions, rfl⟩

lemma Emitted.storeInvalid (ha : a.WellFormed) (h : Emitted a outlines n e)
    (hi : a.items[n]? = some i) (hplaced : i.placedTag = none) :
    (e.storeInvalid i).tagPositions =
      (List.range a.usedTags).map (a.tagOffsetBefore outlines (n + 1)) := by
  have hzero : e.tagPositions[0]? = some none ↔ a.tagOffsetBefore outlines n 0 = none := by
    rw [h.tagPositions, getElem?_map, getElem?_range ha.usedTags_pos, Option.map_some,
      Option.some.injEq]
  rw [tagPositions_other ha hi hplaced, Emission.storeInvalid, ← h.tagPositions, ← h.size]
  by_cases hnone : a.tagOffsetBefore outlines n 0 = none
  · rw [if_pos ⟨hplaced, hzero.mpr hnone⟩, if_pos hnone]
  · rw [if_neg fun hc => hnone (hzero.mp hc.2), if_neg hnone]

lemma Emitted.succ (h : Emitted a outlines n e) (hi : a.items[n]? = some i)
    (hcode : e'.object.bytecode = e.object.bytecode ++ a.template outlines i)
    (htag : e'.tagRef = e.tagRef ++ (a.tagRefAt outlines n i).toList)
    (hdata : e'.dataRef = e.dataRef ++ (a.dataRefAt outlines n i).toList)
    (hsub : e'.subRef = e.subRef ++ (a.subRefAt outlines n i).toList)
    (hsize : e'.sizeRef = e.sizeRef ++ (a.sizeRefAt outlines n i).toList)
    (hpositions : e'.tagPositions =
      (List.range a.usedTags).map (a.tagOffsetBefore outlines (n + 1))) :
    Emitted a outlines (n + 1) e' where
  code := by
    rw [hcode, h.code, take_add_one, hi, flatMap_append]
    simp
  tagRef := by rw [htag, h.tagRef, refs_succ _ hi]
  dataRef := by rw [hdata, h.dataRef, refs_succ _ hi]
  subRef := by rw [hsub, h.subRef, refs_succ _ hi]
  sizeRef := by rw [hsize, h.sizeRef, refs_succ _ hi]
  tagPositions := hpositions

lemma emit_emitted (ha : a.WellFormed) (hsubs : subs.length = a.subs.length)
    (h : Emitted a (subs.map Assembled.outline) n e) (hi : a.items[n]? = some i)
    (hsmall : ∀ d, i = .tag d → a.offset (subs.map Assembled.outline) n < 0xffffffff) :
    ∃ e', a.emit subs (a.bytesPerTag (subs.map Assembled.outline))
        (a.bytesPerDataRef (subs.map Assembled.outline)) (e.storeInvalid i) i = .ok e' ∧
      Emitted a (subs.map Assembled.outline) (n + 1) e' := by
  have hresolves := ha.resolves i (mem_of_getElem? hi)
  have hother := fun hplaced => h.storeInvalid ha hi hplaced
  obtain ⟨positions, hstore⟩ := storeInvalid_eq e i
  rw [hstore] at hother ⊢
  have hsize : e.size = a.offset (subs.map Assembled.outline) n := h.size
  cases i with
  | operation i =>
    refine ⟨_, rfl, h.succ hi rfl ?_ ?_ ?_ ?_ (hother rfl)⟩ <;> exact (append_nil _).symm
  | push d =>
    refine ⟨_, rfl, h.succ hi rfl ?_ ?_ ?_ ?_ (hother rfl)⟩ <;> exact (append_nil _).symm
  | pushDeployTimeAddress _ =>
    refine ⟨_, rfl, h.succ hi rfl ?_ ?_ ?_ ?_ (hother rfl)⟩ <;> exact (append_nil _).symm
  | pushTag d =>
    refine ⟨_, rfl, h.succ hi rfl ?_ ?_ ?_ ?_ (hother rfl)⟩
    · show _ ++ [(e.size + 1, _)] = _
      rw [hsize]
      rfl
    all_goals exact (append_nil _).symm
  | pushData k =>
    refine ⟨_, rfl, h.succ hi rfl ?_ ?_ ?_ ?_ (hother rfl)⟩
    · exact (append_nil _).symm
    · show _ ++ [(_, (e.size + 1) % 2 ^ 32)] = _
      rw [hsize]
      rfl
    all_goals exact (append_nil _).symm
  | pushSub d =>
    refine ⟨_, rfl, h.succ hi rfl ?_ ?_ ?_ ?_ (hother rfl)⟩
    · exact (append_nil _).symm
    · exact (append_nil _).symm
    · show _ ++ [(_, e.size + 1)] = _
      rw [hsize]
      rfl
    · exact (append_nil _).symm
  | pushProgramSize _ =>
    refine ⟨_, rfl, h.succ hi rfl ?_ ?_ ?_ ?_ (hother rfl)⟩
    · exact (append_nil _).symm
    · exact (append_nil _).symm
    · exact (append_nil _).symm
    · show _ ++ [(e.size + 1) % 2 ^ 32] = _
      rw [hsize]
      rfl
  | pushString k =>
    rw [target, Option.isSome_map] at hresolves
    obtain ⟨s, hs⟩ := Option.isSome_iff_exists.mp hresolves
    simp only [emit, hs]
    refine ⟨_, rfl, h.succ hi ?_ ?_ ?_ ?_ ?_ (hother rfl)⟩
    · simp only [template, hs, Option.getD_some]
      rfl
    all_goals exact (append_nil _).symm
  | pushLibraryAddress k =>
    rw [target, Option.isSome_map] at hresolves
    obtain ⟨identifier, hs⟩ := Option.isSome_iff_exists.mp hresolves
    simp only [emit, hs]
    refine ⟨_, rfl, h.succ hi rfl ?_ ?_ ?_ ?_ (hother rfl)⟩ <;> exact (append_nil _).symm
  | pushSubSize d =>
    rw [target, Option.isSome_map] at hresolves
    obtain ⟨sub, hsub⟩ := Option.isSome_iff_exists.mp hresolves
    obtain ⟨hlt, -⟩ := List.getElem?_eq_some_iff.mp hsub
    obtain ⟨o, ho⟩ : ∃ o, subs[d.toNat % 2 ^ 64]? = some o :=
      ⟨_, getElem?_eq_getElem (hsubs ▸ hlt)⟩
    simp only [emit, ho]
    refine ⟨_, rfl, h.succ hi ?_ ?_ ?_ ?_ ?_ (hother rfl)⟩
    · simp only [template, subSize, getElem?_map, ho]
      rfl
    all_goals exact (append_nil _).symm
  | undefinedItem d => cases hresolves
  | tag d =>
    have hpos := ha.tag_pos d (mem_tags.mpr (mem_of_getElem? hi))
    have hlt := ha.tag_lt d (mem_tags.mpr (mem_of_getElem? hi))
    have hlt' : d.toNat < 2 ^ 64 := by
      have := ha.usedTags_lt
      omega
    obtain rfl : positions = e.tagPositions := by
      rw [Emission.storeInvalid, if_neg (fun hc => nomatch hc.1)] at hstore
      exact (congrArg Emission.tagPositions hstore).symm
    have hnone : e.tagPositions[d.toNat]?.join = none := by
      have hbefore : a.tagOffsetBefore (subs.map Assembled.outline) n d.toNat = none := by
        have hfind := (findIdx_eq_of_tag ha hi hlt).mpr rfl
        rw [← tagTarget_map_index a hlt, Option.map_eq_some_iff] at hfind
        obtain ⟨x, hx, hindex⟩ := hfind
        rw [tagOffsetBefore, hx, Option.bind_some, if_neg (by omega)]
      rw [h.tagPositions, getElem?_map, getElem?_range hlt, Option.map_some, hbefore]
      rfl
    have h0 : d ≠ 0 := by
      rintro rfl
      exact absurd hpos (by decide)
    have hsize' : ¬ 0xffffffff ≤ e.size := by
      have := hsmall d rfl
      omega
    have hemit : a.emit subs (a.bytesPerTag (subs.map Assembled.outline))
        (a.bytesPerDataRef (subs.map Assembled.outline)) e (.tag d) =
        .ok { e.push [Instruction.jumpdest.opcode] with
          tagPositions := e.tagPositions.set d.toNat (some e.size) } := by
      rw [emit, if_neg h0, splitForeignPushTag_of_lt hlt', if_neg (by simp), if_neg hsize',
        Nat.mod_eq_of_lt hlt', hnone]
      rfl
    refine ⟨_, hemit, h.succ hi rfl ?_ ?_ ?_ ?_ ?_⟩
    · exact (append_nil _).symm
    · exact (append_nil _).symm
    · exact (append_nil _).symm
    · exact (append_nil _).symm
    · show e.tagPositions.set d.toNat (some e.size) = _
      rw [tagPositions_tag ha hi, ← h.tagPositions, hsize]

/-! ### All items -/

/-- No tag lies beyond the largest position that `assemble` accepts. -/
def TagsSmall (a : Assembly) (subs : List Outline) : Prop :=
  ∀ (k : Nat) d, a.items[k]? = some (.tag d) → a.offset subs k < 0xffffffff

lemma emitAll_emitted (ha : a.WellFormed) (hsubs : subs.length = a.subs.length)
    (hsmall : a.TagsSmall (subs.map Assembled.outline)) (l : List AssemblyItem)
    (hl : a.items.drop n = l) (hn : n ≤ a.items.length)
    (h : Emitted a (subs.map Assembled.outline) n e) :
    ∃ e', a.emitAll subs (a.bytesPerTag (subs.map Assembled.outline))
        (a.bytesPerDataRef (subs.map Assembled.outline)) l e = .ok e' ∧
      Emitted a (subs.map Assembled.outline) a.items.length e' := by
  induction l generalizing n e with
  | nil =>
    obtain rfl : n = a.items.length := by
      have := drop_eq_nil_iff.mp hl
      omega
    exact ⟨e, rfl, h⟩
  | cons i l ih =>
    have hi : a.items[n]? = some i := by
      rw [← head?_drop, hl]
      rfl
    have hdrop : a.items.drop (n + 1) = l := by
      rw [← tail_drop, hl]
      rfl
    obtain ⟨hlt, -⟩ := List.getElem?_eq_some_iff.mp hi
    obtain ⟨e', he', h'⟩ := emit_emitted ha hsubs h hi fun d hd => hsmall n d (hd ▸ hi)
    obtain ⟨e'', he'', h''⟩ := ih hdrop hlt h'
    refine ⟨e'', ?_, h''⟩
    rw [emitAll, he']
    exact he''

lemma size_lt_of_emit_tag {bytesPerTag bytesPerDataRef : Nat}
    (h : a.emit subs bytesPerTag bytesPerDataRef e (.tag d) = .ok e') : e.size < 0xffffffff := by
  rw [emit] at h
  split_ifs at h with _ _ hlarge
  exact Nat.lt_of_not_le hlarge

lemma tagsSmall_of_emitAll (ha : a.WellFormed) (hsubs : subs.length = a.subs.length)
    (l : List AssemblyItem) (hl : a.items.drop n = l)
    (h : Emitted a (subs.map Assembled.outline) n e)
    (hok : a.emitAll subs (a.bytesPerTag (subs.map Assembled.outline))
      (a.bytesPerDataRef (subs.map Assembled.outline)) l e = .ok e') :
    ∀ (k : Nat) d, n ≤ k → a.items[k]? = some (.tag d) →
      a.offset (subs.map Assembled.outline) k < 0xffffffff := by
  induction l generalizing n e with
  | nil =>
    intro k d hk hd
    have hlength := drop_eq_nil_iff.mp hl
    obtain ⟨hlt, -⟩ := List.getElem?_eq_some_iff.mp hd
    omega
  | cons i l ih =>
    have hi : a.items[n]? = some i := by
      rw [← head?_drop, hl]
      rfl
    have hdrop : a.items.drop (n + 1) = l := by
      rw [← tail_drop, hl]
      rfl
    have hfirst : ∀ d, i = .tag d → a.offset (subs.map Assembled.outline) n < 0xffffffff := by
      rintro d rfl
      by_contra hlarge
      obtain ⟨positions, hstore⟩ := storeInvalid_eq e (.tag d)
      have hsize : e.size = a.offset (subs.map Assembled.outline) n := h.size
      rw [emitAll, hstore] at hok
      rcases hemit : a.emit subs _ _ { e with tagPositions := positions } (.tag d) with _ | e₁
      · rw [hemit] at hok
        cases hok
      · have hlt := size_lt_of_emit_tag hemit
        change e.size < _ at hlt
        exact hlarge (hsize ▸ hlt)
    obtain ⟨e₁, he₁, h₁⟩ := emit_emitted ha hsubs h hi hfirst
    rw [emitAll, he₁] at hok
    intro k d hk hd
    rcases Nat.eq_or_lt_of_le hk with rfl | hlt
    · rw [hi] at hd
      exact hfirst d (Option.some.inj hd)
    · exact ih hdrop h₁ hok k d hlt hd

end Assembly

end Sof

/-!
## Filling in the references

The part of `assemble` behind the loop over the items only writes over the room that the
references have in the code and appends: all of it is one list of writes to the code, followed
by what was appended.
-/

namespace Sof

open Semantics AssemblyItem List

namespace Assembly

variable {a : Assembly} {subs : List Assembled} {outlines : List Outline} {n v base : Nat}
  {e : Emission}

/-! ### Blocks behind the code -/

/-- The bytes that a block takes if it is placed where it is referenced. -/
def blockCode (block : List Nat × LinkerObject) : List Byte :=
  if block.1 = [] then [] else block.2.bytecode

/-- The position of block `j`. -/
def blockStart (base : Nat) (blocks : List (List Nat × LinkerObject)) (j : Nat) : Nat :=
  base + ((blocks.take j).map fun block => (blockCode block).length).sum

/-- The writes for the references to all blocks. -/
def blockWrites (v : Nat) : Nat → List (List Nat × LinkerObject) → List (Nat × List Byte)
  | _, [] => []
  | base, block :: blocks =>
    block.1.map (fun p => (p, toBigEndian v base)) ++
      blockWrites v (base + (blockCode block).length) blocks

variable {blocks : List (List Nat × LinkerObject)}

lemma mem_blockWrites {w : Nat × List Byte} :
    w ∈ blockWrites v base blocks ↔
      ∃ (j : Nat) (block : List Nat × LinkerObject), blocks[j]? = some block ∧ w.1 ∈ block.1 ∧
        w.2 = toBigEndian v (blockStart base blocks j) := by
  induction blocks generalizing base with
  | nil => simp [blockWrites]
  | cons block blocks ih =>
    rw [blockWrites, mem_append, mem_map, ih]
    constructor
    · rintro (⟨p, hp, rfl⟩ | ⟨j, block', hj, hp, hw⟩)
      · exact ⟨0, block, rfl, hp, by simp [blockStart]⟩
      · refine ⟨j + 1, block', hj, hp, ?_⟩
        rw [hw]
        simp [blockStart, Nat.add_assoc]
    · rintro ⟨j, block', hj, hp, hw⟩
      cases j with
      | zero =>
        cases hj
        refine .inl ⟨w.1, hp, ?_⟩
        rw [Prod.ext_iff]
        exact ⟨rfl, by simp [hw, blockStart]⟩
      | succ j =>
        refine .inr ⟨j, block', hj, hp, ?_⟩
        rw [hw]
        simp [blockStart, Nat.add_assoc]

lemma inBounds_blockWrites {size : Nat} (h : ∀ block ∈ blocks, ∀ p ∈ block.1, p + v ≤ size) :
    InBounds size (blockWrites v base blocks) := by
  intro w hw
  obtain ⟨j, block, hj, hp, hbytes⟩ := mem_blockWrites.mp hw
  rw [hbytes, length_toBigEndian]
  exact h block (mem_of_getElem? hj) _ hp

lemma placeReferenced_bytecode (blocks : List (List Nat × LinkerObject)) (o : LinkerObject)
    (h : ∀ block ∈ blocks, ∀ p ∈ block.1, p + v ≤ o.bytecode.length) :
    (placeReferenced v blocks o).bytecode =
      writeAll o.bytecode (blockWrites v o.bytecode.length blocks) ++
        blocks.flatMap blockCode := by
  induction blocks generalizing o with
  | nil => exact (append_nil _).symm
  | cons block blocks ih =>
    have hfirst : InBounds o.bytecode.length
        (block.1.map fun p => (p, toBigEndian v o.bytecode.length)) := by
      intro w hw
      obtain ⟨p, hp, rfl⟩ := mem_map.mp hw
      rw [length_toBigEndian]
      exact h block mem_cons_self p hp
    -- both branches of the loop body append the block's code to the written code
    have hstep : ∃ o' : LinkerObject, placeReferenced v (block :: blocks) o =
        placeReferenced v blocks o' ∧ o'.bytecode = writeAll o.bytecode
          (block.1.map fun p => (p, toBigEndian v o.bytecode.length)) ++ blockCode block := by
      by_cases hrefs : block.1 = []
      · refine ⟨o, by rw [placeReferenced, foldl_cons, if_pos hrefs, placeReferenced], ?_⟩
        rw [blockCode, if_pos hrefs, hrefs, map_nil, append_nil]
        rfl
      · refine ⟨_, by rw [placeReferenced, foldl_cons, if_neg hrefs, ← placeReferenced], ?_⟩
        rw [blockCode, if_neg hrefs]
        rfl
    obtain ⟨o', ho', hbytecode⟩ := hstep
    have hlength : o'.bytecode.length = o.bytecode.length + (blockCode block).length := by
      rw [hbytecode, length_append, length_writeAll hfirst]
    have hrest : ∀ block' ∈ blocks, ∀ p ∈ block'.1, p + v ≤ o.bytecode.length :=
      fun block' hb => h block' (mem_cons_of_mem _ hb)
    rw [ho', ih o' fun block' hb p hp => (hrest block' hb p hp).trans (by omega), hlength,
      hbytecode, writeAll_append, blockWrites, writeAll_append_writes, flatMap_cons,
      append_assoc]
    rw [length_writeAll hfirst]
    exact inBounds_blockWrites hrest

lemma hasAt_block (code : List Byte) {j : Nat} {block : List Nat × LinkerObject}
    (hj : blocks[j]? = some block) (hrefs : block.1 ≠ []) :
    HasAt (code ++ blocks.flatMap blockCode) (blockStart code.length blocks j)
      block.2.bytecode := by
  obtain ⟨hlt, hblock⟩ := List.getElem?_eq_some_iff.mp hj
  have hsplit : blocks = blocks.take j ++ block :: blocks.drop (j + 1) := by
    rw [← hblock, cons_getElem_drop_succ, take_append_drop]
  have hlength : (code ++ (blocks.take j).flatMap blockCode).length =
      blockStart code.length blocks j := by
    rw [length_append, length_flatMap, blockStart]
  have hcode : blockCode block = block.2.bytecode := if_neg hrefs
  rw [← hlength]
  nth_rewrite 1 [hsplit]
  rw [flatMap_append, flatMap_cons, hcode, ← append_assoc, ← append_assoc]
  exact (hasAt_append_left _ _).append_right _

/-- The position of a tag that has one. -/
def tagPositionD (positions : List (Option Nat)) (subs : List (List (Option Nat)))
    (tag : Nat × Nat) : Nat :=
  match tagPosition positions subs tag with
  | .ok p => p
  | .error _ => 0

lemma placeTags_eq {positions : List (Option Nat)} {subs : List (List (Option Nat))} {w : Nat}
    (refs : List (Nat × Nat × Nat)) (code : List Byte)
    (h : ∀ r ∈ refs, ∃ p, tagPosition positions subs r.2 = .ok p ∧ p < 256 ^ w) :
    placeTags positions subs w refs code =
      .ok (writeAll code
        (refs.map fun r => (r.1, toBigEndian w (tagPositionD positions subs r.2)))) := by
  induction refs generalizing code with
  | nil => rfl
  | cons r refs ih =>
    obtain ⟨p, hp, hlt⟩ := h r mem_cons_self
    have hd : tagPositionD positions subs r.2 = p := by rw [tagPositionD, hp]
    rw [map_cons, hd, placeTags, hp]
    show (if _ then _ else _) = _
    rw [if_pos (bytesRequired_le_iff.mpr hlt),
      ih _ fun r' hr' => h r' (mem_cons_of_mem _ hr')]
    rfl

end Assembly

end Sof
