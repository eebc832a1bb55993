import Polc.Sof.Assembly.Emission

/-!
# Consistency of the layout

When the bytecode that `assemble` returns has every reference right: exactly when each number
fits the width that was reserved for it.
-/

namespace Sof

open Semantics AssemblyItem List
open Option (getD_some isSome_map map_some)

namespace Assembly

variable {a : Assembly} {subs : List Assembled} {outlines : List Outline} {n : Nat}
  {e : Emission} {o : Assembled}

/-- A push instruction with `n` bytes that pushes `value`. -/
def EncodesPush (n value : Nat) (code : List Byte) : Prop :=
  0 < n ∧ ∃ immediate, code = pushOpcode n :: immediate ∧ immediate.length = n ∧
    ofBigEndian immediate = value

/-- The bytes of an item of `a`: tags, data, sub-assemblies and sizes are pushed as what they
really are. -/
def Encodes (a : Assembly) (subs : List Outline) (code : List Byte) : AssemblyItem → Prop
  | .operation i => code = [i.opcode]
  | .tag _ => code = [Instruction.jumpdest.opcode]
  | .push d => EncodesPush (max 1 (Semantics.bytesRequired d.toNat)) d.toNat code
  | .pushString h => ∃ s, a.strings[h]? = some s ∧
      code = pushOpcode 32 :: (s.take 32 ++ List.replicate (32 - s.length) 0)
  | .pushTag d => ∃ p, a.pushedPosition subs d = some p ∧ EncodesPush (a.bytesPerTag subs) p code
  | .pushData h => EncodesPush (a.bytesPerDataRef subs) (a.dataStart subs h) code
  | .pushSub d =>
    EncodesPush (a.bytesPerDataRef subs) (a.subStart subs (d.toNat % 2 ^ 64)) code
  | .pushSubSize d =>
    EncodesPush (max 1 (Semantics.bytesRequired (subSize subs d))) (subSize subs d) code
  | .pushProgramSize _ => EncodesPush (a.bytesPerDataRef subs) (a.totalSize subs) code
  | .pushLibraryAddress _ | .pushDeployTimeAddress _ =>
    code = pushOpcode 20 :: List.replicate 20 0
  | .undefinedItem _ => False

/-- `o` is a consistent result for `a` with the assembled sub-assemblies `subs`: its size and its
tag positions are the ones of the outline, and items, sub-assemblies and data stand where the
outline says. -/
structure LaidOut (a : Assembly) (subs : List Assembled) (o : Assembled) : Prop where
  outline : o.outline = a.outlineWith (subs.map Assembled.outline)
  item : ∀ (k : Nat) i, a.items[k]? = some i → ∃ code,
    a.Encodes (subs.map Assembled.outline) code i ∧
      HasAt o.object.bytecode (a.offset (subs.map Assembled.outline) k) code
  sub : ∀ d s, .pushSub d ∈ a.items → subs[d.toNat % 2 ^ 64]? = some s →
    HasAt o.object.bytecode (a.subStart (subs.map Assembled.outline) (d.toNat % 2 ^ 64))
      s.object.bytecode
  data : ∀ h content, .pushData h ∈ a.items → a.data[h]? = some content →
    HasAt o.object.bytecode (a.dataStart (subs.map Assembled.outline) h) content

/-- A number that can be pushed with `n` bytes. -/
def FitsIn (n value : Nat) : Prop := 0 < n ∧ value < 256 ^ n

/-- Every position and every size that is pushed fits the reserved width, and no tag is too
large. -/
structure Fits (a : Assembly) (subs : List Outline) : Prop where
  tags_small : a.TagsSmall subs
  tag : ∀ d p, .pushTag d ∈ a.items → a.pushedPosition subs d = some p →
    FitsIn (a.bytesPerTag subs) p
  data : ∀ h, .pushData h ∈ a.items → FitsIn (a.bytesPerDataRef subs) (a.dataStart subs h)
  sub : ∀ d, .pushSub d ∈ a.items →
    FitsIn (a.bytesPerDataRef subs) (a.subStart subs (d.toNat % 2 ^ 64))
  size : ∀ d, .pushProgramSize d ∈ a.items →
    FitsIn (a.bytesPerDataRef subs) (a.totalSize subs)

variable {j k p value : Nat}

lemma EncodesPush.fitsIn {code : List Byte} (h : EncodesPush n value code) : FitsIn n value := by
  obtain ⟨hpos, imm, -, hlength, rfl⟩ := h
  exact ⟨hpos, hlength ▸ ofBigEndian_lt imm⟩

lemma encodesPush_toBigEndian (h : FitsIn n value) :
    EncodesPush n value (pushOpcode n :: toBigEndian n value) :=
  ⟨h.1, _, rfl, length_toBigEndian _ _, ofBigEndian_toBigEndian_eq_iff.mpr h.2⟩

/-! ### What is written where -/

/-- The bytes that are filled in behind the push instruction of an item. -/
def immediate (a : Assembly) (subs : List Outline) : AssemblyItem → Option (List Byte)
  | .pushTag d => some (toBigEndian (a.bytesPerTag subs) ((a.pushedPosition subs d).getD 0))
  | .pushData h => some (toBigEndian (a.bytesPerDataRef subs) (a.dataStart subs h))
  | .pushSub d =>
    some (toBigEndian (a.bytesPerDataRef subs) (a.subStart subs (d.toNat % 2 ^ 64)))
  | .pushProgramSize _ => some (toBigEndian (a.bytesPerDataRef subs) (a.totalSize subs))
  | _ => none

/-- The final bytes of an item. -/
def itemCode (a : Assembly) (subs : List Outline) (i : AssemblyItem) : List Byte :=
  match a.immediate subs i with
  | some imm => pushOpcode imm.length :: imm
  | none => a.template subs i

variable {i : AssemblyItem}

lemma template_of_immediate {imm : List Byte} (h : a.immediate outlines i = some imm) :
    a.template outlines i = pushOpcode imm.length :: List.replicate imm.length 0 ∧
      a.itemSize outlines i = 1 + imm.length := by
  cases i <;> cases h
  all_goals
    rw [length_toBigEndian]
    exact ⟨rfl, rfl⟩

/-- The code before any reference is filled in. -/
def rawCode (a : Assembly) (subs : List Outline) : List Byte := a.items.flatMap (a.template subs)

lemma length_flatMap_template (l : List AssemblyItem) :
    (l.flatMap (a.template outlines)).length = (l.map (a.itemSize outlines)).sum := by
  rw [length_flatMap]
  congr 2
  funext i
  exact length_template i

lemma length_rawCode : (a.rawCode outlines).length = a.offset outlines a.items.length := by
  rw [rawCode, length_flatMap_template, offset, take_length]

lemma hasAt_rawCode (outlines : List Outline) (hi : a.items[k]? = some i) :
    HasAt (a.rawCode outlines) (a.offset outlines k) (a.template outlines i) := by
  obtain ⟨hlt, hk⟩ := List.getElem?_eq_some_iff.mp hi
  have hsplit : a.items = a.items.take k ++ i :: a.items.drop (k + 1) := by
    rw [← hk, cons_getElem_drop_succ, take_append_drop]
  have hlength : ((a.items.take k).flatMap (a.template outlines)).length = a.offset outlines k :=
    length_flatMap_template _
  rw [rawCode, ← hlength]
  nth_rewrite 1 [hsplit]
  rw [flatMap_append, flatMap_cons, ← append_assoc]
  exact (hasAt_append_left _ _).append_right _

/-- The writes that fill in every reference. -/
structure FillsIn (a : Assembly) (subs : List Outline) (writes : List (Nat × List Byte)) :
    Prop where
  sound : ∀ w ∈ writes, ∃ k i imm, a.items[k]? = some i ∧ a.immediate subs i = some imm ∧
    w = (a.offset subs k + 1, imm)
  complete : ∀ k i imm, a.items[k]? = some i → a.immediate subs i = some imm →
    (a.offset subs k + 1, imm) ∈ writes

lemma FillsIn.inBounds {writes : List (Nat × List Byte)} (h : a.FillsIn outlines writes) :
    InBounds (a.rawCode outlines).length writes := by
  intro w hw
  obtain ⟨k, i, imm, hi, himm, rfl⟩ := h.sound w hw
  obtain ⟨hlt, -⟩ := List.getElem?_eq_some_iff.mp hi
  have hend := offset_disjoint outlines hi hlt
  rw [(template_of_immediate himm).2] at hend
  rw [length_rawCode]
  show a.offset outlines k + 1 + imm.length ≤ _
  omega

lemma compatible_writes {l : Nat} {j : AssemblyItem} {imm imm' : List Byte}
    (hi : a.items[k]? = some i) (himm : a.immediate outlines i = some imm)
    (hj : a.items[l]? = some j) (himm' : a.immediate outlines j = some imm') :
    Compatible (a.offset outlines k + 1, imm) (a.offset outlines l + 1, imm') := by
  rcases Nat.lt_trichotomy k l with hlt | rfl | hlt
  · have hend := offset_disjoint outlines hi hlt
    rw [(template_of_immediate himm).2] at hend
    refine .inr (.inl ?_)
    show a.offset outlines k + 1 + imm.length ≤ a.offset outlines l + 1
    omega
  · rw [hi] at hj
    cases hj
    rw [himm] at himm'
    cases himm'
    exact .inl rfl
  · have hend := offset_disjoint outlines hj hlt
    rw [(template_of_immediate himm').2] at hend
    refine .inr (.inr ?_)
    show a.offset outlines l + 1 + imm'.length ≤ a.offset outlines k + 1
    omega

lemma FillsIn.hasAt {writes : List (Nat × List Byte)} (h : a.FillsIn outlines writes)
    (hi : a.items[k]? = some i) :
    HasAt (writeAll (a.rawCode outlines) writes) (a.offset outlines k) (a.itemCode outlines i) := by
  have hraw := hasAt_rawCode outlines hi
  have hbounds := h.inBounds
  have hcompatible : ∀ w ∈ writes, ∀ w' ∈ writes, Compatible w w' := by
    intro w hw w' hw'
    obtain ⟨k, i, imm, hi, himm, rfl⟩ := h.sound w hw
    obtain ⟨l, j, imm', hj, himm', rfl⟩ := h.sound w' hw'
    exact compatible_writes hi himm hj himm'
  rcases himm : a.immediate outlines i with _ | imm
  · rw [itemCode, himm]
    refine hraw.writeAll hbounds fun w hw => .inr ?_
    obtain ⟨l, j, imm', hj, himm', rfl⟩ := h.sound w hw
    show a.offset outlines k + (a.template outlines i).length ≤ a.offset outlines l + 1 ∨
      a.offset outlines l + 1 + imm'.length ≤ a.offset outlines k
    rw [length_template]
    rcases Nat.lt_trichotomy k l with hlt | rfl | hlt
    · have hend := offset_disjoint outlines hi hlt
      omega
    · rw [hi] at hj
      cases hj
      rw [himm] at himm'
      cases himm'
    · have hend := offset_disjoint outlines hj hlt
      rw [(template_of_immediate himm').2] at hend
      omega
  · have hop : HasAt (a.rawCode outlines) (a.offset outlines k) [pushOpcode imm.length] := by
      rw [(template_of_immediate himm).1] at hraw
      exact (prefix_append [_] _).trans hraw
    rw [itemCode, himm]
    have hop' : HasAt (writeAll (a.rawCode outlines) writes) (a.offset outlines k)
        [pushOpcode imm.length] := by
      refine hop.writeAll hbounds fun w hw => .inr ?_
      obtain ⟨l, j, imm', hj, himm', rfl⟩ := h.sound w hw
      show a.offset outlines k + 1 ≤ a.offset outlines l + 1 ∨
        a.offset outlines l + 1 + imm'.length ≤ a.offset outlines k
      rcases Nat.lt_or_ge l k with hlt | hge
      · have hend := offset_disjoint outlines hj hlt
        rw [(template_of_immediate himm').2] at hend
        omega
      · have := offset_mono (a := a) outlines hge
        omega
    exact hop'.append (hasAt_writeAll hbounds hcompatible (h.complete k i imm hi himm))

/-! ### References and the blocks they refer to -/

lemma mem_refsTo {κ : Type} [DecidableEq κ] {refs : List (κ × Nat)} {k : κ} :
    p ∈ refsTo refs k ↔ (k, p) ∈ refs := by
  simp [refsTo]

/-- The sub-assemblies with the places that refer to them. -/
def subBlocks (subs : List Assembled) (e : Emission) : List (List Nat × LinkerObject) :=
  subs.zipIdx.map fun s => (refsTo e.subRef s.2, s.1.object)

/-- The data items with the places that refer to them. -/
def dataBlocks (a : Assembly) (e : Emission) : List (List Nat × LinkerObject) :=
  a.data.toList.map fun d => (refsTo e.dataRef d.1, { bytecode := d.2 })

lemma mem_subRef (h : Emitted a outlines a.items.length e) {s : Nat} :
    (s, p) ∈ e.subRef ↔ ∃ (k : Nat) (d : Word), a.items[k]? = some (.pushSub d) ∧
      d.toNat % 2 ^ 64 = s ∧ p = a.offset outlines k + 1 := by
  rw [h.subRef, mem_refs]
  constructor
  · rintro ⟨k, i, -, hi, hr⟩
    cases i <;> first | (cases hr; done) | skip
    cases hr
    exact ⟨k, _, hi, rfl, rfl⟩
  · rintro ⟨k, d, hi, rfl, rfl⟩
    obtain ⟨hlt, -⟩ := List.getElem?_eq_some_iff.mp hi
    exact ⟨k, _, hlt, hi, rfl⟩

variable {d : Word}

lemma mem_dataRef (h : Emitted a outlines a.items.length e) :
    (d, p) ∈ e.dataRef ↔ ∃ k : Nat, a.items[k]? = some (.pushData d) ∧
      p = (a.offset outlines k + 1) % 2 ^ 32 := by
  rw [h.dataRef, mem_refs]
  constructor
  · rintro ⟨k, i, -, hi, hr⟩
    cases i <;> first | (cases hr; done) | skip
    cases hr
    exact ⟨k, hi, rfl⟩
  · rintro ⟨k, hi, rfl⟩
    obtain ⟨hlt, -⟩ := List.getElem?_eq_some_iff.mp hi
    exact ⟨k, _, hlt, hi, rfl⟩

lemma mem_sizeRef (h : Emitted a outlines a.items.length e) :
    p ∈ e.sizeRef ↔ ∃ (k : Nat) (d : Word), a.items[k]? = some (.pushProgramSize d) ∧
      p = (a.offset outlines k + 1) % 2 ^ 32 := by
  rw [h.sizeRef, mem_refs]
  constructor
  · rintro ⟨k, i, -, hi, hr⟩
    cases i <;> first | (cases hr; done) | skip
    cases hr
    exact ⟨k, _, hi, rfl⟩
  · rintro ⟨k, d, hi, rfl⟩
    obtain ⟨hlt, -⟩ := List.getElem?_eq_some_iff.mp hi
    exact ⟨k, _, hlt, hi, rfl⟩

lemma mem_tagRef (h : Emitted a outlines a.items.length e) {r : Nat × Nat × Nat} :
    r ∈ e.tagRef ↔ ∃ (k : Nat) (d : Word), a.items[k]? = some (.pushTag d) ∧
      r = (a.offset outlines k + 1, splitForeignPushTag d) := by
  rw [h.tagRef, mem_refs]
  constructor
  · rintro ⟨k, i, -, hi, hr⟩
    cases i <;> first | (cases hr; done) | skip
    cases hr
    exact ⟨k, _, hi, rfl⟩
  · rintro ⟨k, d, hi, rfl⟩
    obtain ⟨hlt, -⟩ := List.getElem?_eq_some_iff.mp hi
    exact ⟨k, _, hlt, hi, rfl⟩

lemma refsTo_subRef_eq_nil (h : Emitted a outlines a.items.length e) {s : Nat} :
    refsTo e.subRef s = [] ↔ a.refersToSub s = false := by
  rw [eq_nil_iff_forall_not_mem, refersToSub, any_eq_false]
  constructor
  · intro hnone i hi hrefers
    obtain ⟨k, hk⟩ := mem_iff_getElem?.mp hi
    cases i with
    | pushSub d =>
      refine hnone _ (mem_refsTo.mpr ((mem_subRef h).mpr ⟨k, d, hk, ?_, rfl⟩))
      exact of_decide_eq_true hrefers
    | _ => cases hrefers
  · intro hnone p hp
    obtain ⟨k, d, hk, hd, -⟩ := (mem_subRef h).mp (mem_refsTo.mp hp)
    exact hnone _ (mem_of_getElem? hk) (decide_eq_true hd)

lemma refsTo_dataRef_eq_nil (h : Emitted a outlines a.items.length e) :
    refsTo e.dataRef d = [] ↔ a.refersToData d = false := by
  rw [eq_nil_iff_forall_not_mem, refersToData, any_eq_false]
  constructor
  · intro hnone i hi hrefers
    obtain ⟨k, hk⟩ := mem_iff_getElem?.mp hi
    rw [of_decide_eq_true hrefers] at hk
    exact hnone _ (mem_refsTo.mpr ((mem_dataRef h).mpr ⟨k, hk, rfl⟩))
  · intro hnone p hp
    obtain ⟨k, hk, -⟩ := (mem_dataRef h).mp (mem_refsTo.mp hp)
    exact hnone _ (mem_of_getElem? hk) (decide_eq_true rfl)

lemma length_blockCode {refs : List Nat} {object : LinkerObject} {refers : Bool}
    (h : refs = [] ↔ refers = false) :
    (blockCode (refs, object)).length = if refers then object.bytecode.length else 0 := by
  cases refers with
  | true =>
    have hne : refs ≠ [] := fun hnil => nomatch h.mp hnil
    rw [blockCode, if_neg hne, if_pos rfl]
  | false => rw [blockCode, if_pos (h.mpr rfl)]; rfl

lemma subBlocks_lengths (h : Emitted a outlines a.items.length e)
    (hos : subs.map Assembled.outline = outlines) :
    (subBlocks subs e).map (fun block => (blockCode block).length) = a.subSizes outlines := by
  rw [subBlocks, subSizes, ← hos, map_map, zipIdx_map, map_map]
  refine map_congr_left fun s _ => ?_
  exact length_blockCode (refsTo_subRef_eq_nil h)

lemma dataBlocks_lengths (h : Emitted a outlines a.items.length e) :
    (dataBlocks a e).map (fun block => (blockCode block).length) =
      a.dataSizes a.data.toList := by
  rw [dataBlocks, dataSizes, map_map]
  refine map_congr_left fun d _ => ?_
  exact length_blockCode (refsTo_dataRef_eq_nil h)

lemma blockStart_subBlocks (h : Emitted a outlines a.items.length e)
    (hos : subs.map Assembled.outline = outlines) (s : Nat) :
    blockStart (a.rawCode outlines ++ a.separator).length (subBlocks subs e) s =
      a.subStart outlines s := by
  rw [blockStart, map_take, subBlocks_lengths h hos, subStart, length_append,
    length_rawCode]

variable {content : List Byte}

/-- Where keys are distinct, the entries in front of an entry are the ones with other keys. -/
lemma takeWhile_ne_eq_take {l : List (Word × List Byte)}
    (hdistinct : l.Pairwise fun x y => x.1 ≠ y.1) (h : l[j]? = some (d, content)) :
    l.takeWhile (·.1 ≠ d) = l.take j := by
  induction l generalizing j with
  | nil => cases h
  | cons x l ih =>
    obtain ⟨hx, hl⟩ := pairwise_cons.mp hdistinct
    cases j with
    | zero =>
      cases h
      rw [takeWhile_cons_of_neg (by simp), take_zero]
    | succ j =>
      have hne := hx _ (mem_of_getElem? h)
      rw [takeWhile_cons_of_pos (by simpa using hne), take_succ_cons, ih hl h]

lemma takeWhile_toList (h : a.data.toList[j]? = some (d, content)) :
    a.data.toList.takeWhile (·.1 ≠ d) = a.data.toList.take j := by
  refine takeWhile_ne_eq_take (Std.TreeMap.distinct_keys_toList.imp fun hne heq => ?_) h
  exact hne (Std.LawfulEqCmp.compare_eq_iff_eq.mpr heq)

lemma blockStart_dataBlocks (h : Emitted a outlines a.items.length e)
    (hj : a.data.toList[j]? = some (d, content)) :
    blockStart (a.subStart outlines outlines.length) (dataBlocks a e) j =
      a.dataStart outlines d := by
  rw [blockStart, map_take, dataBlocks_lengths h, dataStart, takeWhile_toList hj, dataSizes,
    dataSizes, map_take]

/-! ### All writes -/

lemma bytesPerDataRef_le : a.bytesPerDataRef outlines ≤ 4 :=
  bytesRequired_le_iff.mpr (Nat.mod_lt _ (by decide))

lemma position_mod (hi : a.items[k]? = some i)
    (hsize : a.itemSize outlines i = 1 + a.bytesPerDataRef outlines)
    (hle : a.offset outlines a.items.length ≤ value)
    (hfits : FitsIn (a.bytesPerDataRef outlines) value) :
    (a.offset outlines k + 1) % 2 ^ 32 = a.offset outlines k + 1 := by
  obtain ⟨hlt, -⟩ := List.getElem?_eq_some_iff.mp hi
  have hend := offset_disjoint outlines hi hlt
  have hpow : 256 ^ a.bytesPerDataRef outlines ≤ 256 ^ 4 :=
    Nat.pow_le_pow_right (by decide) bytesPerDataRef_le
  have := hfits.2
  exact Nat.mod_eq_of_lt (by omega)

lemma offset_le_subStart (s : Nat) :
    a.offset outlines a.items.length ≤ a.subStart outlines s := by
  rw [subStart]
  omega

lemma offset_le_dataStart (h : Word) :
    a.offset outlines a.items.length ≤ a.dataStart outlines h :=
  (offset_le_subStart _).trans (Nat.le_add_right _ _)

lemma offset_le_totalSize : a.offset outlines a.items.length ≤ a.totalSize outlines := by
  have hle : a.offset outlines a.items.length ≤ a.subStart outlines outlines.length :=
    offset_le_subStart _
  rw [totalSize]
  omega

lemma tagPosition_of_pushedPosition (h : Emitted a outlines a.items.length e)
    (hos : subs.map Assembled.outline = outlines) (hp : a.pushedPosition outlines d = some p) :
    tagPosition e.tagPositions (subs.map (·.tagPositions)) (splitForeignPushTag d) = .ok p := by
  rw [pushedPosition] at hp
  rw [tagPosition]
  split_ifs at hp ⊢ with hlocal
  · have hlt : (splitForeignPushTag d).2 < a.usedTags := by
      obtain ⟨x, hx, -⟩ := Option.map_eq_some_iff.mp hp
      exact tagTarget_lt hx
    simp only [h.tagPositions, getElem?_map, getElem?_range hlt, map_some,
      tagOffsetBefore_length, hp]
  · obtain ⟨o, ho, hpos⟩ := Option.bind_eq_some_iff.mp hp
    rw [← hos, getElem?_map] at ho
    obtain ⟨s, hs, rfl⟩ := Option.map_eq_some_iff.mp ho
    have hpos' : s.tagPositions[(splitForeignPushTag d).2]? = some (some p) := by
      rw [← Option.join_eq_some_iff]
      exact hpos
    simp only [getElem?_map, hs, map_some, hpos']

lemma pushedPosition_of_resolves (ha : a.WellFormed) (hd : .pushTag d ∈ a.items) :
    ∃ p, a.pushedPosition (a.subs.map outline) d = some p := by
  obtain ⟨x, hx⟩ := Option.isSome_iff_exists.mp (ha.resolves _ hd)
  rw [target, pushTagTarget] at hx
  rw [pushedPosition]
  split_ifs at hx ⊢ with hlocal
  · obtain ⟨y, hy, -⟩ := Option.map_eq_some_iff.mp hx
    exact ⟨_, by rw [tagOffset, hy, map_some]⟩
  · obtain ⟨s, hs, hsub⟩ := Option.bind_eq_some_iff.mp hx
    obtain ⟨y, hy, -⟩ := Option.map_eq_some_iff.mp hsub
    refine ⟨s.offset (s.subs.map outline) y.index, ?_⟩
    rw [getElem?_map, hs, map_some, Option.bind_some, outline_eq, outlineWith]
    simp only [getElem?_map, getElem?_range (tagTarget_lt hy), map_some, tagOffset,
      hy, Option.join_some]

/-- Everything that is written over the code, in order. -/
def writes (a : Assembly) (subs : List Assembled) (outlines : List Outline) (e : Emission) :
    List (Nat × List Byte) :=
  blockWrites (a.bytesPerDataRef outlines) (a.rawCode outlines ++ a.separator).length
      (subBlocks subs e) ++
    e.tagRef.map (fun r => (r.1, toBigEndian (a.bytesPerTag outlines)
      (tagPositionD e.tagPositions (subs.map (·.tagPositions)) r.2))) ++
    blockWrites (a.bytesPerDataRef outlines) (a.subStart outlines outlines.length)
      (dataBlocks a e) ++
    e.sizeRef.map fun p => (p, toBigEndian (a.bytesPerDataRef outlines) (a.totalSize outlines))

variable {block : List Nat × LinkerObject}

lemma mem_subBlocks :
    (subBlocks subs e)[j]? = some block ↔
      ∃ s, subs[j]? = some s ∧ block = (refsTo e.subRef j, s.object) := by
  rw [subBlocks, getElem?_map, getElem?_zipIdx]
  rcases subs[j]? with _ | s <;> simp [eq_comm]

lemma mem_dataBlocks :
    (dataBlocks a e)[j]? = some block ↔ ∃ d content, a.data.toList[j]? = some (d, content) ∧
      block = (refsTo e.dataRef d, { bytecode := content }) := by
  rw [dataBlocks, getElem?_map]
  rcases a.data.toList[j]? with _ | ⟨d, content⟩ <;> simp [eq_comm]

lemma sub_of_pushSub (ha : a.WellFormed) (hsubs : subs.length = a.subs.length)
    (hd : .pushSub d ∈ a.items) : ∃ s, subs[d.toNat % 2 ^ 64]? = some s := by
  have hresolves := ha.resolves _ hd
  rw [target, isSome_map] at hresolves
  obtain ⟨s, hs⟩ := Option.isSome_iff_exists.mp hresolves
  obtain ⟨hlt, -⟩ := List.getElem?_eq_some_iff.mp hs
  exact ⟨_, getElem?_eq_getElem (hsubs ▸ hlt)⟩

lemma data_of_pushData (ha : a.WellFormed) (hd : .pushData d ∈ a.items) :
    ∃ (j : Nat) (content : List Byte), a.data.toList[j]? = some (d, content) := by
  have hresolves := ha.resolves _ hd
  rw [target, isSome_map] at hresolves
  obtain ⟨content, hcontent⟩ := Option.isSome_iff_exists.mp hresolves
  have hmem := Std.TreeMap.mem_toList_iff_getElem?_eq_some.mpr hcontent
  obtain ⟨j, hj⟩ := mem_iff_getElem?.mp hmem
  exact ⟨j, content, hj⟩

lemma writes_fillsIn (ha : a.WellFormed) (hsubs : subs.length = a.subs.length)
    (hos : subs.map Assembled.outline = outlines) (hpure : a.subs.map outline = outlines)
    (h : Emitted a outlines a.items.length e) (hfits : a.Fits outlines) :
    a.FillsIn outlines (a.writes subs outlines e) where
  sound := by
    intro w hw
    simp only [writes, mem_append, mem_map] at hw
    rcases hw with ((hw | ⟨r, hr, rfl⟩) | hw) | ⟨p, hp, rfl⟩
    · obtain ⟨j, block, hj, hp, hbytes⟩ := mem_blockWrites.mp hw
      obtain ⟨s, -, rfl⟩ := mem_subBlocks.mp hj
      obtain ⟨k, d, hi, rfl, hpos⟩ := (mem_subRef h).mp (mem_refsTo.mp hp)
      refine ⟨k, _, _, hi, rfl, Prod.ext hpos ?_⟩
      rw [hbytes, blockStart_subBlocks h hos]
    · obtain ⟨k, d, hi, rfl⟩ := (mem_tagRef h).mp hr
      obtain ⟨p, hp⟩ := pushedPosition_of_resolves ha (mem_of_getElem? hi)
      rw [hpure] at hp
      refine ⟨k, _, _, hi, rfl, Prod.ext rfl ?_⟩
      rw [hp, getD_some, tagPositionD, tagPosition_of_pushedPosition h hos hp]
    · obtain ⟨j, block, hj, hp, hbytes⟩ := mem_blockWrites.mp hw
      obtain ⟨d, content, hd, rfl⟩ := mem_dataBlocks.mp hj
      obtain ⟨k, hi, hpos⟩ := (mem_dataRef h).mp (mem_refsTo.mp hp)
      rw [position_mod hi rfl (offset_le_dataStart d)
        (hfits.data d (mem_of_getElem? hi))] at hpos
      refine ⟨k, _, _, hi, rfl, Prod.ext hpos ?_⟩
      rw [hbytes, blockStart_dataBlocks h hd]
    · obtain ⟨k, d, hi, hpos⟩ := (mem_sizeRef h).mp hp
      rw [position_mod hi rfl offset_le_totalSize
        (hfits.size d (mem_of_getElem? hi))] at hpos
      exact ⟨k, _, _, hi, rfl, Prod.ext hpos rfl⟩
  complete := by
    intro k i imm hi himm
    have hmem := mem_of_getElem? hi
    simp only [writes, mem_append, mem_map]
    cases i <;> cases himm
    case pushTag d =>
      obtain ⟨p, hp⟩ := pushedPosition_of_resolves ha hmem
      rw [hpure] at hp
      refine .inl (.inl (.inr ⟨_, (mem_tagRef h).mpr ⟨k, d, hi, rfl⟩, Prod.ext rfl ?_⟩))
      rw [hp, getD_some, tagPositionD, tagPosition_of_pushedPosition h hos hp]
    case pushSub d =>
      obtain ⟨s, hs⟩ := sub_of_pushSub ha hsubs hmem
      refine .inl (.inl (.inl (mem_blockWrites.mpr ⟨_, _, mem_subBlocks.mpr ⟨s, hs, rfl⟩, ?_, ?_⟩)))
      · exact mem_refsTo.mpr ((mem_subRef h).mpr ⟨k, d, hi, rfl, rfl⟩)
      · rw [blockStart_subBlocks h hos]
    case pushData d =>
      obtain ⟨j, content, hj⟩ := data_of_pushData ha hmem
      have hblock : (dataBlocks a e)[j]? = some (refsTo e.dataRef d, { bytecode := content }) :=
        mem_dataBlocks.mpr ⟨d, content, hj, rfl⟩
      refine .inl (.inr (mem_blockWrites.mpr ⟨j, _, hblock, ?_, ?_⟩))
      · refine mem_refsTo.mpr ((mem_dataRef h).mpr ⟨k, hi, ?_⟩)
        exact (position_mod hi rfl (offset_le_dataStart d)
          (hfits.data d hmem)).symm
      · rw [blockStart_dataBlocks h hj]
    case pushProgramSize d =>
      refine .inr ⟨_, (mem_sizeRef h).mpr ⟨k, d, hi, rfl⟩, Prod.ext ?_ rfl⟩
      exact position_mod hi rfl offset_le_totalSize (hfits.size d hmem)

/-! ### The result -/

lemma length_subBlocks_code (h : Emitted a outlines a.items.length e)
    (hos : subs.map Assembled.outline = outlines) :
    (a.rawCode outlines ++ a.separator).length + ((subBlocks subs e).flatMap blockCode).length =
      a.subStart outlines outlines.length := by
  have htake : (a.subSizes outlines).take outlines.length = a.subSizes outlines :=
    take_of_length_le (by simp [subSizes])
  rw [length_flatMap, subBlocks_lengths h hos, length_append, length_rawCode, subStart,
    htake]

lemma le_of_inBounds {v base size : Nat} {blocks : List (List Nat × LinkerObject)}
    (h : InBounds size (blockWrites v base blocks)) :
    ∀ block ∈ blocks, ∀ p ∈ block.1, p + v ≤ size := by
  intro block hblock p hp
  obtain ⟨j, hj⟩ := mem_iff_getElem?.mp hblock
  have hw := h (p, toBigEndian v (blockStart base blocks j))
    (mem_blockWrites.mpr ⟨j, block, hj, hp, rfl⟩)
  rwa [length_toBigEndian] at hw

/-- The bytecode is the code with all references filled in, followed by what belongs behind it. -/
lemma finish_eq (ha : a.WellFormed) (hsubs : subs.length = a.subs.length)
    (hos : subs.map Assembled.outline = outlines) (hpure : a.subs.map outline = outlines)
    (h : Emitted a outlines a.items.length e) (hfits : a.Fits outlines) :
    ∃ o, a.finish subs (a.bytesPerTag outlines) (a.bytesPerDataRef outlines) e = .ok o ∧
      o.tagPositions = e.tagPositions ∧ o.object.bytecode.length = a.totalSize outlines ∧
      o.object.bytecode = writeAll (a.rawCode outlines) (a.writes subs outlines e) ++
        a.separator ++ (subBlocks subs e).flatMap blockCode ++
        (dataBlocks a e).flatMap blockCode ++ a.auxiliaryData := by
  have hfills := writes_fillsIn ha hsubs hos hpure h hfits
  have hbounds := hfills.inBounds
  -- the four groups of writes all lie within the code
  rw [writes] at hbounds ⊢
  set W₁ := blockWrites (a.bytesPerDataRef outlines) _ (subBlocks subs e)
  set W₂ := e.tagRef.map fun r => (r.1, toBigEndian (a.bytesPerTag outlines)
    (tagPositionD e.tagPositions (subs.map (·.tagPositions)) r.2))
  set W₃ := blockWrites (a.bytesPerDataRef outlines) _ (dataBlocks a e) with hW₃
  set W₄ := e.sizeRef.map _ with hW₄
  have hb₁ : InBounds (a.rawCode outlines).length W₁ := fun w hw => hbounds w (by simp [hw])
  have hb₂ : InBounds (a.rawCode outlines).length W₂ := fun w hw => hbounds w (by simp [hw])
  have hb₃ : InBounds (a.rawCode outlines).length W₃ := fun w hw => hbounds w (by simp [hw])
  have hb₄ : InBounds (a.rawCode outlines).length W₄ := fun w hw => hbounds w (by simp [hw])
  -- the separator
  obtain ⟨o₁, ho₁, hcode₁⟩ : ∃ o₁ : LinkerObject,
      (if a.subs = [] ∧ a.data.isEmpty ∧ a.auxiliaryData = [] then e.object
        else { e.object with bytecode := e.object.bytecode ++ [Instruction.invalid.opcode] }) = o₁ ∧
      o₁.bytecode = a.rawCode outlines ++ a.separator := by
    refine ⟨_, rfl, ?_⟩
    have hraw : e.object.bytecode = a.rawCode outlines := by
      rw [h.code, take_length, rawCode]
    rw [separator, ← hraw]
    split_ifs
    · exact (append_nil _).symm
    · rfl
  -- the sub-assemblies
  have hle₁ : (a.rawCode outlines).length ≤ o₁.bytecode.length := by
    rw [hcode₁, length_append]
    exact Nat.le_add_right _ _
  have hplace₁ := placeReferenced_bytecode (subBlocks subs e) o₁
    (le_of_inBounds (hb₁.mono hle₁))
  rw [hcode₁] at hplace₁
  set o₂ := placeReferenced (a.bytesPerDataRef outlines) (subBlocks subs e) o₁
  have hcode₂ : o₂.bytecode = writeAll (a.rawCode outlines) W₁ ++
      (a.separator ++ (subBlocks subs e).flatMap blockCode) := by
    rw [hplace₁, writeAll_append hb₁, append_assoc]
  -- the tags
  have htags := placeTags_eq (w := a.bytesPerTag outlines) e.tagRef o₂.bytecode fun r hr => by
    obtain ⟨k, d, hi, rfl⟩ := (mem_tagRef h).mp hr
    have hmem := mem_of_getElem? hi
    obtain ⟨p, hp⟩ := pushedPosition_of_resolves ha hmem
    rw [hpure] at hp
    exact ⟨p, tagPosition_of_pushedPosition h hos hp, (hfits.tag d p hmem hp).2⟩
  have hcode₂' : writeAll o₂.bytecode W₂ = writeAll (a.rawCode outlines) (W₁ ++ W₂) ++
      (a.separator ++ (subBlocks subs e).flatMap blockCode) := by
    rw [hcode₂, writeAll_writeAll_append hb₁ hb₂]
  -- the data
  have hlength₂ : (writeAll o₂.bytecode W₂).length = a.subStart outlines outlines.length := by
    rw [hcode₂', length_append, length_writeAll (hb₁.append hb₂), length_append,
      ← length_subBlocks_code h hos, length_append, Nat.add_assoc]
  have hle₂ : (a.rawCode outlines).length ≤ (writeAll o₂.bytecode W₂).length := by
    rw [hcode₂', length_append, length_writeAll (hb₁.append hb₂)]
    exact Nat.le_add_right _ _
  have hplace₃ := placeReferenced_bytecode (dataBlocks a e)
    { o₂ with bytecode := writeAll o₂.bytecode W₂ } (le_of_inBounds (hb₃.mono hle₂))
  simp only [hlength₂, ← hW₃] at hplace₃
  set o₃ := placeReferenced (a.bytesPerDataRef outlines) (dataBlocks a e)
    { o₂ with bytecode := writeAll o₂.bytecode W₂ }
  have hcode₃ : o₃.bytecode ++ a.auxiliaryData =
      writeAll (a.rawCode outlines) (W₁ ++ W₂ ++ W₃) ++ (a.separator ++
        (subBlocks subs e).flatMap blockCode ++ (dataBlocks a e).flatMap blockCode ++
        a.auxiliaryData) := by
    rw [hplace₃, hcode₂', writeAll_writeAll_append (hb₁.append hb₂) hb₃]
    simp only [append_assoc]
  -- the size
  have hlength₃ : (o₃.bytecode ++ a.auxiliaryData).length = a.totalSize outlines := by
    have hsub := length_subBlocks_code h hos
    have hdata : ((dataBlocks a e).flatMap blockCode).length =
        (a.dataSizes a.data.toList).sum := by
      rw [length_flatMap, dataBlocks_lengths h]
    rw [hcode₃, length_append, length_writeAll ((hb₁.append hb₂).append hb₃)]
    simp only [length_append, totalSize] at hsub ⊢
    omega
  refine ⟨⟨{ o₃ with bytecode := writeAll (o₃.bytecode ++ a.auxiliaryData) W₄ },
    e.tagPositions⟩, ?_, rfl, ?_, ?_⟩
  · simp only [finish]
    rw [ho₁]
    change (placeTags e.tagPositions (subs.map (·.tagPositions)) (a.bytesPerTag outlines) e.tagRef
      o₂.bytecode).map _ = _
    rw [htags, hW₄, ← hlength₃]
    rfl
  · show (writeAll (o₃.bytecode ++ a.auxiliaryData) W₄).length = _
    rw [length_writeAll, hlength₃]
    refine hb₄.mono ?_
    rw [hcode₃, length_append, length_writeAll ((hb₁.append hb₂).append hb₃)]
    exact Nat.le_add_right _ _
  · show writeAll (o₃.bytecode ++ a.auxiliaryData) W₄ = _
    rw [hcode₃, writeAll_writeAll_append ((hb₁.append hb₂).append hb₃) hb₄]
    simp only [append_assoc]

lemma encodes_itemCode (ha : a.WellFormed) (hpure : a.subs.map outline = outlines)
    (hfits : a.Fits outlines) (hi : i ∈ a.items) :
    a.Encodes outlines (a.itemCode outlines i) i := by
  have hresolves := ha.resolves i hi
  cases i with
  | pushTag d =>
    obtain ⟨p, hp⟩ := pushedPosition_of_resolves ha hi
    rw [hpure] at hp
    refine ⟨p, hp, ?_⟩
    simp only [itemCode, immediate, hp, getD_some, length_toBigEndian]
    exact encodesPush_toBigEndian (hfits.tag d p hi hp)
  | pushData d =>
    simp only [Encodes, itemCode, immediate, length_toBigEndian]
    exact encodesPush_toBigEndian (hfits.data d hi)
  | pushSub d =>
    simp only [Encodes, itemCode, immediate, length_toBigEndian]
    exact encodesPush_toBigEndian (hfits.sub d hi)
  | pushProgramSize d =>
    simp only [Encodes, itemCode, immediate, length_toBigEndian]
    exact encodesPush_toBigEndian (hfits.size d hi)
  | push d =>
    refine encodesPush_toBigEndian ⟨Nat.le_max_left _ _, ?_⟩
    exact bytesRequired_le_iff.mp (Nat.le_max_right _ _)
  | pushSubSize d =>
    refine encodesPush_toBigEndian ⟨Nat.le_max_left _ _, ?_⟩
    exact bytesRequired_le_iff.mp (Nat.le_max_right _ _)
  | pushString h =>
    rw [target, isSome_map] at hresolves
    obtain ⟨s, hs⟩ := Option.isSome_iff_exists.mp hresolves
    refine ⟨s, hs, ?_⟩
    simp only [itemCode, immediate, template, hs, getD_some]
  | undefinedItem d => cases hresolves
  | operation _ | tag _ | pushLibraryAddress _ | pushDeployTimeAddress _ => rfl

lemma finish_laidOut (ha : a.WellFormed) (hsubs : subs.length = a.subs.length)
    (hos : subs.map Assembled.outline = outlines) (hpure : a.subs.map outline = outlines)
    (h : Emitted a outlines a.items.length e) (hfits : a.Fits outlines) :
    ∃ o, a.finish subs (a.bytesPerTag outlines) (a.bytesPerDataRef outlines) e = .ok o ∧
      LaidOut a subs o := by
  obtain ⟨o, ho, htags, hlength, hcode⟩ := finish_eq ha hsubs hos hpure h hfits
  have hfills := writes_fillsIn ha hsubs hos hpure h hfits
  have hwritten : (writeAll (a.rawCode outlines) (a.writes subs outlines e)).length =
      a.offset outlines a.items.length := by
    rw [length_writeAll hfills.inBounds, length_rawCode]
  have hstart : (writeAll (a.rawCode outlines) (a.writes subs outlines e) ++
      a.separator).length = (a.rawCode outlines ++ a.separator).length := by
    rw [length_append, length_append, hwritten, length_rawCode]
  subst hos
  refine ⟨o, ho, ⟨?_, ?_, ?_, ?_⟩⟩
  · rw [Assembled.outline, hlength, htags, h.tagPositions, outlineWith]
    congr 1
    exact map_congr_left fun t _ => tagOffsetBefore_length t
  · intro k i hi
    refine ⟨_, encodes_itemCode ha hpure hfits (mem_of_getElem? hi), ?_⟩
    rw [hcode]
    exact ((((hfills.hasAt hi).append_right _).append_right _).append_right _).append_right _
  · intro d s hd hs
    have hblock : (subBlocks subs e)[d.toNat % 2 ^ 64]? =
        some (refsTo e.subRef (d.toNat % 2 ^ 64), s.object) := mem_subBlocks.mpr ⟨s, hs, rfl⟩
    have hrefs : refsTo e.subRef (d.toNat % 2 ^ 64) ≠ [] := by
      obtain ⟨k, hk⟩ := mem_iff_getElem?.mp hd
      exact ne_nil_of_mem (mem_refsTo.mpr ((mem_subRef h).mpr ⟨k, d, hk, rfl, rfl⟩))
    have hat := hasAt_block (writeAll (a.rawCode (subs.map Assembled.outline))
      (a.writes subs (subs.map Assembled.outline) e) ++ a.separator) hblock hrefs
    rw [hstart, blockStart_subBlocks h rfl] at hat
    rw [hcode]
    exact (hat.append_right _).append_right _
  · intro d content hd hcontent
    have hmem := Std.TreeMap.mem_toList_iff_getElem?_eq_some.mpr hcontent
    obtain ⟨j, hj⟩ := mem_iff_getElem?.mp hmem
    have hblock : (dataBlocks a e)[j]? = some (refsTo e.dataRef d, { bytecode := content }) :=
      mem_dataBlocks.mpr ⟨d, content, hj, rfl⟩
    have hrefs : refsTo e.dataRef d ≠ [] := by
      obtain ⟨k, hk⟩ := mem_iff_getElem?.mp hd
      exact ne_nil_of_mem (mem_refsTo.mpr ((mem_dataRef h).mpr ⟨k, hk, rfl⟩))
    have hat := hasAt_block (writeAll (a.rawCode (subs.map Assembled.outline))
      (a.writes subs (subs.map Assembled.outline) e) ++ a.separator ++
        (subBlocks subs e).flatMap blockCode) hblock hrefs
    rw [length_append, hstart, length_subBlocks_code h rfl, blockStart_dataBlocks h hj] at hat
    rw [hcode]
    exact hat.append_right _

/-! ### One assembly -/

lemma estimate_isSome (ha : a.WellFormed) (tagSize : Nat) : (a.estimate tagSize).isSome := by
  have hsizes : ∀ l : List AssemblyItem, (∀ i ∈ l, (a.target i).isSome) →
      ∃ sizes, l.mapM (AssemblyItem.bytesRequired tagSize) = some sizes := by
    intro l hl
    induction l with
    | nil => exact ⟨[], rfl⟩
    | cons i l ih =>
      obtain ⟨sizes, hrest⟩ := ih fun j hj => hl j (mem_cons_of_mem _ hj)
      obtain ⟨size, hsize⟩ : ∃ size, i.bytesRequired tagSize = some size := by
        have hi := hl i mem_cons_self
        cases i with
        | undefinedItem _ => cases hi
        | _ => exact ⟨_, rfl⟩
      exact ⟨size :: sizes, by simp [hsize, hrest]⟩
  obtain ⟨sizes, h⟩ := hsizes a.items ha.resolves
  rw [estimate, h]
  rfl

lemma bytesRequiredFrom_isSome (ha : a.WellFormed) (rounds tagSize : Nat) :
    (a.bytesRequiredFrom rounds tagSize).isSome := by
  induction rounds generalizing tagSize with
  | zero => exact estimate_isSome ha tagSize
  | succ rounds ih =>
    obtain ⟨ret, hret⟩ := Option.isSome_iff_exists.mp (estimate_isSome ha tagSize)
    rw [bytesRequiredFrom, hret, Option.bind_some]
    split_ifs
    · rfl
    · exact ih _

lemma assembleWith_eq (ha : a.WellFormed) (hos : subs.map Assembled.outline = outlines) :
    a.assembleWith subs =
      (a.emitAll subs (a.bytesPerTag outlines) (a.bytesPerDataRef outlines) a.items
        { tagPositions := List.replicate a.usedTags none }).bind
        (a.finish subs (a.bytesPerTag outlines) (a.bytesPerDataRef outlines)) := by
  obtain ⟨forCode, h⟩ := Option.isSome_iff_exists.mp (bytesRequiredFrom_isSome ha 4
    (subTagSize (subs.map (·.tagPositions)) % 2 ^ 32))
  have hpositions : outlines.map (·.tagPositions) = subs.map (·.tagPositions) := by
    rw [← hos, map_map]
    rfl
  have hsizes : outlines.map (·.size) = subs.map (·.object.bytecode.length) := by
    rw [← hos, map_map]
    rfl
  have hcode : a.bytesRequired (subTagSize (subs.map (·.tagPositions))) = some forCode := h
  simp only [assembleWith, hcode, bytesPerTag, bytesPerDataRef, bytesRequiredForCode, hpositions,
    hsizes, getD_some]

/-- Given correct sub-assemblies, the result is consistent exactly if every number fits. -/
lemma laidOut_iff_fits (ha : a.WellFormed) (hsubs : subs.length = a.subs.length)
    (hos : subs.map Assembled.outline = outlines) (hpure : a.subs.map outline = outlines) :
    (∃ o, a.assembleWith subs = .ok o ∧ LaidOut a subs o) ↔ a.Fits outlines := by
  rw [assembleWith_eq ha hos]
  subst hos
  have hdrop : a.items.drop 0 = a.items := rfl
  constructor
  · rintro ⟨o, ho, hlaid⟩
    have hitem : ∀ i ∈ a.items, ∃ code, a.Encodes (subs.map Assembled.outline) code i := by
      intro i hi
      obtain ⟨k, hk⟩ := mem_iff_getElem?.mp hi
      obtain ⟨code, hcode, -⟩ := hlaid.item k i hk
      exact ⟨code, hcode⟩
    refine ⟨?_, ?_, ?_, ?_, ?_⟩
    · rcases hemit : a.emitAll subs _ _ a.items { tagPositions := List.replicate a.usedTags none }
        with _ | e
      · rw [hemit] at ho
        cases ho
      · intro k d
        exact tagsSmall_of_emitAll ha hsubs _ hdrop emitted_zero hemit k d (Nat.zero_le k)
    · intro d p hd hp
      obtain ⟨code, p', hp', hcode⟩ := hitem _ hd
      rw [hp] at hp'
      cases hp'
      exact hcode.fitsIn
    · intro h hh
      obtain ⟨code, hcode⟩ := hitem _ hh
      exact hcode.fitsIn
    · intro d hd
      obtain ⟨code, hcode⟩ := hitem _ hd
      exact hcode.fitsIn
    · intro d hd
      obtain ⟨code, hcode⟩ := hitem _ hd
      exact hcode.fitsIn
  · intro hfits
    obtain ⟨e, hemit, he⟩ := emitAll_emitted ha hsubs hfits.tags_small _ hdrop (Nat.zero_le _)
      emitted_zero
    rw [hemit]
    exact finish_laidOut ha hsubs rfl hpure he hfits

/-! ### The whole tree -/

/-- The assembly can be assembled and the result is consistent. -/
def WellLaidOut (a : Assembly) : Prop :=
  ∃ subs o, assembleAll a.subs = .ok subs ∧ a.assemble = .ok o ∧ LaidOut a subs o

/-- Every number that is pushed fits, given what the sub-assemblies are assembled to. -/
def FitsReserved (a : Assembly) : Prop := a.Fits (a.subs.map outline)

lemma wellLaidOut_iff (ha : a.WellFormed) (hsubs : assembleAll a.subs = .ok subs)
    (hos : subs.map Assembled.outline = a.subs.map outline) :
    a.WellLaidOut ↔ a.FitsReserved := by
  have hlength : subs.length = a.subs.length := by
    rw [← length_map, hos, length_map]
  rw [FitsReserved, ← laidOut_iff_fits ha hlength hos rfl, WellLaidOut, assemble_eq, hsubs]
  constructor
  · rintro ⟨subs', o, hsubs', ho, hlaid⟩
    cases hsubs'
    exact ⟨o, ho, hlaid⟩
  · rintro ⟨o, ho, hlaid⟩
    exact ⟨subs, o, rfl, ho, hlaid⟩

mutual

lemma all_wellLaidOut_iff : ∀ a : Assembly, a.All WellFormed →
    (a.All WellLaidOut ↔ a.All FitsReserved) ∧
      (a.All FitsReserved → ∃ o, a.assemble = .ok o ∧ o.outline = a.outline)
  | ⟨usedTags, items, data, auxiliaryData, subs, strings, libraries, deposit⟩, hwf => by
    obtain ⟨ha, hwfs⟩ := hwf
    obtain ⟨hiff, hassemble⟩ := Assembly.allSubs_wellLaidOut_iff subs hwfs
    have hnode : AllSubs FitsReserved subs → _ := fun hfits =>
      have ⟨os, hos, houtlines⟩ := hassemble hfits
      wellLaidOut_iff ha hos houtlines
    constructor
    · constructor
      · rintro ⟨hlaid, hlaids⟩
        exact ⟨(hnode (hiff.mp hlaids)).mp hlaid, hiff.mp hlaids⟩
      · rintro ⟨hfits, hfitss⟩
        exact ⟨(hnode hfitss).mpr hfits, hiff.mpr hfitss⟩
    · rintro ⟨hfits, hfitss⟩
      obtain ⟨os, hos, houtlines⟩ := hassemble hfitss
      obtain ⟨os', o, hos', ho, hlaid⟩ := (hnode hfitss).mpr hfits
      refine ⟨o, ho, ?_⟩
      cases hos.symm.trans hos'
      rw [hlaid.outline, houtlines, outline_eq]

lemma allSubs_wellLaidOut_iff : ∀ subs : List Assembly, AllSubs WellFormed subs →
    (AllSubs WellLaidOut subs ↔ AllSubs FitsReserved subs) ∧
      (AllSubs FitsReserved subs →
        ∃ os, assembleAll subs = .ok os ∧ os.map Assembled.outline = subs.map outline)
  | [], _ => ⟨Iff.rfl, fun _ => ⟨[], rfl, rfl⟩⟩
  | s :: subs, hwf => by
    obtain ⟨hs, hassemble⟩ := Assembly.all_wellLaidOut_iff s hwf.1
    obtain ⟨hsubs, hassembles⟩ := Assembly.allSubs_wellLaidOut_iff subs hwf.2
    refine ⟨and_congr hs hsubs, ?_⟩
    rintro ⟨hfits, hfitss⟩
    obtain ⟨o, ho, houtline⟩ := hassemble hfits
    obtain ⟨os, hos, houtlines⟩ := hassembles hfitss
    refine ⟨o :: os, ?_, ?_⟩
    · rw [assembleAll, ho]
      show (assembleAll subs).map _ = _
      rw [hos]
      rfl
    · rw [map_cons, map_cons, houtline, houtlines]

end

/-- Jumps over a tag, then pushes everything there is to be pushed. -/
def pushesAll : Assembly where
  usedTags := 2
  items := [.pushTag 1, .operation .jump, .tag 1, .pushSub 0, .pushSubSize 0, .pushData 5,
    .pushProgramSize 0, .pushTag 0x10000000000000001]
  data := Std.TreeMap.empty.insert 5 [1, 2]
  subs := [{ usedTags := 2, items := [.operation .stop, .tag 1] }]

/-- Six full words and 26 offsets of an empty sub-assembly in front of a jump. -/
def manyOffsets : Assembly where
  usedTags := 2
  items := List.replicate 6 (.push (-1)) ++ List.replicate 26 (.pushSub 0) ++ [.pushTag 1, .tag 1]
  auxiliaryData := [0]
  subs := [{}]

lemma failure_manyOffsets : (match manyOffsets.assemble with
    | .error e => some e
    | .ok _ => none) = some .tagTooLargeForReservedSpace := by
  decide +kernel

end Assembly

end Sof
