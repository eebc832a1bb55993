import Polc.Interface.Remappings
import Polc.Semantics.Texts

/-!
# Compressed source mappings

`CompilerStack::computeSourceMapping` of `libpolynomial/interface/CompilerStack.cpp`, and the
expansion of its output as `docs/miscellaneous.rst` describes it.
-/

namespace Polynomial

open Semantics List Option

namespace CompilerStack

/-- Without a name the location belongs to no source. -/
structure SourceLocation where
  start : ℤ
  finish : ℤ
  source : Option SourcePath
  deriving DecidableEq, Repr

inductive JumpType where
  | ordinary
  | intoFunction
  | outOfFunction
  deriving DecidableEq, Repr

/-- What the mapping reads of an assembly item. -/
structure MappedItem where
  location : SourceLocation
  jumpType : JumpType
  deriving DecidableEq, Repr

structure SourceMapEntry where
  start : ℤ
  length : ℤ
  sourceIndex : ℤ
  jump : Char
  deriving DecidableEq, Repr

/-- The position of each source name among the sources. -/
def sourceIndices (sources : List SourcePath) (name : SourcePath) : Option ℕ := sources.idxOf? name

namespace MappedItem

variable (sources : List SourcePath) (item : MappedItem)

def length : ℤ :=
  if item.location.start ≠ -1 ∧ item.location.finish ≠ -1 then
    item.location.finish - item.location.start
  else -1

def sourceIndex : ℤ :=
  match item.location.source.bind (sourceIndices sources) with
  | some index => index
  | none => -1

def jump : Char :=
  match item.jumpType with
  | .intoFunction => 'i'
  | .outOfFunction => 'o'
  | .ordinary => '-'

def entry : SourceMapEntry :=
  ⟨item.location.start, item.length, item.sourceIndex sources, item.jump⟩

end MappedItem

/-- The number of fields that are written. -/
def components (prev cur : SourceMapEntry) : ℕ :=
  if cur.jump = prev.jump then
    if cur.sourceIndex = prev.sourceIndex then
      if cur.length = prev.length then
        if cur.start = prev.start then 0 else 1
      else 2
    else 3
  else 4

def element (prev cur : SourceMapEntry) : List Char :=
  let components := components prev cur
  if 0 < components then
    (if cur.start ≠ prev.start then decimalText cur.start else []) ++
    if 1 < components then
      ':' :: ((if cur.length ≠ prev.length then decimalText cur.length else []) ++
      if 2 < components then
        ':' :: ((if cur.sourceIndex ≠ prev.sourceIndex then decimalText cur.sourceIndex else []) ++
        if 3 < components then
          ':' :: (if cur.jump ≠ prev.jump then [cur.jump] else [])
        else [])
      else [])
    else []
  else []

/-- The output so far and the previous values. -/
def mapItem (sources : List SourcePath) (s : List Char × SourceMapEntry) (item : MappedItem) :
    List Char × SourceMapEntry :=
  ((if s.1 ≠ [] then s.1 ++ [';'] else s.1) ++ element s.2 (item.entry sources),
    item.entry sources)

def computeSourceMapping (sources : List SourcePath) (items : List MappedItem) : List Char :=
  (items.foldl (mapItem sources) ([], ⟨-1, -1, -1, .ofNat 0⟩)).1

/-- If a field is empty, the value of the preceding element is used. -/
def expandField {α : Type} (read : List Char → Option α) (prev : α) (field : List Char) :
    Option α :=
  if field = [] then some prev else read field

def readJump : List Char → Option Char
  | [c] => some c
  | _ => none

/-- If a `:` is missing, all following fields are considered empty. -/
def expandElement (prev : SourceMapEntry) (text : List Char) : Option SourceMapEntry :=
  let fields := text.splitOn ':'
  if fields.length ≤ 4 then do
    let start ← expandField readDecimal prev.start (fields.getD 0 [])
    let length ← expandField readDecimal prev.length (fields.getD 1 [])
    let sourceIndex ← expandField readDecimal prev.sourceIndex (fields.getD 2 [])
    let jump ← expandField readJump prev.jump (fields.getD 3 [])
    some ⟨start, length, sourceIndex, jump⟩
  else none

def expandElements : SourceMapEntry → List (List Char) → Option (List SourceMapEntry)
  | _, [] => some []
  | prev, text :: texts => do
    let cur ← expandElement prev text
    let rest ← expandElements cur texts
    some (cur :: rest)

/-- The entries of a source mapping, with some jump before the first element. -/
def expand (jump : Char) (mapping : List Char) : Option (List SourceMapEntry) :=
  expandElements ⟨-1, -1, -1, jump⟩ (mapping.splitOn ';')

/-! ### Elements and their fields -/

/-- The fields with those left out that are repeated. -/
def fields (prev cur : SourceMapEntry) : List (List Char) :=
  [if cur.start ≠ prev.start then decimalText cur.start else [],
    if cur.length ≠ prev.length then decimalText cur.length else [],
    if cur.sourceIndex ≠ prev.sourceIndex then decimalText cur.sourceIndex else [],
    if cur.jump ≠ prev.jump then [cur.jump] else []]

variable {prev cur : SourceMapEntry}

lemma element_eq :
    element prev cur = [':'].intercalate ((fields prev cur).take (components prev cur)) := by
  simp only [element, fields]
  generalize components prev cur = n
  match n with
  | 0 => rfl
  | 1 => simp
  | 2 => simp
  | 3 => simp
  | n + 4 => simp

lemma eq_nil_of_mem_drop_components :
    ∀ field ∈ (fields prev cur).drop (components prev cur), field = [] := by
  by_cases hjump : cur.jump = prev.jump
  · by_cases hindex : cur.sourceIndex = prev.sourceIndex
    · by_cases hlength : cur.length = prev.length
      · by_cases hstart : cur.start = prev.start
        · simp [components, fields, hjump, hindex, hlength, hstart]
        · simp [components, fields, hjump, hindex, hlength, hstart]
      · simp [components, fields, hjump, hindex, hlength]
    · simp [components, fields, hjump, hindex]
  · simp [components, fields, hjump]

lemma getD_take_components (i : ℕ) :
    ((fields prev cur).take (components prev cur)).getD i [] = (fields prev cur).getD i [] := by
  simp only [getD_eq_getElem?_getD, getElem?_take]
  split_ifs with hi
  · rfl
  · symm
    cases hfield : (fields prev cur)[i]? with
    | none => rfl
    | some field =>
      have hdrop : ((fields prev cur).drop (components prev cur))[i - components prev cur]? =
          some field := by
        rw [getElem?_drop, Nat.add_sub_cancel' (Nat.not_lt.mp hi), hfield]
      exact eq_nil_of_mem_drop_components field (mem_of_getElem? hdrop)

/-- A character that separates elements or fields. -/
def IsSeparator (c : Char) : Prop := c = ';' ∨ c = ':'

lemma notMem_decimalText {c : Char} (hc : IsSeparator c) (i : ℤ) : c ∉ decimalText i := by
  intro hmem
  rcases hc with rfl | rfl <;> rcases mem_decimalText hmem with h | h <;> exact absurd h (by decide)

lemma notMem_fields {c : Char} (hc : IsSeparator c) (hjump : ¬ IsSeparator cur.jump)
    {field : List Char} (h : field ∈ fields prev cur) : c ∉ field := by
  have hne : c ≠ cur.jump := fun heq => hjump (heq ▸ hc)
  simp only [fields, mem_cons, not_mem_nil, or_false] at h
  rcases h with rfl | rfl | rfl | rfl <;> split_ifs
  all_goals first
    | exact not_mem_nil
    | exact notMem_decimalText hc _
    | exact fun hmem => hne (mem_singleton.mp hmem)

lemma splitOn_element (prev : SourceMapEntry) (hjump : ¬ IsSeparator cur.jump) :
    ((element prev cur).splitOn ':').length ≤ 4 ∧
      ∀ i, ((element prev cur).splitOn ':').getD i [] = (fields prev cur).getD i [] := by
  by_cases hnil : (fields prev cur).take (components prev cur) = []
  · rw [element_eq, hnil]
    refine ⟨by decide, fun i => ?_⟩
    rw [← getD_take_components, hnil]
    cases i <;> rfl
  · have hsplit : (element prev cur).splitOn ':' =
        (fields prev cur).take (components prev cur) := by
      rw [element_eq]
      apply splitOn_intercalate _ _ hnil
      intro field hfield
      exact notMem_fields (.inr rfl) hjump (mem_of_mem_take hfield)
    rw [hsplit]
    exact ⟨length_take_le' _ _, getD_take_components⟩

lemma mem_intercalate {c sep : Char} {texts : List (List Char)}
    (h : c ∈ [sep].intercalate texts) : c = sep ∨ ∃ text ∈ texts, c ∈ text := by
  induction texts with
  | nil => exact absurd h not_mem_nil
  | cons text texts ih =>
    by_cases hnil : texts = []
    · subst hnil
      rw [intercalate_singleton] at h
      exact .inr ⟨text, mem_singleton_self text, h⟩
    · rw [intercalate_cons_of_ne_nil hnil, append_assoc] at h
      rcases mem_append.mp h with h | h
      · exact .inr ⟨text, mem_cons_self .., h⟩
      · rcases mem_cons.mp h with h | h
        · exact .inl h
        · rcases ih h with h | ⟨text', hmem, h⟩
          · exact .inl h
          · exact .inr ⟨text', mem_cons_of_mem text hmem, h⟩

lemma notMem_element (hjump : ¬ IsSeparator cur.jump) : ';' ∉ element prev cur := by
  rw [element_eq]
  intro hmem
  rcases mem_intercalate hmem with h | ⟨field, hfield, h⟩
  · exact absurd h (by decide)
  · exact notMem_fields (.inl rfl) hjump (mem_of_mem_take hfield) h

lemma expandField_eq {α : Type} [DecidableEq α] {read : List Char → Option α} {x y z : α}
    {text : List Char} (hread : read text = some x) (hne : text ≠ []) (hz : x = y → z = x) :
    expandField read z (if x ≠ y then text else []) = some x := by
  rw [expandField]
  by_cases hxy : x = y
  · rw [if_neg (not_not.mpr hxy), if_pos rfl, hz hxy]
  · rw [if_pos hxy, if_neg hne, hread]

lemma expandElement_element {jump : Char} (hjump : ¬ IsSeparator cur.jump)
    (h : cur.jump = prev.jump → jump = cur.jump) :
    expandElement { prev with jump := jump } (element prev cur) = some cur := by
  obtain ⟨hlength, hfields⟩ := splitOn_element prev hjump
  have hdecimal (x y : ℤ) :
      expandField readDecimal y (if x ≠ y then decimalText x else []) = some x :=
    expandField_eq (readDecimal_decimalText x) (decimalText_ne_nil x) Eq.symm
  have hlast : expandField readJump jump (if cur.jump ≠ prev.jump then [cur.jump] else []) =
      some cur.jump := expandField_eq rfl (cons_ne_nil _ _) h
  simp only [expandElement, if_pos hlength, hfields]
  change (do
    let start ← expandField readDecimal prev.start
      (if cur.start ≠ prev.start then decimalText cur.start else [])
    let length ← expandField readDecimal prev.length
      (if cur.length ≠ prev.length then decimalText cur.length else [])
    let sourceIndex ← expandField readDecimal prev.sourceIndex
      (if cur.sourceIndex ≠ prev.sourceIndex then decimalText cur.sourceIndex else [])
    let jump ← expandField readJump jump (if cur.jump ≠ prev.jump then [cur.jump] else [])
    some (⟨start, length, sourceIndex, jump⟩ : SourceMapEntry)) = some cur
  simp only [hdecimal, hlast, bind_eq_bind, bind_some]

/-! ### The whole mapping -/

def elements : SourceMapEntry → List SourceMapEntry → List (List Char)
  | _, [] => []
  | prev, cur :: entries => element prev cur :: elements cur entries

lemma expandElements_elements {entries : List SourceMapEntry}
    (h : ∀ entry ∈ entries, ¬ IsSeparator entry.jump) :
    expandElements prev (elements prev entries) = some entries := by
  induction entries generalizing prev with
  | nil => rfl
  | cons cur entries ih =>
    have hcur : expandElement prev (element prev cur) = some cur :=
      expandElement_element (h cur (mem_cons_self ..)) Eq.symm
    rw [elements, expandElements, hcur, bind_eq_bind, bind_some,
      ih fun entry hentry => h entry (mem_cons_of_mem cur hentry)]
    rfl

lemma notMem_elements {entries : List SourceMapEntry}
    (h : ∀ entry ∈ entries, ¬ IsSeparator entry.jump) :
    ∀ text ∈ elements prev entries, ';' ∉ text := by
  induction entries generalizing prev with
  | nil => exact fun _ hmem => absurd hmem not_mem_nil
  | cons cur entries ih =>
    intro text hmem
    rcases mem_cons.mp hmem with rfl | hmem
    · exact notMem_element (h cur (mem_cons_self ..))
    · exact ih (fun entry hentry => h entry (mem_cons_of_mem cur hentry)) text hmem

variable {sources : List SourcePath} {item : MappedItem} {items : List MappedItem}

lemma not_isSeparator_jump : ¬ IsSeparator (item.entry sources).jump := by
  change ¬ IsSeparator item.jump
  rw [MappedItem.jump]
  rintro (h | h) <;> cases hj : item.jumpType <;> rw [hj] at h <;> exact absurd h (by decide)

lemma foldl_mapItem {ret : List Char} (hret : ret ≠ []) :
    (items.foldl (mapItem sources) (ret, prev)).1 =
      ret ++ (elements prev (items.map (MappedItem.entry sources))).flatMap (';' :: ·) := by
  induction items generalizing ret prev with
  | nil => exact (append_nil ret).symm
  | cons item items ih =>
    rw [foldl_cons, mapItem, if_pos hret, ih (by simp), map_cons, elements,
      flatMap_cons]
    simp only [append_assoc, nil_append, cons_append]

lemma intercalate_cons_eq (text : List Char) (texts : List (List Char)) :
    [';'].intercalate (text :: texts) = text ++ texts.flatMap (';' :: ·) := by
  induction texts generalizing text with
  | nil => rw [intercalate_singleton, flatMap_nil, append_nil]
  | cons text' texts ih =>
    rw [intercalate_cons_of_ne_nil (cons_ne_nil _ _), ih, flatMap_cons]
    simp only [append_assoc, nil_append, cons_append]

lemma element_ne_nil (h : cur.jump ≠ prev.jump) : element prev cur ≠ [] := by
  have hcomponents : components prev cur = 4 := if_neg h
  simp [element, hcomponents]

lemma jump_entry_ne : (item.entry sources).jump ≠ Char.ofNat 0 := by
  change item.jump ≠ Char.ofNat 0
  rw [MappedItem.jump]
  cases item.jumpType <;> decide

lemma computeSourceMapping_cons : computeSourceMapping sources (item :: items) =
    [';'].intercalate (element ⟨-1, -1, -1, .ofNat 0⟩ (item.entry sources) ::
      elements (item.entry sources) (items.map (MappedItem.entry sources))) := by
  rw [computeSourceMapping, foldl_cons, mapItem, if_neg (not_not.mpr rfl), nil_append,
    foldl_mapItem (element_ne_nil jump_entry_ne), intercalate_cons_eq]

/-- The mapping of at least one item expands to one entry per item, the item's own, and that of no
item is empty. -/
theorem expand_computeSourceMapping (jump : Char) (sources : List SourcePath) (item : MappedItem)
    (items : List MappedItem) :
    expand jump (computeSourceMapping sources (item :: items)) =
      some ((item :: items).map (MappedItem.entry sources)) ∧
    computeSourceMapping sources [] = [] := by
  refine ⟨?_, rfl⟩
  have hentry (item : MappedItem) : ¬ IsSeparator (item.entry sources).jump := not_isSeparator_jump
  have hitems : ∀ entry ∈ items.map (MappedItem.entry sources), ¬ IsSeparator entry.jump := by
    intro entry hmem
    obtain ⟨item, -, rfl⟩ := List.mem_map.mp hmem
    exact hentry item
  have hfirst : expandElement ⟨-1, -1, -1, jump⟩
      (element ⟨-1, -1, -1, .ofNat 0⟩ (item.entry sources)) = some (item.entry sources) :=
    expandElement_element (hentry item) fun h => absurd h jump_entry_ne
  have hsplit : (computeSourceMapping sources (item :: items)).splitOn ';' =
      element ⟨-1, -1, -1, .ofNat 0⟩ (item.entry sources) ::
        elements (item.entry sources) (items.map (MappedItem.entry sources)) := by
    rw [computeSourceMapping_cons]
    apply splitOn_intercalate _ _ (cons_ne_nil _ _)
    intro text hmem
    rcases mem_cons.mp hmem with rfl | hmem
    · exact notMem_element (hentry item)
    · exact notMem_elements hitems text hmem
  rw [expand, hsplit, expandElements, hfirst, bind_eq_bind, bind_some,
    expandElements_elements hitems]
  rfl

/-- The mapping of no item is one empty element, which expands to an entry. -/
theorem expand_computeSourceMapping_nil :
    ¬ ∀ (jump : Char) (sources : List SourcePath) (items : List MappedItem),
      expand jump (computeSourceMapping sources items) =
        some (items.map (MappedItem.entry sources)) := by
  intro h
  exact absurd (h '-' [] []) (by decide)

end CompilerStack

end Polynomial
