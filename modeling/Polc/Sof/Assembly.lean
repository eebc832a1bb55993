import Polc.Sof.AssemblyItem

/-!
# Assemblies

`libsvmasm/Assembly.h` without source locations, named tags and the cached result of `assemble`.
A sub-assembly is part of the value of its super-assembly; sharing between assemblies is not
modelled.
-/

namespace Sof

/-- Assembly code with the data and the sub-assemblies that its items refer to. -/
structure Assembly where
  /-- The next free tag; 0 is reserved for exception. -/
  usedTags : Nat := 1
  items : List AssemblyItem := []
  data : Std.TreeMap Word (List Byte) := ∅
  /-- Data that is appended to the very end of the contract. -/
  auxiliaryData : List Byte := []
  subs : List Assembly := []
  strings : Std.TreeMap Word (List Byte) := ∅
  /-- Identifiers of libraries to be linked. -/
  libraries : Std.TreeMap Word (List Byte) := ∅
  deposit : Int := 0

/-- `insert` of every entry of `n`: entries of `m` with the same key stay. -/
def insertAll (m n : Std.TreeMap Word (List Byte)) : Std.TreeMap Word (List Byte) :=
  n.foldl (fun m k v => m.insertIfNew k v) m

lemma lookup_toList {V : Type} (m : Std.TreeMap Word V) (k : Word) :
    m.toList.lookup k = m[k]? := by
  rcases hl : m.toList.lookup k with _ | v
  · rcases hm : m[k]? with _ | v
    · rfl
    · have hmem := Std.TreeMap.mem_toList_iff_getElem?_eq_some.mpr hm
      exact absurd rfl (bne_iff_ne.mp (List.lookup_eq_none_iff.mp hl _ hmem))
  · obtain ⟨l₁, l₂, hsplit, -⟩ := List.lookup_eq_some_iff.mp hl
    have hmem : (k, v) ∈ m.toList := hsplit ▸ List.mem_append_right _ List.mem_cons_self
    exact (Std.TreeMap.mem_toList_iff_getElem?_eq_some.mp hmem).symm

namespace Assembly

/-- Append an item. Fails where the source throws "Stack underflow.". -/
def appendItem (a : Assembly) (i : AssemblyItem) : Option Assembly :=
  if 0 ≤ a.deposit then
    some { a with deposit := a.deposit + i.deposit, items := a.items ++ [i] }
  else none

/-- An item of another assembly as `append` adds it to `a`. -/
def relocate (a : Assembly) : AssemblyItem → AssemblyItem
  | .tag d => .tag (d + .ofNat 256 a.usedTags)
  | .pushTag d => .pushTag (d + .ofNat 256 a.usedTags)
  | .pushSub d => .pushSub (d + .ofNat 256 a.subs.length)
  | .pushSubSize d => .pushSubSize (d + .ofNat 256 a.subs.length)
  | i => i

/-- Append a whole assembly. The tag counter is a 32 bit number. -/
def append (a b : Assembly) : Option Assembly :=
  (b.items.foldlM (fun (r : Assembly) i => r.appendItem (r.relocate i)) a).map fun r =>
    { r with
      deposit := a.deposit + b.deposit
      usedTags := (r.usedTags + b.usedTags) % 2 ^ 32
      data := insertAll r.data b.data
      strings := insertAll r.strings b.strings
      subs := r.subs ++ b.subs
      libraries := insertAll r.libraries b.libraries }

end Assembly

/-! ### What items refer to -/

/-- Where a tag of an assembly is: at an item, which is the one with the invalid jump destination
for tag 0. -/
inductive TagTarget where
  | invalidDestination (index : Nat)
  | item (index : Nat)
  deriving DecidableEq, Repr

def TagTarget.index : TagTarget → Nat
  | invalidDestination k | item k => k

/-- What an item refers to. -/
inductive Target where
  | label (target : TagTarget)
  | destination (target : TagTarget)
  | subDestination (subId : Nat) (sub : Assembly) (target : TagTarget)
  | data (content : List Byte)
  | string (content : List Byte)
  | library (identifier : List Byte)
  | subOffset (subId : Nat) (sub : Assembly)
  | subSize (subId : Nat) (sub : Assembly)
  /-- The item refers to nothing. -/
  | itself (item : AssemblyItem)

namespace Assembly

open AssemblyItem

/-- Where a tag is, as `assemble` looks it up. -/
def tagTarget (a : Assembly) (t : Nat) : Option TagTarget :=
  if t < a.usedTags then
    if t = 0 then (a.items.findIdx? (·.placedTag.isNone)).map .invalidDestination
    else (a.items.findIdx? (· = .tag (.ofNat 256 t))).map .item
  else none

/-- The item at the place of tag `t`. -/
def isAt (t : Nat) (i : AssemblyItem) : Bool :=
  if t = 0 then i.placedTag.isNone else i = .tag (.ofNat 256 t)

lemma tagTarget_map_index (a : Assembly) {t : Nat} (ht : t < a.usedTags) :
    (a.tagTarget t).map (·.index) = a.items.findIdx? (isAt t) := by
  rw [tagTarget, if_pos ht]
  split_ifs with h0
  · have hp : isAt t = fun i => i.placedTag.isNone := by
      funext i
      exact if_pos h0
    rw [Option.map_map, hp]
    exact Option.map_id'
  · have hp : isAt t = fun i => decide (i = .tag (.ofNat 256 t)) := by
      funext i
      exact if_neg h0
    rw [Option.map_map, hp]
    exact Option.map_id'

lemma tagTarget_lt {a : Assembly} {t : Nat} {x : TagTarget} (h : a.tagTarget t = some x) :
    t < a.usedTags := by
  by_contra hlt
  rw [tagTarget, if_neg hlt] at h
  cases h

lemma findIdx_of_tagTarget {a : Assembly} {t : Nat} {x : TagTarget} (h : a.tagTarget t = some x) :
    a.items.findIdx? (isAt t) = some x.index := by
  rw [← tagTarget_map_index a (tagTarget_lt h), h, Option.map_some]

lemma tagTarget_index_lt {a : Assembly} {t : Nat} {x : TagTarget} (h : a.tagTarget t = some x) :
    x.index < a.items.length := by
  obtain ⟨hlt, -⟩ := List.findIdx?_eq_some_iff_getElem.mp (findIdx_of_tagTarget h)
  exact hlt

/-- What a tag of `a` or of one of its sub-assemblies, packed into one word, refers to. -/
def pushTagTarget (a : Assembly) (d : Word) : Option Target :=
  if (splitForeignPushTag d).1 = noSub then
    (a.tagTarget (splitForeignPushTag d).2).map .destination
  else
    a.subs[(splitForeignPushTag d).1]?.bind fun s =>
      (s.tagTarget (splitForeignPushTag d).2).map (.subDestination (splitForeignPushTag d).1 s)

/-- What an item refers to in `a`, and none if there is no such thing. Items of undefined type
cannot be assembled. -/
def target (a : Assembly) : AssemblyItem → Option Target
  | .tag d => (a.tagTarget d.toNat).map .label
  | .pushTag d => a.pushTagTarget d
  | .pushData h => a.data[h]?.map .data
  | .pushString h => a.strings[h]?.map .string
  | .pushLibraryAddress h => a.libraries[h]?.map .library
  | .pushSub d => a.subs[d.toNat % 2 ^ 64]?.map (.subOffset (d.toNat % 2 ^ 64))
  | .pushSubSize d => a.subs[d.toNat % 2 ^ 64]?.map (.subSize (d.toNat % 2 ^ 64))
  | .undefinedItem _ => none
  | i => some (.itself i)

/-- The numbers of the tags that the items place. -/
def tags (a : Assembly) : List Word :=
  a.items.filterMap placedTag

lemma mem_tags {a : Assembly} {d : Word} : d ∈ a.tags ↔ .tag d ∈ a.items := by
  simp [tags]

/-- What every assembly that was built by the interface satisfies: tags were handed out by
the tag counter and placed once, and references exist. A vector of pointers has less than
`2 ^ 60` elements. -/
structure WellFormed (a : Assembly) : Prop where
  usedTags_pos : 0 < a.usedTags
  usedTags_lt : a.usedTags < 2 ^ 32
  subs_length : a.subs.length < 2 ^ 60
  tag_pos : ∀ d ∈ a.tags, 0 < d.toNat
  tag_lt : ∀ d ∈ a.tags, d.toNat < a.usedTags
  tags_nodup : a.tags.Nodup
  resolves : ∀ i ∈ a.items, (a.target i).isSome

/-! ### All assemblies of a tree -/

mutual

/-- `p` holds of the assembly, of its sub-assemblies, of theirs and so on. -/
def All (p : Assembly → Prop) : Assembly → Prop
  | ⟨usedTags, items, data, auxiliaryData, subs, strings, libraries, deposit⟩ =>
    p ⟨usedTags, items, data, auxiliaryData, subs, strings, libraries, deposit⟩ ∧ AllSubs p subs

def AllSubs (p : Assembly → Prop) : List Assembly → Prop
  | [] => True
  | s :: subs => s.All p ∧ AllSubs p subs

end

end Assembly

end Sof

/-!
## Building assemblies

The functions of `libsvmasm/Assembly.h` that append code piece by piece. Where the source throws,
there is no result.
-/

namespace Sof

namespace Assembly

/-- `newTag` and `newPushTag`. -/
def newTag (a : Assembly) : Option (Word × Assembly) :=
  if a.usedTags < 2 ^ 32 - 1 then
    some (.ofNat 256 a.usedTags, { a with usedTags := a.usedTags + 1 })
  else none

def appendItems : List AssemblyItem → Assembly → Option Assembly
  | [], a => some a
  | i :: is, a => (a.appendItem i).bind (appendItems is)

lemma appendItems_singleton (i : AssemblyItem) (a : Assembly) :
    appendItems [i] a = a.appendItem i := by
  rw [appendItems]
  cases a.appendItem i <;> rfl

/-- Append a whole assembly and remove what it leaves on the stack but `deposit` elements. -/
def appendWithDeposit (a b : Assembly) (deposit : ℤ) : Option Assembly :=
  if deposit ≤ b.deposit then
    (a.append b).bind
      (appendItems (List.replicate (b.deposit - deposit).toNat (.operation .pop)))
  else none

/-- `appendJump` to a tag. -/
def appendJump (tag : Word) (a : Assembly) : Option Assembly :=
  appendItems [.pushTag tag, .operation .jump] a

/-- `appendJumpI` to a tag. -/
def appendJumpI (tag : Word) (a : Assembly) : Option Assembly :=
  appendItems [.pushTag tag, .operation .jumpi] a

def setDeposit (deposit : ℤ) (a : Assembly) : Option Assembly :=
  if 0 ≤ deposit then some { a with deposit := deposit } else none

/-- Append the push of a string under its hash. -/
def appendString (hash : Word) (content : List Byte) (a : Assembly) : Option Assembly :=
  { a with strings := a.strings.insert hash content }.appendItem (.pushString hash)

/-- Append the push of the position of data under its hash. -/
def appendData (hash : Word) (content : List Byte) (a : Assembly) : Option Assembly :=
  { a with data := a.data.insert hash content }.appendItem (.pushData hash)

/-- Add a sub-assembly and append the push of its size; also the number of the sub-assembly. -/
def appendSubroutine (sub a : Assembly) : Option (Word × Assembly) :=
  ({ a with subs := a.subs ++ [sub] }.appendItem (.pushSubSize (.ofNat 256 a.subs.length))).map
    fun r => (.ofNat 256 a.subs.length, r)

def injectStart (i : AssemblyItem) (a : Assembly) : Assembly := { a with items := i :: a.items }

/-- The string that the last item pushes. -/
def backString (a : Assembly) : List Byte :=
  match a.items.getLast? with
  | some (.pushString hash) => a.strings[hash]?.getD []
  | _ => []

end Assembly

end Sof
