import Polc.Semantics.Bytes

/-!
# Maps in CBOR

Reading maps from texts to byte strings, texts and booleans. Strings have a definite length, and
maps either tell the number of their entries or go on up to a break. For each reader there is a
lemma about what it reads back, and one about how many bytes it needs at least.
-/

namespace Semantics

open List BitVec
open Option (bind_eq_bind bind_eq_some_iff bind_some)

namespace Cbor

inductive CborValue where
  | bytes (content : List (BitVec 8))
  | text (content : List (BitVec 8))
  | bool (b : Bool)
  deriving DecidableEq, Repr

structure Entry where
  key : List (BitVec 8)
  value : CborValue
  deriving DecidableEq, Repr

/-- A number of `w` bytes. -/
def readNumber (w : ℕ) (bs : List (BitVec 8)) : Option (ℕ × List (BitVec 8)) :=
  if w ≤ bs.length then some (ofBigEndian (bs.take w), bs.drop w) else none

/-- The argument of a head, for the additional information in its first byte. -/
def readArgument (info : ℕ) (bs : List (BitVec 8)) : Option (ℕ × List (BitVec 8)) :=
  if info < 24 then some (info, bs)
  else
    match info with
    | 24 => readNumber 1 bs
    | 25 => readNumber 2 bs
    | 26 => readNumber 4 bs
    | 27 => readNumber 8 bs
    | _ => none

/-- The argument of a head of the major type. -/
def readHead (major : ℕ) : List (BitVec 8) → Option (ℕ × List (BitVec 8))
  | [] => none
  | b :: bs => if b.toNat / 32 = major then readArgument (b.toNat % 32) bs else none

def readString (major : ℕ) (bs : List (BitVec 8)) :
    Option (List (BitVec 8) × List (BitVec 8)) := do
  let (n, rest) ← readHead major bs
  if n ≤ rest.length then some (rest.take n, rest.drop n) else none

/-- Byte strings are of major type 2, texts of 3. -/
def readValue (bs : List (BitVec 8)) : Option (CborValue × List (BitVec 8)) :=
  match bs with
  | [] => none
  | b :: rest =>
    if b = 0xf4 then some (.bool false, rest)
    else if b = 0xf5 then some (.bool true, rest)
    else if b.toNat / 32 = 2 then (readString 2 bs).map fun r => (.bytes r.1, r.2)
    else (readString 3 bs).map fun r => (.text r.1, r.2)

def readEntry (bs : List (BitVec 8)) : Option (Entry × List (BitVec 8)) := do
  let (key, rest) ← readString 3 bs
  let (value, rest) ← readValue rest
  some (⟨key, value⟩, rest)

/-- So many entries. -/
def readEntries : ℕ → List (BitVec 8) → Option (List Entry × List (BitVec 8))
  | 0, bs => some ([], bs)
  | n + 1, bs => do
    let (entry, rest) ← readEntry bs
    let (entries, rest) ← readEntries n rest
    some (entry :: entries, rest)

/-- Entries up to a break, at most so many. -/
def readUntilBreak : ℕ → List (BitVec 8) → Option (List Entry × List (BitVec 8))
  | 0, _ => none
  | n + 1, bs =>
    if bs.head? = some 0xff then some ([], bs.tail)
    else do
      let (entry, rest) ← readEntry bs
      let (entries, rest) ← readUntilBreak n rest
      some (entry :: entries, rest)

/-- Maps are of major type 5. -/
def readMap (bs : List (BitVec 8)) : Option (List Entry × List (BitVec 8)) :=
  if bs.head? = some 0xbf then readUntilBreak bs.length bs.tail
  else do
    let (n, rest) ← readHead 5 bs
    readEntries n rest

/-! ### What is needed at least -/

/-- A bound for the bytes of a head with an argument. -/
def headSize (n : ℕ) : ℕ := if n < 24 then 1 else if n < 256 then 2 else 3

def CborValue.size : CborValue → ℕ
  | bytes content | text content => headSize content.length + content.length
  | bool _ => 1

def Entry.size (e : Entry) : ℕ := headSize e.key.length + e.key.length + e.value.size

def totalSize (entries : List Entry) : ℕ := (entries.map Entry.size).sum

variable {bs rest : List (BitVec 8)} {n w major info : ℕ}

lemma readNumber_size (h : readNumber w bs = some (n, rest)) :
    n < 256 ^ w ∧ rest.length + w = bs.length := by
  rw [readNumber] at h
  split_ifs at h with hw
  cases h
  have hlt := ofBigEndian_lt (bs.take w)
  rw [length_take_of_le hw] at hlt
  exact ⟨hlt, by rw [length_drop]; omega⟩

lemma headSize_le_three (n : ℕ) : headSize n ≤ 3 := by
  rw [headSize]
  split_ifs <;> omega

lemma headSize_le_two (h : n < 256) : headSize n ≤ 2 := by
  rw [headSize]
  split_ifs <;> omega

lemma readArgument_size (h : readArgument info bs = some (n, rest)) :
    rest.length + headSize n ≤ bs.length + 1 := by
  unfold readArgument at h
  split_ifs at h with hinfo
  · cases h
    rw [headSize, if_pos hinfo]
  · have hthree := headSize_le_three n
    split at h
    · obtain ⟨hn, hrest⟩ := readNumber_size h
      have htwo := headSize_le_two hn
      omega
    · obtain ⟨-, hrest⟩ := readNumber_size h
      omega
    · obtain ⟨-, hrest⟩ := readNumber_size h
      omega
    · obtain ⟨-, hrest⟩ := readNumber_size h
      omega
    · cases h

lemma readHead_size (h : readHead major bs = some (n, rest)) :
    rest.length + headSize n ≤ bs.length := by
  cases bs with
  | nil => cases h
  | cons b bs =>
    rw [readHead] at h
    split_ifs at h
    exact readArgument_size h

lemma readString_size {content : List (BitVec 8)} (h : readString major bs = some (content, rest)) :
    rest.length + headSize content.length + content.length ≤ bs.length := by
  obtain ⟨⟨n, rest'⟩, hhead, h⟩ := bind_eq_some_iff.mp h
  have hsize := readHead_size hhead
  simp only at h
  split_ifs at h with hn
  cases h
  rw [length_take_of_le hn, length_drop]
  omega

lemma readValue_size {v : CborValue} (h : readValue bs = some (v, rest)) :
    rest.length + v.size ≤ bs.length := by
  cases bs with
  | nil => cases h
  | cons b bs =>
    rw [readValue] at h
    split_ifs at h
    · cases h
      exact le_rfl
    · cases h
      exact le_rfl
    · obtain ⟨⟨content, rest'⟩, hread, heq⟩ := Option.map_eq_some_iff.mp h
      cases heq
      exact (Nat.add_assoc _ _ _).ge.trans (readString_size hread)
    · obtain ⟨⟨content, rest'⟩, hread, heq⟩ := Option.map_eq_some_iff.mp h
      cases heq
      exact (Nat.add_assoc _ _ _).ge.trans (readString_size hread)

lemma readEntry_size {e : Entry} (h : readEntry bs = some (e, rest)) :
    rest.length + e.size ≤ bs.length := by
  obtain ⟨⟨key, rest₁⟩, hkey, h⟩ := bind_eq_some_iff.mp h
  obtain ⟨⟨value, rest₂⟩, hvalue, h⟩ := bind_eq_some_iff.mp h
  cases h
  have hkey' := readString_size hkey
  have hvalue' := readValue_size hvalue
  change rest.length + (headSize key.length + key.length + value.size) ≤ bs.length
  omega

@[simp] lemma totalSize_nil : totalSize [] = 0 := rfl

@[simp] lemma totalSize_cons (e : Entry) (entries : List Entry) :
    totalSize (e :: entries) = e.size + totalSize entries := by
  rw [totalSize, map_cons, sum_cons, totalSize]

lemma readEntries_size {entries : List Entry} (h : readEntries n bs = some (entries, rest)) :
    entries.length = n ∧ rest.length + totalSize entries ≤ bs.length := by
  induction n generalizing bs entries with
  | zero =>
    cases h
    exact ⟨rfl, le_rfl⟩
  | succ n ih =>
    obtain ⟨⟨e, rest₁⟩, he, h⟩ := bind_eq_some_iff.mp h
    obtain ⟨⟨es, rest₂⟩, hes, h⟩ := bind_eq_some_iff.mp h
    cases h
    obtain ⟨hlength, hsize⟩ := ih hes
    have := readEntry_size he
    rw [length_cons, totalSize_cons]
    omega

lemma readUntilBreak_size {entries : List Entry} (h : readUntilBreak n bs = some (entries, rest)) :
    rest.length + totalSize entries + 1 ≤ bs.length := by
  induction n generalizing bs entries with
  | zero => cases h
  | succ n ih =>
    rw [readUntilBreak] at h
    split_ifs at h with hbreak
    · obtain ⟨tail, rfl⟩ := List.head?_eq_some_iff.mp hbreak
      cases h
      rfl
    · obtain ⟨⟨e, rest₁⟩, he, h⟩ := bind_eq_some_iff.mp h
      obtain ⟨⟨es, rest₂⟩, hes, h⟩ := bind_eq_some_iff.mp h
      cases h
      have := readEntry_size he
      have := ih hes
      rw [totalSize_cons]
      omega

lemma readMap_size {entries : List Entry} (h : readMap bs = some (entries, rest)) :
    rest.length + (if entries.length < 24 then 1 else 2) + totalSize entries ≤ bs.length := by
  rw [readMap] at h
  split_ifs at h with hindefinite
  · obtain ⟨tail, rfl⟩ := List.head?_eq_some_iff.mp hindefinite
    have := readUntilBreak_size h
    rw [length_cons]
    rw [tail_cons] at this
    split_ifs <;> omega
  · obtain ⟨⟨n, rest₁⟩, hhead, h⟩ := bind_eq_some_iff.mp h
    obtain ⟨rfl, hsize⟩ := readEntries_size h
    have hhead' := readHead_size hhead
    rw [headSize] at hhead'
    split_ifs at hhead' ⊢ <;> omega

/-- The shortest head for short strings. -/
def writeString (major : ℕ) (content : List (BitVec 8)) : List (BitVec 8) :=
  if content.length < 24 then .ofNat 8 (32 * major + content.length) :: content
  else .ofNat 8 (32 * major + 24) :: .ofNat 8 content.length :: content

lemma readArgument_of_lt (h : info < 24) : readArgument info bs = some (info, bs) := by
  unfold readArgument
  exact if_pos h

lemma readNumber_one (b : BitVec 8) (bs : List (BitVec 8)) :
    readNumber 1 (b :: bs) = some (b.toNat, bs) := by
  have hlength : 1 ≤ (b :: bs).length := Nat.succ_pos _
  rw [readNumber, if_pos hlength]
  simp [ofBigEndian]

lemma readString_writeString (hmajor : major < 8) {content : List (BitVec 8)}
    (hlength : content.length < 256) (rest : List (BitVec 8)) :
    readString major (writeString major content ++ rest) = some (content, rest) := by
  have hhead : readHead major (writeString major content ++ rest) =
      some (content.length, content ++ rest) := by
    rw [writeString]
    split_ifs with hshort
    · rw [List.cons_append, readHead, toNat_ofNat, Nat.mod_eq_of_lt (by omega),
        if_pos (by omega), readArgument_of_lt (by omega)]
      congr 2
      omega
    · rw [List.cons_append, readHead, toNat_ofNat, Nat.mod_eq_of_lt (by omega),
        if_pos (by omega), show (32 * major + 24) % 32 = 24 by omega]
      change readNumber 1 (.ofNat 8 content.length :: (content ++ rest)) = _
      rw [readNumber_one, toNat_ofNat, Nat.mod_eq_of_lt hlength]
  rw [readString, hhead, bind_eq_bind, bind_some]
  simp only [length_append, Nat.le_add_right, if_true, take_left, drop_left]

/-! ### Maps that are read back -/

/-- The entry without the bound for the length of its strings. -/
def writeEntry (e : Entry) : List (BitVec 8) :=
  writeString 3 e.key ++
    match e.value with
    | .bytes content => writeString 2 content
    | .text content => writeString 3 content
    | .bool b => [if b then 0xf5 else 0xf4]

/-- All strings of the value have a length that fits into a byte. -/
def CborValue.IsShort : CborValue → Prop
  | bytes content | text content => content.length < 256
  | bool _ => True

def Entry.IsShort (e : Entry) : Prop := e.key.length < 256 ∧ e.value.IsShort

lemma exists_writeString (hmajor : major < 8) (content : List (BitVec 8)) :
    ∃ b cs, writeString major content = b :: cs ∧ b.toNat / 32 = major := by
  rw [writeString]
  split_ifs with hshort
  · exact ⟨_, _, rfl, by rw [toNat_ofNat]; omega⟩
  · exact ⟨_, _, rfl, by rw [toNat_ofNat]; omega⟩

lemma readValue_of_string {b : BitVec 8} (hb : b.toNat / 32 < 7) (cs : List (BitVec 8)) :
    readValue (b :: cs) =
      if b.toNat / 32 = 2 then (readString 2 (b :: cs)).map fun r => (.bytes r.1, r.2)
      else (readString 3 (b :: cs)).map fun r => (.text r.1, r.2) := by
  have hfalse : b ≠ 0xf4 := by
    rintro rfl
    exact absurd hb (by decide)
  have htrue : b ≠ 0xf5 := by
    rintro rfl
    exact absurd hb (by decide)
  rw [readValue, if_neg hfalse, if_neg htrue]

lemma readEntry_writeEntry {e : Entry} (h : e.IsShort) (rest : List (BitVec 8)) :
    readEntry (writeEntry e ++ rest) = some (e, rest) := by
  obtain ⟨key, value⟩ := e
  obtain ⟨hkey, hvalue⟩ := h
  have hread : ∀ tail, readString 3 (writeString 3 key ++ tail) = some (key, tail) :=
    readString_writeString (by decide) hkey
  rw [readEntry, writeEntry, List.append_assoc, hread, bind_eq_bind, bind_some]
  cases value with
  | bytes content =>
    have hcontent := readString_writeString (show 2 < 8 by decide) hvalue rest
    obtain ⟨b, cs, hwrite, hb⟩ := exists_writeString (show 2 < 8 by decide) content
    simp only [hwrite, List.cons_append] at hcontent ⊢
    rw [readValue_of_string (by omega), if_pos hb, hcontent]
    rfl
  | text content =>
    have hcontent := readString_writeString (show 3 < 8 by decide) hvalue rest
    obtain ⟨b, cs, hwrite, hb⟩ := exists_writeString (show 3 < 8 by decide) content
    simp only [hwrite, List.cons_append] at hcontent ⊢
    rw [readValue_of_string (by omega), if_neg (by omega), hcontent]
    rfl
  | bool b => cases b <;> rfl

lemma readEntries_flatMap {entries : List Entry} (h : ∀ e ∈ entries, e.IsShort)
    (rest : List (BitVec 8)) :
    readEntries entries.length (entries.flatMap writeEntry ++ rest) = some (entries, rest) := by
  induction entries with
  | nil => rfl
  | cons e entries ih =>
    have hrest := ih fun e' he' => h e' (mem_cons_of_mem e he')
    simp only [length_cons, readEntries, flatMap_cons, List.append_assoc,
      readEntry_writeEntry (h e (mem_cons_self ..)), bind_eq_bind, bind_some,
      hrest]

/-- Less than 24 entries with short strings are read back. -/
theorem readMap_flatMap {entries : List Entry} (hlength : entries.length < 24)
    (h : ∀ e ∈ entries, e.IsShort) :
    readMap (.ofNat 8 (0xa0 + entries.length) :: entries.flatMap writeEntry) =
      some (entries, []) := by
  have hhead : (BitVec.ofNat 8 (0xa0 + entries.length)).toNat = 0xa0 + entries.length := by
    rw [toNat_ofNat]
    omega
  have hdefinite : ¬ (BitVec.ofNat 8 (0xa0 + entries.length) ::
      entries.flatMap writeEntry).head? = some 0xbf := by
    intro heq
    have := congrArg BitVec.toNat (Option.some.inj heq)
    rw [hhead] at this
    change 0xa0 + entries.length = 191 at this
    omega
  rw [readMap, if_neg hdefinite, readHead, hhead, if_pos (by omega),
    show (0xa0 + entries.length) % 32 = entries.length by omega, readArgument_of_lt hlength,
    bind_eq_bind, bind_some]
  have hread := readEntries_flatMap h []
  rw [append_nil] at hread
  exact hread

end Cbor

end Semantics
