import Polc.Semantics.Cbor

/-!
# Encoding of the metadata

`MetadataCBOREncoder` of `libpolynomial/interface/CompilerStack.cpp`. Strings are lists of bytes,
and the lengths the encoder computes with are truncated to 32 bits.
-/

namespace Polynomial

open Semantics Semantics.Cbor List Option

structure MetadataCBOREncoder where
  entryCount : ℕ := 0
  data : List (BitVec 8) := []
  deriving DecidableEq, Repr

namespace MetadataCBOREncoder

variable (encoder : MetadataCBOREncoder)

/-- A string whose head is `shortHead` plus the length, or `longHead` and the length. Fails if an
assertion does. -/
def pushSized (shortHead longHead : ℕ) (key : List (BitVec 8)) : Option MetadataCBOREncoder :=
  let length := key.length % 2 ^ 32
  if length < 24 then
    some { encoder with data := encoder.data ++ [.ofNat 8 (shortHead + length)] ++ key }
  else if length ≤ 256 then
    some { encoder with
      data := encoder.data ++ [.ofNat 8 longHead, .ofNat 8 length] ++ key }
  else none

def pushTextString (key : List (BitVec 8)) : Option MetadataCBOREncoder :=
  encoder.pushSized 0x60 0x78 key

def pushByteString (key : List (BitVec 8)) : Option MetadataCBOREncoder :=
  encoder.pushSized 0x40 0x58 key

def pushBoolValue (value : Bool) : MetadataCBOREncoder :=
  { encoder with data := encoder.data ++ [if value then 0xf5 else 0xf4] }

def countEntry : MetadataCBOREncoder :=
  { encoder with entryCount := (encoder.entryCount + 1) % 2 ^ 32 }

def pushBytes (key value : List (BitVec 8)) : Option MetadataCBOREncoder := do
  let encoder ← encoder.countEntry.pushTextString key
  encoder.pushByteString value

def pushString (key value : List (BitVec 8)) : Option MetadataCBOREncoder := do
  let encoder ← encoder.countEntry.pushTextString key
  encoder.pushTextString value

def pushBool (key : List (BitVec 8)) (value : Bool) : Option MetadataCBOREncoder := do
  let encoder ← encoder.countEntry.pushTextString key
  some (encoder.pushBoolValue value)

/-- `toCompactBigEndian(size, 2)` of a size below `2 ^ 16` takes two bytes. -/
def serialise : Option (List (BitVec 8)) :=
  let size := (encoder.data.length + 1) % 2 ^ 32
  if 0xffff < size then none
  else if 0x1f < encoder.entryCount then none
  else some ([.ofNat 8 (0xa0 + encoder.entryCount)] ++ encoder.data ++ toBigEndian 2 size)

def pushEntry (e : Entry) : Option MetadataCBOREncoder :=
  match e.value with
  | .bytes value => encoder.pushBytes e.key value
  | .text value => encoder.pushString e.key value
  | .bool value => encoder.pushBool e.key value

/-- Push the entries one after the other and serialise. -/
def encode (entries : List Entry) : Option (List (BitVec 8)) := do
  let encoder ← entries.foldlM pushEntry {}
  encoder.serialise

/-- One map, followed by its length in two bytes. -/
def decode (metadata : List (BitVec 8)) : Option (List Entry) :=
  let body := metadata.take (metadata.length - 2)
  if ofBigEndian (metadata.drop (metadata.length - 2)) = body.length then
    match readMap body with
    | some (entries, []) => some entries
    | _ => none
  else none

/-! ### What is added to the data -/

/-- Where the strings are short enough the chunk is what should be written, and elsewhere it is too
small. -/
structure Adds (chunk written : List (BitVec 8)) (size : ℕ) (short : Prop) : Prop where
  eq : short → chunk = written
  le : chunk.length ≤ size
  lt : ¬ short → chunk.length < size

namespace Adds

variable {c c' w w' : List (BitVec 8)} {n n' : ℕ} {P P' : Prop}

lemma append (h : Adds c w n P) (h' : Adds c' w' n' P') :
    Adds (c ++ c') (w ++ w') (n + n') (P ∧ P') where
  eq hshort := by rw [h.eq hshort.1, h'.eq hshort.2]
  le := by
    rw [length_append]
    exact Nat.add_le_add h.le h'.le
  lt hlong := by
    rw [length_append]
    by_cases hP : P
    · exact Nat.add_lt_add_of_le_of_lt h.le (h'.lt fun hP' => hlong ⟨hP, hP'⟩)
    · exact Nat.add_lt_add_of_lt_of_le (h.lt hP) h'.le

lemma congr (h : Adds c w n P) (hP : P ↔ P') : Adds c w n P' :=
  ⟨fun h' => h.eq (hP.mpr h'), h.le, fun h' => h.lt fun h'' => h' (hP.mp h'')⟩

end Adds

variable {encoder} {r : MetadataCBOREncoder} {key : List (BitVec 8)}

lemma pushSized_adds (major : ℕ)
    (h : encoder.pushSized (32 * major) (32 * major + 24) key = some r) :
    r.entryCount = encoder.entryCount ∧ ∃ chunk, r.data = encoder.data ++ chunk ∧
      Adds chunk (writeString major key) (headSize key.length + key.length) (key.length < 256) := by
  simp only [pushSized] at h
  split_ifs at h with hshort hlong
  · cases h
    refine ⟨rfl, _, append_assoc _ _ _, ?_, ?_, ?_⟩
    · intro hlength
      rw [Nat.mod_eq_of_lt (by omega)] at hshort ⊢
      rw [writeString, if_pos hshort, singleton_append]
    · rw [length_append, length_singleton, headSize]
      split_ifs <;> omega
    · intro hlength
      rw [length_append, length_singleton, headSize, if_neg (by omega),
        if_neg hlength]
      omega
  · cases h
    refine ⟨rfl, _, append_assoc _ _ _, ?_, ?_, ?_⟩
    · intro hlength
      rw [Nat.mod_eq_of_lt (by omega)] at hshort ⊢
      rw [writeString, if_neg hshort]
      rfl
    · rw [length_append, headSize, if_neg (by omega)]
      split_ifs <;> simp only [length_cons, length_nil] <;> omega
    · intro hlength
      rw [length_append, headSize, if_neg (by omega), if_neg hlength]
      simp only [length_cons, length_nil]
      omega

lemma pushEntry_adds {e : Entry} (h : encoder.pushEntry e = some r) :
    r.entryCount = (encoder.entryCount + 1) % 2 ^ 32 ∧ ∃ chunk, r.data = encoder.data ++ chunk ∧
      Adds chunk (writeEntry e) e.size e.IsShort := by
  obtain ⟨key, value⟩ := e
  cases value with
  | bytes content =>
    obtain ⟨r', hkey, hvalue⟩ := bind_eq_some_iff.mp h
    obtain ⟨hcount, chunk, hdata, hadds⟩ := pushSized_adds 3 hkey
    obtain ⟨hcount', chunk', hdata', hadds'⟩ := pushSized_adds 2 hvalue
    refine ⟨hcount'.trans hcount, chunk ++ chunk', ?_, hadds.append hadds'⟩
    rw [hdata', hdata, append_assoc]
    rfl
  | text content =>
    obtain ⟨r', hkey, hvalue⟩ := bind_eq_some_iff.mp h
    obtain ⟨hcount, chunk, hdata, hadds⟩ := pushSized_adds 3 hkey
    obtain ⟨hcount', chunk', hdata', hadds'⟩ := pushSized_adds 3 hvalue
    refine ⟨hcount'.trans hcount, chunk ++ chunk', ?_, hadds.append hadds'⟩
    rw [hdata', hdata, append_assoc]
    rfl
  | bool b =>
    obtain ⟨r', hkey, hvalue⟩ := bind_eq_some_iff.mp h
    obtain ⟨hcount, chunk, hdata, hadds⟩ := pushSized_adds 3 hkey
    cases hvalue
    have hbool : Adds [if b then 0xf5 else 0xf4] [if b then 0xf5 else 0xf4] 1 True :=
      ⟨fun _ => rfl, le_rfl, fun h => absurd trivial h⟩
    refine ⟨hcount, chunk ++ [if b then 0xf5 else 0xf4], ?_, hadds.append hbool⟩
    change r'.data ++ _ = _
    rw [hdata, append_assoc]
    rfl

lemma foldlM_adds {entries : List Entry} (h : entries.foldlM pushEntry encoder = some r)
    (hcount : encoder.entryCount < 2 ^ 32) :
    r.entryCount = (encoder.entryCount + entries.length) % 2 ^ 32 ∧
    ∃ chunk, r.data = encoder.data ++ chunk ∧
      Adds chunk (entries.flatMap writeEntry) (totalSize entries) (∀ e ∈ entries, e.IsShort) := by
  induction entries generalizing encoder with
  | nil =>
    cases h
    refine ⟨(Nat.mod_eq_of_lt hcount).symm, [], (append_nil _).symm, fun _ => rfl, le_rfl, ?_⟩
    intro hlong
    exact absurd (fun e he => absurd he not_mem_nil) hlong
  | cons e entries ih =>
    rw [foldlM_cons] at h
    obtain ⟨r', he, hentries⟩ := bind_eq_some_iff.mp h
    obtain ⟨hcount', chunk, hdata, hadds⟩ := pushEntry_adds he
    obtain ⟨hcount'', chunk', hdata', hadds'⟩ := ih hentries (by omega)
    refine ⟨?_, chunk ++ chunk', ?_, ?_⟩
    · rw [hcount'', hcount', length_cons]
      omega
    · rw [hdata', hdata, append_assoc]
    · rw [flatMap_cons, totalSize_cons]
      exact (hadds.append hadds').congr List.forall_mem_cons.symm

/-! ### The round trip -/

lemma size_le_of_isShort {e : Entry} (h : e.IsShort) : e.size ≤ 514 := by
  obtain ⟨key, value⟩ := e
  obtain ⟨hkey, hvalue⟩ := h
  change key.length < 256 at hkey
  change headSize key.length + key.length + value.size ≤ 514
  have hkey' := headSize_le_two hkey
  cases value with
  | bytes content | text content =>
    change content.length < 256 at hvalue
    have hcontent := headSize_le_two hvalue
    rw [CborValue.size]
    omega
  | bool b =>
    rw [CborValue.size]
    omega

lemma totalSize_le_of_isShort {entries : List Entry} (h : ∀ e ∈ entries, e.IsShort) :
    totalSize entries ≤ 514 * entries.length := by
  induction entries with
  | nil => exact Nat.zero_le _
  | cons e entries ih =>
    have he := size_le_of_isShort (h e (mem_cons_self ..))
    have hrest := ih fun e' he' => h e' (mem_cons_of_mem e he')
    rw [totalSize_cons, length_cons]
    omega

lemma exists_of_encode {entries : List Entry} {metadata : List (BitVec 8)}
    (h : encode entries = some metadata) :
    ∃ data, metadata = (.ofNat 8 (0xa0 + entries.length % 2 ^ 32) :: data) ++
        toBigEndian 2 ((data.length + 1) % 2 ^ 32) ∧
      (data.length + 1) % 2 ^ 32 ≤ 0xffff ∧
      Adds data (entries.flatMap writeEntry) (totalSize entries) (∀ e ∈ entries, e.IsShort) := by
  obtain ⟨encoder, hpush, h⟩ := bind_eq_some_iff.mp h
  obtain ⟨hcount, data, hdata, hadds⟩ := foldlM_adds hpush (by decide)
  rw [nil_append] at hdata
  simp only [serialise] at h
  split_ifs at h with hsize hentries
  cases h
  refine ⟨data, ?_, ?_, hadds⟩
  · rw [hcount, hdata, Nat.zero_add]
    rfl
  · rw [← hdata]
    omega

lemma decode_append (body : List (BitVec 8)) {size : ℕ} (hsize : size ≤ 0xffff) :
    decode (body ++ toBigEndian 2 size) =
      if size = body.length then
        match readMap body with
        | some (entries, []) => some entries
        | _ => none
      else none := by
  have hlength : (body ++ toBigEndian 2 size).length - 2 = body.length := by
    rw [length_append, length_toBigEndian]
    omega
  have hread : ofBigEndian (toBigEndian 2 size) = size :=
    ofBigEndian_toBigEndian_eq_iff.mpr (by omega)
  rw [decode, hlength, take_left, drop_left, hread]

/-- Encoded entries are read back, with their length behind them, if and only if there are less than
24 of them and all of their strings are shorter than 256 bytes. -/
theorem decode_encode_iff (entries : List Entry) (metadata : List (BitVec 8))
    (h : encode entries = some metadata) :
    decode metadata = some entries ↔ entries.length < 24 ∧ ∀ e ∈ entries, e.IsShort := by
  obtain ⟨data, rfl, hsize, hadds⟩ := exists_of_encode h
  rw [decode_append _ hsize]
  constructor
  · intro hdecode
    split_ifs at hdecode
    split at hdecode
    · rename_i entries' hread
      cases hdecode
      have hneeded := readMap_size hread
      have hle := hadds.le
      simp only [length_nil, length_cons] at hneeded
      refine ⟨?_, ?_⟩
      · by_contra hmany
        rw [if_neg hmany] at hneeded
        omega
      · by_contra hlong
        have hlt := hadds.lt hlong
        split_ifs at hneeded <;> omega
    · cases hdecode
  · rintro ⟨hlength, hshort⟩
    have hle := hadds.le
    have hbound := totalSize_le_of_isShort hshort
    have hcount : entries.length % 2 ^ 32 = entries.length := Nat.mod_eq_of_lt (by omega)
    have hfits : (data.length + 1) % 2 ^ 32 = data.length + 1 := Nat.mod_eq_of_lt (by omega)
    rw [hcount, hfits, length_cons, if_pos rfl, hadds.eq hshort,
      readMap_flatMap hlength hshort]

/-- An entry with short strings is read back. -/
theorem decode_encode_short :
    decode [0xa1, 0x61, 1, 0x42, 2, 3, 0, 6] = some [⟨[1], .bytes [2, 3]⟩] :=
  (decode_encode_iff [⟨[1], .bytes [2, 3]⟩] _ rfl).mpr ⟨by decide, by
    intro e he
    obtain rfl := List.mem_singleton.mp he
    exact ⟨by decide, show 2 < 256 by decide⟩⟩

/-- The head of a text of 256 bytes gives a length of zero. -/
theorem decode_encode_long :
    ¬ ∀ (entries : List Entry) (metadata : List (BitVec 8)), encode entries = some metadata →
      decode metadata = some entries := by
  intro h
  have hencoded : (encode [⟨[], .text (List.replicate 256 0)⟩]).isSome = true := by decide +kernel
  have hdecoded : (encode [⟨[], .text (List.replicate 256 0)⟩]).bind decode ≠
      some [⟨[], .text (List.replicate 256 0)⟩] := by
    decide +kernel
  obtain ⟨metadata, hmetadata⟩ := isSome_iff_exists.mp hencoded
  rw [hmetadata, bind_some] at hdecoded
  exact hdecoded (h _ metadata hmetadata)

end MetadataCBOREncoder

end Polynomial
