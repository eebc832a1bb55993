import Polc.Langutil.Exceptions
import Mathlib.Data.BitVec

/-!
# Storage offsets

`StorageOffsets` of `libpolynomial/ast/Types.cpp` gives every state variable or struct member that
can be stored a slot and a byte offset in it. Small types share a slot. Slots are counted
without bound and the result is checked against the 2^256 slots that there are.
-/

namespace Polynomial

open Langutil List

/-- What `computeOffsets` asks a type. The assertion on `storageSize` is a field. -/
structure StorageType where
  canBeStored : Bool
  /-- The bytes of a slot that a value needs. -/
  storageBytes : ℕ
  /-- The number of slots that a value needs. -/
  storageSize : BitVec 256
  storageBytes_pos : 0 < storageBytes
  storageBytes_le : storageBytes ≤ 32
  storageSize_pos : 0 < storageSize.toNat

/-- The offsets of the types that can be stored, by the index of the type. -/
structure StorageOffsets where
  offsets : List (Option (BitVec 256 × ℕ))
  storageSize : BitVec 256
  deriving DecidableEq, Repr

namespace StorageOffsets

/-- The slot and the byte offset that the loop keeps. -/
structure Position where
  slotOffset : ℕ
  byteOffset : ℕ
  deriving DecidableEq, Repr

namespace Position

/-- Go to the next slot if a value of the type would overflow this one. -/
def fit (p : Position) (type : StorageType) : Position :=
  if p.byteOffset + type.storageBytes > 32 then ⟨p.slotOffset + 1, 0⟩ else p

/-- Where the next value can start at the earliest. -/
def advance (p : Position) (type : StorageType) : Position :=
  if type.storageSize = 1 ∧ p.byteOffset + type.storageBytes ≤ 32 then
    ⟨p.slotOffset, p.byteOffset + type.storageBytes⟩
  else ⟨p.slotOffset + type.storageSize.toNat, 0⟩

/-- The number of slots in use, the last one possibly only in part. -/
def usedSlots (p : Position) : ℕ :=
  if 0 < p.byteOffset then p.slotOffset + 1 else p.slotOffset

end Position

def tooLarge : Error := ⟨.typeError, "Object too large for storage."⟩

/-- The loop over the types. -/
def computeFrom (p : Position) :
    List StorageType → Except Error (List (Option (BitVec 256 × ℕ)) × Position)
  | [] => .ok ([], p)
  | type :: types =>
    if type.canBeStored then
      if 2 ^ 256 ≤ (p.fit type).slotOffset then .error tooLarge
      else do
        let (offsets, r) ← computeFrom ((p.fit type).advance type) types
        .ok (some (.ofNat 256 (p.fit type).slotOffset, (p.fit type).byteOffset) :: offsets, r)
    else do
      let (offsets, r) ← computeFrom p types
      .ok (none :: offsets, r)

def computeOffsets (types : List StorageType) : Except Error StorageOffsets := do
  let (offsets, p) ← computeFrom ⟨0, 0⟩ types
  if 2 ^ 256 ≤ p.usedSlots then .error tooLarge
  else .ok ⟨offsets, .ofNat 256 p.usedSlots⟩

/-- The offset of a type, or nothing if it is not stored. -/
def offset (o : StorageOffsets) (index : ℕ) : Option (BitVec 256 × ℕ) :=
  o.offsets[index]?.join

/-- The number of bytes that a value occupies: part of a slot or several slots. -/
def occupiedBytes (type : StorageType) : ℕ :=
  if type.storageSize = 1 then type.storageBytes else 32 * type.storageSize.toNat

/-- The number of the first byte at an offset, counted over all slots. -/
def firstByte (o : BitVec 256 × ℕ) : ℕ := 32 * o.1.toNat + o.2

/-- Every type that can be stored has its own bytes, in the order of the types, which do not
cross the boundary of a slot or are whole slots, and all are below the storage size. -/
structure LaidOut (types : List StorageType) (o : StorageOffsets) : Prop where
  isSome_offset : ∀ i type, types[i]? = some type → (o.offset i).isSome = type.canBeStored
  offset_eq_none : ∀ i, types.length ≤ i → o.offset i = none
  inSlot : ∀ i type p, types[i]? = some type → o.offset i = some p →
    p.2 + type.storageBytes ≤ 32
  wholeSlots : ∀ i type p, types[i]? = some type → o.offset i = some p →
    type.storageSize ≠ 1 → p.2 = 0
  inOrder : ∀ i j type p q, i < j → types[i]? = some type → o.offset i = some p →
    o.offset j = some q → firstByte p + occupiedBytes type ≤ firstByte q
  below : ∀ i type p, types[i]? = some type → o.offset i = some p →
    firstByte p + occupiedBytes type ≤ 32 * o.storageSize.toNat

/-! ### Layouts in unbounded storage -/

/-- The positions of the types when there is a slot for every number. -/
def positionsFrom (p : Position) : List StorageType → List (Option Position)
  | [] => []
  | type :: types =>
    if type.canBeStored then
      some (p.fit type) :: positionsFrom ((p.fit type).advance type) types
    else none :: positionsFrom p types

lemma positionsFrom_cons (p : Position) (type : StorageType) (types : List StorageType) :
    positionsFrom p (type :: types) =
      if type.canBeStored then
        some (p.fit type) :: positionsFrom ((p.fit type).advance type) types
      else none :: positionsFrom p types := rfl

/-- Where the types end. -/
def endOf (p : Position) : List StorageType → Position
  | [] => p
  | type :: types =>
    if type.canBeStored then endOf ((p.fit type).advance type) types else endOf p types

lemma endOf_cons (p : Position) (type : StorageType) (types : List StorageType) :
    endOf p (type :: types) =
      if type.canBeStored then endOf ((p.fit type).advance type) types else endOf p types := rfl

/-- The number of slots that the types need. -/
def requiredSlots (types : List StorageType) : ℕ := (endOf ⟨0, 0⟩ types).usedSlots

namespace Position

/-- The number of the first byte at a position, counted over all slots. -/
def firstByte (p : Position) : ℕ := 32 * p.slotOffset + p.byteOffset

/-- The position as an offset in storage. -/
def toOffset (p : Position) : BitVec 256 × ℕ := (.ofNat 256 p.slotOffset, p.byteOffset)

variable {p : Position} {type : StorageType}

lemma fit_byteOffset_add_le (p : Position) (type : StorageType) :
    (p.fit type).byteOffset + type.storageBytes ≤ 32 := by
  have hle := type.storageBytes_le
  unfold fit
  split_ifs with h
  · simpa using hle
  · exact not_lt.mp h

lemma le_firstByte_fit (hp : p.byteOffset ≤ 32) (type : StorageType) :
    p.firstByte ≤ (p.fit type).firstByte := by
  unfold fit
  split_ifs
  · simp only [firstByte]
    omega
  · exact le_rfl

lemma fit_byteOffset_eq_zero (p : Position) (h : type.storageBytes = 32) :
    (p.fit type).byteOffset = 0 := by
  have := p.fit_byteOffset_add_le type
  omega

lemma advance_byteOffset_le (p : Position) (type : StorageType) :
    (p.advance type).byteOffset ≤ 32 := by
  unfold advance
  split_ifs with h
  · exact h.2
  · exact Nat.zero_le _

lemma firstByte_le_usedSlots (hp : p.byteOffset ≤ 32) : p.firstByte ≤ 32 * p.usedSlots := by
  unfold usedSlots firstByte
  split_ifs <;> omega

lemma slotOffset_le_usedSlots (p : Position) : p.slotOffset ≤ p.usedSlots := by
  unfold usedSlots
  split_ifs <;> omega

lemma firstByte_advance (hp : p.byteOffset + type.storageBytes ≤ 32)
    (h : type.storageSize ≠ 1 → p.byteOffset = 0) :
    (p.advance type).firstByte = p.firstByte + occupiedBytes type := by
  by_cases hsize : type.storageSize = 1
  · rw [advance, if_pos ⟨hsize, hp⟩, occupiedBytes, if_pos hsize]
    simp only [firstByte]
    omega
  · have h0 := h hsize
    rw [advance, if_neg fun hc => hsize hc.1, occupiedBytes, if_neg hsize]
    simp only [firstByte, h0]
    omega

lemma slotOffset_le_advance (p : Position) (type : StorageType) :
    p.slotOffset ≤ (p.advance type).slotOffset := by
  unfold advance
  split_ifs
  · exact le_rfl
  · exact Nat.le_add_right _ _

lemma slotOffset_le_fit (p : Position) (type : StorageType) :
    p.slotOffset ≤ (p.fit type).slotOffset := by
  unfold fit
  split_ifs
  · exact Nat.le_succ _
  · exact le_rfl

lemma firstByte_toOffset (h : p.slotOffset < 2 ^ 256) :
    StorageOffsets.firstByte p.toOffset = p.firstByte := by
  simp only [StorageOffsets.firstByte, toOffset, BitVec.toNat_ofNat, Nat.mod_eq_of_lt h, firstByte]

end Position

/-- A type of several slots uses them as a whole. -/
def UsesWholeSlots (type : StorageType) : Prop :=
  type.storageSize ≠ 1 → type.storageBytes = 32

variable {types : List StorageType} {type : StorageType} {p q : Position} {i j : ℕ}

lemma endOf_byteOffset_le (hp : p.byteOffset ≤ 32) (types : List StorageType) :
    (endOf p types).byteOffset ≤ 32 := by
  induction types generalizing p with
  | nil => exact hp
  | cons type types ih =>
    unfold endOf
    split_ifs
    · exact ih (Position.advance_byteOffset_le _ _)
    · exact ih hp

lemma slotOffset_le_endOf (p : Position) (types : List StorageType) :
    p.slotOffset ≤ (endOf p types).slotOffset := by
  induction types generalizing p with
  | nil => exact le_rfl
  | cons type types ih =>
    unfold endOf
    split_ifs
    · exact ((p.slotOffset_le_fit type).trans (Position.slotOffset_le_advance _ _)).trans (ih _)
    · exact ih p

/-- The loop stops with an error at the first offset that is not a number of a slot. -/
lemma computeFrom_eq (p : Position) (types : List StorageType) :
    computeFrom p types =
        .ok ((positionsFrom p types).map (Option.map Position.toOffset), endOf p types) ∨
      computeFrom p types = .error tooLarge ∧ 2 ^ 256 ≤ (endOf p types).slotOffset := by
  induction types generalizing p with
  | nil => exact .inl rfl
  | cons type types ih =>
    unfold computeFrom endOf positionsFrom
    split_ifs with hs hl
    · refine .inr ⟨rfl, hl.trans ?_⟩
      exact (Position.slotOffset_le_advance _ _).trans (slotOffset_le_endOf _ _)
    · refine (ih ((p.fit type).advance type)).imp (fun h => ?_) fun h => ⟨?_, h.2⟩
      · simp only [h]
        rfl
      · simp only [h.1]
        rfl
    · refine (ih p).imp (fun h => ?_) fun h => ⟨?_, h.2⟩
      · simp only [h]
        rfl
      · simp only [h.1]
        rfl

/-! ### Positions in declaration order -/

lemma isSome_positionsFrom (h : types[i]? = some type) :
    (positionsFrom p types)[i]?.join.isSome = type.canBeStored := by
  induction types generalizing p i with
  | nil => simp at h
  | cons t types ih =>
    unfold positionsFrom
    cases i with
    | zero =>
      obtain rfl : t = type := by simpa using h
      split_ifs with hs <;> simp [hs]
    | succ i =>
      simp only [getElem?_cons_succ] at h
      split_ifs
      · simpa using ih h
      · simpa using ih h

lemma length_positionsFrom (p : Position) (types : List StorageType) :
    (positionsFrom p types).length = types.length := by
  induction types generalizing p with
  | nil => rfl
  | cons type types ih =>
    unfold positionsFrom
    split_ifs <;> simp [ih]

lemma exists_getElem?_of_positionsFrom (hq : (positionsFrom p types)[i]?.join = some q) :
    ∃ type, types[i]? = some type := by
  rcases hi : types[i]? with _ | type
  · have hle := List.getElem?_eq_none_iff.mp hi
    rw [← length_positionsFrom p, ← List.getElem?_eq_none_iff] at hle
    simp [hle] at hq
  · exact ⟨type, rfl⟩

lemma le_firstByte_advance (hp : p.byteOffset ≤ 32) (hw : UsesWholeSlots type) :
    p.firstByte + occupiedBytes type ≤ ((p.fit type).advance type).firstByte := by
  rw [Position.firstByte_advance (p.fit_byteOffset_add_le type)
    fun h => p.fit_byteOffset_eq_zero (hw h)]
  exact Nat.add_le_add_right (Position.le_firstByte_fit hp type) _

/-- The types that can be stored and have several slots use them as a whole. -/
def UseWholeSlots (types : List StorageType) : Prop :=
  ∀ type ∈ types, type.canBeStored → UsesWholeSlots type

lemma firstByte_le_endOf (hw : UseWholeSlots types) (hp : p.byteOffset ≤ 32) :
    p.firstByte ≤ (endOf p types).firstByte := by
  induction types generalizing p with
  | nil => exact le_rfl
  | cons type types ih =>
    have hw' : UseWholeSlots types := fun t ht => hw t (mem_cons_of_mem _ ht)
    unfold endOf
    split_ifs with hs
    · have hstep := le_firstByte_advance hp (hw type mem_cons_self hs)
      exact (Nat.le_of_add_right_le hstep).trans (ih hw' (Position.advance_byteOffset_le _ _))
    · exact ih hw' hp

lemma positionsFrom_split (hw : UseWholeSlots types) (hp : p.byteOffset ≤ 32)
    (h : types[i]? = some type) (hq : (positionsFrom p types)[i]?.join = some q) :
    ∃ r : Position, q = r.fit type ∧ r.byteOffset ≤ 32 ∧ p.firstByte ≤ r.firstByte ∧
      endOf p types = endOf (q.advance type) (types.drop (i + 1)) ∧
      (positionsFrom p types).drop (i + 1) =
        positionsFrom (q.advance type) (types.drop (i + 1)) := by
  induction types generalizing p i with
  | nil => simp at h
  | cons t types ih =>
    have hw' : UseWholeSlots types := fun t ht => hw t (mem_cons_of_mem _ ht)
    rw [positionsFrom_cons] at hq ⊢
    rw [endOf_cons]
    cases i with
    | zero =>
      obtain rfl : t = type := by simpa using h
      split_ifs at hq ⊢ with hs
      · obtain rfl : p.fit t = q := by simpa using hq
        exact ⟨p, rfl, hp, le_rfl, rfl, rfl⟩
      · simp at hq
    | succ i =>
      simp only [getElem?_cons_succ] at h
      split_ifs at hq ⊢ with hs
      · have hstep := le_firstByte_advance hp (hw t mem_cons_self hs)
        simp only [getElem?_cons_succ] at hq
        obtain ⟨r, hqr, hr, hpr, hend, hdrop⟩ :=
          ih hw' (Position.advance_byteOffset_le _ _) h hq
        exact ⟨r, hqr, hr, (Nat.le_of_add_right_le hstep).trans hpr, hend, hdrop⟩
      · simp only [getElem?_cons_succ] at hq
        exact ih hw' hp h hq

lemma isWhole_of_getElem? (hw : UseWholeSlots types) (h : types[i]? = some type)
    (hq : (positionsFrom p types)[i]?.join = some q) : UsesWholeSlots type := by
  refine hw type (mem_of_getElem? h) ?_
  rw [← isSome_positionsFrom (p := p) h, hq]
  rfl

lemma getElem?_drop_eq (hij : i < j) {A : Type*} (xs : List A) :
    xs[j]? = (xs.drop (i + 1))[j - (i + 1)]? := by
  rw [getElem?_drop]
  congr 1
  omega

lemma positionsFrom_inOrder {q' : Position} (hw : UseWholeSlots types) (hp : p.byteOffset ≤ 32)
    (hij : i < j) (h : types[i]? = some type) (hq : (positionsFrom p types)[i]?.join = some q)
    (hq' : (positionsFrom p types)[j]?.join = some q') :
    q.firstByte + occupiedBytes type ≤ q'.firstByte := by
  obtain ⟨r, rfl, hr, -, -, hdrop⟩ := positionsFrom_split hw hp h hq
  have hwhole := isWhole_of_getElem? hw h hq
  rw [getElem?_drop_eq hij, hdrop] at hq'
  obtain ⟨t, ht⟩ := exists_getElem?_of_positionsFrom hq'
  have hw' : UseWholeSlots (types.drop (i + 1)) := fun t ht => hw t (mem_of_mem_drop ht)
  obtain ⟨r', rfl, hr', hle, -, -⟩ :=
    positionsFrom_split hw' (Position.advance_byteOffset_le _ _) ht hq'
  rw [← Position.firstByte_advance (r.fit_byteOffset_add_le type)
    fun hs => r.fit_byteOffset_eq_zero (hwhole hs)]
  exact hle.trans (Position.le_firstByte_fit hr' t)

/-! ### The layout that is computed -/

lemma offset_map (ps : List (Option Position)) (n : BitVec 256) (i : ℕ) :
    offset ⟨ps.map (Option.map Position.toOffset), n⟩ i = ps[i]?.join.map Position.toOffset := by
  rcases h : ps[i]? with _ | _ | q <;> simp [offset, h]

/-- The offsets of positions in storage, with the number of slots needed as its size. -/
def ofPositions (types : List StorageType) : StorageOffsets :=
  ⟨(positionsFrom ⟨0, 0⟩ types).map (Option.map Position.toOffset), .ofNat 256 (requiredSlots types)⟩

/-- The error is raised exactly if the slots in use do not have a number each below 2^256. -/
lemma computeOffsets_eq (types : List StorageType) :
    computeOffsets types =
      if 2 ^ 256 ≤ requiredSlots types then .error tooLarge
      else .ok (ofPositions types) := by
  rcases computeFrom_eq ⟨0, 0⟩ types with h | ⟨h, hend⟩
  · simp only [computeOffsets, h]
    rfl
  · have hle := hend.trans (Position.slotOffset_le_usedSlots _)
    rw [computeOffsets, h, if_pos (by exact hle)]
    rfl

lemma exists_position {o : BitVec 256 × ℕ} (h : (ofPositions types).offset i = some o) :
    ∃ q, (positionsFrom ⟨0, 0⟩ types)[i]?.join = some q ∧ q.toOffset = o := by
  rw [ofPositions, offset_map] at h
  exact Option.map_eq_some_iff.mp h

lemma positionsFrom_below (hw : UseWholeSlots types) (hp : p.byteOffset ≤ 32)
    (h : types[i]? = some type) (hq : (positionsFrom p types)[i]?.join = some q) :
    q.firstByte + occupiedBytes type ≤ 32 * (endOf p types).usedSlots ∧
      q.slotOffset ≤ (endOf p types).usedSlots := by
  have hwhole := isWhole_of_getElem? hw h hq
  have hused := Position.firstByte_le_usedSlots (endOf_byteOffset_le hp types)
  obtain ⟨r, rfl, -, -, hend, -⟩ := positionsFrom_split hw hp h hq
  rw [hend] at hused ⊢
  constructor
  · rw [← Position.firstByte_advance (r.fit_byteOffset_add_le type)
      fun hs => r.fit_byteOffset_eq_zero (hwhole hs)]
    have hw' : UseWholeSlots (types.drop (i + 1)) := fun t ht => hw t (mem_of_mem_drop ht)
    exact (firstByte_le_endOf hw' (Position.advance_byteOffset_le _ _)).trans hused
  · exact ((Position.slotOffset_le_advance (r.fit type) type).trans
      (slotOffset_le_endOf _ _)).trans (Position.slotOffset_le_usedSlots _)

lemma laidOut_of_lt (hw : UseWholeSlots types) (hlt : requiredSlots types < 2 ^ 256) :
    LaidOut types (ofPositions types) := by
  have hp : Position.byteOffset ⟨0, 0⟩ ≤ 32 := Nat.zero_le _
  have hfirst : ∀ {i type} {q : Position}, types[i]? = some type →
      (positionsFrom ⟨0, 0⟩ types)[i]?.join = some q → firstByte q.toOffset = q.firstByte :=
    fun h hq => Position.firstByte_toOffset ((positionsFrom_below hw hp h hq).2.trans_lt hlt)
  constructor
  case isSome_offset =>
    intro i type h
    rw [ofPositions, offset_map, Option.isSome_map]
    exact isSome_positionsFrom h
  case offset_eq_none =>
    intro i h
    rw [ofPositions, offset_map, List.getElem?_eq_none_iff.mpr (by rwa [length_positionsFrom])]
    rfl
  case inSlot =>
    intro i type p h ho
    obtain ⟨q, hq, rfl⟩ := exists_position ho
    obtain ⟨r, rfl, -⟩ := positionsFrom_split hw hp h hq
    exact r.fit_byteOffset_add_le type
  case wholeSlots =>
    intro i type p h ho hs
    obtain ⟨q, hq, rfl⟩ := exists_position ho
    have hwhole := isWhole_of_getElem? hw h hq
    obtain ⟨r, rfl, -⟩ := positionsFrom_split hw hp h hq
    exact r.fit_byteOffset_eq_zero (hwhole hs)
  case inOrder =>
    intro i j type p p' hij h ho ho'
    obtain ⟨q, hq, rfl⟩ := exists_position ho
    obtain ⟨q', hq', rfl⟩ := exists_position ho'
    obtain ⟨t, ht⟩ := exists_getElem?_of_positionsFrom hq'
    rw [hfirst h hq, hfirst ht hq']
    exact positionsFrom_inOrder hw hp hij h hq hq'
  case below =>
    intro i type p h ho
    obtain ⟨q, hq, rfl⟩ := exists_position ho
    rw [hfirst h hq, ofPositions, BitVec.toNat_ofNat, Nat.mod_eq_of_lt hlt]
    exact (positionsFrom_below hw hp h hq).1

/-- Either an error is raised, and `tooMany` holds of the number of slots needed, or the types
are laid out without overlap. -/
def LaysOut (tooMany : ℕ → Prop) (types : List StorageType) : Prop :=
  (computeOffsets types = .error tooLarge ∧ tooMany (requiredSlots types)) ∨
    ∃ o, computeOffsets types = .ok o ∧ LaidOut types o ∧
      o.storageSize.toNat = requiredSlots types

/-- Types of several slots that use them as a whole are laid out without overlap if they need
fewer than 2^256 slots, and else the error is raised. -/
theorem computeOffsets_laysOut (types : List StorageType) (hw : UseWholeSlots types) :
    LaysOut (2 ^ 256 ≤ ·) types := by
  have heq := computeOffsets_eq types
  split_ifs at heq with hle
  · exact .inl ⟨heq, hle⟩
  · have hlt := not_le.mp hle
    refine .inr ⟨_, heq, laidOut_of_lt hw hlt, ?_⟩
    rw [ofPositions, BitVec.toNat_ofNat, Nat.mod_eq_of_lt hlt]

lemma storageSize_one : 0 < BitVec.toNat (1 : BitVec 256) := by decide

/-- A value type of one byte. -/
def oneByte : StorageType := ⟨true, 1, 1, by decide, by decide, by decide⟩

/-- A type that needs the given number of slots. -/
def slots (size : BitVec 256) (h : 0 < size.toNat) : StorageType :=
  ⟨true, 32, size, by decide, by decide, h⟩

/-- A small value, an array of three slots and another small value. -/
theorem computeOffsets_laysOut_array :
    LaysOut (2 ^ 256 ≤ ·) [oneByte, slots 3 (by decide), oneByte] := by
  refine computeOffsets_laysOut _ fun type ht => ?_
  simp only [mem_cons, not_mem_nil, or_false] at ht
  rcases ht with rfl | rfl | rfl
  · exact fun _ h => absurd rfl h
  · exact fun _ _ => rfl
  · exact fun _ h => absurd rfl h

/-- Of two slots but with a size of one byte, a type would start in a slot that is in use. With
exactly 2^256 slots the error is raised. -/
theorem computeOffsets_sharedSlot :
    ¬ LaysOut (2 ^ 256 < ·) [oneByte, ⟨true, 1, 2, by decide, by decide, by decide⟩] ∧
      ¬ LaysOut (2 ^ 256 < ·)
        [slots (.ofNat 256 (2 ^ 255)) (by decide), slots (.ofNat 256 (2 ^ 255)) (by decide)] := by
  constructor
  · rintro (⟨-, h⟩ | ⟨o, ho, h, -⟩)
    · exact absurd h (by decide)
    · have heq : o = ⟨[some (0, 0), some (0, 1)], 2⟩ :=
        Except.ok.inj (ho.symm.trans (by rfl))
      rw [heq] at h
      exact absurd (h.wholeSlots 1 _ _ rfl rfl (by decide)) (by decide)
  · rintro (⟨-, h⟩ | ⟨o, ho, -⟩)
    · exact absurd h (by decide)
    · have herr : computeOffsets [slots (.ofNat 256 (2 ^ 255)) (by decide),
          slots (.ofNat 256 (2 ^ 255)) (by decide)] = .error tooLarge := by rfl
      rw [herr] at ho
      cases ho

end StorageOffsets

end Polynomial
