import Polc.Ast.Types
import Mathlib.Data.Nat.ModEq

/-!
# Sizes in the ABI encoding

`calldataEncodedSize` and `calldataOffsetOfMember` of `libpolynomial/ast/Types.cpp` for types
without mappings. Array sizes are big integers whose size is checked; those of structs are summed
up in 32 bits.
-/

namespace Polynomial

open Option

/-- What a struct member can be. -/
inductive EncodedType where
  | value (type : ValueType)
  | fixedPoint (type : FixedPointType)
  /-- `bytes` or `string`. -/
  | byteArray
  /-- Without a length, the array has a dynamic one. -/
  | array (baseType : EncodedType) (length : Option ℕ)
  | struct (members : List (String × EncodedType))

/-- `storageBytes` of an enumeration. -/
def EnumType.storageBytes (t : EnumType) : ℕ :=
  if t.numberOfMembers ≤ 1 then 1 else bytesRequired (t.numberOfMembers - 1)

/-- The default of `Type::calldataEncodedSize` stands for types that cannot be encoded. -/
def ValueType.calldataEncodedSize (padded : Bool) : ValueType → ℕ
  | integer t => if padded then 32 else t.numBits / 8
  | fixedBytes t => if padded ∧ 0 < t.numBytes then 32 else t.numBytes
  | bool => if padded then 32 else 1
  | enum t => if padded then 32 else 8 * t.storageBytes / 8
  | address _ | contract _ => if padded then 32 else 160 / 8
  | function t =>
    let size := if t.isExternal then 24 else 8
    if padded then (size + 31) / 32 * 32 else size
  | rationalNumber _ _ | stringLiteral _ => 0

namespace EncodedType

mutual

/-- The padded size, unless an array is too large. -/
def calldataEncodedSize : EncodedType → Option ℕ
  | value t => some (t.calldataEncodedSize true)
  | fixedPoint _ | byteArray | array _ none => some 32
  | array baseType (some length) => do
    let size := length * (← baseType.calldataEncodedSize)
    let size := (size + 31) / 32 * 32
    if size ≤ 2 ^ 32 - 1 then some size else none
  | struct members => sumOfSizes members 0

/-- The loop over the members of a struct. -/
def sumOfSizes : List (String × EncodedType) → ℕ → Option ℕ
  | [], size => some size
  | (_, type) :: members, size => do
    let memberSize ← type.calldataEncodedSize
    if memberSize = 0 then some 0 else sumOfSizes members ((size + memberSize) % 2 ^ 32)

end

/-- The loop of `calldataOffsetOfMember`. -/
def offsetLoop (name : String) : List (String × EncodedType) → ℕ → Option ℕ
  | [], _ => none
  | (memberName, type) :: members, offset =>
    if memberName = name then some offset
    else do
      let memberSize ← type.calldataEncodedSize
      if memberSize ≠ 0 then offsetLoop name members ((offset + memberSize) % 2 ^ 32) else none

def calldataOffsetOfMember (name : String) : EncodedType → Option ℕ
  | struct members => offsetLoop name members 0
  | _ => none

mutual

/-- The type is encoded behind a pointer to it. -/
def isDynamic : EncodedType → Bool
  | value _ | fixedPoint _ => false
  | byteArray | array _ none => true
  | array baseType (some _) => baseType.isDynamic
  | struct members => anyDynamic members

def anyDynamic : List (String × EncodedType) → Bool
  | [] => false
  | (_, type) :: members => type.isDynamic || anyDynamic members

end

mutual

/-- The size without limit, where arrays of dynamic length are taken for pointers. -/
def total : EncodedType → ℕ
  | value _ | fixedPoint _ | byteArray | array _ none => 32
  | array baseType (some length) => length * baseType.total
  | struct members => sumOfTotals members

def sumOfTotals : List (String × EncodedType) → ℕ
  | [] => 0
  | (_, type) :: members => type.total + sumOfTotals members

end

/-- The number of bytes in the head of an encoding. -/
def headSize (t : EncodedType) : ℕ := if t.isDynamic then 32 else t.total

/-- What the members in front of a member take, each of them with its own size. -/
def offsetOf (size : EncodedType → ℕ) (name : String) : List (String × EncodedType) → Option ℕ
  | [] => none
  | (memberName, type) :: members =>
    if memberName = name then some 0 else (offsetOf size name members).map (size type + ·)

def exactOffset (size : EncodedType → ℕ) (name : String) : EncodedType → Option ℕ
  | struct members => offsetOf size name members
  | _ => none

mutual

/-- Arrays of length zero and structs without members are rejected. -/
def IsWellFormed : EncodedType → Prop
  | value t => t.isValueType = true
  | fixedPoint _ | byteArray => True
  | array baseType length => length ≠ some 0 ∧ baseType.IsWellFormed
  | struct members => members ≠ [] ∧ AreWellFormed members

def AreWellFormed : List (String × EncodedType) → Prop
  | [] => True
  | (_, type) :: members => type.IsWellFormed ∧ AreWellFormed members

end

mutual

/-- No member of a struct in the type has a size that is taken for zero. -/
def NoneVanishes : EncodedType → Prop
  | array baseType (some _) => baseType.NoneVanishes
  | struct members => NoMemberVanishes members
  | _ => True

def NoMemberVanishes : List (String × EncodedType) → Prop
  | [] => True
  | (_, type) :: members =>
    type.NoneVanishes ∧ ¬ 2 ^ 32 ∣ type.total ∧ NoMemberVanishes members

end

/-! ### What the loops compute -/

variable {t : EncodedType} {members : List (String × EncodedType)} {n size : ℕ} {name : String}

lemma calldataEncodedSize_value {t : ValueType} (h : t.isValueType) :
    t.calldataEncodedSize true = 32 := by
  cases t with
  | fixedBytes t => exact if_pos ⟨rfl, t.valid.1⟩
  | function t => cases hexternal : t.isExternal <;> simp [ValueType.calldataEncodedSize, hexternal]
  | rationalNumber _ _ | stringLiteral _ => cases h
  | _ => rfl

mutual

lemma dvd_total : ∀ t : EncodedType, 32 ∣ t.total
  | value _ | fixedPoint _ | byteArray | array _ none => dvd_rfl
  | array baseType (some length) => Dvd.dvd.mul_left (dvd_total baseType) length
  | struct members => dvd_sumOfTotals members

lemma dvd_sumOfTotals : ∀ members, 32 ∣ sumOfTotals members
  | [] => dvd_zero 32
  | (_, type) :: members => dvd_add (dvd_total type) (dvd_sumOfTotals members)

end

lemma total_pos : ∀ {t : EncodedType}, t.IsWellFormed → 0 < t.total
  | value _, _ | fixedPoint _, _ | byteArray, _ | array _ none, _ => by simp [total]
  | array baseType (some length), h =>
    Nat.mul_pos (Nat.pos_of_ne_zero fun h₀ => h.1 (congrArg some h₀)) (total_pos h.2)
  | struct ((_, type) :: members), h => Nat.add_pos_left (total_pos h.2.1) _
  | struct [], h => absurd rfl h.1

lemma headSize_pos (h : t.IsWellFormed) : 0 < t.headSize := by
  rw [headSize]
  split_ifs
  · exact Nat.succ_pos _
  · exact total_pos h

mutual

/-- The returned size is the total, up to overflows, or zero where a member has no size. -/
lemma calldataEncodedSize_eq : ∀ {t : EncodedType} {n : ℕ}, t.IsWellFormed →
    t.calldataEncodedSize = some n →
      t.NoneVanishes ∧ n = t.total % 2 ^ 32 ∨ ¬ t.NoneVanishes ∧ n = 0
  | value t, n, hvalue, h => by
    rw [calldataEncodedSize, calldataEncodedSize_value hvalue] at h
    cases h
    exact .inl ⟨trivial, rfl⟩
  | fixedPoint _, _, _, h | byteArray, _, _, h | array _ none, _, _, h => by
    cases h
    exact .inl ⟨trivial, rfl⟩
  | array baseType (some length), n, hwell, h => by
    obtain ⟨m, hm, h⟩ := bind_eq_some_iff.mp h
    have hbase := calldataEncodedSize_eq hwell.2 hm
    have hdvd : 32 ∣ m := by
      rcases hbase with ⟨-, rfl⟩ | ⟨-, rfl⟩
      · exact (Nat.dvd_mod_iff (by norm_num)).mpr (dvd_total baseType)
      · exact dvd_zero 32
    obtain ⟨k, hk⟩ := hdvd.mul_left length
    have hround : (length * m + 31) / 32 * 32 = length * m := by omega
    dsimp only at h
    rw [hround] at h
    split_ifs at h with hle
    cases h
    refine hbase.imp (And.imp_right ?_) (And.imp_right ?_)
    · rintro rfl
      have hlt : length * (baseType.total % 2 ^ 32) < 2 ^ 32 := by omega
      rw [total, ← Nat.mul_mod_mod, Nat.mod_eq_of_lt hlt]
    · rintro rfl
      rw [mul_zero]
  | struct members, n, hwell, h => by
    have hsum := sumOfSizes_eq hwell.2 (Nat.two_pow_pos 32) h
    rwa [Nat.zero_add] at hsum

lemma sumOfSizes_eq : ∀ {members : List (String × EncodedType)} {size n : ℕ},
    AreWellFormed members → size < 2 ^ 32 → sumOfSizes members size = some n →
      NoMemberVanishes members ∧ n = (size + sumOfTotals members) % 2 ^ 32 ∨
        ¬ NoMemberVanishes members ∧ n = 0
  | [], size, n, _, hsize, h => by
    cases h
    exact .inl ⟨trivial, (Nat.mod_eq_of_lt hsize).symm⟩
  | (_, type) :: members, size, n, hwell, hsize, h => by
    obtain ⟨m, hm, h⟩ := bind_eq_some_iff.mp h
    have htype := calldataEncodedSize_eq hwell.1 hm
    split_ifs at h with hzero
    · cases h
      refine .inr ⟨fun hnone => ?_, rfl⟩
      rcases htype with ⟨-, hmod⟩ | ⟨hnot, -⟩
      · exact hnone.2.1 (Nat.dvd_of_mod_eq_zero (hmod.symm.trans hzero))
      · exact hnot hnone.1
    · rcases htype with ⟨hnone, hmod⟩ | ⟨-, h₀⟩
      · have hndvd : ¬ 2 ^ 32 ∣ type.total := fun hdvd =>
          hzero (hmod.trans (Nat.mod_eq_zero_of_dvd hdvd))
        refine (sumOfSizes_eq hwell.2 (Nat.mod_lt _ (Nat.two_pow_pos 32)) h).imp ?_ ?_
        · rintro ⟨hrest, rfl⟩
          refine ⟨⟨hnone, hndvd, hrest⟩, ?_⟩
          rw [sumOfTotals, hmod]
          omega
        · rintro ⟨hrest, rfl⟩
          exact ⟨fun hall => hrest hall.2.2, rfl⟩
      · exact absurd h₀ hzero

end

/-- If no size is taken for zero, the offset of a member is the total of those in front of it, up
to overflows. -/
lemma offsetLoop_eq (hwell : AreWellFormed members) (hnone : NoMemberVanishes members)
    (hsize : size < 2 ^ 32) (h : sumOfSizes members size = some n) :
    offsetLoop name members size =
      (offsetOf total name members).map fun offset => (size + offset) % 2 ^ 32 := by
  induction members generalizing size with
  | nil => rfl
  | cons member members ih =>
    obtain ⟨memberName, type⟩ := member
    rw [offsetLoop, offsetOf]
    split_ifs with hname
    · rw [map_some, Nat.add_zero, Nat.mod_eq_of_lt hsize]
    · obtain ⟨m, hm, h⟩ := bind_eq_some_iff.mp h
      have hmod : m = type.total % 2 ^ 32 :=
        (calldataEncodedSize_eq hwell.1 hm).elim And.right fun hnot => absurd hnone.1 hnot.1
      have hzero : m ≠ 0 := fun h₀ => hnone.2.1 (Nat.dvd_of_mod_eq_zero (hmod.symm.trans h₀))
      rw [if_neg hzero] at h
      have hrest := ih hwell.2 hnone.2.2 (Nat.mod_lt _ (Nat.two_pow_pos 32)) h
      simp only [hm, bind_eq_bind, bind_some, ne_eq, hzero, not_false_eq_true,
        if_true, hrest, Option.map_map]
      congr 1
      funext offset
      simp only [Function.comp_apply, hmod]
      omega

/-- A size that is returned is exact, with the offsets of all members, if and only if no size is
taken for zero and none of the sums leaves the 32 bits in which it is computed. -/
theorem calldataEncodedSize_exact_iff (hwell : t.IsWellFormed)
    (h : t.calldataEncodedSize = some n) :
    (n = t.headSize ∧ ∀ name offset, t.calldataOffsetOfMember name = some offset →
      t.exactOffset headSize name = some offset) ↔
    t.NoneVanishes ∧ t.total % 2 ^ 32 = t.headSize ∧
      ∀ name offset, t.exactOffset total name = some offset →
        t.exactOffset headSize name = some (offset % 2 ^ 32) := by
  have hoffset : t.NoneVanishes → ∀ name, t.calldataOffsetOfMember name =
      (t.exactOffset total name).map fun offset => offset % 2 ^ 32 := by
    intro hnone name
    cases t with
    | struct members =>
      rw [calldataOffsetOfMember, offsetLoop_eq hwell.2 hnone (Nat.two_pow_pos 32) h]
      simp only [Nat.zero_add, exactOffset]
    | _ => rfl
  rcases calldataEncodedSize_eq hwell h with ⟨hnone, rfl⟩ | ⟨hnot, rfl⟩
  · refine ⟨fun ⟨hsize, hexact⟩ => ⟨hnone, hsize, fun name offset ho => ?_⟩,
      fun ⟨_, hsize, hexact⟩ => ⟨hsize, fun name offset ho => ?_⟩⟩
    · exact hexact name _ (by rw [hoffset hnone, ho, map_some])
    · rw [hoffset hnone] at ho
      obtain ⟨offset', ho', rfl⟩ := map_eq_some_iff.mp ho
      exact hexact name offset' ho'
  · exact ⟨fun hsize => absurd hsize.1 (headSize_pos hwell).ne,
      fun hnone => absurd hnone.1 hnot⟩

/-- Two members of `2 ^ 31` bytes. -/
def largeStruct : EncodedType :=
  .struct [("a", .array (.value .bool) (some (2 ^ 26))),
    ("b", .array (.value .bool) (some (2 ^ 26))), ("c", .value .bool)]

theorem calldataEncodedSize_largeStruct : largeStruct.calldataEncodedSize = some 32 ∧
    largeStruct.headSize = 2 ^ 32 + 32 ∧ largeStruct.calldataOffsetOfMember "c" = some 0 ∧
    largeStruct.exactOffset headSize "c" = some (2 ^ 32) := by
  refine ⟨by decide, by decide, by decide, by decide⟩

/-- A struct with a single word. -/
theorem calldataEncodedSize_exact_iff_word :
    (32 = (struct [("a", .value .bool)]).headSize ∧
      ∀ name offset, (struct [("a", .value .bool)]).calldataOffsetOfMember name = some offset →
        (struct [("a", .value .bool)]).exactOffset headSize name = some offset) ↔
    (struct [("a", .value .bool)]).NoneVanishes ∧
      (struct [("a", .value .bool)]).total % 2 ^ 32 = (struct [("a", .value .bool)]).headSize ∧
      ∀ name offset, (struct [("a", .value .bool)]).exactOffset total name = some offset →
        (struct [("a", .value .bool)]).exactOffset headSize name = some (offset % 2 ^ 32) :=
  calldataEncodedSize_exact_iff ⟨List.cons_ne_nil _ _, rfl, trivial⟩ rfl

end EncodedType

end Polynomial
