import Polc.Codegen.CompilerUtils
import Polc.Codegen.CompilerUtils.Tuples

/-!
# Components of value types

The conversions between value types are conversions of components: their code works on the words
of the value only.
-/

namespace Polynomial

open List Option
open Sof (Word)
open CompilerUtils

/-- Whatever is below them, the code replaces `m` words by `n` words or stops. -/
def Replaces (code : Code) (m n : ℕ) : Prop :=
  ∀ words : List Word, words.length = m →
    (∃ words', words'.length = n ∧ ∀ below, exec code (words ++ below) = .stack (words' ++ below)) ∨
      ∀ below, exec code (words ++ below) = .invalid

namespace Replaces

variable {code code' : Code} {m n k : ℕ}

lemma append (h : Replaces code m n) (h' : Replaces code' n k) : Replaces (code ++ code') m k := by
  intro words hwords
  rcases h words hwords with ⟨words', hwords', hexec⟩ | hinvalid
  · rcases h' words' hwords' with ⟨words'', hwords'', hexec'⟩ | hinvalid
    · exact .inl ⟨words'', hwords'', fun below => by
        rw [exec_append_of_stack (hexec below), hexec']⟩
    · exact .inr fun below => by rw [exec_append_of_stack (hexec below), hinvalid]
  · exact .inr fun below => exec_append_of_invalid (hinvalid below) code'

lemma nil (n : ℕ) : Replaces [] n n := fun words hwords => .inl ⟨words, hwords, fun _ => rfl⟩

lemma push (w : Word) : Replaces [.push w] 0 1 := by
  intro words hwords
  rw [eq_nil_of_length_eq_zero hwords]
  exact .inl ⟨[w], rfl, fun _ => rfl⟩

lemma top (h : ∀ w, ∃ w', ∀ below, exec code (w :: below) = .stack (w' :: below)) :
    Replaces code (n + 1) (n + 1) := by
  intro words hwords
  obtain ⟨w, words, rfl⟩ := exists_cons_of_length_eq_add_one hwords
  obtain ⟨w', hexec⟩ := h w
  exact .inl ⟨w' :: words, hwords, fun below => hexec (words ++ below)⟩

lemma cleanHigherOrderBits (t : IntegerType) : Replaces (cleanHigherOrderBits t) 1 1 := by
  unfold CompilerUtils.cleanHigherOrderBits
  split_ifs
  · exact nil 1
  · exact top fun w => ⟨.signextend (.ofNat 256 (t.numBits / 8 - 1)) w, fun _ => by simp⟩
  · exact top fun w => ⟨mask t.numBits &&& w, fun _ => by simp⟩

lemma convertInteger (s t : IntegerType) (cleanupNeeded : Bool) :
    Replaces (convertInteger s t cleanupNeeded) 1 1 := by
  unfold CompilerUtils.convertInteger
  split_ifs
  · exact cleanHigherOrderBits s
  · exact cleanHigherOrderBits t
  · exact nil 1

lemma leftShiftNumberOnStack (hasBitwiseShifting : Bool) (bits : ℕ) :
    Replaces (leftShiftNumberOnStack hasBitwiseShifting bits) 1 1 := by
  unfold CompilerUtils.leftShiftNumberOnStack
  split_ifs
  · exact top fun w => ⟨.shl (.ofNat 256 bits) w, fun _ => by simp⟩
  · exact top fun w => ⟨.ofNat 256 (2 ^ bits) * w, fun _ => by simp⟩

lemma rightShiftNumberOnStack (hasBitwiseShifting : Bool) (bits : ℕ) :
    Replaces (rightShiftNumberOnStack hasBitwiseShifting bits) 1 1 := by
  unfold CompilerUtils.rightShiftNumberOnStack
  split_ifs
  · exact top fun w => ⟨.shr (.ofNat 256 bits) w, fun _ => by simp⟩
  · exact top fun w => ⟨w / .ofNat 256 (2 ^ bits), fun _ => by simp⟩

lemma checkEnum (t : EnumType) : Replaces (checkEnum t) 1 1 := by
  intro words hwords
  obtain ⟨w, rfl⟩ := List.length_eq_one_iff.mp hwords
  have hexec (below : List Word) : exec (CompilerUtils.checkEnum t) (w :: below) =
      if (BitVec.ofNat 256 (t.numberOfMembers - 1)).ult w then .invalid
      else .stack (w :: below) := by
    simp [CompilerUtils.checkEnum]
  by_cases hmember : (BitVec.ofNat 256 (t.numberOfMembers - 1)).ult w = true
  · exact .inr fun below => (hexec below).trans (if_pos hmember)
  · exact .inl ⟨[w], rfl, fun below => (hexec below).trans (if_neg hmember)⟩

lemma convertRational {q : ℚ} {t : IntegerType} {cleanupNeeded : Bool}
    (h : convertRational q t cleanupNeeded = some code) : Replaces code 1 1 := by
  unfold CompilerUtils.convertRational at h
  split_ifs at h
  obtain ⟨constType, -, rfl⟩ := map_eq_some_iff.mp h
  split_ifs
  · exact cleanHigherOrderBits t
  · exact nil 1

end Replaces

lemma size_of_asInteger {t : ValueType} {i : IntegerType} (h : t.asInteger = some i) :
    t.sizeOnStack = 1 := by
  cases t <;> first | rfl | exact absurd h nofun

theorem replaces_convertType {hasBitwiseShifting : Bool} {s t : ValueType} {cleanupNeeded : Bool}
    {code : Code} (h : convertType hasBitwiseShifting s t cleanupNeeded = some code) :
    Replaces code s.sizeOnStack t.sizeOnStack := by
  unfold convertType at h
  by_cases hst : s = t ∧ cleanupNeeded = false
  · rw [if_pos hst] at h
    obtain rfl := Option.some.inj h
    rw [hst.1]
    exact .nil _
  rw [if_neg hst] at h
  split at h
  · obtain rfl := Option.some.inj h
    refine (Replaces.rightShiftNumberOnStack _ _).append ?_
    split_ifs
    · exact .convertInteger _ _ _
    · exact .nil 1
  · split_ifs at h
    obtain rfl := Option.some.inj h
    exact .rightShiftNumberOnStack _ _
  · obtain rfl := Option.some.inj h
    split_ifs
    · exact .top fun w => ⟨~~~mask _ &&& w, fun _ => by simp; rfl⟩
    · exact .nil 1
  · split_ifs at h
    obtain rfl := Option.some.inj h
    exact .checkEnum _
  · obtain rfl := Option.some.inj h
    exact .checkEnum _
  · obtain rfl := Option.some.inj h
    refine Replaces.append ?_ (.leftShiftNumberOnStack _ _)
    split_ifs
    · exact .cleanHigherOrderBits _
    · exact .nil 1
  · split_ifs at h
    obtain rfl := Option.some.inj h
    exact .leftShiftNumberOnStack _ _
  · obtain rfl := Option.some.inj h
    exact .leftShiftNumberOnStack _ _
  · obtain rfl := Option.some.inj h
    exact (Replaces.convertInteger _ _ _).append (.checkEnum _)
  · obtain ⟨mobile, -, h⟩ := bind_eq_some_iff.mp h
    obtain ⟨c, hc, rfl⟩ := map_eq_some_iff.mp h
    exact (Replaces.convertRational hc).append (.checkEnum _)
  · obtain ⟨i, hi, h⟩ := bind_eq_some_iff.mp h
    rw [size_of_asInteger hi]
    exact .convertRational h
  · split_ifs at h
    obtain rfl := Option.some.inj h
    exact .push _
  · obtain rfl := Option.some.inj h
    split_ifs
    · exact .top fun w => ⟨_, fun _ => by simp [operations]; rfl⟩
    · exact .nil 1
  · split_ifs at h with hexternal
    obtain rfl := Option.some.inj h
    rw [ValueType.sizeOnStack, if_pos hexternal]
    intro words hwords
    obtain ⟨selector, address, rfl⟩ := List.length_eq_two.mp hwords
    exact .inl ⟨[address], rfl, fun _ => rfl⟩
  · obtain ⟨himplicit, h⟩ := ite_none_right_eq_some.mp h
    obtain rfl := Option.some.inj h
    simp only [FunctionType.isImplicitlyConvertibleTo, Bool.and_eq_true, decide_eq_true_eq]
      at himplicit
    simp only [ValueType.sizeOnStack, himplicit.1.1]
    split_ifs
    · exact .top fun w => ⟨mask (8 * 24) &&& w, fun _ => by simp⟩
    · exact .top fun w => ⟨mask (8 * 8) &&& w, fun _ => by simp⟩
    · exact .nil 2
    · exact .nil 1
  · obtain ⟨i, hi, h⟩ := bind_eq_some_iff.mp h
    obtain ⟨j, hj, rfl⟩ := map_eq_some_iff.mp h
    rw [size_of_asInteger hi, size_of_asInteger hj]
    exact .convertInteger _ _ _

/-- Run an item on the stack. -/
def Item.transform (item : Item) (σ : Unit × List Word) : Option (Unit × List Word) :=
  match item.step σ.2 with
  | .stack s => some ((), s)
  | _ => none

lemma run_transform_of_stack {code : Code} {s s' : List Word} (h : exec code s = .stack s') :
    TupleCode.run Item.transform code ((), s) = some ((), s') := by
  induction code generalizing s with
  | nil =>
    obtain rfl := Outcome.stack.inj h
    rfl
  | cons item code ih =>
    rw [exec_cons] at h
    rw [TupleCode.run, Item.transform]
    cases hstep : item.step s with
    | stack s₁ =>
      rw [hstep] at h
      exact ih h
    | invalid =>
      rw [hstep] at h
      cases h
    | fault =>
      rw [hstep] at h
      cases h

lemma run_transform_of_invalid {code : Code} {s : List Word} (h : exec code s = .invalid) :
    TupleCode.run Item.transform code ((), s) = none := by
  induction code generalizing s with
  | nil => exact absurd h nofun
  | cons item code ih =>
    rw [exec_cons] at h
    rw [TupleCode.run, Item.transform]
    cases hstep : item.step s with
    | stack s₁ =>
      rw [hstep] at h
      exact ih h
    | invalid => rfl
    | fault => rfl

namespace ValueType

def stackTypes : StackTypes ValueType where
  sizeOnStack := sizeOnStack
  equal s t := s = t
  sizeOnStack_eq _ _ h := congrArg sizeOnStack (of_decide_eq_true h)

/-- The conversions between value types by `CompilerUtils::convertType`. -/
def conversions (hasBitwiseShifting : Bool) : Conversions stackTypes Item Unit where
  convertType := convertType hasBitwiseShifting
  step := Item.transform
  run_append := by
    intro _ _ _ code hcode w words below hwords
    rcases replaces_convertType hcode words hwords with ⟨words', -, hexec⟩ | hinvalid
    · rw [run_transform_of_stack (hexec below), ← append_nil words,
        run_transform_of_stack (hexec []), map_some, append_nil]
    · rw [run_transform_of_invalid (hinvalid below), ← append_nil words,
        run_transform_of_invalid (hinvalid []), map_none]
  length_run := by
    intro _ _ _ code hcode w words σ hwords hrun
    rcases replaces_convertType hcode words hwords with ⟨words', hwords', hexec⟩ | hinvalid
    · rw [← append_nil words, run_transform_of_stack (hexec []), append_nil] at hrun
      obtain rfl := Option.some.inj hrun
      exact hwords'
    · rw [← append_nil words, run_transform_of_invalid (hinvalid [])] at hrun
      exact absurd hrun nofun

end ValueType

end Polynomial
