import Mathlib.Data.List.Basic
import Mathlib.Order.Bounds.Basic
import Mathlib.Order.MinMax

/-!
# Edits of a word

A word is edited from left to right: every element of it and every pair of adjacent elements is
edited at most once. The distance of two words is the least number of edits.
-/

namespace Semantics

variable {α : Type*}

/-- With `n` edits, the second word is made out of the first one. -/
inductive Edits : List α → List α → ℕ → Prop where
  | nil : Edits [] [] 0
  | keep {s t n} (c : α) (h : Edits s t n) : Edits (c :: s) (c :: t) n
  | insert {s t n} (c : α) (h : Edits s t n) : Edits s (c :: t) (n + 1)
  | delete {s t n} (c : α) (h : Edits s t n) : Edits (c :: s) t (n + 1)
  | substitute {s t n} (c d : α) (h : Edits s t n) : Edits (c :: s) (d :: t) (n + 1)
  | transpose {s t n} (c d : α) (h : Edits s t n) :
      Edits (c :: d :: s) (d :: c :: t) (n + 1)

variable {c d : α} {s s' t t' : List α} {m n : ℕ}

/-- The least number of edits that make the second word out of the first one. -/
def IsDistance (s t : List α) (n : ℕ) : Prop := IsLeast {k | Edits s t k} n

namespace Edits

lemma symm (h : Edits s t n) : Edits t s n := by
  induction h with
  | nil => exact nil
  | keep c _ ih => exact ih.keep c
  | insert c _ ih => exact ih.delete c
  | delete c _ ih => exact ih.insert c
  | substitute c d _ ih => exact ih.substitute d c
  | transpose c d _ ih => exact ih.transpose d c

lemma append (h : Edits s t m) (h' : Edits s' t' n) : Edits (s ++ s') (t ++ t') (m + n) := by
  induction h with
  | nil => rwa [Nat.zero_add]
  | keep c _ ih => exact ih.keep c
  | insert c _ ih =>
    rw [Nat.succ_add]
    exact ih.insert c
  | delete c _ ih =>
    rw [Nat.succ_add]
    exact ih.delete c
  | substitute c d _ ih =>
    rw [Nat.succ_add]
    exact ih.substitute c d
  | transpose c d _ ih =>
    rw [Nat.succ_add]
    exact ih.transpose c d

lemma reverse (h : Edits s t n) : Edits s.reverse t.reverse n := by
  induction h with
  | nil => exact nil
  | keep c _ ih =>
    rw [List.reverse_cons, List.reverse_cons]
    exact ih.append (nil.keep c)
  | insert c _ ih =>
    rw [List.reverse_cons]
    simpa using ih.append (nil.insert c)
  | delete c _ ih =>
    rw [List.reverse_cons]
    simpa using ih.append (nil.delete c)
  | substitute c d _ ih =>
    rw [List.reverse_cons, List.reverse_cons]
    exact ih.append (nil.substitute c d)
  | transpose c d _ ih =>
    simpa using ih.append (nil.transpose d c)

lemma length_le (h : Edits s t n) : t.length ≤ s.length + n := by
  induction h with
  | nil => exact le_rfl
  | _ => simp only [List.length_cons] at *; omega

lemma of_nil (t : List α) : Edits [] t t.length := by
  induction t with
  | nil => exact nil
  | cons c t ih => exact ih.insert c

lemma min (h : Edits s t m) (h' : Edits s t n) : Edits s t (Min.min m n) := by
  rcases min_choice m n with hmin | hmin
  · rwa [hmin]
  · rwa [hmin]

lemma cons_cons_iff : Edits (c :: s) (d :: t) n ↔ c = d ∧ Edits s t n ∨
    ∃ m, n = m + 1 ∧ (Edits s (d :: t) m ∨ Edits (c :: s) t m ∨ Edits s t m ∨
      ∃ s' t', s = d :: s' ∧ t = c :: t' ∧ Edits s' t' m) := by
  constructor
  · intro h
    cases h with
    | keep _ h => exact .inl ⟨rfl, h⟩
    | insert _ h => exact .inr ⟨_, rfl, .inr (.inl h)⟩
    | delete _ h => exact .inr ⟨_, rfl, .inl h⟩
    | substitute _ _ h => exact .inr ⟨_, rfl, .inr (.inr (.inl h))⟩
    | transpose _ _ h => exact .inr ⟨_, rfl, .inr (.inr (.inr ⟨_, _, rfl, rfl, h⟩))⟩
  · rintro (⟨rfl, h⟩ | ⟨m, rfl, h | h | h | ⟨s', t', rfl, rfl, h⟩⟩)
    · exact h.keep c
    · exact h.delete c
    · exact h.insert d
    · exact h.substitute c d
    · exact h.transpose c d

end Edits

namespace IsDistance

lemma unique (h : IsDistance s t m) (h' : IsDistance s t n) : m = n := IsLeast.unique h h'

lemma symm (h : IsDistance s t n) : IsDistance t s n :=
  ⟨h.1.symm, fun _ hk => h.2 (Edits.symm hk)⟩

lemma reverse (h : IsDistance s t n) : IsDistance s.reverse t.reverse n := by
  refine ⟨h.1.reverse, fun k hk => h.2 ?_⟩
  have hk := Edits.reverse hk
  rwa [List.reverse_reverse, List.reverse_reverse] at hk

lemma nil_left (t : List α) : IsDistance [] t t.length := by
  refine ⟨.of_nil t, fun k hk => ?_⟩
  have hle := Edits.length_le hk
  rwa [List.length_nil, Nat.zero_add] at hle

lemma nil_right (s : List α) : IsDistance s [] s.length := (nil_left s).symm

section

variable [DecidableEq α] {a b x y : ℕ} (ha : IsDistance s (d :: t) a)
  (hb : IsDistance (c :: s) t b) (hx : IsDistance s t x)

include ha hb hx

lemma edits_min :
    Edits (c :: s) (d :: t) (min (min (a + 1) (b + 1)) (if c = d then x else x + 1)) := by
  have hlast : Edits (c :: s) (d :: t) (if c = d then x else x + 1) := by
    split_ifs with h
    · exact h ▸ hx.1.keep c
    · exact hx.1.substitute c d
  exact ((ha.1.delete c).min (hb.1.insert d)).min hlast

lemma min_le_or {k : ℕ} (h : Edits (c :: s) (d :: t) k) :
    min (min (a + 1) (b + 1)) (if c = d then x else x + 1) ≤ k ∨
      ∃ s' t' m, k = m + 1 ∧ s = d :: s' ∧ t = c :: t' ∧ Edits s' t' m := by
  rcases Edits.cons_cons_iff.mp h with ⟨heq, h⟩ | ⟨m, rfl, h | h | h | ⟨s', t', hs, ht, h⟩⟩
  · rw [if_pos heq]
    exact .inl ((min_le_right _ _).trans (hx.2 h))
  · exact .inl ((min_le_left _ _).trans ((min_le_left _ _).trans (Nat.succ_le_succ (ha.2 h))))
  · exact .inl ((min_le_left _ _).trans ((min_le_right _ _).trans (Nat.succ_le_succ (hb.2 h))))
  · refine .inl ((min_le_right _ _).trans ?_)
    have hle := hx.2 h
    split_ifs <;> omega
  · exact .inr ⟨s', t', m, rfl, hs, ht, h⟩

lemma cons_cons (hswap : ∀ s' t', s = d :: s' → t ≠ c :: t') :
    IsDistance (c :: s) (d :: t) (min (min (a + 1) (b + 1)) (if c = d then x else x + 1)) := by
  refine ⟨edits_min ha hb hx, fun k hk => ?_⟩
  rcases min_le_or ha hb hx hk with h | ⟨s', t', -, -, hs, ht, -⟩
  · exact h
  · exact absurd ht (hswap s' t' hs)

end

lemma cons_cons_swap [DecidableEq α] {a b x y : ℕ} (ha : IsDistance (d :: s) (d :: c :: t) a)
    (hb : IsDistance (c :: d :: s) (c :: t) b) (hx : IsDistance (d :: s) (c :: t) x)
    (hy : IsDistance s t y) :
    IsDistance (c :: d :: s) (d :: c :: t)
      (min (min (min (a + 1) (b + 1)) (if c = d then x else x + 1)) (y + 1)) := by
  refine ⟨(edits_min ha hb hx).min (hy.1.transpose c d), fun k hk => ?_⟩
  rcases min_le_or ha hb hx hk with h | ⟨s', t', m, rfl, hs, ht, h⟩
  · exact (min_le_left _ _).trans h
  · cases hs
    cases ht
    exact (min_le_right _ _).trans (Nat.succ_le_succ (hy.2 h))

end IsDistance

end Semantics
