import Mathlib.Order.Lattice
import Mathlib.Data.List.Induction
import Mathlib.Data.Option.Basic

/-!
# The last of the greatest elements

A single pass over a list that keeps the best element so far, and replaces it by every later one
that is not worse, finds the last one of the greatest elements.
-/

namespace Semantics

variable {α κ : Type*} [LinearOrder κ] (eligible : α → Prop) (key : α → κ)

/-- The element is eligible, no eligible one before it is greater, and all the eligible ones behind
it are less. -/
def IsLastMaximum (xs : List α) (a : α) : Prop :=
  ∃ before after, xs = before ++ a :: after ∧ eligible a ∧
    (∀ b ∈ before, eligible b → key b ≤ key a) ∧ ∀ b ∈ after, eligible b → key b < key a

section

variable [DecidablePred eligible]

/-- The better one of the best element so far and the next one. -/
def betterOf (best : Option α) (a : α) : Option α :=
  if eligible a ∧ ∀ b ∈ best, key b ≤ key a then some a else best

def lastMaximum (xs : List α) : Option α := xs.foldl (betterOf eligible key) none

end

variable {eligible key} {xs ys : List α} {a b : α}

lemma IsLastMaximum.append (h : IsLastMaximum eligible key xs a)
    (hless : ∀ b ∈ ys, eligible b → key b < key a) : IsLastMaximum eligible key (xs ++ ys) a := by
  obtain ⟨before, after, rfl, ha, hbefore, hafter⟩ := h
  refine ⟨before, after ++ ys, by rw [List.append_assoc, List.cons_append], ha, hbefore, ?_⟩
  intro b hb heligible
  rcases List.mem_append.mp hb with hb | hb
  · exact hafter b hb heligible
  · exact hless b hb heligible

lemma IsLastMaximum.le (h : IsLastMaximum eligible key xs a) (hb : b ∈ xs)
    (heligible : eligible b) : key b ≤ key a := by
  obtain ⟨before, after, rfl, -, hbefore, hafter⟩ := h
  rcases List.mem_append.mp hb with hb | hb
  · exact hbefore b hb heligible
  · rcases List.mem_cons.mp hb with rfl | hb
    · exact le_rfl
    · exact (hafter b hb heligible).le

variable [DecidablePred eligible]

variable (eligible key) in
/-- What is kept is the last maximum of what has been seen. -/
theorem isLastMaximum_lastMaximum (xs : List α) :
    (∀ a, lastMaximum eligible key xs = some a → IsLastMaximum eligible key xs a) ∧
    (lastMaximum eligible key xs = none → ∀ b ∈ xs, ¬ eligible b) := by
  induction xs using List.reverseRecOn with
  | nil => exact ⟨nofun, nofun⟩
  | append_singleton xs a ih =>
    have hstep : lastMaximum eligible key (xs ++ [a]) =
        betterOf eligible key (lastMaximum eligible key xs) a := by
      rw [lastMaximum, List.foldl_append]
      rfl
    obtain ⟨hsome, hnone⟩ := ih
    rw [hstep, betterOf]
    split_ifs with hbetter
    · refine ⟨?_, nofun⟩
      rintro b ⟨⟩
      refine ⟨xs, [], rfl, hbetter.1, ?_, nofun⟩
      intro c hc heligible
      cases hbest : lastMaximum eligible key xs with
      | none => exact absurd heligible (hnone hbest c hc)
      | some d => exact ((hsome d hbest).le hc heligible).trans (hbetter.2 d hbest)
    · constructor
      · intro b hb
        refine (hsome b hb).append fun c hc heligible => ?_
        obtain rfl := List.mem_singleton.mp hc
        by_contra hle
        refine hbetter ⟨heligible, fun d hd => ?_⟩
        rw [hb] at hd
        obtain rfl := Option.some.inj hd
        exact not_lt.mp hle
      · intro hbest b hb heligible
        rcases List.mem_append.mp hb with hb | hb
        · exact hnone hbest b hb heligible
        · obtain rfl := List.mem_singleton.mp hb
          exact hbetter ⟨heligible, fun d hd => absurd (hbest ▸ hd) (Option.not_mem_none d)⟩

/-- There is at most one last maximum. -/
theorem IsLastMaximum.eq_lastMaximum (h : IsLastMaximum eligible key xs a) :
    lastMaximum eligible key xs = some a := by
  obtain ⟨before, after, rfl, ha, hbefore, hafter⟩ := h
  induction after using List.reverseRecOn with
  | nil =>
    rw [lastMaximum, List.foldl_append]
    refine if_pos ⟨ha, fun b hb => ?_⟩
    obtain ⟨before', after', rfl, hb, -, -⟩ :=
      (isLastMaximum_lastMaximum eligible key before).1 b hb
    exact hbefore b (List.mem_append_right _ (List.mem_cons_self ..)) hb
  | append_singleton ys b ih =>
    have hys := ih fun c hc => hafter c (List.mem_append_left _ hc)
    rw [← List.cons_append, ← List.append_assoc, lastMaximum, List.foldl_append]
    change betterOf eligible key (lastMaximum eligible key (before ++ a :: ys)) b = _
    rw [hys]
    refine if_neg fun hbetter => ?_
    exact absurd (hbetter.2 a rfl) (not_le.mpr
      (hafter b (List.mem_append_right _ (List.mem_singleton_self b)) hbetter.1))

end Semantics
