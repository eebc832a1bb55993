import Mathlib.Data.List.Induction

/-!
# Moving the elements of a stack

Operations that copy, exchange and remove elements of a stack, and sequences of them that rotate
its topmost elements. The top of a stack is the head of its list.
-/

namespace Semantics

open List Option

inductive StackOperation where
  /-- Copy the element that has this many elements above it. -/
  | dup (n : ℕ)
  /-- Exchange the top with the element that has this many elements between them. -/
  | swap (n : ℕ)
  | pop
  deriving DecidableEq, Repr

namespace StackOperation

variable {α : Type*}

def apply : StackOperation → List α → Option (List α)
  | dup n, s => s[n]?.map (· :: s)
  | swap n, a :: s => s[n]?.map fun b => b :: s.set n a
  | pop, _ :: s => some s
  | _, [] => none

variable (a b : α) (xs s : List α)

lemma apply_dup {n : ℕ} (h : xs.length = n) :
    (dup n).apply (xs ++ a :: s) = some (a :: (xs ++ a :: s)) := by
  simp [apply, ← h]

lemma apply_swap {n : ℕ} (h : xs.length = n) :
    (swap n).apply (a :: (xs ++ b :: s)) = some (b :: (xs ++ a :: s)) := by
  simp [apply, ← h]

@[simp] lemma apply_pop : pop.apply (a :: s) = some s := rfl

def applyAll : List StackOperation → List α → Option (List α)
  | [], s => some s
  | o :: os, s => (o.apply s).bind (applyAll os)

@[simp] lemma applyAll_nil : applyAll [] s = some s := rfl

lemma applyAll_cons (o : StackOperation) (os : List StackOperation) :
    applyAll (o :: os) s = (o.apply s).bind (applyAll os) := rfl

lemma applyAll_append (os os' : List StackOperation) :
    applyAll (os ++ os') s = (applyAll os s).bind (applyAll os') := by
  induction os generalizing s with
  | nil => rfl
  | cons o os ih =>
    rw [cons_append, applyAll_cons, applyAll_cons, Option.bind_assoc]
    exact congrArg _ (funext fun s => ih s)

lemma applyAll_append_of_some {os : List StackOperation} {s' : List α}
    (h : applyAll os s = some s') (os' : List StackOperation) :
    applyAll (os ++ os') s = applyAll os' s' := by
  rw [applyAll_append, h, bind_some]

/-- Move the top below the given number of elements. -/
def rotateUp (n : ℕ) : List StackOperation := (List.range n).reverse.map swap

/-- Move the element below the given number of elements to the top. -/
def rotateDown (n : ℕ) : List StackOperation := (List.range n).map swap

lemma applyAll_rotateUp {n : ℕ} (h : xs.length = n) :
    applyAll (rotateUp n) (a :: (xs ++ s)) = some (xs ++ a :: s) := by
  induction n generalizing a xs s with
  | zero =>
    rw [eq_nil_of_length_eq_zero h]
    rfl
  | succ n ih =>
    obtain ⟨ys, b, rfl⟩ : ∃ ys b, xs = ys ++ [b] :=
      ⟨xs.dropLast, _, (dropLast_concat_getLast (ne_nil_of_length_eq_add_one h)).symm⟩
    have hys : ys.length = n := by simpa using h
    rw [rotateUp, range_succ, reverse_append, reverse_singleton,
      singleton_append, map_cons, applyAll_cons, append_assoc, singleton_append,
      apply_swap a b ys s hys, bind_some]
    exact (ih b ys (a :: s) hys).trans (by simp)

lemma applyAll_rotateDown {n : ℕ} (h : xs.length = n) :
    applyAll (rotateDown n) (xs ++ a :: s) = some (a :: (xs ++ s)) := by
  induction n generalizing a xs s with
  | zero =>
    rw [eq_nil_of_length_eq_zero h]
    rfl
  | succ n ih =>
    obtain ⟨ys, b, rfl⟩ : ∃ ys b, xs = ys ++ [b] :=
      ⟨xs.dropLast, _, (dropLast_concat_getLast (ne_nil_of_length_eq_add_one h)).symm⟩
    have hys : ys.length = n := by simpa using h
    have hrotate : rotateDown (n + 1) = rotateDown n ++ [swap n] := by
      rw [rotateDown, range_succ, map_append, map_singleton, rotateDown]
    rw [hrotate, append_assoc, singleton_append,
      applyAll_append_of_some _ (ih b ys (a :: s) hys), applyAll_cons, apply_swap b a ys s hys]
    simp

/-- As many copies as there are elements in front of the element, starting with the last. -/
lemma applyAll_dup (c : List α) {n : ℕ} (h : xs.length + c.length = n + 1) :
    applyAll (List.replicate c.length (dup n)) (xs ++ (c ++ s)) = some (c ++ (xs ++ (c ++ s))) := by
  have hcopy : ∀ a b : List α, xs.length + (a ++ b).length = n + 1 →
      applyAll (List.replicate a.length (dup n)) (b ++ (xs ++ (a ++ b ++ s))) =
        some (a ++ b ++ (xs ++ (a ++ b ++ s))) := by
    intro a
    induction a using List.reverseRecOn with
    | nil => exact fun b _ => rfl
    | append_singleton a x ih =>
      intro b hab
      have hdepth : (b ++ (xs ++ a)).length = n := by
        simp only [length_append, length_singleton] at hab ⊢
        omega
      have hstep := apply_dup x (b ++ (xs ++ a)) (b ++ s) hdepth
      rw [length_append, length_singleton, replicate_succ, applyAll_cons,
        show b ++ (xs ++ (a ++ [x] ++ b ++ s)) = b ++ (xs ++ a) ++ x :: (b ++ s) by simp, hstep,
        bind_some]
      have hnext := ih (x :: b) (by simpa using hab)
      simpa using hnext
  simpa using hcopy c [] (by simpa using h)

end StackOperation

end Semantics
