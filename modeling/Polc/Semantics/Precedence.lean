import Mathlib.Order.WellFoundedSet

/-!
# Precedence in lists

A collection of lists without a common order: `x` precedes `y` if some list has `x` before `y`.
The collection is consistent if no chain of precedences returns to its start, which is the case
exactly if there is a list without repetition that all of them are sublists of.
-/

namespace Semantics

variable {T : Type*}

/-- Some list has `x` before `y`. -/
def Precedes (ls : List (List T)) (x y : T) : Prop := ∃ l ∈ ls, [x, y].Sublist l

/-- No chain of precedences returns to its start. -/
def Consistent (ls : List (List T)) : Prop := ∀ x, ¬ Relation.TransGen (Precedes ls) x x

variable {ls : List (List T)} {x y : T}

lemma precedes_of_mem_tail {l : List T} (hl : l ∈ ls) (hx : l.head? = some x)
    (hy : y ∈ l.tail) : Precedes ls x y := by
  cases l with
  | nil => cases hy
  | cons a l =>
    obtain rfl : a = x := by simpa using hx
    exact ⟨a :: l, hl, List.Sublist.cons_cons a (List.singleton_sublist.mpr hy)⟩

/-- What holds for larger collections of longer lists holds for smaller ones of shorter lists. -/
lemma Consistent.mono {ls' : List (List T)} (h : Consistent ls)
    (hle : ∀ l' ∈ ls', ∃ l ∈ ls, l'.Sublist l) : Consistent ls' := by
  intro x hx
  refine h x (hx.lift id ?_)
  rintro a b ⟨l', hl', hab⟩
  obtain ⟨l, hl, hsub⟩ := hle l' hl'
  exact ⟨l, hl, hab.trans hsub⟩

/-- A consistent collection has a list whose first element is not behind another in any list. -/
lemma Consistent.exists_first (h : Consistent ls) (hne : ∃ l ∈ ls, l ≠ []) :
    ∃ l ∈ ls, ∃ x, l.head? = some x ∧ ∀ l' ∈ ls, x ∉ l'.tail := by
  let heads : Set T := {x | x ∈ ls.filterMap List.head?}
  have hirrefl : IsStrictOrder T (Relation.TransGen (Precedes ls)) :=
    { irrefl := h, trans := fun _ _ _ => Relation.TransGen.trans }
  have hwf := Set.wellFoundedOn_iff.mp
    (Set.Finite.wellFoundedOn (r := Relation.TransGen (Precedes ls))
      (List.finite_toSet _ : heads.Finite))
  obtain ⟨l, hl, hlne⟩ := hne
  have hhead : heads.Nonempty :=
    ⟨l.head hlne, List.mem_filterMap.mpr ⟨l, hl, List.head?_eq_some_head hlne⟩⟩
  obtain ⟨x, hx, hmin⟩ := hwf.has_min heads hhead
  obtain ⟨lx, hlx, hxhead⟩ := List.mem_filterMap.mp hx
  refine ⟨lx, hlx, x, hxhead, fun l' hl' hmem => ?_⟩
  have hne' : l' ≠ [] := by
    rintro rfl
    cases hmem
  have hy : l'.head hne' ∈ heads :=
    List.mem_filterMap.mpr ⟨l', hl', List.head?_eq_some_head hne'⟩
  have hprec := precedes_of_mem_tail hl' (List.head?_eq_some_head hne') hmem
  exact hmin _ hy ⟨.single hprec, hy, hx⟩

lemma idxOf_lt_idxOf_of_sublist [DecidableEq T] {l : List T} (hl : l.Nodup)
    (h : [x, y].Sublist l) : l.idxOf x < l.idxOf y := by
  induction l with
  | nil => cases h
  | cons a l ih =>
    have hnd := List.nodup_cons.mp hl
    have hne : ∀ z ∈ l, a ≠ z := by
      rintro z hz rfl
      exact hnd.1 hz
    cases h with
    | cons _ h =>
      have hx := hne x (h.subset List.mem_cons_self)
      have hy := hne y (h.subset (List.mem_cons_of_mem _ List.mem_cons_self))
      rw [List.idxOf_cons_ne _ hx, List.idxOf_cons_ne _ hy]
      exact Nat.succ_lt_succ (ih hnd.2 h)
    | cons_cons _ h =>
      have hy := hne y (h.subset List.mem_cons_self)
      rw [List.idxOf_cons_self, List.idxOf_cons_ne _ hy]
      exact Nat.succ_pos _

lemma consistent_of_sublist {r : List T} (hr : r.Nodup) (h : ∀ l ∈ ls, l.Sublist r) :
    Consistent ls := by
  classical
  have hlt : ∀ x y, Relation.TransGen (Precedes ls) x y → r.idxOf x < r.idxOf y := by
    intro x y hxy
    induction hxy with
    | single hp =>
      obtain ⟨l, hl, hsub⟩ := hp
      exact idxOf_lt_idxOf_of_sublist hr (hsub.trans (h l hl))
    | tail _ hp ih =>
      obtain ⟨l, hl, hsub⟩ := hp
      exact ih.trans (idxOf_lt_idxOf_of_sublist hr (hsub.trans (h l hl)))
  exact fun x hx => lt_irrefl _ (hlt x x hx)

end Semantics
