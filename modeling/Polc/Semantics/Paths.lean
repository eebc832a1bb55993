import Mathlib.Data.Finset.Max
import Mathlib.Data.List.Chain

/-!
# Paths and worklists

Paths of a relation as lists, with all of their vertices. On a worklist, a set of pending items is
worked off, the least item first. A visit changes a state and may add items. It makes progress:
either it adds none, or some measure of the state decreases.
-/

namespace Semantics

variable {α : Type*} {r : α → α → Prop} {a b c : α} {before after path : List α}

structure IsPath (r : α → α → Prop) (a b : α) (path : List α) : Prop where
  chain : path.IsChain r
  head : path.head? = some a
  last : path.getLast? = some b

lemma isPath_singleton : IsPath r a a [a] := ⟨.singleton a, rfl, rfl⟩

lemma isPath_append : IsPath r a b (before ++ c :: after) ↔
    IsPath r a c (before ++ [c]) ∧ IsPath r c b (c :: after) := by
  have hhead : (before ++ c :: after).head? = (before ++ [c]).head? := by
    rw [List.head?_append, List.head?_append, List.head?_cons, List.head?_cons]
  have hlast : (before ++ c :: after).getLast? = (c :: after).getLast? := by
    rw [List.getLast?_append, List.getLast?_cons, Option.some_or]
  constructor
  · rintro ⟨hchain, ha, hb⟩
    obtain ⟨hbefore, hafter⟩ := List.isChain_split.mp hchain
    exact ⟨⟨hbefore, hhead ▸ ha, List.getLast?_concat⟩, ⟨hafter, rfl, hlast ▸ hb⟩⟩
  · rintro ⟨⟨hbefore, ha, -⟩, ⟨hafter, -, hb⟩⟩
    exact ⟨List.isChain_split.mpr ⟨hbefore, hafter⟩, hhead ▸ ha, hlast ▸ hb⟩

lemma IsPath.exists_eq_append (h : IsPath r a b path) : ∃ before, path = before ++ [b] :=
  List.getLast?_eq_some_iff.mp h.last

lemma IsPath.exists_eq_cons (h : IsPath r a b path) : ∃ after, path = a :: after :=
  List.head?_eq_some_iff.mp h.head

lemma isPath_cons (hne : path ≠ []) :
    IsPath r a b (c :: path) ↔ a = c ∧ ∃ d, r c d ∧ IsPath r d b path := by
  obtain ⟨d, path, rfl⟩ := List.exists_cons_of_ne_nil hne
  constructor
  · rintro ⟨hchain, ha, hb⟩
    obtain ⟨hedge, hchain⟩ := List.isChain_cons_cons.mp hchain
    exact ⟨(Option.some_inj.mp ha).symm, d, hedge, hchain, rfl, hb⟩
  · rintro ⟨rfl, e, hedge, ⟨hchain, hd, hb⟩⟩
    obtain rfl := Option.some_inj.mp hd
    exact ⟨List.isChain_cons_cons.mpr ⟨hedge, hchain⟩, rfl, hb⟩

theorem reflTransGen_iff_exists_isPath :
    Relation.ReflTransGen r a b ↔ ∃ path, IsPath r a b path := by
  constructor
  · intro h
    induction h using Relation.ReflTransGen.head_induction_on with
    | refl => exact ⟨[b], isPath_singleton⟩
    | head hedge _ ih =>
      obtain ⟨path, hpath⟩ := ih
      obtain ⟨after, rfl⟩ := hpath.exists_eq_cons
      exact ⟨_, (isPath_cons (List.cons_ne_nil _ _)).mpr ⟨rfl, _, hedge, hpath⟩⟩
  · rintro ⟨path, hpath⟩
    induction path generalizing a with
    | nil => cases hpath.head
    | cons d path ih =>
      rcases eq_or_ne path [] with rfl | hne
      · obtain rfl := Option.some_inj.mp hpath.head
        obtain rfl := Option.some_inj.mp hpath.last
        exact .refl
      · obtain ⟨rfl, e, hedge, htail⟩ := (isPath_cons hne).mp hpath
        exact .head hedge (ih htail)

/-- A cycle can be reached. -/
def ReachesCycle (r : α → α → Prop) (a : α) : Prop :=
  ∃ c, Relation.ReflTransGen r a c ∧ Relation.TransGen r c c

lemma ReachesCycle.head (h : r a b) (hb : ReachesCycle r b) : ReachesCycle r a := by
  obtain ⟨c, hbc, hcycle⟩ := hb
  exact ⟨c, .head h hbc, hcycle⟩

lemma ReachesCycle.exists_edge (h : ReachesCycle r a) : ∃ b, r a b ∧ ReachesCycle r b := by
  obtain ⟨c, hac, hcycle⟩ := h
  rcases hac.cases_head with rfl | ⟨b, hab, hbc⟩
  · obtain ⟨b, hab, hba⟩ := Relation.TransGen.head'_iff.mp hcycle
    exact ⟨b, hab, a, hba, hcycle⟩
  · exact ⟨b, hab, c, hbc, hcycle⟩

variable {ι σ : Type*} [LinearOrder ι]

/-- A visit of an item, with the other pending items. -/
structure Worklist (ι σ : Type*) [LinearOrder ι] where
  visit : ι → σ → Finset ι → σ × Finset ι
  measure : σ → ℕ
  progress : ∀ i s todo, measure (visit i s todo).1 < measure s ∨
    measure (visit i s todo).1 ≤ measure s ∧ (visit i s todo).2 = todo

namespace Worklist

variable (w : Worklist ι σ)

def run (s : σ) (todo : Finset ι) : σ :=
  if h : todo.Nonempty then
    let r := w.visit (todo.min' h) s (todo.erase (todo.min' h))
    run r.1 r.2
  else s
termination_by (w.measure s, todo.card)
decreasing_by
  rcases w.progress (todo.min' h) s (todo.erase (todo.min' h)) with hlt | ⟨hle, htodo⟩
  · exact Prod.Lex.left _ _ hlt
  · rcases hle.lt_or_eq with hlt | heq
    · exact Prod.Lex.left _ _ hlt
    · rw [heq, htodo]
      exact Prod.Lex.right _ (Finset.card_erase_lt_of_mem (todo.min'_mem h))

lemma run_empty (s : σ) : w.run s ∅ = s := by
  rw [run, dif_neg Finset.not_nonempty_empty]

lemma run_of_nonempty (s : σ) {todo : Finset ι} (h : todo.Nonempty) :
    w.run s todo =
      w.run (w.visit (todo.min' h) s (todo.erase (todo.min' h))).1
        (w.visit (todo.min' h) s (todo.erase (todo.min' h))).2 := by
  rw [run, dif_pos h]

/-- What every visit of a pending item preserves holds when nothing is pending. -/
theorem run_induction {P : σ → Finset ι → Prop}
    (hvisit : ∀ i s todo, i ∈ todo → P s todo →
      P (w.visit i s (todo.erase i)).1 (w.visit i s (todo.erase i)).2)
    (s : σ) (todo : Finset ι) (h : P s todo) : P (w.run s todo) ∅ := by
  induction s, todo using run.induct w with
  | case1 s todo hne r ih =>
    rw [run_of_nonempty w s hne]
    exact ih (hvisit _ s todo (todo.min'_mem hne) h)
  | case2 s todo hne =>
    obtain rfl := Finset.not_nonempty_iff_eq_empty.mp hne
    rw [run_empty]
    exact h

end Worklist

end Semantics
