import Polc.Semantics.Paths
import Mathlib.Data.Fintype.Card

/-!
# Cycle detection

`CycleDetector` of `libdevcore/Algorithms.h`. A vertex stands for its address, and the visitor calls
`run` on all adjacent vertices.
-/

namespace Dev

open Semantics

variable {V : Type*} [DecidableEq V]

structure CycleDetector (V : Type*) where
  processing : Finset V
  processed : Finset V
  depth : ℕ
  firstCycleVertex : Option V

namespace CycleDetector

/-- A detector as it is constructed. -/
def fresh : CycleDetector V := ⟨∅, ∅, 0, none⟩

def enter (vertex : V) (d : CycleDetector V) : CycleDetector V :=
  { d with processing := insert vertex d.processing, depth := d.depth + 1 }

/-- What is done when all adjacent vertices have been visited. -/
def leave (vertex : V) (d : CycleDetector V) : CycleDetector V where
  processing := d.processing.erase vertex
  processed := insert vertex d.processed
  depth := d.depth - 1
  firstCycleVertex :=
    if d.firstCycleVertex.isSome ∧ d.depth - 1 = 1 then some vertex else d.firstCycleVertex

variable (adjacent : V → List V)

/-- Perform cycle detection at a vertex, with a bound on the depth of recursion. -/
def run : ℕ → V → CycleDetector V → Option (Option V × CycleDetector V)
  | 0, _, _ => none
  | n + 1, vertex, d =>
    if d.firstCycleVertex.isSome then some (d.firstCycleVertex, d)
    else if vertex ∈ d.processed then some (none, d)
    else if vertex ∈ d.processing then
      some (some vertex, { d with firstCycleVertex := some vertex })
    else
      ((adjacent vertex).foldlM (fun d v => (run n v d).map (·.2)) (d.enter vertex)).map fun d =>
        ((d.leave vertex).firstCycleVertex, d.leave vertex)

/-- The visitor. -/
def visit (n : ℕ) (vs : List V) (d : CycleDetector V) : Option (CycleDetector V) :=
  vs.foldlM (fun d v => (run adjacent n v d).map (·.2)) d

variable {adjacent : V → List V}

/-! ### What a run finds -/

/-- No cycle was found, and none can be reached from a processed vertex. -/
structure Searches (adjacent : V → List V) (d : CycleDetector V) : Prop where
  notFound : d.firstCycleVertex = none
  processed : ∀ u ∈ d.processed, ¬ ReachesCycle (fun a b => b ∈ adjacent a) u

/-- The detector goes on searching, with the same vertices on its path. -/
structure Continues (adjacent : V → List V) (d : CycleDetector V) (vs : List V)
    (d' : CycleDetector V) : Prop extends Searches adjacent d' where
  processing : d'.processing = d.processing
  acyclic : ∀ v ∈ vs, ¬ ReachesCycle (fun a b => b ∈ adjacent a) v

/-- A cycle can be reached from one of the vertices, which is told where it is on the first level
below the start. -/
def Finds (adjacent : V → List V) (d : CycleDetector V) (vs : List V) (d' : CycleDetector V) : Prop :=
  ∃ v ∈ vs, ReachesCycle (fun a b => b ∈ adjacent a) v ∧
    ∃ x, d'.firstCycleVertex = some x ∧ (d.depth = 1 → x = v)

/-- The runs at the vertices lead from `d` to `d'`. -/
def Runs (adjacent : V → List V) (d : CycleDetector V) (vs : List V) (d' : CycleDetector V) : Prop :=
  d'.depth = d.depth ∧ (Continues adjacent d vs d' ∨ Finds adjacent d vs d')

/-- Every vertex on the path of the detector has a path to `v`. -/
def LeadsTo (adjacent : V → List V) (d : CycleDetector V) (v : V) : Prop :=
  ∀ u ∈ d.processing, Relation.TransGen (fun a b => b ∈ adjacent a) u v

variable {n : ℕ} {v : V} {vs : List V} {d d' : CycleDetector V}

lemma visit_cons : visit adjacent n (v :: vs) d =
    ((run adjacent n v d).map (·.2)).bind (visit adjacent n vs) := by
  rw [visit, List.foldlM_cons]
  rfl

lemma visit_of_isSome (h : d.firstCycleVertex.isSome) :
    visit adjacent (n + 1) vs d = some d := by
  induction vs with
  | nil => rfl
  | cons v vs ih =>
    rw [visit_cons, run, if_pos h]
    exact ih

lemma exists_visit [Fintype V]
    (hrun : ∀ v d, Searches adjacent d → LeadsTo adjacent d v → d.processingᶜ.card < n →
      ∃ d', run adjacent n v d = some (d'.firstCycleVertex, d') ∧ Runs adjacent d [v] d')
    (hd : Searches adjacent d) (hvs : ∀ v ∈ vs, LeadsTo adjacent d v)
    (hn : d.processingᶜ.card < n) :
    ∃ d', visit adjacent n vs d = some d' ∧ Runs adjacent d vs d' := by
  induction vs generalizing d with
  | nil => exact ⟨d, rfl, rfl, .inl ⟨hd, rfl, nofun⟩⟩
  | cons v vs ih =>
    obtain ⟨d₁, hv, hdepth, hcontinues | ⟨w, hw, hreaches, x, hx, hlevel⟩⟩ :=
      hrun v d hd (hvs v List.mem_cons_self) hn
    · have hsame := hcontinues.processing
      obtain ⟨d₂, hrest, hdepth', hruns⟩ := ih hcontinues.toSearches
        (fun w hw u hu => hvs w (List.mem_cons_of_mem v hw) u (hsame ▸ hu)) (hsame ▸ hn)
      refine ⟨d₂, ?_, hdepth'.trans hdepth, ?_⟩
      · rw [visit_cons, hv]
        exact hrest
      · rcases hruns with ⟨hsearches, hprocessing, hacyclic⟩ | ⟨w, hw, hreaches, x, hx, hlevel⟩
        · refine .inl ⟨hsearches, hprocessing.trans hsame, fun w hw => ?_⟩
          rcases List.mem_cons.mp hw with rfl | hw
          · exact hcontinues.acyclic w (List.mem_singleton_self w)
          · exact hacyclic w hw
        · exact .inr ⟨w, List.mem_cons_of_mem v hw, hreaches, x, hx, hdepth ▸ hlevel⟩
    · obtain rfl := List.mem_singleton.mp hw
      obtain ⟨n, rfl⟩ := Nat.exists_eq_add_one.mpr (Nat.zero_lt_of_lt hn)
      refine ⟨d₁, ?_, hdepth, .inr ⟨w, List.mem_cons_self, hreaches, x, hx, hlevel⟩⟩
      rw [visit_cons, hv]
      exact visit_of_isSome (hx ▸ rfl)

lemma Runs.leave (hv : v ∉ d.processing)
    (h : Runs adjacent (d.enter v) (adjacent v) d') : Runs adjacent d [v] (d'.leave v) := by
  obtain ⟨hdepth, h⟩ := h
  have hlevel : d'.depth - 1 = d.depth := Nat.sub_eq_of_eq_add hdepth
  refine ⟨hlevel, ?_⟩
  rcases h with ⟨⟨hnone, hprocessed⟩, hprocessing, hacyclic⟩ | ⟨w, hw, hreaches, x, hx, -⟩
  · have hacyclic' : ¬ ReachesCycle (fun a b => b ∈ adjacent a) v := fun hreaches => by
      obtain ⟨w, hw, hreaches⟩ := hreaches.exists_edge
      exact hacyclic w hw hreaches
    refine .inl ⟨⟨?_, fun u hu => ?_⟩, ?_, fun w hw => ?_⟩
    · rw [CycleDetector.leave, hnone, Option.isSome_none, if_neg (by simp)]
    · rcases Finset.mem_insert.mp hu with rfl | hu
      · exact hacyclic'
      · exact hprocessed u hu
    · rw [CycleDetector.leave, hprocessing]
      exact Finset.erase_insert hv
    · rwa [List.mem_singleton.mp hw]
  · refine .inr ⟨v, List.mem_singleton_self v, hreaches.head hw, ?_⟩
    rw [CycleDetector.leave, hx, hlevel]
    split_ifs with hone
    · exact ⟨v, rfl, fun _ => rfl⟩
    · exact ⟨x, rfl, fun h => absurd ⟨rfl, h⟩ hone⟩

lemma Searches.enter (h : Searches adjacent d) (v : V) : Searches adjacent (d.enter v) :=
  ⟨h.notFound, h.processed⟩

lemma LeadsTo.enter (h : LeadsTo adjacent d v) {w : V} (hw : w ∈ adjacent v) :
    LeadsTo adjacent (d.enter v) w := by
  intro u hu
  rcases Finset.mem_insert.mp hu with rfl | hu
  · exact .single hw
  · exact (h u hu).tail hw

lemma exists_run [Fintype V] (v : V) (d : CycleDetector V) (hd : Searches adjacent d)
    (hv : LeadsTo adjacent d v) (hn : d.processingᶜ.card < n) :
    ∃ d', run adjacent n v d = some (d'.firstCycleVertex, d') ∧ Runs adjacent d [v] d' := by
  induction n generalizing v d with
  | zero => exact absurd hn (Nat.not_lt_zero _)
  | succ n ih =>
    have hnone : ¬ d.firstCycleVertex.isSome = true := by
      rw [hd.notFound]
      exact Bool.false_ne_true
    rw [run, if_neg hnone]
    split_ifs with hprocessed hprocessing
    · refine ⟨d, by rw [hd.notFound], rfl, .inl ⟨hd, rfl, fun w hw => ?_⟩⟩
      rw [List.mem_singleton.mp hw]
      exact hd.processed v hprocessed
    · -- The path of the detector has come back to `v`.
      exact ⟨{ d with firstCycleVertex := some v }, rfl, rfl, .inr ⟨v, List.mem_singleton_self v,
        ⟨v, .refl, hv v hprocessing⟩, v, rfl, fun _ => rfl⟩⟩
    · have hcard : (d.enter v).processingᶜ.card < n := by
        rw [enter, Finset.compl_insert]
        have hmem : v ∈ d.processingᶜ := Finset.mem_compl.mpr hprocessing
        exact (Finset.card_erase_lt_of_mem hmem).trans_le (Nat.le_of_lt_succ hn)
      obtain ⟨d', hvisit, hruns⟩ := exists_visit ih (hd.enter v) (fun w hw => hv.enter hw) hcard
      exact ⟨d'.leave v, congrArg (Option.map _) hvisit, hruns.leave hprocessing⟩

/-- A fresh detector returns a vertex exactly if a cycle can be reached from the start. It is
adjacent to the start, and a cycle can be reached from it. -/
theorem run_detects [Fintype V] (adjacent : V → List V) (start : V) (n : ℕ) :
    ∃ result d, run adjacent (Fintype.card V + n + 2) start fresh = some (result, d) ∧
      (result.isSome = true ↔ ReachesCycle (fun a b => b ∈ adjacent a) start) ∧
      ∀ x, result = some x →
        x ∈ adjacent start ∧ ReachesCycle (fun a b => b ∈ adjacent a) x := by
  have hfresh : Searches adjacent (fresh : CycleDetector V) := ⟨rfl, fun u hu => nomatch hu⟩
  have hleads : LeadsTo adjacent (fresh : CycleDetector V) start := fun u hu => nomatch hu
  have hcard : (fresh.enter start).processingᶜ.card < Fintype.card V + n + 1 :=
    (Finset.card_le_univ _).trans_lt (by omega)
  obtain ⟨d, hvisit, hdepth, hruns⟩ :=
    exists_visit exists_run (hfresh.enter start) (fun w hw => hleads.enter hw) hcard
  have hleave : (d.leave start).firstCycleVertex = d.firstCycleVertex :=
    if_neg fun h => by
      rw [hdepth] at h
      exact absurd h.2 Nat.zero_ne_one
  refine ⟨d.firstCycleVertex, d.leave start, ?_, ?_⟩
  · rw [← hleave]
    exact congrArg (Option.map _) hvisit
  · rcases hruns with ⟨⟨hnone, -⟩, -, hacyclic⟩ | ⟨w, hw, hreaches, x, hx, hlevel⟩
    · rw [hnone]
      refine ⟨⟨nofun, fun h => ?_⟩, nofun⟩
      obtain ⟨w, hw, hreaches⟩ := h.exists_edge
      exact absurd hreaches (hacyclic w hw)
    · obtain rfl := hlevel rfl
      rw [hx]
      refine ⟨⟨fun _ => hreaches.head hw, fun _ => rfl⟩, ?_⟩
      rintro _ ⟨⟩
      exact ⟨hw, hreaches⟩

end CycleDetector

end Dev
