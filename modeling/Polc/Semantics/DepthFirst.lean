import Mathlib.Data.Finset.Card

/-!
# Depth-first search

The search marks the vertices of a graph when it enters them and emits them when it leaves them. An
edge to a vertex that has been entered but not left is not followed, so cycles are cut.
-/

namespace Semantics

variable {V : Type*}

/-- The vertices that have been entered, and those that have been left in this order. -/
structure Search (V : Type*) where
  seen : List V
  order : List V

namespace Search

variable (next : V → List V)

def enter (v : V) (s : Search V) : Search V := { s with seen := v :: s.seen }

def leave (v : V) (s : Search V) : Search V := { s with order := s.order ++ [v] }

variable [DecidableEq V]

def visit : ℕ → V → Search V → Option (Search V)
  | 0, _, _ => none
  | n + 1, v, s =>
    if v ∈ s.seen then some s
    else ((next v).foldlM (fun s w => visit n w s) (s.enter v)).map (leave v)

/-- Visit one vertex after the other. -/
def visitAll (n : ℕ) (vs : List V) (s : Search V) : Option (Search V) :=
  vs.foldlM (fun s w => visit next n w s) s

variable {next} {n : ℕ} {v w : V} {vs : List V} {s s' : Search V}

lemma visit_of_mem (h : v ∈ s.seen) : visit next (n + 1) v s = some s := if_pos h

lemma visit_of_notMem (h : v ∉ s.seen) :
    visit next (n + 1) v s = (visitAll next n (next v) (s.enter v)).map (leave v) := if_neg h

@[simp] lemma visitAll_nil : visitAll next n [] s = some s := rfl

lemma visitAll_cons :
    visitAll next n (v :: vs) s = (visit next n v s).bind (visitAll next n vs) := by
  rw [visitAll, List.foldlM_cons]
  rfl

/-! ### What a search preserves -/

/-- Every vertex that has been left comes behind those it has an edge to, unless these are on a
cycle with it. -/
def IsSorted (next : V → List V) (order : List V) : Prop :=
  ∀ before u after, order = before ++ u :: after → ∀ w ∈ next u,
    w ∈ before ∨ Relation.ReflTransGen (fun a b => b ∈ next a) w u

/-- Entered but not left. -/
def IsActive (s : Search V) (v : V) : Prop := v ∈ s.seen ∧ v ∉ s.order

structure IsValid (next : V → List V) (s : Search V) : Prop where
  nodup : s.order.Nodup
  seen : ∀ v ∈ s.order, v ∈ s.seen
  sorted : IsSorted next s.order

/-- What happens between two states of a search with the same active vertices. -/
structure Continues (next : V → List V) (s s' : Search V) : Prop where
  valid : IsValid next s'
  seen : ∀ v ∈ s.seen, v ∈ s'.seen
  active : ∀ v, s'.IsActive v ↔ s.IsActive v

section

omit [DecidableEq V]

lemma Continues.refl (h : IsValid next s) : Continues next s s :=
  ⟨h, fun _ hv => hv, fun _ => Iff.rfl⟩

lemma Continues.trans {s'' : Search V} (h : Continues next s s') (h' : Continues next s' s'') :
    Continues next s s'' :=
  ⟨h'.valid, fun v hv => h'.seen v (h.seen v hv), fun v => (h'.active v).trans (h.active v)⟩

lemma IsValid.enter (h : IsValid next s) : IsValid next (s.enter v) :=
  ⟨h.nodup, fun w hw => List.mem_cons_of_mem v (h.seen w hw), h.sorted⟩

lemma isActive_enter (h : IsValid next s) (hv : v ∉ s.seen) :
    (s.enter v).IsActive w ↔ w = v ∨ s.IsActive w := by
  have hleft : v ∉ s.order := fun hmem => hv (h.seen v hmem)
  simp only [IsActive, enter, List.mem_cons]
  constructor
  · rintro ⟨rfl | hw, hw'⟩
    · exact .inl rfl
    · exact .inr ⟨hw, hw'⟩
  · rintro (rfl | ⟨hw, hw'⟩)
    · exact ⟨.inl rfl, hleft⟩
    · exact ⟨.inr hw, hw'⟩

lemma Continues.leave (h : IsValid next s) (hv : v ∉ s.seen)
    (hreach : ∀ w, s.IsActive w → Relation.ReflTransGen (fun a b => b ∈ next a) w v)
    (hentered : Continues next (s.enter v) s') (hnext : ∀ w ∈ next v, w ∈ s'.seen) :
    Continues next s (s'.leave v) := by
  have hactive (w : V) : s'.IsActive w ↔ w = v ∨ s.IsActive w :=
    (hentered.active w).trans (isActive_enter h hv)
  have hv' : s'.IsActive v := (hactive v).mpr (.inl rfl)
  refine ⟨⟨?_, ?_, ?_⟩, fun w hw => hentered.seen w (List.mem_cons_of_mem v hw), ?_⟩
  · exact List.nodup_append.mpr ⟨hentered.valid.nodup, List.nodup_singleton v, by
      rintro a ha b hb rfl
      obtain rfl := List.mem_singleton.mp hb
      exact hv'.2 ha⟩
  · intro w hw
    rcases List.mem_append.mp hw with hw | hw
    · exact hentered.valid.seen w hw
    · obtain rfl := List.mem_singleton.mp hw
      exact hv'.1
  · intro before u after heq w hw
    rcases List.eq_nil_or_concat after with rfl | ⟨after, z, rfl⟩
    · obtain ⟨rfl, hu⟩ := List.append_inj' heq rfl
      obtain rfl := List.singleton_inj.mp hu
      by_cases hleft : w ∈ s'.order
      · exact .inl hleft
      · right
        rcases (hactive w).mp ⟨hnext w hw, hleft⟩ with rfl | hactive'
        · exact .refl
        · exact hreach w hactive'
    · rw [Search.leave, List.concat_eq_append, ← List.cons_append, ← List.append_assoc] at heq
      obtain ⟨heq', -⟩ := List.append_inj' heq rfl
      exact hentered.valid.sorted before u after heq' w hw
  · intro w
    constructor
    · rintro ⟨hw, hw'⟩
      have hnot : w ∉ s'.order ∧ w ≠ v :=
        ⟨fun hmem => hw' (List.mem_append_left _ hmem),
          fun heq => hw' (List.mem_append_right _ (List.mem_singleton.mpr heq))⟩
      exact ((hactive w).mp ⟨hw, hnot.1⟩).resolve_left hnot.2
    · intro hw
      obtain ⟨hseen, hleft⟩ := (hactive w).mpr (.inr hw)
      refine ⟨hseen, fun hmem => ?_⟩
      rcases List.mem_append.mp hmem with hmem | hmem
      · exact hleft hmem
      · obtain rfl := List.mem_singleton.mp hmem
        exact hv hw.1

end

/-! ### A search ends -/

/-- How many of the vertices have not been entered. -/
def unseen (vertices : Finset V) (s : Search V) : ℕ := (vertices \ s.seen.toFinset).card

variable {vertices : Finset V}

lemma unseen_le (h : ∀ v ∈ s.seen, v ∈ s'.seen) : s'.unseen vertices ≤ s.unseen vertices := by
  apply Finset.card_le_card
  apply Finset.sdiff_subset_sdiff (Finset.Subset.refl vertices)
  intro v hv
  exact List.mem_toFinset.mpr (h v (List.mem_toFinset.mp hv))

lemma unseen_enter_lt (hmem : v ∈ vertices) (hv : v ∉ s.seen) :
    (s.enter v).unseen vertices < s.unseen vertices := by
  rw [unseen, enter, List.toFinset_cons, Finset.sdiff_insert]
  apply Finset.card_erase_lt_of_mem
  exact Finset.mem_sdiff.mpr ⟨hmem, fun h => hv (List.mem_toFinset.mp h)⟩

/-- What a search from a vertex, or from several ones, does. -/
structure Visits (next : V → List V) (vertices : Finset V) (s : Search V) (vs : List V)
    (s' : Search V) : Prop extends Continues next s s' where
  visited : ∀ v ∈ vs, v ∈ s'.seen
  reached : ∀ v ∈ s'.seen, v ∈ s.seen ∨ v ∈ vertices

/-- A search can go on at a vertex when every active vertex has a path to it. -/
structure CanVisit (next : V → List V) (vertices : Finset V) (s : Search V) (v : V) : Prop where
  valid : IsValid next s
  vertex : v ∈ vertices
  reaches : ∀ w, s.IsActive w → Relation.ReflTransGen (fun a b => b ∈ next a) w v

omit [DecidableEq V] in
lemma CanVisit.continues (h : CanVisit next vertices s v) (h' : Continues next s s') :
    CanVisit next vertices s' v :=
  ⟨h'.valid, h.vertex, fun w hw => h.reaches w ((h'.active w).mp hw)⟩

lemma exists_visitAll
    (hvisit : ∀ s v, CanVisit next vertices s v → s.unseen vertices < n →
      ∃ s', visit next n v s = some s' ∧ Visits next vertices s [v] s')
    (hvalid : IsValid next s) (hvs : ∀ v ∈ vs, CanVisit next vertices s v)
    (hn : s.unseen vertices < n) :
    ∃ s', visitAll next n vs s = some s' ∧ Visits next vertices s vs s' := by
  induction vs generalizing s with
  | nil => exact ⟨s, rfl, Continues.refl hvalid, nofun, fun v hv => .inl hv⟩
  | cons v vs ih =>
    obtain ⟨s₁, hrun, h₁⟩ := hvisit s v (hvs v (List.mem_cons_self ..)) hn
    obtain ⟨s₂, hrun', h₂⟩ := ih h₁.valid
      (fun w hw => (hvs w (List.mem_cons_of_mem v hw)).continues h₁.toContinues)
      ((unseen_le h₁.seen).trans_lt hn)
    refine ⟨s₂, ?_, h₁.toContinues.trans h₂.toContinues, ?_, ?_⟩
    · rw [visitAll_cons, hrun, Option.bind_some, hrun']
    · intro w hw
      rcases List.mem_cons.mp hw with rfl | hw
      · exact h₂.seen w (h₁.visited w (List.mem_singleton_self w))
      · exact h₂.visited w hw
    · intro w hw
      rcases h₂.reached w hw with hw | hw
      · exact h₁.reached w hw
      · exact .inr hw

lemma exists_visit (hclosed : ∀ v ∈ vertices, ∀ w ∈ next v, w ∈ vertices) (n : ℕ) (s : Search V)
    (v : V) (h : CanVisit next vertices s v) (hn : s.unseen vertices < n) :
    ∃ s', visit next n v s = some s' ∧ Visits next vertices s [v] s' := by
  induction n generalizing s v with
  | zero => exact absurd hn (Nat.not_lt_zero _)
  | succ n ih =>
    by_cases hv : v ∈ s.seen
    · refine ⟨s, visit_of_mem hv, Continues.refl h.valid, ?_, fun w hw => .inl hw⟩
      intro w hw
      obtain rfl := List.mem_singleton.mp hw
      exact hv
    · have hnext (w : V) (hw : w ∈ next v) : CanVisit next vertices (s.enter v) w := by
        refine ⟨h.valid.enter, hclosed v h.vertex w hw, fun u hu => ?_⟩
        rcases (isActive_enter h.valid hv).mp hu with rfl | hu
        · exact .single hw
        · exact (h.reaches u hu).tail hw
      have hfuel : (s.enter v).unseen vertices < n :=
        (unseen_enter_lt h.vertex hv).trans_le (Nat.lt_succ_iff.mp hn)
      obtain ⟨s', hrun, h'⟩ := exists_visitAll ih h.valid.enter hnext hfuel
      have hleave := Continues.leave h.valid hv h.reaches h'.toContinues h'.visited
      refine ⟨s'.leave v, ?_, hleave, ?_, ?_⟩
      · rw [visit_of_notMem hv, hrun, Option.map_some]
      · intro w hw
        obtain rfl := List.mem_singleton.mp hw
        exact h'.seen w (List.mem_cons_self ..)
      · intro w hw
        rcases h'.reached w hw with hw | hw
        · rcases List.mem_cons.mp hw with rfl | hw
          · exact .inr h.vertex
          · exact .inl hw
        · exact .inr hw

lemma visitAll_mono {m : ℕ} (h : ∀ v s s', visit next n v s = some s' → visit next m v s = some s')
    (hrun : visitAll next n vs s = some s') : visitAll next m vs s = some s' := by
  induction vs generalizing s with
  | nil => exact hrun
  | cons v vs ih =>
    rw [visitAll_cons] at hrun ⊢
    obtain ⟨s₁, hv, hvs⟩ := Option.bind_eq_some_iff.mp hrun
    rw [h v s s₁ hv, Option.bind_some]
    exact ih hvs

lemma visit_succ (n : ℕ) (v : V) (s s' : Search V) (h : visit next n v s = some s') :
    visit next (n + 1) v s = some s' := by
  induction n generalizing v s s' with
  | zero => cases h
  | succ n ih =>
    by_cases hv : v ∈ s.seen
    · rw [visit_of_mem hv] at h ⊢
      exact h
    · rw [visit_of_notMem hv] at h ⊢
      obtain ⟨s₁, hrun, rfl⟩ := Option.map_eq_some_iff.mp h
      rw [visitAll_mono ih hrun, Option.map_some]

lemma visitAll_le {m : ℕ} (h : n ≤ m) (hrun : visitAll next n vs s = some s') :
    visitAll next m vs s = some s' := by
  induction h with
  | refl => exact hrun
  | step _ ih => exact visitAll_mono (visit_succ _) ih

/-- A search from nothing enters and leaves every vertex once, and a vertex is left before those
with an edge to it unless it has a path to them. -/
theorem exists_visitAll_start (vs : List V) (hnodup : vs.Nodup)
    (hclosed : ∀ v ∈ vs, ∀ w ∈ next v, w ∈ vs) :
    ∃ s', (∀ n, vs.length < n → visitAll next n vs ⟨[], []⟩ = some s') ∧
      s'.order.Perm vs ∧ IsSorted next s'.order := by
  have hvalid : IsValid next (⟨[], []⟩ : Search V) :=
    ⟨List.nodup_nil, nofun, fun before u after h => by simp at h⟩
  have hcan (v : V) (hv : v ∈ vs) : CanVisit next vs.toFinset ⟨[], []⟩ v :=
    ⟨hvalid, List.mem_toFinset.mpr hv, fun w hw => absurd hw.1 List.not_mem_nil⟩
  have hfuel : (⟨[], []⟩ : Search V).unseen vs.toFinset < vs.length + 1 :=
    Nat.lt_succ_of_le ((Finset.card_le_card Finset.sdiff_subset).trans (List.toFinset_card_le vs))
  have hclosed' (v : V) (hv : v ∈ vs.toFinset) (w : V) (hw : w ∈ next v) : w ∈ vs.toFinset :=
    List.mem_toFinset.mpr (hclosed v (List.mem_toFinset.mp hv) w hw)
  obtain ⟨s', hrun, h⟩ := exists_visitAll (exists_visit hclosed' _) hvalid hcan hfuel
  refine ⟨s', fun n hn => visitAll_le hn hrun, ?_, h.valid.sorted⟩
  rw [List.perm_ext_iff_of_nodup h.valid.nodup hnodup]
  intro v
  constructor
  · intro hv
    exact List.mem_toFinset.mp ((h.reached v (h.valid.seen v hv)).resolve_left List.not_mem_nil)
  · intro hv
    by_contra hleft
    exact List.not_mem_nil ((h.active v).mp ⟨h.visited v hv, hleft⟩).1

end Search

end Semantics
