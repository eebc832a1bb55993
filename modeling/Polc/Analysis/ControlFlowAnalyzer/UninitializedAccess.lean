import Polc.Analysis.ControlFlowAnalyzer

/-!
# Paths with uninitialised accesses

Which occurrences `checkUninitializedAccess` reports, and which ones there are paths for.
-/

namespace Polynomial.ControlFlow

open List Function

variable {Location : Type*}

namespace VariableOccurrence

variable (o : VariableOccurrence Location) (d : VariableDeclaration Location)

def Declares : Prop := o.kind = .declaration ∧ o.declaration = d

def Assigns : Prop := o.kind = .assignment ∧ o.declaration = d

def IsUse : Prop := o.kind = .access ∨ o.kind = .returned ∨ o.kind = .inlineAssembly

end VariableOccurrence

variable {o : VariableOccurrence Location} {os os' : List (VariableOccurrence Location)}
  {d : VariableDeclaration Location}

/-- The variable is not assigned. -/
def Keeps (d : VariableDeclaration Location) (os : List (VariableOccurrence Location)) : Prop :=
  ∀ o ∈ os, ¬ o.Assigns d

/-- The variable is declared, and not assigned behind its declaration. -/
def UnassignedAfter (d : VariableDeclaration Location) (os : List (VariableOccurrence Location)) :
    Prop :=
  ∃ before o after, os = before ++ o :: after ∧ o.Declares d ∧ Keeps d after

lemma keeps_nil : Keeps d [] := forall_mem_nil _

lemma keeps_cons : Keeps d (o :: os) ↔ ¬ o.Assigns d ∧ Keeps d os := forall_mem_cons

lemma keeps_append : Keeps d (os ++ os') ↔ Keeps d os ∧ Keeps d os' := forall_mem_append

lemma not_unassignedAfter_nil : ¬ UnassignedAfter d [] := by
  rintro ⟨before, o, after, h, -⟩
  exact append_ne_nil_of_right_ne_nil before (cons_ne_nil o after) h.symm

lemma unassignedAfter_cons :
    UnassignedAfter d (o :: os) ↔ UnassignedAfter d os ∨ o.Declares d ∧ Keeps d os := by
  constructor
  · rintro ⟨before, o', after, h, hdeclares, hkeeps⟩
    rcases cons_eq_append_iff.mp h with ⟨-, h⟩ | ⟨before', -, h⟩
    · obtain ⟨rfl, rfl⟩ := cons_eq_cons.mp h
      exact .inr ⟨hdeclares, hkeeps⟩
    · exact .inl ⟨before', o', after, h, hdeclares, hkeeps⟩
  · rintro (⟨before, o', after, rfl, hdeclares, hkeeps⟩ | ⟨hdeclares, hkeeps⟩)
    · exact ⟨o :: before, o', after, rfl, hdeclares, hkeeps⟩
    · exact ⟨[], o, os, rfl, hdeclares, hkeeps⟩

lemma unassignedAfter_append : UnassignedAfter d (os ++ os') ↔
    UnassignedAfter d os' ∨ UnassignedAfter d os ∧ Keeps d os' := by
  induction os with
  | nil => simp [not_unassignedAfter_nil]
  | cons o os ih =>
    rw [cons_append, unassignedAfter_cons, unassignedAfter_cons, ih, keeps_append]
    tauto

/-! ### Accesses -/

/-- An access of a storage variable that is unassigned, also if it is so at first. -/
def IsUninitializedAt (os : List (VariableOccurrence Location)) (i : ℕ)
    (unassigned : VariableDeclaration Location → Prop) : Prop :=
  ∃ o, os[i]? = some o ∧ o.IsUse ∧ o.declaration.inStorage = true ∧
    (UnassignedAfter o.declaration (os.take i) ∨
      unassigned o.declaration ∧ Keeps o.declaration (os.take i))

lemma isUninitializedAt_cons_succ {i : ℕ} {unassigned : VariableDeclaration Location → Prop} :
    IsUninitializedAt (o :: os) (i + 1) unassigned ↔
      IsUninitializedAt os i fun d => o.Declares d ∨ unassigned d ∧ ¬ o.Assigns d := by
  simp only [IsUninitializedAt, getElem?_cons_succ, take_succ_cons,
    unassignedAfter_cons, keeps_cons]
  refine exists_congr fun o' => ?_
  tauto

lemma isUninitializedAt_cons_zero {unassigned : VariableDeclaration Location → Prop} :
    IsUninitializedAt (o :: os) 0 unassigned ↔
      o.IsUse ∧ o.declaration.inStorage ∧ unassigned o.declaration := by
  simp [IsUninitializedAt, not_unassignedAfter_nil, keeps_nil]

namespace FunctionFlow

variable {flow : FunctionFlow Location}

section

variable [DecidableEq Location]

lemma mem_traverse_fst {n : flow.Node}
    {r : Finset (VariableDeclaration Location) × Finset flow.Pointer} {i : ℕ} :
    d ∈ (traverse n r (o, i)).1 ↔ o.Declares d ∨ d ∈ r.1 ∧ ¬ o.Assigns d := by
  rw [traverse, VariableOccurrence.Declares, VariableOccurrence.Assigns]
  cases o.kind with
  | assignment => simp [and_comm, eq_comm]
  | declaration => simp [eq_comm]
  | _ => simp [recordAccess_fst]

lemma mem_traverse_snd {n : flow.Node}
    {r : Finset (VariableDeclaration Location) × Finset flow.Pointer} {i : ℕ} {q : flow.Pointer} :
    q ∈ (traverse n r (o, i)).2 ↔
      q ∈ r.2 ∨ q = toLex (n, i) ∧ o.IsUse ∧ o.declaration.inStorage ∧
        o.declaration ∈ r.1 := by
  rw [traverse, VariableOccurrence.IsUse]
  cases o.kind with
  | assignment => simp
  | declaration => simp
  | _ => simp [mem_recordAccess_snd, and_comm]

lemma mem_foldl_traverse_fst {n : flow.Node} (os : List (VariableOccurrence Location)) (k : ℕ)
    (r : Finset (VariableDeclaration Location) × Finset flow.Pointer) :
    d ∈ ((os.zipIdx k).foldl (traverse n) r).1 ↔
      UnassignedAfter d os ∨ d ∈ r.1 ∧ Keeps d os := by
  induction os generalizing k r with
  | nil => simp [not_unassignedAfter_nil, keeps_nil]
  | cons o os ih =>
    rw [zipIdx_cons, foldl_cons, ih, mem_traverse_fst, unassignedAfter_cons, keeps_cons]
    tauto

lemma mem_foldl_traverse_snd {n : flow.Node} (os : List (VariableOccurrence Location)) (k : ℕ)
    (r : Finset (VariableDeclaration Location) × Finset flow.Pointer) {q : flow.Pointer} :
    q ∈ ((os.zipIdx k).foldl (traverse n) r).2 ↔
      q ∈ r.2 ∨ ∃ i, q = toLex (n, k + i) ∧ IsUninitializedAt os i (· ∈ r.1) := by
  induction os generalizing k r with
  | nil => simp [IsUninitializedAt]
  | cons o os ih =>
    rw [zipIdx_cons, foldl_cons, ih, mem_traverse_snd, or_assoc]
    refine or_congr_right ?_
    simp only [mem_traverse_fst]
    constructor
    · rintro (⟨hq, h⟩ | ⟨i, hq, h⟩)
      · exact ⟨0, hq, isUninitializedAt_cons_zero.mpr h⟩
      · exact ⟨i + 1, by rw [hq, Nat.add_right_comm, Nat.add_assoc],
          isUninitializedAt_cons_succ.mpr h⟩
    · rintro ⟨i, hq, h⟩
      cases i with
      | zero => exact .inl ⟨hq, isUninitializedAt_cons_zero.mp h⟩
      | succ i =>
        exact .inr ⟨i, by rw [hq, Nat.add_right_comm, Nat.add_assoc],
          isUninitializedAt_cons_succ.mp h⟩

lemma mem_traverse_exit {info : flow.NodeInfo} {n : flow.Node} :
    d ∈ (info.traverse n).unassignedVariablesAtExit ↔
      UnassignedAfter d (flow.occurrences n) ∨
        d ∈ info.unassignedVariablesAtEntry ∧ Keeps d (flow.occurrences n) :=
  mem_foldl_traverse_fst _ _ _

lemma mem_traverse_accesses {info : flow.NodeInfo} {n : flow.Node} {q : flow.Pointer} :
    q ∈ (info.traverse n).uninitializedVariableAccesses ↔
      q ∈ info.uninitializedVariableAccesses ∨ ∃ i, q = toLex (n, i) ∧
        IsUninitializedAt (flow.occurrences n) i (· ∈ info.unassignedVariablesAtEntry) := by
  have h := mem_foldl_traverse_snd (n := n) (q := q) (flow.occurrences n) 0
    (info.unassignedVariablesAtEntry, info.uninitializedVariableAccesses)
  simp only [Nat.zero_add] at h
  exact h

end

section

variable (flow)

def Edge (m n : flow.Node) : Prop := n ∈ (flow.node m).exits

/-- From the start of a node to the start of the next one the variable is not assigned. -/
def Spreads (d : VariableDeclaration Location) (m n : flow.Node) : Prop :=
  Keeps d (flow.occurrences m) ∧ flow.Edge m n

/-- A variable declared in `start` is unassigned when `n` is entered. -/
def UnassignedAtEntry (start : flow.Node) (d : VariableDeclaration Location) (n : flow.Node) :
    Prop :=
  UnassignedAfter d (flow.occurrences start) ∧
    ∃ m, flow.Edge start m ∧ Relation.ReflTransGen (flow.Spreads d) m n

/-- An access of a variable that is declared in `start` and not assigned since then. -/
def UninitializedFrom (start : flow.Node) (p : flow.Pointer) : Prop :=
  ∃ o, flow.occurrence? p = some o ∧ o.IsUse ∧ o.declaration.inStorage = true ∧
    (start = p.1 ∧ UnassignedAfter o.declaration ((flow.occurrences p.1).take p.2) ∨
      flow.UnassignedAtEntry start o.declaration p.1 ∧
        Keeps o.declaration ((flow.occurrences p.1).take p.2))

/-- The nodes that are walked: the entry, and those behind a walked node to which something is
handed on that begins there, an unassigned variable or an access of one. -/
inductive Walked : flow.Node → Prop
  | entry : Walked flow.entry
  | unassigned {start n : flow.Node} {d : VariableDeclaration Location} :
    Walked start → flow.UnassignedAtEntry start d n → Walked n
  | accessed {start n : flow.Node} {p : flow.Pointer} :
    Walked start → flow.UninitializedFrom start p → Relation.TransGen flow.Edge p.1 n → Walked n

/-- An access that begins at a walked node and reaches a node. -/
def AccessedBefore (p : flow.Pointer) (n : flow.Node) : Prop :=
  ∃ start, flow.Walked start ∧ flow.UninitializedFrom start p ∧
    Relation.ReflTransGen flow.Edge p.1 n

end

lemma UnassignedAtEntry.of_edge {start n : flow.Node}
    (h : UnassignedAfter d (flow.occurrences start)) (hedge : flow.Edge start n) :
    flow.UnassignedAtEntry start d n :=
  ⟨h, n, hedge, .refl⟩

lemma UnassignedAtEntry.tail {start m n : flow.Node} (h : flow.UnassignedAtEntry start d m)
    (hkeeps : Keeps d (flow.occurrences m)) (hedge : flow.Edge m n) :
    flow.UnassignedAtEntry start d n := by
  obtain ⟨hdeclared, k, hk, hspreads⟩ := h
  exact ⟨hdeclared, k, hk, hspreads.tail ⟨hkeeps, hedge⟩⟩

section

variable [DecidableEq Location]

/-! ### Nothing else is recorded -/

/-- What is known begins at walked nodes. -/
structure IsSound (infos : flow.NodeInfos) (todo : Finset flow.Node) : Prop where
  entry : ∀ n, ∀ d ∈ (infos n).unassignedVariablesAtEntry,
    ∃ start, flow.Walked start ∧ flow.UnassignedAtEntry start d n
  exit : ∀ n, ∀ d ∈ (infos n).unassignedVariablesAtExit, ∃ start, flow.Walked start ∧
    ∀ m, flow.Edge n m → flow.UnassignedAtEntry start d m
  accesses : ∀ n, ∀ p ∈ (infos n).uninitializedVariableAccesses, flow.AccessedBefore p n
  todo : ∀ n ∈ todo, flow.Walked n

lemma isSound_init : IsSound (fun _ => .empty) {flow.entry} where
  entry _ _ h := absurd h (Finset.notMem_empty _)
  exit _ _ h := absurd h (Finset.notMem_empty _)
  accesses _ _ h := absurd h (Finset.notMem_empty _)
  todo n h := by
    obtain rfl := Finset.mem_singleton.mp h
    exact .entry

lemma accessedBefore_of_isUninitializedAt {n : flow.Node} {i : ℕ} {info : flow.NodeInfo}
    (hwalked : flow.Walked n)
    (hentry : ∀ d ∈ info.unassignedVariablesAtEntry,
      ∃ start, flow.Walked start ∧ flow.UnassignedAtEntry start d n)
    (h : IsUninitializedAt (flow.occurrences n) i (· ∈ info.unassignedVariablesAtEntry)) :
    flow.AccessedBefore (toLex (n, i)) n := by
  obtain ⟨o, hget, huse, hstorage, hunassigned | ⟨hmem, hkeeps⟩⟩ := h
  · exact ⟨n, hwalked, ⟨o, hget, huse, hstorage, .inl ⟨rfl, hunassigned⟩⟩, .refl⟩
  · obtain ⟨start, hstart, hat⟩ := hentry _ hmem
    exact ⟨start, hstart, ⟨o, hget, huse, hstorage, .inr ⟨hat, hkeeps⟩⟩, .refl⟩

lemma IsSound.traverse {infos : flow.NodeInfos} {todo : Finset flow.Node} (h : IsSound infos todo)
    {n : flow.Node} (hwalked : flow.Walked n) :
    IsSound (Function.update infos n ((infos n).traverse n)) todo where
  entry m d hd := by
    by_cases hm : m = n
    · subst hm
      rw [update_self] at hd
      exact h.entry m d hd
    · rw [update_of_ne hm] at hd
      exact h.entry m d hd
  exit m d hd := by
    by_cases hm : m = n
    · subst hm
      rw [update_self] at hd
      rcases mem_traverse_exit.mp hd with hunassigned | ⟨hmem, hkeeps⟩
      · exact ⟨m, hwalked, fun k hk => .of_edge hunassigned hk⟩
      · obtain ⟨start, hstart, hat⟩ := h.entry m d hmem
        exact ⟨start, hstart, fun k hk => hat.tail hkeeps hk⟩
    · rw [update_of_ne hm] at hd
      exact h.exit m d hd
  accesses m p hp := by
    by_cases hm : m = n
    · subst hm
      rw [update_self] at hp
      rcases mem_traverse_accesses.mp hp with hmem | ⟨i, rfl, haccess⟩
      · exact h.accesses m p hmem
      · exact accessedBefore_of_isUninitializedAt hwalked (h.entry m) haccess
    · rw [update_of_ne hm] at hp
      exact h.accesses m p hp
  todo := h.todo

lemma IsSound.walked_of_propagateFrom {infos : flow.NodeInfos} {todo : Finset flow.Node}
    (h : IsSound infos todo) {n e : flow.Node} (hedge : flow.Edge n e)
    (hnew : ((infos e).propagateFrom (infos n)).2) : flow.Walked e := by
  simp only [NodeInfo.propagateFrom, Bool.or_eq_true, decide_eq_true_eq] at hnew
  rcases hnew with hnew | hnew
  · obtain ⟨d, hd, hnot⟩ := Finset.exists_mem_notMem_of_card_lt_card hnew
    obtain ⟨start, hstart, hat⟩ := h.exit n d ((Finset.mem_union.mp hd).resolve_left hnot)
    exact .unassigned hstart (hat e hedge)
  · obtain ⟨p, hp, hnot⟩ := Finset.exists_mem_notMem_of_card_lt_card hnew
    obtain ⟨start, hstart, haccess, hreach⟩ :=
      h.accesses n p ((Finset.mem_union.mp hp).resolve_left hnot)
    exact .accessed hstart haccess (.tail' hreach hedge)

lemma IsSound.propagate {n e : flow.Node} {r : flow.NodeInfos × Finset flow.Node}
    (h : IsSound r.1 r.2) (hedge : flow.Edge n e) :
    IsSound (propagate n r e).1 (propagate n r e).2 where
  entry m d hd := by
    by_cases hm : m = e
    · subst hm
      rw [propagate_self] at hd
      rcases Finset.mem_union.mp hd with hd | hd
      · exact h.entry m d hd
      · obtain ⟨start, hstart, hat⟩ := h.exit n d hd
        exact ⟨start, hstart, hat m hedge⟩
    · rw [propagate_of_ne hm] at hd
      exact h.entry m d hd
  exit m d hd := by
    by_cases hm : m = e
    · subst hm
      rw [propagate_self] at hd
      exact h.exit m d hd
    · rw [propagate_of_ne hm] at hd
      exact h.exit m d hd
  accesses m p hp := by
    by_cases hm : m = e
    · subst hm
      rw [propagate_self] at hp
      rcases Finset.mem_union.mp hp with hp | hp
      · exact h.accesses m p hp
      · obtain ⟨start, hstart, haccess, hreach⟩ := h.accesses n p hp
        exact ⟨start, hstart, haccess, hreach.tail hedge⟩
    · rw [propagate_of_ne hm] at hp
      exact h.accesses m p hp
  todo m hm := by
    rw [FunctionFlow.propagate] at hm
    dsimp only at hm
    split_ifs at hm with hnew
    · rcases Finset.mem_insert.mp hm with rfl | hm
      · exact h.walked_of_propagateFrom hedge hnew
      · exact h.todo m hm
    · exact h.todo m hm

lemma IsSound.foldl_propagate {n : flow.Node} (es : List flow.Node)
    (hes : ∀ e ∈ es, flow.Edge n e) {r : flow.NodeInfos × Finset flow.Node}
    (h : IsSound r.1 r.2) :
    IsSound (es.foldl (FunctionFlow.propagate n) r).1
      (es.foldl (FunctionFlow.propagate n) r).2 := by
  induction es generalizing r with
  | nil => exact h
  | cons e es ih =>
    rw [foldl_cons]
    exact ih (fun e he => hes e (.tail _ he)) (h.propagate (hes e (.head _)))

lemma IsSound.visit {infos : flow.NodeInfos} {todo : Finset flow.Node} (h : IsSound infos todo)
    {n : flow.Node} (hn : n ∈ todo) :
    IsSound (visit n infos (todo.erase n)).1 (visit n infos (todo.erase n)).2 := by
  have herase : IsSound infos (todo.erase n) :=
    ⟨h.entry, h.exit, h.accesses, fun m hm => h.todo m (Finset.mem_of_mem_erase hm)⟩
  exact (herase.traverse (h.todo n hn)).foldl_propagate _ (fun e he => he)

/-! ### Nothing is missed -/

/-- Something is known at the node, or it is the entry. -/
def IsReached (infos : flow.NodeInfos) (n : flow.Node) : Prop :=
  n = flow.entry ∨ (infos n).unassignedVariablesAtEntry.Nonempty ∨
    (infos n).uninitializedVariableAccesses.Nonempty

/-- The exit knows what the node has to tell. -/
structure IsPassed (infos : flow.NodeInfos) (n e : flow.Node) : Prop where
  unassigned : ((infos n).traverse n).unassignedVariablesAtExit ⊆
    (infos e).unassignedVariablesAtEntry
  accesses : (infos n).uninitializedVariableAccesses ⊆ (infos e).uninitializedVariableAccesses

/-- Another traversal of the node changes nothing. -/
structure IsClosed (infos : flow.NodeInfos) (n : flow.Node) : Prop where
  accesses : ((infos n).traverse n).uninitializedVariableAccesses ⊆
    (infos n).uninitializedVariableAccesses
  passed : ∀ e, flow.Edge n e → IsPassed infos n e

def IsComplete (infos : flow.NodeInfos) (todo : Finset flow.Node) : Prop :=
  ∀ n, IsReached infos n → n ∈ todo ∨ IsClosed infos n

lemma isComplete_init : IsComplete (fun _ => (.empty : flow.NodeInfo)) {flow.entry} := by
  rintro n (rfl | h | h)
  · exact .inl (Finset.mem_singleton_self _)
  · exact absurd h Finset.not_nonempty_empty
  · exact absurd h Finset.not_nonempty_empty

/-- While the exits of a node are gone through: the exits that are left are `es`. -/
structure IsPartlyComplete (n : flow.Node) (es : List flow.Node) (infos : flow.NodeInfos)
    (todo : Finset flow.Node) : Prop where
  others : ∀ m, m ≠ n → IsReached infos m → m ∈ todo ∨ IsClosed infos m
  current : n ∈ todo ∨
    (infos n).unassignedVariablesAtExit = ((infos n).traverse n).unassignedVariablesAtExit ∧
    ((infos n).traverse n).uninitializedVariableAccesses ⊆
      (infos n).uninitializedVariableAccesses ∧
    ∀ e, flow.Edge n e → e ∈ es ∨ IsPassed infos n e

/-- More is known at every node. -/
def Grows (infos infos' : flow.NodeInfos) : Prop :=
  ∀ n, (infos n).unassignedVariablesAtEntry ⊆ (infos' n).unassignedVariablesAtEntry ∧
    (infos n).uninitializedVariableAccesses ⊆ (infos' n).uninitializedVariableAccesses

lemma grows_traverse (infos : flow.NodeInfos) (n : flow.Node) :
    Grows infos (Function.update infos n ((infos n).traverse n)) := by
  intro m
  by_cases hm : m = n
  · subst hm
    rw [update_self]
    exact ⟨Finset.Subset.refl _, NodeInfo.accesses_subset_traverse _ _⟩
  · rw [update_of_ne hm]
    exact ⟨Finset.Subset.refl _, Finset.Subset.refl _⟩

lemma grows_propagate (n e : flow.Node) (r : flow.NodeInfos × Finset flow.Node) :
    Grows r.1 (propagate n r e).1 := by
  intro m
  by_cases hm : m = e
  · subst hm
    rw [propagate_self]
    exact ⟨Finset.subset_union_left, Finset.subset_union_left⟩
  · rw [propagate_of_ne hm]
    exact ⟨Finset.Subset.refl _, Finset.Subset.refl _⟩

lemma IsPassed.grows {infos infos' : flow.NodeInfos} {n e : flow.Node} (h : IsPassed infos n e)
    (hn : infos' n = infos n) (hgrows : Grows infos infos') : IsPassed infos' n e := by
  constructor
  · rw [hn]
    exact h.unassigned.trans (hgrows e).1
  · rw [hn]
    exact h.accesses.trans (hgrows e).2

lemma IsClosed.grows {infos infos' : flow.NodeInfos} {n : flow.Node} (h : IsClosed infos n)
    (hn : infos' n = infos n) (hgrows : Grows infos infos') : IsClosed infos' n :=
  ⟨hn ▸ h.accesses, fun e he => (h.passed e he).grows hn hgrows⟩

lemma IsReached.of_eq {infos infos' : flow.NodeInfos} {n : flow.Node} (h : IsReached infos' n)
    (hn : infos' n = infos n) : IsReached infos n := by
  rw [IsReached, hn] at h
  exact h

lemma traverse_traverse (info : flow.NodeInfo) (n : flow.Node) :
    (info.traverse n).unassignedVariablesAtExit =
        ((info.traverse n).traverse n).unassignedVariablesAtExit ∧
      ((info.traverse n).traverse n).uninitializedVariableAccesses ⊆
        (info.traverse n).uninitializedVariableAccesses := by
  constructor
  · ext d
    rw [mem_traverse_exit, mem_traverse_exit]
    exact Iff.rfl
  · intro p hp
    rcases mem_traverse_accesses.mp hp with hp | hp
    · exact hp
    · exact mem_traverse_accesses.mpr (.inr hp)

lemma IsComplete.traverse {infos : flow.NodeInfos} {todo : Finset flow.Node}
    (h : IsComplete infos todo) (n : flow.Node) :
    IsPartlyComplete n (flow.node n).exits
      (Function.update infos n ((infos n).traverse n)) (todo.erase n) where
  others m hm hreached := by
    have heq : Function.update infos n ((infos n).traverse n) m = infos m :=
      update_of_ne hm ..
    rcases h m (hreached.of_eq heq) with hmem | hclosed
    · exact .inl (Finset.mem_erase.mpr ⟨hm, hmem⟩)
    · exact .inr (hclosed.grows heq (grows_traverse infos n))
  current := by
    rw [update_self]
    obtain ⟨hexit, haccesses⟩ := traverse_traverse (infos n) n
    exact .inr ⟨hexit, haccesses, fun e he => .inl he⟩

lemma NodeInfo.propagateFrom_of_not_new {info info' : flow.NodeInfo}
    (h : ¬ (info.propagateFrom info').2) :
    (info.propagateFrom info').1 = info ∧
      info'.unassignedVariablesAtExit ⊆ info.unassignedVariablesAtEntry ∧
      info'.uninitializedVariableAccesses ⊆ info.uninitializedVariableAccesses := by
  simp only [propagateFrom, Bool.or_eq_true, decide_eq_true_eq, not_or, not_lt] at h
  have hentry := Finset.eq_of_subset_of_card_le Finset.subset_union_left h.1
  have haccesses := Finset.eq_of_subset_of_card_le Finset.subset_union_left h.2
  exact ⟨NodeInfo.ext hentry.symm rfl haccesses.symm, Finset.left_eq_union.mp hentry,
    Finset.left_eq_union.mp haccesses⟩

lemma isPassed_propagate {n e : flow.Node} {r : flow.NodeInfos × Finset flow.Node} (hn : n ≠ e)
    (hexit : (r.1 n).unassignedVariablesAtExit =
      ((r.1 n).traverse n).unassignedVariablesAtExit) :
    IsPassed (propagate n r e).1 n e := by
  constructor
  · rw [propagate_of_ne hn, propagate_self, ← hexit]
    exact Finset.subset_union_right
  · rw [propagate_of_ne hn, propagate_self]
    exact Finset.subset_union_right

lemma IsPartlyComplete.propagate {n e : flow.Node} {es : List flow.Node}
    {r : flow.NodeInfos × Finset flow.Node} (h : IsPartlyComplete n (e :: es) r.1 r.2) :
    IsPartlyComplete n es (propagate n r e).1 (propagate n r e).2 := by
  by_cases hnew : ((r.1 e).propagateFrom (r.1 n)).2 = true
  · have htodo : (FunctionFlow.propagate n r e).2 = insert e r.2 := if_pos hnew
    rw [htodo]
    constructor
    · intro m hm hreached
      by_cases hme : m = e
      · exact .inl (hme ▸ Finset.mem_insert_self _ _)
      · have heq := propagate_of_ne hme n r
        rcases h.others m hm (hreached.of_eq heq) with hmem | hclosed
        · exact .inl (Finset.mem_insert_of_mem hmem)
        · exact .inr (hclosed.grows heq (grows_propagate n e r))
    · by_cases hne : n = e
      · exact .inl (hne ▸ Finset.mem_insert_self _ _)
      · have heq := propagate_of_ne hne n r
        rcases h.current with hmem | ⟨hexit, haccesses, hpassed⟩
        · exact .inl (Finset.mem_insert_of_mem hmem)
        · rw [heq]
          refine .inr ⟨hexit, haccesses, fun k hk => ?_⟩
          rcases hpassed k hk with hmem | hpassed
          · rcases mem_cons.mp hmem with rfl | hmem
            · exact .inr (isPassed_propagate hne hexit)
            · exact .inl hmem
          · exact .inr (hpassed.grows heq (grows_propagate n e r))
  · obtain ⟨hsame, hentry, haccesses'⟩ := NodeInfo.propagateFrom_of_not_new hnew
    have hinfos : (FunctionFlow.propagate n r e).1 = r.1 := by
      rw [FunctionFlow.propagate, hsame]
      exact update_eq_self e r.1
    have htodo : (FunctionFlow.propagate n r e).2 = r.2 := if_neg hnew
    rw [hinfos, htodo]
    refine ⟨h.others, ?_⟩
    rcases h.current with hmem | ⟨hexit, haccesses, hpassed⟩
    · exact .inl hmem
    · refine .inr ⟨hexit, haccesses, fun k hk => ?_⟩
      rcases hpassed k hk with hmem | hpassed
      · rcases mem_cons.mp hmem with rfl | hmem
        · exact .inr ⟨hexit ▸ hentry, haccesses'⟩
        · exact .inl hmem
      · exact .inr hpassed

lemma IsPartlyComplete.foldl_propagate {n : flow.Node} (es : List flow.Node)
    {r : flow.NodeInfos × Finset flow.Node} (h : IsPartlyComplete n es r.1 r.2) :
    IsPartlyComplete n [] (es.foldl (FunctionFlow.propagate n) r).1
      (es.foldl (FunctionFlow.propagate n) r).2 := by
  induction es generalizing r with
  | nil => exact h
  | cons e es ih =>
    rw [foldl_cons]
    exact ih h.propagate

lemma IsPartlyComplete.isComplete {n : flow.Node} {infos : flow.NodeInfos}
    {todo : Finset flow.Node} (h : IsPartlyComplete n [] infos todo) : IsComplete infos todo := by
  intro m hreached
  by_cases hm : m = n
  · subst hm
    rcases h.current with hmem | ⟨-, haccesses, hpassed⟩
    · exact .inl hmem
    · exact .inr ⟨haccesses, fun e he => (hpassed e he).resolve_left not_mem_nil⟩
  · exact h.others m hm hreached

lemma IsComplete.visit {infos : flow.NodeInfos} {todo : Finset flow.Node}
    (h : IsComplete infos todo) (n : flow.Node) :
    IsComplete (visit n infos (todo.erase n)).1 (visit n infos (todo.erase n)).2 :=
  ((h.traverse n).foldl_propagate _).isComplete

lemma isSound_nodeInfos : IsSound flow.nodeInfos ∅ :=
  flow.nodesToTraverse.run_induction (P := IsSound) (fun _ _ _ hn h => h.visit hn) _ _ isSound_init

lemma isClosed_nodeInfos {n : flow.Node} (h : IsReached flow.nodeInfos n) :
    IsClosed flow.nodeInfos n := by
  have hcomplete : IsComplete flow.nodeInfos ∅ :=
    flow.nodesToTraverse.run_induction (P := IsComplete) (fun n _ _ _ h => h.visit n) _ _
      isComplete_init
  exact (hcomplete n h).resolve_left (Finset.notMem_empty n)

lemma mem_entry_of_unassignedAtEntry {start n : flow.Node}
    (hstart : IsReached flow.nodeInfos start) (h : flow.UnassignedAtEntry start d n) :
    d ∈ (flow.nodeInfos n).unassignedVariablesAtEntry := by
  obtain ⟨hdeclared, m, hedge, hspreads⟩ := h
  induction hspreads with
  | refl =>
    exact ((isClosed_nodeInfos hstart).passed m hedge).unassigned
      (mem_traverse_exit.mpr (.inl hdeclared))
  | tail _ hspread ih =>
    have hclosed := isClosed_nodeInfos (.inr (.inl ⟨d, ih⟩))
    exact (hclosed.passed _ hspread.2).unassigned (mem_traverse_exit.mpr (.inr ⟨ih, hspread.1⟩))

lemma mem_accesses_of_uninitializedFrom {start : flow.Node} {p : flow.Pointer}
    (hstart : IsReached flow.nodeInfos start) (h : flow.UninitializedFrom start p) :
    p ∈ (flow.nodeInfos p.1).uninitializedVariableAccesses := by
  obtain ⟨o, hget, huse, hstorage, ⟨rfl, hunassigned⟩ | ⟨hat, hkeeps⟩⟩ := h
  · exact (isClosed_nodeInfos hstart).accesses (mem_traverse_accesses.mpr
      (.inr ⟨p.2, rfl, o, hget, huse, hstorage, .inl hunassigned⟩))
  · have hmem := mem_entry_of_unassignedAtEntry hstart hat
    exact (isClosed_nodeInfos (.inr (.inl ⟨_, hmem⟩))).accesses (mem_traverse_accesses.mpr
      (.inr ⟨p.2, rfl, o, hget, huse, hstorage, .inr ⟨hmem, hkeeps⟩⟩))

lemma mem_accesses_of_reach {m n : flow.Node} {p : flow.Pointer}
    (hp : p ∈ (flow.nodeInfos m).uninitializedVariableAccesses)
    (h : Relation.ReflTransGen flow.Edge m n) :
    p ∈ (flow.nodeInfos n).uninitializedVariableAccesses := by
  induction h with
  | refl => exact hp
  | tail _ hedge ih =>
    exact ((isClosed_nodeInfos (.inr (.inr ⟨p, ih⟩))).passed _ hedge).accesses ih

lemma Walked.isReached {n : flow.Node} (h : flow.Walked n) : IsReached flow.nodeInfos n := by
  induction h with
  | entry => exact .inl rfl
  | unassigned _ hat ih => exact .inr (.inl ⟨_, mem_entry_of_unassignedAtEntry ih hat⟩)
  | accessed _ haccess hreach ih =>
    have hmem := mem_accesses_of_uninitializedFrom ih haccess
    exact .inr (.inr ⟨_, mem_accesses_of_reach hmem hreach.to_reflTransGen⟩)

/-- Exactly the accesses are reported that begin at a walked node and reach the exit. -/
theorem mem_uninitializedAccessesOrdered {p : flow.Pointer} :
    p ∈ flow.uninitializedAccessesOrdered ↔ flow.AccessedBefore p flow.exit := by
  rw [uninitializedAccessesOrdered, mem_mergeSort, Finset.mem_sort]
  constructor
  · exact isSound_nodeInfos.accesses flow.exit p
  · rintro ⟨start, hstart, haccess, hreach⟩
    exact mem_accesses_of_reach (mem_accesses_of_uninitializedFrom hstart.isReached haccess) hreach

end

/-! ### Paths -/

variable (flow) in
/-- There is a path from the entry to the exit on which a storage variable is declared, and used at
this place without being assigned in between. -/
def IsUninitialized (p : flow.Pointer) : Prop :=
  ∃ o, flow.occurrence? p = some o ∧ o.IsUse ∧ o.declaration.inStorage = true ∧
    ∃ before after, Semantics.IsPath flow.Edge flow.entry flow.exit (before ++ p.1 :: after) ∧
      UnassignedAfter o.declaration
        (before.flatMap flow.occurrences ++ (flow.occurrences p.1).take p.2)

lemma spreads_iff {m n : flow.Node} : Relation.ReflTransGen (flow.Spreads d) m n ↔
    ∃ before, Semantics.IsPath flow.Edge m n (before ++ [n]) ∧
      Keeps d (before.flatMap flow.occurrences) := by
  constructor
  · intro h
    induction h using Relation.ReflTransGen.head_induction_on with
    | refl => exact ⟨[], Semantics.isPath_singleton, keeps_nil⟩
    | @head a c hspread _ ih =>
      obtain ⟨before, hpath, hkeeps⟩ := ih
      have hcons := (Semantics.isPath_cons (append_ne_nil_of_right_ne_nil _
        (cons_ne_nil _ _))).mpr ⟨rfl, c, hspread.2, hpath⟩
      exact ⟨a :: before, hcons, keeps_append.mpr ⟨hspread.1, hkeeps⟩⟩
  · rintro ⟨before, hpath, hkeeps⟩
    induction before generalizing m with
    | nil =>
      obtain rfl := Option.some_inj.mp hpath.head
      exact .refl
    | cons c before ih =>
      obtain ⟨rfl, k, hedge, htail⟩ := (Semantics.isPath_cons
        (append_ne_nil_of_right_ne_nil _ (cons_ne_nil _ _))).mp hpath
      obtain ⟨hc, hkeeps⟩ := keeps_append.mp hkeeps
      exact .head ⟨hc, hedge⟩ (ih htail hkeeps)

lemma exists_start {m n : flow.Node} (before : List flow.Node)
    (hpath : Semantics.IsPath flow.Edge m n (before ++ [n]))
    (h : UnassignedAfter d (before.flatMap flow.occurrences ++ os)) :
    ∃ start, Relation.ReflTransGen flow.Edge m start ∧
      (start = n ∧ UnassignedAfter d os ∨ flow.UnassignedAtEntry start d n ∧ Keeps d os) := by
  induction before generalizing m with
  | nil =>
    obtain rfl := Option.some_inj.mp hpath.head
    exact ⟨n, .refl, .inl ⟨rfl, h⟩⟩
  | cons c before ih =>
    obtain ⟨rfl, k, hedge, htail⟩ := (Semantics.isPath_cons
      (append_ne_nil_of_right_ne_nil _ (cons_ne_nil _ _))).mp hpath
    rw [flatMap_cons, append_assoc] at h
    rcases unassignedAfter_append.mp h with h | ⟨hdeclared, hkeeps⟩
    · obtain ⟨start, hreach, hstart⟩ := ih htail h
      exact ⟨start, .head hedge hreach, hstart⟩
    · obtain ⟨hbefore, hos⟩ := keeps_append.mp hkeeps
      exact ⟨m, .refl, .inr ⟨⟨hdeclared, k, hedge, spreads_iff.mpr ⟨before, htail, hbefore⟩⟩, hos⟩⟩

lemma exists_path {m n start : flow.Node} (hreach : Relation.ReflTransGen flow.Edge m start)
    (h : start = n ∧ UnassignedAfter d os ∨ flow.UnassignedAtEntry start d n ∧ Keeps d os) :
    ∃ before, Semantics.IsPath flow.Edge m n (before ++ [n]) ∧
      UnassignedAfter d (before.flatMap flow.occurrences ++ os) := by
  obtain ⟨path, hpath⟩ := Semantics.reflTransGen_iff_exists_isPath.mp hreach
  obtain ⟨before, rfl⟩ := hpath.exists_eq_append
  rcases h with ⟨rfl, hos⟩ | ⟨⟨hdeclared, k, hedge, hspreads⟩, hos⟩
  · exact ⟨before, hpath, unassignedAfter_append.mpr (.inl hos)⟩
  · obtain ⟨after, htail, hkeeps⟩ := spreads_iff.mp hspreads
    have hcons := (Semantics.isPath_cons (append_ne_nil_of_right_ne_nil _
      (cons_ne_nil _ _))).mpr ⟨rfl, k, hedge, htail⟩
    refine ⟨before ++ start :: after, ?_, ?_⟩
    · rw [append_assoc]
      exact Semantics.isPath_append.mpr ⟨hpath, hcons⟩
    · rw [flatMap_append, flatMap_cons, append_assoc, append_assoc]
      refine unassignedAfter_append.mpr (.inl (unassignedAfter_append.mpr (.inr ⟨hdeclared, ?_⟩)))
      exact keeps_append.mpr ⟨hkeeps, hos⟩

/-- On a path the declaration may be at any node that can be reached. -/
theorem isUninitialized_iff {p : flow.Pointer} : flow.IsUninitialized p ↔
    ∃ start, Relation.ReflTransGen flow.Edge flow.entry start ∧ flow.UninitializedFrom start p ∧
      Relation.ReflTransGen flow.Edge p.1 flow.exit := by
  constructor
  · rintro ⟨o, hget, huse, hstorage, before, after, hpath, hunassigned⟩
    obtain ⟨hbefore, hafter⟩ := Semantics.isPath_append.mp hpath
    obtain ⟨start, hreach, hstart⟩ := exists_start before hbefore hunassigned
    exact ⟨start, hreach, ⟨o, hget, huse, hstorage, hstart⟩,
      Semantics.reflTransGen_iff_exists_isPath.mpr ⟨_, hafter⟩⟩
  · rintro ⟨start, hreach, ⟨o, hget, huse, hstorage, hstart⟩, hexit⟩
    obtain ⟨before, hbefore, hunassigned⟩ := exists_path hreach hstart
    obtain ⟨path, hafter⟩ := Semantics.reflTransGen_iff_exists_isPath.mp hexit
    obtain ⟨after, rfl⟩ := hafter.exists_eq_cons
    exact ⟨o, hget, huse, hstorage, before, after,
      Semantics.isPath_append.mpr ⟨hbefore, hafter⟩, hunassigned⟩

lemma Walked.reach {n : flow.Node} (h : flow.Walked n) :
    Relation.ReflTransGen flow.Edge flow.entry n := by
  have hspreads {d : VariableDeclaration Location} {a b : flow.Node}
      (h : Relation.ReflTransGen (flow.Spreads d) a b) : Relation.ReflTransGen flow.Edge a b :=
    Relation.ReflTransGen.mono (fun _ _ hspread => hspread.2) _ _ h
  induction h with
  | entry => exact .refl
  | unassigned _ hat ih =>
    obtain ⟨-, m, hedge, h⟩ := hat
    exact ih.trans (.head hedge (hspreads h))
  | accessed _ haccess hreach ih =>
    obtain ⟨o, -, -, -, ⟨rfl, -⟩ | ⟨⟨-, m, hedge, h⟩, -⟩⟩ := haccess
    · exact ih.trans hreach.to_reflTransGen
    · exact (ih.trans (.head hedge (hspreads h))).trans hreach.to_reflTransGen

lemma not_unassignedAfter_take (hentry : ∀ o ∈ flow.occurrences flow.entry, o.kind ≠ .declaration)
    (i : ℕ) : ¬ UnassignedAfter d ((flow.occurrences flow.entry).take i) := by
  rintro ⟨before, o, after, h, hdeclares, -⟩
  have hmem : o ∈ (flow.occurrences flow.entry).take i :=
    h ▸ mem_append_right before (.head _)
  exact hentry o (mem_of_mem_take hmem) hdeclares.1

lemma not_unassignedAtEntry_entry {n : flow.Node}
    (hentry : ∀ o ∈ flow.occurrences flow.entry, o.kind ≠ .declaration) :
    ¬ flow.UnassignedAtEntry flow.entry d n := by
  rintro ⟨hdeclared, -⟩
  rw [← take_length (l := flow.occurrences flow.entry)] at hdeclared
  exact not_unassignedAfter_take hentry _ hdeclared

lemma not_uninitializedFrom_entry {p : flow.Pointer}
    (hentry : ∀ o ∈ flow.occurrences flow.entry, o.kind ≠ .declaration) :
    ¬ flow.UninitializedFrom flow.entry p := by
  rintro ⟨o, -, -, -, ⟨heq, hunassigned⟩ | ⟨hat, -⟩⟩
  · rw [← heq] at hunassigned
    exact not_unassignedAfter_take hentry _ hunassigned
  · exact not_unassignedAtEntry_entry hentry hat

lemma Walked.eq_entry {n : flow.Node} (h : flow.Walked n)
    (hentry : ∀ o ∈ flow.occurrences flow.entry, o.kind ≠ .declaration) : n = flow.entry := by
  induction h with
  | entry => rfl
  | unassigned _ hat ih =>
    subst ih
    exact absurd hat (not_unassignedAtEntry_entry hentry)
  | accessed _ haccess _ ih =>
    subst ih
    exact absurd haccess (not_uninitializedFrom_entry hentry)

end FunctionFlow

variable [DecidableEq Location]

lemma mem_checkUninitializedAccess {flow : FunctionFlow Location} {e : TypeError Location} :
    e ∈ checkUninitializedAccess flow ↔ ∃ p ∈ flow.uninitializedAccessesOrdered,
      ∃ o, flow.occurrence? p = some o ∧ o.typeError = e := by
  simp only [checkUninitializedAccess, mem_filterMap, Option.map_eq_some_iff]

/-- Every reported occurrence is on a path as it should be. -/
theorem isUninitialized_of_reported {flow : FunctionFlow Location} {p : flow.Pointer}
    (h : p ∈ flow.uninitializedAccessesOrdered) : flow.IsUninitialized p := by
  obtain ⟨start, hstart, haccess, hexit⟩ := FunctionFlow.mem_uninitializedAccessesOrdered.mp h
  exact FunctionFlow.isUninitialized_iff.mpr ⟨start, hstart.reach, haccess, hexit⟩

/-- The occurrences with a path are the reported ones if and only if each of them has a declaration
at a walked node. -/
theorem uninitializedAccessesOrdered_exact_iff (flow : FunctionFlow Location) :
    (∀ p, p ∈ flow.uninitializedAccessesOrdered ↔ flow.IsUninitialized p) ↔
      ∀ p, flow.IsUninitialized p →
        ∃ start, flow.Walked start ∧ flow.UninitializedFrom start p := by
  constructor
  · intro h p hp
    obtain ⟨start, hstart, haccess, -⟩ :=
      FunctionFlow.mem_uninitializedAccessesOrdered.mp ((h p).mpr hp)
    exact ⟨start, hstart, haccess⟩
  · intro h p
    refine ⟨isUninitialized_of_reported, fun hp => ?_⟩
    obtain ⟨start, hstart, haccess⟩ := h p hp
    obtain ⟨-, -, -, hexit⟩ := FunctionFlow.isUninitialized_iff.mp hp
    exact FunctionFlow.mem_uninitializedAccessesOrdered.mpr ⟨start, hstart, haccess, hexit⟩

lemma uninitializedAccessesOrdered_eq_nil {flow : FunctionFlow Location}
    (hentry : ∀ o ∈ flow.occurrences flow.entry, o.kind ≠ .declaration) :
    flow.uninitializedAccessesOrdered = [] := by
  refine eq_nil_iff_forall_not_mem.mpr fun p hp => ?_
  obtain ⟨start, hstart, haccess, -⟩ := FunctionFlow.mem_uninitializedAccessesOrdered.mp hp
  obtain rfl := hstart.eq_entry hentry
  exact FunctionFlow.not_uninitializedFrom_entry hentry haccess

/-- The graph of `function f() internal { if (true) {} uint[] storage x; x.pop(); }`: the entry, the
exit, the revert node, the body of the statement, and what comes behind it. -/
def behindBranch : FunctionFlow Unit where
  size := 5
  node
    | 0 => ⟨[3, 4], []⟩
    | 3 => ⟨[4], []⟩
    | 4 => ⟨[1], [⟨⟨7, (), true⟩, .declaration, none⟩, ⟨⟨7, (), true⟩, .access, some ⟨8, ()⟩⟩]⟩
    | _ => ⟨[], []⟩
  entry := 0
  exit := 1

/-- The access in it is not reported. -/
theorem uninitializedAccessesOrdered_behindBranch :
    ¬ ∀ (flow : FunctionFlow Unit) (p : flow.Pointer),
      p ∈ flow.uninitializedAccessesOrdered ↔ flow.IsUninitialized p := by
  intro h
  have huninitialized : behindBranch.IsUninitialized (toLex ((4 : Fin 5), 1)) := by
    refine ⟨_, rfl, .inl rfl, rfl, [(0 : Fin 5)], [(1 : Fin 5)], ⟨?_, rfl, rfl⟩,
      [], ⟨⟨7, (), true⟩, .declaration, none⟩, [], rfl, ⟨rfl, rfl⟩, keeps_nil⟩
    exact isChain_cons_cons.mpr ⟨.tail _ (.head _), isChain_cons_cons.mpr
      ⟨.head _, .singleton _⟩⟩
  have hreported := (h behindBranch _).mpr huninitialized
  rw [uninitializedAccessesOrdered_eq_nil (forall_mem_nil _)] at hreported
  exact absurd hreported not_mem_nil

end Polynomial.ControlFlow
