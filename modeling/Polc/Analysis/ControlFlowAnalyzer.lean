import Polc.Semantics.Paths
import Mathlib.Algebra.Order.BigOperators.Group.Finset
import Mathlib.Data.Finset.Sort
import Mathlib.Data.Prod.Lex

/-!
# Uninitialised storage pointers

`ControlFlowAnalyzer::checkUninitializedAccess` of `libpolynomial/analysis/ControlFlowAnalyzer.cpp`,
on the graphs of `ControlFlowGraph.h`. Source locations are only passed on.
-/

namespace Polynomial.ControlFlow

open List Function

variable {Location : Type*}

/-- `VariableOccurrence::Kind` -/
inductive Kind where
  | declaration
  | access
  | returned
  | assignment
  | inlineAssembly
  deriving DecidableEq, Repr

/-- What is read of a declaration. `inStorage` says whether its type is stored in storage. -/
structure VariableDeclaration (Location : Type*) where
  id : ℕ
  location : Location
  inStorage : Bool
  deriving DecidableEq

structure ASTNode (Location : Type*) where
  id : ℕ
  location : Location
  deriving DecidableEq

structure VariableOccurrence (Location : Type*) where
  declaration : VariableDeclaration Location
  kind : Kind
  occurrence : Option (ASTNode Location)
  deriving DecidableEq

/-- A deterministic order: `VariableOccurrence::operator<`. -/
def VariableOccurrence.less (lhs rhs : VariableOccurrence Location) : Bool :=
  let rest := lhs.declaration.id < rhs.declaration.id ∨
    lhs.declaration.id = rhs.declaration.id ∧ lhs.kind.ctorIdx < rhs.kind.ctorIdx
  match lhs.occurrence, rhs.occurrence with
  | some l, some r => if l.id < r.id then true else if r.id < l.id then false else rest
  | none, some _ => true
  | some _, none => false
  | none, none => rest

/-- The nodes are numbered in the order of their addresses. -/
structure CFGNode (Location : Type*) (size : ℕ) where
  exits : List (Fin size)
  variableOccurrences : List (VariableOccurrence Location)

structure FunctionFlow (Location : Type*) where
  size : ℕ
  node : Fin size → CFGNode Location size
  entry : Fin size
  exit : Fin size

namespace FunctionFlow

variable (flow : FunctionFlow Location)

abbrev Node : Type := Fin flow.size

/-- The address of an occurrence: a node, and the place among its occurrences. -/
abbrev Pointer : Type := Lex (Fin flow.size × ℕ)

def occurrences (n : flow.Node) : List (VariableOccurrence Location) :=
  (flow.node n).variableOccurrences

def occurrence? (p : flow.Pointer) : Option (VariableOccurrence Location) :=
  (flow.occurrences p.1)[p.2]?

/-- The addresses of all occurrences. -/
def pointers : Finset flow.Pointer :=
  Finset.univ.biUnion fun n =>
    (Finset.range (flow.occurrences n).length).image fun i => toLex (n, i)

variable {flow} in
lemma mem_pointers {n : flow.Node} {i : ℕ} :
    toLex (n, i) ∈ flow.pointers ↔ i < (flow.occurrences n).length := by
  simp only [pointers, Finset.mem_biUnion, Finset.mem_univ, true_and, Finset.mem_image,
    Finset.mem_range, toLex_inj, Prod.mk.injEq]
  constructor
  · rintro ⟨m, j, hj, rfl, rfl⟩
    exact hj
  · intro h
    exact ⟨n, i, h, rfl, rfl⟩

variable [DecidableEq Location]

/-- The declarations of all occurrences. -/
def declarations : Finset (VariableDeclaration Location) :=
  Finset.univ.biUnion fun n => ((flow.occurrences n).map (·.declaration)).toFinset

variable {flow} in
lemma mem_declarations {n : flow.Node} {o : VariableOccurrence Location}
    (h : o ∈ flow.occurrences n) : o.declaration ∈ flow.declarations := by
  simp only [declarations, Finset.mem_biUnion, Finset.mem_univ, true_and, mem_toFinset]
  exact ⟨n, mem_map_of_mem h⟩

/-- What is known at a node. -/
@[ext] structure NodeInfo where
  unassignedVariablesAtEntry : Finset (VariableDeclaration Location)
  unassignedVariablesAtExit : Finset (VariableDeclaration Location)
  uninitializedVariableAccesses : Finset flow.Pointer
  entry_subset : unassignedVariablesAtEntry ⊆ flow.declarations
  exit_subset : unassignedVariablesAtExit ⊆ flow.declarations
  accesses_subset : uninitializedVariableAccesses ⊆ flow.pointers

namespace NodeInfo

variable {flow}

def empty : flow.NodeInfo where
  unassignedVariablesAtEntry := ∅
  unassignedVariablesAtExit := ∅
  uninitializedVariableAccesses := ∅
  entry_subset := Finset.empty_subset _
  exit_subset := Finset.empty_subset _
  accesses_subset := Finset.empty_subset _

/-- The information of a node that comes before, and whether there is anything new. -/
def propagateFrom (info entryNode : flow.NodeInfo) : flow.NodeInfo × Bool :=
  let entry := info.unassignedVariablesAtEntry ∪ entryNode.unassignedVariablesAtExit
  let accesses := info.uninitializedVariableAccesses ∪ entryNode.uninitializedVariableAccesses
  ({ info with
      unassignedVariablesAtEntry := entry
      uninitializedVariableAccesses := accesses
      entry_subset := Finset.union_subset info.entry_subset entryNode.exit_subset
      accesses_subset := Finset.union_subset info.accesses_subset entryNode.accesses_subset },
    info.unassignedVariablesAtEntry.card < entry.card ||
      info.uninitializedVariableAccesses.card < accesses.card)

end NodeInfo

/-! ### The occurrences of a node -/

variable {flow}

/-- An access of a variable counts if the variable is unassigned and in storage. -/
def recordAccess (p : flow.Pointer) (declaration : VariableDeclaration Location)
    (r : Finset (VariableDeclaration Location) × Finset flow.Pointer) :
    Finset (VariableDeclaration Location) × Finset flow.Pointer :=
  if declaration ∈ r.1 then
    if declaration.inStorage = true then (r.1, insert p r.2) else r
  else r

lemma recordAccess_fst (p : flow.Pointer) (d : VariableDeclaration Location)
    (r : Finset (VariableDeclaration Location) × Finset flow.Pointer) :
    (recordAccess p d r).1 = r.1 := by
  rw [recordAccess]
  split_ifs <;> rfl

lemma mem_recordAccess_snd {p q : flow.Pointer} {d : VariableDeclaration Location}
    {r : Finset (VariableDeclaration Location) × Finset flow.Pointer} :
    q ∈ (recordAccess p d r).2 ↔ q ∈ r.2 ∨ q = p ∧ d ∈ r.1 ∧ d.inStorage := by
  rw [recordAccess]
  split_ifs with hmem hstorage
  · simp [hmem, hstorage, or_comm]
  · simp [hstorage]
  · simp [hmem]

/-- The unassigned variables and the accesses behind one more occurrence. -/
def traverse (n : flow.Node)
    (r : Finset (VariableDeclaration Location) × Finset flow.Pointer)
    (o : VariableOccurrence Location × ℕ) :
    Finset (VariableDeclaration Location) × Finset flow.Pointer :=
  match o.1.kind with
  | .assignment => (r.1.erase o.1.declaration, r.2)
  | .inlineAssembly | .access | .returned => recordAccess (toLex (n, o.2)) o.1.declaration r
  | .declaration => (insert o.1.declaration r.1, r.2)

lemma foldl_traverse_subset (n : flow.Node) (os : List (VariableOccurrence Location × ℕ))
    (hos : ∀ o ∈ os, o.1.declaration ∈ flow.declarations ∧ toLex (n, o.2) ∈ flow.pointers)
    (r : Finset (VariableDeclaration Location) × Finset flow.Pointer)
    (hr : r.1 ⊆ flow.declarations ∧ r.2 ⊆ flow.pointers) :
    (os.foldl (traverse n) r).1 ⊆ flow.declarations ∧
      (os.foldl (traverse n) r).2 ⊆ flow.pointers := by
  induction os generalizing r with
  | nil => exact hr
  | cons o os ih =>
    rw [foldl_cons]
    obtain ⟨hdeclaration, hpointer⟩ := hos o (.head _)
    refine ih (fun o ho => hos o (.tail _ ho)) _ ?_
    have haccess : (recordAccess (toLex (n, o.2)) o.1.declaration r).1 ⊆ flow.declarations ∧
        (recordAccess (toLex (n, o.2)) o.1.declaration r).2 ⊆ flow.pointers := by
      rw [recordAccess_fst]
      refine ⟨hr.1, fun q hq => ?_⟩
      rcases mem_recordAccess_snd.mp hq with hq | ⟨rfl, -⟩
      · exact hr.2 hq
      · exact hpointer
    rw [traverse]
    cases o.1.kind with
    | assignment => exact ⟨(Finset.erase_subset _ _).trans hr.1, hr.2⟩
    | declaration => exact ⟨Finset.insert_subset hdeclaration hr.1, hr.2⟩
    | _ => exact haccess

lemma zipIdx_mem (n : flow.Node) :
    ∀ o ∈ (flow.occurrences n).zipIdx,
      o.1.declaration ∈ flow.declarations ∧ toLex (n, o.2) ∈ flow.pointers := by
  rintro ⟨o, i⟩ h
  have hget := mem_zipIdx_iff_getElem?.mp h
  obtain ⟨hlt, -⟩ := List.getElem?_eq_some_iff.mp hget
  exact ⟨mem_declarations (mem_of_getElem? hget), mem_pointers.mpr hlt⟩

/-- The information at a node after its occurrences have been gone through. -/
def NodeInfo.traverse (info : flow.NodeInfo) (n : flow.Node) : flow.NodeInfo :=
  let r := (flow.occurrences n).zipIdx.foldl (FunctionFlow.traverse n)
    (info.unassignedVariablesAtEntry, info.uninitializedVariableAccesses)
  have h := foldl_traverse_subset n _ (zipIdx_mem n) _ ⟨info.entry_subset, info.accesses_subset⟩
  { info with
    unassignedVariablesAtExit := r.1
    uninitializedVariableAccesses := r.2
    exit_subset := h.1
    accesses_subset := h.2 }

/-! ### The loop -/

variable (flow) in
abbrev NodeInfos : Type _ := flow.Node → flow.NodeInfo

/-- Propagate what is known at a node to one of its exits. -/
def propagate (currentNode : flow.Node) (r : flow.NodeInfos × Finset flow.Node)
    (exit : flow.Node) : flow.NodeInfos × Finset flow.Node :=
  let propagated := (r.1 exit).propagateFrom (r.1 currentNode)
  (Function.update r.1 exit propagated.1, if propagated.2 then insert exit r.2 else r.2)

lemma propagate_self (n e : flow.Node) (r : flow.NodeInfos × Finset flow.Node) :
    (propagate n r e).1 e = ((r.1 e).propagateFrom (r.1 n)).1 := update_self ..

lemma propagate_of_ne {m e : flow.Node} (h : m ≠ e) (n : flow.Node)
    (r : flow.NodeInfos × Finset flow.Node) : (propagate n r e).1 m = r.1 m :=
  update_of_ne h ..

def visit (currentNode : flow.Node) (nodeInfos : flow.NodeInfos)
    (nodesToTraverse : Finset flow.Node) : flow.NodeInfos × Finset flow.Node :=
  (flow.node currentNode).exits.foldl (propagate currentNode)
    (Function.update nodeInfos currentNode ((nodeInfos currentNode).traverse currentNode),
      nodesToTraverse)

/-- What a node does not know yet. -/
def NodeInfo.missing (info : flow.NodeInfo) : ℕ :=
  (flow.declarations \ info.unassignedVariablesAtEntry).card +
    (flow.pointers \ info.uninitializedVariableAccesses).card

def missing (nodeInfos : flow.NodeInfos) : ℕ := ∑ n, (nodeInfos n).missing

lemma NodeInfo.missing_le {info info' : flow.NodeInfo}
    (hentry : info.unassignedVariablesAtEntry ⊆ info'.unassignedVariablesAtEntry)
    (haccesses : info.uninitializedVariableAccesses ⊆ info'.uninitializedVariableAccesses) :
    info'.missing ≤ info.missing := by
  exact Nat.add_le_add
    (Finset.card_le_card (Finset.sdiff_subset_sdiff_right flow.declarations hentry))
    (Finset.card_le_card (Finset.sdiff_subset_sdiff_right flow.pointers haccesses))

lemma card_sdiff_union_lt {α : Type*} [DecidableEq α] {u s t : Finset α} (ht : t ⊆ u)
    (h : s.card < (s ∪ t).card) : (u \ (s ∪ t)).card < (u \ s).card := by
  obtain ⟨a, ha, hnot⟩ := Finset.exists_mem_notMem_of_card_lt_card h
  refine Finset.card_lt_card ⟨Finset.sdiff_subset_sdiff_right u Finset.subset_union_left, ?_⟩
  intro hsubset
  have hat : a ∈ t := (Finset.mem_union.mp ha).resolve_left hnot
  have := hsubset (Finset.mem_sdiff.mpr ⟨ht hat, hnot⟩)
  exact (Finset.mem_sdiff.mp this).2 ha

lemma NodeInfo.missing_propagateFrom_le (info info' : flow.NodeInfo) :
    (info.propagateFrom info').1.missing ≤ info.missing :=
  missing_le Finset.subset_union_left Finset.subset_union_left

lemma NodeInfo.missing_propagateFrom_lt {info info' : flow.NodeInfo}
    (h : (info.propagateFrom info').2) :
    (info.propagateFrom info').1.missing < info.missing := by
  simp only [propagateFrom, Bool.or_eq_true, decide_eq_true_eq] at h
  rcases h with h | h
  · exact Nat.add_lt_add_of_lt_of_le (card_sdiff_union_lt info'.exit_subset h)
      (Finset.card_le_card
        (Finset.sdiff_subset_sdiff_right flow.pointers Finset.subset_union_left))
  · exact Nat.add_lt_add_of_le_of_lt
      (Finset.card_le_card
        (Finset.sdiff_subset_sdiff_right flow.declarations Finset.subset_union_left))
      (card_sdiff_union_lt info'.accesses_subset h)

lemma missing_update_le {nodeInfos : flow.NodeInfos} {n : flow.Node} {info : flow.NodeInfo}
    (h : info.missing ≤ (nodeInfos n).missing) :
    missing (Function.update nodeInfos n info) ≤ missing nodeInfos := by
  refine Finset.sum_le_sum fun m _ => ?_
  by_cases hm : m = n
  · subst hm
    rw [update_self]
    exact h
  · rw [update_of_ne hm]

lemma missing_update_lt {nodeInfos : flow.NodeInfos} {n : flow.Node} {info : flow.NodeInfo}
    (h : info.missing < (nodeInfos n).missing) :
    missing (Function.update nodeInfos n info) < missing nodeInfos := by
  refine Finset.sum_lt_sum (fun m _ => ?_) ⟨n, Finset.mem_univ n, ?_⟩
  · by_cases hm : m = n
    · subst hm
      rw [update_self]
      exact h.le
    · rw [update_of_ne hm]
  · rw [update_self]
    exact h

lemma propagate_progress (currentNode exit : flow.Node)
    (r : flow.NodeInfos × Finset flow.Node) :
    missing (propagate currentNode r exit).1 < missing r.1 ∨
      missing (propagate currentNode r exit).1 ≤ missing r.1 ∧
        (propagate currentNode r exit).2 = r.2 := by
  by_cases h : ((r.1 exit).propagateFrom (r.1 currentNode)).2 = true
  · exact .inl (missing_update_lt (NodeInfo.missing_propagateFrom_lt h))
  · exact .inr ⟨missing_update_le (NodeInfo.missing_propagateFrom_le _ _), if_neg h⟩

lemma foldl_propagate_progress (currentNode : flow.Node) (exits : List flow.Node)
    (r : flow.NodeInfos × Finset flow.Node) :
    missing (exits.foldl (propagate currentNode) r).1 < missing r.1 ∨
      missing (exits.foldl (propagate currentNode) r).1 ≤ missing r.1 ∧
        (exits.foldl (propagate currentNode) r).2 = r.2 := by
  induction exits generalizing r with
  | nil => exact .inr ⟨le_rfl, rfl⟩
  | cons exit exits ih =>
    rw [foldl_cons]
    rcases ih (propagate currentNode r exit) with hlt | ⟨hle, htodo⟩
    · rcases propagate_progress currentNode exit r with hlt' | ⟨hle', -⟩
      · exact .inl (hlt.trans hlt')
      · exact .inl (hlt.trans_le hle')
    · rcases propagate_progress currentNode exit r with hlt' | ⟨hle', htodo'⟩
      · exact .inl (hle.trans_lt hlt')
      · exact .inr ⟨hle.trans hle', htodo.trans htodo'⟩

lemma accesses_subset_foldl_traverse (n : flow.Node)
    (os : List (VariableOccurrence Location × ℕ))
    (r : Finset (VariableDeclaration Location) × Finset flow.Pointer) :
    r.2 ⊆ (os.foldl (traverse n) r).2 := by
  induction os generalizing r with
  | nil => exact Finset.Subset.refl _
  | cons o os ih =>
    refine Finset.Subset.trans ?_ (ih _)
    have haccess : r.2 ⊆ (recordAccess (toLex (n, o.2)) o.1.declaration r).2 :=
      fun q hq => mem_recordAccess_snd.mpr (.inl hq)
    rw [traverse]
    cases o.1.kind with
    | assignment => exact Finset.Subset.refl _
    | declaration => exact Finset.Subset.refl _
    | _ => exact haccess

lemma NodeInfo.accesses_subset_traverse (info : flow.NodeInfo) (n : flow.Node) :
    info.uninitializedVariableAccesses ⊆ (info.traverse n).uninitializedVariableAccesses :=
  accesses_subset_foldl_traverse n _
    (info.unassignedVariablesAtEntry, info.uninitializedVariableAccesses)

lemma visit_progress (currentNode : flow.Node) (nodeInfos : flow.NodeInfos)
    (nodesToTraverse : Finset flow.Node) :
    missing (visit currentNode nodeInfos nodesToTraverse).1 < missing nodeInfos ∨
      missing (visit currentNode nodeInfos nodesToTraverse).1 ≤ missing nodeInfos ∧
        (visit currentNode nodeInfos nodesToTraverse).2 = nodesToTraverse := by
  have hle : missing (Function.update nodeInfos currentNode
      ((nodeInfos currentNode).traverse currentNode)) ≤ missing nodeInfos :=
    missing_update_le
      (NodeInfo.missing_le (Finset.Subset.refl _) (NodeInfo.accesses_subset_traverse _ _))
  rcases foldl_propagate_progress currentNode (flow.node currentNode).exits
    (Function.update nodeInfos currentNode ((nodeInfos currentNode).traverse currentNode),
      nodesToTraverse) with hlt | ⟨hle', htodo⟩
  · exact .inl (hlt.trans_le hle)
  · exact .inr ⟨hle'.trans hle, htodo⟩

variable (flow)

/-- The nodes to traverse. The loop ends since a node is only added when less is missing. -/
def nodesToTraverse : Semantics.Worklist flow.Node flow.NodeInfos where
  visit := visit
  measure := missing
  progress := visit_progress

def nodeInfos : flow.NodeInfos := flow.nodesToTraverse.run (fun _ => .empty) {flow.entry}

/-- What `operator<` says of the occurrences at two addresses. -/
def less (p q : flow.Pointer) : Bool :=
  match flow.occurrence? p, flow.occurrence? q with
  | some lhs, some rhs => lhs.less rhs
  | _, _ => false

def uninitializedAccessesOrdered : List flow.Pointer :=
  ((flow.nodeInfos flow.exit).uninitializedVariableAccesses.sort).mergeSort
    fun p q => !flow.less q p

end FunctionFlow

/-- What `ErrorReporter::typeError` is given, and a secondary source location if there is one. -/
structure TypeError (Location : Type*) where
  location : Location
  secondary : Option (String × Location)
  description : String
  deriving DecidableEq

def VariableOccurrence.typeError (variableOccurrence : VariableOccurrence Location) :
    TypeError Location where
  location :=
    match variableOccurrence.occurrence with
    | some node => node.location
    | none => variableOccurrence.declaration.location
  secondary := variableOccurrence.occurrence.map fun _ =>
    ("The variable was declared here.", variableOccurrence.declaration.location)
  description :=
    "This variable is of storage pointer type and can be " ++
      (if variableOccurrence.kind = .returned then "returned" else "accessed") ++
      " without prior assignment."

variable [DecidableEq Location] (flow : FunctionFlow Location)

def checkUninitializedAccess : List (TypeError Location) :=
  flow.uninitializedAccessesOrdered.filterMap fun p => (flow.occurrence? p).map (·.typeError)

end Polynomial.ControlFlow
