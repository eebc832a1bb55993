import Polc.Langutil.Exceptions
import Polc.Semantics.Precedence
import Mathlib.Algebra.Order.BigOperators.Group.List
import Mathlib.Algebra.Order.Group.Nat
import Mathlib.Algebra.GroupWithZero.Nat

/-!
# Linearisation of base contracts

The C3 merge of `libpolynomial/analysis/NameAndTypeResolver.cpp`. Contracts are any type with
decidable equality; the source merges lists of pointers to them.
-/

namespace Polynomial

open Langutil Semantics

variable {T : Type*} [DecidableEq T]

/-- True iff the candidate appears only as the first element of the lists. -/
def appearsOnlyAtHead (toMerge : List (List T)) (candidate : T) : Bool :=
  toMerge.all fun bases => candidate ∉ bases.tail

/-- The next candidate to append to the linearized list, or nothing on failure. -/
def nextCandidate (toMerge : List (List T)) : Option T :=
  (toMerge.filterMap List.head?).find? (appearsOnlyAtHead toMerge)

/-- Remove the contract from all lists, and the lists that are empty then. -/
def removeCandidate (candidate : T) (toMerge : List (List T)) : List (List T) :=
  (toMerge.map fun bases => bases.filter (· ≠ candidate)).filter (· ≠ [])

variable {contract candidate : T} {toMerge : List (List T)} {l r bases : List T}

lemma mem_removeCandidate :
    l ∈ removeCandidate candidate toMerge ↔
      (∃ bases ∈ toMerge, bases.filter (· ≠ candidate) = l) ∧ l ≠ [] := by
  simp [removeCandidate]

lemma nextCandidate_eq_some (h : nextCandidate toMerge = some candidate) :
    (∃ bases ∈ toMerge, bases.head? = some candidate) ∧
      ∀ bases ∈ toMerge, candidate ∉ bases.tail := by
  constructor
  · exact List.mem_filterMap.mp (List.mem_of_find?_eq_some h)
  · have hall := List.find?_some h
    simpa [appearsOnlyAtHead] using hall

/-- The number of elements of all lists. -/
def totalLength (toMerge : List (List T)) : ℕ := (toMerge.map List.length).sum

omit [DecidableEq T] in
lemma totalLength_filter_le (toMerge : List (List T)) (p : List T → Bool) :
    totalLength (toMerge.filter p) ≤ totalLength toMerge :=
  ((List.filter_sublist).map _).sum_le_sum fun _ _ => Nat.zero_le _

lemma totalLength_removeCandidate_lt (h : nextCandidate toMerge = some candidate) :
    totalLength (removeCandidate candidate toMerge) < totalLength toMerge := by
  obtain ⟨⟨bases, hmem, hhead⟩, -⟩ := nextCandidate_eq_some h
  refine (totalLength_filter_le _ _).trans_lt ?_
  rw [totalLength, List.map_map]
  refine List.sum_lt_sum _ _ (fun l _ => List.length_filter_le _ _) ⟨bases, hmem, ?_⟩
  refine List.length_filter_lt_length_iff_exists.mpr ⟨candidate, ?_, by simp⟩
  exact List.mem_of_head? hhead

/-- The loop of the merge. -/
def mergeLoop (toMerge : List (List T)) : Option (List T) :=
  if toMerge = [] then some []
  else
    match _h : nextCandidate toMerge with
    | none => none
    | some candidate => (mergeLoop (removeCandidate candidate toMerge)).map (candidate :: ·)
termination_by totalLength toMerge
decreasing_by exact totalLength_removeCandidate_lt _h

@[simp] lemma mergeLoop_nil : mergeLoop ([] : List (List T)) = some [] := by
  rw [mergeLoop, if_pos rfl]

lemma mergeLoop_of_none (hne : toMerge ≠ []) (h : nextCandidate toMerge = none) :
    mergeLoop toMerge = none := by
  rw [mergeLoop, if_neg hne]
  split
  · rfl
  · rename_i candidate hc
    rw [h] at hc
    cases hc

lemma mergeLoop_of_some (h : nextCandidate toMerge = some candidate) :
    mergeLoop toMerge = (mergeLoop (removeCandidate candidate toMerge)).map (candidate :: ·) := by
  have hne : toMerge ≠ [] := by
    rintro rfl
    cases h
  rw [mergeLoop, if_neg hne]
  split
  · rename_i hc
    rw [h] at hc
    cases hc
  · rename_i candidate' hc
    obtain rfl : candidate = candidate' := Option.some.inj (h.symm.trans hc)
    rfl

/-- The merged list, which is empty on failure. -/
def cThreeMerge (toMerge : List (List T)) : List T :=
  (mergeLoop (toMerge.filter (· ≠ []))).getD []

lemma filter_ne_of_not_mem (h : candidate ∉ l) : l.filter (· ≠ candidate) = l := by
  refine List.filter_eq_self.mpr fun a ha => ?_
  have hne : a ≠ candidate := by
    rintro rfl
    exact h ha
  simpa using hne

lemma not_mem_removeCandidate (hl : l ∈ removeCandidate candidate toMerge) : candidate ∉ l := by
  obtain ⟨⟨bases, -, rfl⟩, -⟩ := mem_removeCandidate.mp hl
  simp

lemma exists_mem_removeCandidate {x : T} (hx : x ≠ candidate) :
    (∃ l ∈ removeCandidate candidate toMerge, x ∈ l) ↔ ∃ l ∈ toMerge, x ∈ l := by
  constructor
  · rintro ⟨l, hl, hmem⟩
    obtain ⟨⟨bases, hbases, rfl⟩, -⟩ := mem_removeCandidate.mp hl
    exact ⟨bases, hbases, List.mem_of_mem_filter hmem⟩
  · rintro ⟨bases, hbases, hmem⟩
    have hfilter : x ∈ bases.filter (· ≠ candidate) :=
      List.mem_filter.mpr ⟨hmem, by simpa using hx⟩
    exact ⟨_, mem_removeCandidate.mpr ⟨⟨bases, hbases, rfl⟩, List.ne_nil_of_mem hfilter⟩, hfilter⟩

/-- A list is the candidate, if it is its first element, followed by what is left of the list. -/
lemma sublist_cons_of_removeCandidate (htail : ∀ l ∈ toMerge, candidate ∉ l.tail)
    (h : ∀ l ∈ removeCandidate candidate toMerge, l.Sublist r) (hl : l ∈ toMerge) :
    l.Sublist (candidate :: r) := by
  have hfilter : (l.filter (· ≠ candidate)).Sublist r := by
    by_cases hne : l.filter (· ≠ candidate) = []
    · rw [hne]
      exact List.nil_sublist r
    · exact h _ (mem_removeCandidate.mpr ⟨⟨l, hl, rfl⟩, hne⟩)
  cases l with
  | nil => exact List.nil_sublist _
  | cons a l =>
    by_cases ha : a = candidate
    · subst ha
      have hl' : a ∉ l := htail _ hl
      rw [List.filter_cons_of_neg (by simp), filter_ne_of_not_mem hl'] at hfilter
      exact hfilter.cons_cons a
    · have hmem : candidate ∉ a :: l := by
        rw [List.mem_cons, not_or]
        exact ⟨Ne.symm ha, htail _ hl⟩
      rw [filter_ne_of_not_mem hmem] at hfilter
      exact hfilter.cons candidate

/-- The list merges the given ones: every element once and in the order of each of them. -/
structure Merges (toMerge : List (List T)) (result : List T) : Prop where
  nodup : result.Nodup
  mem_iff : ∀ x, x ∈ result ↔ ∃ l ∈ toMerge, x ∈ l
  sublist : ∀ l ∈ toMerge, l.Sublist result

omit [DecidableEq T] in
lemma Merges.nil (h : toMerge = []) : Merges toMerge [] := by
  subst h
  exact ⟨List.nodup_nil, by simp, by simp⟩

lemma Merges.cons (hc : nextCandidate toMerge = some candidate)
    (h : Merges (removeCandidate candidate toMerge) r) : Merges toMerge (candidate :: r) := by
  obtain ⟨⟨bases, hbases, hhead⟩, htail⟩ := nextCandidate_eq_some hc
  refine ⟨List.nodup_cons.mpr ⟨fun hmem => ?_, h.nodup⟩, fun x => ?_, fun l hl => ?_⟩
  · obtain ⟨l, hl, hmem⟩ := (h.mem_iff candidate).mp hmem
    exact not_mem_removeCandidate hl hmem
  · by_cases hx : x = candidate
    · subst hx
      exact ⟨fun _ => ⟨bases, hbases, List.mem_of_head? hhead⟩, fun _ => List.mem_cons_self⟩
    · rw [List.mem_cons, or_iff_right hx, h.mem_iff, exists_mem_removeCandidate hx]
  · exact sublist_cons_of_removeCandidate htail h.sublist hl

lemma mergeLoop_merges (h : mergeLoop toMerge = some r) : Merges toMerge r := by
  induction toMerge using mergeLoop.induct generalizing r with
  | case1 =>
    rw [mergeLoop_nil] at h
    obtain rfl := Option.some.inj h
    exact .nil rfl
  | case2 toMerge hne hnone =>
    rw [mergeLoop_of_none hne hnone] at h
    cases h
  | case3 toMerge hne candidate hc ih =>
    rw [mergeLoop_of_some hc] at h
    obtain ⟨r', hr', rfl⟩ := Option.map_eq_some_iff.mp h
    exact .cons hc (ih hr')

lemma consistent_removeCandidate (h : Consistent toMerge) (candidate : T) :
    Consistent (removeCandidate candidate toMerge) := by
  refine h.mono fun l hl => ?_
  obtain ⟨⟨bases, hbases, rfl⟩, -⟩ := mem_removeCandidate.mp hl
  exact ⟨bases, hbases, List.filter_sublist⟩

lemma exists_nextCandidate (h : Consistent toMerge) (hne : ∃ l ∈ toMerge, l ≠ []) :
    ∃ candidate, nextCandidate toMerge = some candidate := by
  obtain ⟨l, hl, x, hhead, htail⟩ := h.exists_first hne
  rw [← Option.isSome_iff_exists, nextCandidate, List.find?_isSome]
  refine ⟨x, List.mem_filterMap.mpr ⟨l, hl, hhead⟩, ?_⟩
  simpa [appearsOnlyAtHead] using htail

lemma exists_mergeLoop (h : Consistent toMerge) (hne : ∀ l ∈ toMerge, l ≠ []) :
    ∃ r, mergeLoop toMerge = some r := by
  induction toMerge using mergeLoop.induct with
  | case1 => exact ⟨[], mergeLoop_nil⟩
  | case2 toMerge hnil hnone =>
    obtain ⟨l, hl⟩ := List.exists_mem_of_ne_nil _ hnil
    obtain ⟨candidate, hc⟩ := exists_nextCandidate h ⟨l, hl, hne l hl⟩
    rw [hnone] at hc
    cases hc
  | case3 toMerge hnil candidate hc ih =>
    obtain ⟨r, hr⟩ := ih (consistent_removeCandidate h candidate)
      fun l hl => (mem_removeCandidate.mp hl).2
    exact ⟨candidate :: r, by rw [mergeLoop_of_some hc, hr]; rfl⟩

omit [DecidableEq T] in
lemma merges_filter (h : Merges (toMerge.filter (· ≠ [])) r) : Merges toMerge r := by
  refine ⟨h.nodup, fun x => ?_, fun l hl => ?_⟩
  · rw [h.mem_iff]
    constructor
    · rintro ⟨l, hl, hx⟩
      exact ⟨l, List.mem_of_mem_filter hl, hx⟩
    · rintro ⟨l, hl, hx⟩
      exact ⟨l, List.mem_filter.mpr ⟨hl, by simpa using List.ne_nil_of_mem hx⟩, hx⟩
  · by_cases hne : l = []
    · rw [hne]
      exact List.nil_sublist r
    · exact h.sublist l (List.mem_filter.mpr ⟨hl, by simpa using hne⟩)

lemma merges_of_cThreeMerge_ne (h : cThreeMerge toMerge ≠ []) :
    Merges toMerge (cThreeMerge toMerge) := by
  rcases hloop : mergeLoop (toMerge.filter (· ≠ [])) with _ | r
  · exact absurd (by rw [cThreeMerge, hloop]; rfl) h
  · have heq : cThreeMerge toMerge = r := by rw [cThreeMerge, hloop]; rfl
    rw [heq]
    exact merges_filter (mergeLoop_merges hloop)

lemma cThreeMerge_ne_nil_iff (hne : ∃ l ∈ toMerge, l ≠ []) :
    cThreeMerge toMerge ≠ [] ↔ Consistent toMerge := by
  constructor
  · intro h
    have hm := merges_of_cThreeMerge_ne h
    exact consistent_of_sublist hm.nodup hm.sublist
  · intro h
    have hfilter : Consistent (toMerge.filter (· ≠ [])) :=
      h.mono fun l hl => ⟨l, List.mem_of_mem_filter hl, List.Sublist.refl l⟩
    obtain ⟨r, hr⟩ := exists_mergeLoop hfilter fun l hl => by simpa using (List.mem_filter.mp hl).2
    obtain ⟨l, hl, hlne⟩ := hne
    have heq : cThreeMerge toMerge = r := by rw [cThreeMerge, hr]; rfl
    rw [heq]
    rintro rfl
    have hsub := (merges_filter (mergeLoop_merges hr)).sublist l hl
    exact hlne (List.sublist_nil.mp hsub)

/-- The lists of the bases, those of bases mentioned later first, and the list of the contract and
its direct bases. -/
def mergeInput (linearized : T → List T) (contract : T) (bases : List T) : List (List T) :=
  (bases.map linearized).reverse ++ [contract :: bases.reverse]

/-- The contract itself is the only first candidate: the lists of the bases start with bases. -/
lemma nextCandidate_mergeInput {lists : List (List T)}
    (hlists : ∀ l ∈ lists, ∃ b ∈ bases, l.head? = some b)
    (h : nextCandidate (lists ++ [contract :: bases]) = some candidate) : candidate = contract := by
  obtain ⟨⟨l, hl, hhead⟩, htail⟩ := nextCandidate_eq_some h
  rcases List.mem_append.mp hl with hl | hl
  · obtain ⟨b, hb, hbhead⟩ := hlists l hl
    obtain rfl : b = candidate := Option.some.inj (hbhead.symm.trans hhead)
    exact absurd hb (htail _ (List.mem_append_right _ List.mem_cons_self))
  · obtain rfl := List.mem_singleton.mp hl
    exact (Option.some.inj hhead).symm

lemma head?_cThreeMerge {lists : List (List T)}
    (hlists : ∀ l ∈ lists, ∃ b ∈ bases, l.head? = some b)
    (h : cThreeMerge (lists ++ [contract :: bases]) ≠ []) :
    (cThreeMerge (lists ++ [contract :: bases])).head? = some contract := by
  have hne : ∀ l ∈ lists ++ [contract :: bases], l ≠ [] := by
    rintro l hl rfl
    rcases List.mem_append.mp hl with hl | hl
    · obtain ⟨b, -, hb⟩ := hlists _ hl
      cases hb
    · exact absurd (List.mem_singleton.mp hl) (by simp)
  have hfilter : (lists ++ [contract :: bases]).filter (· ≠ []) = lists ++ [contract :: bases] :=
    List.filter_eq_self.mpr fun l hl => by simpa using hne l hl
  rw [cThreeMerge, hfilter] at h ⊢
  rcases hc : nextCandidate (lists ++ [contract :: bases]) with _ | candidate
  · rw [mergeLoop_of_none (by simp) hc] at h
    exact absurd rfl h
  · obtain rfl := nextCandidate_mergeInput hlists hc
    rw [mergeLoop_of_some hc] at h ⊢
    cases hr : mergeLoop (removeCandidate candidate (lists ++ [candidate :: bases])) with
    | none =>
      rw [hr] at h
      exact absurd rfl h
    | some r => rfl

/-- Merging lists that start with bases, with the list of the contract and these bases last:
a result is found exactly if the orders of the lists are consistent. Then it has every contract
once, keeps the order of every list and starts with the contract. -/
theorem cThreeMerge_linearizes (contract : T) (bases : List T) (lists : List (List T))
    (hlists : ∀ l ∈ lists, ∃ b ∈ bases, l.head? = some b) :
    (cThreeMerge (lists ++ [contract :: bases]) ≠ [] ↔
        Consistent (lists ++ [contract :: bases])) ∧
      (cThreeMerge (lists ++ [contract :: bases]) ≠ [] →
        Merges (lists ++ [contract :: bases]) (cThreeMerge (lists ++ [contract :: bases])) ∧
          (cThreeMerge (lists ++ [contract :: bases])).head? = some contract) := by
  refine ⟨cThreeMerge_ne_nil_iff ⟨contract :: bases, by simp, by simp⟩, fun h => ?_⟩
  exact ⟨merges_of_cThreeMerge_ne h, head?_cThreeMerge hlists h⟩

/-- A contract 4 with bases 3 and 2 that share a base 1. -/
theorem cThreeMerge_linearizes_diamond :
    (cThreeMerge ([[3, 1], [2, 1]] ++ [[4, 3, 2]]) ≠ [] ↔
        Consistent ([[3, 1], [2, 1]] ++ [[4, 3, 2]])) ∧
      (cThreeMerge ([[3, 1], [2, 1]] ++ [[4, 3, 2]]) ≠ [] →
        Merges ([[3, 1], [2, 1]] ++ [[4, 3, 2]]) (cThreeMerge ([[3, 1], [2, 1]] ++ [[4, 3, 2]])) ∧
          (cThreeMerge ([[3, 1], [2, 1]] ++ [[4, 3, 2]])).head? = some 4) :=
  cThreeMerge_linearizes 4 [3, 2] [[3, 1], [2, 1]] (by decide)

/-- The linearised bases of a contract, from the annotations of its bases. -/
def linearizeBaseContracts (linearized : T → List T) (contract : T) (bases : List T) :
    Except Error (List T) :=
  if bases.any fun base => linearized base = [] then
    .error ⟨.typeError, "Definition of base has to precede definition of derived contract"⟩
  else
    match cThreeMerge (mergeInput linearized contract bases) with
    | [] => .error ⟨.typeError, "Linearization of inheritance graph impossible"⟩
    | result => .ok result

/-- Resolve the contracts in order; each result is kept in the annotation of its contract. -/
def linearizeAll (linearized : T → List T) : List (T × List T) → Except Error (T → List T)
  | [] => .ok linearized
  | (contract, bases) :: contracts => do
    let result ← linearizeBaseContracts linearized contract bases
    linearizeAll (Function.update linearized contract result) contracts

/-- Every annotation that is set has the contract first and no contract twice. -/
def Linearized (linearized : T → List T) : Prop :=
  ∀ c, linearized c ≠ [] → (linearized c).head? = some c ∧ (linearized c).Nodup

lemma linearizeBaseContracts_eq_ok {linearized : T → List T} (hl : Linearized linearized)
    {result : List T} (h : linearizeBaseContracts linearized contract bases = .ok result) :
    result.head? = some contract ∧ Merges (mergeInput linearized contract bases) result := by
  unfold linearizeBaseContracts at h
  split_ifs at h with hbases
  have hlists : ∀ l ∈ (bases.map linearized).reverse, ∃ b ∈ bases.reverse, l.head? = some b := by
    intro l hmem
    obtain ⟨b, hb, rfl⟩ := List.mem_map.mp (List.mem_reverse.mp hmem)
    have hne : linearized b ≠ [] := fun hnil =>
      hbases (List.any_eq_true.mpr ⟨b, hb, by simpa using hnil⟩)
    exact ⟨b, List.mem_reverse.mpr hb, (hl b hne).1⟩
  split at h
  · cases h
  · rename_i hne
    cases h
    exact ⟨head?_cThreeMerge hlists hne, merges_of_cThreeMerge_ne hne⟩

lemma linearizeAll_eq_ok {linearized linearized' : T → List T} {contracts : List (T × List T)}
    (hl : Linearized linearized) (hnodup : (contracts.map Prod.fst).Nodup)
    (hnew : ∀ c ∈ contracts.map Prod.fst, linearized c = [])
    (h : linearizeAll linearized contracts = .ok linearized') :
    (∀ c ∉ contracts.map Prod.fst, linearized' c = linearized c) ∧
      ∀ c ∈ contracts, (linearized' c.1).head? = some c.1 ∧
        Merges (mergeInput linearized' c.1 c.2) (linearized' c.1) := by
  induction contracts generalizing linearized with
  | nil =>
    cases h
    exact ⟨fun _ _ => rfl, nofun⟩
  | cons contract contracts ih =>
    rw [List.map_cons, List.nodup_cons] at hnodup
    rw [List.map_cons, List.forall_mem_cons] at hnew
    rcases hr : linearizeBaseContracts linearized contract.1 contract.2 with e | result
    · rw [linearizeAll, hr] at h
      cases h
    · obtain ⟨hhead, hmerges⟩ := linearizeBaseContracts_eq_ok hl hr
      rw [linearizeAll, hr] at h
      have hl' : Linearized (Function.update linearized contract.1 result) := by
        intro c hc
        by_cases heq : c = contract.1
        · subst heq
          rw [Function.update_self]
          exact ⟨hhead, hmerges.nodup⟩
        · rw [Function.update_of_ne heq] at hc ⊢
          exact hl c hc
      have hne : ∀ c ∈ contracts.map Prod.fst, c ≠ contract.1 := fun c hc heq =>
        hnodup.1 (heq ▸ hc)
      obtain ⟨hsame, hrest⟩ := ih hl' hnodup.2
        (fun c hc => (Function.update_of_ne (hne c hc) _ _).trans (hnew.2 c hc)) h
      have hkept : ∀ c ∉ (contract :: contracts).map Prod.fst, linearized' c = linearized c := by
        intro c hc
        rw [List.map_cons, List.mem_cons, not_or] at hc
        rw [hsame c hc.2, Function.update_of_ne hc.1]
      -- the bases have been resolved before, or else there is an error
      have hbases : ∀ b ∈ contract.2, linearized' b = linearized b := by
        intro b hb
        refine hkept b fun hmem => ?_
        have hempty : linearized b = [] := by
          rcases List.mem_cons.mp (List.map_cons ▸ hmem) with rfl | hmem
          · exact hnew.1
          · exact hnew.2 b hmem
        rw [linearizeBaseContracts,
          if_pos (List.any_eq_true.mpr ⟨b, hb, decide_eq_true hempty⟩)] at hr
        cases hr
      refine ⟨hkept, List.forall_mem_cons.mpr ⟨?_, hrest⟩⟩
      rw [hsame _ hnodup.1, Function.update_self, mergeInput, List.map_congr_left hbases]
      exact ⟨hhead, hmerges⟩

/-- When all contracts of a program have been resolved, the annotation of each one starts with it
and merges the annotations of its bases, as they are in the end, with the list of the bases. -/
theorem linearizeAll_merges (contracts : List (T × List T)) (linearized : T → List T)
    (hnodup : (contracts.map Prod.fst).Nodup)
    (h : linearizeAll (fun _ => []) contracts = .ok linearized) :
    ∀ c ∈ contracts, (linearized c.1).head? = some c.1 ∧
      Merges (mergeInput linearized c.1 c.2) (linearized c.1) :=
  (linearizeAll_eq_ok (fun _ h => absurd rfl h) hnodup (fun _ _ => rfl) h).2

/-- Two contracts with a common base, and one that derives from both. -/
theorem linearizeAll_merges_diamond :
    let linearized : ℕ → List ℕ := Function.update (Function.update (Function.update
      (Function.update (fun _ => []) 0 [0]) 1 [1, 0]) 2 [2, 0]) 3 [3, 2, 1, 0]
    ∀ c ∈ [(0, []), (1, [0]), (2, [0]), (3, [1, 2])], (linearized c.1).head? = some c.1 ∧
      Merges (mergeInput linearized c.1 c.2) (linearized c.1) := by
  refine linearizeAll_merges _ _ (by decide) ?_
  have hmerge : cThreeMerge [[0]] = [0] ∧ cThreeMerge [[0], [1, 0]] = [1, 0] ∧
      cThreeMerge [[0], [2, 0]] = [2, 0] ∧
      cThreeMerge [[2, 0], [1, 0], [3, 2, 1]] = [3, 2, 1, 0] := by decide +kernel
  simp [linearizeAll, linearizeBaseContracts, mergeInput, hmerge, bind, Except.bind]

end Polynomial
