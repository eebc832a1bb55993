import Polc.Sof.PeepholeOptimiser.Meaning
import Mathlib.Algebra.Order.Group.Nat
import Mathlib.Algebra.Order.Monoid.Prod

/-!
# Passes come to an end

A rewriting of the peephole optimiser leaves fewer items other than `POP`, or as many of them and
fewer items, or as many items with fewer bytes. A pass is accepted only if it makes the code no
longer, so no sequence of accepted passes goes on forever.
-/

namespace Sof.PeepholeOptimiser

open AssemblyItem

/-- The items other than `POP` count first, then all items, then bytes. -/
def weight (items : List AssemblyItem) : ℕ ×ₗ ℕ ×ₗ ℕ :=
  toLex (items.countP (· ≠ .operation .pop),
    toLex (items.length, (items.map fun i => (i.bytesRequired 3).getD 0).sum))

lemma weight_append (l l' : List AssemblyItem) : weight (l ++ l') = weight l + weight l' := by
  rw [weight, List.countP_append, List.length_append, List.map_append, List.sum_append]
  rfl

lemma weight_lt_of_countP {l l' : List AssemblyItem}
    (h : l.countP (· ≠ .operation .pop) < l'.countP (· ≠ .operation .pop)) :
    weight l < weight l' := Prod.Lex.toLex_lt_toLex.mpr (.inl h)

lemma weight_nil_lt (i : AssemblyItem) (l : List AssemblyItem) : weight [] < weight (i :: l) := by
  refine Prod.Lex.toLex_lt_toLex.mpr ?_
  rcases Nat.eq_zero_or_pos ((i :: l).countP (· ≠ .operation .pop)) with hzero | hpos
  · exact .inr ⟨hzero.symm, Prod.Lex.toLex_lt_toLex.mpr (.inl (Nat.succ_pos _))⟩
  · exact .inl hpos

/-! ### Methods -/

/-- The items ahead are replaced by lighter ones. -/
def Lightens (items out rest : List AssemblyItem) : Prop :=
  ∃ w, items = w ++ rest ∧ weight out < weight w

variable {out rest items : List AssemblyItem}

lemma lightens_window2 {f : AssemblyItem → AssemblyItem → Option (List AssemblyItem)}
    (hf : ∀ a b o, f a b = some o → weight o < weight [a, b])
    (h : window2 f items = some (out, rest)) : Lightens items out rest := by
  rcases items with _ | ⟨a, _ | ⟨b, items⟩⟩
  · cases h
  · cases h
  · obtain ⟨o, ho, hout⟩ := Option.map_eq_some_iff.mp h
    cases hout
    exact ⟨[a, b], rfl, hf a b out ho⟩

lemma lightens_window3
    {f : AssemblyItem → AssemblyItem → AssemblyItem → Option (List AssemblyItem)}
    (hf : ∀ a b c o, f a b c = some o → weight o < weight [a, b, c])
    (h : window3 f items = some (out, rest)) : Lightens items out rest := by
  rcases items with _ | ⟨a, _ | ⟨b, _ | ⟨c, items⟩⟩⟩
  · cases h
  · cases h
  · cases h
  · obtain ⟨o, ho, hout⟩ := Option.map_eq_some_iff.mp h
    cases hout
    exact ⟨[a, b, c], rfl, hf a b c out ho⟩

lemma lightens_window4
    {f : AssemblyItem → AssemblyItem → AssemblyItem → AssemblyItem → Option (List AssemblyItem)}
    (hf : ∀ a b c d o, f a b c d = some o → weight o < weight [a, b, c, d])
    (h : window4 f items = some (out, rest)) : Lightens items out rest := by
  rcases items with _ | ⟨a, _ | ⟨b, _ | ⟨c, _ | ⟨d, items⟩⟩⟩⟩
  · cases h
  · cases h
  · cases h
  · cases h
  · obtain ⟨o, ho, hout⟩ := Option.map_eq_some_iff.mp h
    cases hout
    exact ⟨[a, b, c, d], rfl, hf a b c d out ho⟩

variable {i j k : AssemblyItem}

lemma countP_cons_of_ne (h : i ≠ .operation .pop) (l : List AssemblyItem) :
    (i :: l).countP (· ≠ .operation .pop) = l.countP (· ≠ .operation .pop) + 1 :=
  List.countP_cons_of_pos (decide_eq_true h)

lemma weight_pushPop (h : pushPop i j = some out) : weight out < weight [i, j] := by
  rw [pushPop] at h
  split_ifs at h
  cases h
  exact weight_nil_lt i [j]

lemma weight_opPop (h : opPop i j = some out) : weight out < weight [i, j] := by
  cases i with
  | operation i =>
    rw [opPop] at h
    split_ifs at h with hop
    obtain ⟨-, hret, -⟩ := hop
    cases h
    have hne : AssemblyItem.operation i ≠ .operation .pop := by
      rintro ⟨⟩
      cases hret
    apply weight_lt_of_countP
    rw [countP_cons_of_ne hne, List.countP_eq_zero.mpr]
    · exact Nat.succ_pos _
    · intro k hk
      rw [List.eq_of_mem_replicate hk]
      simp
  | _ => cases h

lemma weight_doublePush (h : doublePush i j = some out) : weight out < weight [i, j] := by
  cases i with
  | push a =>
    cases j with
    | push b =>
      rw [doublePush] at h
      split_ifs at h with hab
      subst hab
      cases h
      refine Prod.Lex.toLex_lt_toLex.mpr (.inr ⟨rfl, Prod.Lex.toLex_lt_toLex.mpr (.inr ⟨rfl, ?_⟩)⟩)
      simp only [List.map_cons, List.map_nil, List.sum_cons, List.sum_nil,
        AssemblyItem.bytesRequired, Option.getD_some]
      omega
    | _ => cases h
  | _ => cases h

lemma weight_doubleSwap (h : doubleSwap i j = some out) : weight out < weight [i, j] := by
  rw [doubleSwap] at h
  split_ifs at h
  cases h
  exact weight_nil_lt i [j]

lemma weight_drop (h : i ≠ .operation .pop) (l : List AssemblyItem) :
    weight l < weight (i :: l) := by
  apply weight_lt_of_countP
  rw [countP_cons_of_ne h]
  exact Nat.lt_succ_self _

lemma weight_commutativeSwap (h : commutativeSwap i j = some out) : weight out < weight [i, j] := by
  cases j with
  | operation j =>
    rw [commutativeSwap] at h
    split_ifs at h with hswap
    cases h
    exact weight_drop (hswap.1 ▸ by rintro ⟨⟩) _
  | _ => cases h

lemma weight_swapComparison (h : swapComparison i j = some out) : weight out < weight [i, j] := by
  cases j with
  | operation j =>
    rw [swapComparison] at h
    split_ifs at h with hswap
    obtain ⟨k, hk, rfl⟩ := Option.map_eq_some_iff.mp h
    subst hswap
    apply weight_lt_of_countP
    cases j with
    | lt | gt | slt | sgt =>
      cases hk
      decide
    | _ => cases hk
  | _ => cases h

lemma iszero_ne_pop : AssemblyItem.operation .iszero ≠ .operation .pop := nofun

lemma weight_isZeroIsZeroJumpI {l : AssemblyItem} (h : isZeroIsZeroJumpI i j k l = some out) :
    weight out < weight [i, j, k, l] := by
  cases k with
  | pushTag d =>
    rw [isZeroIsZeroJumpI] at h
    split_ifs at h with hitems
    obtain ⟨rfl, rfl, rfl⟩ := hitems
    cases h
    exact (weight_drop iszero_ne_pop _).trans (weight_drop iszero_ne_pop _)
  | _ => cases h

lemma weight_jumpToNext (h : jumpToNext i j k = some out) : weight out < weight [i, j, k] := by
  cases i with
  | pushTag d =>
    cases k with
    | tag e =>
      rw [jumpToNext] at h
      split_ifs at h with _ hjump hjumpi
      · subst hjump
        cases h
        apply weight_lt_of_countP
        simp
      · subst hjumpi
        cases h
        -- the tag counts on both sides
        apply weight_lt_of_countP
        simp
    | _ => cases h
  | _ => cases h

lemma weight_tagConjunctions (h : tagConjunctions i j k = some out) :
    weight out < weight [i, j, k] := by
  cases i with
  | pushTag d =>
    cases j with
    | push w =>
      rw [tagConjunctions] at h
      split_ifs at h with hand
      cases h
      apply weight_lt_of_countP
      simp
    | _ => cases h
  | _ => cases h

lemma weight_truthyAnd (h : truthyAnd i j k = some out) : weight out < weight [i, j, k] := by
  rw [truthyAnd] at h
  split_ifs at h
  cases h
  exact weight_nil_lt i [j, k]

lemma lightens_unreachableCode (h : unreachableCode items = some (out, rest)) :
    Lightens items out rest := by
  cases items with
  | nil => cases h
  | cons i items =>
    rw [unreachableCode] at h
    split_ifs at h with hi
    cases h
    refine ⟨i :: items.takeWhile (·.placedTag.isNone), ?_, ?_⟩
    · rw [List.cons_append, List.takeWhile_append_dropWhile]
    · obtain ⟨j, l, hl⟩ := List.exists_cons_of_ne_nil hi.2
      have hsplit : weight (i :: j :: l) = weight [i] + weight (j :: l) := weight_append [i] _
      rw [hl, hsplit]
      exact lt_add_of_pos_right _ (weight_nil_lt j l)

lemma lightens_of_method {method : Method} (hmethod : method ∈ methods)
    (h : method items = some (out, rest)) : items = out ++ rest ∨ Lightens items out rest := by
  simp only [methods, List.mem_cons, List.not_mem_nil, or_false] at hmethod
  rcases hmethod with rfl | rfl | rfl | rfl | rfl | rfl | rfl | rfl | rfl | rfl | rfl | rfl
  · exact .inr (lightens_window2 (fun _ _ _ => weight_pushPop) h)
  · exact .inr (lightens_window2 (fun _ _ _ => weight_opPop) h)
  · exact .inr (lightens_window2 (fun _ _ _ => weight_doublePush) h)
  · exact .inr (lightens_window2 (fun _ _ _ => weight_doubleSwap) h)
  · exact .inr (lightens_window2 (fun _ _ _ => weight_commutativeSwap) h)
  · exact .inr (lightens_window2 (fun _ _ _ => weight_swapComparison) h)
  · exact .inr (lightens_window4 (fun _ _ _ _ _ => weight_isZeroIsZeroJumpI) h)
  · exact .inr (lightens_window3 (fun _ _ _ _ => weight_jumpToNext) h)
  · exact .inr (lightens_unreachableCode h)
  · exact .inr (lightens_window3 (fun _ _ _ _ => weight_tagConjunctions) h)
  · exact .inr (lightens_window3 (fun _ _ _ _ => weight_truthyAnd) h)
  · cases items with
    | nil => cases h
    | cons i items =>
      cases h
      exact .inl rfl

lemma weight_optimisedItems {n : Nat} (h : items.length ≤ n) :
    optimisedItems n items = items ∨ weight (optimisedItems n items) < weight items := by
  induction n generalizing items with
  | zero =>
    rw [List.length_eq_zero_iff.mp (Nat.le_zero.mp h)]
    exact .inl rfl
  | succ n ih =>
    cases items with
    | nil => exact .inl rfl
    | cons i items =>
      obtain ⟨method, hmem, out, rest, hmethod, happly⟩ := applyMethods_cons i items
      have hlt := (rewritten_of_method hmem hmethod).length_lt
      rw [optimisedItems, happly]
      change out ++ optimisedItems n rest = _ ∨ weight (out ++ optimisedItems n rest) < _
      rcases lightens_of_method hmem hmethod with heq | ⟨w, heq, hw⟩
      · rw [heq, weight_append, weight_append]
        rcases ih (Nat.le_of_lt_succ (Nat.lt_of_lt_of_le hlt h)) with hrest | hrest
        · exact .inl (by rw [hrest])
        · exact .inr (add_lt_add_right hrest _)
      · rw [heq, weight_append, weight_append]
        right
        rcases ih (Nat.le_of_lt_succ (Nat.lt_of_lt_of_le hlt h)) with hrest | hrest
        · rw [hrest]
          exact add_lt_add_left hw _
        · exact add_lt_add hw hrest

/-- What an accepted pass makes smaller. -/
def cost (items : List AssemblyItem) : ℕ ×ₗ ℕ ×ₗ ℕ ×ₗ ℕ := toLex (items.length, weight items)

lemma cost_lt_of_length {items' : List AssemblyItem} (h : items'.length < items.length) :
    cost items' < cost items := Prod.Lex.toLex_lt_toLex.mpr (.inl h)

/-- A pass is accepted only if the code becomes smaller, and otherwise leaves it as it is. -/
theorem cost_optimise {items' : List AssemblyItem} {changed : Bool}
    (h : optimise items = some (items', changed)) :
    if changed then cost items' < cost items else items' = items := by
  rw [optimise] at h
  have hweight := weight_optimisedItems (le_refl items.length)
  split_ifs at h with hlt heq
  · cases h
    exact cost_lt_of_length hlt
  · obtain ⟨bytes, hbytes, h⟩ := Option.bind_eq_some_iff.mp h
    obtain ⟨optimisedBytes, hoptimised, h⟩ := Option.bind_eq_some_iff.mp h
    split_ifs at h with hbetter
    · cases h
      refine Prod.Lex.toLex_lt_toLex.mpr (.inr ⟨heq, hweight.resolve_left fun hsame => ?_⟩)
      -- nothing is gained if nothing is changed
      rw [hsame] at hoptimised hbetter
      cases hbytes.symm.trans hoptimised
      exact hbetter.elim (lt_irrefl _) (lt_irrefl _)
    · cases h
      rfl
  · cases h
    rfl

/-- No sequence of accepted passes goes on forever. -/
theorem wellFounded_optimise :
    WellFounded fun items' items => optimise items = some (items', true) :=
  Subrelation.wf (fun h => cost_optimise h) (InvImage.wf cost wellFounded_lt)

end Sof.PeepholeOptimiser
