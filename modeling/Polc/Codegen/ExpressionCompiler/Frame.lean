import Polc.Codegen.ExpressionCompiler.Operators

/-!
# Local variables on the stack

Retrieving and storing the variables of a frame that lies below temporary values, and the runs of
code that evaluates something over such a frame.
-/

namespace Polynomial

open List Option
open Sof (Word)
open ExpressionCompiler

section

variable {frame : List Word} {o size : ℕ}

lemma length_of_represents {t : ValueType} (ht : t.isValueType) {v : ℤ} {ws : List Word}
    (h : t.Represents v ws) : ws.length = t.sizeOnStack ∧ 0 < t.sizeOnStack ∧ t.sizeOnStack ≤ 2 := by
  cases t with
  | function t =>
    rw [ValueType.Represents] at h
    rw [ValueType.sizeOnStack]
    split_ifs at h ⊢
    · obtain ⟨selector, address, rfl, -⟩ := h
      exact ⟨rfl, by norm_num, by norm_num⟩
    · obtain ⟨w, rfl, -⟩ := h
      exact ⟨rfl, by norm_num, by norm_num⟩
  | rationalNumber | stringLiteral => cases ht
  | _ =>
    obtain ⟨w, rfl, -⟩ := h
    exact ⟨rfl, Nat.one_pos, Nat.le_succ 1⟩

lemma length_slots : (slots frame o size).length = min size (frame.length - o) := by
  rw [slots, length_reverse, length_take, length_drop]

lemma slots_one (h : o < frame.length) : slots frame o 1 = [frame[o]] := by
  rw [slots, drop_eq_getElem_cons h]
  rfl

lemma slots_two (h : o + 1 < frame.length) : slots frame o 2 = [frame[o + 1], frame[o]] := by
  rw [slots, drop_eq_getElem_cons (by omega), drop_eq_getElem_cons h]
  rfl

lemma slots_set {i : ℕ} (h : i < o ∨ o + size ≤ i) (w : Word) :
    slots (frame.set i w) o size = slots frame o size := by
  rw [slots, slots, drop_set]
  split_ifs with hi
  · rfl
  · rw [take_set, set_eq_of_length_le]
    rw [length_take]
    omega

lemma getElem?_frame (temps : List Word) (h : o < frame.length) :
    (temps ++ frame.reverse)[temps.length + frame.length - o - 1]? = some frame[o] := by
  rw [getElem?_append_right (by omega), getElem?_reverse (by omega),
    getElem?_eq_getElem (by omega)]
  congr 2
  omega

lemma set_frame (temps : List Word) (h : o < frame.length) (w : Word) :
    (temps ++ frame.reverse).set (temps.length + frame.length - o - 1) w =
      temps ++ (frame.set o w).reverse := by
  rw [set_append_right _ _ (by omega)]
  congr 1
  apply ext_getElem?
  intro i
  by_cases hi : i < frame.length
  · rw [getElem?_reverse (l := frame.set o w) (by simpa using hi), getElem?_set,
      getElem?_set, getElem?_reverse hi, length_reverse, length_set]
    by_cases heq : temps.length + frame.length - o - 1 - temps.length = i
    · rw [if_pos heq, if_pos (by omega), if_pos (by omega), if_pos (by omega)]
    · rw [if_neg heq, if_neg (by omega)]
  · rw [getElem?_eq_none (by simpa using hi), getElem?_eq_none (by simpa using hi)]

end

/-! ### Retrieving and storing -/

section

variable {o height : ℕ} {temps frame : List Word} {c : Code}

lemma dupInstruction_eq_some {n : ℕ} {item : Item} (h : dupInstruction n = some item) :
    ∃ k : Fin 16, k.val = n - 1 ∧ item = .operation (.dup k) := by
  unfold dupInstruction at h
  split_ifs at h with hlt hpos
  cases h
  exact ⟨⟨n - 1, hlt⟩, rfl, rfl⟩

lemma swapInstruction_eq_some {n : ℕ} {item : Item} (h : swapInstruction n = some item) :
    ∃ k : Fin 16, k.val = n - 1 ∧ 0 < n ∧ item = .operation (.swap k) := by
  unfold swapInstruction at h
  split_ifs at h with hlt hpos
  cases h
  exact ⟨⟨n - 1, hlt⟩, rfl, hpos, rfl⟩

lemma exec_retrieveValue {size : ℕ} (h : retrieveValue o size height = some c)
    (hsize : 0 < size ∧ size ≤ 2) (ho : o + size ≤ frame.length)
    (hheight : height = temps.length + frame.length) :
    exec c (temps ++ frame.reverse) = .stack (slots frame o size ++ (temps ++ frame.reverse)) := by
  obtain ⟨item, hitem, rfl⟩ := map_eq_some_iff.mp h
  obtain ⟨k, hk, rfl⟩ := dupInstruction_eq_some hitem
  have hk' : k.val = temps.length + frame.length - o - 1 := by omega
  have hfirst : (temps ++ frame.reverse)[k.val]? = some frame[o] := by
    rw [hk']
    exact getElem?_frame temps (by omega)
  rcases (by omega : size = 1 ∨ size = 2) with rfl | rfl
  · rw [slots_one (by omega)]
    exact exec_dup _ _ _ hfirst
  · have hsecond : (frame[o] :: (temps ++ frame.reverse))[k.val]? = some frame[o + 1] := by
      obtain ⟨j, hj⟩ : ∃ j, k.val = j + 1 := ⟨k.val - 1, by omega⟩
      rw [hj, getElem?_cons_succ, ← getElem?_frame temps (show o + 1 < frame.length by omega)]
      congr 1
      omega
    rw [slots_two (by omega)]
    change exec (.operation (.dup k) :: [.operation (.dup k)]) _ = _
    rw [exec_dup _ _ _ hfirst]
    exact exec_dup _ _ _ hsecond

lemma exec_storeValue {size : ℕ} {move : Bool} {ws : List Word}
    (h : storeValue o size height move = some c) (hsize : 0 < size ∧ size ≤ 2)
    (hws : ws.length = size) (ho : o + size ≤ frame.length)
    (hheight : height = size + (temps.length + frame.length)) :
    ∃ frame', exec c (ws ++ (temps ++ frame.reverse)) =
        .stack ((if move then [] else ws) ++ (temps ++ frame'.reverse)) ∧
      frame'.length = frame.length ∧ slots frame' o size = ws ∧
      ∀ o' size', o' + size' ≤ o ∨ o + size ≤ o' → slots frame' o' size' = slots frame o' size' := by
  unfold storeValue at h
  obtain ⟨item, hitem, h⟩ := bind_eq_some_iff.mp h
  obtain ⟨k, hk, hpos, rfl⟩ := swapInstruction_eq_some hitem
  obtain ⟨frame', hexec, hlength, hslots, hframe⟩ : ∃ frame',
      exec (List.replicate size [.operation (.swap k), .operation .pop]).flatten
        (ws ++ (temps ++ frame.reverse)) = .stack (temps ++ frame'.reverse) ∧
      frame'.length = frame.length ∧ slots frame' o size = ws ∧
      ∀ o' size', o' + size' ≤ o ∨ o + size ≤ o' → slots frame' o' size' = slots frame o' size' := by
    rcases (by omega : size = 1 ∨ size = 2) with rfl | rfl
    · obtain ⟨w, rfl⟩ := List.length_eq_one_iff.mp hws
      have hk' : k.val = temps.length + frame.length - o - 1 := by omega
      have hslot : (temps ++ frame.reverse)[k.val]? = some frame[o] := by
        rw [hk']
        exact getElem?_frame temps (by omega)
      refine ⟨frame.set o w, ?_, length_set, ?_, fun o' size' h => ?_⟩
      · change exec [.operation (.swap k), .operation .pop] (w :: (temps ++ frame.reverse)) = _
        rw [exec_swap _ _ _ _ hslot, exec_pop, hk', set_frame temps (by omega), exec_nil]
      · rw [slots_one (by rw [length_set]; omega), getElem_set_self]
      · exact slots_set (by omega) w
    · obtain ⟨selector, address, rfl⟩ := List.length_eq_two.mp hws
      obtain ⟨j, hj⟩ : ∃ j, k.val = j + 1 := ⟨k.val - 1, by omega⟩
      have hj' : j = temps.length + frame.length - (o + 1) - 1 := by omega
      have hk' : k.val = temps.length + (frame.set (o + 1) selector).length - o - 1 := by
        rw [length_set]
        omega
      have hfirst : (address :: (temps ++ frame.reverse))[k.val]? = some frame[o + 1] := by
        rw [hj, getElem?_cons_succ, hj']
        exact getElem?_frame temps (by omega)
      have hset : (address :: (temps ++ frame.reverse)).set k.val selector =
          address :: (temps ++ (frame.set (o + 1) selector).reverse) := by
        rw [hj, set_cons_succ, hj', set_frame temps (by omega)]
      have hlt : o < (frame.set (o + 1) selector).length := by
        rw [length_set]
        omega
      have hsecond : (temps ++ (frame.set (o + 1) selector).reverse)[k.val]? =
          some (frame.set (o + 1) selector)[o] := by
        rw [hk']
        exact getElem?_frame temps hlt
      refine ⟨(frame.set (o + 1) selector).set o address, ?_, ?_, ?_, fun o' size' h => ?_⟩
      · change exec (.operation (.swap k) :: .operation .pop :: [.operation (.swap k),
          .operation .pop]) (selector :: address :: (temps ++ frame.reverse)) = _
        rw [exec_swap _ _ _ _ hfirst, hset, exec_pop, exec_swap _ _ _ _ hsecond, exec_pop, hk',
          set_frame temps hlt, exec_nil]
      · rw [length_set, length_set]
      · have hlt' : o + 1 < ((frame.set (o + 1) selector).set o address).length := by
          rw [length_set, length_set]
          omega
        rw [slots_two hlt', getElem_set_self, getElem_set_ne (by omega),
          getElem_set_self]
      · rw [slots_set (by omega), slots_set (by omega)]
  refine ⟨frame', ?_, hlength, hslots, hframe⟩
  cases move with
  | true =>
    cases h
    exact hexec
  | false =>
    obtain ⟨retrieve, hretrieve, rfl⟩ := map_eq_some_iff.mp h
    rw [exec_append_of_stack hexec, exec_retrieveValue hretrieve hsize (by omega) (by omega), hslots]
    rfl

end

namespace LocalVariables

variable {Γ : LocalVariables} {σ : Store} {frame : List Word} {o o' : ℕ} {t t' : ValueType}

lemma Holds.le_length (h : Γ.Holds σ frame) (ho : Γ.type o = some t) :
    0 < t.sizeOnStack ∧ t.sizeOnStack ≤ 2 ∧ o + t.sizeOnStack ≤ frame.length := by
  obtain ⟨hlength, hpos, hle⟩ := length_of_represents (Γ.isValueType o t ho) (h o t ho)
  rw [length_slots] at hlength
  omega

lemma disjoint (ho : Γ.type o = some t) (ho' : Γ.type o' = some t') (hne : o ≠ o')
    (ht : t.sizeOnStack ≤ 2) (ht' : t'.sizeOnStack ≤ 2) :
    o' + t'.sizeOnStack ≤ o ∨ o + t.sizeOnStack ≤ o' := by
  rcases Nat.lt_or_gt_of_ne hne with hlt | hgt
  · right
    by_contra hover
    have htwo : t.sizeOnStack = 2 := by omega
    have heq : o' = o + 1 := by omega
    rw [heq, Γ.apart o t ho htwo] at ho'
    cases ho'
  · left
    by_contra hover
    have htwo : t'.sizeOnStack = 2 := by omega
    have heq : o = o' + 1 := by omega
    rw [heq, Γ.apart o' t' ho' htwo] at ho
    cases ho

lemma Holds.update {frame' : List Word} {v : ℤ} {ws : List Word} (h : Γ.Holds σ frame)
    (ho : Γ.type o = some t) (hv : t.Represents v ws) (hslots : slots frame' o t.sizeOnStack = ws)
    (hframe : ∀ o' size', o' + size' ≤ o ∨ o + t.sizeOnStack ≤ o' →
      slots frame' o' size' = slots frame o' size') :
    Γ.Holds (Function.update σ o v) frame' := by
  intro o' t' ho'
  by_cases heq : o' = o
  · subst heq
    rw [ho] at ho'
    cases ho'
    rw [Function.update_self, hslots]
    exact hv
  · have hle := (h.le_length ho).2.1
    have hle' := (h.le_length ho').2.1
    rw [Function.update_of_ne heq, hframe o' _ (disjoint ho ho' (Ne.symm heq) hle hle')]
    exact h o' t' ho'

end LocalVariables

/-! ### Runs over a frame -/

/-- Started with `start` on top of the frame, the code leaves words that satisfy `P` with the
result and a frame that holds the resulting variables, or stops if the result is a failure. -/
def Runs (Γ : LocalVariables) (P : ℤ → List Word → Prop) (code : Code) (start temps : List Word)
    (frame : List Word) : Except Failure (ℤ × Store) → Prop
  | .ok (v, σ) => ∃ ws frame',
      exec code (start ++ frame.reverse) = .stack (ws ++ (temps ++ frame'.reverse)) ∧
      P v ws ∧ Γ.Holds σ frame' ∧ frame'.length = frame.length
  | .error _ => exec code (start ++ frame.reverse) = .invalid

namespace Runs

variable {Γ : LocalVariables} {P Q : ℤ → List Word → Prop} {code code' : Code}
  {start temps temps' frame : List Word} {σ : Store}

lemma bind {r : Except Failure (ℤ × Store)} {k : ℤ × Store → Except Failure (ℤ × Store)}
    (h : Runs Γ P code start temps frame r)
    (hk : ∀ v σ ws frame', P v ws → Γ.Holds σ frame' → frame'.length = frame.length →
      Runs Γ Q code' (ws ++ temps) temps' frame' (k (v, σ))) :
    Runs Γ Q (code ++ code') start temps' frame (r.bind k) := by
  cases r with
  | error e => exact exec_append_of_invalid h code'
  | ok u =>
    obtain ⟨v, σ⟩ := u
    obtain ⟨ws, frame', hexec, hP, hholds, hlength⟩ := h
    have hnext := hk v σ ws frame' hP hholds hlength
    change Runs Γ Q _ _ _ _ (k (v, σ))
    cases hr : k (v, σ) with
    | error e =>
      rw [hr] at hnext
      unfold Runs at hnext ⊢
      rw [exec_append_of_stack hexec, ← append_assoc]
      exact hnext
    | ok u =>
      rw [hr] at hnext
      obtain ⟨v', σ'⟩ := u
      obtain ⟨ws', frame'', hexec', hQ, hholds', hlength'⟩ := hnext
      refine ⟨ws', frame'', ?_, hQ, hholds', hlength'.trans hlength⟩
      rw [exec_append_of_stack hexec, ← append_assoc]
      exact hexec'

lemma bind_yields {ε : Type} {r : Except Failure ε} {R : ε → List Word → Prop} {ws : List Word}
    {k : ε → Except Failure (ℤ × Store)} (h : Yields code ws R r)
    (hk : ∀ v ws', R v ws' → Runs Γ Q code' (ws' ++ temps) temps' frame (k v)) :
    Runs Γ Q (code ++ code') (ws ++ temps) temps' frame (r.bind k) := by
  cases r with
  | error e =>
    apply exec_append_of_invalid
    rw [append_assoc]
    exact h _
  | ok v =>
    obtain ⟨ws', hR, hexec⟩ := h
    have hnext := hk v ws' hR
    have hfirst : exec code (ws ++ temps ++ frame.reverse) =
        .stack (ws' ++ temps ++ frame.reverse) := by
      rw [append_assoc, append_assoc]
      exact hexec _
    change Runs Γ Q _ _ _ _ (k v)
    cases hr : k v with
    | error e =>
      rw [hr] at hnext
      unfold Runs at hnext ⊢
      rw [exec_append_of_stack hfirst]
      exact hnext
    | ok u =>
      rw [hr] at hnext
      obtain ⟨v', σ'⟩ := u
      obtain ⟨ws'', frame', hexec', hQ⟩ := hnext
      refine ⟨ws'', frame', ?_, hQ⟩
      rw [exec_append_of_stack hfirst]
      exact hexec'

lemma of_yields {ws : List Word} {r : Except Failure ℤ} (h : Yields code ws P r)
    (hholds : Γ.Holds σ frame) :
    Runs Γ P code (ws ++ temps) temps frame (r.bind fun v => .ok (v, σ)) := by
  rw [← append_nil code]
  refine bind_yields h fun v ws' hP => ⟨ws', frame, ?_, hP, hholds, rfl⟩
  rw [exec_nil, append_assoc]

lemma retrieve {o height : ℕ} {t : ValueType} (h : retrieveValue o t.sizeOnStack height = some code)
    (ho : Γ.type o = some t) (hholds : Γ.Holds σ frame)
    (hheight : height = temps.length + frame.length) :
    Runs Γ t.Represents code temps temps frame (.ok (σ o, σ)) := by
  obtain ⟨hpos, hle, hlength⟩ := hholds.le_length ho
  exact ⟨_, frame, exec_retrieveValue h ⟨hpos, hle⟩ hlength hheight, hholds o t ho, hholds, rfl⟩

lemma store {o height : ℕ} {t : ValueType} {v : ℤ} {ws : List Word}
    (h : storeValue o t.sizeOnStack height false = some code) (ho : Γ.type o = some t)
    (hholds : Γ.Holds σ frame) (hv : t.Represents v ws)
    (hheight : height = t.sizeOnStack + (temps.length + frame.length)) :
    Runs Γ t.Represents code (ws ++ temps) temps frame (.ok (v, Function.update σ o v)) := by
  obtain ⟨hpos, hle, hlength⟩ := hholds.le_length ho
  obtain ⟨hws, -⟩ := length_of_represents (Γ.isValueType o t ho) hv
  obtain ⟨frame', hexec, hlength', hslots, hframe⟩ :=
    exec_storeValue h ⟨hpos, hle⟩ hws hlength hheight
  refine ⟨ws, frame', ?_, hv, hholds.update ho hv hslots hframe, hlength'⟩
  rw [append_assoc]
  exact hexec

lemma storeMoved {o height : ℕ} {t : ValueType} {v u : ℤ} {ws us : List Word}
    (h : storeValue o t.sizeOnStack height true = some code) (ho : Γ.type o = some t)
    (hholds : Γ.Holds σ frame) (hv : t.Represents v ws) (hu : P u us)
    (hheight : height = t.sizeOnStack + ((us ++ temps).length + frame.length)) :
    Runs Γ P code (ws ++ (us ++ temps)) temps frame (.ok (u, Function.update σ o v)) := by
  obtain ⟨hpos, hle, hlength⟩ := hholds.le_length ho
  obtain ⟨hws, -⟩ := length_of_represents (Γ.isValueType o t ho) hv
  obtain ⟨frame', hexec, hlength', hslots, hframe⟩ :=
    exec_storeValue h ⟨hpos, hle⟩ hws hlength hheight
  refine ⟨us, frame', ?_, hu, hholds.update ho hv hslots hframe, hlength'⟩
  rw [append_assoc, ← append_assoc us]
  exact hexec

end Runs

end Polynomial
