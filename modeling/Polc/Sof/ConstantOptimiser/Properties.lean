import Polc.Sof.ConstantOptimiser

/-!
# The search for routines

Every routine that is found leaves the constant on the stack of the tiny machine, and consists of
items whose costs are known. So the search never fails and passes its check.
-/

namespace Sof

open Semantics Langutil ConstantOptimisationMethod List
open BitVec hiding lt_trichotomy

namespace ComputeMethod

/-- The items of computed representations. -/
def isSimple : AssemblyItem → Bool
  | .push _ => true
  | .operation i => i ∈ [.not, .shl, .exp, .mul, .add, .sub]
  | _ => false

/-- A routine of simple items that turns one stack into another. -/
structure Runs (params : Params) (routine : List AssemblyItem) (s s' : List Word) : Prop where
  simple : ∀ i ∈ routine, isSimple i = true
  run : routine.foldlM (checkItem params) s = some s'

/-- The routine leaves the number on the stack. -/
def Leaves (params : Params) (w : Word) (routine : List AssemblyItem) : Prop :=
  ∀ s, Runs params routine s (w :: s)

section

variable {params : Params} {r r' : List AssemblyItem} {s s' s'' : List Word} {v w : Word}

namespace Runs

lemma nil (s : List Word) : Runs params [] s s := ⟨nofun, rfl⟩

lemma append (h : Runs params r s s') (h' : Runs params r' s' s'') :
    Runs params (r ++ r') s s'' := by
  constructor
  · intro i hi
    rcases mem_append.mp hi with hi | hi
    · exact h.simple i hi
    · exact h'.simple i hi
  · rw [foldlM_append, h.run]
    exact h'.run

lemma push (w : Word) (s : List Word) : Runs params [.push w] s (w :: s) := by
  constructor
  · simp [isSimple]
  · rfl

lemma operation {i : Instruction} (hi : isSimple (.operation i))
    (h : checkInstruction params i s = some s') : Runs params [.operation i] s s' := by
  constructor
  · simpa using hi
  · show (checkInstruction params i s >>= fun s => some s) = _
    rw [h]
    rfl

end Runs

namespace Leaves

lemma push (w : Word) : Leaves params w [.push w] := Runs.push w

lemma not (h : Leaves params (~~~w) r) : Leaves params w (r ++ [.operation .not]) := by
  intro s
  refine (h s).append (.operation rfl ?_)
  rw [checkInstruction, BitVec.not_not]

end Leaves

lemma runGas_isSome_of_isSimple {i : Instruction} (hi : isSimple (.operation i))
    (hexp : i ≠ .exp) : (GasMeter.runGas i).isSome := by
  cases i with
  | exp => exact absurd rfl hexp
  | not | shl | mul | add | sub => rfl
  | _ => simp [isSimple] at hi

lemma simpleRunGas_isSome (h : ∀ i ∈ r, isSimple i) :
    (simpleRunGas r).isSome := by
  induction r with
  | nil => rfl
  | cons i r ih =>
    have hi := h i mem_cons_self
    obtain ⟨gas, hgas⟩ := Option.isSome_iff_exists.mp
      (ih fun j hj => h j (mem_cons_of_mem _ hj))
    cases i with
    | push w =>
      rw [simpleRunGas, hgas]
      rfl
    | operation i =>
      by_cases hexp : i = .exp
      · subst hexp
        rw [simpleRunGas, hgas]
        rfl
      · obtain ⟨g, hg⟩ := Option.isSome_iff_exists.mp (runGas_isSome_of_isSimple hi hexp)
        rw [simpleRunGas, hg, hgas]
        · rfl
        · exact hexp
    | _ => cases hi

lemma bytesRequired_isSome (h : ∀ i ∈ r, isSimple i) :
    (ConstantOptimisationMethod.bytesRequired r).isSome := by
  induction r with
  | nil => rfl
  | cons i r ih =>
    have hi := h i mem_cons_self
    obtain ⟨n, hn⟩ := Option.isSome_iff_exists.mp
      (ih fun j hj => h j (mem_cons_of_mem _ hj))
    rw [ConstantOptimisationMethod.bytesRequired, hn]
    cases i with
    | push | operation => rfl
    | _ => cases hi

lemma gasNeeded_eq_some (params : Params) (h : ∀ i ∈ r, isSimple i) :
    ∃ gas, gasNeeded params r = some gas := by
  obtain ⟨gas, hgas⟩ := Option.isSome_iff_exists.mp (simpleRunGas_isSome h)
  obtain ⟨n, hn⟩ := Option.isSome_iff_exists.mp (bytesRequired_isSome h)
  simp [gasNeeded, hgas, hn]

/-! ### The search -/

/-- A search that does not fail and finds a routine for the number. -/
abbrev Finds (params : Params) (w : Word) (m : Search (List AssemblyItem)) : Prop :=
  Establishes (fun _ => True) m (Leaves params w)

variable {value : Word} {d : Decomposition} {bits : ℕ}
  {find : ∀ w : Word, w < value → Search (List AssemblyItem)}
  {action : Search (List AssemblyItem)}

lemma toNat_ofNat_of_le {n : ℕ} (h : n ≤ 255) : (BitVec.ofNat 256 n).toNat = n := by
  rw [toNat_ofNat, Nat.mod_eq_of_lt (by omega)]

lemma ofNat_le_of_le {n : ℕ} (h : n ≤ 255) : BitVec.ofNat 256 n ≤ 255 := by
  rw [le_def, toNat_ofNat_of_le h]
  exact h

lemma lowerRoutine_finds (haction : Finds params d.lowerWord action) :
    Establishes (fun _ => True) (lowerRoutine d.lowerPart action) fun r =>
      ∀ s, Runs params r s (if d.lowerPart ≠ 0 then d.lowerWord :: s else s) := by
  rw [lowerRoutine]
  split_ifs with hlower
  · exact haction.mono fun r hr => hr
  · exact .pure Runs.nil

lemma multiplyRoutine_finds (v : Word) (haction : Finds params w action) :
    Establishes (fun _ => True) (multiplyRoutine w action) fun r =>
      ∀ s, Runs params r (v :: s) (w * v :: s) := by
  rw [multiplyRoutine]
  split_ifs with hone
  · refine haction.bind fun r hr => .pure fun s => ?_
    exact (hr (v :: s)).append (.operation rfl rfl)
  · obtain rfl := not_not.mp hone
    refine .pure fun s => ?_
    rw [show (1 : Word) * v = v from one_mul v]
    exact .nil _

lemma upperRoutine_finds (hbits : bits ≤ 255) (haction : Finds params w action) :
    Finds params (w <<< bits) (upperRoutine params bits w action) := by
  rw [upperRoutine]
  split_ifs with hshift
  · refine haction.bind fun r hr => .pure fun s => ?_
    refine (hr s).append ((Runs.push _ _).append (r := [_]) (.operation rfl ?_))
    rw [checkInstruction, if_pos ⟨hshift, ofNat_le_of_le hbits⟩, toNat_ofNat_of_le hbits]
  · refine (multiplyRoutine_finds (.ofNat 256 (2 ^ bits)) haction).bind fun r hr => .pure fun s => ?_
    rw [← mul_ofNat_two_pow]
    refine Runs.append (r := [_, _, _]) ?_ (hr s)
    refine (Runs.push _ _).append (r := [_]) ((Runs.push _ _).append (r := [_]) (.operation rfl ?_))
    rw [checkInstruction, if_neg (BitVec.not_lt.mpr (ofNat_le_of_le hbits)), toNat_ofNat_of_le hbits]
    rfl

lemma combineRoutine_runs (s : List Word) :
    Runs params (combineRoutine d.lowerPart)
      (w :: if d.lowerPart ≠ 0 then d.lowerWord :: s else s) (d.combine w :: s) := by
  rw [combineRoutine, Decomposition.combine]
  rcases lt_trichotomy d.lowerPart 0 with hneg | hzero | hpos
  · rw [if_neg hneg.not_gt, if_pos hneg, if_pos hneg.ne, if_neg hneg.not_gt, if_pos hneg]
    exact .operation rfl rfl
  · rw [hzero]
    exact .nil _
  · rw [if_pos hpos, if_pos hpos.ne', if_pos hpos]
    exact .operation rfl rfl

lemma tryDecomposition_establishes (hfind : ∀ w h, Finds params w (find w h)) (bits : ℕ)
    {best : Candidate} (hbest : Leaves params value best.routine) :
    Establishes (fun _ => True) (tryDecomposition params value find bits best)
      fun best => Leaves params value best.routine := by
  unfold tryDecomposition
  split
  · exact .pure hbest
  · rename_i d h
    refine (lowerRoutine_finds (hfind _ _)).bind fun lower hlower => ?_
    refine (upperRoutine_finds (bits_of_decompose h).2 (hfind _ _)).bind fun upper hupper => ?_
    have hnew : Leaves params value (lower ++ upper ++ combineRoutine d.lowerPart) := by
      intro s
      rw [← combine_upperPart h]
      exact ((hlower s).append (hupper _)).append (combineRoutine_runs s)
    obtain ⟨gas, hgas⟩ := gasNeeded_eq_some params (hnew []).simple
    refine Establishes.bind (.modify fun _ _ => trivial) fun _ _ => ?_
    refine (Establishes.lift (p := (· = gas)) hgas rfl).bind fun newGas _ => ?_
    refine .pure ?_
    split_ifs
    · exact hnew
    · exact hbest

lemma tryDecompositions_establishes (hfind : ∀ w h, Finds params w (find w h)) (n : ℕ)
    {best : Candidate} (hbest : Leaves params value best.routine) :
    Establishes (fun _ => True) (tryDecompositions params value find n best)
      fun best => Leaves params value best.routine := by
  induction n generalizing best with
  | zero => exact .pure hbest
  | succ n ih =>
    intro maxSteps hs
    by_cases hstop : maxSteps = 0
    · refine ⟨best, maxSteps, ?_, hs, hbest⟩
      exact (congrFun (if_pos hstop) maxSteps :)
    · obtain ⟨best', maxSteps', hrun, hs', hbest'⟩ :=
        ((tryDecomposition_establishes hfind (n + 9) hbest).bind fun _ h => ih h) maxSteps hs
      refine ⟨best', maxSteps', ?_, hs', hbest'⟩
      rw [← hrun]
      exact (congrFun (if_neg hstop) maxSteps :)

lemma searchRepresentation_finds (hfind : ∀ w h, Finds params w (find w h)) :
    Finds params value (searchRepresentation params value find) := by
  rw [searchRepresentation]
  split_ifs with hsmall hnot
  · exact .pure (.push value)
  · exact (hfind _ _).bind fun r hr => .pure hr.not
  · have hpush : Leaves params value [.push value] := .push value
    obtain ⟨gas, hgas⟩ := gasNeeded_eq_some params (hpush []).simple
    refine (Establishes.lift (p := (· = gas)) hgas rfl).bind fun gas _ => ?_
    have hliteral : Leaves params value (Candidate.routine ⟨[.push value], gas⟩) := hpush
    exact (tryDecompositions_establishes hfind 247 hliteral).bind fun best hbest => .pure hbest

variable (params value) in
lemma findRepresentation_finds : Finds params value (findRepresentation params value) := by
  induction hn : value.toNat using Nat.strong_induction_on generalizing value with
  | _ n ih =>
    rw [findRepresentation]
    exact searchRepresentation_finds fun w h => ih w.toNat (hn ▸ h) w rfl

lemma create_eq_some (params : Params) (value : Word) :
    ∃ routine, create params value = some routine ∧ Leaves params value routine := by
  obtain ⟨routine, maxSteps, hrun, -, hroutine⟩ :=
    findRepresentation_finds params value 10000 trivial
  have hcheck : checkRepresentation params value routine = true :=
    decide_eq_true (hroutine []).run
  refine ⟨routine, ?_, hroutine⟩
  rw [create, hrun]
  exact if_pos hcheck

end

end ComputeMethod

end Sof
