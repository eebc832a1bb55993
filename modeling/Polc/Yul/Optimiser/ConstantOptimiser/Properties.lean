import Polc.Yul.Optimiser.ConstantOptimiser

/-!
# Representations have the value of the constant

The interpreter that checks results agrees with the machine. The search keeps the invariant that
every remembered representation has the value it is remembered for; with it the assertion never
fails.
-/

namespace Yul

open Sof Semantics Langutil ConstantOptimiser BitVec Option Result

/-! ### The interpreter that checks results -/

namespace MiniSVMInterpreter

lemma exp256From_eq (result base exponent : Word) :
    exp256From result base exponent = result * base ^ exponent.toNat := by
  induction result, base, exponent using exp256From.induct with
  | case1 result base =>
    rw [exp256From, if_pos rfl]
    exact (mul_one result).symm
  | case2 result base exponent hzero ih =>
    simp only [dite_eq_ite] at ih
    have hbit : exponent.getLsbD 0 = decide (exponent.toNat % 2 = 1) := by
      rw [BitVec.getLsbD, Nat.testBit_zero]
    rw [exp256From, if_neg hzero, ih, toNat_shiftRight, hbit, ← pow_two, ← pow_mul,
      pow_one]
    have hsplit := Nat.div_add_mod exponent.toNat 2
    rcases Nat.mod_two_eq_zero_or_one exponent.toNat with hmod | hmod
    · rw [hmod, add_zero] at hsplit
      rw [hsplit, hmod, if_neg (by decide)]
    · rw [hmod] at hsplit
      rw [if_pos (decide_eq_true hmod), mul_assoc, ← pow_succ', hsplit]

lemma ofNat_pow (n k : ℕ) : BitVec.ofNat 256 (n ^ k) = BitVec.ofNat 256 n ^ k := by
  induction k with
  | zero => rfl
  | succ k ih => rw [pow_succ, ofNat_mul, ih, pow_succ]

lemma exp256_eq (base exponent : Word) :
    exp256 base exponent = .ofNat 256 (base.toNat ^ exponent.toNat) := by
  rw [exp256, exp256From_eq, ofNat_pow, ofNat_toNat, setWidth_eq]
  exact one_mul _

lemma arithmetic_of_evalInstruction {i : Instruction} {args : List Word} {w : Word}
    (h : evalInstruction i args = some w) : arithmetic i args = some w := by
  unfold evalInstruction at h
  split at h
  · exact h
  · exact h
  · exact h
  · rw [exp256_eq] at h
    exact h
  · rename_i a b rest
    rw [← h]
    refine congrArg some ?_
    show Word.shl a b = _
    have hiff : 255 < a ↔ 256 ≤ a.toNat := by
      rw [lt_def]
      exact Iff.rfl
    simp only [Word.shl, hiff]
  · exact h
  · cases h

lemma execInstruction_of_evalInstruction {World : Type} {env : Environment World}
    {i : Instruction} {args : List Word} {w : Word} (h : evalInstruction i args = some w)
    (m : SvmState World) : execInstruction env i args m = .ok [w] m := by
  rw [execInstruction, arithmetic_of_evalInstruction h]
  rfl

section

variable {World : Type} {I : Interpreter World} {F : Functions} {V : Variables}

mutual

/-- What the small interpreter evaluates has the same value on the machine. -/
theorem eval_of_miniEval {e : Expression} {w : Word} (h : eval I.dialect e = some w)
    (m : SvmState World) : e.eval I F V m = .ok [w] m := by
  match e with
  | .functionalInstruction i args =>
    obtain ⟨ws, hws, hi⟩ := bind_eq_some_iff.mp h
    rw [Expression.eval, args_of_miniEval hws m, bind_ok]
    exact execInstruction_of_evalInstruction hi m
  | .functionCall f args =>
    obtain ⟨i, hf, hrest⟩ := bind_eq_some_iff.mp h
    obtain ⟨b, hb, hcode⟩ := bind_eq_some_iff.mp hf
    obtain ⟨ws, hws, hi⟩ := bind_eq_some_iff.mp hrest
    rw [Expression.eval, args_of_miniEval hws m, bind_ok, hb]
    obtain ⟨_, _, _, _, _, _, _, code⟩ := b
    cases code with
    | instruction j =>
      cases hcode
      exact execInstruction_of_evalInstruction hi m
    | _ => cases hcode
  | .identifier x => cases h
  | .literal l =>
    have hl : l.word = w := by
      rw [Literal.word]
      exact (congrArg (Option.getD · 0) h :)
    rw [Expression.eval, hl]

theorem args_of_miniEval {es : List Expression} {ws : List Word}
    (h : evalArguments I.dialect es = some ws) (m : SvmState World) :
    evaluateArgs I F V es m = .ok ws m := by
  match es with
  | [] =>
    cases h
    rfl
  | e :: es =>
    obtain ⟨w, he, hrest⟩ := bind_eq_some_iff.mp h
    obtain ⟨ws', hes, rfl⟩ := map_eq_some_iff.mp hrest
    rw [evaluateArgs, args_of_miniEval hes m, bind_ok, eval_of_miniEval he m,
      bind_ok, List.headD_cons]

end

end

end MiniSVMInterpreter

open MiniSVMInterpreter

namespace RepresentationFinder

/-- The representation has the value. -/
def Represents (dialect : SVMDialect) (w : Word) (r : Representation) : Prop :=
  eval dialect.toDialect r.expression = some w

/-- Every remembered representation has the value it is remembered for. -/
def State.Sound (dialect : SVMDialect) (s : State) : Prop :=
  ∀ w r, s.cache[w]? = some r → Represents dialect w r

section

variable {dialect : SVMDialect} (meter : GasMeter) {v w : Word} {r r' : Representation}

lemma represent_represents (w : Word) : Represents dialect w (represent meter w) :=
  valueOfNumberLiteral_formatNumber w

lemma min_represents (h : Represents dialect w r) (h' : Represents dialect w r') :
    Represents dialect w (r.min r') := by
  rw [Representation.min]
  split_ifs
  · exact h
  · exact h'

lemma instructionOf_eq {name : YulString} {i : Instruction}
    (hlookup : Parser.instructions.lookup name = some i)
    (hprovided : dialect.toDialect.providesInstruction i) :
    instructionOf dialect name = some i := by
  rw [instructionOf, Dialect.builtin, hlookup, filter_some, if_pos hprovided]
  rfl

lemma representUnary_represents {name : YulString} {i : Instruction}
    (hname : instructionOf dialect name = some i) (hr : Represents dialect v r)
    (hi : evalInstruction i [v] = some w) :
    ∃ r', representUnary dialect meter name r = some r' ∧ Represents dialect w r' := by
  rw [Represents] at hr
  refine ⟨_, by rw [representUnary, hname, map_some], ?_⟩
  rw [instructionOf] at hname
  simp only [Represents, eval, evalArguments, hname, hr, bind_some, map_some, hi]

lemma representBinary_represents {u : Word} {name : YulString} {i : Instruction}
    (hname : instructionOf dialect name = some i) (hr : Represents dialect u r)
    (hr' : Represents dialect v r') (hi : evalInstruction i [u, v] = some w) :
    ∃ r'', representBinary dialect meter name r r' = some r'' ∧ Represents dialect w r'' := by
  rw [Represents] at hr hr'
  refine ⟨_, by rw [representBinary, hname, map_some], ?_⟩
  rw [instructionOf] at hname
  simp only [Represents, eval, evalArguments, hname, hr, hr', bind_some, map_some, hi]

end

/-! ### The search -/

section

variable {dialect : SVMDialect} {meter : GasMeter} {value w : Word} {r : Representation}
  {find : ∀ w : Word, w < value → Search Representation} {action : Search Representation}

/-- A search finds a representation of `w`, and what it remembers is sound. -/
abbrev Finds (dialect : SVMDialect) (w : Word) (m : Search Representation) : Prop :=
  Establishes (State.Sound dialect) m (Represents dialect w)

lemma tryNegation_finds (hfind : ∀ w h, Finds dialect w (find w h))
    (hr : Represents dialect value r) :
    Finds dialect value (tryNegation dialect meter value find r) := by
  rw [tryNegation]
  split_ifs with h
  · refine (hfind _ _).bind fun negation hnegation => ?_
    have hnot : instructionOf dialect "not" = some .not := instructionOf_eq (by decide) rfl
    obtain ⟨r', hr', hvalue⟩ := representUnary_represents meter hnot hnegation
      (show _ = some value by rw [evalInstruction, BitVec.not_not])
    exact (Establishes.lift hr' hvalue).bind fun r' hr' => .pure (min_represents hr hr')
  · exact .pure hr

lemma exp256_two {bits : ℕ} (h : bits ≤ 255) :
    exp256 2 (.ofNat 256 bits) = .ofNat 256 (2 ^ bits) := by
  rw [exp256_eq, toNat_ofNat, Nat.mod_eq_of_lt (by omega)]
  rfl

lemma multiplied_finds {power : Representation} {bits : ℕ} (haction : Finds dialect w action)
    (hpower : Represents dialect (.ofNat 256 (2 ^ bits)) power) :
    Finds dialect (w <<< bits) (multiplied dialect meter w action power) := by
  rw [multiplied]
  split_ifs with hone
  · refine haction.bind fun upper hupper => ?_
    have hmul : instructionOf dialect "mul" = some .mul := instructionOf_eq (by decide) rfl
    obtain ⟨r', hr', hvalue⟩ := representBinary_represents meter hmul hupper hpower
      (congrArg some (mul_ofNat_two_pow w bits))
    exact .lift hr' hvalue
  · obtain rfl := not_not.mp hone
    rw [← mul_ofNat_two_pow, show (1 : Word) * _ = _ from one_mul _]
    exact .pure hpower

lemma shifted_finds {bits : ℕ} (hbits : bits ≤ 255) (haction : Finds dialect w action) :
    Finds dialect (w <<< bits) (shifted dialect meter bits w action) := by
  rw [shifted]
  split_ifs with hshift
  · refine haction.bind fun upper hupper => ?_
    have hshl : instructionOf dialect "shl" = some .shl := by
      refine instructionOf_eq (by decide) ?_
      exact hshift
    have hvalue : evalInstruction .shl [.ofNat 256 bits, w] = some (w <<< bits) := by
      have htoNat : (BitVec.ofNat 256 bits).toNat = bits := by
        rw [toNat_ofNat, Nat.mod_eq_of_lt (by omega)]
      have hle : ¬ 255 < BitVec.ofNat 256 bits := by
        rw [lt_def, htoNat]
        exact not_lt.mpr hbits
      rw [evalInstruction, if_neg hle, htoNat]
    obtain ⟨r', hr', hvalue⟩ := representBinary_represents meter hshl
      (represent_represents meter _) hupper hvalue
    exact .lift hr' hvalue
  · have hexp : instructionOf dialect "exp" = some .exp := instructionOf_eq (by decide) rfl
    obtain ⟨power, hpower, hvalue⟩ := representBinary_represents meter hexp
      (represent_represents meter 2) (represent_represents meter _)
      (congrArg some (exp256_two hbits))
    exact (Establishes.lift hpower hvalue).bind fun power hpower => multiplied_finds haction hpower

lemma withLowerPart_finds {d : Decomposition} (haction : Finds dialect d.lowerWord action)
    (hr : Represents dialect w r) :
    Finds dialect (d.combine w) (withLowerPart dialect meter d.lowerPart action r) := by
  rw [withLowerPart, Decomposition.combine]
  split_ifs with hpos hneg
  · refine haction.bind fun lower hlower => ?_
    have hadd : instructionOf dialect "add" = some .add := instructionOf_eq (by decide) rfl
    obtain ⟨r', hr', hvalue⟩ := representBinary_represents meter hadd hr hlower rfl
    exact .lift hr' hvalue
  · refine haction.bind fun lower hlower => ?_
    have hsub : instructionOf dialect "sub" = some .sub := instructionOf_eq (by decide) rfl
    obtain ⟨r', hr', hvalue⟩ := representBinary_represents meter hsub hr hlower rfl
    exact .lift hr' hvalue
  · exact .pure hr

lemma complete_finds {d : Decomposition} {newRoutine : Representation}
    (haction : Finds dialect d.lowerWord action) (hr : Represents dialect (d.combine w) r)
    (hnew : Represents dialect w newRoutine) :
    Finds dialect (d.combine w) (complete dialect meter d.lowerPart action r newRoutine) := by
  rw [complete]
  split_ifs with hcost
  · exact .pure hr
  · refine (withLowerPart_finds haction hnew).bind fun r' hr' => ?_
    refine Establishes.bind (.modify fun s hs => hs) fun _ _ => ?_
    exact .pure (min_represents hr hr')

lemma tryDecomposition_finds (hfind : ∀ w h, Finds dialect w (find w h)) (bits : ℕ)
    (hr : Represents dialect value r) :
    Finds dialect value (tryDecomposition dialect meter value find bits r) := by
  unfold tryDecomposition
  split
  · exact .pure hr
  · rename_i d h
    have hvalue := combine_upperPart h
    refine (shifted_finds (bits_of_decompose h).2 (hfind _ _)).bind fun newRoutine hnew => ?_
    rw [← hvalue] at hr
    exact (complete_finds (hfind _ _) hr hnew).mono fun r' hr' => hvalue ▸ hr'

lemma tryDecompositions_finds (hfind : ∀ w h, Finds dialect w (find w h)) (n : ℕ)
    (hr : Represents dialect value r) :
    Finds dialect value (tryDecompositions dialect meter value find n r) := by
  induction n generalizing r with
  | zero => exact .pure hr
  | succ n ih =>
    intro s hs
    by_cases hstop : s.maxSteps = 0
    · refine ⟨r, s, ?_, hs, hr⟩
      exact (congrFun (if_pos hstop) s :)
    · obtain ⟨r', s', hrun, hs', hr'⟩ :=
        ((tryDecomposition_finds hfind (n + 9) hr).bind fun r' hr' => ih hr') s hs
      refine ⟨r', s', ?_, hs', hr'⟩
      rw [← hrun]
      exact (congrFun (if_neg hstop) s :)

lemma State.Sound.insert {s : State} (hs : s.Sound dialect) (hr : Represents dialect value r) :
    State.Sound dialect { s with cache := s.cache.insert value r } := by
  intro w r' hr'
  rw [Std.TreeMap.getElem?_insert] at hr'
  split_ifs at hr' with heq
  · cases hr'
    cases Std.LawfulEqCmp.eq_of_compare heq
    exact hr
  · exact hs w r' hr'

lemma store_finds (hr : Represents dialect value r) :
    Finds dialect value (store dialect value r) := by
  rw [Represents] at hr
  rw [store, if_pos hr]
  exact Establishes.bind (.modify fun s hs => hs.insert hr) fun _ _ => .pure hr

lemma searchRepresentation_finds (hfind : ∀ w h, Finds dialect w (find w h)) :
    Finds dialect value (searchRepresentation dialect meter value find) := by
  refine (tryNegation_finds hfind (represent_represents meter value)).bind fun r hr => ?_
  exact (tryDecompositions_finds hfind 247 hr).bind fun r hr => store_finds hr

variable (dialect meter) in
/-- The search ends without a failed assertion, and finds a representation of the number. -/
lemma findRepresentation_finds (value : Word) :
    Finds dialect value (findRepresentation dialect meter value) := by
  induction hn : value.toNat using Nat.strong_induction_on generalizing value with
  | _ n ih =>
    have hfind (w : Word) (h : w < value) : Finds dialect w (findRepresentation dialect meter w) :=
      ih w.toNat (hn ▸ h) w rfl
    intro s hs
    rw [findRepresentation]
    split
    · rename_i r hr
      exact ⟨r, s, rfl, hs, hs value r hr⟩
    · exact searchRepresentation_finds hfind s hs

lemma sound_empty (maxSteps : ℕ) : State.Sound dialect ⟨maxSteps, ∅⟩ := by
  intro w r hr
  rw [Std.TreeMap.getElem?_emptyc] at hr
  cases hr

end

/-- For every cost meter and every cache that earlier searches can have left, the search ends and
its result has exactly the value of the number, for the check and on the machine. -/
theorem findRepresentation_evaluates (dialect : SVMDialect) (meter : GasMeter) (value : Word)
    (s : State) (hcache : s.Sound dialect) :
    ∃ r s', findRepresentation dialect meter value s = some (r, s') ∧ s'.Sound dialect ∧
      eval dialect.toDialect r.expression = some value ∧
      ∀ {World : Type} (I : Interpreter World) (F : Functions) (V : Variables)
        (m : SvmState World), I.dialect = dialect.toDialect →
          r.expression.eval I F V m = .ok [value] m := by
  obtain ⟨r, s', hrun, hsound, hr⟩ := findRepresentation_finds dialect meter value s hcache
  refine ⟨r, s', hrun, hsound, hr, ?_⟩
  intro World I F V m hdialect
  rw [Represents, ← hdialect] at hr
  exact eval_of_miniEval hr m

/-- A search for a power of two with an empty cache. -/
theorem findRepresentation_evaluates_powerOfTwo :
    let dialect : SVMDialect := ⟨.strict, true, .byzantium⟩
    ∃ r s', findRepresentation dialect ⟨fun _ => 200, fun _ => 3⟩ (1 <<< 200) {} = some (r, s') ∧
      s'.Sound dialect ∧ eval dialect.toDialect r.expression = some (1 <<< 200) ∧
      ∀ {World : Type} (I : Interpreter World) (F : Functions) (V : Variables)
        (m : SvmState World), I.dialect = dialect.toDialect →
          r.expression.eval I F V m = .ok [1 <<< 200] m :=
  findRepresentation_evaluates _ _ _ _ (sound_empty _)

end RepresentationFinder

end Yul
