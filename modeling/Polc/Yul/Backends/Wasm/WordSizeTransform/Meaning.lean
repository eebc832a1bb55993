import Polc.Yul.Backends.Wasm.WordSizeTransform

/-!
# The word size transform keeps the meaning of programs

The new program runs on a machine with words of 64 bits, whose builtin functions work on the parts
of the arguments and results. After every statement the new variables have the parts of the value of
the old one.
-/

namespace Yul

open Sof Semantics List Statement Evaluator
open Option (bind_eq_some_iff map_eq_some_iff)

@[simp] lemma splitWord_zero : splitWord 0 = [0, 0, 0, 0] := by decide

lemma joinWords_splitWord (w : Word) :
    joinWords (w.extractLsb' 192 64) (w.extractLsb' 128 64) (w.extractLsb' 64 64)
      (w.extractLsb' 0 64) = w := by
  apply BitVec.eq_of_toNat_eq
  have hw := w.isLt
  simp only [joinWords, BitVec.extractLsb'_toNat, BitVec.toNat_ofNat, Nat.shiftRight_eq_div_pow]
  omega

/-- The words with the given parts. -/
def joinParts : List Word64 → List Word
  | a :: b :: c :: d :: vs => joinWords a b c d :: joinParts vs
  | _ => []

/-- The parts of the words, one word after the other. -/
def splitWords (vs : List Word) : List Word64 := vs.flatMap splitWord

@[simp] lemma splitWords_nil : splitWords [] = [] := rfl

lemma splitWords_cons (v : Word) (vs : List Word) :
    splitWords (v :: vs) = splitWord v ++ splitWords vs := rfl

lemma joinParts_splitWords (vs : List Word) : joinParts (splitWords vs) = vs := by
  induction vs with
  | nil => rfl
  | cons v vs ih =>
    rw [splitWords_cons, splitWord, cons_append, cons_append, cons_append,
      cons_append, nil_append, joinParts, joinWords_splitWord, ih]

lemma any_splitWord (w : Word) : (splitWord w).any (· ≠ 0) = decide (w ≠ 0) := by
  by_cases hw : w = 0
  · subst hw
    decide
  · have hany : ∃ v ∈ splitWord w, v ≠ 0 := by
      by_contra hnone
      push Not at hnone
      have hjoin := joinWords_splitWord w
      simp only [splitWord, mem_cons, not_mem_nil, or_false, forall_eq_or_imp,
        forall_eq] at hnone
      obtain ⟨ha, hb, hc, hd⟩ := hnone
      rw [ha, hb, hc, hd] at hjoin
      exact hw hjoin.symm
    rw [decide_eq_true hw, any_eq_true]
    simpa only [decide_eq_true_eq] using hany

/-- The logical disjunction of the parts. -/
def orBool {η σ : Type} (vs : List Word64) (m : σ) : Result η σ (List Word64) :=
  .ok [if vs.any (· ≠ 0) then 1 else 0] m

/-- The machine whose builtin functions work on parts. -/
def Machine.wide {η σ : Type} (M : Machine η σ Word) : Machine η σ Word64 where
  literal l := l.word.setWidth 64
  isTrue v := v ≠ 0
  instruction i vs m := (M.instruction i (joinParts vs) m).map splitWords
  builtin f :=
    if f = "or_bool" then some orBool
    else (M.builtin f).map fun b vs m => (b (joinParts vs) m).map splitWords
  invalid := M.invalid

/-- The machine has the builtin functions of the dialect, and words have their usual meaning. -/
structure Machine.Implements {η σ : Type} (M : Machine η σ Word) (dialect : Dialect) : Prop where
  literal : ∀ l, M.literal l = l.word
  isTrue : ∀ w, M.isTrue w = decide (w ≠ 0)
  builtin : ∀ f, (M.builtin f).isSome = (dialect.builtin f).isSome

lemma valueOfNumberLiteral_formatDecimal (n : Nat) :
    valueOfNumberLiteral (formatDecimal n) = some (.ofNat 256 n) := by
  unfold formatDecimal
  split_ifs with hn
  · subst hn
    rfl
  · have hvalid := isValidDecimal_writeDigits hn
    simp only [valueOfNumberLiteral, String.toList_ofList, hvalid, Bool.true_or, if_true]
    rw [u256OfString_of_isValidDecimal hvalid, readDigits_writeDigits (by decide) (by decide)]

lemma word_formatDecimal (v : Word64) :
    (Literal.mk .number (formatDecimal v.toNat) "u64").word.setWidth 64 = v := by
  have hword : (Literal.mk .number (formatDecimal v.toNat) "u64").word = .ofNat 256 v.toNat := by
    rw [Literal.word, valueOfLiteral, valueOfNumberLiteral_formatDecimal]
    rfl
  apply BitVec.eq_of_toNat_eq
  have hv := v.isLt
  rw [hword, BitVec.toNat_setWidth, BitVec.toNat_ofNat]
  omega

namespace WordSizeTransform

/-! ### Values of the new variables -/

/-- New names come in fours and are distinct. -/
structure Mapping.Proper (μ : Mapping) : Prop where
  length : ∀ x xs, μ x = some xs → xs.length = 4
  nodup : ∀ x xs, μ x = some xs → xs.Nodup
  disjoint : ∀ x xs y ys z, μ x = some xs → μ y = some ys → z ∈ xs → z ∈ ys → x = y

/-- The values of the new variables for a variable. -/
def partsOf : Option Word → List (Option Word64)
  | some w => (splitWord w).map some
  | none => List.replicate 4 none

/-- The new variables have the parts of the values of the old ones. -/
def Holds (μ : Mapping) (V : Valuation Word) (V' : Valuation Word64) : Prop :=
  ∀ x xs, μ x = some xs → xs.map V' = partsOf (V x)

section

variable {μ : Mapping} {V W : Valuation Word} {V' W' : Valuation Word64} {x : YulString}
  {xs : List YulString}

lemma Holds.empty (hμ : μ.Proper) : Holds μ (fun _ => none) (fun _ => none) := by
  intro x xs hx
  rw [map_const', hμ.length x xs hx]
  rfl

lemma Holds.getD (hV : Holds μ V V') (hx : μ x = some xs) :
    xs.map (fun y => (V' y).getD 0) = splitWord ((V x).getD 0) := by
  have hmap : xs.map (fun y => (V' y).getD 0) = (xs.map V').map (·.getD 0) := by
    rw [map_map]
    rfl
  rw [hmap, hV x xs hx]
  cases V x with
  | none => exact splitWord_zero.symm
  | some w => rfl

lemma Holds.set (hμ : μ.Proper) (hV : Holds μ V V') (hx : μ x = some xs) (w : Word) :
    Holds μ (V.set x w) (V'.assign xs (splitWord w)) := by
  intro y ys hy
  by_cases hyx : y = x
  · subst hyx
    obtain rfl := Option.some.inj (hx.symm.trans hy)
    have hlength : xs.length = (splitWord w).length := hμ.length y xs hx
    rw [Valuation.map_assign (hμ.nodup y xs hx) hlength, Valuation.set, if_pos rfl]
    rfl
  · have hmap : ys.map (V'.assign xs (splitWord w)) = ys.map V' := by
      refine map_congr_left fun z hz => Valuation.assign_of_notMem fun hz' => ?_
      exact hyx (hμ.disjoint y ys x xs z hy hx hz hz')
    rw [hmap, hV y ys hy, Valuation.set, if_neg hyx]

lemma Holds.assign (hμ : μ.Proper) (hV : Holds μ V V') {zs : List YulString} (vs : List Word)
    (h : rewriteIdentifierList μ xs = some zs) :
    Holds μ (V.assign xs vs) (V'.assign zs (splitWords vs)) := by
  induction xs generalizing V V' vs zs with
  | nil =>
    obtain rfl := Option.some.inj h
    exact hV
  | cons x xs ih =>
    obtain ⟨ys, hx, h⟩ := bind_eq_some_iff.mp h
    obtain ⟨zs, hxs, rfl⟩ := map_eq_some_iff.mp h
    have hlength := hμ.length x ys hx
    rw [Valuation.assign]
    cases vs with
    | nil =>
      rw [splitWords_nil, Valuation.assign_append_nil, Valuation.assign_nil ys, hlength]
      have hzero : List.replicate 4 (0 : Word64) = splitWord 0 := splitWord_zero.symm
      rw [hzero]
      exact ih (hV.set hμ hx 0) [] hxs
    | cons v vs =>
      have hlength' : ys.length = (splitWord v).length := hlength
      rw [splitWords_cons, Valuation.assign_append hlength']
      exact ih (hV.set hμ hx v) vs hxs

lemma Holds.restrict (hV : Holds μ V V') (hW : Holds μ W W') :
    Holds μ (V.restrict W) (V'.restrict W') := by
  intro x xs hx
  have hVx := hV x xs hx
  have hWx := hW x xs hx
  unfold Valuation.restrict
  cases hv : V x with
  | none =>
    rw [hv] at hVx
    have hnone : ∀ y ∈ xs, V' y = none := by
      intro y hy
      have hmem : V' y ∈ xs.map V' := mem_map_of_mem hy
      rw [hVx] at hmem
      exact eq_of_mem_replicate hmem
    have hlength := congrArg List.length hVx
    rw [length_map] at hlength
    rw [map_congr_left (g := fun _ => none) fun y hy => by rw [hnone y hy]; rfl,
      map_const', hlength]
    rfl
  | some v =>
    rw [hv] at hVx
    have hsome : ∀ y ∈ xs, (V' y).isSome = true := by
      intro y hy
      have hmem : V' y ∈ xs.map V' := mem_map_of_mem hy
      rw [hVx] at hmem
      obtain ⟨u, -, hu⟩ := mem_map.mp hmem
      rw [← hu]
      rfl
    rw [map_congr_left fun y hy => if_pos (hsome y hy), hWx]
    rfl

end

/-! ### Expressions -/

/-- The machine of the program afterwards, with functions that it makes of those of the program. -/
structure Widens {η σ : Type} (dialect : Dialect)
    (D : FunctionDefinition → FunctionDefinition → Prop) (I : Evaluator η σ Word)
    (I' : Evaluator η σ Word64) : Prop where
  implements : I.machine.Implements dialect
  machine : I'.machine = I.machine.wide
  fuel : I'.fuel = I.fuel
  call : ∀ F F', F.Rel D F' → ∀ f vs m,
    I'.call F' f (splitWords vs) m = (I.call F f vs m).map splitWords

/-- The value of an elementary expression. -/
def valueOf {η σ α : Type} [Zero α] (M : Machine η σ α) (V : Valuation α) : Expression → α
  | .identifier x => (V x).getD 0
  | .literal l => M.literal l
  | _ => 0

section

variable {η σ α : Type} [Zero α] {I : Evaluator η σ α} {F : Functions} {V : Valuation α}
  {e : Expression} {es : List Expression} {m : σ}

lemma eval_of_isElementary (h : e.isElementary) :
    I.eval F V e m = .ok [valueOf I.machine V e] m := by
  cases e with
  | identifier x => rfl
  | literal l => rfl
  | _ => cases h

lemma args_of_isElementary (h : ∀ e ∈ es, e.isElementary) :
    I.evaluateArgs F V es m = .ok (es.map (valueOf I.machine V)) m := by
  induction es with
  | nil => rfl
  | cons e es ih =>
    rw [Evaluator.args_cons, ih fun e he => h e (mem_cons_of_mem _ he),
      Result.bind_ok, eval_of_isElementary (h e mem_cons_self)]
    rfl

end

section

variable {η σ : Type} {dialect : Dialect} {D : FunctionDefinition → FunctionDefinition → Prop}
  {μ : Mapping} {I : Evaluator η σ Word} {I' : Evaluator η σ Word64} {F F' : Functions}
  {V : Valuation Word} {V' : Valuation Word64} {e e' : Expression} {es es' : List Expression}
  {m : σ}

lemma expandValue_elementary (h : expandValue μ e = some es) :
    e.isElementary ∧ ∀ e' ∈ es, e'.isElementary := by
  cases e with
  | identifier x =>
    obtain ⟨xs, -, rfl⟩ := map_eq_some_iff.mp h
    refine ⟨rfl, fun e' he' => ?_⟩
    obtain ⟨y, -, rfl⟩ := mem_map.mp he'
    rfl
  | literal l =>
    obtain ⟨w, -, rfl⟩ := map_eq_some_iff.mp h
    refine ⟨rfl, fun e' he' => ?_⟩
    obtain ⟨y, -, rfl⟩ := mem_map.mp he'
    rfl
  | _ => cases h

lemma valueOf_expandValue {M : Machine η σ Word} (hM : M.Implements dialect) (hV : Holds μ V V')
    (h : expandValue μ e = some es) :
    es.map (valueOf M.wide V') = splitWord (valueOf M V e) := by
  cases e with
  | identifier x =>
    obtain ⟨xs, hx, rfl⟩ := map_eq_some_iff.mp h
    rw [map_map]
    exact hV.getD hx
  | literal l =>
    obtain ⟨w, hw, rfl⟩ := map_eq_some_iff.mp h
    have hl : valueOf M V (.literal l) = w := by
      rw [valueOf, hM.literal, Literal.word, hw]
      rfl
    rw [hl, map_map]
    refine (map_congr_left fun v _ => ?_).trans (map_id _)
    exact word_formatDecimal v
  | _ => cases h

lemma rewriteArguments_elementary (h : rewriteFunctionCallArguments μ es = some es') :
    (∀ e ∈ es, e.isElementary) ∧ ∀ e ∈ es', e.isElementary := by
  induction es generalizing es' with
  | nil =>
    cases h
    exact ⟨nofun, nofun⟩
  | cons e es ih =>
    obtain ⟨us, he, h⟩ := bind_eq_some_iff.mp h
    obtain ⟨us', hes, rfl⟩ := map_eq_some_iff.mp h
    obtain ⟨he, hus⟩ := expandValue_elementary he
    obtain ⟨hes, hus'⟩ := ih hes
    exact ⟨forall_mem_cons.mpr ⟨he, hes⟩, forall_mem_append.mpr ⟨hus, hus'⟩⟩

lemma valueOf_rewriteArguments {M : Machine η σ Word} (hM : M.Implements dialect)
    (hV : Holds μ V V') (h : rewriteFunctionCallArguments μ es = some es') :
    es'.map (valueOf M.wide V') = splitWords (es.map (valueOf M V)) := by
  induction es generalizing es' with
  | nil =>
    cases h
    rfl
  | cons e es ih =>
    obtain ⟨us, he, h⟩ := bind_eq_some_iff.mp h
    obtain ⟨us', hes, rfl⟩ := map_eq_some_iff.mp h
    rw [map_append, valueOf_expandValue hM hV he, ih hes, map_cons, splitWords_cons]

lemma eval_visit (hI : Widens dialect D I I') (hF : F.Rel D F') (hV : Holds μ V V')
    (he : e.isElementary = false) (hor : isCallOf "or_bool" e = false)
    (h : visit μ e = some e') : I'.eval F' V' e' m = (I.eval F V e m).map splitWords := by
  cases e with
  | identifier x => cases he
  | literal l => cases he
  | functionalInstruction i es =>
    obtain ⟨es', hes, rfl⟩ := map_eq_some_iff.mp h
    obtain ⟨helementary, helementary'⟩ := rewriteArguments_elementary hes
    rw [eval_instruction, eval_instruction,
      args_of_isElementary helementary, args_of_isElementary helementary',
      Result.bind_ok, Result.bind_ok, hI.machine,
      valueOf_rewriteArguments hI.implements hV hes]
    exact congrArg (fun vs => Result.map splitWords (I.machine.instruction i vs m))
      (joinParts_splitWords _)
  | functionCall f es =>
    obtain ⟨es', hes, rfl⟩ := map_eq_some_iff.mp h
    obtain ⟨helementary, helementary'⟩ := rewriteArguments_elementary hes
    have hf : f ≠ "or_bool" := of_decide_eq_false hor
    have hbuiltin : I'.machine.builtin f = (I.machine.builtin f).map fun b vs m =>
        (b (joinParts vs) m).map splitWords := by
      rw [hI.machine]
      exact if_neg hf
    rw [eval_functionCall, eval_functionCall,
      args_of_isElementary helementary, args_of_isElementary helementary',
      Result.bind_ok, Result.bind_ok, hbuiltin, hI.machine,
      valueOf_rewriteArguments hI.implements hV hes]
    cases I.machine.builtin f with
    | some b => exact congrArg (fun vs => Result.map splitWords (b vs m)) (joinParts_splitWords _)
    | none => exact hI.call F F' hF f _ m

lemma evaluate_widenCondition (F F' : Functions) (m : σ) (hI : Widens dialect D I I')
    (hV : Holds μ V V')
    (h : widenCondition μ e = some e') :
    ∃ v v', I.evaluate F V e m = .ok v m ∧ I'.evaluate F' V' e' m = .ok v' m ∧
      I'.machine.isTrue v' = I.machine.isTrue v := by
  obtain ⟨es, hes, rfl⟩ := map_eq_some_iff.mp h
  obtain ⟨helementary, helementary'⟩ := expandValue_elementary hes
  have hvalue := valueOf_expandValue hI.implements hV hes
  have hbuiltin : I'.machine.builtin "or_bool" = some orBool := by
    rw [hI.machine]
    rfl
  refine ⟨valueOf I.machine V e, if (splitWord (valueOf I.machine V e)).any (· ≠ 0) then 1 else 0,
    ?_, ?_, ?_⟩
  · rw [Evaluator.evaluate, eval_of_isElementary helementary]
    rfl
  · rw [Evaluator.evaluate, eval_functionCall,
      args_of_isElementary helementary', Result.bind_ok, hbuiltin, hI.machine, hvalue]
    rfl
  · rw [any_splitWord, hI.implements.isTrue, hI.machine]
    by_cases hv : valueOf I.machine V e = 0
    · rw [hv]
      rfl
    · rw [decide_eq_true hv]
      rfl

end

/-! ### Statements that handle one part each -/

variable {e e' : Expression} {mk : YulString → Expression → Statement}

section

variable {η σ α : Type} [Zero α] {M : Machine η σ α} {I : Evaluator η σ α} {F : Functions}
  {V : Valuation α} {m : σ} {xs : List YulString} {es : List Expression}

lemma valueOf_set {x : YulString} (h : x ∉ e.referencedVariables) (v : α) :
    valueOf M (V.set x v) e = valueOf M V e := by
  cases e with
  | identifier y =>
    have hxy : y ≠ x := fun hyx => h (hyx ▸ mem_cons_self)
    exact congrArg (Option.getD · 0) (if_neg hxy)
  | _ => rfl

variable [DecidableEq α]

lemma exec_each
    (hmk : ∀ V m x e, I.exec F V (mk x e) m =
      (I.eval F V e m).map fun vs => (.default, V.assign [x] vs))
    (hes : ∀ e ∈ es, e.isElementary) (hlength : xs.length = es.length)
    (hread : (xs.zip es).Pairwise fun p q => p.1 ∉ q.2.referencedVariables) :
    I.execStatements F V (List.zipWith mk xs es) m =
      .ok (.default, V.assign xs (es.map (valueOf I.machine V))) m := by
  induction xs generalizing V es with
  | nil => rw [eq_nil_of_length_eq_zero hlength.symm]; rfl
  | cons x xs ih =>
    cases es with
    | nil => cases hlength
    | cons e es =>
      obtain ⟨he, hes⟩ := forall_mem_cons.mp hes
      have hlength' := Nat.succ.inj hlength
      obtain ⟨hx, hread⟩ := pairwise_cons.mp hread
      have hvalues : es.map (valueOf I.machine (V.set x (valueOf I.machine V e))) =
          es.map (valueOf I.machine V) := by
        refine map_congr_left fun e' he' => valueOf_set ?_ _
        rw [← map_snd_zip hlength'.ge] at he'
        obtain ⟨p, hp, rfl⟩ := mem_map.mp he'
        exact hx p hp
      have hrest := ih (V := V.set x (valueOf I.machine V e)) hes hlength' hread
      rw [hvalues] at hrest
      rw [zipWith_cons_cons, Evaluator.execStatements_cons, hmk, eval_of_isElementary he,
        Result.map_ok, Result.bind_ok, if_pos rfl]
      exact hrest

end

section

variable {μ : Mapping} {x : YulString} {xs : List YulString} {e : Expression}
  {es : List Expression}

lemma pairwise_notMem_expandValue (hμ : μ.Proper) (hx : μ x = some xs)
    (h : expandValue μ e = some es) :
    (xs.zip es).Pairwise fun p q => p.1 ∉ q.2.referencedVariables := by
  cases e with
  | identifier y =>
    obtain ⟨ys, hy, rfl⟩ := map_eq_some_iff.mp h
    by_cases hxy : x = y
    · subst hxy
      obtain rfl := Option.some.inj (hx.symm.trans hy)
      have hzip : xs.zip (xs.map Expression.identifier) = xs.map fun z => (z, .identifier z) := by
        rw [zip_map_right, zip_eq_zipWith, zipWith_self, map_map]
        rfl
      rw [hzip, pairwise_map]
      refine (hμ.nodup x xs hx).imp fun hab hmem => ?_
      exact hab (mem_singleton.mp hmem)
    · refine pairwise_of_forall_mem_list ?_
      rintro ⟨z, e⟩ hp ⟨z', e'⟩ hq hmem
      obtain ⟨y', hy', rfl⟩ := mem_map.mp (of_mem_zip hq).2
      obtain rfl := mem_singleton.mp hmem
      exact hxy (hμ.disjoint x xs y ys z hx hy (of_mem_zip hp).1 hy')
  | literal l =>
    obtain ⟨w, -, rfl⟩ := map_eq_some_iff.mp h
    refine pairwise_of_forall_mem_list ?_
    rintro p - ⟨z', e'⟩ hq hmem
    obtain ⟨v, -, rfl⟩ := mem_map.mp (of_mem_zip hq).2
    cases hmem
  | _ => cases h

end

/-! ### Functions -/

/-- What the step can handle. -/
def isWidenable (s : Statement) : Bool := loopConditionFits s && !callsOrBool s

lemma callsOrBool_of_isWidenable {s : Statement} (h : isWidenable s) : callsOrBool s = false :=
  (Bool.not_eq_true' _).mp (Bool.and_eq_true_iff.mp h).2

/-- What becomes of a function. -/
def WidensFunction (μ : Mapping) (d d' : FunctionDefinition) : Prop :=
  everyStatement isWidenable d.body = true ∧
    widenNames μ d.parameters = some d'.parameters ∧
    widenNames μ d.returnVariables = some d'.returnVariables ∧ widen μ d.body = some d'.body

variable {value : Option Expression}

section

variable {μ : Mapping} {s : Statement} {ss ts : List Statement} {xs : List TypedName}
  {e : Expression}

lemma definitions_zipWith (hmk : ∀ x e, functionDefinitions [mk x e] = [])
    (xs : List YulString) (es : List Expression) :
    functionDefinitions (List.zipWith mk xs es) = [] := by
  induction xs generalizing es with
  | nil => rfl
  | cons x xs ih =>
    cases es with
    | nil => rfl
    | cons e es => rw [zipWith_cons_cons, definitions_cons, hmk, ih, nil_append]

lemma definitions_transformAssignment {xs : List YulString}
    (h : transformAssignment μ xs e = some ts) : functionDefinitions ts = [] := by
  unfold transformAssignment at h
  split at h
  · obtain ⟨e', -, h⟩ := bind_eq_some_iff.mp h
    obtain ⟨ys, -, rfl⟩ := map_eq_some_iff.mp h
    rfl
  · obtain ⟨e', -, h⟩ := bind_eq_some_iff.mp h
    obtain ⟨ys, -, rfl⟩ := map_eq_some_iff.mp h
    rfl
  all_goals
    split at h
    · obtain ⟨es, -, h⟩ := bind_eq_some_iff.mp h
      obtain ⟨ys, -, rfl⟩ := map_eq_some_iff.mp h
      exact definitions_zipWith (fun _ _ => rfl) _ _
    · cases h

lemma definitions_widenDeclaration (h : widenDeclaration μ xs value = some ts) :
    functionDefinitions ts = [] := by
  unfold widenDeclaration at h
  split at h
  · obtain ⟨ys, -, rfl⟩ := map_eq_some_iff.mp h
    rfl
  · split at h
    · obtain ⟨e', -, h⟩ := bind_eq_some_iff.mp h
      obtain ⟨ys, -, rfl⟩ := map_eq_some_iff.mp h
      rfl
    · obtain ⟨e', -, h⟩ := bind_eq_some_iff.mp h
      obtain ⟨ys, -, rfl⟩ := map_eq_some_iff.mp h
      rfl
    all_goals
      split at h
      · obtain ⟨es, -, h⟩ := bind_eq_some_iff.mp h
        obtain ⟨ys, -, rfl⟩ := map_eq_some_iff.mp h
        exact definitions_zipWith (fun _ _ => rfl) _ _
      · cases h

lemma definesRelated_widenStatement (h : widenStatement μ s = some ts)
    (hs : s.every isWidenable) : DefinesRelated (WidensFunction μ) [s] ts := by
  cases s with
  | functionDefinition f ps rs body =>
    obtain ⟨ps', hps, h⟩ := bind_eq_some_iff.mp h
    obtain ⟨rs', hrs, h⟩ := bind_eq_some_iff.mp h
    obtain ⟨body', hbody, rfl⟩ := map_eq_some_iff.mp h
    have hbody' := (every_function.mp hs).2
    exact List.Forall₂.cons ⟨rfl, hbody', hps, hrs, hbody⟩ .nil
  | assignment xs e =>
    exact .of_eq_nil rfl (definitions_transformAssignment h)
  | variableDeclaration xs value =>
    exact .of_eq_nil rfl (definitions_widenDeclaration h)
  | expressionStatement e =>
    obtain ⟨e', -, rfl⟩ := map_eq_some_iff.mp h
    exact .of_eq_nil rfl rfl
  | «if» c body =>
    obtain ⟨c', -, h⟩ := bind_eq_some_iff.mp h
    obtain ⟨body', -, rfl⟩ := map_eq_some_iff.mp h
    exact .of_eq_nil rfl rfl
  | switch e cases => cases h
  | forLoop pre c post body =>
    obtain ⟨pre', -, h⟩ := bind_eq_some_iff.mp h
    obtain ⟨c', -, h⟩ := bind_eq_some_iff.mp h
    obtain ⟨post', -, h⟩ := bind_eq_some_iff.mp h
    obtain ⟨body', -, rfl⟩ := map_eq_some_iff.mp h
    exact .of_eq_nil rfl rfl
  | «break» | «continue» =>
    cases h
    exact .of_eq_nil rfl rfl
  | block ss =>
    obtain ⟨ss', -, rfl⟩ := map_eq_some_iff.mp h
    exact .of_eq_nil rfl rfl

lemma definesRelated_widen (h : widen μ ss = some ts)
    (hss : everyStatement isWidenable ss) : DefinesRelated (WidensFunction μ) ss ts := by
  induction ss generalizing ts with
  | nil =>
    cases h
    exact .nil
  | cons s ss ih =>
    obtain ⟨us, hs, h⟩ := bind_eq_some_iff.mp h
    obtain ⟨us', hss', rfl⟩ := map_eq_some_iff.mp h
    obtain ⟨hevery, hss⟩ := everyStatement_cons.mp hss
    exact (definesRelated_widenStatement hs hevery).cons (ih hss' hss)

end

/-! ### Statements -/

/-- Execution goes on alike, with the parts of the values in the new variables. -/
def Parallel (μ : Mapping) (r : LoopState × Valuation Word)
    (r' : LoopState × Valuation Word64) : Prop :=
  r.1 = r'.1 ∧ Holds μ r.2 r'.2

section

variable {η σ : Type} {dialect : Dialect} {μ : Mapping} {I : Evaluator η σ Word}
  {I' : Evaluator η σ Word64} {F F' : Functions} {V : Valuation Word} {V' : Valuation Word64}
  {ss ts : List Statement}

lemma closeScope_parallel (hV : Holds μ V V') {r : Result η σ (LoopState × Valuation Word)}
    {r' : Result η σ (LoopState × Valuation Word64)} (h : Result.Rel Eq (Parallel μ) r r') :
    Result.Rel Eq (Parallel μ) (Evaluator.closeScope V r) (Evaluator.closeScope V' r') :=
  h.map fun _ _ hr => ⟨hr.1, hV.restrict hr.2⟩

lemma execBlock_widen_of (hF : F.Rel (WidensFunction μ) F') (hts : widen μ ss = some ts)
    (hevery : everyStatement isWidenable ss)
    (hss : ∀ F F' V V' m, F.Rel (WidensFunction μ) F' → Holds μ V V' →
      Result.Rel Eq (Parallel μ) (I.execStatements F V ss m) (I'.execStatements F' V' ts m))
    (hV : Holds μ V V') (m : σ) :
    Result.Rel Eq (Parallel μ) (I.execBlock F V ss m) (I'.execBlock F' V' ts m) :=
  closeScope_parallel hV
    (hss _ _ V V' m (hF.register (definesRelated_widen hts hevery)) hV)

variable {xs : List YulString}

lemma exec_each_widen (hI : Widens dialect (WidensFunction μ) I I') (hμ : μ.Proper)
    (hV : Holds μ V V')
    (hmk : ∀ V m x e, I'.exec F' V (mk x e) m =
      (I'.eval F' V e m).map fun vs => (.default, V.assign [x] vs)) {x : YulString}
    (hx : μ x = some xs) {es : List Expression} (hes : expandValue μ e = some es) (m : σ) :
    Result.Rel Eq (Parallel μ) ((I.eval F V e m).map fun vs => (.default, V.assign [x] vs))
      (I'.execStatements F' V' (List.zipWith mk xs es) m) := by
  obtain ⟨helementary, helementary'⟩ := expandValue_elementary hes
  have hvalue := valueOf_expandValue hI.implements hV hes
  have hlength : xs.length = es.length := by
    have hes := congrArg List.length hvalue
    rw [length_map] at hes
    exact (hμ.length x xs hx).trans hes.symm
  rw [eval_of_isElementary helementary, exec_each hmk helementary' hlength
    (pairwise_notMem_expandValue hμ hx hes), hI.machine, hvalue]
  exact .ok ⟨rfl, hV.set hμ hx _⟩ rfl

lemma eval_visit_rel (hI : Widens dialect (WidensFunction μ) I I')
    (hF : F.Rel (WidensFunction μ) F') (hV : Holds μ V V') (hor : isCallOf "or_bool" e = false)
    (he : e.isElementary = false) (h : visit μ e = some e') (m : σ) :
    Result.Rel Eq (fun vs vs' => vs' = splitWords vs) (I.eval F V e m)
      (I'.eval F' V' e' m) := by
  rw [eval_visit hI hF hV he hor h]
  cases I.eval F V e m with
  | ok vs m₁ => exact .ok rfl rfl
  | halt r m₁ => exact .halt r rfl
  | timeout => exact .timeout

lemma eval_assign (hI : Widens dialect (WidensFunction μ) I I') (hμ : μ.Proper)
    (hF : F.Rel (WidensFunction μ) F') (hV : Holds μ V V') {ys : List YulString}
    (hor : isCallOf "or_bool" e = false) (he : e.isElementary = false) (h : visit μ e = some e')
    (hxs : rewriteIdentifierList μ xs = some ys) (m : σ) :
    Result.Rel Eq (Parallel μ)
      ((I.eval F V e m).map fun vs => (.default, V.assign xs vs))
      ((I'.eval F' V' e' m).map fun vs => (.default, V'.assign ys vs)) := by
  refine (eval_visit_rel hI hF hV hor he h m).map ?_
  rintro vs _ rfl
  exact ⟨rfl, hV.assign hμ vs hxs⟩

lemma exec_transformAssignment (hI : Widens dialect (WidensFunction μ) I I') (hμ : μ.Proper)
    (hF : F.Rel (WidensFunction μ) F') (hV : Holds μ V V') (hor : isCallOf "or_bool" e = false)
    (h : transformAssignment μ xs e = some ts) (m : σ) :
    Result.Rel Eq (Parallel μ) (I.exec F V (.assignment xs e) m) (I'.execStatements F' V' ts m) := by
  unfold transformAssignment at h
  split at h
  · obtain ⟨e', he, h⟩ := bind_eq_some_iff.mp h
    obtain ⟨ys, hys, rfl⟩ := map_eq_some_iff.mp h
    rw [Evaluator.exec_singleton]
    exact eval_assign hI hμ hF hV hor rfl he hys m
  · obtain ⟨e', he, h⟩ := bind_eq_some_iff.mp h
    obtain ⟨ys, hys, rfl⟩ := map_eq_some_iff.mp h
    rw [Evaluator.exec_singleton]
    exact eval_assign hI hμ hF hV hor rfl he hys m
  all_goals
    split at h
    · obtain ⟨es, hes, h⟩ := bind_eq_some_iff.mp h
      obtain ⟨ys, hys, rfl⟩ := map_eq_some_iff.mp h
      exact exec_each_widen (F := F) hI hμ hV (fun _ _ _ _ => rfl) hys hes m
    · cases h

lemma widenNames_eq_some {xs ys : List TypedName} (h : widenNames μ xs = some ys) :
    rewriteIdentifierList μ (xs.map (·.name)) = some (ys.map (·.name)) := by
  obtain ⟨zs, hzs, rfl⟩ := map_eq_some_iff.mp h
  rw [hzs, map_map]
  exact congrArg some (map_id zs).symm

lemma exec_widenDeclaration (hI : Widens dialect (WidensFunction μ) I I') (hμ : μ.Proper)
    (hF : F.Rel (WidensFunction μ) F') (hV : Holds μ V V') {xs : List TypedName}
    (hor : ∀ e, value = some e → isCallOf "or_bool" e = false)
    (h : widenDeclaration μ xs value = some ts) (m : σ) :
    Result.Rel Eq (Parallel μ) (I.exec F V (.variableDeclaration xs value) m)
      (I'.execStatements F' V' ts m) := by
  unfold widenDeclaration at h
  split at h
  · obtain ⟨ys, hys, rfl⟩ := map_eq_some_iff.mp h
    rw [Evaluator.exec_singleton]
    exact .ok ⟨rfl, hV.assign hμ [] (widenNames_eq_some hys)⟩ rfl
  · have hor := hor _ rfl
    split at h
    · obtain ⟨e', he, h⟩ := bind_eq_some_iff.mp h
      obtain ⟨ys, hys, rfl⟩ := map_eq_some_iff.mp h
      rw [Evaluator.exec_singleton]
      exact eval_assign hI hμ hF hV hor rfl he (widenNames_eq_some hys) m
    · obtain ⟨e', he, h⟩ := bind_eq_some_iff.mp h
      obtain ⟨ys, hys, rfl⟩ := map_eq_some_iff.mp h
      rw [Evaluator.exec_singleton]
      exact eval_assign hI hμ hF hV hor rfl he (widenNames_eq_some hys) m
    all_goals
      split at h
      · obtain ⟨es, hes, h⟩ := bind_eq_some_iff.mp h
        obtain ⟨ys, hys, rfl⟩ := map_eq_some_iff.mp h
        exact exec_each_widen (F := F) hI hμ hV (fun _ _ _ _ => rfl) hys hes m
      · cases h

lemma exec_visit (hI : Widens dialect (WidensFunction μ) I I') (hF : F.Rel (WidensFunction μ) F')
    (hV : Holds μ V V') (hor : isCallOf "or_bool" e = false) (h : visit μ e = some e') (m : σ) :
    Result.Rel Eq (Parallel μ) (I.exec F V (.expressionStatement e) m)
      (I'.exec F' V' (.expressionStatement e') m) := by
  by_cases he : e.isElementary = true
  · have he' : e' = e := by
      cases e with
      | identifier x => exact (Option.some.inj h).symm
      | literal l => exact (Option.some.inj h).symm
      | _ => cases he
    subst he'
    rw [Evaluator.exec, Evaluator.exec, eval_of_isElementary he, eval_of_isElementary he]
    exact .ok ⟨rfl, hV⟩ rfl
  · exact (eval_visit_rel hI hF hV hor (Bool.eq_false_of_not_eq_true he) h m).map
      fun _ _ _ => ⟨rfl, hV⟩

lemma loopCondition_literal (F F' : Functions) (V : Valuation Word) (V' : Valuation Word64)
    (hI : Widens dialect (WidensFunction μ) I I') {l : Literal} (hl : l.word.toNat < 2 ^ 64) (m : σ) :
    I.loopCondition F (.literal l) V m = .ok (decide (l.word ≠ 0)) m ∧
      I'.loopCondition F' (.literal l) V' m = .ok (decide (l.word ≠ 0)) m := by
  constructor
  · rw [Evaluator.loopCondition, Evaluator.evaluate, eval_of_isElementary rfl, Result.map_ok,
      Result.map_ok, headD_cons, hI.implements.isTrue, valueOf, hI.implements.literal]
  · have hzero : l.word.setWidth 64 ≠ 0 ↔ l.word ≠ 0 := by
      rw [not_iff_not, ← BitVec.toNat_inj, ← BitVec.toNat_inj, BitVec.toNat_setWidth,
        Nat.mod_eq_of_lt hl]
      rfl
    rw [Evaluator.loopCondition, Evaluator.evaluate, eval_of_isElementary rfl, Result.map_ok,
      Result.map_ok, headD_cons, hI.machine]
    exact congrArg (Result.ok · m) (decide_eq_decide.mpr hzero)

mutual

lemma exec_widen (hI : Widens dialect (WidensFunction μ) I I') (hμ : μ.Proper) (s : Statement)
    {ts : List Statement} (hts : widenStatement μ s = some ts)
    (hs : s.every isWidenable) (F F' : Functions) (V : Valuation Word)
    (V' : Valuation Word64) (m : σ) (hF : F.Rel (WidensFunction μ) F') (hV : Holds μ V V') :
    Result.Rel Eq (Parallel μ) (I.exec F V s m) (I'.execStatements F' V' ts m) := by
  match s with
  | .functionDefinition f ps rs body =>
    obtain ⟨ps', -, hts⟩ := bind_eq_some_iff.mp hts
    obtain ⟨rs', -, hts⟩ := bind_eq_some_iff.mp hts
    obtain ⟨body', -, rfl⟩ := map_eq_some_iff.mp hts
    exact .ok ⟨rfl, hV⟩ rfl
  | .expressionStatement e =>
    obtain ⟨e', he, rfl⟩ := map_eq_some_iff.mp hts
    rw [Evaluator.exec_singleton]
    exact exec_visit hI hF hV (callsOrBool_of_isWidenable hs) he m
  | .assignment xs e =>
    exact exec_transformAssignment hI hμ hF hV (callsOrBool_of_isWidenable hs) hts m
  | .variableDeclaration xs value =>
    refine exec_widenDeclaration hI hμ hF hV ?_ hts m
    rintro e rfl
    exact callsOrBool_of_isWidenable hs
  | .if c body =>
    obtain ⟨c', hc, hts⟩ := bind_eq_some_iff.mp hts
    obtain ⟨body', hbody, rfl⟩ := map_eq_some_iff.mp hts
    have hevery := (every_if.mp hs).2
    obtain ⟨v, v', hv, hv', htrue⟩ := evaluate_widenCondition F F' m hI hV hc
    rw [Evaluator.exec_singleton, Evaluator.exec_if, Evaluator.exec_if, hv, hv',
      Result.bind_ok, Result.bind_ok, htrue]
    split_ifs
    · exact execBlock_widen_of hF hbody hevery (execStatements_widen hI hμ body hbody hevery) hV m
    · exact .ok ⟨rfl, hV⟩ rfl
  | .switch e cases => cases hts
  | .forLoop pre c post body =>
    obtain ⟨pre', hpre, hts⟩ := bind_eq_some_iff.mp hts
    obtain ⟨c', hc, hts⟩ := bind_eq_some_iff.mp hts
    obtain ⟨post', hpost, hts⟩ := bind_eq_some_iff.mp hts
    obtain ⟨body', hbody, rfl⟩ := map_eq_some_iff.mp hts
    obtain ⟨hliteral, hpre', hpost', hbody'⟩ := every_forLoop.mp hs
    cases c with
    | literal l =>
      cases hc
      rw [Evaluator.exec_singleton, Evaluator.exec_forLoop, Evaluator.exec_forLoop,
        hI.fuel]
      refine closeScope_parallel hV
        ((execStatements_widen hI hμ pre hpre hpre' F F' V V' m hF hV).bind ?_)
      rintro ⟨k, W⟩ ⟨_, W'⟩ m₁ _ - - ⟨rfl, hW⟩ rfl
      refine (loop_rel (S := Eq) (A := Holds μ) (B := Holds μ) (C := Holds μ) ?_ (fun _ _ => id)
        ?_ ?_ I.fuel hW rfl).map fun _ _ hU => ⟨rfl, hU⟩
      · rintro U U' m₂ _ hU rfl
        obtain ⟨hcondition, hcondition'⟩ := loopCondition_literal F F' U U' hI
          (of_decide_eq_true (Bool.and_eq_true_iff.mp hliteral).1) m₂
        rw [hcondition, hcondition']
        exact .ok rfl rfl
      · rintro U U' m₂ _ hU rfl
        refine (execBlock_widen_of hF hbody hbody' (fun F F' V V' m hF hV =>
          execStatements_widen hI hμ body hbody hbody' F F' V V' m hF hV) hU m₂).map ?_
        rintro ⟨k, T⟩ ⟨_, T'⟩ ⟨rfl, hT⟩
        exact ⟨rfl, by split_ifs <;> exact hT⟩
      · rintro U U' m₂ _ hU rfl
        exact (execBlock_widen_of hF hpost hpost' (fun F F' V V' m hF hV =>
          execStatements_widen hI hμ post hpost hpost' F F' V V' m hF hV) hU m₂).map
            fun _ _ hT => hT.2
    | _ => cases hliteral
  | .break | .continue =>
    cases hts
    exact .ok ⟨rfl, hV⟩ rfl
  | .block ss =>
    obtain ⟨ss', hss, rfl⟩ := map_eq_some_iff.mp hts
    have hevery := (every_block.mp hs).2
    rw [Evaluator.exec_singleton]
    exact execBlock_widen_of hF hss hevery
      (fun F F' V V' m hF hV => execStatements_widen hI hμ ss hss hevery F F' V V' m hF hV) hV m

lemma execStatements_widen (hI : Widens dialect (WidensFunction μ) I I') (hμ : μ.Proper)
    (ss : List Statement) {ts : List Statement} (hts : widen μ ss = some ts)
    (hss : everyStatement isWidenable ss) (F F' : Functions) (V : Valuation Word)
    (V' : Valuation Word64) (m : σ) (hF : F.Rel (WidensFunction μ) F') (hV : Holds μ V V') :
    Result.Rel Eq (Parallel μ) (I.execStatements F V ss m) (I'.execStatements F' V' ts m) := by
  match ss with
  | [] =>
    cases hts
    exact .ok ⟨rfl, hV⟩ rfl
  | s :: ss =>
    obtain ⟨us, hus, hts⟩ := bind_eq_some_iff.mp hts
    obtain ⟨us', hus', rfl⟩ := map_eq_some_iff.mp hts
    obtain ⟨hs, hss⟩ := everyStatement_cons.mp hss
    rw [Evaluator.execStatements_cons, Evaluator.execStatements_append]
    refine (exec_widen hI hμ s hus hs F F' V V' m hF hV).bind ?_
    rintro ⟨l, W⟩ ⟨_, W'⟩ m₁ _ - - ⟨rfl, hW⟩ rfl
    by_cases hl : l = .default
    · rw [if_pos hl, if_pos hl]
      exact execStatements_widen hI hμ ss hus' hss F F' W W' m₁ hF hW
    · rw [if_neg hl, if_neg hl]
      exact .ok ⟨rfl, hW⟩ rfl

end

end

section

variable {η σ : Type} {dialect : Dialect} {μ : Mapping} {M : Machine η σ Word}

lemma returnedValues_widen {d d' : FunctionDefinition} {V : Valuation Word} {V' : Valuation Word64}
    (hV : Holds μ V V') (h : widenNames μ d.returnVariables = some d'.returnVariables) :
    Machine.returnedValues d' V' = splitWords (Machine.returnedValues d V) := by
  have hnames := widenNames_eq_some h
  have hvalues : ∀ (xs ys : List YulString), rewriteIdentifierList μ xs = some ys →
      ys.map (fun y => (V' y).getD 0) = splitWords (xs.map fun x => (V x).getD 0) := by
    intro xs
    induction xs with
    | nil =>
      rintro _ ⟨⟩
      rfl
    | cons x xs ih =>
      intro ys hys
      obtain ⟨us, hx, hys⟩ := bind_eq_some_iff.mp hys
      obtain ⟨zs, hxs, rfl⟩ := map_eq_some_iff.mp hys
      rw [map_append, hV.getD hx, ih zs hxs, map_cons, splitWords_cons]
  have heq := hvalues _ _ hnames
  rw [map_map, map_map] at heq
  exact heq

lemma holds_variablesOf (hμ : μ.Proper) {d d' : FunctionDefinition} (h : WidensFunction μ d d')
    (vs : List Word) :
    Holds μ (Machine.variablesOf d vs) (Machine.variablesOf d' (splitWords vs)) := by
  obtain ⟨-, hps, hrs, -⟩ := h
  exact ((Holds.empty hμ).assign hμ vs (widenNames_eq_some hps)).assign hμ []
    (widenNames_eq_some hrs)

lemma widens_evaluator (hμ : μ.Proper) (hM : M.Implements dialect) (n : Nat) :
    Widens dialect (WidensFunction μ) (M.evaluator n) (M.wide.evaluator n) := by
  refine ⟨hM, rfl, rfl, ?_⟩
  show ∀ F F', F.Rel (WidensFunction μ) F' → ∀ f vs m,
    M.wide.callFunction n F' f (splitWords vs) m = (M.callFunction n F f vs m).map splitWords
  induction n with
  | zero => exact fun _ _ _ _ _ _ => rfl
  | succ n ih =>
    intro F F' hF f vs m
    rw [Machine.callFunction, Machine.callFunction]
    match hf : F f, hf' : F' f, hF f with
    | none, none, _ => rfl
    | some d, some d', .some hd =>
      have hI : Widens dialect (WidensFunction μ) (M.evaluator n) (M.wide.evaluator n) :=
        ⟨hM, rfl, rfl, ih⟩
      have hblock := execBlock_widen_of hF hd.2.2.2 hd.1
        (execStatements_widen hI hμ d.body hd.2.2.2 hd.1) (holds_variablesOf hμ hd vs) m
      have hvalues := hblock.map (B := fun vs vs' => vs' = splitWords vs)
        (f := fun r => Machine.returnedValues d r.2)
        fun _ _ hr => returnedValues_widen hr.2 hd.2.2.1
      exact hvalues.eq_map

lemma run_widen (hμ : μ.Proper) (hM : M.Implements dialect) {ss ts : Block}
    (hts : widen μ ss = some ts) (hss : everyStatement isWidenable ss) (n : Nat) (m : σ) :
    M.wide.run n ts m = M.run n ss m := by
  have hI := widens_evaluator hμ hM n
  have hblock := execBlock_widen_of Functions.Rel.none hts hss
    (execStatements_widen hI hμ ss hts hss) (Holds.empty hμ) m
  exact (Result.Rel.eq_iff.mp (hblock.map fun _ _ hr => hr.1)).symm

end

end WordSizeTransform

end Yul
