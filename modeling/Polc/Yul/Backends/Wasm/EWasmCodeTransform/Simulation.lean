import Polc.Yul.Backends.Wasm.EWasmCodeTransform.Meaning

/-!
# Functions of WebAssembly return what the functions of the program return

By induction on the depth of calls: the first value of a function is its result, the others are in
the global variables.
-/

namespace Yul

open Semantics List

namespace EWasmCodeTransform

/-! ### The beginning of a function -/

variable {G : Valuation Word64}

section

variable {gs : List YulString} {F : Functions} {T T' : State} {f : YulString}
  {d : FunctionDefinition} {d' : Wasm.FunctionDefinition}

/-- Names of parameters, return variables and variables in the body. -/
def functionNames (d : FunctionDefinition) : List YulString :=
  d.parameters.map (·.name) ++ d.returnVariables.map (·.name) ++ namesOfStatements d.body

lemma translateFunction_eq_some (h : translateFunction T f d = some (d', T')) :
    ∃ es T₁, T.localVariables = [] ∧ visitStatements T d.body = some (es, T₁) ∧
      d' = ⟨f, d.parameters.map (·.name), d.returnVariables.map (·.name) ≠ [],
        d.returnVariables.map (·.name) ++ T₁.localVariables,
        es ++ returnValues T'.globalVariables (d.returnVariables.map (·.name))⟩ := by
  rw [translateFunction] at h
  split_ifs at h with hlocals
  obtain ⟨⟨es, T₁⟩, hbody, h⟩ := Option.map_eq_some_iff.mp h
  cases h
  exact ⟨es, T₁, not_not.mp hlocals, hbody, rfl⟩

lemma ready_start {T₁ : State} (hlocals : T.localVariables = [])
    (hstep : Step T T₁ (namesOfStatements d.body) (containLoop d.body))
    (hused : functionNames d ⊆ T.nameDispenser.usedNames) (hnodup : (functionNames d).Nodup)
    (hparameters : d'.parameterNames = d.parameters.map (·.name))
    (hlocals' : d'.locals = d.returnVariables.map (·.name) ++ T₁.localVariables)
    (labels : YulString × YulString) (vs : List Word64) (hG : Declared gs G) :
    Ready gs T T₁ (namesOfStatements d.body)
      (d.parameters.map (·.name) ++ d.returnVariables.map (·.name)) false labels
      (Machine.variablesOf d vs) ⟨d'.start vs, G⟩ := by
  obtain ⟨hused, hbody⟩ := append_subset.mp hused
  obtain ⟨hps, hrs⟩ := append_subset.mp hused
  obtain ⟨-, -, hdisjoint⟩ := nodup_append'.mp hnodup
  have hvariables (x : YulString) : Machine.variablesOf d vs x =
      if x ∈ d.returnVariables.map (·.name) then some 0
      else Valuation.assign (fun _ => none) (d.parameters.map (·.name)) vs x :=
    Valuation.assign_nil_eq _ _ x
  have hstart (x : YulString) : d'.start vs x =
      if x ∈ d.returnVariables.map (·.name) ++ T₁.localVariables then some 0
      else Valuation.assign (fun _ => none) (d.parameters.map (·.name)) vs x := by
    rw [Wasm.FunctionDefinition.start, Valuation.assign_nil_eq, hparameters, hlocals']
  have hparameter {x : YulString}
      (hx : (Valuation.assign (fun _ => none) (d.parameters.map (·.name)) vs x).isSome = true) :
      x ∈ d.parameters.map (·.name) := by
    rcases (Valuation.isSome_assign _ _ vs x).mp hx with hx | hx
    · exact hx
    · cases hx
  have hdomain {x : YulString} (hx : (Machine.variablesOf d vs x).isSome = true) :
      x ∈ d.parameters.map (·.name) ++ d.returnVariables.map (·.name) := by
    rw [hvariables] at hx
    split_ifs at hx with hmem
    · exact mem_append_right _ hmem
    · exact mem_append_left _ (hparameter hx)
  refine ⟨fun x w hx => ?_, fun x hx => ?_, fun x hx => ?_, hbody, fun x hx => ?_, fun x hx => ?_,
    fun x hx => ?_, hG, (absurd · Bool.false_ne_true)⟩
  · show d'.start vs x = some w
    rw [hvariables] at hx
    rw [hstart]
    split_ifs at hx with hmem
    · rw [if_pos (mem_append_left _ hmem), hx]
    · have hxp := hparameter (Option.isSome_of_mem hx)
      rw [if_neg, hx]
      rw [mem_append, not_or]
      refine ⟨hmem, fun hlocal => ?_⟩
      rcases hstep.new x hlocal with hlocal | hlocal | hnew
      · rw [hlocals] at hlocal
        cases hlocal
      · exact hdisjoint (mem_append_left _ hxp) hlocal
      · exact hnew (hps hxp)
  · rw [hvariables]
    split_ifs with hmem
    · rfl
    · rcases mem_append.mp hx with hx | hx
      · exact (Valuation.isSome_assign _ _ vs x).mpr (.inl hx)
      · exact absurd hx hmem
  · exact hused (hdomain hx)
  · rw [← Option.not_isSome_iff_eq_none]
    exact fun hsome => hdisjoint (hdomain hsome) hx
  · show d'.start vs x = some 0
    rw [hstart, if_pos (mem_append_right _ (hstep.declared hx))]
  · show (d'.start vs x).isSome = true
    rw [hstart, if_pos (mem_append_right _ hx)]
    rfl

end

/-! ### The end of a function -/

section

variable {η σ : Type} {gs globals xs : List YulString} {J : Wasm.Evaluator η σ}
  {L G : Valuation Word64}

/-- The values of variables. -/
def valuesOf (L : Valuation Word64) (xs : List YulString) : List Word64 :=
  xs.map fun x => (L x).getD 0

lemma execAll_globalAssignments (hlength : xs.length ≤ globals.length)
    (hL : ∀ x ∈ xs, (L x).isSome) (hG : Declared globals G) (m : σ) :
    J.execAll (List.zipWith (fun g x => .globalAssignment g (.localVariable x)) globals xs)
      ⟨L, G⟩ m =
      .ok (.values [], ⟨L, G.assign (globals.take xs.length) (valuesOf L xs)⟩) m := by
  induction xs generalizing globals G with
  | nil =>
    rw [zipWith_nil_right]
    rfl
  | cons x xs ih =>
    obtain ⟨g, globals, rfl⟩ := exists_cons_of_length_pos (Nat.lt_of_lt_of_le
      (Nat.succ_pos _) hlength)
    obtain ⟨hg, hG⟩ := forall_mem_cons.mp hG
    obtain ⟨hx, hL⟩ := forall_mem_cons.mp hL
    obtain ⟨v, hv⟩ := Option.isSome_iff_exists.mp hx
    have hset : J.exec (.globalAssignment g (.localVariable x)) ⟨L, G⟩ m =
        .ok (.values [], ⟨L, G.set g v⟩) m := by
      rw [Wasm.Evaluator.exec, Wasm.Evaluator.exec]
      dsimp only
      rw [hv, Wasm.andThen_ok_values, if_pos hg]
      rfl
    rw [zipWith_cons_cons, Wasm.execAll_cons, hset, Wasm.andThen_ok_values,
      ih (Nat.le_of_succ_le_succ hlength) hL (Declared.set hG g v)]
    have hvalues : valuesOf L (x :: xs) = v :: valuesOf L xs := by
      rw [valuesOf, map_cons, hv]
      rfl
    rw [hvalues]
    rfl

lemma execAll_returnValues (hlength : xs.length - 1 ≤ globals.length)
    (hnodup : globals.Nodup) (hL : ∀ x ∈ xs, (L x).isSome) (hglobals : globals <+: gs)
    (hG : Declared gs G) (m : σ) :
    ∃ G', J.execAll (returnValues globals xs) ⟨L, G⟩ m =
        .ok (.values ((valuesOf L xs).take 1), ⟨L, G'⟩) m ∧
      ReturnsIn gs (valuesOf L xs) G' ∧ Declared gs G' := by
  cases xs with
  | nil => exact ⟨G, rfl, returnsIn_of_length_le (Nat.zero_le _), hG⟩
  | cons x xs =>
    obtain ⟨hx, hL⟩ := forall_mem_cons.mp hL
    obtain ⟨v, hv⟩ := Option.isSome_iff_exists.mp hx
    have hxs : J.execAll [.localVariable x]
        ⟨L, G.assign (globals.take xs.length) (valuesOf L xs)⟩ m =
        .ok (.values [v], ⟨L, G.assign (globals.take xs.length) (valuesOf L xs)⟩) m := by
      rw [Wasm.execAll_singleton, Wasm.Evaluator.exec]
      dsimp only
      rw [hv]
    have hvalues : valuesOf L (x :: xs) = v :: valuesOf L xs := by
      rw [valuesOf, map_cons, hv]
      rfl
    have htake : (globals.take xs.length).length = (valuesOf L xs).length := by
      rw [length_take, valuesOf, length_map]
      exact Nat.min_eq_left hlength
    refine ⟨G.assign (globals.take xs.length) (valuesOf L xs), ?_, ?_, fun g hg => ?_⟩
    · rw [returnValues, Wasm.execAll_append, execAll_globalAssignments hlength hL
        (fun g hg => hG g (hglobals.subset hg)), Wasm.andThen_ok_values, hxs, hvalues]
      rfl
    · rw [hvalues]
      intro i w hw
      have hw : (valuesOf L xs)[i]? = some w := hw
      have hi : i < (globals.take xs.length).length :=
        htake ▸ (List.getElem?_eq_some_iff.mp hw).1
      have hmap := Valuation.map_assign (V := G) (hnodup.sublist (take_sublist _ _)) htake
      have hget := congrArg (·[i]?) hmap
      simp only [getElem?_map, hw, Option.map_some] at hget
      obtain ⟨g, hg, hgw⟩ := Option.map_eq_some_iff.mp hget
      refine ⟨g, ?_, hgw⟩
      rw [getElem?_take_of_lt (by
        rw [length_take] at hi
        exact (Nat.lt_min.mp hi).1)] at hg
      obtain ⟨rest, rfl⟩ := hglobals
      rw [getElem?_append_left (List.getElem?_eq_some_iff.mp hg).1, hg]
    · exact (Valuation.isSome_assign G _ _ g).mpr (.inr (hG g hg))

end

/-! ### Calls -/

/-- What is returned: the first value, and the others in the global variables. -/
def ReturnedAs (gs : List YulString) (n : Nat) (vs : List Word64)
    (r : List Word64 × Valuation Word64) : Prop :=
  vs.length = n ∧ r.1 = vs.take 1 ∧ ReturnsIn gs vs r.2 ∧ Declared gs r.2

/-- A function whose body does the same in WebAssembly. -/
structure Simulable (F : Functions) (d : FunctionDefinition) : Prop where
  analyzed : statementsAnalyzed F false
    (d.parameters.map (·.name) ++ d.returnVariables.map (·.name)) d.body = true
  plain : everyStatement isPlain d.body = true
  jumpsFirst : jumpsFirstAll false d.body = true
  nodup : (functionNames d).Nodup

/-- The functions of the program have been translated. -/
def Translated (gs : List YulString) (F : Functions) (ds : List Wasm.FunctionDefinition) : Prop :=
  ∀ f d, F f = some d → Simulable F d ∧ ∃ T d' T', translateFunction T f d = some (d', T') ∧
    ds.find? (·.name = f) = some d' ∧ functionNames d ⊆ T.nameDispenser.usedNames ∧
    T'.globalVariables.Nodup ∧ T.globalVariables <+: gs ∧ T'.globalVariables <+: gs

variable {f : YulString} {d : FunctionDefinition}

section

variable {η σ : Type} {p : Prop} {gs : List YulString} {F : Functions}
  {ds : List Wasm.FunctionDefinition} {M : Machine η σ Word64}

variable {vs : List Word64}

lemma call_sim (hds : Translated gs F ds) {k n : Nat}
    {call : Functions → YulString → List Word64 → σ → Result η σ (List Word64)}
    (hJ : Matches p gs F ⟨M, k, call⟩ ⟨M, n + 1, Wasm.callFunction M ds n⟩) (hd : F f = some d)
    (hloop : LoopsOnce p ⟨M, k, call⟩ (containLoop d.body))
    (hvs : vs.length = d.parameters.length) (hG : Declared gs G) (m : σ) :
    Result.Sim p False Eq (ReturnedAs gs d.returnVariables.length)
      ((Evaluator.execBlock ⟨M, k, call⟩ F (Machine.variablesOf d vs) d.body m).map
        fun r => Machine.returnedValues d r.2)
      (Wasm.callFunction M ds (n + 1) f vs G m) := by
  obtain ⟨hsimulable, T, d', T', htranslate, hfind, hused, hnodup, hglobals, hglobals'⟩ :=
    hds f d hd
  have hlength := (translateFunction_step htranslate).2.2
  obtain ⟨es, T₁, hlocals, hbody, hd'⟩ := translateFunction_eq_some htranslate
  have hready := ready_start hlocals (visitAll_step d.body hbody) hused hsimulable.nodup
    (congrArg (·.parameterNames) hd') (congrArg (·.locals) hd') ("", "") vs hG
  subst hd'
  have hsim := execBlock_visit hsimulable.plain (execAll_visitStatements hJ d.body hbody
    hsimulable.analyzed hsimulable.plain hsimulable.jumpsFirst
    (nodup_append'.mp hsimulable.nodup).2.1 hloop hglobals hready m)
  rw [Wasm.callFunction, hfind]
  dsimp only
  rw [if_pos (hvs.trans (length_map _).symm), Wasm.execAll_append]
  unfold Wasm.andThen
  rw [Result.bind_assoc]
  refine Result.Sim.bind hsim ?_
  rintro ⟨l, V⟩ ⟨o, S⟩ m₁ _ - - hr rfl
  obtain rfl : o = .values [] := by
    have hleaves := hr.leaves
    cases l with
    | default => exact hleaves
    | «break» => cases hleaves.1
    | «continue» => cases hleaves.1
  have hvalue : ∀ x ∈ d.returnVariables.map (·.name), ∃ w, V x = some w ∧ S.locals x = some w := by
    intro x hx
    obtain ⟨w, hw⟩ := Option.isSome_iff_exists.mp
      (hr.kept x (hready.scope x (mem_append_right _ hx)))
    exact ⟨w, hw, hr.agree x w hw⟩
  have hvalues : valuesOf S.locals (d.returnVariables.map (·.name)) =
      Machine.returnedValues d V := by
    rw [valuesOf, Machine.returnedValues, map_map]
    refine map_congr_left fun x hx => ?_
    obtain ⟨w, hw, hw'⟩ := hvalue x.name (mem_map_of_mem hx)
    show (S.locals x.name).getD 0 = (V x.name).getD 0
    rw [hw, hw']
  have hsome : ∀ x ∈ d.returnVariables.map (·.name), (S.locals x).isSome = true := by
    intro x hx
    obtain ⟨w, -, hw⟩ := hvalue x hx
    rw [hw]
    rfl
  have hcovered : (d.returnVariables.map (·.name)).length - 1 ≤ T'.globalVariables.length := by
    rw [length_map, hlength]
    exact le_max_right _ _
  obtain ⟨G', hreturn, hreturns, hG'⟩ := execAll_returnValues (J := ⟨M, n + 1,
    Wasm.callFunction M ds n⟩) hcovered hnodup hsome hglobals' hr.globals m₁
  rw [hvalues] at hreturn hreturns
  have hlengths : (Machine.returnedValues d V).length = d.returnVariables.length :=
    length_map _
  have hcount : ((Machine.returnedValues d V).take 1).length =
      (decide (d.returnVariables.map (·.name) ≠ [])).toNat := by
    rw [length_take, hlengths]
    cases d.returnVariables with
    | nil => rfl
    | cons x xs => exact Nat.min_eq_left (Nat.succ_pos _)
  dsimp only
  rw [Wasm.Outcome.resume_values, hreturn, Result.bind_ok]
  dsimp only
  rw [Wasm.Outcome.resume_values, nil_append, Result.bind_ok, Wasm.FunctionDefinition.finish]
  dsimp only
  rw [if_pos hcount]
  exact .ok ⟨hlengths, rfl, hreturns, hG'⟩ rfl

lemma callFunctionWithin_sim (hM : M.IsWasm) (hds : Translated gs F ds) (n : Nat)
    (hd : F f = some d) (hvs : vs.length = d.parameters.length) (hG : Declared gs G) (m : σ) :
    Result.Sim True False Eq (ReturnedAs gs d.returnVariables.length)
      (M.callFunctionWithin 1 n F f vs m) (Wasm.callFunction M ds n f vs G m) := by
  induction n generalizing f d vs G m with
  | zero => exact .timeout
  | succ n ih =>
    rw [Machine.callFunctionWithin, hd]
    have hJ : Matches True gs F ⟨M, 1, M.callFunctionWithin 1 n⟩
        ⟨M, n + 1, Wasm.callFunction M ds n⟩ :=
      ⟨rfl, hM, ⟨n, rfl⟩, fun f d vs G m hd hvs hG => ih hd hvs hG m⟩
    exact call_sim hds hJ hd (fun _ => ⟨trivial, rfl⟩) hvs hG m

lemma callFunction_sim (hM : M.IsWasm) (hds : Translated gs F ds)
    (hloops : ∀ f d, F f = some d → containLoop d.body = false) (n : Nat) (hd : F f = some d)
    (hvs : vs.length = d.parameters.length) (hG : Declared gs G) (m : σ) :
    Result.Sim False False Eq (ReturnedAs gs d.returnVariables.length)
      (M.callFunction n F f vs m) (Wasm.callFunction M ds n f vs G m) := by
  induction n generalizing f d vs G m with
  | zero => exact .timeout
  | succ n ih =>
    rw [Machine.callFunction, hd]
    have hJ : Matches False gs F ⟨M, n, M.callFunction n⟩ ⟨M, n + 1, Wasm.callFunction M ds n⟩ :=
      ⟨rfl, hM, ⟨n, rfl⟩, fun f d vs G m hd hvs hG => ih hd hvs hG m⟩
    refine call_sim hds hJ hd (fun hloop => ?_) hvs hG m
    rw [hloops f d hd] at hloop
    cases hloop

end

/-! ### Programs -/

section

variable {ss : Block}

lemma lookup_functions (hnodup : ((functionDefinitions ss).map (·.1)).Nodup) :
    Functions.register (fun _ => none) ss f = some d ↔ (f, d) ∈ functionDefinitions ss := by
  rcases Functions.Knows.register_apply (fun _ => none) ss f with ⟨hnot, hf⟩ | ⟨d', hd', hf⟩
  · rw [hf]
    exact ⟨nofun, fun hd => absurd (mem_map.mpr ⟨_, hd, rfl⟩) hnot⟩
  · rw [hf]
    refine ⟨fun h => Option.some.inj h ▸ hd', fun hd => ?_⟩
    have hinj := inj_on_of_nodup_map hnodup hd' hd rfl
    rw [(Prod.mk.inj hinj).2]

lemma simulable_of_mem {F : Functions} (hflat : ss.all isFlatFunction)
    (hordered : everyStatement ordered ss)
    (hanalyzed : statementsAnalyzed F false [] ss) (hjumps : jumpsFirstAll false ss)
    (hd : (f, d) ∈ functionDefinitions ss) :
    Simulable F d ∧ functionNames d ⊆ namesOfStatements ss := by
  induction ss with
  | nil => cases hd
  | cons s ss ih =>
    rw [all_cons, Bool.and_eq_true] at hflat
    rw [everyStatement_cons] at hordered
    rw [statementsAnalyzed, Bool.and_eq_true] at hanalyzed
    rw [jumpsFirstAll, Bool.and_eq_true] at hjumps
    cases s with
    | functionDefinition g ps rs body =>
      rw [isFlatFunction, Bool.and_eq_true, decide_eq_true_eq] at hflat
      rcases mem_cons.mp hd with hd | hd
      · cases hd
        refine ⟨⟨hanalyzed.1, ?_, hjumps.1, hflat.1.1⟩, fun x hx => ?_⟩
        · exact everyStatement_and body hflat.1.2
            (Statement.every_function.mp hordered.1).2
        · exact mem_append_left _ (mem_cons_of_mem _ hx)
      · obtain ⟨hsimulable, hnames⟩ := ih hflat.2 hordered.2 hanalyzed.2 hjumps.2 hd
        exact ⟨hsimulable, fun x hx => mem_append_right _ (hnames hx)⟩
    | _ => cases hflat.1

lemma containLoop_of_mem (hss : containLoop ss = false) (hd : (f, d) ∈ functionDefinitions ss) :
    containLoop d.body = false := by
  induction ss with
  | nil => cases hd
  | cons s ss ih =>
    rw [containLoop_cons, Bool.or_eq_false_iff] at hss
    cases s with
    | functionDefinition g ps rs body =>
      rcases mem_cons.mp hd with hd | hd
      · cases hd
        exact hss.1
      · exact ih hss.2 hd
    | _ => exact ih hss.2 hd

/-- Programs that satisfy the conditions are translated, and their functions return the same in
WebAssembly with the same effects, if no loop comes to a second iteration. -/
theorem eWasmCodeTransform_sameResults (D : NameDispenser)
    (hD : namesOfStatements ss ⊆ D.usedNames) (hss : Analyzed ss) (h : Translatable ss) :
    ∃ W, run D ss = some W ∧ ∀ (η σ : Type) (M : Machine η σ Word64), M.IsWasm →
      ∀ f d, (f, d) ∈ functionDefinitions ss → ∀ vs, vs.length = d.parameters.length →
        ∀ G, Declared W.globals G → ∀ n m,
          (M.callFunctionWithin 1 n (Functions.register (fun _ => none) ss) f vs m ≠ .timeout →
            ∀ N > n, Result.Rel Eq (ReturnedAs W.globals d.returnVariables.length)
              (M.callFunction N (Functions.register (fun _ => none) ss) f vs m)
              (W.call M n f vs G m)) ∧
          (containLoop ss = false →
            Result.Rel Eq (ReturnedAs W.globals d.returnVariables.length)
              (M.callFunction n (Functions.register (fun _ => none) ss) f vs m)
              (W.call M n f vs G m)) := by
  obtain ⟨⟨ds, T⟩, hds⟩ := exists_translateFunctions (T := ⟨D, [], [], []⟩) rfl rfl h.flat
    hss.analyzed h.jumpsFirst h.globalsSuffice
  have hproper : State.Proper ⟨D, [], [], []⟩ := ⟨nodup_nil, nofun⟩
  refine ⟨⟨T.globalVariables, ds⟩, by rw [run, hds]; rfl, ?_⟩
  have htranslated : Translated T.globalVariables (Functions.register (fun _ => none) ss) ds := by
    intro f d hd
    rw [lookup_functions hss.nodup] at hd
    obtain ⟨hsimulable, hnames⟩ := simulable_of_mem h.flat h.ordered hss.analyzed h.jumpsFirst hd
    obtain ⟨T₁, d', T₁', htranslate, hfind, hstep, hstep'⟩ :=
      translateFunctions_find hss.nodup hds hd
    have hstep₁ := (translateFunction_step htranslate).1
    exact ⟨hsimulable, T₁, d', T₁', htranslate, hfind,
      List.Subset.trans hnames (List.Subset.trans hD hstep.used),
      (hstep₁.proper (hstep.proper hproper)).nodup, hstep₁.globals.trans hstep'.globals,
      hstep'.globals⟩
  intro η σ M hM f d hd vs hvs G hG n m
  have hF := (lookup_functions hss.nodup).mpr hd
  refine ⟨fun hn N hN => ?_, fun hloops => ?_⟩
  · rw [Machine.callFunction_of_callFunctionWithin hN hn]
    exact (callFunctionWithin_sim hM htranslated n hF hvs hG m).rel_of_ne_timeout fun _ => hn
  · have hdepth : ∀ f d, Functions.register (fun _ => none) ss f = some d →
        containLoop d.body = false := fun f d hd =>
      containLoop_of_mem hloops ((lookup_functions hss.nodup).mp hd)
    exact (callFunction_sim hM htranslated hdepth n hF hvs hG m).rel_of_ne_timeout fun h => h.elim

end

/-- `function pair(p) -> q, r { q := p  r := i64.add(p, 1) }
function f(n) -> s, t { for { let i := 0 } i64.lt_u(i, n) { i := i64.add(i, 1) } { let a, b := pair(i)
switch b case 3 { break } case 5 { continue } default { s := i64.add(s, a) }  t := b } }` -/
def switchInLoop : Block :=
  [.functionDefinition "pair" [⟨"p", ""⟩] [⟨"q", ""⟩, ⟨"r", ""⟩]
    [.assignment ["q"] (.identifier "p"),
    .assignment ["r"] (.functionCall "i64.add" [.identifier "p", .literal (.number "1")])],
  .functionDefinition "f" [⟨"n", ""⟩] [⟨"s", ""⟩, ⟨"t", ""⟩]
    [.forLoop [.variableDeclaration [⟨"i", ""⟩] (some (.literal (.number "0")))]
      (.functionCall "i64.lt_u" [.identifier "i", .identifier "n"])
      [.assignment ["i"] (.functionCall "i64.add" [.identifier "i", .literal (.number "1")])]
      [.variableDeclaration [⟨"a", ""⟩, ⟨"b", ""⟩]
        (some (.functionCall "pair" [.identifier "i"])),
      .switch (.identifier "b") [.mk (some (.number "3")) [.break],
        .mk (some (.number "5")) [.continue],
        .mk none [.assignment ["s"] (.functionCall "i64.add" [.identifier "s", .identifier "a"])]],
      .assignment ["t"] (.identifier "b")]]]

theorem eWasmCodeTransform_sameResults_switchInLoop :
    ∃ W, run (.ofBlock .strictAssemblyForSVMObjects switchInLoop) switchInLoop = some W ∧
      ∀ (η σ : Type) (M : Machine η σ Word64), M.IsWasm →
        ∀ f d, (f, d) ∈ functionDefinitions switchInLoop →
          ∀ vs, vs.length = d.parameters.length → ∀ G, Declared W.globals G → ∀ n m,
            (M.callFunctionWithin 1 n (Functions.register (fun _ => none) switchInLoop) f vs m ≠
                .timeout →
              ∀ N > n, Result.Rel Eq (ReturnedAs W.globals d.returnVariables.length)
                (M.callFunction N (Functions.register (fun _ => none) switchInLoop) f vs m)
                (W.call M n f vs G m)) ∧
            (containLoop switchInLoop = false →
              Result.Rel Eq (ReturnedAs W.globals d.returnVariables.length)
                (M.callFunction n (Functions.register (fun _ => none) switchInLoop) f vs m)
                (W.call M n f vs G m)) :=
  eWasmCodeTransform_sameResults _ (by decide) ⟨by decide, by decide, by decide⟩
    ⟨by decide, by decide, by decide, by decide⟩

/-- `function f() -> x { let a, b := g()  x := b }  function g() -> y, z {}` -/
def callBeforeFunction : Block :=
  [.functionDefinition "f" [] [⟨"x", ""⟩]
    [.variableDeclaration [⟨"a", ""⟩, ⟨"b", ""⟩] (some (.functionCall "g" [])),
    .assignment ["x"] (.identifier "b")],
  .functionDefinition "g" [] [⟨"y", ""⟩, ⟨"z", ""⟩] []]

/-- The value of `b` is read from a global variable that does not exist yet. -/
theorem eWasmCodeTransform_globalMissing :
    Analyzed callBeforeFunction ∧
      run (.ofBlock .strictAssemblyForSVMObjects callBeforeFunction) callBeforeFunction = none :=
  ⟨⟨by decide, by decide, by decide⟩, by decide +kernel⟩

end EWasmCodeTransform

end Yul
