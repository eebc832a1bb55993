import Polc.Yul.Backends.Wasm.EWasmCodeTransform

/-!
# What the translation to WebAssembly does to its state

A statement adds the variables it declares and new names to the local variables, and the labels on
top of the stack are those of the last loop. Programs that satisfy the conditions are translated.
-/

namespace Yul

open List Option Statement Bool

namespace EWasmCodeTransform

lemma containLoop_cons (s : Statement) (ss : List Statement) :
    containLoop (s :: ss) = (containsLoop s || containLoop ss) := by
  rw [containLoop, everyStatement, Bool.not_and]
  rfl

lemma containsLoop_if (c : Expression) (body : Block) :
    containsLoop (.if c body) = containLoop body := by
  rw [containsLoop, Statement.every]
  exact congrArg not (true_and _)

lemma containsLoop_block (ss : Block) : containsLoop (.block ss) = containLoop ss := by
  rw [containsLoop, Statement.every]
  exact congrArg not (true_and _)

/-- There is a loop in one of the cases. -/
def caseContainsLoop (cs : List Case) : Bool := !everyCase (!isForLoop ·) cs

lemma containsLoop_switch (e : Expression) (cs : List Case) :
    containsLoop (.switch e cs) = caseContainsLoop cs := by
  rw [containsLoop, Statement.every]
  exact congrArg not (true_and _)

lemma caseContainsLoop_cons (value : Option Literal) (body : Block) (cs : List Case) :
    caseContainsLoop (.mk value body :: cs) = (containLoop body || caseContainsLoop cs) := by
  rw [caseContainsLoop, everyCase, Bool.not_and]
  rfl

/-! ### The state -/

/-- Names in the state are known to the dispenser, and the global variables are distinct. -/
structure State.Proper (T : State) : Prop where
  nodup : T.globalVariables.Nodup
  used : T.globalVariables ⊆ T.nameDispenser.usedNames

/-- What the translation of statements with the given names does to the state. -/
structure Step (T T' : State) (names : List YulString) (loop : Bool) : Prop where
  used : T.nameDispenser.usedNames ⊆ T'.nameDispenser.usedNames
  globals : T'.globalVariables = T.globalVariables
  kept : T.localVariables ⊆ T'.localVariables
  declared : names ⊆ T'.localVariables
  new : ∀ x ∈ T'.localVariables,
    x ∈ T.localVariables ∨ x ∈ names ∨ x ∉ T.nameDispenser.usedNames
  labels : loop = false → T'.breakContinueLabelNames = T.breakContinueLabelNames

namespace Step

variable {T T' T'' : State} {names names' : List YulString} {loop loop' : Bool}

lemma refl (T : State) : Step T T [] false where
  used := List.Subset.refl _
  globals := rfl
  kept := List.Subset.refl _
  declared := nofun
  new _ hx := .inl hx
  labels _ := rfl

lemma trans (h : Step T T' names loop) (h' : Step T' T'' names' loop') :
    Step T T'' (names ++ names') (loop || loop') where
  used := List.Subset.trans h.used h'.used
  globals := h'.globals.trans h.globals
  kept := List.Subset.trans h.kept h'.kept
  declared := append_subset.mpr ⟨List.Subset.trans h.declared h'.kept, h'.declared⟩
  new x hx := by
    rw [mem_append]
    rcases h'.new x hx with hx | hx | hx
    · exact (h.new x hx).imp_right (.imp_left .inl)
    · exact .inr (.inl (.inr hx))
    · exact .inr (.inr fun hmem => hx (h.used hmem))
  labels hloop := by
    obtain ⟨hl, hl'⟩ := or_eq_false_iff.mp hloop
    exact (h'.labels hl').trans (h.labels hl)

lemma declare (T : State) (xs : List YulString) :
    Step T { T with localVariables := T.localVariables ++ xs } xs false where
  used := List.Subset.refl _
  globals := rfl
  kept := subset_append_left _ _
  declared := subset_append_right _ _
  new _ hx := (mem_append.mp hx).imp_right .inl
  labels _ := rfl

lemma newLocal (T : State) (hint : YulString) :
    Step T (T.newLocal hint).2 [] false where
  used := subset_cons_self _ _
  globals := rfl
  kept := subset_append_left _ _
  declared := nofun
  new x hx := by
    refine (mem_append.mp hx).imp_right fun hx => .inr ?_
    rw [mem_singleton.mp hx]
    exact (T.nameDispenser.fresh_newName hint).notUsed
  labels _ := rfl

lemma pushLabels (T : State) : Step T T.pushLabels.2 [] true where
  used := List.Subset.trans (subset_cons_self _ _) (subset_cons_self _ _)
  globals := rfl
  kept := List.Subset.refl _
  declared := nofun
  new _ hx := .inl hx
  labels := nofun

end Step

variable (T : State) (hint : YulString)

lemma newName_notMem : (T.newName hint).1 ∉ T.nameDispenser.usedNames :=
  (T.nameDispenser.fresh_newName hint).notUsed

lemma newName_ne_empty : (T.newName hint).1 ≠ "" :=
  (T.nameDispenser.fresh_newName hint).notEmpty

lemma newName_mem :
    (T.newName hint).1 ∈ (T.newName hint).2.nameDispenser.usedNames := mem_cons_self

mutual

lemma visitStatement_step (s : Statement) {T T' : State} {e : Wasm.Expression}
    (h : visitStatement T s = some (e, T')) : Step T T' s.names (containsLoop s) := by
  match s with
  | .expressionStatement e =>
    obtain ⟨e', -, h⟩ := map_eq_some_iff.mp h
    cases h
    exact .refl T
  | .assignment xs e =>
    obtain ⟨e', -, h⟩ := bind_eq_some_iff.mp h
    obtain ⟨e'', -, h⟩ := map_eq_some_iff.mp h
    cases h
    exact .refl T
  | .variableDeclaration xs none =>
    cases h
    exact .declare T _
  | .variableDeclaration xs (some e) =>
    obtain ⟨e', -, h⟩ := bind_eq_some_iff.mp h
    obtain ⟨e'', -, h⟩ := map_eq_some_iff.mp h
    cases h
    exact .declare T _
  | .functionDefinition f ps rs body => cases h
  | .if c body =>
    obtain ⟨c', -, h⟩ := bind_eq_some_iff.mp h
    obtain ⟨r, hbody, h⟩ := map_eq_some_iff.mp h
    cases h
    rw [containsLoop_if]
    exact visitAll_step body hbody
  | .switch e cases =>
    obtain ⟨e', -, h⟩ := bind_eq_some_iff.mp h
    obtain ⟨r, hcases, h⟩ := map_eq_some_iff.mp h
    cases h
    rw [containsLoop_switch]
    exact (Step.newLocal T "condition").trans (visitCases_step cases hcases)
  | .forLoop pre c post body =>
    obtain ⟨pre', hpre, h⟩ := bind_eq_some_iff.mp h
    obtain ⟨c', -, h⟩ := bind_eq_some_iff.mp h
    obtain ⟨body', hbody, h⟩ := bind_eq_some_iff.mp h
    obtain ⟨post', hpost, h⟩ := map_eq_some_iff.mp h
    cases h
    have hstep := (((Step.pushLabels T).trans (visitAll_step pre hpre)).trans
      (visitAll_step body hbody)).trans (visitAll_step post hpost)
    exact { hstep with labels := nofun }
  | .break | .continue =>
    obtain ⟨labels, -, h⟩ := map_eq_some_iff.mp h
    cases h
    exact .refl T
  | .block ss =>
    obtain ⟨r, hss, h⟩ := map_eq_some_iff.mp h
    cases h
    rw [containsLoop_block]
    exact visitAll_step ss hss

lemma visitAll_step (ss : List Statement) {T T' : State} {es : List Wasm.Expression}
    (h : visitStatements T ss = some (es, T')) :
    Step T T' (namesOfStatements ss) (containLoop ss) := by
  match ss with
  | [] =>
    cases h
    exact .refl T
  | s :: ss =>
    obtain ⟨r, hs, h⟩ := bind_eq_some_iff.mp h
    obtain ⟨r', hss, h⟩ := map_eq_some_iff.mp h
    cases h
    rw [containLoop_cons]
    exact (visitStatement_step s hs).trans (visitAll_step ss hss)

lemma visitCases_step (cs : List Case) {condition : YulString} {T T' : State}
    {es : List Wasm.Expression} (h : visitCases condition T cs = some (es, T')) :
    Step T T' (namesOfCases cs) (caseContainsLoop cs) := by
  match cs with
  | [] =>
    cases h
    exact .refl T
  | .mk (some value) body :: cs =>
    obtain ⟨value', -, h⟩ := bind_eq_some_iff.mp h
    obtain ⟨r, hbody, h⟩ := bind_eq_some_iff.mp h
    obtain ⟨r', hcs, h⟩ := map_eq_some_iff.mp h
    cases h
    rw [caseContainsLoop_cons]
    exact (visitAll_step body hbody).trans (visitCases_step cs hcs)
  | .mk none body :: cs =>
    rw [visitCases] at h
    split_ifs at h with hcs
    subst hcs
    have hstep := visitAll_step body h
    rw [caseContainsLoop_cons, namesOfCases, namesOfCases, append_nil]
    exact (Bool.or_false _).symm ▸ hstep

end

/-! ### Success -/

section

variable {F : Functions} {xs : List YulString}

lemma visit_literal {l : Literal} (h : (valueOfLiteral l).any (·.toNat < 2 ^ 64)) :
    visit (.literal l) = some (.literal (l.word.setWidth 64)) ∧ l.word.toNat < 2 ^ 64 := by
  obtain ⟨value, hvalue, hlt⟩ := (Option.any_eq_true _ _).mp h
  have hlt := of_decide_eq_true hlt
  have hword : l.word = value := by
    rw [Literal.word, hvalue]
    rfl
  rw [visit, hvalue, bind_some, if_pos hlt, hword]
  exact ⟨rfl, hlt⟩

mutual

lemma exists_visit (e : Expression) (h : analyzed F xs e) : ∃ e', visit e = some e' := by
  match e with
  | .functionalInstruction i args => cases h
  | .functionCall f args =>
    obtain ⟨args', hargs⟩ := exists_visitAll args (and_eq_true_iff.mp h).2
    rw [visit, hargs]
    exact ⟨_, rfl⟩
  | .identifier x => exact ⟨_, rfl⟩
  | .literal l =>
    exact ⟨_, (visit_literal h).1⟩

lemma exists_visitAll (es : List Expression) (h : argumentsAnalyzed F xs es) :
    ∃ es', visitAll es = some es' := by
  match es with
  | [] => exact ⟨_, rfl⟩
  | e :: es =>
    rw [argumentsAnalyzed, and_eq_true, and_eq_true] at h
    obtain ⟨e', he⟩ := exists_visit e h.1.1
    obtain ⟨es', hes⟩ := exists_visitAll es h.2
    rw [visitAll, he, bind_some, hes]
    exact ⟨_, rfl⟩

end

lemma exists_generateMultiAssignment (globals : List YulString) {ys : List YulString}
    (e : Wasm.Expression)
    (hys : ys ≠ []) (hlength : ys.length ≤ globals.length + 1) :
    ∃ e', generateMultiAssignment globals e ys = some e' := by
  match ys with
  | [] => exact absurd rfl hys
  | [y] => exact ⟨_, rfl⟩
  | y :: y' :: ys =>
    rw [generateMultiAssignment, if_pos (Nat.le_of_succ_le_succ hlength)]
    · exact ⟨_, rfl⟩
    · exact nofun

/-- What holds of a statement that can be translated. -/
def isTranslatable (n : Nat) (s : Statement) : Bool := assignsAtMost n s && !s.isFunctionDefinition

lemma head?_isSome {T : State} (h : T.breakContinueLabelNames ≠ []) :
    ∃ labels, T.breakContinueLabelNames.head? = some labels := by
  obtain ⟨labels, rest, hlabels⟩ := exists_cons_of_ne_nil h
  rw [hlabels]
  exact ⟨labels, rfl⟩

mutual

lemma exists_visitStatement (s : Statement) {xs : List YulString} {b b' : Bool} {T : State}
    (hs : statementAnalyzed F b' xs s) (hjumps : jumpsFirst b s)
    (hb : b → T.breakContinueLabelNames ≠ [])
    (htranslatable : s.every (isTranslatable (T.globalVariables.length + 1))) :
    ∃ r, visitStatement T s = some r := by
  match s with
  | .expressionStatement e =>
    obtain ⟨e', he⟩ := exists_visit e (and_eq_true_iff.mp hs).1
    rw [visitStatement, he]
    exact ⟨_, rfl⟩
  | .assignment ys e =>
    simp only [statementAnalyzed, and_eq_true, decide_eq_true_eq] at hs
    obtain ⟨e', he⟩ := exists_visit e hs.1.2
    obtain ⟨e'', he'⟩ := exists_generateMultiAssignment T.globalVariables e' hs.1.1.1
      (of_decide_eq_true (and_eq_true_iff.mp htranslatable).1)
    rw [visitStatement, he, bind_some, he']
    exact ⟨_, rfl⟩
  | .variableDeclaration ys none => exact ⟨_, rfl⟩
  | .variableDeclaration ys (some e) =>
    simp only [statementAnalyzed, and_eq_true, decide_eq_true_eq] at hs
    obtain ⟨e', he⟩ := exists_visit e hs.1.2
    have hnames : ys.map (·.name) ≠ [] := map_eq_nil_iff.not.mpr hs.1.1
    obtain ⟨e'', he'⟩ := exists_generateMultiAssignment T.globalVariables e' hnames
      ((length_map _).trans_le (of_decide_eq_true (and_eq_true_iff.mp htranslatable).1))
    rw [visitStatement, he, bind_some, he']
    exact ⟨_, rfl⟩
  | .functionDefinition f ps rs body =>
    cases (and_eq_true_iff.mp (every_function.mp htranslatable).1).2
  | .if c body =>
    simp only [statementAnalyzed, and_eq_true] at hs
    obtain ⟨c', hc⟩ := exists_visit c hs.1.1
    obtain ⟨r, hr⟩ := exists_visitStatements body hs.2 hjumps hb
      (every_if.mp htranslatable).2
    rw [visitStatement, hc, bind_some, hr]
    exact ⟨_, rfl⟩
  | .switch e cases =>
    simp only [statementAnalyzed, and_eq_true] at hs
    obtain ⟨e', he⟩ := exists_visit e hs.1.1
    obtain ⟨r, hr⟩ := exists_visitCases cases (y := (T.newLocal "condition").1)
      (T := (T.newLocal "condition").2) hs.2 hjumps hb (every_switch.mp htranslatable).2
    rw [visitStatement, he, bind_some, hr]
    exact ⟨_, rfl⟩
  | .forLoop pre c post body =>
    simp only [statementAnalyzed, and_eq_true] at hs
    obtain ⟨⟨⟨⟨hpre, hc⟩, -⟩, hpost⟩, hbody⟩ := hs
    simp only [jumpsFirst, and_eq_true] at hjumps
    obtain ⟨⟨hjpre, hjbody⟩, hjpost⟩ := hjumps
    obtain ⟨-, htpre, htpost, htbody⟩ := every_forLoop.mp htranslatable
    obtain ⟨r₁, hr₁⟩ := exists_visitStatements pre (T := T.pushLabels.2) hpre hjpre nofun htpre
    have hstep₁ := visitAll_step pre hr₁
    obtain ⟨c', hc'⟩ := exists_visit c hc
    obtain ⟨r₂, hr₂⟩ := exists_visitStatements body (T := r₁.2) hbody hjbody
      (fun h => by
        rw [hstep₁.labels ((not_eq_true' _).mp h)]
        exact nofun)
      (by rwa [hstep₁.globals])
    have hstep₂ := visitAll_step body hr₂
    obtain ⟨r₃, hr₃⟩ := exists_visitStatements post (T := r₂.2) hpost hjpost nofun
      (by rwa [hstep₂.globals, hstep₁.globals])
    rw [visitStatement, hr₁, bind_some, hc', bind_some, hr₂, bind_some, hr₃]
    exact ⟨_, rfl⟩
  | .break | .continue =>
    obtain ⟨labels, hlabels⟩ := head?_isSome (hb hjumps)
    rw [visitStatement, hlabels]
    exact ⟨_, rfl⟩
  | .block ss =>
    obtain ⟨r, hr⟩ := exists_visitStatements ss hs hjumps hb
      (every_block.mp htranslatable).2
    rw [visitStatement, hr]
    exact ⟨_, rfl⟩

lemma exists_visitStatements (ss : List Statement) {xs : List YulString} {b b' : Bool} {T : State}
    (hss : statementsAnalyzed F b' xs ss) (hjumps : jumpsFirstAll b ss)
    (hb : b → T.breakContinueLabelNames ≠ [])
    (htranslatable : everyStatement (isTranslatable (T.globalVariables.length + 1)) ss) :
    ∃ r, visitStatements T ss = some r := by
  match ss with
  | [] => exact ⟨_, rfl⟩
  | s :: ss =>
    rw [statementsAnalyzed, and_eq_true] at hss
    rw [jumpsFirstAll, and_eq_true] at hjumps
    rw [everyStatement_cons] at htranslatable
    obtain ⟨r, hr⟩ := exists_visitStatement s hss.1 hjumps.1 hb htranslatable.1
    have hstep := visitStatement_step s hr
    obtain ⟨r', hr'⟩ := exists_visitStatements ss (T := r.2) hss.2 hjumps.2
      (fun h => by
        obtain ⟨h, hloop⟩ := and_eq_true_iff.mp h
        rw [hstep.labels ((not_eq_true' _).mp hloop)]
        exact hb h)
      (by rw [hstep.globals]; exact htranslatable.2)
    rw [visitStatements, hr, bind_some, hr']
    exact ⟨_, rfl⟩

lemma exists_visitCases (cs : List Case) {y : YulString} {xs : List YulString}
    {b b' : Bool} {T : State} (hcs : casesAnalyzed F b' xs cs)
    (hjumps : jumpsFirstCases b cs) (hb : b → T.breakContinueLabelNames ≠ [])
    (htranslatable : everyCase (isTranslatable (T.globalVariables.length + 1)) cs) :
    ∃ r, visitCases y T cs = some r := by
  match cs with
  | [] => exact ⟨_, rfl⟩
  | .mk value body :: cs =>
    simp only [casesAnalyzed, and_eq_true] at hcs
    obtain ⟨⟨⟨hvalue, hlast⟩, hbody⟩, hcs⟩ := hcs
    rw [jumpsFirstCases, and_eq_true] at hjumps
    rw [everyCase_cons] at htranslatable
    obtain ⟨r, hr⟩ := exists_visitStatements body hbody hjumps.1 hb htranslatable.1
    cases value with
    | none =>
      rw [visitCases, if_pos (of_decide_eq_true hlast), hr]
      exact ⟨_, rfl⟩
    | some l =>
      have hstep := visitAll_step body hr
      obtain ⟨r', hr'⟩ := exists_visitCases cs (T := r.2) (y := y) hcs hjumps.2
        (fun h => by
          obtain ⟨h, hloop⟩ := and_eq_true_iff.mp h
          rw [hstep.labels ((not_eq_true' _).mp hloop)]
          exact hb h)
        (by rw [hstep.globals]; exact htranslatable.2)
      rw [visitCases, (visit_literal hvalue).1, bind_some, hr, bind_some, hr']
      exact ⟨_, rfl⟩

end

end

/-- What the translation of functions does to the state. -/
structure ProgramStep (T T' : State) : Prop where
  proper : T.Proper → T'.Proper
  used : T.nameDispenser.usedNames ⊆ T'.nameDispenser.usedNames
  globals : T.globalVariables <+: T'.globalVariables

namespace ProgramStep

variable {T T' T'' : State}

lemma refl (T : State) : ProgramStep T T := ⟨id, List.Subset.refl _, prefix_refl _⟩

lemma trans (h : ProgramStep T T') (h' : ProgramStep T' T'') : ProgramStep T T'' where
  proper hT := h'.proper (h.proper hT)
  used := List.Subset.trans h.used h'.used
  globals := h.globals.trans h'.globals

end ProgramStep

lemma addGlobals_spec (n : Nat) :
    ProgramStep T (T.addGlobals n) ∧ (T.addGlobals n).localVariables = T.localVariables ∧
      (T.addGlobals n).globalVariables.length = T.globalVariables.length + n := by
  induction n generalizing T with
  | zero => exact ⟨.refl T, rfl, rfl⟩
  | succ n ih =>
    have hnew := newName_notMem T "global_"
    obtain ⟨hstep, hlocals, hlength⟩ := ih { (T.newName "global_").2 with
      globalVariables := (T.newName "global_").2.globalVariables ++ [(T.newName "global_").1] }
    refine ⟨.trans ⟨fun hT => ⟨?_, ?_⟩, ?_, ?_⟩ hstep, hlocals, ?_⟩
    · refine nodup_append'.mpr ⟨hT.nodup, nodup_singleton _, fun x hx hx' => hnew ?_⟩
      rw [← mem_singleton.mp hx']
      exact hT.used hx
    · refine append_subset.mpr ⟨fun x hx => mem_cons_of_mem _ (hT.used hx), ?_⟩
      exact cons_subset.mpr ⟨newName_mem T "global_", nil_subset _⟩
    · exact subset_cons_self _ _
    · exact prefix_append _ _
    · rw [State.addGlobals, hlength, length_append, length_singleton, Nat.add_assoc,
        Nat.add_comm 1]
      rfl

lemma allocateGlobals_spec (amount : Nat) :
    ProgramStep T (T.allocateGlobals amount) ∧
      (T.allocateGlobals amount).localVariables = T.localVariables ∧
      (T.allocateGlobals amount).globalVariables.length = max T.globalVariables.length amount := by
  obtain ⟨hstep, hlocals, hlength⟩ := addGlobals_spec T (amount - T.globalVariables.length)
  refine ⟨hstep, hlocals, ?_⟩
  rw [State.allocateGlobals, hlength]
  omega

/-- A function that can be translated with `n - 1` global variables. -/
structure FunctionTranslatable (F : Functions) (n : Nat) (d : FunctionDefinition) : Prop where
  analyzed : statementsAnalyzed F false
    (d.parameters.map (·.name) ++ d.returnVariables.map (·.name)) d.body = true
  jumpsFirst : jumpsFirstAll false d.body = true
  translatable : everyStatement (isTranslatable n) d.body = true

section

variable {F : Functions} {T T' : State} {f : YulString} {d : FunctionDefinition}
  {d' : Wasm.FunctionDefinition}

lemma translateFunction_step (h : translateFunction T f d = some (d', T')) :
    ProgramStep T T' ∧ T'.localVariables = [] ∧
      T'.globalVariables.length = max T.globalVariables.length (d.returnVariables.length - 1) := by
  rw [translateFunction] at h
  split_ifs at h
  obtain ⟨r, hr, h⟩ := map_eq_some_iff.mp h
  cases h
  have hbody := visitAll_step d.body hr
  have hclear : ProgramStep T r.2.clearLocals := by
    refine ⟨fun hT => ⟨?_, ?_⟩, hbody.used, ?_⟩
    · rw [State.clearLocals, hbody.globals]
      exact hT.nodup
    · rw [State.clearLocals, hbody.globals]
      exact List.Subset.trans hT.used hbody.used
    · rw [State.clearLocals, hbody.globals]
  obtain ⟨hstep, hlocals, hlength⟩ := allocateGlobals_spec r.2.clearLocals
    ((d.returnVariables.map (·.name)).length - 1)
  refine ⟨hclear.trans hstep, hlocals, ?_⟩
  rw [hlength, State.clearLocals, hbody.globals, length_map]

lemma exists_translateFunction (hT : T.localVariables = [])
    (hd : FunctionTranslatable F (T.globalVariables.length + 1) d) :
    ∃ r, translateFunction T f d = some r := by
  obtain ⟨r, hr⟩ := exists_visitStatements d.body (T := T) hd.analyzed hd.jumpsFirst nofun
    hd.translatable
  rw [translateFunction, if_neg (not_not.mpr hT), hr]
  exact ⟨_, rfl⟩

end

/-! ### Programs -/

section

variable {F : Functions} {T T' : State} {ss : List Statement} {ds : List Wasm.FunctionDefinition}

/-- The conditions hold for each function with the global variables that there are when it is
translated. -/
lemma exists_translateFunctions {n : Nat} (hT : T.localVariables = [])
    (hn : n = T.globalVariables.length + 1) (hflat : ss.all isFlatFunction)
    (hanalyzed : statementsAnalyzed F false [] ss) (hjumps : jumpsFirstAll false ss)
    (hglobals : globalsSuffice n ss) : ∃ r, translateFunctions T ss = some r := by
  induction ss generalizing T n with
  | nil => exact ⟨_, rfl⟩
  | cons s ss ih =>
    rw [all_cons, and_eq_true] at hflat
    cases s with
    | functionDefinition f ps rs body =>
      rw [isFlatFunction, and_eq_true, decide_eq_true_eq] at hflat
      rw [statementsAnalyzed, and_eq_true] at hanalyzed
      rw [jumpsFirstAll, and_eq_true] at hjumps
      rw [globalsSuffice, and_eq_true] at hglobals
      have hd : FunctionTranslatable F (T.globalVariables.length + 1) ⟨ps, rs, body⟩ :=
        ⟨hanalyzed.1, hjumps.1, everyStatement_and body (hn ▸ hglobals.1) hflat.1.2⟩
      obtain ⟨⟨d', T₁⟩, hr⟩ := exists_translateFunction (f := f) hT hd
      obtain ⟨-, hlocals, hlength⟩ := translateFunction_step hr
      obtain ⟨r', hr'⟩ := ih hlocals (n := max n rs.length)
        (by
          rw [hlength, hn]
          show max (_ + 1) rs.length = max _ (rs.length - 1) + 1
          omega)
        hflat.2 hanalyzed.2 hjumps.2 hglobals.2
      rw [translateFunctions, hr, bind_some, hr']
      exact ⟨_, rfl⟩
    | _ => cases hflat.1

lemma translateFunctions_step (h : translateFunctions T ss = some (ds, T')) :
    ProgramStep T T' := by
  induction ss generalizing T ds with
  | nil =>
    cases h
    exact .refl _
  | cons s ss ih =>
    cases s with
    | functionDefinition f ps rs body =>
      obtain ⟨r, hr, h⟩ := bind_eq_some_iff.mp h
      obtain ⟨r', hr', h⟩ := map_eq_some_iff.mp h
      cases h
      exact (translateFunction_step hr).1.trans (ih hr')
    | _ => cases h

lemma translateFunction_name {f : YulString} {d : FunctionDefinition}
    {d' : Wasm.FunctionDefinition} (h : translateFunction T f d = some (d', T')) : d'.name = f := by
  rw [translateFunction] at h
  split_ifs at h
  obtain ⟨r, -, h⟩ := map_eq_some_iff.mp h
  cases h
  rfl

lemma translateFunctions_find {f : YulString} {d : FunctionDefinition}
    (hnodup : ((functionDefinitions ss).map (·.1)).Nodup)
    (h : translateFunctions T ss = some (ds, T')) (hd : (f, d) ∈ functionDefinitions ss) :
    ∃ T₁ d' T₁', translateFunction T₁ f d = some (d', T₁') ∧
      ds.find? (·.name = f) = some d' ∧ ProgramStep T T₁ ∧ ProgramStep T₁' T' := by
  induction ss generalizing T ds with
  | nil => cases hd
  | cons s ss ih =>
    cases s with
    | functionDefinition g ps rs body =>
      obtain ⟨r, hr, h⟩ := bind_eq_some_iff.mp h
      obtain ⟨r', hr', h⟩ := map_eq_some_iff.mp h
      cases h
      obtain ⟨hg, hnodup⟩ := nodup_cons.mp hnodup
      have hname := translateFunction_name hr
      rcases mem_cons.mp hd with hd | hd
      · cases hd
        refine ⟨T, r.1, r.2, hr, ?_, .refl T, translateFunctions_step hr'⟩
        rw [find?_cons, decide_eq_true hname]
      · obtain ⟨T₁, d', T₁', hd', hfind, hstep, hstep'⟩ := ih hnodup hr' hd
        refine ⟨T₁, d', T₁', hd', ?_, (translateFunction_step hr).1.trans hstep, hstep'⟩
        have hfg : r.1.name ≠ f := by
          rintro rfl
          rw [hname] at hd
          exact hg (List.mem_map.mpr ⟨_, hd, rfl⟩)
        rw [find?_cons, decide_eq_false hfg]
        exact hfind
    | _ => cases h

end

end EWasmCodeTransform

end Yul
