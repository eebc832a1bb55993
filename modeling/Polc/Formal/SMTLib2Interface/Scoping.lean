import Mathlib
import Polc.Formal.SMTLib2Interface

/-!
# Scoping of the SMT-LIB2 text

In which states that sequences of calls come to the text of a query declares every variable it uses.
-/

namespace Polynomial.Smt

open Semantics List Option

/-- The calls of the interface. -/
inductive Call where
  | reset
  | push
  | pop
  | newVariable (name : String) (sort : SmtSort)
  | addAssertion (e : Expression)
  | check (expressionsToEvaluate : List Expression)

namespace Call

/-- What the code does. There is no result if an assertion of the code fails. -/
def perform (queryResponses : String → Option String) (st : SMTLib2Interface) :
    Call → Option SMTLib2Interface
  | reset => some st.reset
  | push => some st.push
  | pop => st.pop
  | newVariable name sort => st.declareVariable name sort
  | addAssertion e => st.addAssertion e
  | check es => (st.check queryResponses es).map Prod.snd

/-- The variables that have been requested since the last other call. -/
def requested (names : List String) : Call → List String
  | newVariable name _ => name :: names
  | _ => []

/-- There is a `push` for every `pop`, and the variables of an expression have been requested right
before it is used. -/
def Valid (st : SMTLib2Interface) (names : List String) : Call → Prop
  | pop => 1 < st.accumulatedOutput.length
  | addAssertion e => ∀ x ∈ e.symbols, x ∈ names
  | check es => ∀ e ∈ es, ∀ x ∈ e.symbols, x ∈ names
  | _ => True

/-- No variable is requested again whose declaration has been dropped with its frame, and none has the
name of a constant for the value of an expression. -/
def KeepsDeclarations (st : SMTLib2Interface) : Call → Prop
  | newVariable name _ => name ∈ st.declaredVariables → name ∈ declared Command.declares st.output
  | check es => ∀ i < es.length, evaluationName i ∉ st.declaredVariables
  | _ => True

end Call

/-- The states that valid sequences of calls come to whose calls meet a condition, with the variables
that have been requested since the last other call. -/
inductive Reaches (queryResponses : String → Option String)
    (condition : SMTLib2Interface → Call → Prop) : SMTLib2Interface → List String → Prop
  | start : Reaches queryResponses condition .initial []
  | step {st st' : SMTLib2Interface} {names : List String}
      (h : Reaches queryResponses condition st names) (call : Call) (hvalid : call.Valid st names)
      (hcondition : condition st call) (hperform : call.perform queryResponses st = some st') :
      Reaches queryResponses condition st' (call.requested names)

variable {st st' : SMTLib2Interface} {names : List String} {c : Command} {name : String}
  {sort : SmtSort} {es : List Expression} {commands script : List Command}
  {queryResponses : String → Option String}

namespace SMTLib2Interface

@[simp] lemma output_push : st.push.output = st.output := by
  simp [push, output]

lemma output_pop (h : st.pop = some st') :
    (∃ frame, st.output = st'.output ++ frame) ∧
      st'.declaredVariables = st.declaredVariables := by
  unfold pop at h
  split at h
  · cases h
  · rename_i frame frames hframes
    cases h
    exact ⟨⟨frame, by simp [output, hframes]⟩, rfl⟩

lemma output_write (h : st.write c = some st') :
    st'.output = st.output ++ [c] ∧ st'.declaredVariables = st.declaredVariables := by
  unfold write at h
  split at h
  · cases h
  · rename_i frame frames hframes
    cases h
    exact ⟨by simp [output, hframes], rfl⟩

lemma output_declareVariable (h : st.declareVariable name sort = some st')
    (hnew : name ∉ st.declaredVariables) :
    (∃ domain codomain, st'.output = st.output ++ [.declareFun name domain codomain]) ∧
      st'.declaredVariables = name :: st.declaredVariables := by
  unfold declareVariable at h
  rw [if_neg hnew] at h
  obtain ⟨⟨domain, codomain⟩, -, hwrite⟩ := bind_eq_some_iff.mp h
  obtain ⟨houtput, hnames⟩ := output_write hwrite
  exact ⟨⟨domain, codomain, houtput⟩, hnames⟩

lemma check_output {queryResponses : String → Option String} {result : CheckResult × List String}
    (h : st.check queryResponses es = some (result, st')) :
    st'.output = st.output ∧ st'.declaredVariables = st.declaredVariables := by
  unfold check at h
  obtain ⟨commands, -, hcheck⟩ := bind_eq_some_iff.mp h
  unfold querySolver at hcheck
  cases hresponse : queryResponses (st.queryText commands) with
  | none =>
    rw [hresponse] at hcheck
    cases hcheck
    exact ⟨rfl, rfl⟩
  | some response =>
    rw [hresponse] at hcheck
    cases hcheck
    exact ⟨rfl, rfl⟩

end SMTLib2Interface

lemma evaluationName_inj {i j : ℕ} : evaluationName i = evaluationName j ↔ i = j := by
  unfold evaluationName
  rw [String.append_right_inj]
  exact Nat.repr_inj

lemma declared_evaluations {i : ℕ}
    (h : SMTLib2Interface.evaluations i es = some commands) :
    declared Command.declares commands = (List.range' i es.length).map evaluationName := by
  induction es generalizing i commands with
  | nil =>
    cases h
    rfl
  | cons e es ih =>
    unfold SMTLib2Interface.evaluations at h
    obtain ⟨text, -, h⟩ := bind_eq_some_iff.mp h
    obtain ⟨rest, hrest, h⟩ := bind_eq_some_iff.mp h
    cases h
    simp only [declared_cons, ih hrest, Command.declares, length_cons, range'_succ,
      map_cons, nil_append, singleton_append]

lemma scopedFrom_evaluations {i : ℕ} {known : List String}
    (h : SMTLib2Interface.evaluations i es = some commands)
    (hknown : ∀ e ∈ es, ∀ x ∈ e.symbols, x ∈ known) :
    ScopedFrom Command.declares Command.uses known commands := by
  induction es generalizing i commands known with
  | nil =>
    cases h
    trivial
  | cons e es ih =>
    unfold SMTLib2Interface.evaluations at h
    obtain ⟨text, -, h⟩ := bind_eq_some_iff.mp h
    obtain ⟨rest, hrest, h⟩ := bind_eq_some_iff.mp h
    cases h
    refine ⟨nofun, fun x hx => ?_, ih hrest fun e' he' x hx => ?_⟩
    · rcases mem_cons.mp hx with rfl | hx
      · exact mem_append_right _ (mem_singleton_self _)
      · exact mem_append_left _ (hknown e mem_cons_self x hx)
    · exact mem_append_left _
        (mem_append_left _ (hknown e' (mem_cons_of_mem _ he') x hx))

lemma checkSatAndGetValuesCommand_scoped {known : List String}
    (h : SMTLib2Interface.checkSatAndGetValuesCommand es = some commands)
    (hknown : ∀ e ∈ es, ∀ x ∈ e.symbols, x ∈ known) :
    declared Command.declares commands = (List.range es.length).map evaluationName ∧
      ScopedFrom Command.declares Command.uses known commands := by
  unfold SMTLib2Interface.checkSatAndGetValuesCommand at h
  split_ifs at h with hempty
  · cases h
    rw [List.isEmpty_iff] at hempty
    subst hempty
    exact ⟨rfl, nofun, trivial⟩
  · obtain ⟨evaluations, hevaluations, h⟩ := bind_eq_some_iff.mp h
    cases h
    have hdeclared := declared_evaluations hevaluations
    refine ⟨?_, scopedFrom_append.mpr ⟨scopedFrom_evaluations hevaluations hknown, nofun, ?_,
      trivial⟩⟩
    · rw [declared_append, hdeclared, range_eq_range']
      exact append_nil _
    · intro x hx
      rw [hdeclared, ← range_eq_range']
      exact mem_append_left _ (mem_append_right _ hx)

/-! ### The invariant -/

/-- The output declares names once and before it uses them, also those that have been requested. -/
structure IsScoped (st : SMTLib2Interface) (names : List String) : Prop where
  scopedFrom : ScopedFrom Command.declares Command.uses [] st.output
  nodup : (declared Command.declares st.output).Nodup
  subset : declared Command.declares st.output ⊆ st.declaredVariables
  requested : names ⊆ declared Command.declares st.output

lemma IsScoped.of_output (h : IsScoped st names) (houtput : st'.output = st.output)
    (hnames : st'.declaredVariables = st.declaredVariables) : IsScoped st' [] where
  scopedFrom := houtput ▸ h.scopedFrom
  nodup := houtput ▸ h.nodup
  subset := by
    rw [houtput, hnames]
    exact h.subset
  requested := nil_subset _

lemma IsScoped.reset (st : SMTLib2Interface) : IsScoped st.reset [] :=
  ⟨⟨nofun, nofun, trivial⟩, nodup_nil, nil_subset _, nil_subset _⟩

lemma IsScoped.pop (h : IsScoped st names) (hpop : st.pop = some st') : IsScoped st' [] := by
  obtain ⟨⟨frame, houtput⟩, hnames⟩ := SMTLib2Interface.output_pop hpop
  have hscoped := h.scopedFrom
  have hnodup := h.nodup
  have hsubset := h.subset
  rw [houtput, scopedFrom_append] at hscoped
  rw [houtput, declared_append] at hnodup hsubset
  refine ⟨hscoped.1, hnodup.of_append_left, fun x hx => ?_, nil_subset _⟩
  rw [hnames]
  exact hsubset (mem_append_left _ hx)

lemma IsScoped.addAssertion (h : IsScoped st names) {e : Expression}
    (hvalid : ∀ x ∈ e.symbols, x ∈ names) (hadd : st.addAssertion e = some st') :
    IsScoped st' [] := by
  obtain ⟨houtput, hnames⟩ := SMTLib2Interface.output_write hadd
  have hdeclared : declared Command.declares st'.output =
      declared Command.declares st.output := by
    rw [houtput, declared_append]
    exact append_nil _
  refine ⟨?_, ?_, ?_, nil_subset _⟩
  · rw [houtput]
    exact scopedFrom_append.mpr ⟨h.scopedFrom, fun x hx => h.requested (hvalid x hx), trivial⟩
  · rw [hdeclared]
    exact h.nodup
  · rw [hdeclared, hnames]
    exact h.subset

lemma IsScoped.declareVariable (h : IsScoped st names)
    (hkeeps : name ∈ st.declaredVariables → name ∈ declared Command.declares st.output)
    (hdeclare : st.declareVariable name sort = some st') : IsScoped st' (name :: names) := by
  by_cases hold : name ∈ st.declaredVariables
  · unfold SMTLib2Interface.declareVariable at hdeclare
    rw [if_pos hold] at hdeclare
    cases hdeclare
    exact ⟨h.scopedFrom, h.nodup, h.subset, cons_subset.mpr ⟨hkeeps hold, h.requested⟩⟩
  · obtain ⟨⟨domain, codomain, houtput⟩, hnames⟩ :=
      SMTLib2Interface.output_declareVariable hdeclare hold
    have hdeclared : declared Command.declares st'.output =
        declared Command.declares st.output ++ [name] := by
      rw [houtput, declared_append]
      rfl
    refine ⟨?_, ?_, fun x hx => ?_, fun x hx => ?_⟩
    · rw [houtput]
      exact scopedFrom_append.mpr ⟨h.scopedFrom, nofun, trivial⟩
    · rw [hdeclared]
      refine h.nodup.append (nodup_singleton _) fun x hx hname => ?_
      rw [mem_singleton.mp hname] at hx
      exact hold (h.subset hx)
    · rw [hdeclared] at hx
      rw [hnames]
      rcases mem_append.mp hx with hx | hx
      · exact mem_cons_of_mem _ (h.subset hx)
      · exact mem_cons.mpr (.inl (mem_singleton.mp hx))
    · rw [hdeclared]
      rcases mem_cons.mp hx with rfl | hx
      · exact mem_append_right _ (mem_singleton_self _)
      · exact mem_append_left _ (h.requested hx)

/-- One call. -/
theorem IsScoped.perform (h : IsScoped st names) {call : Call} (hvalid : call.Valid st names)
    (hkeeps : call.KeepsDeclarations st) (hperform : call.perform queryResponses st = some st') :
    IsScoped st' (call.requested names) := by
  cases call with
  | reset =>
    cases hperform
    exact .reset st
  | push =>
    cases hperform
    exact h.of_output SMTLib2Interface.output_push rfl
  | pop => exact h.pop hperform
  | newVariable name sort => exact h.declareVariable hkeeps hperform
  | addAssertion e => exact h.addAssertion hvalid hperform
  | check es =>
    obtain ⟨⟨result, st''⟩, hcheck, rfl⟩ := map_eq_some_iff.mp hperform
    obtain ⟨houtput, hnames⟩ := SMTLib2Interface.check_output hcheck
    exact h.of_output houtput hnames

theorem Reaches.isScoped
    (h : Reaches queryResponses (fun st call => call.KeepsDeclarations st) st names) :
    IsScoped st names := by
  induction h with
  | start => exact .reset _
  | step _ call hvalid hkeeps hperform ih => exact ih.perform hvalid hkeeps hperform

lemma IsScoped.wellScoped (h : IsScoped st names) (hvalid : (Call.check es).Valid st names)
    (hkeeps : (Call.check es).KeepsDeclarations st) (hscript : st.script es = some script) :
    WellScoped Command.declares Command.uses script := by
  obtain ⟨commands, hcommands, hscript⟩ := bind_eq_some_iff.mp hscript
  cases hscript
  obtain ⟨hdeclared, hscoped⟩ := checkSatAndGetValuesCommand_scoped hcommands
    fun e he x hx => h.requested (hvalid e he x hx)
  refine ScopedFrom.wellScoped (scopedFrom_append.mpr ⟨h.scopedFrom, by simpa using hscoped⟩) ?_
  rw [declared_append, hdeclared]
  refine h.nodup.append (nodup_range.map fun i j => evaluationName_inj.mp) fun x hx hname => ?_
  obtain ⟨i, hi, rfl⟩ := List.mem_map.mp hname
  exact hkeeps i (mem_range.mp hi) (h.subset hx)

/-- In every run that keeps the declarations, the text of each query declares every variable that it
uses exactly once and before its first use. -/
theorem script_wellScoped
    (h : Reaches queryResponses (fun st call => call.KeepsDeclarations st) st names)
    (hvalid : (Call.check es).Valid st names) (hkeeps : (Call.check es).KeepsDeclarations st)
    (hscript : st.script es = some script) :
    WellScoped Command.declares Command.uses script :=
  h.isScoped.wellScoped hvalid hkeeps hscript

/-- A variable is not declared again if its declaration has been dropped. Then a query that evaluates it
is not well-scoped. -/
theorem not_wellScoped_of_dropped (hold : name ∈ st.declaredVariables)
    (hdropped : name ∉ declared Command.declares st.output) (hname : name ≠ evaluationName 0)
    (hdeclare : st.declareVariable name sort = some st')
    (hscript : st'.script [.symbol name .int] = some script) :
    ¬ WellScoped Command.declares Command.uses script := by
  unfold SMTLib2Interface.declareVariable at hdeclare
  rw [if_pos hold] at hdeclare
  cases hdeclare
  cases hscript
  intro h
  have hmem := (h (st.output ++ [.declareConst 0 "Int"]) (.assertEvaluation 0 (.symbol name .int))
    [.checkSat, .getValue 1] (by simp) name
    (mem_cons_of_mem _ (mem_singleton_self _))).1
  rw [declared_append] at hmem
  rcases mem_append.mp hmem with hmem | hmem
  · exact hdropped hmem
  · exact hname (mem_singleton.mp hmem)

lemma valid_check_symbol (st : SMTLib2Interface) :
    (Call.check [.symbol "x" .int]).Valid st ["x"] := by
  intro e he x hx
  rw [mem_singleton.mp he] at hx
  exact hx

/-- A variable is requested and its value asked for. -/
theorem script_wellScoped_evaluation :
    WellScoped Command.declares Command.uses
      [.setting "(set-option :produce-models true)", .setting "(set-logic QF_UFLIA)",
        .declareFun "x" "()" "Int", .declareConst 0 "Int", .assertEvaluation 0 (.symbol "x" .int),
        .checkSat, .getValue 1] := by
  have hstart : Reaches (fun _ => none) (fun st call => call.KeepsDeclarations st) .initial [] :=
    .start
  have hreaches := hstart.step (.newVariable "x" .int) trivial nofun rfl
  refine script_wellScoped hreaches (valid_check_symbol _) (fun i hi hmem => ?_) rfl
  obtain rfl : i = 0 := Nat.lt_one_iff.mp hi
  exact absurd hmem (by decide)

/-- A variable has been declared in a frame that has been dropped. -/
def declarationDropped : SMTLib2Interface :=
  ⟨[[.setting "(set-option :produce-models true)", .setting "(set-logic QF_UFLIA)"]], ["x"], []⟩

/-- A variable that is requested in a frame that is dropped is not declared where it is used later. -/
theorem script_notDeclared :
    ¬ ∀ st names, Reaches (fun _ => none) (fun _ _ => True) st names →
      ∀ es script, (Call.check es).Valid st names → st.script es = some script →
        WellScoped Command.declares Command.uses script := by
  intro h
  have hstart : Reaches (fun _ => none) (fun _ _ => True) .initial [] := .start
  have hpush := hstart.step .push trivial trivial rfl
  have hdeclared := hpush.step (.newVariable "x" .int) trivial trivial rfl
  have hpop : Reaches (fun _ => none) (fun _ _ => True) declarationDropped [] :=
    hdeclared.step .pop Nat.one_lt_two trivial rfl
  have hagain := hpop.step (.newVariable "x" .int) trivial trivial rfl
  have hscoped := h _ _ hagain [.symbol "x" .int] _ (valid_check_symbol _) rfl
  have hdeclare : declarationDropped.declareVariable "x" .int = some declarationDropped := rfl
  exact not_wellScoped_of_dropped (mem_singleton_self "x") (by decide) (by decide) hdeclare
    rfl hscoped

end Polynomial.Smt
