import Polc.Yul.Optimiser.DataFlowAnalyzer.Properties

/-!
# What the analyser knows is true

Executing code keeps the recorded values true. The statements that are left by `continue` are the
delicate ones: what the analyser knows at the end of a loop body is true at its `continue`s
once the variables assigned to from the first of them on are cleared.
-/

namespace Yul

open Sof Semantics DataFlowAnalyzer List Option Result Expression

variable {World : Type}

/-! ### More on values and variables -/

section

variable {env : Environment World} {dialect : Dialect} {V V' : Variables}

mutual

lemma Expression.movableValues_congr (e : Expression)
    (h : ∀ x ∈ e.referencedVariables, V x = V' x) :
    e.movableValues env dialect V = e.movableValues env dialect V' := by
  match e with
  | .functionalInstruction i args =>
    exact congrArg (movableValue env i) (argumentsMovableValues_congr args h)
  | .functionCall f args =>
    rw [movableValues_functionCall, movableValues_functionCall,
      argumentsMovableValues_congr args h]
  | .identifier x => exact congrArg (fun w => [w.getD 0]) (h x mem_cons_self)
  | .literal l => rfl

lemma argumentsMovableValues_congr (es : List Expression)
    (h : ∀ x ∈ argumentsReferencedVariables es, V x = V' x) :
    argumentsMovableValues env dialect V es = argumentsMovableValues env dialect V' es := by
  match es with
  | [] => rfl
  | e :: es =>
    rw [argumentsReferencedVariables, forall_mem_append] at h
    simp only [argumentsMovableValues]
    rw [e.movableValues_congr h.1, argumentsMovableValues_congr es h.2]

end

lemma Expression.movableWord_congr (e : Expression)
    (h : ∀ x ∈ e.referencedVariables, V x = V' x) :
    e.movableWord env dialect V = e.movableWord env dialect V' :=
  congrArg (·.headD 0) (e.movableValues_congr h)

lemma Variables.assign_zero {xs : List YulString} {x : YulString} (hx : x ∈ xs) :
    V.assign xs [] x = some 0 := by
  induction xs generalizing V with
  | nil => cases hx
  | cons y ys ih =>
    by_cases hmem : x ∈ ys
    · exact ih hmem
    · obtain rfl : x = y := (mem_cons.mp hx).resolve_right hmem
      change Variables.assign _ ys [] x = _
      rw [assign_of_not_mem hmem, set_self]
      rfl

end

/-- All visible variables have values. -/
def Variables.Covers (V : Variables) (Γ : Scope) : Prop := ∀ x ∈ Γ.locals, (V x).isSome

lemma Variables.Covers.of_locals {V : Variables} {Γ Γ' : Scope} (h : V.Covers Γ)
    (hΓ : Γ'.locals ⊆ Γ.locals) : V.Covers Γ' := fun x hx => h x (hΓ hx)

lemma Statement.exec_covers {I : Interpreter World} {Γ : Scope} (s : Statement) (F : Functions)
    {V : Variables} (m : SvmState World) (h : V.Covers Γ) :
    (s.exec I F V m).Returns fun r _ =>
      r.2.Covers Γ ∧ (r.1 = .default → r.2.Covers (Γ.declare s.declares)) := by
  have hkeep : (s.exec I F V m).Returns fun r _ => r.2.Covers Γ := by
    intro r m' hr x hx
    exact (isFrame_isSome x).exec s (fun _ _ => trivial) (fun _ _ => trivial) F V m r m' hr
      (h x hx)
  cases s with
  | variableDeclaration xs e =>
    intro r m' hr
    refine ⟨hkeep r m' hr, fun _ x hx => ?_⟩
    rw [exec_declaration] at hr
    obtain ⟨vs, -, rfl⟩ := map_eq_ok.mp hr
    rcases mem_append.mp hx with hx | hx
    · exact Variables.isSome_assign_iff.mpr (.inl hx)
    · exact Variables.isSome_assign_iff.mpr (.inr (h x hx))
  | _ => exact hkeep.mono fun r _ hr => ⟨hr, fun _ => hr⟩

lemma execBlock_covers {I : Interpreter World} {Γ : Scope} (ss : Block) (F : Functions)
    {V : Variables} (m : SvmState World) (h : V.Covers Γ) :
    (execBlock I F V ss m).Returns fun r _ => r.2.Covers Γ := by
  intro r m' hr x hx
  exact (isFrame_isSome x).execBlock ss (fun _ _ => trivial) (fun _ _ => trivial) F V m r m' hr
    (h x hx)

/-! ### Truth of the recorded values -/

namespace DataFlowAnalyzer

section

variable (env : Environment World) (dialect : Dialect)

/-- What is recorded is true, as far as it is not about the variables `A`. -/
def HoldsExcept (S : DataFlowAnalyzer) (A : List YulString) (V : Variables) : Prop :=
  ∀ x e, S.value x = some e → x ∉ A → (∀ y ∈ e.referencedVariables, y ∉ A) →
    V x = some (e.movableWord env dialect V)

/-- All that is recorded is true. -/
def Holds (S : DataFlowAnalyzer) (V : Variables) : Prop :=
  ∀ x e, S.value x = some e → V x = some (e.movableWord env dialect V)

end

section

variable {env : Environment World} {dialect : Dialect} {Γ : Scope}
  {S S' : DataFlowAnalyzer} {A B : List YulString} {V V' : Variables}

lemma holdsExcept_nil : S.HoldsExcept env dialect [] V ↔ S.Holds env dialect V :=
  ⟨fun h x e he => h x e he not_mem_nil fun _ _ => not_mem_nil,
    fun h x e he _ _ => h x e he⟩

lemma HoldsExcept.mono (h : S.HoldsExcept env dialect A V) (hAB : A ⊆ B) :
    S.HoldsExcept env dialect B V :=
  fun x e he hx hvars => h x e he (fun hmem => hx (hAB hmem)) fun y hy hmem =>
    hvars y hy (hAB hmem)

lemma HoldsExcept.of_value (h : S.HoldsExcept env dialect A V)
    (hS : ∀ x e, S'.value x = some e → x ∉ A → S.value x = some e) :
    S'.HoldsExcept env dialect A V :=
  fun x e he hx hvars => h x e (hS x e he hx) hx hvars

lemma Holds.of_value (h : S.Holds env dialect V)
    (hS : ∀ x e, S'.value x = some e → S.value x = some e) : S'.Holds env dialect V :=
  fun x e he => h x e (hS x e he)

lemma Holds.clearValues (h : S.Holds env dialect V) (vars : List YulString) :
    (S.clearValues vars).Holds env dialect V :=
  h.of_value fun _ _ he => (value_clearValues he).1

lemma HoldsExcept.clearValues (h : S.HoldsExcept env dialect A V) (vars : List YulString) :
    (S.clearValues vars).HoldsExcept env dialect A V :=
  h.of_value fun _ _ he _ => (value_clearValues he).1

lemma HoldsExcept.clearValues_holds (h : S.HoldsExcept env dialect A V)
    (hS : S.WellFormed dialect Γ) : (S.clearValues A).Holds env dialect V := by
  intro x e he
  obtain ⟨hx, hvars⟩ := hS.not_mem_of_clearValues he
  exact h x e (value_clearValues he).1 hx hvars

lemma HoldsExcept.of_not_mem_locals (h : S.HoldsExcept env dialect (A ++ B) V)
    (hS : S.WellFormed dialect Γ) (hB : ∀ x ∈ Γ.locals, x ∉ B) :
    S.HoldsExcept env dialect A V := by
  intro x e he hx hvars
  have hk := hS x e he
  refine h x e he ?_ fun y hy => ?_
  · rw [mem_append, not_or]
    exact ⟨hx, hB x hk.mem_locals⟩
  · rw [mem_append, not_or]
    exact ⟨hvars y hy, hB y (hk.referenced_mem_locals y hy)⟩

/-- What is recorded stays true as far as it is not about the variables that changed. -/
lemma Holds.of_frame (h : S.Holds env dialect V) (hS : S.WellFormed dialect Γ)
    (hS' : ∀ x e, S'.value x = some e →
      S.value x = some e ∧ x ∉ A ∧ ∀ y ∈ e.referencedVariables, y ∉ A)
    (hframe : ∀ x ∈ Γ.locals, x ∉ A → V' x = V x) : S'.Holds env dialect V' := by
  intro x e he
  obtain ⟨hval, hx, hvars⟩ := hS' x e he
  have hk := hS x e hval
  rw [hframe x hk.mem_locals hx, h x e hval]
  refine congrArg some (e.movableWord_congr fun y hy => ?_)
  exact (hframe y (hk.referenced_mem_locals y hy) (hvars y hy)).symm

lemma Holds.frame (h : S.Holds env dialect V) (hS : S.WellFormed dialect Γ)
    (hframe : ∀ x ∈ Γ.locals, x ∉ A → V' x = V x) :
    (S.clearValues A).Holds env dialect V' :=
  h.of_frame hS (fun _ _ he => ⟨(value_clearValues he).1, hS.not_mem_of_clearValues he⟩) hframe

lemma HoldsExcept.popScope {ds : List YulString} (h : S'.HoldsExcept env dialect A V')
    (hS' : S'.popScope.WellFormed dialect Γ)
    (hscopes : S'.variableScopes = declareIn ds (S.pushScope false).variableScopes)
    (hV : V.Covers Γ) : S'.popScope.HoldsExcept env dialect A (V.restrict V') := by
  intro x e he hx hvars
  have hk := hS' x e he
  rw [Variables.restrict_apply_of_isSome (hV x hk.mem_locals),
    h x e (value_popScope hscopes he).1 hx hvars]
  congr 1
  exact e.movableWord_congr fun y hy =>
    (Variables.restrict_apply_of_isSome (hV y (hk.referenced_mem_locals y hy))).symm

lemma Holds.eval_identifier {I : Interpreter World} {F : Functions} {x : YulString}
    {v : Expression} (h : S.Holds I.env I.dialect V) (hS : S.WellFormed I.dialect Γ)
    (hv : S.value x = some v) (m : SvmState World) :
    (Expression.identifier x).eval I F V m = v.eval I F V m := by
  have hk := hS x v hv
  rw [Expression.eval_identifier, h x v hv, v.eval_of_movable hk.movable,
    v.movableValues_eq_singleton hk.movable hk.returns]
  rfl

lemma Holds.handleAssignment (h : S.Holds env dialect V) (hS : S.WellFormed dialect Γ)
    {xs : List YulString} {vs : List Word} {value : Option Expression}
    (hvalid : valueValid dialect Γ xs.length value)
    (hnone : value = none → vs = [])
    (hsome : ∀ e, value = some e → e.movable dialect →
      vs = e.movableValues env dialect V) :
    (S.handleAssignment dialect xs value).Holds env dialect (V.assign xs vs) := by
  intro x e he
  rcases value_handleAssignment he with he | ⟨hx, ⟨rfl, rfl⟩ | ⟨hdedup, rfl, hmov, hnot⟩⟩
  · exact h.frame hS (fun y _ hy => Variables.assign_of_not_mem hy) x e he
  · rw [hnone rfl, Variables.assign_zero hx]
    exact congrArg some (show 0 = (Literal.number "0").word by decide)
  · simp only [valueValid, Bool.and_eq_true, decide_eq_true_eq] at hvalid
    have hlen : xs.length ≤ 1 := hvalid.2 ▸ e.returns_le_one_of_movable Γ hmov
    obtain rfl : xs = [x] := by
      match xs, hlen, hx with
      | [y], _, hx => rw [mem_singleton.mp hx]
    rw [hsome e rfl hmov, Variables.assign_cons, Variables.assign_nil, Variables.set_self]
    refine congrArg some (e.movableWord_congr fun y hy => ?_)
    have hne : y ≠ x := fun heq => hnot (heq ▸ hy)
    exact (Variables.set_of_ne hne).symm

end

end DataFlowAnalyzer

/-- `c'` comes later in a traversal than `c`, after code that assigns to `assignments`. -/
structure SinceContinue.Extends (c c' : SinceContinue) (assignments : List YulString) : Prop where
  names : c.names ⊆ c'.names
  found : c.continueFound = true → c'.continueFound = true
  assignments : c.continueFound = true → assignments ⊆ c'.names

lemma SinceContinue.Extends.refl (c : SinceContinue) : c.Extends c [] :=
  ⟨List.Subset.refl _, id, fun _ => nil_subset _⟩

lemma SinceContinue.Extends.trans {c₁ c₂ c₃ : SinceContinue} {as bs : List YulString}
    (h₁ : c₁.Extends c₂ as) (h₂ : c₂.Extends c₃ bs) : c₁.Extends c₃ (as ++ bs) where
  names := List.Subset.trans h₁.names h₂.names
  found h := h₂.found (h₁.found h)
  assignments h := append_subset.mpr
    ⟨List.Subset.trans (h₁.assignments h) h₂.names, h₂.assignments (h₁.found h)⟩

mutual

lemma sinceContinue_extends (s : Statement) {d : Nat} {c c' : SinceContinue}
    (h : s.sinceContinue d c = some c') : c.Extends c' s.assignments := by
  match s with
  | .assignment xs e =>
    cases h
    by_cases hc : c.continueFound = true
    · rw [if_pos hc]
      exact ⟨subset_append_left _ _, id, fun _ => subset_append_right _ _⟩
    · rw [if_neg hc]
      exact ⟨List.Subset.refl _, id, fun h => absurd h hc⟩
  | .functionDefinition f ps rs body => cases h
  | .if e body => exact sinceContinueOfStatements_extends body h
  | .switch e cases => exact sinceContinueOfCases_extends cases h
  | .forLoop pre e post body =>
    obtain ⟨c₁, h₁, h⟩ := bind_eq_some_iff.mp h
    obtain ⟨c₂, h₂, h⟩ := bind_eq_some_iff.mp h
    exact ((sinceContinueOfStatements_extends pre h₁).trans
      (sinceContinueOfStatements_extends body h₂)).trans
        (sinceContinueOfStatements_extends post h)
  | .continue =>
    cases h
    split
    · exact ⟨List.Subset.refl _, fun _ => rfl, fun _ => nil_subset _⟩
    · exact .refl c
  | .block ss => exact sinceContinueOfStatements_extends ss h
  | .expressionStatement _ | .variableDeclaration _ _ | .break =>
    cases h
    exact .refl c

lemma sinceContinueOfStatements_extends (ss : List Statement) {d : Nat} {c c' : SinceContinue}
    (h : sinceContinueOfStatements d c ss = some c') :
    c.Extends c' (assignmentsOfStatements ss) := by
  match ss with
  | [] =>
    cases h
    exact .refl c
  | s :: ss =>
    obtain ⟨c₁, h₁, h⟩ := bind_eq_some_iff.mp h
    exact (sinceContinue_extends s h₁).trans (sinceContinueOfStatements_extends ss h)

lemma sinceContinueOfCases_extends (cs : List Case) {d : Nat} {c c' : SinceContinue}
    (h : sinceContinueOfCases d c cs = some c') : c.Extends c' (assignmentsOfCases cs) := by
  match cs with
  | [] =>
    cases h
    exact .refl c
  | .mk value body :: cs =>
    obtain ⟨c₁, h₁, h⟩ := bind_eq_some_iff.mp h
    exact (sinceContinueOfStatements_extends body h₁).trans (sinceContinueOfCases_extends cs h)

end

/-! ### Executions keep the recorded values true -/

/-- Visiting an expression keeps it valid, and it keeps its values wherever what is recorded is
true. -/
structure SoundVisit {ξ : Type} (I : Interpreter World)
    (visit : DataFlowAnalyzer → ξ → Expression → Option (Expression × ξ)) : Prop where
  valid : VisitValid I.dialect visit
  eval_eq : ∀ (Γ : Scope) S t e e' t', visit S t e = some (e', t') →
    S.WellFormed I.dialect Γ → e.valid I.dialect Γ = true →
      ∀ V, S.Holds I.env I.dialect V → ∀ F m, e'.eval I F V m = e.eval I F V m

/-- What is recorded after code with the given declarations is true after an execution of it,
and at a `continue` except for the variables assigned to since the first of them. `since` is
the traversal of the code for the latter. -/
def OutcomeHolds (I : Interpreter World) (S : DataFlowAnalyzer) (except declarations : List YulString)
    (since : SinceContinue → Option SinceContinue) (r : LoopState × Variables) : Prop :=
  (r.1 = .default → S.HoldsExcept I.env I.dialect except r.2) ∧
    (r.1 = .continue → ∀ c c', since c = some c' → c'.continueFound = true ∧
      S.HoldsExcept I.env I.dialect (c'.names ++ declarations) r.2)

section

variable {I : Interpreter World} {S S' : DataFlowAnalyzer} {A declarations : List YulString}
  {since : SinceContinue → Option SinceContinue} {V V' : Variables} {Γ : Scope}

lemma OutcomeHolds.default (h : S.Holds I.env I.dialect V) :
    OutcomeHolds I S A declarations since (.default, V) :=
  ⟨fun _ => (holdsExcept_nil.mpr h).mono (nil_subset _), fun h => nomatch h⟩

lemma OutcomeHolds.clearValues {r : LoopState × Variables}
    (h : OutcomeHolds I S A declarations since r) (vars : List YulString) :
    OutcomeHolds I (S.clearValues vars) A declarations since r :=
  ⟨fun hr => (h.1 hr).clearValues vars, fun hr c c' hc =>
    ⟨(h.2 hr c c' hc).1, (h.2 hr c c' hc).2.clearValues vars⟩⟩

lemma OutcomeHolds.popScope {ds : List YulString} {r : LoopState × Variables}
    (h : OutcomeHolds I S' A declarations since r)
    (hS' : S'.popScope.WellFormed I.dialect Γ)
    (hscopes : S'.variableScopes = declareIn ds (S.pushScope false).variableScopes)
    (hV : V.Covers Γ) :
    OutcomeHolds I S'.popScope A declarations since (r.1, V.restrict r.2) :=
  ⟨fun hr => (h.1 hr).popScope hS' hscopes hV, fun hr c c' hc =>
    ⟨(h.2 hr c c' hc).1, (h.2 hr c c' hc).2.popScope hS' hscopes hV⟩⟩

end

section

variable {ξ : Type} {visit : DataFlowAnalyzer → ξ → Expression → Option (Expression × ξ)}
  {I : Interpreter World}

lemma SoundVisit.values (hv : SoundVisit I visit) {Γ : Scope} {S : DataFlowAnalyzer} {t t' : ξ}
    {value value' : Option Expression} {n : Nat} (h : visitValue visit S t value = some (value', t'))
    (hvalid : valueValid I.dialect Γ n value) (hS : S.WellFormed I.dialect Γ)
    {V : Variables} (hold : S.Holds I.env I.dialect V) (F : Functions) (m : SvmState World) :
    (Expression.evaluateMulti I F V value m).Returns fun vs _ =>
      (value' = none → vs = []) ∧ ∀ e, value' = some e → e.movable I.dialect →
        vs = e.movableValues I.env I.dialect V := by
  cases value with
  | none =>
    cases h
    exact .ok ⟨fun _ => rfl, fun _ h => nomatch h⟩
  | some e =>
    obtain ⟨⟨e', t₁⟩, he, heq⟩ := map_eq_some_iff.mp h
    cases heq
    simp only [valueValid, Bool.and_eq_true] at hvalid
    have heval := hv.eval_eq Γ S t e e' t₁ he hS hvalid.1 V hold F m
    intro vs m' hvs
    refine ⟨nofun, fun e₁ he₁ hmov => ?_⟩
    cases he₁
    have : e.eval I F V m = .ok vs m' := hvs
    rw [← heval, e'.eval_of_movable hmov] at this
    cases this
    rfl

/-- What was known before code that is not executed, its assigned variables being cleared. -/
lemma AnalysisStep.skip {Γ : Scope} {S S' : DataFlowAnalyzer}
    {declarations assignments : List YulString}
    (h : AnalysisStep I.dialect Γ [] declarations assignments S S')
    (hd : ∀ x ∈ Γ.locals, x ∉ declarations) {x : YulString} {e : Expression}
    (he : (S'.clearValues assignments).value x = some e) : S.value x = some e :=
  h.backward x e (value_clearValues he).1 (value_clearValues he).2.1
    (hd x (h.wellFormed x e (value_clearValues he).1).mem_locals)

lemma OutcomeHolds.block {Γ Γ' : Scope} {S S' : DataFlowAnalyzer}
    {ds declarations assignments : List YulString} {V : Variables} {ss : Block} {F : Functions}
    {m : SvmState World} {since : SinceContinue → Option SinceContinue}
    (h : (execStatements I (F.register ss) V ss m).Returns fun r _ =>
      OutcomeHolds I S' [] declarations since r)
    (hstep : AnalysisStep I.dialect Γ' ds declarations assignments (S.pushScope false) S')
    (hΓ : Γ'.locals = Γ.locals) (hV : V.Covers Γ) :
    (execBlock I F V ss m).Returns fun r _ =>
      OutcomeHolds I S'.popScope [] declarations since r :=
  h.map fun _ _ hr => hr.popScope (hstep.block hΓ).wellFormed hstep.scopes hV

mutual

lemma exec_holds (hv : SoundVisit I visit) (s : Statement) {s' : Statement} {Γ : Scope}
    {S S' : DataFlowAnalyzer} {t t' : ξ} (h : s.analyze visit I.dialect S t = some (s', S', t'))
    (hvalid : s.valid I.dialect Γ) (hS : S.WellFormed I.dialect Γ) {V : Variables}
    (hV : V.Covers Γ) (hold : S.Holds I.env I.dialect V) (F : Functions) (m : SvmState World) :
    (s.exec I F V m).Returns fun r _ =>
      OutcomeHolds I S' [] s.declarations (fun c => s.sinceContinue 0 c) r := by
  match s with
  | .expressionStatement e =>
    obtain ⟨e', he, rfl, rfl⟩ := analyze_expression h
    exact (Result.Returns.trivial _).map fun _ _ _ => .default hold
  | .assignment xs e =>
    obtain ⟨e', he, rfl, rfl⟩ := analyze_assignment h
    simp only [valid_assignment, Bool.and_eq_true, decide_eq_true_eq] at hvalid
    obtain ⟨⟨-, hval⟩, hret⟩ := hvalid
    obtain ⟨hval', hret'⟩ := hv.valid Γ S t e e' t' he hS hval
    have hvalue : valueValid I.dialect Γ xs.length (some e') = true := by
      simp [valueValid, hval', hret', hret]
    have hvisit : visitValue visit S t (some e) = some (some e', t') := by
      simp [visitValue, he]
    have hvalid' : valueValid I.dialect Γ xs.length (some e) = true := by
      simp [valueValid, hval, hret]
    exact (hv.values hvisit hvalid' hS hold F m).map fun vs m' hvs =>
      .default (hold.handleAssignment hS hvalue hvs.1 hvs.2)
  | .variableDeclaration xs value =>
    obtain ⟨value', he, rfl, rfl⟩ := analyze_declaration h
    simp only [valid_declaration, Bool.and_eq_true] at hvalid
    have hval' := hv.valid.value he (hS.declare _) hvalid.2
    refine (hv.values he hvalid.2 (hS.declare _) hold F m).map fun vs m' hvs => .default ?_
    have hvalue : valueValid I.dialect Γ (xs.map (·.name)).length value' = true := by
      rwa [length_map]
    exact Holds.handleAssignment hold (hS.declare (xs.map (·.name))) hvalue hvs.1 hvs.2
  | .functionDefinition f ps rs body =>
    obtain ⟨body', S₁, hbody, rfl, rfl⟩ := analyze_function h
    exact .ok (.default hold)
  | .if c body =>
    obtain ⟨c', t₁, body', S₁, hc, hbody, rfl, rfl⟩ := analyze_if h
    rw [valid_if, Bool.and_eq_true] at hvalid
    rw [exec_if]
    obtain ⟨hstep, -, -, hassign⟩ :=
      analyzeStatements_step hv.valid body hbody hvalid.2 (hS.enterBlock body)
    refine (Result.Returns.trivial _).bind fun v m' _ _ => ?_
    split
    · have hout := execStatements_holds hv body hbody hvalid.2 (hS.enterBlock body)
        (hV.of_locals (by simp)) hold (F.register body) m'
      exact (OutcomeHolds.block hout hstep (by simp) hV).mono fun r _ hr => hr.clearValues _
    · have hstep : AnalysisStep I.dialect Γ [] _ _ _ _ := hstep.block (by simp)
      refine .ok (.default (hold.of_value fun x e he => ?_))
      rw [hassign] at he
      exact hstep.skip (fun x hx =>
        not_mem_declarationsOfStatements_of_valid (by simpa using hx) body hvalid.2) he
  | .switch e cases =>
    obtain ⟨e', t₁, cs', S₁, he, hcs, rfl, rfl⟩ := analyze_switch h
    rw [valid_switch, Bool.and_eq_true] at hvalid
    obtain ⟨hstep, -, hassign⟩ := analyzeCases_step hv.valid cases hcs hvalid.2 hS
    rw [exec_switch]
    refine (Result.Returns.trivial _).bind fun v m' _ _ => ?_
    refine (execCases_holds hv cases hcs hvalid.2 hS hV hold F v m').mono fun r _ hr => ?_
    refine ⟨fun hdefault => ?_, (hr.clearValues _).2⟩
    rw [holdsExcept_nil, hassign]
    exact (hr.1 hdefault).clearValues_holds hstep.wellFormed
  | .forLoop pre c post body =>
    have hstep := (analyze_step hv.valid _ h hvalid hS).1
    have hd := fun x hx => not_mem_declarations_of_valid (x := x) hx _ hvalid
    obtain ⟨since, c', t₁, body', S₁, t₂, post', S₂, rfl, hsince, hc, hbody, hpost, rfl, rfl⟩ :=
      analyze_forLoop h
    have hS₂ : S₂.popScope.WellFormed I.dialect Γ := by
      simp only [valid_forLoop_nil, Bool.and_eq_true] at hvalid
      have hstep₁ := (analyzeBlock_step hv.valid body hbody hvalid.2 (hS.clearValues _) rfl).1
      exact (analyzeBlock_step hv.valid post hpost hvalid.1.2
        (hstep₁.clearValues since).wellFormed rfl).1.wellFormed
    intro r m' hr
    have hdefault : r.1 = .default := by
      rw [exec_forLoop] at hr
      obtain ⟨r₁, hr₁, rfl⟩ := map_eq_ok.mp hr
      obtain ⟨r₂, m₂, -, hr₂⟩ := bind_eq_ok.mp hr₁
      obtain ⟨V', -, rfl⟩ := map_eq_ok.mp hr₂
      rfl
    refine ⟨fun _ => ?_, fun h => by rw [hdefault] at h; cases h⟩
    -- What is still recorded is about variables that the loop does not change.
    have hframe : ∀ x ∈ Γ.locals, x ∉ assignmentsOfStatements body ++ assignmentsOfStatements post →
        r.2 x = V x := by
      intro x hx ha
      refine (isFrame_unchanged x).exec _ (fun y hy hxy => ha ?_) (fun y hy hxy => hd x hx ?_)
        F V m r m' hr
      · simpa [hxy] using hy
      · simpa [hxy] using hy
    rw [holdsExcept_nil]
    refine hold.of_frame hS (fun x e he => ?_) hframe
    obtain ⟨hx, hvars⟩ := hS₂.not_mem_of_clearValues he
    refine ⟨hstep.backward x e he ?_ (hd x (hstep.wellFormed x e he).mem_locals), hx, hvars⟩
    simpa using hx
  | .break =>
    obtain ⟨rfl, rfl, rfl⟩ := analyze_break h
    exact .ok ⟨nofun, nofun⟩
  | .continue =>
    obtain ⟨rfl, rfl, rfl⟩ := analyze_continue h
    refine .ok ⟨nofun, fun _ c c' hc => ?_⟩
    cases hc
    exact ⟨rfl, (holdsExcept_nil.mpr hold).mono (nil_subset _)⟩
  | .block ss =>
    obtain ⟨ss', S₁, hss, rfl, rfl⟩ := analyze_block h
    obtain ⟨hstep, -⟩ := analyzeStatements_step hv.valid ss hss hvalid (hS.enterBlock ss)
    have hout := execStatements_holds hv ss hss hvalid (hS.enterBlock ss)
      (hV.of_locals (by simp)) hold (F.register ss) m
    exact OutcomeHolds.block hout hstep (by simp) hV

lemma execStatements_holds (hv : SoundVisit I visit) (ss : List Statement)
    {ss' : List Statement} {Γ : Scope} {S S' : DataFlowAnalyzer} {t t' : ξ}
    (h : analyzeStatements visit I.dialect S t ss = some (ss', S', t'))
    (hvalid : statementsValid I.dialect Γ ss) (hS : S.WellFormed I.dialect Γ)
    {V : Variables} (hV : V.Covers Γ) (hold : S.Holds I.env I.dialect V) (F : Functions)
    (m : SvmState World) :
    (execStatements I F V ss m).Returns fun r _ =>
      OutcomeHolds I S' [] (declarationsOfStatements ss)
        (fun c => sinceContinueOfStatements 0 c ss) r := by
  match ss with
  | [] =>
    obtain ⟨rfl, rfl, rfl⟩ := analyze_nil h
    exact .ok (.default hold)
  | s :: ss =>
    obtain ⟨s₁, S₁, t₁, ss₁, hs, hss, rfl⟩ := analyze_cons h
    rw [statementsValid, Bool.and_eq_true] at hvalid
    obtain ⟨hstep, -⟩ := analyze_step hv.valid s hs hvalid.1 hS
    obtain ⟨hstep', -⟩ := analyzeStatements_step hv.valid ss hss hvalid.2 hstep.wellFormed
    rw [execStatements_cons]
    refine (exec_holds hv s hs hvalid.1 hS hV hold F m).bind fun r m' hr hout => ?_
    split
    · rename_i hdefault
      have hV' := (s.exec_covers F m hV r m' hr).2 hdefault
      have hold' := holdsExcept_nil.mp (hout.1 hdefault)
      refine (execStatements_holds hv ss hss hvalid.2 hstep.wellFormed hV' hold' F m').mono
        fun r' _ hr' => ⟨hr'.1, fun hcont c c' hc => ?_⟩
      obtain ⟨c₁, hc₁, hc⟩ := bind_eq_some_iff.mp hc
      obtain ⟨hfound, hexcept⟩ := hr'.2 hcont c₁ c' hc
      refine ⟨hfound, hexcept.mono ?_⟩
      exact append_subset.mpr ⟨subset_append_left _ _,
        subset_append_of_subset_right _ (subset_append_right _ _)⟩
    · refine .ok ⟨fun hdefault => absurd hdefault ‹_›, fun hcont c c' hc => ?_⟩
      obtain ⟨c₁, hc₁, hc⟩ := bind_eq_some_iff.mp hc
      obtain ⟨hfound, hexcept⟩ := hout.2 hcont c c₁ hc₁
      have hext := sinceContinueOfStatements_extends ss hc
      refine ⟨hext.found hfound, (hexcept.mono ?_).of_value fun x e he hx => ?_⟩
      · exact append_subset.mpr ⟨subset_append_of_subset_left _ hext.names,
          subset_append_of_subset_right _ (subset_append_left _ _)⟩
      · rw [mem_append, not_or, declarationsOfStatements, mem_append, not_or] at hx
        exact hstep'.backward x e he (fun hmem => hx.1 (hext.assignments hfound hmem)) hx.2.2

lemma execCases_holds (hv : SoundVisit I visit) (cs : List Case) {cs' : List Case}
    {Γ : Scope} {S S' : DataFlowAnalyzer} {t t' : ξ}
    (h : analyzeCases visit I.dialect S t cs = some (cs', S', t'))
    (hvalid : casesValid I.dialect Γ cs) (hS : S.WellFormed I.dialect Γ)
    {V : Variables} (hV : V.Covers Γ) (hold : S.Holds I.env I.dialect V) (F : Functions)
    (v : Word) (m : SvmState World) :
    (execCases I F V v cs m).Returns fun r _ =>
      OutcomeHolds I S' (assignmentsOfCases cs) (declarationsOfCases cs)
        (fun c => sinceContinueOfCases 0 c cs) r := by
  match cs with
  | [] =>
    obtain ⟨rfl, rfl, rfl⟩ := analyzeCases_nil h
    exact .ok (.default hold)
  | .mk value body :: cs =>
    obtain ⟨body', S₁, t₁, cs₁, hbody, hcs, rfl⟩ := analyzeCases_cons h
    simp only [casesValid, Bool.and_eq_true] at hvalid
    obtain ⟨⟨-, hvbody⟩, hvcs⟩ := hvalid
    obtain ⟨hstep₀, -, -, hassign⟩ :=
      analyzeStatements_step hv.valid body hbody hvbody (hS.enterBlock body)
    have hstep : AnalysisStep I.dialect Γ [] _ _ _ _ := hstep₀.block (by simp)
    have hS₁ := (hstep.clearValues (assignmentsOfStatements body')).wellFormed
    obtain ⟨hstep', -⟩ := analyzeCases_step hv.valid cs hcs hvcs hS₁
    have hd : ∀ x ∈ Γ.locals, x ∉ declarationsOfCases cs := fun x hx =>
      not_mem_declarationsOfCases_of_valid hx cs hvcs
    rw [execCases_cons]
    split
    · have hout := execStatements_holds hv body hbody hvbody (hS.enterBlock body)
        (hV.of_locals (by simp)) hold (F.register body) m
      refine (OutcomeHolds.block hout hstep₀ (by simp) hV).mono fun r _ hr => ?_
      have hr := hr.clearValues (assignmentsOfStatements body')
      refine ⟨fun hdefault => ?_, fun hcont c c' hc => ?_⟩
      · refine ((hr.1 hdefault).mono (nil_subset _)).of_value fun x e he hx => ?_
        rw [assignmentsOfCases, mem_append, not_or] at hx
        exact hstep'.backward x e he hx.2 (hd x (hstep'.wellFormed x e he).mem_locals)
      · obtain ⟨c₁, hc₁, hc⟩ := bind_eq_some_iff.mp hc
        obtain ⟨hfound, hexcept⟩ := hr.2 hcont c c₁ hc₁
        have hext := sinceContinueOfCases_extends cs hc
        refine ⟨hext.found hfound, (hexcept.mono ?_).of_value fun x e he hx => ?_⟩
        · exact append_subset.mpr ⟨subset_append_of_subset_left _ hext.names,
            subset_append_of_subset_right _ (subset_append_left _ _)⟩
        · rw [mem_append, not_or] at hx
          exact hstep'.backward x e he (fun hmem => hx.1 (hext.assignments hfound hmem))
            (hd x (hstep'.wellFormed x e he).mem_locals)
    · have hold' : (S₁.popScope.clearValues (assignmentsOfStatements body')).Holds I.env
          I.dialect V := by
        refine hold.of_value fun x e he => ?_
        rw [hassign] at he
        exact hstep.skip (fun x hx =>
          not_mem_declarationsOfStatements_of_valid (by simpa using hx) body hvbody) he
      refine (execCases_holds hv cs hcs hvcs hS₁ hV hold' F v m).mono fun r _ hr => ?_
      refine ⟨fun hdefault => (hr.1 hdefault).mono (subset_append_right _ _),
        fun hcont c c' hc => ?_⟩
      obtain ⟨c₁, hc₁, hc⟩ := bind_eq_some_iff.mp hc
      obtain ⟨hfound, hexcept⟩ := hr.2 hcont c₁ c' hc
      exact ⟨hfound, hexcept.mono
        (append_subset.mpr ⟨subset_append_left _ _,
        subset_append_of_subset_right _ (subset_append_right _ _)⟩)⟩

end

lemma execBlock_holds (hv : SoundVisit I visit) (ss : List Statement) {ss' : List Statement}
    {Γ Γ' : Scope} {S S' : DataFlowAnalyzer} {t t' : ξ}
    (h : analyzeStatements visit I.dialect (S.pushScope false) t ss = some (ss', S', t'))
    (hvalid : statementsValid I.dialect (Γ'.register ss) ss)
    (hS : S.WellFormed I.dialect Γ) {V : Variables} (hV : V.Covers Γ)
    (hold : S.Holds I.env I.dialect V) (F : Functions) (m : SvmState World)
    (hΓ : Γ'.locals = Γ.locals) :
    (execBlock I F V ss m).Returns fun r _ =>
      OutcomeHolds I S'.popScope [] (declarationsOfStatements ss)
        (fun c => sinceContinueOfStatements 0 c ss) r := by
  have hS' : (S.pushScope false).WellFormed I.dialect (Γ'.register ss) :=
    (hS.pushScope false).of_subset (by simp [hΓ])
  have hout := execStatements_holds hv ss h hvalid hS' (hV.of_locals (by simp [hΓ])) hold
    (F.register ss) m
  exact OutcomeHolds.block hout (analyzeStatements_step hv.valid ss h hvalid hS').1
    (by simp [hΓ]) hV

end

end Yul
