import Polc.Yul.AsmAnalysis.Properties
import Polc.Yul.Optimiser.DataFlowAnalyzer

/-!
# What the analyser records

Properties of the analysis alone, before any execution: what is recorded about a variable is a
valid movable expression over visible variables, and is only changed by code that assigns to
the variable.
-/

namespace Yul

open List Expression Scope
open Bool (and_eq_true)

/-! ### Valid expressions -/

section

variable {dialect : Dialect} {Γ Γ' : Scope}

variable {f : YulString}

lemma Expression.returns_functionCall {es : List Expression} :
    (functionCall f es).returns dialect Γ = ((Γ.arity dialect f).getD (0, 0)).2 := rfl

section

variable {es es' : List Expression}

lemma literalArgumentsValid_of_not_requiresLiterals (h : dialect.requiresLiterals f = false) :
    literalArgumentsValid dialect f es := by
  unfold literalArgumentsValid
  cases hb : dialect.builtin f with
  | none => rfl
  | some b =>
    rw [Dialect.requiresLiterals_of_builtin hb] at h
    simp [h]

lemma Expression.valid_instruction_congr {i : Sof.Instruction}
    (h : (functionalInstruction i es).valid dialect Γ)
    (hes : argumentsValid dialect Γ es' ∧ es'.length = es.length) :
    (functionalInstruction i es').valid dialect Γ := by
  rw [valid_instruction, and_eq_true] at h ⊢
  rw [hes.2]
  exact ⟨h.1, hes.1⟩

lemma Expression.valid_functionCall_congr (h : (functionCall f es).valid dialect Γ)
    (hf : dialect.requiresLiterals f = false)
    (hes : argumentsValid dialect Γ es' ∧ es'.length = es.length) :
    (functionCall f es').valid dialect Γ := by
  simp only [valid_functionCall, and_eq_true] at h ⊢
  rw [hes.2]
  exact ⟨⟨h.1.1, literalArgumentsValid_of_not_requiresLiterals hf⟩, hes.1⟩

lemma literalArgumentsValid_of_valid (h : (Expression.functionCall f es).valid dialect Γ) :
    literalArgumentsValid dialect f es := by
  simp only [valid_functionCall, and_eq_true] at h
  exact h.1.2

lemma argumentsValid_of_valid (h : (Expression.functionCall f es).valid dialect Γ) :
    argumentsValid dialect Γ es := by
  rw [valid_functionCall, and_eq_true] at h
  exact h.2

end

lemma Scope.arity_of_movable (Γ Γ' : Scope) (h : (SideEffects.ofCall dialect f).movable) :
    Γ.arity dialect f = Γ'.arity dialect f := by
  unfold Scope.arity
  cases hb : dialect.builtin f with
  | some b => rfl
  | none =>
    rw [SideEffects.ofCall, hb] at h
    cases h

mutual

lemma Expression.valid_of_movable (e : Expression) (hmov : e.movable dialect)
    (h : e.valid dialect Γ) (hvars : ∀ x ∈ e.referencedVariables, x ∈ Γ'.locals) :
    e.valid dialect Γ' ∧ e.returns dialect Γ' = e.returns dialect Γ := by
  match e with
  | .functionalInstruction i args =>
    rw [movable_instruction, and_eq_true] at hmov
    rw [valid_instruction, and_eq_true] at h ⊢
    exact ⟨⟨h.1, argumentsValid_of_movable args hmov.1 h.2 hvars⟩, rfl⟩
  | .functionCall f args =>
    rw [movable_functionCall, and_eq_true] at hmov
    rw [valid_functionCall, and_eq_true] at h ⊢
    rw [returns_functionCall, returns_functionCall,
      arity_of_movable Γ' Γ hmov.2]
    exact ⟨⟨h.1, argumentsValid_of_movable args hmov.1 h.2 hvars⟩, rfl⟩
  | .identifier x =>
    rw [valid_identifier, decide_eq_true_eq]
    exact ⟨hvars x mem_cons_self, rfl⟩
  | .literal l => exact ⟨h, rfl⟩

lemma argumentsValid_of_movable (es : List Expression)
    (hmov : (argumentsSideEffects dialect es).movable)
    (h : argumentsValid dialect Γ es)
    (hvars : ∀ x ∈ argumentsReferencedVariables es, x ∈ Γ'.locals) :
    argumentsValid dialect Γ' es := by
  match es with
  | [] => rfl
  | e :: es =>
    rw [argumentsSideEffects_movable_cons, and_eq_true] at hmov
    simp only [argumentsValid, and_eq_true] at h ⊢
    rw [argumentsReferencedVariables, forall_mem_append] at hvars
    obtain ⟨hvalid, hreturns⟩ := e.valid_of_movable hmov.2 h.1.2 hvars.1
    rw [hreturns]
    exact ⟨⟨argumentsValid_of_movable es hmov.1 h.1.1 hvars.2, hvalid⟩, h.2⟩

end

lemma Expression.returns_le_one_of_movable (e : Expression) (Γ : Scope)
    (h : e.movable dialect) :
    e.returns dialect Γ ≤ 1 := by
  match e with
  | .functionalInstruction i args =>
    rw [movable_instruction, and_eq_true] at h
    exact Sof.SemanticInformation.ret_le_one_of_movable h.2
  | .functionCall f args =>
    rw [movable_functionCall, and_eq_true] at h
    rw [returns_functionCall, Scope.arity]
    cases hb : dialect.builtin f with
    | none =>
      rw [SideEffects.ofCall, hb] at h
      cases h.2
    | some b =>
      rw [SideEffects.ofCall, hb] at h
      rcases Dialect.builtin_cases hb with ⟨i, rfl, -⟩ | hmem
      · exact Sof.SemanticInformation.ret_le_one_of_movable h.2
      · simp only [objectFunctions, mem_cons, Prod.mk.injEq, not_mem_nil,
          or_false] at hmem
        rcases hmem with ⟨-, rfl⟩ | ⟨-, rfl⟩ | ⟨-, rfl⟩ <;> simp
  | .identifier x | .literal l => exact le_rfl

end

namespace DataFlowAnalyzer

/-! ### Clearing -/

section

variable {references : List (YulString × YulString)} {vars : List YulString} {x y : YulString}

/-- One step of the loop over the set of variables to be cleared. -/
abbrev growCleared (references : List (YulString × YulString)) (cleared : List YulString)
    (name : YulString) : List YulString :=
  if name ∈ cleared then cleared ++ (references.filter (·.2 = name)).map (·.1) else cleared

lemma subset_growCleared (cleared : List YulString) (name : YulString) :
    cleared ⊆ growCleared references cleared name := by
  unfold growCleared
  split
  · exact subset_append_left _ _
  · exact List.Subset.refl _

lemma subset_foldl_growCleared (names cleared : List YulString) :
    cleared ⊆ names.foldl (growCleared references) cleared := by
  induction names generalizing cleared with
  | nil => exact List.Subset.refl _
  | cons name names ih => exact List.Subset.trans (subset_growCleared cleared name) (ih _)

/-- What references a variable in the set is added when the loop comes to that variable. -/
lemma mem_foldl_growCleared (names cleared : List YulString) (hx : x ∈ names)
    (hc : x ∈ cleared) (hy : (y, x) ∈ references) :
    y ∈ names.foldl (growCleared references) cleared := by
  induction names generalizing cleared with
  | nil => cases hx
  | cons name names ih =>
    rcases mem_cons.mp hx with rfl | hx
    · apply subset_foldl_growCleared names
      rw [growCleared, if_pos hc]
      refine mem_append_right _ (mem_map.mpr ⟨(y, x), ?_, rfl⟩)
      simp [hy]
    · exact ih _ hx (subset_growCleared cleared name hc)

lemma mem_toBeCleared (hx : x ∈ vars) : x ∈ toBeCleared references vars :=
  subset_foldl_growCleared _ vars hx

lemma mem_toBeCleared_of_reference (hx : x ∈ vars) (hy : (y, x) ∈ references) :
    y ∈ toBeCleared references vars :=
  mem_foldl_growCleared _ vars
    ((mem_insertionSort _).mpr (mem_append_left _ hx)) hx hy

end

section

variable {S : DataFlowAnalyzer} {vars : List YulString} {x y : YulString} {e : Expression}

/-- What is still known after clearing was known before, and neither the variable nor what it
references was to be cleared. -/
lemma value_clearValues (h : (S.clearValues vars).value x = some e) :
    S.value x = some e ∧ x ∉ vars ∧ ∀ y, (x, y) ∈ S.references →
      y ∉ vars ∧ (x, y) ∈ (S.clearValues vars).references := by
  simp only [clearValues] at h ⊢
  split at h
  · cases h
  · rename_i hx
    refine ⟨h, fun hmem => hx (mem_toBeCleared hmem), fun y hy => ⟨fun hmem => ?_, ?_⟩⟩
    · exact hx (mem_toBeCleared_of_reference hmem hy)
    · exact mem_filter.mpr ⟨hy, by simpa using hx⟩

@[simp] lemma variableScopes_clearValues :
    (S.clearValues vars).variableScopes = S.variableScopes := rfl

variable {dialect : Dialect}

@[simp] lemma variableScopes_handleAssignment {value : Option Expression} :
    (S.handleAssignment dialect vars value).variableScopes = S.variableScopes := rfl

@[simp] lemma value_declare : (S.declare vars).value = S.value := rfl

@[simp] lemma references_declare : (S.declare vars).references = S.references := rfl

@[simp] lemma variableScopes_declare :
    (S.declare vars).variableScopes = declareIn vars S.variableScopes := rfl

variable {b : Bool}

@[simp] lemma variableScopes_pushScope :
    (S.pushScope b).variableScopes = ⟨[], b⟩ :: S.variableScopes := rfl

lemma declareIn_declareIn {vars' : List YulString} (scopes : List VariableScope) :
    declareIn vars' (declareIn vars scopes) = declareIn (vars ++ vars') scopes := by
  cases scopes with
  | nil => rfl
  | cons scope scopes => simp [declareIn]

@[simp] lemma declareIn_nil (scopes : List VariableScope) : declareIn [] scopes = scopes := by
  cases scopes <;> simp [declareIn]

@[simp] lemma value_pushScope : (S.pushScope b).value = S.value := rfl

@[simp] lemma references_pushScope : (S.pushScope b).references = S.references := rfl

/-- An assignment makes known that variables are zero, or the value of one variable. -/
lemma value_handleAssignment {value : Option Expression}
    (h : (S.handleAssignment dialect vars value).value x = some e) :
    (S.clearValues vars).value x = some e ∨
      x ∈ vars ∧ (value = none ∧ e = zero ∨
        vars.dedup = [x] ∧ value = some e ∧ e.movable dialect ∧
          x ∉ e.referencedVariables) := by
  change assignedValue dialect (S.clearValues vars).value vars value x = some e at h
  cases value with
  | none =>
    simp only [assignedValue] at h
    split at h
    · rename_i hx
      cases h
      exact .inr ⟨hx, .inl ⟨rfl, rfl⟩⟩
    · exact .inl h
  | some e' =>
    match hd : vars.dedup with
    | [name] =>
      simp only [assignedValue, hd] at h
      split at h
      · rename_i hmov
        simp only [and_eq_true, decide_eq_true_eq] at hmov
        beta_reduce at h
        split at h
        · rename_i hx
          cases h
          subst hx
          have hmem : x ∈ vars := mem_dedup.mp (hd ▸ mem_singleton_self x)
          exact .inr ⟨hmem, .inr ⟨rfl, rfl, hmov.1, hmov.2⟩⟩
        · exact .inl h
      · exact .inl h
    | [] | _ :: _ :: _ =>
      simp only [assignedValue, hd] at h
      exact .inl h

lemma references_handleAssignment {value : Option Expression} :
    (S.handleAssignment dialect vars value).references =
      (S.clearValues vars).references ++
        vars.flatMap fun name => (assignedReferences value).map (name, ·) := rfl

end

/-! ### Well-formed knowledge -/

/-- What holds of a recorded value, independently of any execution. -/
structure KnownValue (dialect : Dialect) (Γ : Scope)
    (references : List (YulString × YulString)) (x : YulString) (e : Expression) : Prop where
  mem_locals : x ∈ Γ.locals
  movable : e.movable dialect = true
  valid : e.valid dialect Γ = true
  returns : e.returns dialect Γ = 1
  references : ∀ y ∈ e.referencedVariables, (x, y) ∈ references

/-- All that is recorded is well-formed. -/
def WellFormed (dialect : Dialect) (Γ : Scope) (S : DataFlowAnalyzer) : Prop :=
  ∀ x e, S.value x = some e → KnownValue dialect Γ S.references x e

section

variable {dialect : Dialect} {Γ Γ' : Scope} {S : DataFlowAnalyzer} {vars : List YulString}
  {x : YulString} {e : Expression} {references references' : List (YulString × YulString)}

lemma KnownValue.of_locals (h : KnownValue dialect Γ references x e) (hx : x ∈ Γ'.locals)
    (hvars : ∀ y ∈ e.referencedVariables, y ∈ Γ'.locals)
    (href : ∀ y ∈ e.referencedVariables, (x, y) ∈ references') :
    KnownValue dialect Γ' references' x e := by
  obtain ⟨hvalid, hreturns⟩ := e.valid_of_movable h.movable h.valid hvars
  exact ⟨hx, h.movable, hvalid, hreturns.trans h.returns, href⟩

lemma KnownValue.referenced_mem_locals (h : KnownValue dialect Γ references x e) :
    ∀ y ∈ e.referencedVariables, y ∈ Γ.locals :=
  fun _ hy => e.mem_locals_of_valid h.valid hy

lemma WellFormed.of_subset (h : S.WellFormed dialect Γ) (hsub : Γ.locals ⊆ Γ'.locals) :
    S.WellFormed dialect Γ' := fun x e he =>
  (h x e he).of_locals (hsub (h x e he).mem_locals)
    (fun y hy => hsub ((h x e he).referenced_mem_locals y hy)) (h x e he).references

lemma WellFormed.not_mem_of_clearValues (h : S.WellFormed dialect Γ)
    (he : (S.clearValues vars).value x = some e) :
    x ∉ vars ∧ ∀ y ∈ e.referencedVariables, y ∉ vars := by
  obtain ⟨hval, hx, href⟩ := value_clearValues he
  exact ⟨hx, fun y hy => (href y ((h x e hval).references y hy)).1⟩

lemma WellFormed.clearValues (h : S.WellFormed dialect Γ) (vars : List YulString) :
    (S.clearValues vars).WellFormed dialect Γ := by
  intro x e he
  obtain ⟨hval, -, href⟩ := value_clearValues he
  have hk := h x e hval
  exact { hk with references := fun y hy => (href y (hk.references y hy)).2 }

lemma WellFormed.clearValues_of_declare (h : S.WellFormed dialect (Γ.declare vars)) :
    (S.clearValues vars).WellFormed dialect Γ := by
  intro x e he
  obtain ⟨hx, hvars⟩ := h.not_mem_of_clearValues he
  have hk := h.clearValues vars x e he
  refine hk.of_locals ?_ (fun y hy => ?_) hk.references
  · exact (mem_append.mp hk.mem_locals).resolve_left hx
  · exact (mem_append.mp (hk.referenced_mem_locals y hy)).resolve_left (hvars y hy)

lemma WellFormed.declare (h : S.WellFormed dialect Γ) (vars : List YulString) :
    (S.declare vars).WellFormed dialect Γ := h

lemma WellFormed.pushScope (h : S.WellFormed dialect Γ) (b : Bool) :
    (S.pushScope b).WellFormed dialect Γ := h

lemma WellFormed.enterBlock (h : S.WellFormed dialect Γ) (ss : Block) :
    (S.pushScope false).WellFormed dialect (Γ.register ss) :=
  (h.pushScope false).of_subset (by simp)

lemma valid_zero : zero.valid dialect Γ := by
  change (valueOfLiteral (.number "0")).isSome = true
  decide

/-- An assignment of a value that is valid in a scope without some of the variables. -/
lemma WellFormed.handleAssignment (h : S.WellFormed dialect Γ) (Γ' : Scope)
    (hvars : ∀ x ∈ vars, x ∈ Γ.locals)
    {value : Option Expression} (hvalid : valueValid dialect Γ' vars.length value)
    (hsub : Γ'.locals ⊆ Γ.locals) :
    (S.handleAssignment dialect vars value).WellFormed dialect Γ := by
  intro x e he
  rw [references_handleAssignment]
  rcases value_handleAssignment he with he | ⟨hx, ⟨rfl, rfl⟩ | ⟨hdedup, rfl, hmov, hnot⟩⟩
  · have hk := h.clearValues vars x e he
    exact { hk with references := fun y hy => mem_append_left _ (hk.references y hy) }
  · exact ⟨hvars x hx, rfl, valid_zero, rfl, fun y hy => nomatch hy⟩
  · simp only [valueValid, and_eq_true, decide_eq_true_eq] at hvalid
    obtain ⟨hvalid', hreturns⟩ := e.valid_of_movable hmov hvalid.1 fun y hy =>
      hsub (e.mem_locals_of_valid hvalid.1 hy)
    have hlen : vars.dedup.length ≤ vars.length := vars.dedup_sublist.length_le
    have hone : e.returns dialect Γ = 1 := by
      have := e.returns_le_one_of_movable Γ hmov
      rw [hdedup, length_singleton] at hlen
      omega
    refine ⟨hvars x hx, hmov, hvalid', hone, fun y hy => mem_append_right _ ?_⟩
    exact mem_flatMap.mpr ⟨x, hx, mem_map.mpr ⟨y, hy, rfl⟩⟩

end

section

variable {dialect : Dialect} {Γ : Scope} {S S' : DataFlowAnalyzer} {ds : List YulString}

lemma variableScopes_popScope (h : S'.variableScopes = declareIn ds (S.pushScope false).variableScopes) :
    S'.popScope.variableScopes = S.variableScopes := by
  unfold popScope
  rw [h]
  rfl

lemma popScope_eq (h : S'.variableScopes = declareIn ds (S.pushScope false).variableScopes) :
    S'.popScope = { S'.clearValues ds with variableScopes := S.variableScopes } := by
  unfold popScope
  rw [h]
  rfl

lemma value_popScope (h : S'.variableScopes = declareIn ds (S.pushScope false).variableScopes) {x : YulString}
    {e : Expression} (he : S'.popScope.value x = some e) : S'.value x = some e ∧ x ∉ ds := by
  rw [popScope_eq h] at he
  exact ⟨(value_clearValues he).1, (value_clearValues he).2.1⟩

lemma WellFormed.popScope (hS : S'.WellFormed dialect (Γ.declare ds))
    (h : S'.variableScopes = declareIn ds (S.pushScope false).variableScopes) :
    S'.popScope.WellFormed dialect Γ := by
  rw [popScope_eq h]
  exact hS.clearValues_of_declare

lemma WellFormed.enterFunction (ps rs : List YulString)
    (hps : ∀ x ∈ rs, x ∈ Γ.locals) : (S.enterFunction dialect ps rs).WellFormed dialect Γ := by
  have hfold (S : DataFlowAnalyzer) (hS : S.WellFormed dialect Γ) :
      (rs.foldl (fun S r => (S.declare [r]).handleAssignment dialect [r] none) S).WellFormed
        dialect Γ := by
    induction rs generalizing S with
    | nil => exact hS
    | cons r rs ih =>
      rw [forall_mem_cons] at hps
      apply ih hps.2
      exact (hS.declare [r]).handleAssignment Γ (by simpa using hps.1) rfl (List.Subset.refl _)
  exact hfold _ fun _ _ h => nomatch h

end

end DataFlowAnalyzer

/-! ### One step of the analysis -/

open DataFlowAnalyzer

/-- Visiting an expression keeps it valid. -/
def VisitValid {ξ : Type} (dialect : Dialect)
    (visit : DataFlowAnalyzer → ξ → Expression → Option (Expression × ξ)) : Prop :=
  ∀ (Γ : Scope) S t e e' t', visit S t e = some (e', t') → S.WellFormed dialect Γ →
    e.valid dialect Γ = true →
      e'.valid dialect Γ = true ∧ e'.returns dialect Γ = e.returns dialect Γ

/-- What an analysis does to the state: it stays well-formed, declared variables are added to the
innermost scope, and all that is known afterwards about a variable the code does not assign to
or declare was known before. -/
structure AnalysisStep (dialect : Dialect) (Γ : Scope)
    (declares declarations assignments : List YulString) (S S' : DataFlowAnalyzer) : Prop where
  wellFormed : S'.WellFormed dialect (Γ.declare declares)
  scopes : S'.variableScopes = declareIn declares S.variableScopes
  backward : ∀ x e, S'.value x = some e → x ∉ assignments → x ∉ declarations →
    S.value x = some e

/-- The variables that statements declare in the scope around them. -/
def declaresOfStatements (ss : List Statement) : List YulString := ss.flatMap (·.declares)

namespace AnalysisStep

variable {dialect : Dialect} {Γ : Scope} {S S₁ S₂ : DataFlowAnalyzer}
  {declares declares' declarations declarations' assignments assignments' : List YulString}

lemma refl (hS : S.WellFormed dialect Γ) : AnalysisStep dialect Γ [] [] [] S S where
  wellFormed := hS
  scopes := by simp
  backward _ _ h _ _ := h

lemma trans (h₁ : AnalysisStep dialect Γ declares declarations assignments S S₁)
    (h₂ : AnalysisStep dialect (Γ.declare declares) declares' declarations' assignments' S₁ S₂) :
    AnalysisStep dialect Γ (declares ++ declares') (declarations ++ declarations')
      (assignments ++ assignments') S S₂ where
  wellFormed := h₂.wellFormed.of_subset fun x hx => by
    simp only [locals_declare, mem_append] at hx ⊢
    tauto
  scopes := by rw [h₂.scopes, h₁.scopes, declareIn_declareIn]
  backward x e he ha hd := by
    rw [mem_append, not_or] at ha hd
    exact h₁.backward x e (h₂.backward x e he ha.2 hd.2) ha.1 hd.1

lemma clearValues (h : AnalysisStep dialect Γ declares declarations assignments S S₁)
    (vars : List YulString) :
    AnalysisStep dialect Γ declares declarations assignments S (S₁.clearValues vars) where
  wellFormed := h.wellFormed.clearValues vars
  scopes := h.scopes
  backward x e he := h.backward x e (value_clearValues he).1

lemma of_clearValues {vars : List YulString}
    (h : AnalysisStep dialect Γ declares declarations assignments (S.clearValues vars) S₁) :
    AnalysisStep dialect Γ declares declarations assignments S S₁ where
  wellFormed := h.wellFormed
  scopes := h.scopes
  backward x e he ha hd := (value_clearValues (h.backward x e he ha hd)).1

lemma block {Γ' : Scope}
    (h : AnalysisStep dialect Γ' declares declarations assignments (S.pushScope false) S₁)
    (hΓ : Γ'.locals = Γ.locals) :
    AnalysisStep dialect Γ [] declarations assignments S S₁.popScope where
  wellFormed := (h.wellFormed.popScope h.scopes).of_subset (by simp [hΓ])
  scopes := by rw [variableScopes_popScope h.scopes, declareIn_nil]
  backward x e he := h.backward x e (value_popScope h.scopes he).1

end AnalysisStep

section

variable {ξ : Type} {visit : DataFlowAnalyzer → ξ → Expression → Option (Expression × ξ)}
  {dialect : Dialect} {Γ : Scope} {S S' : DataFlowAnalyzer} {t t' : ξ}

lemma Scope.declare_nil : Γ.declare [] = Γ := rfl

lemma Scope.declare_declare {xs ys : List YulString} :
    (Γ.declare xs).declare ys = Γ.declare (ys ++ xs) := by
  simp [Scope.declare]

lemma VisitValid.value (hv : VisitValid dialect visit) {value value' : Option Expression}
    (h : visitValue visit S t value = some (value', t')) (hS : S.WellFormed dialect Γ) {n : Nat}
    (hvalid : valueValid dialect Γ n value) : valueValid dialect Γ n value' := by
  cases value with
  | none =>
    cases h
    rfl
  | some e =>
    obtain ⟨⟨e', t₁⟩, he, heq⟩ := Option.map_eq_some_iff.mp h
    cases heq
    simp only [valueValid, and_eq_true, decide_eq_true_eq] at hvalid ⊢
    obtain ⟨hvalid', hreturns⟩ := hv Γ S t e e' t₁ he hS hvalid.1
    exact ⟨hvalid', hreturns.trans hvalid.2⟩

lemma Scope.register_of_analyze {ss ss' : List Statement}
    (h : analyzeStatements visit dialect S t ss = some (ss', S', t')) :
    Γ.register ss' = Γ.register ss := by
  induction ss generalizing S t ss' with
  | nil =>
    obtain ⟨rfl, -⟩ := analyze_nil h
    rfl
  | cons s ss ih =>
    obtain ⟨s₁, S₁, t₁, ss₁, hs, hss, rfl⟩ := analyze_cons h
    have ih := ih hss
    cases s with
    | functionDefinition f ps rs body =>
      obtain ⟨body', S₂, -, rfl, -⟩ := analyze_function hs
      simp only [Scope.register, ih]
    | expressionStatement e =>
      obtain ⟨e', -, rfl, -⟩ := analyze_expression hs
      exact ih
    | assignment xs e =>
      obtain ⟨e', -, rfl, -⟩ := analyze_assignment hs
      exact ih
    | variableDeclaration xs value =>
      obtain ⟨value', -, rfl, -⟩ := analyze_declaration hs
      exact ih
    | «if» c body =>
      obtain ⟨-, -, -, -, -, -, rfl, -⟩ := analyze_if hs
      exact ih
    | switch e cases =>
      obtain ⟨-, -, -, -, -, -, rfl, -⟩ := analyze_switch hs
      exact ih
    | forLoop pre c post body =>
      obtain ⟨-, -, -, -, -, -, -, -, -, -, -, -, -, rfl, -⟩ := analyze_forLoop hs
      exact ih
    | «break» =>
      obtain ⟨rfl, -⟩ := analyze_break hs
      exact ih
    | «continue» =>
      obtain ⟨rfl, -⟩ := analyze_continue hs
      exact ih
    | block ss =>
      obtain ⟨-, -, -, rfl, -⟩ := analyze_block hs
      exact ih

mutual

lemma analyze_step (hv : VisitValid dialect visit) (s : Statement) {s' : Statement} {Γ : Scope}
    {S S' : DataFlowAnalyzer} {t t' : ξ}
    (h : s.analyze visit dialect S t = some (s', S', t')) (hvalid : s.valid dialect Γ)
    (hS : S.WellFormed dialect Γ) :
    AnalysisStep dialect Γ s.declares s.declarations s.assignments S S' ∧
      s'.valid dialect Γ ∧ s'.declares = s.declares ∧ s'.assignments = s.assignments := by
  match s with
  | .expressionStatement e =>
    obtain ⟨e', he, rfl, rfl⟩ := analyze_expression h
    simp only [valid_expression, and_eq_true, decide_eq_true_eq] at hvalid ⊢
    obtain ⟨hvalid', hreturns⟩ := hv Γ S' t e e' t' he hS hvalid.1
    exact ⟨.refl hS, ⟨hvalid', hreturns.trans hvalid.2⟩, rfl, rfl⟩
  | .assignment xs e =>
    obtain ⟨e', he, rfl, rfl⟩ := analyze_assignment h
    simp only [valid_assignment, and_eq_true, decide_eq_true_eq, all_eq_true] at hvalid ⊢
    obtain ⟨⟨hxs, hval⟩, hret⟩ := hvalid
    obtain ⟨hvalid', hreturns⟩ := hv Γ S t e e' t' he hS hval
    refine ⟨⟨?_, (declareIn_nil _).symm, ?_⟩, ⟨⟨hxs, hvalid'⟩, hreturns.trans hret⟩, rfl, rfl⟩
    · refine hS.handleAssignment Γ hxs ?_ (List.Subset.refl _)
      simp [valueValid, hvalid', hreturns, hret]
    · intro x e₁ he₁ ha _
      rcases value_handleAssignment he₁ with h₁ | ⟨hx, -⟩
      · exact (value_clearValues h₁).1
      · exact absurd hx ha
  | .variableDeclaration xs value =>
    obtain ⟨value', he, rfl, rfl⟩ := analyze_declaration h
    simp only [valid_declaration, and_eq_true, decide_eq_true_eq] at hvalid ⊢
    obtain ⟨hnames, hval⟩ := hvalid
    have hval' := hv.value he (hS.declare _) hval
    refine ⟨⟨?_, rfl, ?_⟩, ⟨hnames, hval'⟩, rfl, rfl⟩
    · have hS' : (S.declare (xs.map (·.name))).WellFormed dialect
          (Γ.declare (xs.map (·.name))) :=
        (hS.declare _).of_subset (subset_append_right _ _)
      exact hS'.handleAssignment Γ (fun x hx => mem_append_left _ hx)
        (by rwa [length_map]) (subset_append_right _ _)
    · intro x e₁ he₁ _ hd
      rcases value_handleAssignment he₁ with h₁ | ⟨hx, -⟩
      · exact (value_clearValues h₁).1
      · exact absurd hx hd
  | .functionDefinition f ps rs body =>
    obtain ⟨body', S₁, hbody, rfl, rfl⟩ := analyze_function h
    simp only [valid_function, and_eq_true] at hvalid ⊢
    have hS₁ : (S'.enterFunction dialect (ps.map (·.name)) (rs.map (·.name))).WellFormed dialect
        ⟨(ps ++ rs).map (·.name), Γ.functions, .none⟩ :=
      .enterFunction _ _ fun x hx => by
        simp only [map_append, mem_append, hx, or_true]
    obtain ⟨-, hvbody, -, hassign⟩ := analyzeStatements_step hv body hbody hvalid.2
      (hS₁.of_subset (by simp))
    rw [register_of_analyze hbody]
    exact ⟨⟨hS, (declareIn_nil _).symm, fun _ _ h _ _ => h⟩, ⟨hvalid.1, hvbody⟩, rfl, hassign⟩
  | .if c body =>
    obtain ⟨c', t₁, body', S₁, hc, hbody, rfl, rfl⟩ := analyze_if h
    simp only [valid_if, and_eq_true, decide_eq_true_eq] at hvalid ⊢
    obtain ⟨⟨hval, hret⟩, hvbody⟩ := hvalid
    obtain ⟨hvalid', hreturns⟩ := hv Γ S t c c' t₁ hc hS hval
    obtain ⟨hstep, hvbody', -, hassign⟩ :=
      analyzeStatements_step hv body hbody hvbody (hS.enterBlock body)
    rw [register_of_analyze hbody]
    exact ⟨(hstep.block (by simp)).clearValues _, ⟨⟨hvalid', hreturns.trans hret⟩, hvbody'⟩, rfl, hassign⟩
  | .switch e cases =>
    obtain ⟨e', t₁, cs', S₁, he, hcs, rfl, rfl⟩ := analyze_switch h
    simp only [valid_switch, and_eq_true, decide_eq_true_eq] at hvalid ⊢
    obtain ⟨⟨hval, hret⟩, hvcases⟩ := hvalid
    obtain ⟨hvalid', hreturns⟩ := hv Γ S t e e' t₁ he hS hval
    obtain ⟨hstep, hvcases', hassign⟩ := analyzeCases_step hv cases hcs hvcases hS
    exact ⟨hstep.clearValues _, ⟨⟨hvalid', hreturns.trans hret⟩, hvcases'⟩, rfl, hassign⟩
  | .forLoop pre c post body =>
    obtain ⟨since, c', t₁, body', S₁, t₂, post', S₂, rfl, hsince, hc, hbody, hpost, rfl, rfl⟩ :=
      analyze_forLoop h
    simp only [valid_forLoop_nil, and_eq_true, decide_eq_true_eq] at hvalid ⊢
    obtain ⟨⟨⟨hval, hret⟩, hvpost⟩, hvbody⟩ := hvalid
    have hS₀ := hS.clearValues (assignmentsOfStatements body ++ assignmentsOfStatements post)
    obtain ⟨hvalid', hreturns⟩ := hv Γ _ t c c' t₁ hc hS₀ hval
    obtain ⟨hstep₁, hvbody', -, hassign₁⟩ := analyzeStatements_step hv body hbody hvbody
      (hS₀.enterBlock body |>.of_subset (by simp))
    have hstep₁ : AnalysisStep dialect Γ [] _ _ _ _ := (hstep₁.block (by simp)).clearValues since
    obtain ⟨hstep₂, hvpost', -, hassign₂⟩ := analyzeStatements_step hv post hpost hvpost
      (hstep₁.wellFormed.enterBlock post |>.of_subset (by simp))
    have hstep₂ : AnalysisStep dialect Γ [] _ _ _ _ := hstep₂.block (by simp)
    rw [register_of_analyze hbody, register_of_analyze hpost]
    refine ⟨?_, ⟨⟨⟨hvalid', hreturns.trans hret⟩, hvpost'⟩, hvbody'⟩, rfl, ?_⟩
    · exact ((hstep₁.trans hstep₂).of_clearValues.clearValues _)
    · rw [Statement.assignments, Statement.assignments, hassign₁, hassign₂]
  | .break =>
    obtain ⟨rfl, rfl, rfl⟩ := analyze_break h
    exact ⟨.refl hS, hvalid, rfl, rfl⟩
  | .continue =>
    obtain ⟨rfl, rfl, rfl⟩ := analyze_continue h
    exact ⟨.refl hS, hvalid, rfl, rfl⟩
  | .block ss =>
    obtain ⟨ss', S₁, hss, rfl, rfl⟩ := analyze_block h
    obtain ⟨hstep, hvss, -, hassign⟩ := analyzeStatements_step hv ss hss hvalid (hS.enterBlock ss)
    rw [valid_block, register_of_analyze hss]
    exact ⟨hstep.block (by simp), hvss, rfl, hassign⟩

lemma analyzeStatements_step (hv : VisitValid dialect visit) (ss : List Statement)
    {ss' : List Statement} {Γ : Scope} {S S' : DataFlowAnalyzer} {t t' : ξ}
    (h : analyzeStatements visit dialect S t ss = some (ss', S', t'))
    (hvalid : statementsValid dialect Γ ss) (hS : S.WellFormed dialect Γ) :
    AnalysisStep dialect Γ (declaresOfStatements ss) (declarationsOfStatements ss)
        (assignmentsOfStatements ss) S S' ∧
      statementsValid dialect Γ ss' ∧
      declaresOfStatements ss' = declaresOfStatements ss ∧
      assignmentsOfStatements ss' = assignmentsOfStatements ss := by
  match ss with
  | [] =>
    obtain ⟨rfl, rfl, rfl⟩ := analyze_nil h
    exact ⟨.refl hS, rfl, rfl, rfl⟩
  | s :: ss =>
    obtain ⟨s₁, S₁, t₁, ss₁, hs, hss, rfl⟩ := analyze_cons h
    rw [statementsValid, and_eq_true] at hvalid ⊢
    obtain ⟨hstep, hvs, hdecl, hassign⟩ := analyze_step hv s hs hvalid.1 hS
    obtain ⟨hstep', hvss, hdecls, hassigns⟩ :=
      analyzeStatements_step hv ss hss hvalid.2 hstep.wellFormed
    refine ⟨hstep.trans hstep', ⟨hvs, by rwa [hdecl]⟩, ?_, ?_⟩
    · simp only [declaresOfStatements, flatMap_cons] at hdecls ⊢
      rw [hdecl, hdecls]
    · rw [assignmentsOfStatements, assignmentsOfStatements, hassign, hassigns]

lemma analyzeCases_step (hv : VisitValid dialect visit) (cs : List Case) {cs' : List Case}
    {Γ : Scope} {S S' : DataFlowAnalyzer} {t t' : ξ}
    (h : analyzeCases visit dialect S t cs = some (cs', S', t'))
    (hvalid : casesValid dialect Γ cs) (hS : S.WellFormed dialect Γ) :
    AnalysisStep dialect Γ [] (declarationsOfCases cs) (assignmentsOfCases cs) S S' ∧
      casesValid dialect Γ cs' ∧ assignmentsOfCases cs' = assignmentsOfCases cs := by
  match cs with
  | [] =>
    obtain ⟨rfl, rfl, rfl⟩ := analyzeCases_nil h
    exact ⟨.refl hS, rfl, rfl⟩
  | .mk value body :: cs =>
    obtain ⟨body', S₁, t₁, cs₁, hbody, hcs, rfl⟩ := analyzeCases_cons h
    simp only [casesValid, and_eq_true] at hvalid ⊢
    obtain ⟨⟨hvalue, hvbody⟩, hvcs⟩ := hvalid
    obtain ⟨hstep, hvbody', -, hassign⟩ :=
      analyzeStatements_step hv body hbody hvbody (hS.enterBlock body)
    have hstep : AnalysisStep dialect Γ [] _ _ _ _ :=
      (hstep.block (by simp)).clearValues (assignmentsOfStatements body')
    obtain ⟨hstep', hvcs', hassigns⟩ := analyzeCases_step hv cs hcs hvcs hstep.wellFormed
    rw [register_of_analyze hbody]
    refine ⟨hstep.trans hstep', ⟨⟨hvalue, hvbody'⟩, hvcs'⟩, ?_⟩
    rw [assignmentsOfCases, assignmentsOfCases, hassign, hassigns]

end

lemma analyzeBlock_step (hv : VisitValid dialect visit) (ss : List Statement)
    {ss' : List Statement} {Γ' : Scope}
    (h : analyzeStatements visit dialect (S.pushScope false) t ss = some (ss', S', t'))
    (hvalid : statementsValid dialect (Γ'.register ss) ss) (hS : S.WellFormed dialect Γ)
    (hΓ : Γ'.locals = Γ.locals) :
    AnalysisStep dialect Γ [] (declarationsOfStatements ss) (assignmentsOfStatements ss) S
        S'.popScope ∧
      statementsValid dialect (Γ'.register ss) ss' ∧
      assignmentsOfStatements ss' = assignmentsOfStatements ss := by
  obtain ⟨hstep, hvss, -, hassign⟩ := analyzeStatements_step hv ss h hvalid
    ((hS.enterBlock ss).of_subset (by simp [hΓ]))
  exact ⟨hstep.block (by simp [hΓ]), hvss, hassign⟩

end

end Yul
