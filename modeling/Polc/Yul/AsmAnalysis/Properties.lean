import Polc.Yul.Interpreter.Simulation

/-!
# Properties of valid code

Valid expressions are valid wherever the same functions and at least the same variables are
visible, and statements without jumps are valid in every part of a loop.
-/

namespace Yul

open Sof Semantics List Expression Scope
open Bool (and_eq_true)

/-! ### Larger scopes -/

/-- All that is visible in the first scope is visible in the second one. -/
structure Scope.Extends (Γ Γ' : Scope) : Prop where
  locals : Γ.locals ⊆ Γ'.locals
  functions : ∀ f n, Γ.functions.lookup f = some n → Γ'.functions.lookup f = some n

section

variable {dialect : Dialect} {Γ Γ' : Scope}

lemma Scope.Extends.refl (Γ : Scope) : Γ.Extends Γ := ⟨List.Subset.refl _, fun _ _ => id⟩

lemma Scope.Extends.trans {Γ₁ Γ₂ Γ₃ : Scope} (h : Γ₁.Extends Γ₂) (h' : Γ₂.Extends Γ₃) :
    Γ₁.Extends Γ₃ :=
  ⟨List.Subset.trans h.locals h'.locals, fun f n hf => h'.functions f n (h.functions f n hf)⟩

lemma Scope.Extends.declare (h : Γ.Extends Γ') {xs ys : List YulString} (hxy : xs ⊆ ys) :
    (Γ.declare xs).Extends (Γ'.declare ys) :=
  ⟨append_subset.mpr ⟨subset_append_of_subset_left _ hxy,
    subset_append_of_subset_right _ h.locals⟩, h.functions⟩

lemma Scope.Extends.declare_right (Γ : Scope) (xs : List YulString) :
    Γ.Extends (Γ.declare xs) :=
  ⟨subset_append_right _ _, fun _ _ h => h⟩

lemma Scope.Extends.enter (h : Γ.Extends Γ') (c c' : ForLoopComponent) :
    (Γ.enter c).Extends (Γ'.enter c') := ⟨h.locals, h.functions⟩

lemma Scope.Extends.enter_right (Γ : Scope) (c : ForLoopComponent) : Γ.Extends (Γ.enter c) :=
  ⟨List.Subset.refl _, fun _ _ h => h⟩

lemma Scope.arity_congr (h : Γ'.functions = Γ.functions) (f : YulString) :
    Γ'.arity dialect f = Γ.arity dialect f := by
  rw [arity, arity, h]

lemma exists_literal_of_valid {f : YulString} {args : List Expression}
    (h : literalArgumentsValid dialect f args) (hf : dialect.requiresLiterals f) :
    ∀ e ∈ args, ∃ l, e = .literal l := by
  rw [literalArgumentsValid] at h
  cases hb : dialect.builtin f with
  | none => simp [Dialect.requiresLiterals, hb] at hf
  | some b =>
    rw [Dialect.requiresLiterals_of_builtin hb] at hf
    simp only [hb, hf, Bool.not_true, Bool.false_or, all_eq_true] at h
    intro e he
    have := h e he
    cases e with
    | literal l => exact ⟨l, rfl⟩
    | _ => cases this

lemma literalArgumentsValid_of_not {f : YulString} (hf : dialect.requiresLiterals f ≠ true)
    (es : List Expression) : literalArgumentsValid dialect f es := by
  rw [literalArgumentsValid]
  cases hb : dialect.builtin f with
  | none => rfl
  | some b =>
    rw [Dialect.requiresLiterals_of_builtin hb] at hf
    simp [hf]

mutual

/-- An expression is valid wherever the same functions and its variables are visible. -/
lemma Expression.valid_of_visible
    (hfunctions : ∀ f n, Γ.functions.lookup f = some n → Γ'.functions.lookup f = some n)
    (e : Expression) (hvalid : e.valid dialect Γ)
    (hlocals : ∀ x ∈ e.referencedVariables, x ∈ Γ.locals → x ∈ Γ'.locals) :
    e.valid dialect Γ' ∧ e.returns dialect Γ' = e.returns dialect Γ := by
  match e with
  | .functionalInstruction i args =>
    rw [valid_instruction, and_eq_true] at hvalid ⊢
    exact ⟨⟨hvalid.1, argumentsValid_of_visible hfunctions args hvalid.2 hlocals⟩, rfl⟩
  | .functionCall f args =>
    rw [valid_functionCall, and_eq_true, and_eq_true] at hvalid ⊢
    obtain ⟨⟨harity, hliteral⟩, hargs⟩ := hvalid
    cases hf : Γ.arity dialect f with
    | none =>
      rw [hf] at harity
      cases harity
    | some n =>
      have hf' : Γ'.arity dialect f = some n := by
        unfold Scope.arity at hf ⊢
        split at hf
        · exact hf
        · exact hfunctions f n hf
      rw [hf] at harity
      refine ⟨⟨⟨?_, hliteral⟩, argumentsValid_of_visible hfunctions args hargs hlocals⟩, ?_⟩
      · rw [hf']
        exact harity
      · rw [Expression.returns, Expression.returns, hf, hf']
  | .identifier x =>
    rw [valid_identifier, decide_eq_true_eq] at hvalid ⊢
    exact ⟨hlocals x mem_cons_self hvalid, rfl⟩
  | .literal l => exact ⟨hvalid, rfl⟩

lemma argumentsValid_of_visible
    (hfunctions : ∀ f n, Γ.functions.lookup f = some n → Γ'.functions.lookup f = some n)
    (es : List Expression) (hvalid : argumentsValid dialect Γ es)
    (hlocals : ∀ x ∈ argumentsReferencedVariables es, x ∈ Γ.locals → x ∈ Γ'.locals) :
    argumentsValid dialect Γ' es := by
  match es with
  | [] => rfl
  | e :: es =>
    rw [argumentsReferencedVariables, forall_mem_append] at hlocals
    simp only [argumentsValid, and_eq_true, decide_eq_true_eq] at hvalid ⊢
    obtain ⟨⟨hes, he⟩, hreturns⟩ := hvalid
    obtain ⟨he', hreturns'⟩ := e.valid_of_visible hfunctions he hlocals.1
    exact ⟨⟨argumentsValid_of_visible hfunctions es hes hlocals.2, he'⟩, hreturns'.trans hreturns⟩

end

lemma Expression.valid_of_extends (h : Γ.Extends Γ') (e : Expression)
    (hvalid : e.valid dialect Γ) :
    e.valid dialect Γ' ∧ e.returns dialect Γ' = e.returns dialect Γ :=
  e.valid_of_visible h.functions hvalid fun _ _ hx => h.locals hx

lemma argumentsValid_of_extends (h : Γ.Extends Γ') (es : List Expression)
    (hvalid : argumentsValid dialect Γ es) : argumentsValid dialect Γ' es :=
  argumentsValid_of_visible h.functions es hvalid fun _ _ hx => h.locals hx

lemma valueValid_of_extends (h : Γ.Extends Γ') {n : Nat} {value : Option Expression}
    (hvalid : valueValid dialect Γ n value) : valueValid dialect Γ' n value := by
  cases value with
  | none => rfl
  | some e =>
    simp only [valueValid, and_eq_true, decide_eq_true_eq] at hvalid ⊢
    obtain ⟨he, hreturns⟩ := e.valid_of_extends h hvalid.1
    exact ⟨he, hreturns.trans hvalid.2⟩

end

section

variable {dialect : Dialect} {Γ : Scope}

mutual

lemma Expression.mem_locals_of_valid (e : Expression) (h : e.valid dialect Γ)
    {x : YulString} (hx : x ∈ e.referencedVariables) : x ∈ Γ.locals := by
  match e with
  | .functionalInstruction i args =>
    rw [valid_instruction, and_eq_true] at h
    exact mem_locals_of_argumentsValid args h.2 hx
  | .functionCall f args =>
    rw [valid_functionCall, and_eq_true] at h
    exact mem_locals_of_argumentsValid args h.2 hx
  | .identifier y =>
    rw [referenced_identifier, mem_singleton] at hx
    simpa [hx] using h
  | .literal l => cases hx

lemma mem_locals_of_argumentsValid (es : List Expression)
    (h : argumentsValid dialect Γ es) {x : YulString}
    (hx : x ∈ argumentsReferencedVariables es) : x ∈ Γ.locals := by
  match es with
  | [] => cases hx
  | e :: es =>
    simp only [argumentsValid, and_eq_true] at h
    rcases mem_append.mp hx with hx | hx
    · exact e.mem_locals_of_valid h.1.2 hx
    · exact mem_locals_of_argumentsValid es h.1.1 hx

end

end

section

variable {dialect : Dialect} {Γ : Scope} {ss ts : List Statement}

/-- The functions of a block as they are visible. -/
def visibleFunctions (ss : Block) : List (YulString × Nat × Nat) :=
  (functionDefinitions ss).map fun p =>
    (p.1, p.2.parameters.length, p.2.returnVariables.length)

lemma Scope.register_eq (Γ : Scope) (ss : Block) :
    Γ.register ss = { Γ with functions := visibleFunctions ss ++ Γ.functions } := by
  induction ss with
  | nil => rfl
  | cons s ss ih =>
    cases s with
    | functionDefinition f ps rs body =>
      rw [register, ih]
      rfl
    | _ => exact ih

lemma Scope.register_congr (h : visibleFunctions ts = visibleFunctions ss) :
    Γ.register ts = Γ.register ss := by
  rw [register_eq, register_eq, h]

lemma visibleFunctions_eq_of_definesRelated {D : FunctionDefinition → FunctionDefinition → Prop}
    (hD : ∀ d d', D d d' → d'.parameters.length = d.parameters.length ∧
      d'.returnVariables.length = d.returnVariables.length)
    (h : DefinesRelated D ss ts) : visibleFunctions ts = visibleFunctions ss := by
  rw [visibleFunctions, visibleFunctions]
  rw [DefinesRelated] at h
  generalize functionDefinitions ss = ds at h
  generalize functionDefinitions ts = ds' at h
  induction h with
  | nil => rfl
  | cons hp _ ih =>
    obtain ⟨hparameters, hreturns⟩ := hD _ _ hp.2
    rw [map_cons, map_cons, ih, hp.1, hparameters, hreturns]

lemma Scope.register_enter {c : ForLoopComponent} :
    (Γ.enter c).register ss = (Γ.register ss).enter c := by
  rw [register_eq, register_eq]
  rfl

lemma statementsValid_append :
    statementsValid dialect Γ (ss ++ ts) =
      (statementsValid dialect Γ ss &&
        statementsValid dialect (ss.foldl (fun Γ s => Γ.declare s.declares) Γ) ts) := by
  induction ss generalizing Γ with
  | nil => rfl
  | cons s ss ih =>
    rw [cons_append, statementsValid, statementsValid, ih, foldl_cons,
      Bool.and_assoc]

end

/-! ### Code in larger scopes -/

variable {Γ Γ' : Scope}

section

variable {dialect : Dialect}

lemma foldl_declare_eq (ss : List Statement) (Γ : Scope) :
    (∀ x, x ∈ (ss.foldl (fun Γ s => Γ.declare s.declares) Γ).locals ↔
      x ∈ ss.flatMap (·.declares) ∨ x ∈ Γ.locals) ∧
    (ss.foldl (fun Γ s => Γ.declare s.declares) Γ).functions = Γ.functions ∧
    (ss.foldl (fun Γ s => Γ.declare s.declares) Γ).component = Γ.component := by
  induction ss generalizing Γ with
  | nil => exact ⟨fun x => by simp, rfl, rfl⟩
  | cons s ss ih =>
    obtain ⟨hlocals, hfunctions, hcomponent⟩ := ih (Γ.declare s.declares)
    refine ⟨fun x => ?_, hfunctions, hcomponent⟩
    rw [foldl_cons, hlocals, flatMap_cons, mem_append, locals_declare,
      mem_append, or_left_comm, or_assoc]

lemma Scope.Extends.register (h : Γ.Extends Γ') (ss : Block) :
    (Γ.register ss).Extends (Γ'.register ss) := by
  rw [register_eq, register_eq]
  refine ⟨h.locals, fun f n hf => ?_⟩
  rw [lookup_append] at hf ⊢
  cases hss : (visibleFunctions ss).lookup f with
  | none =>
    rw [hss, Option.none_or] at hf
    exact h.functions f n hf
  | some n' =>
    rw [hss, Option.some_or] at hf
    exact hf

/-- The additional variables of a scope are not among the given names. -/
def Scope.NewNotIn (Γ Γ' : Scope) (names : List YulString) : Prop :=
  ∀ x ∈ names, x ∈ Γ'.locals → x ∈ Γ.locals

variable {names : List YulString}

lemma Scope.NewNotIn.declare (h : Γ.NewNotIn Γ' names) (xs : List YulString) :
    (Γ.declare xs).NewNotIn (Γ'.declare xs) names := by
  intro x hx hmem
  rcases mem_append.mp hmem with hmem | hmem
  · exact mem_append_left _ hmem
  · exact mem_append_right _ (h x hx hmem)

lemma Scope.NewNotIn.of_locals {Γ₁ Γ₁' : Scope} (h : Γ.NewNotIn Γ' names)
    (hΓ : Γ₁.locals = Γ.locals) (hΓ' : Γ₁'.locals = Γ'.locals) : Γ₁.NewNotIn Γ₁' names := by
  intro x hx hmem
  rw [hΓ'] at hmem
  rw [hΓ]
  exact h x hx hmem

lemma Scope.NewNotIn.left {names' : List YulString} (h : Γ.NewNotIn Γ' (names ++ names')) :
    Γ.NewNotIn Γ' names :=
  fun x hx => h x (mem_append_left _ hx)

lemma Scope.NewNotIn.right {names' : List YulString} (h : Γ.NewNotIn Γ' (names ++ names')) :
    Γ.NewNotIn Γ' names' :=
  fun x hx => h x (mem_append_right _ hx)

lemma blockValid_of_extends {ss : Block}
    (hss : ∀ {Γ Γ' : Scope}, Γ.Extends Γ' → Γ'.component = Γ.component →
      Γ.NewNotIn Γ' (declarationsOfStatements ss) → statementsValid dialect Γ ss →
        statementsValid dialect Γ' ss) (h : Γ.Extends Γ') (hc : Γ'.component = Γ.component)
    (hnew : Γ.NewNotIn Γ' (declarationsOfStatements ss))
    (hvalid : statementsValid dialect (Γ.register ss) ss) :
    statementsValid dialect (Γ'.register ss) ss := by
  refine hss (h.register ss) ?_ ?_ hvalid
  · rw [register_eq, register_eq]
    exact hc
  · exact hnew.of_locals locals_register locals_register

mutual

/-- Valid code is valid in a larger scope that does not contain the names it declares. -/
lemma Statement.valid_of_extends (s : Statement) {Γ Γ' : Scope} (h : Γ.Extends Γ')
    (hc : Γ'.component = Γ.component) (hnew : Γ.NewNotIn Γ' s.declarations)
    (hvalid : s.valid dialect Γ) : s.valid dialect Γ' := by
  match s with
  | .expressionStatement e =>
    rw [valid_expression, and_eq_true, decide_eq_true_eq] at hvalid ⊢
    obtain ⟨he, hreturns⟩ := e.valid_of_extends h hvalid.1
    exact ⟨he, hreturns.trans hvalid.2⟩
  | .assignment xs e =>
    rw [valid_assignment, and_eq_true, and_eq_true, decide_eq_true_eq,
      all_eq_true] at hvalid ⊢
    obtain ⟨⟨hxs, he⟩, hlength⟩ := hvalid
    obtain ⟨he', hreturns⟩ := e.valid_of_extends h he
    refine ⟨⟨fun x hx => ?_, he'⟩, hreturns.trans hlength⟩
    exact decide_eq_true (h.locals (of_decide_eq_true (hxs x hx)))
  | .variableDeclaration xs value =>
    rw [valid_declaration, and_eq_true, and_eq_true, all_eq_true] at hvalid ⊢
    obtain ⟨⟨hnodup, hxs⟩, hvalue⟩ := hvalid
    refine ⟨⟨hnodup, fun x hx => ?_⟩, valueValid_of_extends h hvalue⟩
    have hfresh := of_decide_eq_true (hxs x hx)
    exact decide_eq_true fun hmem => hfresh (hnew x.name (mem_map_of_mem hx) hmem)
  | .functionDefinition f ps rs body =>
    rw [valid_function, and_eq_true, and_eq_true] at hvalid ⊢
    rw [hc]
    refine ⟨hvalid.1, ?_⟩
    have hbody : Scope.Extends ⟨(ps ++ rs).map (·.name), Γ.functions, .none⟩
        ⟨(ps ++ rs).map (·.name), Γ'.functions, .none⟩ := ⟨List.Subset.refl _, h.functions⟩
    refine statementsValid_of_extends body (hbody.register body) ?_ ?_ hvalid.2
    · rw [register_eq, register_eq]
    · intro x _ hx
      rw [locals_register] at hx ⊢
      exact hx
  | .if c body =>
    rw [valid_if, and_eq_true, and_eq_true, decide_eq_true_eq] at hvalid ⊢
    obtain ⟨⟨he, hreturns⟩, hbody⟩ := hvalid
    obtain ⟨he', hreturns'⟩ := c.valid_of_extends h he
    exact ⟨⟨he', hreturns'.trans hreturns⟩, blockValid_of_extends (statementsValid_of_extends body) h hc hnew hbody⟩
  | .switch e cases =>
    rw [valid_switch, and_eq_true, and_eq_true, decide_eq_true_eq] at hvalid ⊢
    obtain ⟨⟨he, hreturns⟩, hcases⟩ := hvalid
    obtain ⟨he', hreturns'⟩ := e.valid_of_extends h he
    exact ⟨⟨he', hreturns'.trans hreturns⟩, casesValid_of_extends cases h hc hnew hcases⟩
  | .forLoop pre c post body =>
    simp only [valid_forLoop, and_eq_true, decide_eq_true_eq] at hvalid ⊢
    obtain ⟨⟨⟨⟨hpre, he⟩, hreturns⟩, hpost⟩, hbody⟩ := hvalid
    rw [Statement.declarations] at hnew
    have hdeclare := h.declare (List.Subset.refl (pre.flatMap (·.declares)))
    obtain ⟨he', hreturns'⟩ := c.valid_of_extends hdeclare he
    refine ⟨⟨⟨⟨?_, he'⟩, hreturns'.trans hreturns⟩, ?_⟩, ?_⟩
    · exact statementsValid_of_extends pre (h.enter _ _) rfl
        (hnew.left.left.of_locals rfl rfl) hpre
    · exact blockValid_of_extends (statementsValid_of_extends post) (hdeclare.enter _ _) rfl
        ((hnew.right.declare _).of_locals rfl rfl) hpost
    · exact blockValid_of_extends (statementsValid_of_extends body) (hdeclare.enter _ _) rfl
        ((hnew.left.right.declare _).of_locals rfl rfl) hbody
  | .break | .continue =>
    have hcomponent : Γ.component = .forLoopBody := of_decide_eq_true hvalid
    exact decide_eq_true (hc.trans hcomponent)
  | .block ss => exact blockValid_of_extends (statementsValid_of_extends ss) h hc hnew hvalid

lemma statementsValid_of_extends (ss : List Statement) {Γ Γ' : Scope} (h : Γ.Extends Γ')
    (hc : Γ'.component = Γ.component) (hnew : Γ.NewNotIn Γ' (declarationsOfStatements ss))
    (hvalid : statementsValid dialect Γ ss) : statementsValid dialect Γ' ss := by
  match ss with
  | [] => rfl
  | s :: ss =>
    rw [statementsValid, and_eq_true] at hvalid ⊢
    rw [declarationsOfStatements] at hnew
    exact ⟨s.valid_of_extends h hc hnew.left hvalid.1,
      statementsValid_of_extends ss (h.declare (List.Subset.refl _)) hc (hnew.right.declare _)
        hvalid.2⟩

lemma casesValid_of_extends (cs : List Case) {Γ Γ' : Scope} (h : Γ.Extends Γ')
    (hc : Γ'.component = Γ.component) (hnew : Γ.NewNotIn Γ' (declarationsOfCases cs))
    (hvalid : casesValid dialect Γ cs) : casesValid dialect Γ' cs := by
  match cs with
  | [] => rfl
  | .mk value body :: cs =>
    rw [casesValid, and_eq_true, and_eq_true] at hvalid ⊢
    rw [declarationsOfCases] at hnew
    exact ⟨⟨hvalid.1.1, blockValid_of_extends (statementsValid_of_extends body) h hc hnew.left hvalid.1.2⟩,
      casesValid_of_extends cs h hc hnew.right hvalid.2⟩

end

lemma statementsValid_congr {ss : List Statement} (h : ∀ x, x ∈ Γ'.locals ↔ x ∈ Γ.locals)
    (hf : Γ'.functions = Γ.functions) (hc : Γ'.component = Γ.component) :
    statementsValid dialect Γ' ss = statementsValid dialect Γ ss := by
  rw [Bool.eq_iff_iff]
  constructor
  · refine statementsValid_of_extends ss ⟨fun x => (h x).mp, fun f n hn => ?_⟩ hc.symm
      fun x _ => (h x).mpr
    rw [← hf]
    exact hn
  · refine statementsValid_of_extends ss ⟨fun x => (h x).mpr, fun f n hn => ?_⟩ hc
      fun x _ => (h x).mp
    rw [hf]
    exact hn

lemma statementsValid_append_iff {ss ts : List Statement} :
    statementsValid dialect Γ (ss ++ ts) ↔
      statementsValid dialect Γ ss ∧
        statementsValid dialect (Γ.declare (ss.flatMap (·.declares))) ts := by
  obtain ⟨hlocals, hfunctions, hcomponent⟩ := foldl_declare_eq ss Γ
  rw [statementsValid_append, and_eq_true]
  refine and_congr_right fun _ => ?_
  rw [statementsValid_congr (Γ := Γ.declare (ss.flatMap (·.declares))) (fun x => ?_) hfunctions
    hcomponent]
  rw [hlocals, locals_declare, mem_append]

end

/-! ### Jumps -/

section

variable {World : Type} {I : Interpreter World}

lemma execBlock_default_of_valid {ss : Block}
    (hss : ∀ {Γ : Scope}, Γ.component ≠ .forLoopBody → statementsValid I.dialect Γ ss →
      ∀ F V m, (execStatements I F V ss m).Returns fun r _ => r.1 = .default)
    (hΓ : Γ.component ≠ .forLoopBody) (h : statementsValid I.dialect (Γ.register ss) ss)
    (F : Functions) (V : Variables) (m : SvmState World) :
    (execBlock I F V ss m).Returns fun r _ => r.1 = .default := by
  have hΓ' : (Γ.register ss).component ≠ .forLoopBody := by
    rw [register_eq]
    exact hΓ
  exact (hss hΓ' h _ V m).map fun _ _ hr => hr

mutual

lemma exec_default_of_valid (s : Statement) {Γ : Scope} (hΓ : Γ.component ≠ .forLoopBody)
    (h : s.valid I.dialect Γ) (F : Functions) (V : Variables) (m : SvmState World) :
    (s.exec I F V m).Returns fun r _ => r.1 = .default := by
  match s with
  | .expressionStatement e | .assignment xs e | .variableDeclaration xs e =>
    exact (Result.Returns.trivial _).map fun _ _ _ => rfl
  | .functionDefinition f ps rs body => exact .ok rfl
  | .if c body =>
    rw [valid_if, and_eq_true] at h
    rw [exec_if]
    refine (Result.Returns.trivial _).bind fun v m₁ _ _ => ?_
    split
    · exact execBlock_default_of_valid (execStatements_default_of_valid body) hΓ h.2 F V m₁
    · exact .ok rfl
  | .switch e cs =>
    rw [valid_switch, and_eq_true] at h
    rw [exec_switch]
    exact (Result.Returns.trivial _).bind fun v m₁ _ _ =>
      execCases_default_of_valid cs hΓ h.2 F V v m₁
  | .forLoop pre c post body =>
    rw [exec_forLoop]
    refine Result.Returns.map (P := fun r _ => r.1 = .default) ?_ fun _ _ hr => hr
    exact (Result.Returns.trivial _).bind fun _ _ _ _ =>
      (Result.Returns.trivial _).map fun _ _ _ => rfl
  | .break | .continue => exact absurd (of_decide_eq_true h) hΓ
  | .block ss => exact execBlock_default_of_valid (execStatements_default_of_valid ss) hΓ h F V m

lemma execStatements_default_of_valid (ss : List Statement) {Γ : Scope}
    (hΓ : Γ.component ≠ .forLoopBody) (h : statementsValid I.dialect Γ ss) (F : Functions)
    (V : Variables) (m : SvmState World) :
    (execStatements I F V ss m).Returns fun r _ => r.1 = .default := by
  match ss with
  | [] => exact .ok rfl
  | s :: ss =>
    rw [statementsValid, and_eq_true] at h
    rw [execStatements_cons]
    refine (exec_default_of_valid s hΓ h.1 F V m).bind fun r m₁ _ hr => ?_
    have hΓ' : (Γ.declare s.declares).component ≠ .forLoopBody := hΓ
    rw [if_pos hr]
    exact execStatements_default_of_valid ss hΓ' h.2 F r.2 m₁

lemma execCases_default_of_valid (cs : List Case) {Γ : Scope} (hΓ : Γ.component ≠ .forLoopBody)
    (h : casesValid I.dialect Γ cs) (F : Functions) (V : Variables) (v : Word)
    (m : SvmState World) : (execCases I F V v cs m).Returns fun r _ => r.1 = .default := by
  match cs with
  | [] => exact .ok rfl
  | .mk value body :: cs =>
    rw [casesValid, and_eq_true, and_eq_true] at h
    rw [execCases_cons]
    split
    · exact execBlock_default_of_valid (execStatements_default_of_valid body) hΓ h.1.2 F V m
    · exact execCases_default_of_valid cs hΓ h.2 F V v m

end

end

mutual

/-- How often code leaves (or continues) the loop around it, by the syntax. -/
def Statement.jumps (l : LoopState) : Statement → Nat
  | .functionDefinition _ _ _ body | .if _ body | .block body => jumpsOfStatements l body
  | .switch _ cases => jumpsOfCases l cases
  | .break => if l = .break then 1 else 0
  | .continue => if l = .continue then 1 else 0
  | _ => 0

def jumpsOfStatements (l : LoopState) : List Statement → Nat
  | [] => 0
  | s :: ss => s.jumps l + jumpsOfStatements l ss

def jumpsOfCases (l : LoopState) : List Case → Nat
  | [] => 0
  | .mk _ body :: cs => jumpsOfStatements l body + jumpsOfCases l cs

end

section

variable {dialect : Dialect} {c c' : ForLoopComponent} {l : LoopState}

lemma jumpsOfStatements_append (ss ts : List Statement) :
    jumpsOfStatements l (ss ++ ts) = jumpsOfStatements l ss + jumpsOfStatements l ts := by
  induction ss with
  | nil => exact (Nat.zero_add _).symm
  | cons s ss ih => rw [cons_append, jumpsOfStatements, jumpsOfStatements, ih, Nat.add_assoc]

mutual

lemma Statement.valid_of_jumps (hc : c' ≠ .forLoopPre) (s : Statement)
    (h : ∀ l, l ≠ .default → s.jumps l = 0) {Γ : Scope}
    (hvalid : s.valid dialect (Γ.enter c)) : s.valid dialect (Γ.enter c') := by
  match s with
  | .expressionStatement e =>
    rw [valid_expression, and_eq_true, decide_eq_true_eq] at hvalid ⊢
    obtain ⟨he, hreturns⟩ := e.valid_of_extends ((Scope.Extends.refl Γ).enter c c') hvalid.1
    exact ⟨he, hreturns.trans hvalid.2⟩
  | .assignment xs e =>
    rw [valid_assignment, and_eq_true, and_eq_true, decide_eq_true_eq] at hvalid ⊢
    obtain ⟨he, hreturns⟩ := e.valid_of_extends ((Scope.Extends.refl Γ).enter c c') hvalid.1.2
    exact ⟨⟨hvalid.1.1, he⟩, hreturns.trans hvalid.2⟩
  | .variableDeclaration xs value =>
    rw [valid_declaration, and_eq_true] at hvalid ⊢
    exact ⟨hvalid.1, valueValid_of_extends ((Scope.Extends.refl Γ).enter c c') hvalid.2⟩
  | .functionDefinition f ps rs body =>
    rw [valid_function, and_eq_true, and_eq_true] at hvalid ⊢
    exact ⟨⟨decide_eq_true hc, hvalid.1.2⟩, hvalid.2⟩
  | .if e body =>
    rw [valid_if, and_eq_true, and_eq_true, decide_eq_true_eq] at hvalid ⊢
    obtain ⟨he, hreturns⟩ := e.valid_of_extends ((Scope.Extends.refl Γ).enter c c') hvalid.1.1
    rw [register_enter] at hvalid ⊢
    exact ⟨⟨he, hreturns.trans hvalid.1.2⟩, statementsValid_of_jumps hc body h hvalid.2⟩
  | .switch e cases =>
    rw [valid_switch, and_eq_true, and_eq_true, decide_eq_true_eq] at hvalid ⊢
    obtain ⟨he, hreturns⟩ := e.valid_of_extends ((Scope.Extends.refl Γ).enter c c') hvalid.1.1
    exact ⟨⟨he, hreturns.trans hvalid.1.2⟩, casesValid_of_jumps hc cases h hvalid.2⟩
  | .forLoop pre e post body =>
    simp only [valid_forLoop, and_eq_true, decide_eq_true_eq] at hvalid ⊢
    obtain ⟨⟨⟨⟨hpre, he⟩, hreturns⟩, hpost⟩, hbody⟩ := hvalid
    obtain ⟨he', hreturns'⟩ := e.valid_of_extends
      (((Scope.Extends.refl Γ).enter c c').declare (List.Subset.refl (pre.flatMap (·.declares)))) he
    exact ⟨⟨⟨⟨hpre, he'⟩, hreturns'.trans hreturns⟩, hpost⟩, hbody⟩
  | .break => exact absurd (h .break (by decide)) (by decide)
  | .continue => exact absurd (h .continue (by decide)) (by decide)
  | .block ss =>
    rw [valid_block, register_enter] at hvalid ⊢
    exact statementsValid_of_jumps hc ss h hvalid

lemma statementsValid_of_jumps (hc : c' ≠ .forLoopPre) (ss : List Statement)
    (h : ∀ l, l ≠ .default → jumpsOfStatements l ss = 0) {Γ : Scope}
    (hvalid : statementsValid dialect (Γ.enter c) ss) :
    statementsValid dialect (Γ.enter c') ss := by
  match ss with
  | [] => rfl
  | s :: ss =>
    rw [statementsValid, and_eq_true] at hvalid ⊢
    have hjumps (l : LoopState) (hl : l ≠ .default) := Nat.add_eq_zero_iff.mp (h l hl)
    have hss : statementsValid dialect ((Γ.declare s.declares).enter c') ss = true :=
      statementsValid_of_jumps hc ss (fun l hl => (hjumps l hl).2) hvalid.2
    exact ⟨s.valid_of_jumps hc (fun l hl => (hjumps l hl).1) hvalid.1, hss⟩

lemma casesValid_of_jumps (hc : c' ≠ .forLoopPre) (cs : List Case)
    (h : ∀ l, l ≠ .default → jumpsOfCases l cs = 0) {Γ : Scope}
    (hvalid : casesValid dialect (Γ.enter c) cs) :
    casesValid dialect (Γ.enter c') cs := by
  match cs with
  | [] => rfl
  | .mk value body :: cs =>
    rw [casesValid, and_eq_true, and_eq_true, register_enter] at hvalid ⊢
    have hjumps (l : LoopState) (hl : l ≠ .default) := Nat.add_eq_zero_iff.mp (h l hl)
    exact ⟨⟨hvalid.1.1, statementsValid_of_jumps hc body (fun l hl => (hjumps l hl).1) hvalid.1.2⟩,
      casesValid_of_jumps hc cs (fun l hl => (hjumps l hl).2) hvalid.2⟩

end

end

end Yul
