import Polc.Yul.Optimiser.SSATransform.Properties

/-!
# The SSA transform keeps the meaning of programs

The transformed program has the variables of the program with the same values, and the current
value of a variable is a variable with the same value, wherever control comes to.
-/

namespace Yul

open Sof Semantics List Expression Variables
open Bool (and_eq_true)

namespace SSATransform

/-! ### States that fit the code in front of them -/

/-- The current values are new variables, and no name that the code declares is visible or has a
current value; `N` are the names of the whole program. -/
structure Ready (N : List YulString) (Γ : Scope) (T : SSATransform) (names : List YulString) :
    Prop where
  used : N ⊆ T.nameDispenser.usedNames
  locals : Γ.locals ⊆ N
  value : ∀ x y, T.currentVariableValues x = some y → y ∉ N ∧ y ∈ T.nameDispenser.usedNames
  subset : names ⊆ N
  nodup : names.Nodup
  new : ∀ x ∈ names, x ∉ Γ.locals ∧ T.currentVariableValues x = none

/-- Visible variables have the values of their current variables. -/
def Holds (Γ : Scope) (T : SSATransform) (V : Variables) : Prop :=
  ∀ x y, T.currentVariableValues x = some y → x ∈ Γ.locals → V y = V x ∧ (V x).isSome

variable {V V' : Variables}

section

variable {N : List YulString} {Γ Γ' : Scope} {T T' : SSATransform}
  {names rest xs assigned declared cleared assigned' declared' : List YulString}

namespace Ready

lemma of_locals_eq (h : Ready N Γ T names) (hΓ : Γ'.locals = Γ.locals) : Ready N Γ' T names where
  used := h.used
  locals := hΓ ▸ h.locals
  value := h.value
  subset := h.subset
  nodup := h.nodup
  new := hΓ ▸ h.new

lemma enter (h : Ready N Γ T names) (k : ForLoopComponent) : Ready N (Γ.enter k) T names :=
  h.of_locals_eq rfl

lemma left (h : Ready N Γ T (names ++ rest)) : Ready N Γ T names where
  used := h.used
  locals := h.locals
  value := h.value
  subset := (append_subset.mp h.subset).1
  nodup := h.nodup.of_append_left
  new x hx := h.new x (mem_append_left _ hx)

lemma step (h : Ready N Γ T (names ++ rest))
    (hstep : Step T T' assigned declared cleared assigned' declared')
    (hcleared : cleared ⊆ names ++ Γ.locals) (hxs : xs ⊆ names)
    (hΓ' : Γ'.locals = xs ++ Γ.locals) : Ready N Γ' T' rest where
  used := List.Subset.trans h.used hstep.used
  locals := by
    rw [hΓ']
    exact append_subset.mpr
      ⟨List.Subset.trans hxs (append_subset.mp h.subset).1, h.locals⟩
  value x y hx := by
    rcases hstep.value x y hx with ⟨hx, -⟩ | ⟨-, hnew, hused⟩
    · exact ⟨(h.value x y hx).1, hstep.used (h.value x y hx).2⟩
    · exact ⟨fun hN => hnew (h.used hN), hused⟩
  subset := (append_subset.mp h.subset).2
  nodup := h.nodup.of_append_right
  new x hx := by
    have hnew := h.new x (mem_append_right _ hx)
    have hdisjoint : x ∉ names := fun hmem => disjoint_of_nodup_append h.nodup hmem hx
    refine ⟨?_, ?_⟩
    · rw [hΓ', mem_append, not_or]
      exact ⟨fun hmem => hdisjoint (hxs hmem), hnew.1⟩
    · by_contra hvalue
      obtain ⟨y, hy⟩ := Option.ne_none_iff_exists'.mp hvalue
      rcases hstep.value x y hy with ⟨hy, -⟩ | ⟨hmem, -, -⟩
      · rw [hnew.2] at hy
        cases hy
      · rcases mem_append.mp (hcleared hmem) with hmem | hmem
        · exact hdisjoint hmem
        · exact hnew.1 hmem

lemma close (h : Ready N Γ T (names ++ rest))
    (hstep : Step T T' assigned declared [] assigned' declared') : Ready N Γ T' rest :=
  h.step hstep (nil_subset _) (nil_subset names) rfl

lemma function {f : YulString} {ps rs : List TypedName} (fs : List (YulString × Nat × Nat))
    (c : ForLoopComponent) (h : Ready N Γ T (f :: ps.map (·.name) ++ rs.map (·.name) ++ names)) :
    Ready N ⟨(ps ++ rs).map (·.name), fs, c⟩ T names ∧
      ∀ x ∈ (ps ++ rs).map (·.name), T.currentVariableValues x = none := by
  have hmem {x : YulString} (hx : x ∈ (ps ++ rs).map (·.name)) :
      x ∈ f :: ps.map (·.name) ++ rs.map (·.name) := by
    rw [map_append] at hx
    exact mem_cons_of_mem _ hx
  refine ⟨⟨h.used, fun x hx => h.subset (mem_append_left _ (hmem hx)), h.value,
    (append_subset.mp h.subset).2, h.nodup.of_append_right, fun x hx => ⟨fun hlocal => ?_, ?_⟩⟩,
    fun x hx => ?_⟩
  · exact disjoint_of_nodup_append h.nodup (hmem hlocal) hx
  · exact (h.new x (mem_append_right _ hx)).2
  · exact (h.new x (mem_append_left _ (hmem hx))).2

end Ready

lemma Holds.frame {W : Variables} {U : SSATransform} (h : Holds Γ T V)
    (hready : Ready N Γ T names) (hstep : Step T T' assigned declared cleared assigned' declared')
    (hassigned : assigned ⊆ N) (hdeclared : declared ⊆ names)
    (hU : ∀ x y, U.currentVariableValues x = some y →
      T.currentVariableValues x = some y ∧ x ∉ assigned) (hΓ' : Γ'.locals = xs ++ Γ.locals)
    (hxs : xs ⊆ names) (hW : ∀ z, z ∉ assigned' → z ∉ declared' → W z = V z) : Holds Γ' U W := by
  intro x y hy hx
  obtain ⟨hy, hxassigned⟩ := hU x y hy
  have hlocal : x ∈ Γ.locals := by
    rw [hΓ'] at hx
    refine (mem_append.mp hx).resolve_left fun hx => ?_
    rw [(hready.new x (hxs hx)).2] at hy
    cases hy
  obtain ⟨hyN, hyused⟩ := hready.value x y hy
  have hWx : W x = V x := by
    refine hW x (fun hmem => hxassigned (hstep.assigned hmem)) fun hmem => ?_
    rcases hstep.declared x hmem with hmem | ⟨hmem, -⟩
    · exact (hready.new x (hdeclared hmem)).1 hlocal
    · exact hmem (hready.used (hready.locals hlocal))
  have hWy : W y = V y := by
    refine hW y (fun hmem => hyN (hassigned (hstep.assigned hmem))) fun hmem => ?_
    rcases hstep.declared y hmem with hmem | ⟨hmem, -⟩
    · exact hyN (hready.subset (hdeclared hmem))
    · exact hmem hyused
  rw [hWx, hWy]
  exact h x y hy hlocal

end

/-- Copy new variables to old ones. -/
def copied : List (YulString × YulString) → Variables → Variables
  | [], V => V
  | p :: pairs, V => copied pairs (V.set p.1 ((V p.2).getD 0))

section

variable {World : Type} {I : Interpreter World} {F : Functions} {V V' : Variables}
  {m : SvmState World} {N : List YulString} {pairs : List (YulString × YulString)}

lemma exec_declareCopies :
    execStatements I F V (declareCopies pairs) m = .ok (.default, copied pairs V) m := by
  induction pairs generalizing V with
  | nil => rfl
  | cons p pairs ih => exact ih

lemma exec_assignCopies :
    execStatements I F V (assignCopies pairs) m = .ok (.default, copied pairs V) m := by
  induction pairs generalizing V with
  | nil => rfl
  | cons p pairs ih => exact ih

lemma agreeOn_copied (hnew : ∀ p ∈ pairs, p.2 ∉ N) (hnodup : (pairs.map (·.2)).Nodup)
    (hold : ∀ p ∈ pairs, p.1 ∈ N) (h : Variables.AgreeOn N V V') (vs : List Word) :
    Variables.AgreeOn N (V.assign (pairs.map (·.1)) vs)
      (copied pairs (V'.assign (pairs.map (·.2)) vs)) := by
  induction pairs generalizing V V' vs with
  | nil => exact h
  | cons p pairs ih =>
    obtain ⟨x, y⟩ := p
    rw [forall_mem_cons] at hnew hold
    rw [map_cons, nodup_cons] at hnodup
    have hxnew : x ∉ pairs.map (·.2) := by
      intro hmem
      obtain ⟨p, hp, rfl⟩ := mem_map.mp hmem
      exact hnew.2 p hp hold.1
    have hy : ((V'.set y (vs.headD 0)).assign (pairs.map (·.2)) vs.tail) y =
        some (vs.headD 0) := by
      rw [assign_of_not_mem hnodup.1, set_self]
    rw [map_cons, map_cons, assign_cons, assign_cons]
    rw [copied, hy, Option.getD_some, ← assign_set hxnew]
    refine ih hnew.2 hnodup.2 hold.2 ?_ vs.tail
    refine Variables.AgreeOn.set ?_ x _
    intro z hz
    rw [set_of_ne fun (hzy : z = y) => hnew.1 (hzy ▸ hz)]
    exact h z hz

lemma holds_copied {L : List YulString} {M : YulString → Option YulString}
    (hnew : ∀ p ∈ pairs, p.2 ∉ N ∧ (V p.2).isSome) (hold : ∀ p ∈ pairs, p.1 ∈ N)
    (hM : ∀ x y, M x = some y → x ∈ L → y ∉ N ∧ V y = V x ∧ (V x).isSome) {x y : YulString}
    (hy : setValues pairs M x = some y) (hx : x ∈ L) : copied pairs V y = copied pairs V x ∧ (copied pairs V x).isSome := by
  induction pairs generalizing V M with
  | nil => exact (hM x y hy hx).2
  | cons p pairs ih =>
    rw [forall_mem_cons] at hnew hold
    have hset (z : YulString) (hz : z ∉ N) : V.set p.1 ((V p.2).getD 0) z = V z :=
      set_of_ne fun heq => hz (heq ▸ hold.1)
    refine ih (fun q hq => ⟨(hnew.2 q hq).1, ?_⟩) hold.2 (fun z w hw hz => ?_) hy
    · rw [hset q.2 (hnew.2 q hq).1]
      exact (hnew.2 q hq).2
    · by_cases hzp : z = p.1
      · rw [if_pos hzp] at hw
        cases hw
        rw [hset p.2 hnew.1.1, hzp, set_self]
        refine ⟨hnew.1.1, ?_, rfl⟩
        obtain ⟨v, hv⟩ := Option.isSome_iff_exists.mp hnew.1.2
        rw [hv, Option.getD_some]
      · rw [if_neg hzp] at hw
        obtain ⟨hwN, hVw, hsome⟩ := hM z w hw hz
        rw [hset w hwN, set_of_ne hzp]
        exact ⟨hwN, hVw, hsome⟩

end

section

variable {World : Type} {p q : Prop} {D : FunctionDefinition → FunctionDefinition → Prop}
  {I I' : Interpreter World} {F F' : Functions} {V V' : Variables}
  {values : YulString → Option YulString}

variable (values) in
lemma literalText_visitArguments (es : List Expression) :
    evalBuiltin.literalText (visitArguments values es) = evalBuiltin.literalText es := by
  cases es with
  | nil => rfl
  | cons e es => cases e <;> rfl

mutual

lemma eval_visit_sim (hI : I.Sim p q D I') (hF : F.Rel D F') (e : Expression)
    (hV : ∀ x ∈ e.referencedVariables, V' ((values x).getD x) = V x) (m : SvmState World) :
    Result.Sim p q Eq Eq (e.eval I F V m) ((visit values e).eval I' F' V' m) := by
  match e with
  | .functionalInstruction i args =>
    rw [visit, eval_instruction, eval_instruction]
    refine (args_visit_sim hI hF args hV m).bind ?_
    rintro vs _ m₁ _ - - rfl rfl
    rw [hI.env]
    exact .refl (fun _ => rfl) (fun _ => rfl) _
  | .functionCall f args =>
    rw [visit, eval_functionCall, eval_functionCall]
    refine (args_visit_sim hI hF args hV m).bind ?_
    rintro vs _ m₁ _ - - rfl rfl
    rw [hI.env, hI.dialect]
    cases hb : I.dialect.builtin f with
    | some b =>
      have htext := evalBuiltin_of_literalText hb
        (fun _ => literalText_visitArguments values args) I.env vs m₁
      exact .rel (Result.Rel.eq_iff.mpr htext.symm)
    | none => exact hI.call hF f vs m₁
  | .identifier x =>
    rw [visit, eval_identifier, eval_identifier, hV x mem_cons_self]
    exact .ok rfl rfl
  | .literal l => exact .ok rfl rfl

lemma args_visit_sim (hI : I.Sim p q D I') (hF : F.Rel D F') (es : List Expression)
    (hV : ∀ x ∈ argumentsReferencedVariables es, V' ((values x).getD x) = V x)
    (m : SvmState World) :
    Result.Sim p q Eq Eq (evaluateArgs I F V es m)
      (evaluateArgs I' F' V' (visitArguments values es) m) := by
  match es with
  | [] => exact .ok rfl rfl
  | e :: es =>
    rw [argumentsReferencedVariables, forall_mem_append] at hV
    rw [visitArguments, args_cons, args_cons]
    refine (args_visit_sim hI hF es hV.2 m).bind ?_
    rintro vs _ m₁ _ - - rfl rfl
    refine (eval_visit_sim hI hF e hV.1 m₁).bind ?_
    rintro v _ m₂ _ - - rfl rfl
    exact .ok rfl rfl

end

lemma evaluate_visit_sim (hI : I.Sim p q D I') (hF : F.Rel D F') (e : Expression)
    (hV : ∀ x ∈ e.referencedVariables, V' ((values x).getD x) = V x) (m : SvmState World) :
    Result.Sim p q Eq Eq (e.evaluate I F V m) ((visit values e).evaluate I' F' V' m) :=
  (eval_visit_sim hI hF e hV m).map fun _ _ h => congrArg (·.headD 0) h

lemma evaluateMulti_visit_sim (hI : I.Sim p q D I') (hF : F.Rel D F') (value : Option Expression)
    (hV : ∀ e, value = some e → ∀ x ∈ e.referencedVariables, V' ((values x).getD x) = V x)
    (m : SvmState World) :
    Result.Sim p q Eq Eq (Expression.evaluateMulti I F V value m)
      (Expression.evaluateMulti I' F' V' (value.map (visit values)) m) := by
  cases value with
  | none => exact .ok rfl rfl
  | some e => exact eval_visit_sim hI hF e (hV e rfl) m

end

/-! ### The current values stay true -/

variable {s : Statement}

section

variable {World : Type} {I : Interpreter World} {F : Functions} {V : Variables}
  {N rest variablesToReplace : List YulString} {Γ : Scope} {T : SSATransform}
  {dialect : Dialect}

lemma cleared_subset (s : Statement) (hvalid : s.valid dialect Γ) :
    (statement variablesToReplace T s).2.2 ⊆ s.names ++ Γ.locals := by
  cases s with
  | variableDeclaration xs value =>
    rw [statement]
    split
    · exact subset_append_left _ _
    · exact nil_subset _
  | assignment xs e =>
    rw [valid_assignment, and_eq_true, and_eq_true, all_eq_true] at hvalid
    exact fun x hx => mem_append_right _ (of_decide_eq_true (hvalid.1.1 x hx))
  | _ => exact nil_subset _

lemma Ready.statement (h : Ready N Γ T (s.names ++ rest)) (hvalid : s.valid dialect Γ) :
    Ready N (Γ.declare s.declares) (statement variablesToReplace T s).2.1 rest :=
  h.step (statement_step _ s T) (cleared_subset s hvalid) (declares_subset_names s) rfl

lemma assignments_subset (h : Ready N Γ T s.names) (hvalid : s.valid dialect Γ) :
    s.assignments ⊆ N :=
  fun _ hx => (mem_of_mem_assignments s hvalid hx).elim (fun hx => h.subset hx)
    fun hx => h.locals hx

lemma Holds.copied {xs declared : List YulString} {vs : List Word} (h : Holds Γ T V)
    (hready : Ready N Γ T declared) (hxs : xs ⊆ N)
    (hdeclared : ∀ x ∈ declared, T.currentVariableValues x = none) :
    Holds (Γ.declare declared) (T.newVariables xs).2
      (copied (T.newVariables xs).1 (V.assign ((T.newVariables xs).1.map (·.2)) vs)) := by
  have hnew := T.newVariables_spec xs
  intro x y hy hx
  rw [hnew.values] at hy
  refine holds_copied (N := N) (fun p hp => ⟨?_, ?_⟩) (fun p hp => ?_) (fun z w hw hz => ?_) hy hx
  · exact fun hN => (hnew.fresh p hp).1.notUsed (hready.used hN)
  · exact isSome_assign_iff.mpr (.inl (mem_map_of_mem hp))
  · exact hxs (hnew.old ▸ mem_map_of_mem hp)
  · have hlocal : z ∈ Γ.locals := by
      refine (mem_append.mp hz).resolve_left fun hz => ?_
      rw [hdeclared z hz] at hw
      cases hw
    have hused {u : YulString} (hu : u ∈ T.nameDispenser.usedNames) :
        u ∉ (T.newVariables xs).1.map (·.2) := by
      intro hmem
      obtain ⟨p, hp, rfl⟩ := mem_map.mp hmem
      exact (hnew.fresh p hp).1.notUsed hu
    obtain ⟨hwN, hwused⟩ := hready.value z w hw
    rw [assign_of_not_mem (hused hwused),
      assign_of_not_mem (hused (hready.used (hready.locals hlocal)))]
    exact ⟨hwN, h z w hw hlocal⟩

lemma Holds.exec_of_eq_nil (h : Holds Γ T V) (hready : Ready N Γ T s.names)
    (hvalid : s.valid dialect Γ) (hdeclares : s.declares = [])
    (hcleared : (SSATransform.statement variablesToReplace T s).2.2 = []) (m : SvmState World) :
    (execStatements I F V (SSATransform.statement variablesToReplace T s).1 m).Returns fun r _ =>
      r.1 = .default →
        Holds (Γ.declare s.declares) (SSATransform.statement variablesToReplace T s).2.1 r.2 := by
  have hstep := statement_step variablesToReplace s T
  rw [hcleared] at hstep
  refine (exec_unchanged _ V m).mono fun r _ hr _ => ?_
  rw [hdeclares]
  refine h.frame hready hstep (assignments_subset hready hvalid)
    (declarations_subset_names s) (fun x y hy => ?_) (nil_append _).symm (nil_subset _) hr
  exact (hstep.value x y hy).resolve_right fun hmem => not_mem_nil hmem.1

lemma Holds.exec (h : Holds Γ T V) (hready : Ready N Γ T s.names)
    (hvalid : s.valid dialect Γ) (m : SvmState World) :
    (execStatements I F V (SSATransform.statement variablesToReplace T s).1 m).Returns fun r _ =>
      r.1 = .default →
        Holds (Γ.declare s.declares) (SSATransform.statement variablesToReplace T s).2.1 r.2 := by
  cases s with
  | variableDeclaration xs value =>
    rw [SSATransform.statement]
    split
    · rw [execStatements_cons, declareNew, exec_declaration]
      refine ((Result.Returns.trivial _).map (Q := fun r _ => r.1 = .default ∧ ∃ vs, r.2 =
        V.assign ((T.newVariables (xs.map (·.name))).1.map (·.2)) vs) fun vs _ _ => ?_).bind ?_
      · exact ⟨rfl, vs, by rw [map_map]; rfl⟩
      · rintro ⟨_, W⟩ m₁ - ⟨rfl, vs, rfl⟩
        rw [if_pos rfl, exec_declareCopies]
        exact .ok fun _ => h.copied hready (hready.subset) fun x hx => (hready.new x hx).2
    · rw [exec_singleton, exec_declaration]
      refine (Result.Returns.trivial _).map fun vs _ _ _ x y hy hx => ?_
      show V.assign (xs.map (·.name)) vs y = V.assign (xs.map (·.name)) vs x ∧
        (V.assign (xs.map (·.name)) vs x).isSome = true
      have hnames : Ready N Γ T (xs.map (·.name)) := hready
      have hxs : x ∉ xs.map (·.name) := by
        intro hmem
        rw [(hnames.new x hmem).2] at hy
        cases hy
      have hys : y ∉ xs.map (·.name) := fun hmem =>
        (hnames.value x y hy).1 (hnames.subset hmem)
      rw [assign_of_not_mem hxs, assign_of_not_mem hys]
      exact h x y hy ((mem_append.mp hx).resolve_left hxs)
  | assignment xs e =>
    rw [SSATransform.statement, execStatements_cons, declareNew, exec_declaration]
    refine ((Result.Returns.trivial _).map (Q := fun r _ => r.1 = .default ∧ ∃ vs, r.2 =
      V.assign ((T.newVariables xs).1.map (·.2)) vs) fun vs _ _ => ?_).bind ?_
    · exact ⟨rfl, vs, by rw [map_map]; rfl⟩
    · rintro ⟨_, W⟩ m₁ - ⟨rfl, vs, rfl⟩
      rw [if_pos rfl, exec_assignCopies]
      exact .ok fun _ => h.copied hready (assignments_subset hready hvalid) (forall_mem_nil _)
  | _ => exact h.exec_of_eq_nil hready hvalid rfl rfl m

end

/-! ### Runs -/

/-- The second function is what the transform makes of the first one. -/
structure Transformed (dialect : Dialect) (N variablesToReplace : List YulString)
    (d d' : FunctionDefinition) : Prop where
  parameters : d'.parameters = d.parameters
  returnVariables : d'.returnVariables = d.returnVariables
  body : ∃ Γ T, Γ.locals = (d.parameters ++ d.returnVariables).map (·.name) ∧
    Ready N Γ T (namesOfStatements d.body) ∧ (∀ x ∈ Γ.locals, T.currentVariableValues x = none) ∧
    statementsValid dialect (Γ.register d.body) d.body = true ∧
    d'.body = (statements variablesToReplace T d.body).1

section

variable {dialect : Dialect} {N rest variablesToReplace : List YulString} {Γ : Scope}
  {T : SSATransform}

lemma definitions_copies (pairs : List (YulString × YulString)) :
    functionDefinitions (declareCopies pairs) = [] ∧
      functionDefinitions (assignCopies pairs) = [] := by
  induction pairs with
  | nil => exact ⟨rfl, rfl⟩
  | cons p pairs ih => exact ih

lemma definesRelated_statement (hready : Ready N Γ T s.names) (hvalid : s.valid dialect Γ) :
    DefinesRelated (Transformed dialect N variablesToReplace) [s]
      (statement variablesToReplace T s).1 := by
  cases s with
  | functionDefinition f ps rs body =>
    rw [valid_function, and_eq_true] at hvalid
    obtain ⟨hbody, hnone⟩ := hready.function Γ.functions .none
    exact List.Forall₂.cons
      ⟨rfl, rfl, rfl, ⟨_, T, rfl, hbody, hnone, hvalid.2, rfl⟩⟩ .nil
  | variableDeclaration xs value =>
    rw [statement]
    split
    · exact .of_eq_nil rfl (definitions_copies _).1
    · exact .of_eq_nil rfl rfl
  | assignment xs e => exact .of_eq_nil rfl (definitions_copies _).2
  | _ => exact .nil

lemma definesRelated_statements (ss : List Statement)
    (hready : Ready N Γ T (namesOfStatements ss)) (hvalid : statementsValid dialect Γ ss) :
    DefinesRelated (Transformed dialect N variablesToReplace) ss
      (statements variablesToReplace T ss).1 := by
  induction ss generalizing Γ T with
  | nil => exact .nil
  | cons s ss ih =>
    rw [statementsValid, and_eq_true] at hvalid
    exact (definesRelated_statement hready.left hvalid.1).cons
      (ih (hready.statement hvalid.1) hvalid.2)

lemma Holds.current (h : Holds Γ T V') (hV : Variables.AgreeOn N V V') (hlocals : Γ.locals ⊆ N)
    {x : YulString} (hx : x ∈ Γ.locals) : V' ((T.currentVariableValues x).getD x) = V x := by
  cases hvalue : T.currentVariableValues x with
  | none => exact hV x (hlocals hx)
  | some y => exact (h x y hvalue hx).1.trans (hV x (hlocals hx))

lemma Holds.of_value {U : SSATransform} (h : Holds Γ T V)
    (hU : ∀ x y, U.currentVariableValues x = some y → T.currentVariableValues x = some y) :
    Holds Γ U V :=
  fun x y hy hx => h x y (hU x y hy) hx

end

section

variable {World : Type} {p q : Prop} {I I' : Interpreter World}
  {N variablesToReplace : List YulString}

variable {F F' : Functions} {T : SSATransform}

lemma execBlock_transform_of {Γ : Scope} {ss : Block}
    (hready : Ready N Γ T (namesOfStatements ss))
    (hvalid : statementsValid I.dialect (Γ.register ss) ss)
    (hss : ∀ {Γ F F' V V'}, Ready N Γ T (namesOfStatements ss) →
      statementsValid I.dialect Γ ss →
      F.Rel (Transformed I.dialect N variablesToReplace) F' → Variables.AgreeOn N V V' →
      Holds Γ T V' → ∀ m, Result.Sim p q Eq (Outcome fun _ => Variables.AgreeOn N)
        (execStatements I F V ss m)
        (execStatements I' F' V' (statements variablesToReplace T ss).1 m))
    (hF : F.Rel (Transformed I.dialect N variablesToReplace) F') (hV : Variables.AgreeOn N V V')
    (hold : Holds Γ T V') (m : SvmState World) :
    Result.Sim p q Eq (Outcome fun _ => Variables.AgreeOn N) (execBlock I F V ss m)
      (execBlock I' F' V' (statements variablesToReplace T ss).1 m) := by
  have hready' : Ready N (Γ.register ss) T (namesOfStatements ss) :=
    hready.of_locals_eq Scope.locals_register
  refine execBlock_sim hF (definesRelated_statements ss hready' hvalid) (fun hF => ?_)
    fun _ _ _ hW => hV.restrict hW
  refine hss hready' hvalid hF hV (fun x y hy hx => ?_) m
  rw [Scope.locals_register] at hx
  exact hold x y hy hx

/-! ### Loops -/

/-- The state before the condition of a loop. -/
def loopState (variablesToReplace : List YulString) (T : SSATransform) (pre post body : Block) :
    SSATransform :=
  (closeBlock (statements variablesToReplace T pre)).erase
    (assignmentsOfStatements body ++ assignmentsOfStatements post)

/-- The state behind the body of a loop. -/
def loopBodyState (variablesToReplace : List YulString) (T : SSATransform)
    (pre post body : Block) : SSATransform :=
  closeBlock (statements variablesToReplace (loopState variablesToReplace T pre post body) body)

section

variable {Γ : Scope} {T : SSATransform} {pre post body : Block} {c : Expression}
  {dialect : Dialect} {F : Functions}

lemma step_loopState (variablesToReplace : List YulString) (T : SSATransform) (pre post body : Block) :
    Step T (loopState variablesToReplace T pre post body) (assignmentsOfStatements pre)
      (declarationsOfStatements pre) []
      (assignmentsOfStatements (statements variablesToReplace T pre).1)
      (declarationsOfStatements (statements variablesToReplace T pre).1) :=
  (statements_step _ pre T).close.erase _

lemma step_loopBodyState (variablesToReplace : List YulString) (T : SSATransform) (pre post body : Block) :
    Step (loopState variablesToReplace T pre post body)
      (loopBodyState variablesToReplace T pre post body) (assignmentsOfStatements body)
      (declarationsOfStatements body) []
      (assignmentsOfStatements
        (statements variablesToReplace (loopState variablesToReplace T pre post body) body).1)
      (declarationsOfStatements
        (statements variablesToReplace (loopState variablesToReplace T pre post body) body).1) :=
  (statements_step _ body _).close

namespace Ready

lemma loop (variablesToReplace : List YulString)
    (h : Ready N Γ T (Statement.forLoop pre c post body).names) :
    Ready N Γ T (namesOfStatements pre) ∧
      Ready N (Γ.declare (pre.flatMap (·.declares)))
        (loopState variablesToReplace T pre post body)
        (namesOfStatements body ++ namesOfStatements post) := by
  have hnames : Ready N Γ T
      (namesOfStatements pre ++ (namesOfStatements body ++ namesOfStatements post)) := by
    rw [← append_assoc]
    exact h
  exact ⟨hnames.left, hnames.step (step_loopState _ T pre post body) (nil_subset _)
    (flatMap_declares_subset_names pre) rfl⟩

lemma loopPost (variablesToReplace : List YulString)
    (h : Ready N Γ T (Statement.forLoop pre c post body).names) :
    Ready N (Γ.declare (pre.flatMap (·.declares)))
      (loopBodyState variablesToReplace T pre post body) (namesOfStatements post) :=
  (h.loop variablesToReplace).2.close (step_loopBodyState _ T pre post body)

end Ready

namespace Holds

lemma loopPre {V : Variables} (h : Holds Γ T V)
    (hready : Ready N Γ T (Statement.forLoop pre c post body).names)
    (hvalid : (Statement.forLoop pre c post body).valid dialect Γ) (m : SvmState World) :
    (execStatements I F V (statements variablesToReplace T pre).1 m).Returns fun r _ =>
      Holds (Γ.declare (pre.flatMap (·.declares))) (loopState variablesToReplace T pre post body)
        r.2 := by
  have hassign := assignments_subset hready hvalid
  rw [Statement.assignments, append_subset, append_subset] at hassign
  have hstep := step_loopState variablesToReplace T pre post body
  refine (exec_unchanged _ V m).mono fun r _ hr => ?_
  refine h.frame (hready.loop variablesToReplace).1 hstep hassign.1.1 (declarationsOfStatements_subset_names pre)
    (fun x y hy => ?_) rfl (flatMap_declares_subset_names pre) hr
  exact (hstep.value x y hy).resolve_right fun h => not_mem_nil h.1

variable {W : Variables}

/-- The current values at the start of a loop are those of variables that it does not change. -/
lemma loopKept {W' : Variables}
    (h : Holds (Γ.declare (pre.flatMap (·.declares)))
      (loopState variablesToReplace T pre post body) W)
    (hready : Ready N Γ T (Statement.forLoop pre c post body).names)
    (hvalid : (Statement.forLoop pre c post body).valid dialect Γ)
    (hunchanged : ∀ z,
      z ∉ assignmentsOfStatements
          (statements variablesToReplace (loopState variablesToReplace T pre post body) body).1 ++
        assignmentsOfStatements
          (statements variablesToReplace (loopBodyState variablesToReplace T pre post body) post).1 →
      z ∉ declarationsOfStatements
          (statements variablesToReplace (loopState variablesToReplace T pre post body) body).1 ++
        declarationsOfStatements
          (statements variablesToReplace (loopBodyState variablesToReplace T pre post body) post).1 →
      W' z = W z) :
    Holds (Γ.declare (pre.flatMap (·.declares)))
      (loopState variablesToReplace T pre post body) W' := by
  have hassign := assignments_subset hready hvalid
  rw [Statement.assignments, append_subset, append_subset] at hassign
  obtain ⟨⟨-, habody⟩, hapost⟩ := hassign
  have hstep := (step_loopBodyState variablesToReplace T pre post body).append (statements_step variablesToReplace post _).close
  refine h.frame (hready.loop variablesToReplace).2 hstep (append_subset.mpr ⟨habody, hapost⟩)
    (append_subset_append (declarationsOfStatements_subset_names body)
      (declarationsOfStatements_subset_names post)) (fun x y hy => ⟨hy, ?_⟩)
    (nil_append _).symm (nil_subset _) hunchanged
  exact (erase_eq_some.mp hy).1

lemma loopBody
    (h : Holds (Γ.declare (pre.flatMap (·.declares)))
      (loopState variablesToReplace T pre post body) W)
    (hready : Ready N Γ T (Statement.forLoop pre c post body).names)
    (hvalid : (Statement.forLoop pre c post body).valid dialect Γ) (m : SvmState World) :
    (execBlock I F W (statements variablesToReplace
      (loopState variablesToReplace T pre post body) body).1 m).Returns fun r _ =>
      Holds (Γ.declare (pre.flatMap (·.declares))) (loopState variablesToReplace T pre post body)
        r.2 := by
  refine (execBlock_unchanged _ W m).mono fun r _ hr => h.loopKept hready hvalid fun z ha hd => ?_
  exact hr z (fun h => ha (mem_append_left _ h)) fun h => hd (mem_append_left _ h)

lemma loopPost
    (h : Holds (Γ.declare (pre.flatMap (·.declares)))
      (loopState variablesToReplace T pre post body) W)
    (hready : Ready N Γ T (Statement.forLoop pre c post body).names)
    (hvalid : (Statement.forLoop pre c post body).valid dialect Γ) (m : SvmState World) :
    (execBlock I F W (statements variablesToReplace
      (loopBodyState variablesToReplace T pre post body) post).1 m).Returns fun r _ =>
      Holds (Γ.declare (pre.flatMap (·.declares))) (loopState variablesToReplace T pre post body)
        r.2 := by
  refine (execBlock_unchanged _ W m).mono fun r _ hr => h.loopKept hready hvalid fun z ha hd => ?_
  exact hr z (fun h => ha (mem_append_right _ h)) fun h => hd (mem_append_right _ h)

lemma loopBodyState
    (h : Holds (Γ.declare (pre.flatMap (·.declares)))
      (loopState variablesToReplace T pre post body) W) :
    Holds (Γ.declare (pre.flatMap (·.declares)))
      (loopBodyState variablesToReplace T pre post body) W :=
  h.of_value fun x y hy =>
    (((step_loopBodyState _ T pre post body).value x y hy).resolve_right fun h =>
      not_mem_nil h.1).1

end Holds

end

lemma exec_forLoop_transform {pre post body : Block} {c : Expression}
    (hI : I.Sim p q (Transformed I.dialect N variablesToReplace) I')
    (hF : F.Rel (Transformed I.dialect N variablesToReplace) F') {Γ : Scope}
    (hready : Ready N Γ T (Statement.forLoop pre c post body).names)
    (hvalid : (Statement.forLoop pre c post body).valid I.dialect Γ)
    (hpre : ∀ {V V'}, Variables.AgreeOn N V V' → Holds Γ T V' → ∀ m,
      Result.Sim p q Eq (Outcome fun _ => Variables.AgreeOn N) (execStatements I F V pre m)
        (execStatements I' F' V' (statements variablesToReplace T pre).1 m))
    (hbody : ∀ {V V'}, Variables.AgreeOn N V V' → Holds (Γ.declare (pre.flatMap (·.declares)))
      (loopState variablesToReplace T pre post body) V' → ∀ m,
      Result.Sim p q Eq (Outcome fun _ => Variables.AgreeOn N) (execBlock I F V body m)
        (execBlock I' F' V' (statements variablesToReplace
          (loopState variablesToReplace T pre post body) body).1 m))
    (hpost : ∀ {V V'}, Variables.AgreeOn N V V' → Holds (Γ.declare (pre.flatMap (·.declares)))
      (loopBodyState variablesToReplace T pre post body) V' → ∀ m,
      Result.Sim p q Eq (Outcome fun _ => Variables.AgreeOn N) (execBlock I F V post m)
        (execBlock I' F' V' (statements variablesToReplace
          (loopBodyState variablesToReplace T pre post body) post).1 m))
    (hV : Variables.AgreeOn N V V') (hold : Holds Γ T V') (m : SvmState World) :
    Result.Sim p q Eq (Outcome fun _ => Variables.AgreeOn N)
      ((Statement.forLoop pre c post body).exec I F V m)
      (execStatements I' F' V'
        (statement variablesToReplace T (.forLoop pre c post body)).1 m) := by
  have hparts := hvalid
  simp only [valid_forLoop, and_eq_true] at hparts
  obtain ⟨⟨⟨⟨-, hc⟩, -⟩, -⟩, -⟩ := hparts
  have hlocals := (hready.loop variablesToReplace).2.locals
  rw [statement, exec_singleton, exec_forLoop, exec_forLoop]
  apply closeScope_sim (A := fun _ => Variables.AgreeOn N)
  · refine ((hpre hV hold m).and_right (hold.loopPre hready hvalid m)).bind ?_
    rintro ⟨l, W⟩ ⟨_, W'⟩ m₁ _ - - ⟨⟨rfl, hW⟩, -, hold₁⟩ rfl
    refine (exec_loop_sim (A := fun W W' => Variables.AgreeOn N W W' ∧
        Holds (Γ.declare (pre.flatMap (·.declares)))
          (loopState variablesToReplace T pre post body) W')
      (B := fun _ W W' => Variables.AgreeOn N W W' ∧
        Holds (Γ.declare (pre.flatMap (·.declares)))
          (loopState variablesToReplace T pre post body) W') (C := Variables.AgreeOn N)
      hI.fuel ?_ ?_ ?_ ?_ ?_ ⟨hW, hold₁⟩ m₁).map fun W W' hW => ⟨rfl, hW⟩
    · rintro W W' m ⟨hW, hold⟩
      refine evaluate_visit_sim hI hF c (fun x hx => ?_) m
      exact hold.current hW hlocals (c.mem_locals_of_valid hc hx)
    · exact fun _ _ h => h.1
    · rintro W W' m ⟨hW, hold⟩
      refine ((hbody hW hold m).and_right (hold.loopBody hready hvalid m)).mono ?_
      rintro ⟨l, U⟩ ⟨_, U'⟩ ⟨⟨rfl, hU⟩, -, hold'⟩
      exact ⟨rfl, hU, hold'⟩
    · exact fun _ _ h => h.1
    · rintro l W W' m - ⟨hW, hold⟩
      refine ((hpost hW hold.loopBodyState m).and_right (hold.loopPost hready hvalid m)).mono ?_
      rintro ⟨l, U⟩ ⟨_, U'⟩ ⟨⟨rfl, hU⟩, -, hold'⟩
      exact ⟨rfl, hU, hold'⟩
  · exact fun _ _ _ hW => hV.restrict hW

lemma exec_copies {xs : List YulString} {value value' : Option Expression}
    {copies : List Statement} (hused : N ⊆ T.nameDispenser.usedNames) (hxs : xs ⊆ N)
    (hcopies : ∀ W m, execStatements I' F' W copies m =
      .ok (.default, copied (T.newVariables xs).1 W) m)
    (hvalue : ∀ m, Result.Sim p q Eq Eq (Expression.evaluateMulti I F V value m)
      (Expression.evaluateMulti I' F' V' value' m)) (hV : Variables.AgreeOn N V V')
    (m : SvmState World) :
    Result.Sim p q Eq (Outcome fun _ => Variables.AgreeOn N)
      ((Expression.evaluateMulti I F V value m).map fun vs => (.default, V.assign xs vs))
      (execStatements I' F' V' (declareNew (T.newVariables xs).1 value' :: copies) m) := by
  have hnew := T.newVariables_spec xs
  have hagree := agreeOn_copied (N := N) (fun p hp hN => (hnew.fresh p hp).1.notUsed (hused hN))
    hnew.nodup (fun p hp => hxs (hnew.old ▸ mem_map_of_mem hp)) hV
  rw [hnew.old] at hagree
  rw [execStatements_cons, declareNew, exec_declaration, Result.map, Result.map,
    Result.bind_assoc]
  refine (hvalue m).bind ?_
  rintro vs _ m₁ _ - - rfl rfl
  rw [Result.bind_ok, if_pos rfl, hcopies, map_map]
  exact .ok ⟨rfl, hagree vs⟩ rfl

mutual

lemma exec_transform (hI : I.Sim p q (Transformed I.dialect N variablesToReplace) I')
    (s : Statement) {Γ : Scope} {T : SSATransform} (hready : Ready N Γ T s.names)
    (hvalid : s.valid I.dialect Γ) {F F' : Functions}
    (hF : F.Rel (Transformed I.dialect N variablesToReplace) F') {V V' : Variables}
    (hV : Variables.AgreeOn N V V') (hold : Holds Γ T V') (m : SvmState World) :
    Result.Sim p q Eq (Outcome fun _ => Variables.AgreeOn N) (s.exec I F V m)
      (execStatements I' F' V' (statement variablesToReplace T s).1 m) := by
  have hcurrent {e : Expression} (he : e.valid I.dialect Γ = true) :
      ∀ x ∈ e.referencedVariables, V' ((T.currentVariableValues x).getD x) = V x :=
    fun x hx => hold.current hV hready.locals (e.mem_locals_of_valid he hx)
  match s with
  | .expressionStatement e =>
    rw [valid_expression, and_eq_true] at hvalid
    rw [statement, exec_singleton]
    exact (eval_visit_sim hI hF e (hcurrent hvalid.1) m).map fun _ _ _ => ⟨rfl, hV⟩
  | .assignment xs e =>
    have hxs := assignments_subset hready hvalid
    rw [valid_assignment, and_eq_true, and_eq_true] at hvalid
    have hvalue (m : SvmState World) :
        Result.Sim p q Eq Eq (Expression.evaluateMulti I F V (some e) m)
          (Expression.evaluateMulti I' F' V' (some (visit T.currentVariableValues e)) m) :=
      eval_visit_sim hI hF e (hcurrent hvalid.1.2) m
    exact exec_copies hready.used hxs (fun _ _ => exec_assignCopies) hvalue
      hV m
  | .variableDeclaration xs value =>
    have hxs : xs.map (·.name) ⊆ N := hready.subset
    have hvalue (m : SvmState World) :
        Result.Sim p q Eq Eq (Expression.evaluateMulti I F V value m)
          (Expression.evaluateMulti I' F' V' (value.map (visit T.currentVariableValues)) m) := by
      refine evaluateMulti_visit_sim hI hF value (fun e he => ?_) m
      rw [valid_declaration, and_eq_true, he, valueValid, and_eq_true,
        and_eq_true] at hvalid
      exact hcurrent hvalid.2.1
    rw [statement]
    split
    · exact exec_copies hready.used hxs (fun _ _ => exec_declareCopies)
        hvalue hV m
    · rw [exec_singleton]
      refine (hvalue m).map ?_
      rintro vs _ rfl
      exact ⟨rfl, hV.assign _ vs⟩
  | .functionDefinition f ps rs body => exact .ok ⟨rfl, hV⟩ rfl
  | .if c body =>
    rw [valid_if, and_eq_true, and_eq_true] at hvalid
    rw [statement, exec_singleton]
    exact exec_if_sim (evaluate_visit_sim hI hF c (hcurrent hvalid.1.1) m)
      (execBlock_transform_of hready hvalid.2 (execStatements_transform hI body) hF hV hold) hV
  | .switch e cs =>
    rw [valid_switch, and_eq_true, and_eq_true] at hvalid
    rw [statement, exec_singleton]
    exact exec_switch_sim (evaluate_visit_sim hI hF e (hcurrent hvalid.1.1) m)
      (execCases_transform hI cs hready hvalid.2 hF hV hold)
  | .forLoop pre c post body =>
    have hparts := hvalid
    simp only [valid_forLoop, and_eq_true] at hparts
    obtain ⟨⟨⟨⟨hpre, -⟩, -⟩, hpost⟩, hbody⟩ := hparts
    obtain ⟨hready₀, hready₁⟩ := hready.loop variablesToReplace
    refine exec_forLoop_transform hI hF hready hvalid ?_ ?_ ?_ hV hold m
    · intro V V' hV hold m
      exact execStatements_transform hI pre (hready₀.enter .forLoopPre) hpre hF hV hold m
    · intro V V' hV hold m
      exact execBlock_transform_of (hready₁.left.enter .forLoopBody) hbody
        (execStatements_transform hI body) hF hV hold m
    · intro V V' hV hold m
      exact execBlock_transform_of ((hready.loopPost variablesToReplace).enter .forLoopPost) hpost
        (execStatements_transform hI post) hF hV hold m
  | .break | .continue => exact .ok ⟨rfl, hV⟩ rfl
  | .block ss =>
    rw [statement, exec_singleton]
    exact execBlock_transform_of hready hvalid (execStatements_transform hI ss) hF hV hold m

lemma execStatements_transform (hI : I.Sim p q (Transformed I.dialect N variablesToReplace) I')
    (ss : List Statement) {T : SSATransform} {Γ : Scope} {F F' : Functions} {V V' : Variables}
    (hready : Ready N Γ T (namesOfStatements ss))
    (hvalid : statementsValid I.dialect Γ ss)
    (hF : F.Rel (Transformed I.dialect N variablesToReplace) F')
    (hV : Variables.AgreeOn N V V') (hold : Holds Γ T V') (m : SvmState World) :
    Result.Sim p q Eq (Outcome fun _ => Variables.AgreeOn N) (execStatements I F V ss m)
      (execStatements I' F' V' (statements variablesToReplace T ss).1 m) := by
  match ss with
  | [] => exact .ok ⟨rfl, hV⟩ rfl
  | s :: ss =>
    rw [statementsValid, and_eq_true] at hvalid
    have hs := (exec_transform hI s hready.left hvalid.1 hF hV hold m).and_right
      (hold.exec hready.left hvalid.1 m)
    refine exec_cons_sim (A := fun l W W' => Variables.AgreeOn N W W' ∧
      (l = .default → Holds (Γ.declare s.declares) (statement variablesToReplace T s).2.1 W'))
      (hs.mono ?_) ?_ fun _ _ _ _ h => h.1
    · rintro ⟨l, W⟩ ⟨_, W'⟩ ⟨⟨rfl, hW⟩, -, hold'⟩
      exact ⟨rfl, hW, hold'⟩
    · rintro W W' m ⟨hW, hold'⟩
      exact execStatements_transform hI ss (hready.statement hvalid.1) hvalid.2 hF hW
        (hold' rfl) m

lemma execCases_transform (hI : I.Sim p q (Transformed I.dialect N variablesToReplace) I')
    (cs : List Case) {T : SSATransform} {Γ : Scope} {F F' : Functions} {V V' : Variables}
    (hready : Ready N Γ T (namesOfCases cs)) (hvalid : casesValid I.dialect Γ cs)
    (hF : F.Rel (Transformed I.dialect N variablesToReplace) F')
    (hV : Variables.AgreeOn N V V') (hold : Holds Γ T V') (v : Word) (m : SvmState World) :
    Result.Sim p q Eq (Outcome fun _ => Variables.AgreeOn N) (execCases I F V v cs m)
      (execCases I' F' V' v (cases variablesToReplace T cs).1 m) := by
  match cs with
  | [] => exact .ok ⟨rfl, hV⟩ rfl
  | .mk value body :: cs =>
    simp only [casesValid, and_eq_true] at hvalid
    have hready' : Ready N Γ T (namesOfStatements body ++ namesOfCases cs) := hready
    refine execCases_cons_sim (execBlock_transform_of hready'.left hvalid.1.2
      (execStatements_transform hI body) hF hV hold m) ?_
    refine execCases_transform hI cs (hready'.close (statements_step _ body T).close) hvalid.2 hF hV
      (hold.of_value fun x y hy => ?_) v m
    exact (((statements_step _ body T).close.value x y hy).resolve_right
      fun h => not_mem_nil h.1).1

end

end

end SSATransform

end Yul
