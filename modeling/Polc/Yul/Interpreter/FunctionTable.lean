import Polc.Yul.AsmAnalysis.Properties

/-!
# Function tables

In a valid program whose functions have distinct names it does not matter which functions are known
besides those that are visible. Such a program runs as if all of its functions were known
everywhere, so functions can be moved between blocks.
-/

namespace Yul

open Sof Semantics List Expression Scope
open Bool (and_eq_true)

variable {World : Type}

/-! ### All functions of a program -/

mutual

/-- The functions that are defined in a statement, at any depth. -/
def Statement.functions : Statement → List (YulString × FunctionDefinition)
  | .functionDefinition f ps rs body => (f, ⟨ps, rs, body⟩) :: functionsOfStatements body
  | .if _ body => functionsOfStatements body
  | .switch _ cases => functionsOfCases cases
  | .forLoop pre _ post body =>
    functionsOfStatements pre ++ functionsOfStatements body ++ functionsOfStatements post
  | .block ss => functionsOfStatements ss
  | _ => []

def functionsOfStatements : List Statement → List (YulString × FunctionDefinition)
  | [] => []
  | s :: ss => s.functions ++ functionsOfStatements ss

def functionsOfCases : List Case → List (YulString × FunctionDefinition)
  | [] => []
  | .mk _ body :: cs => functionsOfStatements body ++ functionsOfCases cs

end

/-- The functions of a program by their names. -/
def functionTable (ss : Block) : Functions := fun f => (functionsOfStatements ss).lookup f

/-- The functions of the program have distinct names. -/
def Block.UniqueFunctions (ss : Block) : Prop := ((functionsOfStatements ss).map (·.1)).Nodup

section

variable {ss ts : List Statement} {p : YulString × FunctionDefinition}

lemma functions_append (ss ts : List Statement) :
    functionsOfStatements (ss ++ ts) = functionsOfStatements ss ++ functionsOfStatements ts := by
  induction ss with
  | nil => rfl
  | cons s ss ih => rw [cons_append, functionsOfStatements, functionsOfStatements, ih,
      append_assoc]

lemma functionsOfStatements_perm (h : ss.Perm ts) :
    (functionsOfStatements ss).Perm (functionsOfStatements ts) := by
  have heq : functionsOfStatements = List.flatMap (·.functions) := by
    funext ss
    induction ss with
    | nil => rfl
    | cons s ss ih => rw [functionsOfStatements, ih, flatMap_cons]
  rw [heq]
  exact h.flatMap_right _

lemma functions_singleton (s : Statement) : functionsOfStatements [s] = s.functions :=
  append_nil _

lemma definitions_subset (ss : List Statement) :
    functionDefinitions ss ⊆ functionsOfStatements ss := by
  induction ss with
  | nil => exact List.Subset.refl _
  | cons s ss ih =>
    cases s with
    | functionDefinition f ps rs body =>
      refine cons_subset.mpr ⟨mem_cons_self, fun p hp => ?_⟩
      exact mem_append_right _ (ih hp)
    | _ => exact fun p hp => mem_append_right _ (ih hp)

mutual

lemma functions_trans (s : Statement) (h : p ∈ s.functions) :
    functionsOfStatements p.2.body ⊆ s.functions := by
  match s with
  | .expressionStatement _ | .assignment _ _ | .variableDeclaration _ _ | .break | .continue =>
    cases h
  | .functionDefinition f ps rs body =>
    rcases mem_cons.mp h with rfl | h
    · exact subset_cons_self _ _
    · exact List.Subset.trans (functionsOfStatements_trans body h) (subset_cons_self _ _)
  | .if c body => exact functionsOfStatements_trans body h
  | .switch e cases => exact functionsOfCases_trans cases h
  | .forLoop pre c post body =>
    rcases mem_append.mp h with h | h
    · refine subset_append_of_subset_left _ ?_
      rcases mem_append.mp h with h | h
      · exact subset_append_of_subset_left _ (functionsOfStatements_trans pre h)
      · exact subset_append_of_subset_right _ (functionsOfStatements_trans body h)
    · exact subset_append_of_subset_right _ (functionsOfStatements_trans post h)
  | .block ss => exact functionsOfStatements_trans ss h

lemma functionsOfStatements_trans (ss : List Statement) (h : p ∈ functionsOfStatements ss) :
    functionsOfStatements p.2.body ⊆ functionsOfStatements ss := by
  match ss with
  | [] => cases h
  | s :: ss =>
    rcases mem_append.mp h with h | h
    · exact subset_append_of_subset_left _ (functions_trans s h)
    · exact subset_append_of_subset_right _ (functionsOfStatements_trans ss h)

lemma functionsOfCases_trans (cs : List Case) (h : p ∈ functionsOfCases cs) :
    functionsOfStatements p.2.body ⊆ functionsOfCases cs := by
  match cs with
  | [] => cases h
  | .mk value body :: cs =>
    rcases mem_append.mp h with h | h
    · exact subset_append_of_subset_left _ (functionsOfStatements_trans body h)
    · exact subset_append_of_subset_right _ (functionsOfCases_trans cs h)

end

mutual

lemma functions_names_sublist (s : Statement) : (s.functions.map (·.1)).Sublist s.names := by
  match s with
  | .expressionStatement _ | .assignment _ _ | .break | .continue => exact List.Sublist.refl _
  | .variableDeclaration _ _ => exact nil_sublist _
  | .functionDefinition f ps rs body =>
    exact ((functionsOfStatements_names_sublist body).trans
      (sublist_append_right _ _)).cons_cons f
  | .if c body => exact functionsOfStatements_names_sublist body
  | .switch e cases => exact functionsOfCases_names_sublist cases
  | .forLoop pre c post body =>
    rw [Statement.functions, Statement.names, map_append, map_append]
    exact ((functionsOfStatements_names_sublist pre).append
      (functionsOfStatements_names_sublist body)).append (functionsOfStatements_names_sublist post)
  | .block ss => exact functionsOfStatements_names_sublist ss

lemma functionsOfStatements_names_sublist (ss : List Statement) :
    ((functionsOfStatements ss).map (·.1)).Sublist (namesOfStatements ss) := by
  match ss with
  | [] => exact List.Sublist.refl _
  | s :: ss =>
    rw [functionsOfStatements, namesOfStatements, map_append]
    exact (functions_names_sublist s).append (functionsOfStatements_names_sublist ss)

lemma functionsOfCases_names_sublist (cs : List Case) :
    ((functionsOfCases cs).map (·.1)).Sublist (namesOfCases cs) := by
  match cs with
  | [] => exact List.Sublist.refl _
  | .mk value body :: cs =>
    rw [functionsOfCases, namesOfCases, map_append]
    exact (functionsOfStatements_names_sublist body).append (functionsOfCases_names_sublist cs)

end

lemma Block.Disambiguated.uniqueFunctions {dialect : Dialect} {ss : Block}
    (h : Block.Disambiguated dialect ss) : Block.UniqueFunctions ss :=
  (functionsOfStatements_names_sublist ss).nodup h.nodup

end

/-- The table has the given functions. -/
def Functions.Holds (G : Functions) (ds : List (YulString × FunctionDefinition)) : Prop :=
  ∀ p ∈ ds, G p.1 = some p.2

namespace Functions.Holds

variable {G : Functions} {ds ds' : List (YulString × FunctionDefinition)} {ss : Block}

lemma subset (h : G.Holds ds) (hsubset : ds' ⊆ ds) : G.Holds ds' :=
  fun p hp => h p (hsubset hp)

lemma append_iff : G.Holds (ds ++ ds') ↔ G.Holds ds ∧ G.Holds ds' := forall_mem_append

lemma left (h : G.Holds (ds ++ ds')) : G.Holds ds := (append_iff.mp h).1

lemma right (h : G.Holds (ds ++ ds')) : G.Holds ds' := (append_iff.mp h).2

lemma register_eq (h : G.Holds (functionDefinitions ss)) : G.register ss = G := by
  rw [Functions.register_eq_foldl]
  generalize functionDefinitions ss = ds at h
  induction ds with
  | nil => rfl
  | cons p ds ih =>
    have hset : G.set p.1 p.2 = G := by
      funext f
      unfold Functions.set
      split_ifs with hf
      · rw [hf]
        exact (h p mem_cons_self).symm
      · rfl
    rw [foldl_cons, hset]
    exact ih fun q hq => h q (mem_cons_of_mem _ hq)

lemma execBlock_eq {I : Interpreter World} {V : Variables} {m : SvmState World}
    (h : G.Holds (functionsOfStatements ss)) :
    execBlock I G V ss m = closeScope V (execStatements I G V ss m) := by
  rw [execBlock, (h.subset (definitions_subset ss)).register_eq]

end Functions.Holds

variable {ds : List (YulString × FunctionDefinition)}

lemma lookup_eq_some_iff_of_nodup (h : (ds.map (·.1)).Nodup) {f : YulString}
    {d : FunctionDefinition} : ds.lookup f = some d ↔ (f, d) ∈ ds := by
  induction ds with
  | nil => simp
  | cons p ds ih =>
    obtain ⟨g, e⟩ := p
    rw [map_cons, nodup_cons] at h
    rw [lookup_cons, mem_cons]
    by_cases hfg : f = g
    · subst hfg
      have hnot : (f, d) ∉ ds := fun hmem => h.1 (mem_map_of_mem (f := (·.1)) hmem)
      simp [hnot, eq_comm]
    · simp [hfg, beq_false_of_ne hfg, ih h.2]

variable {ss : Block}

lemma holds_functionTable (h : Block.UniqueFunctions ss) :
    (functionTable ss).Holds (functionsOfStatements ss) :=
  fun _ hp => (lookup_eq_some_iff_of_nodup h).mpr hp

lemma functionTable_eq_of_perm {ss' : Block} (hss : Block.UniqueFunctions ss)
    (h : (functionsOfStatements ss').Perm (functionsOfStatements ss)) :
    functionTable ss' = functionTable ss := by
  have hss' : Block.UniqueFunctions ss' := by
    rw [Block.UniqueFunctions, (h.map _).nodup_iff]
    exact hss
  funext f
  refine Option.ext fun d => ?_
  rw [functionTable, functionTable, lookup_eq_some_iff_of_nodup hss,
    lookup_eq_some_iff_of_nodup hss', h.mem_iff]

/-! ### Where functions are valid -/

/-- The body of the function is valid where the functions of the scope are visible. -/
def FunctionDefinition.ValidIn (dialect : Dialect) (Γ : Scope) (d : FunctionDefinition) : Prop :=
  statementsValid dialect
    ((⟨(d.parameters ++ d.returnVariables).map (·.name), Γ.functions, .none⟩ : Scope).register
      d.body) d.body = true

variable {Γ : Scope}

section

variable {dialect : Dialect}

lemma validIn_of_mem_definitions {ss : List Statement}
    (h : statementsValid dialect Γ ss) {p : YulString × FunctionDefinition}
    (hp : p ∈ functionDefinitions ss) : p.2.ValidIn dialect Γ := by
  induction ss generalizing Γ with
  | nil => cases hp
  | cons s ss ih =>
    rw [statementsValid, and_eq_true] at h
    cases s with
    | functionDefinition f ps rs body =>
      rcases mem_cons.mp hp with rfl | hp
      · rw [valid_function, and_eq_true] at h
        exact h.1.2
      · exact ih h.2 hp
    | variableDeclaration xs value =>
      have hbody := ih h.2 hp
      exact hbody
    | _ => exact ih h.2 hp

mutual

lemma exists_validIn_of_mem_functions (s : Statement) {Γ : Scope} (h : s.valid dialect Γ)
    {p : YulString × FunctionDefinition} (hp : p ∈ s.functions) :
    ∃ Γ' : Scope, p.2.ValidIn dialect Γ' := by
  match s with
  | .expressionStatement _ | .assignment _ _ | .variableDeclaration _ _ | .break | .continue =>
    cases hp
  | .functionDefinition f ps rs body =>
    rw [valid_function, and_eq_true] at h
    rcases mem_cons.mp hp with rfl | hp
    · exact ⟨Γ, h.2⟩
    · exact exists_validIn_of_mem_functionsOfStatements body h.2 hp
  | .if c body =>
    rw [valid_if, and_eq_true] at h
    exact exists_validIn_of_mem_functionsOfStatements body h.2 hp
  | .switch e cases =>
    rw [valid_switch, and_eq_true] at h
    exact exists_validIn_of_mem_functionsOfCases cases h.2 hp
  | .forLoop pre c post body =>
    simp only [valid_forLoop, and_eq_true, decide_eq_true_eq] at h
    obtain ⟨⟨⟨⟨hpre, -⟩, -⟩, hpost⟩, hbody⟩ := h
    rcases mem_append.mp hp with hp | hp
    · rcases mem_append.mp hp with hp | hp
      · exact exists_validIn_of_mem_functionsOfStatements pre hpre hp
      · exact exists_validIn_of_mem_functionsOfStatements body hbody hp
    · exact exists_validIn_of_mem_functionsOfStatements post hpost hp
  | .block ss => exact exists_validIn_of_mem_functionsOfStatements ss h hp

lemma exists_validIn_of_mem_functionsOfStatements (ss : List Statement) {Γ : Scope}
    (h : statementsValid dialect Γ ss) {p : YulString × FunctionDefinition}
    (hp : p ∈ functionsOfStatements ss) : ∃ Γ' : Scope, p.2.ValidIn dialect Γ' := by
  match ss with
  | [] => cases hp
  | s :: ss =>
    rw [statementsValid, and_eq_true] at h
    rcases mem_append.mp hp with hp | hp
    · exact exists_validIn_of_mem_functions s h.1 hp
    · exact exists_validIn_of_mem_functionsOfStatements ss h.2 hp

lemma exists_validIn_of_mem_functionsOfCases (cs : List Case) {Γ : Scope}
    (h : casesValid dialect Γ cs) {p : YulString × FunctionDefinition}
    (hp : p ∈ functionsOfCases cs) : ∃ Γ' : Scope, p.2.ValidIn dialect Γ' := by
  match cs with
  | [] => cases hp
  | .mk value body :: cs =>
    rw [casesValid, and_eq_true, and_eq_true] at h
    rcases mem_append.mp hp with hp | hp
    · exact exists_validIn_of_mem_functionsOfStatements body h.1.2 hp
    · exact exists_validIn_of_mem_functionsOfCases cs h.2 hp

end

end

/-! ### Executions with more functions -/

/-- What is known in `F` is part of the table `G`: for the names in `K`, which are those visible in
the scope and in the functions of these names, both have the same functions. -/
structure Functions.Knows (dialect : Dialect) (G F : Functions) (K : Set YulString) (Γ : Scope) :
    Prop where
  visible : ∀ f n, Γ.functions.lookup f = some n → f ∈ K
  agree : ∀ f ∈ K, F f = G f
  closed : ∀ f ∈ K, ∃ (d : FunctionDefinition) (Γ' : Scope), G f = some d ∧
    (∀ g n, Γ'.functions.lookup g = some n → g ∈ K) ∧ d.ValidIn dialect Γ' ∧
      G.Holds (functionsOfStatements d.body)

namespace Functions.Knows

variable {dialect : Dialect} {G F : Functions} {K : Set YulString} {Γ Γ' : Scope}

lemma of_functions (h : G.Knows dialect F K Γ) (hΓ : Γ'.functions = Γ.functions) :
    G.Knows dialect F K Γ' :=
  ⟨hΓ ▸ h.visible, h.agree, h.closed⟩

lemma declare (h : G.Knows dialect F K Γ) (xs : List YulString) :
    G.Knows dialect F K (Γ.declare xs) := h.of_functions rfl

lemma enter (h : G.Knows dialect F K Γ) (c : ForLoopComponent) :
    G.Knows dialect F K (Γ.enter c) := h.of_functions rfl

lemma register_apply (F : Functions) (ss : Block) (f : YulString) :
    (f ∉ (functionDefinitions ss).map (·.1) ∧ F.register ss f = F f) ∨
      ∃ d, (f, d) ∈ functionDefinitions ss ∧ F.register ss f = some d := by
  rw [Functions.register_eq_foldl]
  generalize functionDefinitions ss = ds
  induction ds generalizing F with
  | nil => exact .inl ⟨not_mem_nil, rfl⟩
  | cons p ds ih =>
    rw [foldl_cons]
    rcases ih (F.set p.1 p.2) with ⟨hnot, h⟩ | ⟨d, hd, h⟩
    · rw [h]
      unfold Functions.set
      split_ifs with hf
      · exact .inr ⟨p.2, by rw [hf]; exact mem_cons_self, rfl⟩
      · exact .inl ⟨by rw [map_cons, mem_cons, not_or]; exact ⟨hf, hnot⟩, rfl⟩
    · exact .inr ⟨d, mem_cons_of_mem _ hd, h⟩

lemma register (h : G.Knows dialect F K Γ) {ss : Block}
    (hvalid : statementsValid dialect (Γ.register ss) ss)
    (hG : G.Holds (functionsOfStatements ss)) :
    ∃ K', G.Knows dialect (F.register ss) K' (Γ.register ss) := by
  have hG' : G.Holds (functionDefinitions ss) := hG.subset (definitions_subset ss)
  have hvisible : ∀ f n, (Γ.register ss).functions.lookup f = some n →
      f ∈ K ∪ {f | f ∈ (functionDefinitions ss).map (·.1)} := by
    intro f n hf
    rw [register_eq, lookup_append, Option.or_eq_some_iff] at hf
    rcases hf with hf | ⟨-, hf⟩
    · obtain ⟨l₁, l₂, heq, -⟩ := lookup_eq_some_iff.mp hf
      have hmem : (f, n) ∈ visibleFunctions ss := heq ▸ mem_append_right _ mem_cons_self
      obtain ⟨p, hp, hpf⟩ := mem_map.mp hmem
      exact .inr (mem_map.mpr ⟨p, hp, congrArg Prod.fst hpf⟩)
    · exact .inl (h.visible f n hf)
  refine ⟨K ∪ {f | f ∈ (functionDefinitions ss).map (·.1)}, hvisible, ?_, ?_⟩
  · intro f hf
    rcases register_apply F ss f with ⟨hnot, heq⟩ | ⟨d, hd, heq⟩
    · exact heq.trans (h.agree f (hf.resolve_right hnot))
    · exact heq.trans (hG' _ hd).symm
  · intro f hf
    rcases hf with hf | hf
    · obtain ⟨d, Γ', hd, hknown, hd'⟩ := h.closed f hf
      exact ⟨d, Γ', hd, fun g n hg => .inl (hknown g n hg), hd'⟩
    · obtain ⟨p, hp, rfl⟩ := mem_map.mp hf
      exact ⟨p.2, Γ.register ss, hG' p hp, hvisible, validIn_of_mem_definitions hvalid hp,
        hG.subset (functionsOfStatements_trans ss (definitions_subset ss hp))⟩

end Functions.Knows

section

variable {dialect : Dialect} {G : Functions} {I : Interpreter World}

/-- Calls of functions that are known do not depend on what else is known. -/
def Interpreter.CallsTable (dialect : Dialect) (G : Functions) (I : Interpreter World) : Prop :=
  I.dialect = dialect ∧ ∀ {F : Functions} {K : Set YulString} {Γ : Scope},
    G.Knows dialect F K Γ → ∀ f ∈ K, ∀ vs m, I.call F f vs m = I.call G f vs m

mutual

lemma Expression.eval_table (hI : I.CallsTable dialect G) (e : Expression) {F : Functions}
    {K : Set YulString} {Γ : Scope} (hF : G.Knows dialect F K Γ) (h : e.valid dialect Γ)
    (V : Variables) (m : SvmState World) : e.eval I F V m = e.eval I G V m := by
  match e with
  | .functionalInstruction i args =>
    rw [valid_instruction, and_eq_true] at h
    rw [eval_instruction, eval_instruction,
      args_table hI args hF h.2]
  | .functionCall f args =>
    rw [valid_functionCall, and_eq_true, and_eq_true] at h
    rw [eval_functionCall, eval_functionCall,
      args_table hI args hF h.2]
    apply Result.bind_congr
    intro vs m₁ _
    cases hb : I.dialect.builtin f with
    | some b => rfl
    | none =>
      rw [hI.1] at hb
      have harity := h.1.1
      rw [Scope.arity, hb] at harity
      cases hf : Γ.functions.lookup f with
      | none => simp [hf] at harity
      | some n => exact hI.2 hF f (hF.visible f n hf) vs m₁
  | .identifier x => rfl
  | .literal l => rfl

lemma args_table (hI : I.CallsTable dialect G) (es : List Expression) {F : Functions}
    {K : Set YulString} {Γ : Scope} (hF : G.Knows dialect F K Γ)
    (h : argumentsValid dialect Γ es) (V : Variables) (m : SvmState World) :
    evaluateArgs I F V es m = evaluateArgs I G V es m := by
  match es with
  | [] => rfl
  | e :: es =>
    rw [argumentsValid, and_eq_true, and_eq_true] at h
    rw [args_cons, args_cons, args_table hI es hF h.1.1]
    apply Result.bind_congr
    intro vs m₁ _
    rw [e.eval_table hI hF h.1.2]

end

variable {F : Functions} {K : Set YulString}

lemma Expression.evaluate_table (hI : I.CallsTable dialect G) (e : Expression)
    (hF : G.Knows dialect F K Γ) (h : e.valid dialect Γ) (V : Variables)
    (m : SvmState World) : e.evaluate I F V m = e.evaluate I G V m := by
  rw [Expression.evaluate, Expression.evaluate, e.eval_table hI hF h]

lemma execBlock_table_of
    (hss : ∀ {F : Functions} {K : Set YulString} {Γ : Scope}, G.Knows dialect F K Γ →
      statementsValid dialect Γ ss → ∀ V m,
        execStatements I F V ss m = execStatements I G V ss m) (hF : G.Knows dialect F K Γ)
    (h : statementsValid dialect (Γ.register ss) ss)
    (hG : G.Holds (functionsOfStatements ss)) (V : Variables) (m : SvmState World) :
    execBlock I F V ss m = execBlock I G V ss m := by
  obtain ⟨K', hF'⟩ := hF.register h hG
  rw [hG.execBlock_eq, execBlock, hss hF' h]

mutual

lemma exec_table (hI : I.CallsTable dialect G) (s : Statement) {F : Functions}
    {K : Set YulString} {Γ : Scope} (hF : G.Knows dialect F K Γ) (h : s.valid dialect Γ)
    (hG : G.Holds s.functions) (V : Variables) (m : SvmState World) :
    s.exec I F V m = s.exec I G V m := by
  match s with
  | .expressionStatement e =>
    rw [valid_expression, and_eq_true] at h
    rw [exec_expression, exec_expression, e.eval_table hI hF h.1]
  | .assignment xs e =>
    rw [valid_assignment, and_eq_true, and_eq_true] at h
    rw [exec_assignment, exec_assignment, e.eval_table hI hF h.1.2]
  | .variableDeclaration xs none => rfl
  | .variableDeclaration xs (some e) =>
    rw [valid_declaration, and_eq_true, valueValid] at h
    rw [exec_declaration, exec_declaration, Expression.evaluateMulti,
      Expression.evaluateMulti, e.eval_table hI hF (and_eq_true _ _ ▸ h.2).1]
  | .functionDefinition f ps rs body => rfl
  | .if c body =>
    rw [valid_if, and_eq_true, and_eq_true] at h
    rw [exec_if, exec_if, c.evaluate_table hI hF h.1.1]
    refine Result.bind_congr _ fun v m₁ _ => ?_
    rw [execBlock_table_of (execStatements_table hI body · · hG) hF h.2 hG]
  | .switch e cases =>
    rw [valid_switch, and_eq_true, and_eq_true] at h
    rw [exec_switch, exec_switch, e.evaluate_table hI hF h.1.1]
    exact Result.bind_congr _ fun v m₁ _ => execCases_table hI cases hF h.2 hG V v m₁
  | .forLoop pre c post body =>
    simp only [valid_forLoop, and_eq_true, decide_eq_true_eq] at h
    obtain ⟨⟨⟨⟨hpre, hc⟩, -⟩, hpost⟩, hbody⟩ := h
    have hF' := hF.declare (pre.flatMap (·.declares))
    have hcondition : loopCondition I F c = loopCondition I G c := by
      funext W m₁
      rw [loopCondition, loopCondition, c.evaluate_table hI hF' hc]
    have hloopBody : loopBody I F body = loopBody I G body := by
      funext W m₁
      rw [loopBody, loopBody, execBlock_table_of (execStatements_table hI body · · hG.left.right)
        (hF'.enter _) hbody hG.left.right]
    have hloopPost : loopPost I F post = loopPost I G post := by
      funext W m₁
      rw [loopPost, loopPost, execBlock_table_of (execStatements_table hI post · · hG.right)
        (hF'.enter _) hpost hG.right]
    rw [exec_forLoop, exec_forLoop, execStatements_table hI pre (hF.enter _) hpre hG.left.left,
      hcondition, hloopBody, hloopPost]
  | .break | .continue => rfl
  | .block ss => exact execBlock_table_of (execStatements_table hI ss · · hG) hF h hG V m

lemma execStatements_table (hI : I.CallsTable dialect G) (ss : List Statement) {F : Functions}
    {K : Set YulString} {Γ : Scope} (hF : G.Knows dialect F K Γ)
    (h : statementsValid dialect Γ ss) (hG : G.Holds (functionsOfStatements ss))
    (V : Variables) (m : SvmState World) :
    execStatements I F V ss m = execStatements I G V ss m := by
  match ss with
  | [] => rfl
  | s :: ss =>
    rw [statementsValid, and_eq_true] at h
    rw [execStatements_cons, execStatements_cons, exec_table hI s hF h.1 hG.left]
    refine Result.bind_congr _ fun r m₁ _ => ?_
    rw [execStatements_table hI ss (hF.declare _) h.2 hG.right]

lemma execCases_table (hI : I.CallsTable dialect G) (cs : List Case) {F : Functions}
    {K : Set YulString} {Γ : Scope} (hF : G.Knows dialect F K Γ)
    (h : casesValid dialect Γ cs) (hG : G.Holds (functionsOfCases cs)) (V : Variables)
    (v : Word) (m : SvmState World) : execCases I F V v cs m = execCases I G V v cs m := by
  match cs with
  | [] => rfl
  | .mk value body :: cs =>
    rw [casesValid, and_eq_true, and_eq_true] at h
    rw [execCases_cons, execCases_cons, execCases_table hI cs hF h.2 hG.right,
      execBlock_table_of (execStatements_table hI body · · hG.left) hF h.1.2 hG.left]

end

lemma execBlock_table (hI : I.CallsTable dialect G) (hF : G.Knows dialect F K Γ)
    (h : statementsValid dialect (Γ.register ss) ss)
    (hG : G.Holds (functionsOfStatements ss)) (V : Variables) (m : SvmState World) :
    execBlock I F V ss m = execBlock I G V ss m :=
  execBlock_table_of (execStatements_table hI ss · · hG) hF h hG V m

/-- Calls, by induction on their depth: the body of a function is valid where only functions that
are known are visible. -/
lemma callsTable_ofBound (env : Environment World) (dialect : Dialect) (G : Functions) (n : Nat) :
    (Interpreter.ofBound env dialect n).CallsTable dialect G := by
  refine ⟨rfl, ?_⟩
  show ∀ {F : Functions} {K : Set YulString} {Γ : Scope}, G.Knows dialect F K Γ → ∀ f ∈ K, ∀ vs m,
    callFunction env dialect n F f vs m = callFunction env dialect n G f vs m
  induction n with
  | zero => exact fun _ _ _ _ _ => rfl
  | succ n ih =>
    intro F K Γ hF f hf vs m
    obtain ⟨d, Γ', hd, hknown, hvalid, hG⟩ := hF.closed f hf
    have hF' : G.Knows dialect F K
        ⟨(d.parameters ++ d.returnVariables).map (·.name), Γ'.functions, .none⟩ :=
      ⟨hknown, hF.agree, hF.closed⟩
    rw [callFunction_succ, callFunction_succ, hF.agree f hf, hd]
    dsimp only
    have hI : (Interpreter.ofBound env dialect n).CallsTable dialect G := ⟨rfl, ih⟩
    rw [FunctionDefinition.run, FunctionDefinition.run, execBlock_table hI hF' hvalid hG]

/-- A valid program whose functions have distinct names runs as if all of them were known from the
start. -/
theorem Block.run_eq_table (hvalid : Block.valid dialect ss)
    (hunique : Block.UniqueFunctions ss) (env : Environment World) (n : Nat) (m : SvmState World) :
    Block.run env dialect n ss m =
      (execBlock (.ofBound env dialect n) (functionTable ss) (fun _ => none) ss m).map (·.1) := by
  have hF : (functionTable ss).Knows dialect (fun _ => none) ∅ .empty :=
    ⟨fun _ _ h => (by cases h), fun _ h => h.elim, fun _ h => h.elim⟩
  rw [Block.run, execBlock_table (callsTable_ofBound env dialect _ n) hF hvalid
    (holds_functionTable hunique)]

end

def FunctionDefinition.arity (d : FunctionDefinition) : Nat × Nat :=
  (d.parameters.length, d.returnVariables.length)

lemma lookup_arity (ds : List (YulString × FunctionDefinition)) (f : YulString) :
    (ds.map fun p => (p.1, p.2.arity)).lookup f = (ds.lookup f).map (·.arity) := by
  induction ds with
  | nil => rfl
  | cons p ds ih =>
    rw [map_cons, lookup_cons, lookup_cons, ih]
    split <;> rfl

/-- The functions that are visible are those of the table. -/
def Functions.Declares (G : Functions) (Γ : Scope) : Prop :=
  ∀ f n, Γ.functions.lookup f = some n → (G f).map (·.arity) = some n

namespace Functions.Declares

variable {G : Functions} {Γ : Scope} {ss : Block}

lemma enter (h : G.Declares Γ) (c : ForLoopComponent) : G.Declares (Γ.enter c) := h

lemma declare (h : G.Declares Γ) (xs : List YulString) : G.Declares (Γ.declare xs) := h

lemma function (h : G.Declares Γ) (locals : List YulString) :
    G.Declares ⟨locals, Γ.functions, .none⟩ := h

lemma empty (G : Functions) : G.Declares .empty := fun _ _ h => by cases h

lemma visible (hG : G.Holds (functionDefinitions ss)) {f : YulString} {n : Nat × Nat}
    (h : (visibleFunctions ss).lookup f = some n) : (G f).map (·.arity) = some n := by
  obtain ⟨l₁, l₂, heq, -⟩ := lookup_eq_some_iff.mp h
  have hmem : (f, n) ∈ visibleFunctions ss := heq ▸ mem_append_right _ mem_cons_self
  obtain ⟨p, hp, heq⟩ := mem_map.mp hmem
  cases heq
  rw [hG p hp]
  rfl

lemma register (h : G.Declares Γ) (hG : G.Holds (functionDefinitions ss)) :
    G.Declares (Γ.register ss) := by
  intro f n hf
  rw [register_eq, lookup_append, Option.or_eq_some_iff] at hf
  rcases hf with hf | ⟨-, hf⟩
  · exact visible hG hf
  · exact h f n hf

lemma extends_register (h : G.Declares Γ) (hG : G.Holds (functionDefinitions ss)) :
    Γ.Extends (Γ.register ss) := by
  refine ⟨by rw [locals_register]; exact List.Subset.refl _, fun f n hf => ?_⟩
  rw [register_eq, lookup_append]
  cases hss : (visibleFunctions ss).lookup f with
  | none => exact hf
  | some n' => rw [Option.some_or, ← visible hG hss, h f n hf]

end Functions.Declares

/-! ### Programs with related tables -/

section

variable {dialect : Dialect} {p q : Prop} {G G' : Functions}

/-- Calls of functions from two tables behave alike if their bodies do, by induction on the depth
of calls. -/
lemma simAt_ofBound {D : FunctionDefinition → FunctionDefinition → Prop} (hG : G.Rel D G')
    {env : Environment World}
    (hD : ∀ I I' : Interpreter World, I.dialect = dialect → I.SimAt p q G G' I' →
      ∀ d d', D d d' → ∀ vs m, Result.Sim p q Eq Eq (d.run I G vs m) (d'.run I' G' vs m))
    (n : Nat) :
    (Interpreter.ofBound env dialect n).SimAt p q G G' (.ofBound env dialect n) := by
  refine ⟨rfl, rfl, .refl n, ?_⟩
  show ∀ f vs m, Result.Sim p q Eq Eq (callFunction env dialect n G f vs m)
    (callFunction env dialect n G' f vs m)
  induction n with
  | zero => exact fun _ _ _ => .timeout
  | succ n ih =>
    intro f vs m
    rw [callFunction_succ, callFunction_succ]
    match hf : G f, hf' : G' f, hG f with
    | none, none, _ => exact .halt _ rfl
    | some d, some d', .some hd =>
      exact hD (.ofBound env dialect n) (.ofBound env dialect n) rfl ⟨rfl, rfl, .refl n, ih⟩ d d' hd
        vs m

/-- The second table has what a pass makes of the functions of the first one. -/
def Functions.Maps (T : FunctionDefinition → FunctionDefinition) (G G' : Functions) : Prop :=
  ∀ f d, G f = some d → G' f = some (T d)

lemma Functions.Maps.holds {T : FunctionDefinition → FunctionDefinition} (h : G.Maps T G')
    (hG : G.Holds ds) : G'.Holds (ds.map fun p => (p.1, T p.2)) := by
  intro p' hp'
  obtain ⟨p, hp, rfl⟩ := mem_map.mp hp'
  exact h _ _ (hG p hp)

lemma execBlock_simAt {I I' : Interpreter World} {V V' : Variables} {m : SvmState World}
    {A B : LoopState → Variables → Variables → Prop} {ss' : Block}
    (hG : G.Holds (functionsOfStatements ss)) (hG' : G'.Holds (functionsOfStatements ss'))
    (h : Result.Sim p q Eq (Outcome A) (execStatements I G V ss m) (execStatements I' G' V' ss' m))
    (hA : ∀ l W W', A l W W' → B l (V.restrict W) (V'.restrict W')) :
    Result.Sim p q Eq (Outcome B) (execBlock I G V ss m) (execBlock I' G' V' ss' m) := by
  rw [hG.execBlock_eq, hG'.execBlock_eq]
  exact closeScope_sim h hA

/-- What a pass makes of the functions of a program. -/
structure Block.MapsFunctions (T : FunctionDefinition → FunctionDefinition) (ss ss' : Block) :
    Prop where
  unique : Block.UniqueFunctions ss
  perm : (functionsOfStatements ss').Perm ((functionsOfStatements ss).map fun p => (p.1, T p.2))

namespace Block.MapsFunctions

variable {T : FunctionDefinition → FunctionDefinition} {ss ss' : Block}

lemma unique' (h : MapsFunctions T ss ss') : Block.UniqueFunctions ss' := by
  refine (h.perm.map (·.1)).nodup_iff.mpr ?_
  rw [map_map]
  exact h.unique

lemma holds (h : MapsFunctions T ss ss') : (functionTable ss).Holds (functionsOfStatements ss) :=
  holds_functionTable h.unique

lemma holds' (h : MapsFunctions T ss ss') :
    (functionTable ss').Holds ((functionsOfStatements ss).map fun p => (p.1, T p.2)) :=
  (holds_functionTable h.unique').subset h.perm.symm.subset

lemma maps (h : MapsFunctions T ss ss') : (functionTable ss).Maps T (functionTable ss') :=
  fun f d hf => h.holds' (f, T d)
    (mem_map_of_mem ((lookup_eq_some_iff_of_nodup h.unique).mp hf))

lemma rel (h : MapsFunctions T ss ss') :
    (functionTable ss).Rel (fun d d' => (∃ f, (f, d) ∈ functionsOfStatements ss) ∧ d' = T d)
      (functionTable ss') := by
  intro f
  cases hf : functionTable ss f with
  | some d =>
    rw [h.maps f d hf]
    exact .some ⟨⟨f, (lookup_eq_some_iff_of_nodup h.unique).mp hf⟩, rfl⟩
  | none =>
    cases hf' : functionTable ss' f with
    | none => exact .none
    | some d' =>
      have hmem := h.perm.mem_iff.mp ((lookup_eq_some_iff_of_nodup h.unique').mp hf')
      obtain ⟨p, hp, heq⟩ := mem_map.mp hmem
      cases heq
      have hsome := (lookup_eq_some_iff_of_nodup h.unique).mpr hp
      cases hf.symm.trans hsome

/-- A pass keeps the runs of a program if it keeps what the program and its functions do when all
functions are known. -/
theorem sameRuns {A : LoopState → Variables → Variables → Prop} (h : MapsFunctions T ss ss')
    (hvalid : Block.valid dialect ss) (hvalid' : Block.valid dialect ss')
    {env : Environment World}
    (hfunctions : ∀ I I' : Interpreter World, I.dialect = dialect →
      I.SimAt False False (functionTable ss) (functionTable ss') I' →
        ∀ p ∈ functionsOfStatements ss, ∀ vs m, Result.Sim False False Eq Eq
          (p.2.run I (functionTable ss) vs m) ((T p.2).run I' (functionTable ss') vs m))
    (hmain : ∀ I I' : Interpreter World, I.dialect = dialect →
      I.SimAt False False (functionTable ss) (functionTable ss') I' → ∀ m,
        Result.Sim False False Eq (Outcome A)
          (execBlock I (functionTable ss) (fun _ => none) ss m)
          (execBlock I' (functionTable ss') (fun _ => none) ss' m)) :
    SameRuns env dialect ss ss' := by
  refine SameRuns.of_eq fun n m => ?_
  rw [Block.run_eq_table hvalid h.unique, Block.run_eq_table hvalid' h.unique']
  refine Result.Sim.eq ((hmain _ _ rfl (simAt_ofBound h.rel ?_ n) m).map fun _ _ hr => hr.1)
  rintro I I' hd hI d _ ⟨⟨f, hf⟩, rfl⟩ vs m
  exact hfunctions I I' hd hI (f, d) hf vs m

end Block.MapsFunctions

end

/-- The program after a step is disambiguated again and has the same runs. -/
def KeepsRuns (dialect : Dialect) (ss ss' : Block) : Prop :=
  Block.Disambiguated dialect ss' ∧
    ∀ (World : Type) (env : Environment World), SameRuns env dialect ss ss'

end Yul
