import Polc.Yul.Interpreter.FunctionTable

/-!
# Dissolved scopes

Blocks and the init parts of loops can become part of the block around them if no name is declared
twice. The variables in them stay in scope longer and their functions are visible earlier, which
makes no difference.
-/

namespace Yul

open Sof Semantics List Expression Scope Bool

/-- The scopes that are dissolved. -/
structure DissolvedScopes where
  blocks : Bool
  loopInits : Bool

section

variable (k : DissolvedScopes)

mutual

/-- What a statement becomes if all scopes of the given kinds in it are dissolved. -/
def Statement.dissolve : Statement → List Statement
  | .functionDefinition f ps rs body => [.functionDefinition f ps rs (dissolveStatements body)]
  | .if c body => [.if c (dissolveStatements body)]
  | .switch e cases => [.switch e (dissolveCases cases)]
  | .forLoop pre c post body =>
    if k.loopInits then
      dissolveStatements pre ++ [.forLoop [] c (dissolveStatements post) (dissolveStatements body)]
    else [.forLoop (dissolveStatements pre) c (dissolveStatements post) (dissolveStatements body)]
  | .block ss => if k.blocks then dissolveStatements ss else [.block (dissolveStatements ss)]
  | s => [s]

def dissolveStatements : List Statement → List Statement
  | [] => []
  | s :: ss => s.dissolve ++ dissolveStatements ss

def dissolveCases : List Case → List Case
  | [] => []
  | .mk value body :: cs => .mk value (dissolveStatements body) :: dissolveCases cs

end

/-- The function afterwards. -/
def FunctionDefinition.dissolve (d : FunctionDefinition) : FunctionDefinition :=
  ⟨d.parameters, d.returnVariables, dissolveStatements k d.body⟩

/-! ### Names and functions -/

mutual

lemma names_dissolve (s : Statement) : namesOfStatements (s.dissolve k) = s.names := by
  match s with
  | .expressionStatement _ | .assignment _ _ | .break | .continue => rfl
  | .variableDeclaration _ _ => exact append_nil _
  | .functionDefinition f ps rs body =>
    rw [Statement.dissolve, names_singleton, Statement.names, Statement.names,
      namesOfStatements_dissolve body]
  | .if c body =>
    rw [Statement.dissolve, names_singleton, Statement.names, Statement.names,
      namesOfStatements_dissolve body]
  | .switch e cases =>
    rw [Statement.dissolve, names_singleton, Statement.names, Statement.names,
      namesOfCases_dissolve cases]
  | .forLoop pre c post body =>
    rw [Statement.dissolve]
    split_ifs
    · rw [names_append, names_singleton, Statement.names, Statement.names,
        namesOfStatements_dissolve pre, namesOfStatements_dissolve post,
        namesOfStatements_dissolve body]
      exact (append_assoc _ _ _).symm
    · rw [names_singleton, Statement.names, Statement.names,
        namesOfStatements_dissolve pre, namesOfStatements_dissolve post,
        namesOfStatements_dissolve body]
  | .block ss =>
    rw [Statement.dissolve]
    split_ifs
    · exact namesOfStatements_dissolve ss
    · rw [names_singleton, Statement.names, Statement.names,
        namesOfStatements_dissolve ss]

lemma namesOfStatements_dissolve (ss : List Statement) :
    namesOfStatements (dissolveStatements k ss) = namesOfStatements ss := by
  match ss with
  | [] => rfl
  | s :: ss =>
    rw [dissolveStatements, names_append, names_dissolve s,
      namesOfStatements_dissolve ss, namesOfStatements]

lemma namesOfCases_dissolve (cs : List Case) :
    namesOfCases (dissolveCases k cs) = namesOfCases cs := by
  match cs with
  | [] => rfl
  | .mk value body :: cs =>
    rw [dissolveCases, namesOfCases, namesOfCases, namesOfStatements_dissolve body,
      namesOfCases_dissolve cs]

end

mutual

lemma functions_dissolve (s : Statement) :
    functionsOfStatements (s.dissolve k) = s.functions.map fun p => (p.1, p.2.dissolve k) := by
  match s with
  | .expressionStatement _ | .assignment _ _ | .variableDeclaration _ _ | .break | .continue => rfl
  | .functionDefinition f ps rs body =>
    rw [Statement.dissolve, functions_singleton, Statement.functions,
      Statement.functions, functionsOfStatements_dissolve body, map_cons]
    rfl
  | .if c body =>
    rw [Statement.dissolve, functions_singleton, Statement.functions,
      Statement.functions, functionsOfStatements_dissolve body]
  | .switch e cases =>
    rw [Statement.dissolve, functions_singleton, Statement.functions,
      Statement.functions, functionsOfCases_dissolve cases]
  | .forLoop pre c post body =>
    rw [Statement.dissolve]
    split_ifs
    · rw [functions_append, functions_singleton, Statement.functions,
        Statement.functions, functionsOfStatements_dissolve pre,
        functionsOfStatements_dissolve post, functionsOfStatements_dissolve body,
        map_append, map_append]
      exact (append_assoc _ _ _).symm
    · rw [functions_singleton, Statement.functions, Statement.functions,
        functionsOfStatements_dissolve pre, functionsOfStatements_dissolve post,
        functionsOfStatements_dissolve body, map_append, map_append]
  | .block ss =>
    rw [Statement.dissolve]
    split_ifs
    · exact functionsOfStatements_dissolve ss
    · rw [functions_singleton, Statement.functions, Statement.functions,
        functionsOfStatements_dissolve ss]

lemma functionsOfStatements_dissolve (ss : List Statement) :
    functionsOfStatements (dissolveStatements k ss) =
      (functionsOfStatements ss).map fun p => (p.1, p.2.dissolve k) := by
  match ss with
  | [] => rfl
  | s :: ss =>
    rw [dissolveStatements, functions_append, functions_dissolve s,
      functionsOfStatements_dissolve ss, functionsOfStatements, map_append]

lemma functionsOfCases_dissolve (cs : List Case) :
    functionsOfCases (dissolveCases k cs) =
      (functionsOfCases cs).map fun p => (p.1, p.2.dissolve k) := by
  match cs with
  | [] => rfl
  | .mk value body :: cs =>
    rw [dissolveCases, functionsOfCases, functionsOfCases, functionsOfStatements_dissolve body,
      functionsOfCases_dissolve cs, map_append]

end

lemma mapsFunctions_dissolve {ss : Block} (hss : Block.UniqueFunctions ss) :
    Block.MapsFunctions (·.dissolve k) ss (dissolveStatements k ss) :=
  ⟨hss, List.Perm.of_eq (functionsOfStatements_dissolve k ss)⟩

end

/-! ### Executions -/

section

variable {k : DissolvedScopes} {World : Type} {p q : Prop} {G G' : Functions}
  {I I' : Interpreter World}

/-- How the variables of the two programs are related after code with the given scope in front
that declares `xs`: the variables that are visible then are the same. -/
def Visibly (locals xs : List YulString) (l : LoopState) (W W' : Variables) : Prop :=
  W.SetAlike locals W' ∧ (l = .default → W.SetAlike (xs ++ locals) W')

lemma Visibly.default {locals xs : List YulString} {W W' : Variables}
    (h : W.SetAlike (xs ++ locals) W') (l : LoopState) : Visibly locals xs l W W' :=
  ⟨h.mono (subset_append_right _ _), fun _ => h⟩

lemma Visibly.of_nil {locals : List YulString} {W W' : Variables} (h : W.SetAlike locals W')
    (l : LoopState) : Visibly locals [] l W W' :=
  ⟨h, fun _ => h⟩

lemma holds_dissolve (hT : G.Maps (·.dissolve k) G') {ss : List Statement}
    (hG : G.Holds (functionsOfStatements ss)) :
    G'.Holds (functionsOfStatements (dissolveStatements k ss)) := by
  rw [functionsOfStatements_dissolve]
  exact hT.holds hG

lemma execBlock_dissolve_of (hT : G.Maps (·.dissolve k) G') {ss : Block} {Γ : Scope}
    (hss : ∀ V V' m, V.SetAlike (Γ.register ss).locals V' → Result.Sim p q Eq
      (Outcome (Visibly (Γ.register ss).locals (ss.flatMap (·.declares))))
      (execStatements I G V ss m) (execStatements I' G' V' (dissolveStatements k ss) m))
    (hG : G.Holds (functionsOfStatements ss)) {V V' : Variables} (hV : V.SetAlike Γ.locals V')
    (m : SvmState World) :
    Result.Sim p q Eq (Outcome (Visibly Γ.locals [])) (execBlock I G V ss m)
      (execBlock I' G' V' (dissolveStatements k ss) m) := by
  rw [locals_register] at hss
  exact execBlock_simAt hG (holds_dissolve hT hG) (hss V V' m hV)
    fun l W W' hW => .of_nil (hV.restrict hW.1) l

mutual

lemma exec_dissolve (hT : G.Maps (·.dissolve k) G') (hI : I.SimAt p q G G' I') (s : Statement)
    {Γ : Scope} (hvalid : s.valid I.dialect Γ) (hG : G.Holds s.functions)
    {V V' : Variables} (hV : V.SetAlike Γ.locals V') (m : SvmState World) :
    Result.Sim p q Eq (Outcome (Visibly Γ.locals s.declares)) (s.exec I G V m)
      (execStatements I' G' V' (s.dissolve k) m) := by
  have hexpression {Γ : Scope} {W W' : Variables} (hW : W.SetAlike Γ.locals W') {e : Expression}
      (he : e.valid I.dialect Γ = true) : ∀ x ∈ e.referencedVariables, W' x = W x :=
    fun x hx => (hW x (e.mem_locals_of_valid he hx)).2
  match s with
  | .expressionStatement e =>
    rw [valid_expression, and_eq_true] at hvalid
    have hdissolve : (Statement.expressionStatement e).dissolve k = [.expressionStatement e] := rfl
    rw [hdissolve, exec_singleton]
    exact (hI.eval e (hexpression hV hvalid.1) m).map fun _ _ _ => ⟨rfl, .of_nil hV _⟩
  | .assignment xs e =>
    rw [valid_assignment, and_eq_true, and_eq_true] at hvalid
    have hdissolve : (Statement.assignment xs e).dissolve k = [.assignment xs e] := rfl
    rw [hdissolve, exec_singleton]
    refine (hI.eval e (hexpression hV hvalid.1.2) m).map ?_
    rintro vs _ rfl
    exact ⟨rfl, .of_nil (hV.assign xs vs) _⟩
  | .variableDeclaration xs value =>
    rw [valid_declaration, and_eq_true] at hvalid
    have hdissolve : (Statement.variableDeclaration xs value).dissolve k = [.variableDeclaration xs value] := rfl
    rw [hdissolve, exec_singleton]
    refine (hI.evaluateMulti value ?_ m).map ?_
    · rintro e rfl
      have hvalue := hvalid.2
      rw [valueValid, and_eq_true] at hvalue
      exact hexpression hV hvalue.1
    · rintro vs _ rfl
      exact ⟨rfl, .default (hV.assign_append _ vs) _⟩
  | .functionDefinition f ps rs body =>
    rw [Statement.dissolve, exec_singleton]
    exact .ok ⟨rfl, .of_nil hV _⟩ rfl
  | .if c body =>
    rw [valid_if, and_eq_true, and_eq_true] at hvalid
    rw [Statement.dissolve, exec_singleton]
    refine exec_if_sim (hI.evaluate c (hexpression hV hvalid.1.1) m) (fun m => ?_) (.of_nil hV _)
    exact execBlock_dissolve_of hT
      (fun V V' m hV => execStatements_dissolve hT hI body hvalid.2 hG hV m) hG hV m
  | .switch e cases =>
    rw [valid_switch, and_eq_true, and_eq_true] at hvalid
    rw [Statement.dissolve, exec_singleton]
    exact exec_switch_sim (hI.evaluate e (hexpression hV hvalid.1.1) m)
      (execCases_dissolve hT hI cases hvalid.2 hG hV)
  | .forLoop pre c post body =>
    simp only [valid_forLoop, and_eq_true, decide_eq_true_eq] at hvalid
    obtain ⟨⟨⟨⟨hpre, hc⟩, -⟩, hpost⟩, hbody⟩ := hvalid
    have hcomponent : (Γ.enter .forLoopPre).component ≠ .forLoopBody := nofun
    have hpre' := execStatements_dissolve hT hI pre hpre hG.left.left hV m
    have hloop {W W' : Variables} (hW : W.SetAlike (pre.flatMap (·.declares) ++ Γ.locals) W')
        (m : SvmState World) :
        Result.Sim p q Eq (Variables.SetAlike (pre.flatMap (·.declares) ++ Γ.locals))
          (loop (loopCondition I G c) (loopBody I G body) (loopPost I G post) I.fuel W m)
          (loop (loopCondition I' G' c) (loopBody I' G' (dissolveStatements k body))
            (loopPost I' G' (dissolveStatements k post)) I'.fuel W' m) := by
      refine exec_loop_sim
        (B := Visibly (Γ.declare (pre.flatMap (·.declares))).locals []) hI.fuel ?_ ?_ ?_ ?_ ?_ hW m
      · exact fun U U' m hU => hI.evaluate c (hexpression hU hc) m
      · exact fun _ _ => id
      · exact fun U U' m hU => execBlock_dissolve_of hT
          (fun V V' m hV => execStatements_dissolve hT hI body hbody hG.left.right hV m)
          hG.left.right hU m
      · exact fun U U' hU => hU.1
      · intro l U U' m _ hU
        refine (execBlock_dissolve_of hT
          (fun V V' m hV => execStatements_dissolve hT hI post hpost hG.right hV m) hG.right hU.1
            m).mono (Outcome.mono fun _ _ _ h => h.1)
    rw [Statement.dissolve, exec_forLoop]
    split_ifs
    · refine closeScope_sim_left (A := fun _ => Variables.SetAlike Γ.locals) ?_
        fun l W W' hW => .of_nil (hV.restrict_left hW) l
      rw [execStatements_append]
      refine hpre'.bind ?_
      rintro ⟨l, W⟩ ⟨_, W'⟩ m₁ _ hr - ⟨rfl, hW⟩ rfl
      obtain rfl : l = .default := execStatements_default_of_valid pre hcomponent hpre _ _ _ _ _ hr
      rw [if_pos rfl, exec_singleton, exec_forLoop, execStatements_nil, Result.bind_ok]
      refine closeScope_sim_right (A := fun _ => Variables.SetAlike Γ.locals)
        ((hloop (hW.2 rfl) m₁).map fun U U' hU => ⟨rfl, ?_⟩)
        fun _ U U' hU => hW.1.restrict_right hU
      exact hU.mono (subset_append_right _ _)
    · rw [exec_singleton, exec_forLoop]
      refine closeScope_sim (A := fun _ => Variables.SetAlike Γ.locals) ?_
        fun l W W' hW => .of_nil (hV.restrict hW) l
      refine hpre'.bind ?_
      rintro ⟨l, W⟩ ⟨_, W'⟩ m₁ _ hr - ⟨rfl, hW⟩ rfl
      obtain rfl : l = .default := execStatements_default_of_valid pre hcomponent hpre _ _ _ _ _ hr
      exact (hloop (hW.2 rfl) m₁).map fun U U' hU => ⟨rfl, hU.mono (subset_append_right _ _)⟩
  | .break =>
    have hdissolve : Statement.break.dissolve k = [.break] := rfl
    rw [hdissolve, exec_singleton]
    exact .ok ⟨rfl, .of_nil hV _⟩ rfl
  | .continue =>
    have hdissolve : Statement.continue.dissolve k = [.continue] := rfl
    rw [hdissolve, exec_singleton]
    exact .ok ⟨rfl, .of_nil hV _⟩ rfl
  | .block ss =>
    rw [Statement.dissolve]
    split_ifs
    · rw [exec_block, hG.execBlock_eq]
      refine closeScope_sim_left (execStatements_dissolve hT hI ss hvalid hG ?_ m) ?_
      · rwa [locals_register]
      · rw [locals_register]
        exact fun l W W' hW => .of_nil (hV.restrict_left hW.1) l
    · rw [exec_singleton]
      exact execBlock_dissolve_of hT
        (fun V V' m hV => execStatements_dissolve hT hI ss hvalid hG hV m) hG hV m

lemma execStatements_dissolve (hT : G.Maps (·.dissolve k) G') (hI : I.SimAt p q G G' I')
    (ss : List Statement) {Γ : Scope} (hvalid : statementsValid I.dialect Γ ss)
    (hG : G.Holds (functionsOfStatements ss)) {V V' : Variables} (hV : V.SetAlike Γ.locals V')
    (m : SvmState World) :
    Result.Sim p q Eq (Outcome (Visibly Γ.locals (ss.flatMap (·.declares))))
      (execStatements I G V ss m) (execStatements I' G' V' (dissolveStatements k ss) m) := by
  match ss with
  | [] => exact .ok ⟨rfl, .of_nil hV _⟩ rfl
  | s :: ss =>
    rw [statementsValid, and_eq_true] at hvalid
    refine exec_cons_sim (exec_dissolve hT hI s hvalid.1 hG.left hV m) ?_ ?_
    · intro W W' m₁ hW
      refine (execStatements_dissolve hT hI ss hvalid.2 hG.right (hW.2 rfl) m₁).mono
        (Outcome.mono fun l U U' hU => ?_)
      refine ⟨hU.1.mono (subset_append_right _ _), fun hl => (hU.2 hl).mono fun x hx => ?_⟩
      rw [flatMap_cons, append_assoc] at hx
      rw [locals_declare]
      simp only [mem_append] at hx ⊢
      tauto
    · exact fun l W W' hl hW => ⟨hW.1, fun h => absurd h hl⟩

lemma execCases_dissolve (hT : G.Maps (·.dissolve k) G') (hI : I.SimAt p q G G' I')
    (cs : List Case) {Γ : Scope} (hvalid : casesValid I.dialect Γ cs)
    (hG : G.Holds (functionsOfCases cs)) {V V' : Variables} (hV : V.SetAlike Γ.locals V')
    (v : Word) (m : SvmState World) :
    Result.Sim p q Eq (Outcome (Visibly Γ.locals [])) (execCases I G V v cs m)
      (execCases I' G' V' v (dissolveCases k cs) m) := by
  match cs with
  | [] => exact .ok ⟨rfl, .of_nil hV _⟩ rfl
  | .mk value body :: cs =>
    rw [casesValid, and_eq_true, and_eq_true] at hvalid
    exact execCases_cons_sim (execBlock_dissolve_of hT
      (fun V V' m hV => execStatements_dissolve hT hI body hvalid.1.2 hG.left hV m) hG.left hV m)
      (execCases_dissolve hT hI cs hvalid.2 hG.right hV v m)

end

lemma run_dissolve (hT : G.Maps (·.dissolve k) G') (hI : I.SimAt p q G G' I')
    (d : FunctionDefinition) {Γ : Scope} (hvalid : d.ValidIn I.dialect Γ)
    (hG : G.Holds (functionsOfStatements d.body)) (vs : List Word) (m : SvmState World) :
    Result.Sim p q Eq Eq (d.run I G vs m) ((d.dissolve k).run I' G' vs m) := by
  let Γ' : Scope := ⟨(d.parameters ++ d.returnVariables).map (·.name), Γ.functions, .none⟩
  have hV : (d.variables vs).SetAlike Γ'.locals (d.variables vs) :=
    .refl fun x hx => d.isSome_variables vs hx
  refine (execBlock_dissolve_of hT
    (fun V V' m hV => execStatements_dissolve hT hI d.body hvalid hG hV m) hG hV m).map ?_
  rintro ⟨l, W⟩ ⟨_, W'⟩ ⟨-, hW⟩
  refine map_congr_left fun x hx => ?_
  have hmem : x.name ∈ Γ'.locals := mem_map_of_mem (mem_append_right _ hx)
  exact congrArg (·.getD 0) (hW.1 x.name hmem).2.symm

end

/-! ### Validity -/

section

variable {k : DissolvedScopes} {dialect : Dialect} {G G' : Functions} {names names' : List YulString}
  {Γ Γ' : Scope}

/-- The scope that code with the given names is in afterwards: it has more variables, none of which
the code declares. -/
structure DissolvedScopes.Widens (G G' : Functions) (names : List YulString) (Γ Γ' : Scope) :
    Prop where
  larger : Γ.Extends Γ'
  component : Γ.component ≠ .forLoopPre → Γ'.component = Γ.component
  new : Γ.NewNotIn Γ' names
  declares : G.Declares Γ
  declares' : G'.Declares Γ'

/-- The functions of the statements are visible. -/
def Scope.Sees (Γ : Scope) (ss : List Statement) : Prop :=
  ∀ p ∈ functionDefinitions ss, (Γ.functions.lookup p.1).isSome

lemma Scope.sees_register (Γ : Scope) (ss : Block) : (Γ.register ss).Sees ss := by
  intro p hp
  have hmem : (p.1, p.2.parameters.length, p.2.returnVariables.length) ∈ visibleFunctions ss :=
    mem_map_of_mem hp
  rw [register_eq, lookup_append, Option.isSome_or, or_eq_true]
  refine .inl ?_
  by_contra hnone
  rw [Option.not_isSome_iff_eq_none, lookup_eq_none_iff] at hnone
  simpa using hnone _ hmem

lemma definitions_subset_dissolve (ss : List Statement) {p : YulString × FunctionDefinition}
    (hp : p ∈ functionDefinitions ss) :
    ∃ d, (p.1, d) ∈ functionDefinitions (dissolveStatements k ss) := by
  induction ss with
  | nil => cases hp
  | cons s ss ih =>
    rw [dissolveStatements, definitions_append]
    cases s with
    | functionDefinition f ps rs body =>
      rcases mem_cons.mp hp with rfl | hp
      · exact ⟨_, mem_append_left _ mem_cons_self⟩
      · exact (ih hp).imp fun d hd => mem_append_right _ hd
    | _ => exact (ih hp).imp fun d hd => mem_append_right _ hd

mutual

lemma definitions_dissolve_eq_nil (s : Statement) {Γ : Scope}
    (hc : Γ.component = .forLoopPre) (h : s.valid dialect Γ) :
    functionDefinitions (s.dissolve k) = [] := by
  match s with
  | .expressionStatement _ | .assignment _ _ | .variableDeclaration _ _ | .if _ _ | .switch _ _ |
    .break | .continue => rfl
  | .functionDefinition f ps rs body =>
    rw [valid_function, and_eq_true, and_eq_true, decide_eq_true_eq] at h
    exact absurd hc h.1.1
  | .forLoop pre c post body =>
    simp only [valid_forLoop, and_eq_true, decide_eq_true_eq] at h
    rw [Statement.dissolve]
    split_ifs
    · rw [definitions_append,
        definitions_dissolveStatements_eq_nil pre rfl h.1.1.1.1]
      rfl
    · rfl
  | .block ss =>
    rw [Statement.dissolve]
    split_ifs
    · refine definitions_dissolveStatements_eq_nil ss ?_ h
      rw [register_eq]
      exact hc
    · rfl

lemma definitions_dissolveStatements_eq_nil (ss : List Statement) {Γ : Scope}
    (hc : Γ.component = .forLoopPre) (h : statementsValid dialect Γ ss) :
    functionDefinitions (dissolveStatements k ss) = [] := by
  match ss with
  | [] => rfl
  | s :: ss =>
    rw [statementsValid, and_eq_true] at h
    have hc' : (Γ.declare s.declares).component = .forLoopPre := hc
    rw [dissolveStatements, definitions_append, definitions_dissolve_eq_nil s hc h.1,
      definitions_dissolveStatements_eq_nil ss hc' h.2]
    rfl

end

lemma declares_subset_dissolve (s : Statement) :
    s.declares ⊆ (s.dissolve k).flatMap (·.declares) := by
  cases s with
  | variableDeclaration xs value => exact subset_append_left _ _
  | _ => exact nil_subset _

lemma flatMap_declares_subset_dissolve (ss : List Statement) :
    ss.flatMap (·.declares) ⊆ (dissolveStatements k ss).flatMap (·.declares) := by
  induction ss with
  | nil => exact List.Subset.refl _
  | cons s ss ih =>
    rw [dissolveStatements, flatMap_cons, flatMap_append]
    exact append_subset_append (declares_subset_dissolve s) ih

lemma declares_dissolve_subset_names (s : Statement) :
    (s.dissolve k).flatMap (·.declares) ⊆ s.names :=
  names_dissolve k s ▸ flatMap_declares_subset_names _

lemma declares_dissolveStatements_subset_names (ss : List Statement) :
    (dissolveStatements k ss).flatMap (·.declares) ⊆ namesOfStatements ss :=
  namesOfStatements_dissolve k ss ▸ flatMap_declares_subset_names _

/-- A function that both scopes see has the same numbers of parameters and return variables. -/
lemma lookup_eq_of_declares (hT : G.Maps (·.dissolve k) G') (h : G.Declares Γ)
    (h' : G'.Declares Γ') {f : YulString} {n : Nat × Nat} (hf : Γ.functions.lookup f = some n)
    (hf' : (Γ'.functions.lookup f).isSome) : Γ'.functions.lookup f = some n := by
  obtain ⟨n', hn'⟩ := Option.isSome_iff_exists.mp hf'
  obtain ⟨d, hd, rfl⟩ := Option.map_eq_some_iff.mp (h f n hf)
  have harity := h' f n' hn'
  rw [hT f d hd] at harity
  rw [hn', ← harity]
  rfl

namespace DissolvedScopes.Widens

lemma enter (h : Widens G G' names Γ Γ') (c : ForLoopComponent) :
    Widens G G' names (Γ.enter c) (Γ'.enter c) :=
  ⟨h.larger.enter c c, fun _ => rfl, h.new, h.declares, h.declares'⟩

lemma enter_left (h : Widens G G' names Γ Γ') :
    Widens G G' names (Γ.enter .forLoopPre) Γ' :=
  ⟨⟨h.larger.locals, h.larger.functions⟩, fun hne => absurd rfl hne, h.new, h.declares, h.declares'⟩

lemma mono (h : Widens G G' names Γ Γ') (hnames : names' ⊆ names) : Widens G G' names' Γ Γ' :=
  ⟨h.larger, h.component, fun x hx => h.new x (hnames hx), h.declares, h.declares'⟩

lemma declare (h : Widens G G' names Γ Γ') {xs ys : List YulString} (hxs : xs ⊆ ys)
    (hys : List.Disjoint ys names) : Widens G G' names (Γ.declare xs) (Γ'.declare ys) := by
  refine ⟨h.larger.declare hxs, h.component, fun x hx hmem => ?_, h.declares, h.declares'⟩
  rcases mem_append.mp hmem with hmem | hmem
  · exact absurd hx (hys hmem)
  · exact mem_append_right _ (h.new x hx hmem)

lemma function (h : Widens G G' names Γ Γ') (locals : List YulString) :
    Widens G G' names' ⟨locals, Γ.functions, .none⟩ ⟨locals, Γ'.functions, .none⟩ :=
  ⟨⟨List.Subset.refl _, h.larger.functions⟩, fun _ => rfl, fun _ _ hx => hx, h.declares, h.declares'⟩

lemma register_left (hT : G.Maps (·.dissolve k) G') (h : Widens G G' names Γ Γ') {ss : Block}
    (hG : G.Holds (functionDefinitions ss)) (hsees : Γ'.Sees (dissolveStatements k ss)) :
    Widens G G' names (Γ.register ss) Γ' := by
  have hdeclares := h.declares.register hG
  refine ⟨⟨?_, fun f n hf => ?_⟩, ?_, h.new.of_locals locals_register rfl, hdeclares,
    h.declares'⟩
  · rw [locals_register]
    exact h.larger.locals
  · refine lookup_eq_of_declares hT hdeclares h.declares' hf ?_
    rw [register_eq, lookup_append, Option.or_eq_some_iff] at hf
    rcases hf with hf | ⟨-, hf⟩
    · obtain ⟨l₁, l₂, heq, -⟩ := lookup_eq_some_iff.mp hf
      have hmem : (f, n) ∈ visibleFunctions ss := heq ▸ mem_append_right _ mem_cons_self
      obtain ⟨p, hp, heq⟩ := mem_map.mp hmem
      obtain ⟨d, hd⟩ := definitions_subset_dissolve (k := k) ss hp
      cases heq
      exact hsees (p.1, d) hd
    · rw [h.larger.functions f n hf]
      rfl
  · rw [register_eq]
    exact h.component

lemma register (hT : G.Maps (·.dissolve k) G') (h : Widens G G' names Γ Γ') {ss : Block}
    (hG : G.Holds (functionsOfStatements ss)) :
    Widens G G' names (Γ.register ss) (Γ'.register (dissolveStatements k ss)) := by
  have hG' : G'.Holds (functionDefinitions (dissolveStatements k ss)) :=
    (holds_dissolve hT hG).subset (definitions_subset _)
  have hright : Widens G G' names Γ (Γ'.register (dissolveStatements k ss)) := by
    refine ⟨h.larger.trans (h.declares'.extends_register hG'), fun hne => ?_,
      h.new.of_locals rfl locals_register, h.declares, h.declares'.register hG'⟩
    rw [register_eq]
    exact h.component hne
  exact hright.register_left hT (hG.subset (definitions_subset ss))
    (sees_register _ _)

end DissolvedScopes.Widens

lemma Scope.Sees.left {ss ts : List Statement} (h : Γ.Sees (ss ++ ts)) : Γ.Sees ss := fun p hp =>
  h p (by rw [definitions_append]; exact mem_append_left _ hp)

lemma Scope.Sees.right {ss ts : List Statement} (h : Γ.Sees (ss ++ ts)) : Γ.Sees ts := fun p hp =>
  h p (by rw [definitions_append]; exact mem_append_right _ hp)

lemma blockValid_dissolve_of (hT : G.Maps (·.dissolve k) G') {ss : Block}
    (hss : ∀ {Γ Γ' : Scope}, DissolvedScopes.Widens G G' (namesOfStatements ss) Γ Γ' →
      Γ'.Sees (dissolveStatements k ss) → statementsValid dialect Γ ss →
        statementsValid dialect Γ' (dissolveStatements k ss))
    (h : DissolvedScopes.Widens G G' (namesOfStatements ss) Γ Γ')
    (hG : G.Holds (functionsOfStatements ss))
    (hvalid : statementsValid dialect (Γ.register ss) ss) :
    statementsValid dialect (Γ'.register (dissolveStatements k ss)) (dissolveStatements k ss) =
      true :=
  hss (h.register hT hG) (sees_register _ _) hvalid

lemma Expression.valid_of_widens {e : Expression} (h : DissolvedScopes.Widens G G' names Γ Γ')
    {n : Nat} (hvalid : e.valid dialect Γ) (hn : e.returns dialect Γ = n) :
    e.valid dialect Γ' ∧ e.returns dialect Γ' = n := by
  obtain ⟨hvalid', hreturns⟩ := e.valid_of_extends h.larger hvalid
  exact ⟨hvalid', hreturns.trans hn⟩

mutual

lemma valid_dissolve (hT : G.Maps (·.dissolve k) G') (s : Statement) {Γ Γ' : Scope}
    (h : DissolvedScopes.Widens G G' s.names Γ Γ') (hnodup : s.names.Nodup)
    (hG : G.Holds s.functions) (hsees : Γ'.Sees (s.dissolve k))
    (hvalid : s.valid dialect Γ) : statementsValid dialect Γ' (s.dissolve k) := by
  match s with
  | .expressionStatement e =>
    rw [valid_expression, and_eq_true, decide_eq_true_eq] at hvalid
    obtain ⟨he, hreturns⟩ := valid_of_widens h hvalid.1 hvalid.2
    simp [Statement.dissolve, valid_expression, he, hreturns]
  | .assignment xs e =>
    rw [valid_assignment, and_eq_true, and_eq_true, decide_eq_true_eq,
      all_eq_true] at hvalid
    obtain ⟨he, hreturns⟩ := valid_of_widens h hvalid.1.2 hvalid.2
    have hxs : xs.all (fun x => decide (x ∈ Γ'.locals)) = true := by
      refine all_eq_true.mpr fun x hx => decide_eq_true ?_
      exact h.larger.locals (of_decide_eq_true (hvalid.1.1 x hx))
    simp [Statement.dissolve, valid_assignment, he, hreturns, hxs]
  | .variableDeclaration xs value =>
    rw [valid_declaration, and_eq_true, and_eq_true, all_eq_true] at hvalid
    have hdissolve : (Statement.variableDeclaration xs value).dissolve k =
      [.variableDeclaration xs value] := rfl
    rw [hdissolve, statementsValid, statementsValid, Bool.and_true,
      valid_declaration, and_eq_true, and_eq_true, all_eq_true]
    refine ⟨⟨hvalid.1.1, fun x hx => decide_eq_true fun hmem => ?_⟩,
      valueValid_of_extends h.larger hvalid.2⟩
    exact of_decide_eq_true (hvalid.1.2 x hx) (h.new x.name (mem_map_of_mem hx) hmem)
  | .functionDefinition f ps rs body =>
    rw [valid_function, and_eq_true, and_eq_true, decide_eq_true_eq] at hvalid
    have hG' : G.Holds (functionsOfStatements body) := hG.subset (subset_cons_self _ _)
    rw [Statement.dissolve, statementsValid, statementsValid, Bool.and_true,
      valid_function, and_eq_true, and_eq_true, decide_eq_true_eq,
      h.component hvalid.1.1]
    refine ⟨hvalid.1, blockValid_dissolve_of hT (fun h => ?_) (h.function _) hG' hvalid.2⟩
    exact statementsValid_dissolve hT body h hnodup.of_append_right hG'
  | .if c body =>
    rw [valid_if, and_eq_true, and_eq_true, decide_eq_true_eq] at hvalid
    obtain ⟨hc, hreturns⟩ := valid_of_widens h hvalid.1.1 hvalid.1.2
    have hbody := blockValid_dissolve_of hT
      (fun h => statementsValid_dissolve hT body h hnodup hG) h hG hvalid.2
    simp [Statement.dissolve, valid_if, hc, hreturns, hbody]
  | .switch e cases =>
    rw [valid_switch, and_eq_true, and_eq_true, decide_eq_true_eq] at hvalid
    obtain ⟨he, hreturns⟩ := valid_of_widens h hvalid.1.1 hvalid.1.2
    have hcases := casesValid_dissolve hT cases h hnodup hG hvalid.2
    simp [Statement.dissolve, valid_switch, he, hreturns, hcases]
  | .forLoop pre c post body =>
    simp only [valid_forLoop, and_eq_true, decide_eq_true_eq] at hvalid
    obtain ⟨⟨⟨⟨hpre, hc⟩, hreturns⟩, hpost⟩, hbody⟩ := hvalid
    have hpreNodup := hnodup.of_append_left.of_append_left
    have hdisjoint := disjoint_of_nodup_append hnodup
    have hinner : DissolvedScopes.Widens G G' (namesOfStatements body ++ namesOfStatements post)
        (Γ.declare (pre.flatMap (·.declares)))
        (Γ'.declare ((dissolveStatements k pre).flatMap (·.declares))) := by
      refine DissolvedScopes.Widens.declare (h.mono fun x hx => ?_)
        (flatMap_declares_subset_dissolve pre) fun x hx hmem => ?_
      · rw [Statement.names]
        simp only [mem_append] at hx ⊢
        tauto
      · have hx' := declares_dissolveStatements_subset_names pre hx
        rcases mem_append.mp hmem with hmem | hmem
        · exact disjoint_of_nodup_append hnodup.of_append_left hx' hmem
        · exact hdisjoint (mem_append_left _ hx') hmem
    obtain ⟨hc', hreturns'⟩ := valid_of_widens hinner hc hreturns
    have hpost' := blockValid_dissolve_of hT
      (fun h => statementsValid_dissolve hT post h hnodup.of_append_right hG.right)
      ((hinner.mono (subset_append_right _ _)).enter .forLoopPost) hG.right hpost
    have hbody' := blockValid_dissolve_of hT
      (fun h => statementsValid_dissolve hT body h hnodup.of_append_left.of_append_right
        hG.left.right)
      ((hinner.mono (subset_append_left _ _)).enter .forLoopBody) hG.left.right hbody
    have hwidens : DissolvedScopes.Widens G G' (namesOfStatements pre) Γ Γ' := by
      refine h.mono fun x hx => ?_
      exact mem_append_left _ (mem_append_left _ hx)
    rw [Statement.dissolve] at hsees ⊢
    split_ifs at hsees ⊢
    · refine statementsValid_append_iff.mpr ⟨statementsValid_dissolve hT pre hwidens.enter_left
        hpreNodup hG.left.left hsees.left hpre, ?_⟩
      rw [statementsValid, valid_forLoop_nil, hc', hreturns', hpost', hbody']
      rfl
    · have hnil := definitions_dissolveStatements_eq_nil (k := k) pre rfl hpre
      have hpre' := statementsValid_dissolve hT pre (hwidens.enter .forLoopPre) hpreNodup
        hG.left.left (fun p hp => by rw [hnil] at hp; cases hp) hpre
      rw [statementsValid, valid_forLoop, hpre', hc', hreturns', hpost', hbody']
      rfl
  | .break =>
    have hcomponent : Γ.component = .forLoopBody := of_decide_eq_true hvalid
    have heq := h.component (by rw [hcomponent]; nofun)
    exact and_eq_true_iff.mpr ⟨decide_eq_true (heq.trans hcomponent), rfl⟩
  | .continue =>
    have hcomponent : Γ.component = .forLoopBody := of_decide_eq_true hvalid
    have heq := h.component (by rw [hcomponent]; nofun)
    exact and_eq_true_iff.mpr ⟨decide_eq_true (heq.trans hcomponent), rfl⟩
  | .block ss =>
    rw [Statement.dissolve] at hsees ⊢
    split_ifs at hsees ⊢
    · exact statementsValid_dissolve hT ss
        (h.register_left hT (hG.subset (definitions_subset ss)) hsees) hnodup hG hsees hvalid
    · have hblock := blockValid_dissolve_of hT
        (fun h => statementsValid_dissolve hT ss h hnodup hG) h hG hvalid
      rw [statementsValid, valid_block, hblock]
      rfl

lemma statementsValid_dissolve (hT : G.Maps (·.dissolve k) G') (ss : List Statement)
    {Γ Γ' : Scope} (h : DissolvedScopes.Widens G G' (namesOfStatements ss) Γ Γ')
    (hnodup : (namesOfStatements ss).Nodup) (hG : G.Holds (functionsOfStatements ss))
    (hsees : Γ'.Sees (dissolveStatements k ss)) (hvalid : statementsValid dialect Γ ss) :
    statementsValid dialect Γ' (dissolveStatements k ss) := by
  match ss with
  | [] => rfl
  | s :: ss =>
    rw [statementsValid, and_eq_true] at hvalid
    rw [dissolveStatements] at hsees ⊢
    refine statementsValid_append_iff.mpr ⟨valid_dissolve hT s
      (h.mono (subset_append_left _ _)) hnodup.of_append_left hG.left hsees.left hvalid.1, ?_⟩
    refine statementsValid_dissolve hT ss ((h.mono (subset_append_right _ _)).declare
      (declares_subset_dissolve s) fun x hx hmem => ?_) hnodup.of_append_right hG.right ?_ hvalid.2
    · exact disjoint_of_nodup_append hnodup (declares_dissolve_subset_names s hx) hmem
    · exact hsees.right

lemma casesValid_dissolve (hT : G.Maps (·.dissolve k) G') (cs : List Case) {Γ Γ' : Scope}
    (h : DissolvedScopes.Widens G G' (namesOfCases cs) Γ Γ') (hnodup : (namesOfCases cs).Nodup)
    (hG : G.Holds (functionsOfCases cs)) (hvalid : casesValid dialect Γ cs) :
    casesValid dialect Γ' (dissolveCases k cs) := by
  match cs with
  | [] => rfl
  | .mk value body :: cs =>
    rw [casesValid, and_eq_true, and_eq_true] at hvalid
    have hbody := blockValid_dissolve_of hT
      (fun h => statementsValid_dissolve hT body h hnodup.of_append_left hG.left)
      (h.mono (subset_append_left _ _)) hG.left hvalid.1.2
    rw [dissolveCases, casesValid, hvalid.1.1, hbody, casesValid_dissolve hT cs
      (h.mono (subset_append_right _ _)) hnodup.of_append_right hG.right hvalid.2]
    rfl

end

end

/-- Dissolving scopes keeps programs disambiguated and keeps their runs. -/
theorem sameRuns_dissolve (k : DissolvedScopes) {dialect : Dialect} {ss : Block}
    (hss : Block.Disambiguated dialect ss) :
    Block.Disambiguated dialect (dissolveStatements k ss) ∧
      ∀ (World : Type) (env : Environment World),
        SameRuns env dialect ss (dissolveStatements k ss) := by
  have hmaps := mapsFunctions_dissolve k hss.uniqueFunctions
  have hvalid : Block.valid dialect (dissolveStatements k ss) = true := by
    refine blockValid_dissolve_of hmaps.maps (fun h => ?_) ⟨Scope.Extends.refl _, fun _ => rfl,
      fun _ _ => id, .empty _, .empty _⟩ hmaps.holds hss.valid
    exact statementsValid_dissolve hmaps.maps ss h hss.nodup hmaps.holds
  refine ⟨⟨hvalid, by rw [namesOfStatements_dissolve]; exact hss.nodup⟩, fun World env => ?_⟩
  refine hmaps.sameRuns (A := Visibly [] []) hss.valid hvalid ?_ ?_
  · intro I I' hd hI p hp vs m
    obtain ⟨Γ, hΓ⟩ := exists_validIn_of_mem_functionsOfStatements ss hss.valid hp
    subst hd
    exact run_dissolve hmaps.maps hI p.2 hΓ
      (hmaps.holds.subset (functionsOfStatements_trans ss hp)) vs m
  · intro I I' hd hI m
    subst hd
    refine execBlock_dissolve_of hmaps.maps (Γ := .empty) (fun V V' m hV => ?_) hmaps.holds
      (.nil _ _) m
    exact execStatements_dissolve hmaps.maps hI ss hss.valid hmaps.holds hV m

end Yul
