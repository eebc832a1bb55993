import Polc.Yul.Optimiser.DissolvedScopes
import Polc.Yul.Optimiser.Prerequisites

/-!
# The function hoister

`libyul/optimiser/FunctionHoister.cpp`: all functions are moved to the end of the program, and empty
blocks are removed.
-/

namespace Yul

open Sof Semantics List Result Scope Bool

def Statement.isEmptyBlock : Statement → Bool
  | .block [] => true
  | _ => false

/-- `removeEmptyBlocks` of `libyul/optimiser/OptimizerUtilities.cpp`. -/
def removeEmptyBlocks (ss : Block) : Block := ss.filter fun s => !s.isEmptyBlock

namespace FunctionHoister

mutual

/-- What a statement is after the visit. -/
def hoistStatement : Statement → Statement
  | .functionDefinition f ps rs body => .functionDefinition f ps rs (removeEmptyBlocks (hoist body))
  | .if c body => .if c (removeEmptyBlocks (hoist body))
  | .switch e cases => .switch e (hoistCases cases)
  | .forLoop pre c post body =>
    .forLoop (removeEmptyBlocks (hoist pre)) c (removeEmptyBlocks (hoist post))
      (removeEmptyBlocks (hoist body))
  | .block ss => .block (removeEmptyBlocks (hoist ss))
  | s => s

/-- What the statements of a block are after the visit: an empty block in place of a function. -/
def hoist : List Statement → List Statement
  | [] => []
  | s :: ss => (if s.isFunctionDefinition then .block [] else hoistStatement s) :: hoist ss

def hoistCases : List Case → List Case
  | [] => []
  | .mk value body :: cs => .mk value (removeEmptyBlocks (hoist body)) :: hoistCases cs

end

mutual

/-- The functions that the visit of a statement collects in `m_functions`, in order. -/
def functions : Statement → List Statement
  | .functionDefinition _ _ _ body => functionsIn body
  | .if _ body => functionsIn body
  | .switch _ cases => functionsInCases cases
  | .forLoop pre _ post body => functionsIn pre ++ functionsIn post ++ functionsIn body
  | .block ss => functionsIn ss
  | _ => []

/-- The functions that the visit of the statements of a block collects: those in a statement, and
then the statement itself if it is a function. -/
def functionsIn : List Statement → List Statement
  | [] => []
  | s :: ss =>
    functions s ++ (if s.isFunctionDefinition then [hoistStatement s] else []) ++ functionsIn ss

def functionsInCases : List Case → List Statement
  | [] => []
  | .mk _ body :: cs => functionsIn body ++ functionsInCases cs

end

/-- Run the step on a program. -/
def run (ss : Block) : Block := removeEmptyBlocks (hoist ss) ++ functionsIn ss

/-- The function afterwards. -/
def hoistFunction (d : FunctionDefinition) : FunctionDefinition :=
  ⟨d.parameters, d.returnVariables, removeEmptyBlocks (hoist d.body)⟩

end FunctionHoister

/-! ### Lists of function definitions -/

section

variable {World : Type} {I : Interpreter World} {F : Functions} {V : Variables}
  {m : SvmState World} {ss fs : List Statement}

lemma exec_append_functions (h : ∀ s ∈ fs, s.isFunctionDefinition) :
    execStatements I F V (ss ++ fs) m = execStatements I F V ss m := by
  have hfs (V : Variables) (m : SvmState World) :
      execStatements I F V fs m = .ok (.default, V) m := by
    induction fs with
    | nil => rfl
    | cons s fs ih =>
      have hs := h s mem_cons_self
      cases s with
      | functionDefinition f ps rs body =>
        rw [execStatements_cons, exec_function, bind_ok, if_pos rfl]
        exact ih fun s hs => h s (mem_cons_of_mem _ hs)
      | _ => cases hs
  rw [execStatements_append]
  cases execStatements I F V ss m with
  | ok r m₁ =>
    obtain ⟨l, W⟩ := r
    by_cases hl : l = .default
    · rw [bind_ok, hl, if_pos rfl, hfs]
    · rw [bind_ok, if_neg hl]
  | halt h m₁ => rfl
  | timeout => rfl

lemma eq_of_isEmptyBlock {s : Statement} (h : s.isEmptyBlock) : s = .block [] := by
  cases s with
  | block ts =>
    cases ts with
    | nil => rfl
    | cons t ts => cases h
  | _ => cases h

lemma removeEmpty_cons (s : Statement) (ss : Block) :
    removeEmptyBlocks (s :: ss) =
      if s.isEmptyBlock then removeEmptyBlocks ss else s :: removeEmptyBlocks ss := by
  rw [removeEmptyBlocks, filter_cons]
  cases s.isEmptyBlock <;> rfl

lemma exec_removeEmptyBlocks (ss : Block) :
    execStatements I F V (removeEmptyBlocks ss) m = execStatements I F V ss m := by
  induction ss generalizing V m with
  | nil => rfl
  | cons s ss ih =>
    rw [removeEmpty_cons]
    split_ifs with hs
    · rw [eq_of_isEmptyBlock hs, execStatements_cons, exec_block, execBlock_nil, bind_ok,
        if_pos rfl]
      exact ih
    · rw [execStatements_cons, execStatements_cons]
      exact bind_congr _ fun r m₁ _ => by rw [ih]

lemma functions_removeEmptyBlocks (ss : Block) :
    functionsOfStatements (removeEmptyBlocks ss) = functionsOfStatements ss := by
  induction ss with
  | nil => rfl
  | cons s ss ih =>
    rw [removeEmpty_cons, functionsOfStatements]
    split_ifs with hs
    · rw [eq_of_isEmptyBlock hs, ih]
      rfl
    · rw [functionsOfStatements, ih]

lemma names_removeEmptyBlocks (ss : Block) :
    namesOfStatements (removeEmptyBlocks ss) = namesOfStatements ss := by
  induction ss with
  | nil => rfl
  | cons s ss ih =>
    rw [removeEmpty_cons, namesOfStatements]
    split_ifs with hs
    · rw [eq_of_isEmptyBlock hs, ih]
      rfl
    · rw [namesOfStatements, ih]

lemma flatMap_declares_removeEmpty (ss : Block) :
    (removeEmptyBlocks ss).flatMap (·.declares) = ss.flatMap (·.declares) := by
  induction ss with
  | nil => rfl
  | cons s ss ih =>
    rw [removeEmpty_cons, flatMap_cons]
    split_ifs with hs
    · rw [eq_of_isEmptyBlock hs, ih]
      rfl
    · rw [flatMap_cons, ih]

lemma statementsValid_removeEmpty {dialect : Dialect} {ss : Block} {Γ : Scope}
    (h : statementsValid dialect Γ ss) :
    statementsValid dialect Γ (removeEmptyBlocks ss) := by
  induction ss generalizing Γ with
  | nil => rfl
  | cons s ss ih =>
    rw [statementsValid, and_eq_true] at h
    rw [removeEmpty_cons]
    split_ifs with hs
    · rw [eq_of_isEmptyBlock hs] at h
      exact ih h.2
    · rw [statementsValid, h.1, ih h.2]
      rfl

end

namespace FunctionHoister

/-! ### Names and functions -/

mutual

lemma functions_hoistStatement (s : Statement) (hs : s.isFunctionDefinition = false) :
    (hoistStatement s).functions = [] := by
  match s with
  | .expressionStatement _ | .assignment _ _ | .variableDeclaration _ _ | .break | .continue => rfl
  | .functionDefinition f ps rs body => cases hs
  | .if c body => exact functions_hoist body
  | .switch e cases => exact functionsOfCases_hoistCases cases
  | .forLoop pre c post body =>
    rw [hoistStatement, Statement.functions, functions_hoist pre,
      functions_hoist post, functions_hoist body]
    rfl
  | .block ss => exact functions_hoist ss

lemma functions_hoist (ss : List Statement) :
    functionsOfStatements (removeEmptyBlocks (hoist ss)) = [] := by
  rw [functions_removeEmptyBlocks]
  match ss with
  | [] => rfl
  | s :: ss =>
    have hss := functions_hoist ss
    rw [functions_removeEmptyBlocks] at hss
    rw [hoist, functionsOfStatements, hss]
    split_ifs with hs
    · rfl
    · rw [functions_hoistStatement s (eq_false_of_not_eq_true hs)]
      rfl

lemma functionsOfCases_hoistCases (cs : List Case) : functionsOfCases (hoistCases cs) = [] := by
  match cs with
  | [] => rfl
  | .mk value body :: cs =>
    rw [hoistCases, functionsOfCases, functions_hoist body,
      functionsOfCases_hoistCases cs]
    rfl

end

mutual

lemma functions_perm (s : Statement) :
    (functionsOfStatements
      (functions s ++ if s.isFunctionDefinition then [hoistStatement s] else [])).Perm
      (s.functions.map fun p => (p.1, hoistFunction p.2)) := by
  match s with
  | .expressionStatement _ | .assignment _ _ | .variableDeclaration _ _ | .break | .continue =>
    exact .refl _
  | .functionDefinition f ps rs body =>
    have hs : (Statement.functionDefinition f ps rs body).isFunctionDefinition = true := rfl
    rw [functions_append, if_pos hs, functions_singleton, hoistStatement,
      Statement.functions, functions_hoist, Statement.functions, map_cons]
    exact (perm_append_singleton _ _).trans ((functionsIn_perm body).cons _)
  | .if c body =>
    rw [if_neg (by rintro ⟨⟩), append_nil]
    exact functionsIn_perm body
  | .switch e cases =>
    rw [if_neg (by rintro ⟨⟩), append_nil]
    exact functionsInCases_perm cases
  | .forLoop pre c post body =>
    rw [if_neg (by rintro ⟨⟩), append_nil, functions, functions_append,
      functions_append, Statement.functions, map_append, map_append,
      append_assoc, append_assoc]
    exact (functionsIn_perm pre).append
      (((functionsIn_perm post).append (functionsIn_perm body)).trans perm_append_comm)
  | .block ss =>
    rw [if_neg (by rintro ⟨⟩), append_nil]
    exact functionsIn_perm ss

lemma functionsIn_perm (ss : List Statement) :
    (functionsOfStatements (functionsIn ss)).Perm
      ((functionsOfStatements ss).map fun p => (p.1, hoistFunction p.2)) := by
  match ss with
  | [] => exact .refl _
  | s :: ss =>
    rw [functionsIn, functions_append, functionsOfStatements, map_append]
    exact (functions_perm s).append (functionsIn_perm ss)

lemma functionsInCases_perm (cs : List Case) :
    (functionsOfStatements (functionsInCases cs)).Perm
      ((functionsOfCases cs).map fun p => (p.1, hoistFunction p.2)) := by
  match cs with
  | [] => exact .refl _
  | .mk value body :: cs =>
    rw [functionsInCases, functions_append, functionsOfCases, map_append]
    exact (functionsIn_perm body).append (functionsInCases_perm cs)

end

lemma mapsFunctions_run {ss : Block} (hss : Block.UniqueFunctions ss) :
    Block.MapsFunctions hoistFunction ss (run ss) := by
  refine ⟨hss, ?_⟩
  rw [run, functions_append, functions_hoist, nil_append]
  exact functionsIn_perm ss

mutual

lemma count_names (s : Statement) (x : YulString) :
    (hoistStatement s).names.count x + (namesOfStatements (functions s)).count x =
      s.names.count x := by
  match s with
  | .expressionStatement _ | .assignment _ _ | .variableDeclaration _ _ | .break | .continue => rfl
  | .functionDefinition f ps rs body =>
    have hbody := count_namesOfStatements body x
    simp only [hoistStatement, functions, Statement.names, count_append, count_cons,
      names_removeEmptyBlocks] at hbody ⊢
    omega
  | .if c body =>
    have hbody := count_namesOfStatements body x
    simpa only [hoistStatement, functions, Statement.names,
      names_removeEmptyBlocks] using hbody
  | .switch e cases => exact count_namesOfCases cases x
  | .forLoop pre c post body =>
    have hpre := count_namesOfStatements pre x
    have hpost := count_namesOfStatements post x
    have hbody := count_namesOfStatements body x
    simp only [hoistStatement, functions, Statement.names, count_append,
      names_removeEmptyBlocks, names_append]
    omega
  | .block ss =>
    have hss := count_namesOfStatements ss x
    simpa only [hoistStatement, functions, Statement.names,
      names_removeEmptyBlocks] using hss

lemma count_namesOfStatements (ss : List Statement) (x : YulString) :
    (namesOfStatements (hoist ss)).count x + (namesOfStatements (functionsIn ss)).count x =
      (namesOfStatements ss).count x := by
  match ss with
  | [] => rfl
  | s :: ss =>
    have hs := count_names s x
    have hss := count_namesOfStatements ss x
    rw [hoist, functionsIn, namesOfStatements, namesOfStatements, names_append,
      names_append]
    split_ifs
    · rw [names_singleton]
      simp only [count_append, Statement.names, namesOfStatements, count_nil]
      omega
    · simp only [count_append, namesOfStatements, count_nil]
      omega

lemma count_namesOfCases (cs : List Case) (x : YulString) :
    (namesOfCases (hoistCases cs)).count x + (namesOfStatements (functionsInCases cs)).count x =
      (namesOfCases cs).count x := by
  match cs with
  | [] => rfl
  | .mk value body :: cs =>
    have hbody := count_namesOfStatements body x
    have hcs := count_namesOfCases cs x
    simp only [hoistCases, functionsInCases, namesOfCases, count_append,
      names_removeEmptyBlocks, names_append]
    omega

end

lemma names_run_perm (ss : Block) : (namesOfStatements (run ss)).Perm (namesOfStatements ss) := by
  refine perm_iff_count.mpr fun x => ?_
  rw [run, names_append, count_append, names_removeEmptyBlocks]
  exact count_namesOfStatements ss x

/-! ### Executions -/

section

variable {World : Type} {p q : Prop} {G G' : Functions} {I I' : Interpreter World}

lemma execBlock_hoist_of {ss : Block}
    (hss : ∀ V m, Result.Sim p q Eq (Outcome fun _ => Eq) (execStatements I G V ss m)
      (execStatements I' G' V (hoist ss) m)) (hG : G.Holds (functionsOfStatements ss))
    (V : Variables) (m : SvmState World) :
    Result.Sim p q Eq (Outcome fun _ => Eq) (execBlock I G V ss m)
      (execBlock I' G' V (removeEmptyBlocks (hoist ss)) m) := by
  have hG' : G'.Holds (functionsOfStatements (removeEmptyBlocks (hoist ss))) := by
    rw [functions_hoist]
    exact nofun
  refine execBlock_simAt hG hG' ?_ fun _ _ _ hW => congrArg V.restrict hW
  rw [exec_removeEmptyBlocks]
  exact hss V m

mutual

lemma exec_hoistStatement (hI : I.SimAt p q G G' I') (s : Statement) (hG : G.Holds s.functions)
    (V : Variables) (m : SvmState World) :
    Result.Sim p q Eq (Outcome fun _ => Eq) (s.exec I G V m)
      ((hoistStatement s).exec I' G' V m) := by
  match s with
  | .expressionStatement e =>
    exact (hI.eval e (fun _ _ => rfl) m).map fun _ _ _ => ⟨rfl, rfl⟩
  | .assignment xs e =>
    refine (hI.eval e (fun _ _ => rfl) m).map ?_
    rintro vs _ rfl
    exact ⟨rfl, rfl⟩
  | .variableDeclaration xs value =>
    refine (hI.evaluateMulti value (fun _ _ _ _ => rfl) m).map ?_
    rintro vs _ rfl
    exact ⟨rfl, rfl⟩
  | .functionDefinition f ps rs body => exact .ok ⟨rfl, rfl⟩ rfl
  | .if c body =>
    exact exec_if_sim (hI.evaluate c (fun _ _ => rfl) m)
      (execBlock_hoist_of (exec_hoist hI body hG) hG V) rfl
  | .switch e cases =>
    exact exec_switch_sim (hI.evaluate e (fun _ _ => rfl) m) (execCases_hoistCases hI cases hG V)
  | .forLoop pre c post body =>
    rw [hoistStatement, exec_forLoop, exec_forLoop, exec_removeEmptyBlocks]
    refine closeScope_sim (A := fun _ => Eq) ?_ fun _ _ _ hW => congrArg V.restrict hW
    refine (exec_hoist hI pre hG.left.left V m).bind ?_
    rintro ⟨l, W⟩ ⟨_, _⟩ m₁ _ - - ⟨rfl, rfl⟩ rfl
    refine (exec_loop_sim (A := Eq) (B := fun _ => Eq) (C := Eq) hI.fuel ?_ ?_ ?_ ?_ ?_ rfl
      m₁).map fun W W' hW => ⟨rfl, hW⟩
    · rintro W _ m rfl
      exact hI.evaluate c (fun _ _ => rfl) m
    · exact fun _ _ => id
    · rintro W _ m rfl
      exact execBlock_hoist_of (exec_hoist hI body hG.left.right) hG.left.right W m
    · exact fun _ _ => id
    · rintro l W _ m - rfl
      exact execBlock_hoist_of (exec_hoist hI post hG.right) hG.right W m
  | .break | .continue => exact .ok ⟨rfl, rfl⟩ rfl
  | .block ss => exact execBlock_hoist_of (exec_hoist hI ss hG) hG V m

lemma exec_hoist (hI : I.SimAt p q G G' I') (ss : List Statement)
    (hG : G.Holds (functionsOfStatements ss)) (V : Variables) (m : SvmState World) :
    Result.Sim p q Eq (Outcome fun _ => Eq) (execStatements I G V ss m)
      (execStatements I' G' V (hoist ss) m) := by
  match ss with
  | [] => exact .ok ⟨rfl, rfl⟩ rfl
  | s :: ss =>
    have hs : Result.Sim p q Eq (Outcome fun _ => Eq) (s.exec I G V m)
        ((if s.isFunctionDefinition then .block [] else hoistStatement s).exec I' G' V m) := by
      split_ifs with hs
      · cases s with
        | functionDefinition f ps rs body =>
          rw [exec_function, exec_block, execBlock_nil]
          exact .ok ⟨rfl, rfl⟩ rfl
        | _ => cases hs
      · exact exec_hoistStatement hI s hG.left V m
    rw [← exec_singleton (F := G')] at hs
    refine exec_cons_sim hs ?_ (fun _ _ _ _ => id)
    rintro W _ m₁ rfl
    exact exec_hoist hI ss hG.right W m₁

lemma execCases_hoistCases (hI : I.SimAt p q G G' I') (cs : List Case)
    (hG : G.Holds (functionsOfCases cs)) (V : Variables) (v : Word) (m : SvmState World) :
    Result.Sim p q Eq (Outcome fun _ => Eq) (execCases I G V v cs m)
      (execCases I' G' V v (hoistCases cs) m) := by
  match cs with
  | [] => exact .ok ⟨rfl, rfl⟩ rfl
  | .mk value body :: cs =>
    exact execCases_cons_sim
      (execBlock_hoist_of (exec_hoist hI body hG.left) hG.left V m)
      (execCases_hoistCases hI cs hG.right V v m)

end

lemma run_hoistFunction (hI : I.SimAt p q G G' I') (d : FunctionDefinition)
    (hG : G.Holds (functionsOfStatements d.body)) (vs : List Word) (m : SvmState World) :
    Result.Sim p q Eq Eq (d.run I G vs m) ((hoistFunction d).run I' G' vs m) := by
  refine (execBlock_hoist_of (exec_hoist hI d.body hG) hG (d.variables vs) m).map ?_
  rintro ⟨l, W⟩ ⟨_, _⟩ ⟨rfl, rfl⟩
  rfl

end

/-! ### Validity -/

section

variable {dialect : Dialect} {G : Functions} {fs : List (YulString × Nat × Nat)}

/-- The functions that are visible everywhere afterwards. -/
def Complete (G : Functions) (fs : List (YulString × Nat × Nat)) : Prop :=
  ∀ f d, G f = some d → fs.lookup f = some d.arity

/-- The scope with these functions. -/
def withFunctions (Γ : Scope) (fs : List (YulString × Nat × Nat)) : Scope :=
  { Γ with functions := fs }

lemma extends_withFunctions (hfs : Complete G fs) {Γ : Scope} (hΓ : G.Declares Γ) :
    Γ.Extends (withFunctions Γ fs) := by
  refine ⟨List.Subset.refl _, fun f n hf => ?_⟩
  obtain ⟨d, hd, rfl⟩ := Option.map_eq_some_iff.mp (hΓ f n hf)
  exact hfs f d hd

lemma register_hoist (Γ : Scope) (ss : Block) :
    (withFunctions Γ fs).register (removeEmptyBlocks (hoist ss)) =
      withFunctions (Γ.register ss) fs := by
  have hnil : functionDefinitions (removeEmptyBlocks (hoist ss)) = [] := by
    refine eq_nil_iff_forall_not_mem.mpr fun p hp => ?_
    have hmem := definitions_subset _ hp
    rw [functions_hoist] at hmem
    cases hmem
  rw [register_eq, register_eq, visibleFunctions, hnil]
  rfl

lemma blockValid_hoist_of {ss : Block}
    (hss : ∀ {Γ : Scope}, G.Declares Γ → statementsValid dialect Γ ss →
      statementsValid dialect (withFunctions Γ fs) (hoist ss))
    (hG : G.Holds (functionsOfStatements ss)) {Γ : Scope} (hΓ : G.Declares Γ)
    (h : statementsValid dialect (Γ.register ss) ss) :
    statementsValid dialect ((withFunctions Γ fs).register (removeEmptyBlocks (hoist ss)))
      (removeEmptyBlocks (hoist ss)) := by
  rw [register_hoist]
  exact statementsValid_removeEmpty
    (hss (hΓ.register (hG.subset (definitions_subset ss))) h)

lemma flatMap_declares_hoist (ss : List Statement) :
    (removeEmptyBlocks (hoist ss)).flatMap (·.declares) = ss.flatMap (·.declares) := by
  rw [flatMap_declares_removeEmpty]
  induction ss with
  | nil => rfl
  | cons s ss ih =>
    rw [hoist, flatMap_cons, flatMap_cons, ih]
    cases s <;> rfl

mutual

lemma valid_hoist (hfs : Complete G fs) (s : Statement) {Γ : Scope} (hΓ : G.Declares Γ)
    (hG : G.Holds s.functions) (h : s.valid dialect Γ) :
    (hoistStatement s).valid dialect (withFunctions Γ fs) := by
  have hlarger := extends_withFunctions hfs hΓ
  match s with
  | .expressionStatement _ | .assignment _ _ | .variableDeclaration _ _ | .break | .continue =>
    exact Statement.valid_of_extends _ hlarger rfl (fun _ _ hx => hx) h
  | .functionDefinition f ps rs body =>
    have hG' : G.Holds (functionsOfStatements body) := hG.subset (subset_cons_self _ _)
    rw [valid_function, and_eq_true] at h
    rw [hoistStatement, valid_function, and_eq_true]
    exact ⟨h.1, blockValid_hoist_of
      (fun hΓ => statementsValid_hoist hfs body hΓ hG') hG' (hΓ.function _) h.2⟩
  | .if c body =>
    rw [valid_if, and_eq_true, and_eq_true, decide_eq_true_eq] at h
    obtain ⟨hc, hreturns⟩ := c.valid_of_extends hlarger h.1.1
    have hbody := blockValid_hoist_of
      (fun hΓ => statementsValid_hoist hfs body hΓ hG) hG hΓ h.2
    rw [hoistStatement, valid_if, hc, hreturns, h.1.2, hbody]
    rfl
  | .switch e cases =>
    rw [valid_switch, and_eq_true, and_eq_true, decide_eq_true_eq] at h
    obtain ⟨he, hreturns⟩ := e.valid_of_extends hlarger h.1.1
    rw [hoistStatement, valid_switch, he, hreturns, h.1.2,
      casesValid_hoistCases hfs cases hΓ hG h.2]
    rfl
  | .forLoop pre c post body =>
    simp only [valid_forLoop, and_eq_true, decide_eq_true_eq] at h
    obtain ⟨⟨⟨⟨hpre, hc⟩, hreturns⟩, hpost⟩, hbody⟩ := h
    have hΓ' := hΓ.declare (pre.flatMap (·.declares))
    obtain ⟨hc', hreturns'⟩ := c.valid_of_extends (extends_withFunctions hfs hΓ') hc
    have hpre' := statementsValid_hoist hfs pre (hΓ.enter .forLoopPre) hG.left.left hpre
    have hpost' := blockValid_hoist_of
      (fun hΓ => statementsValid_hoist hfs post hΓ hG.right) hG.right (hΓ'.enter .forLoopPost) hpost
    have hbody' := blockValid_hoist_of
      (fun hΓ => statementsValid_hoist hfs body hΓ hG.left.right) hG.left.right
      (hΓ'.enter .forLoopBody) hbody
    simp only [hoistStatement, valid_forLoop, flatMap_declares_hoist, and_eq_true,
      decide_eq_true_eq]
    exact ⟨⟨⟨⟨statementsValid_removeEmpty hpre', hc'⟩, hreturns'.trans hreturns⟩, hpost'⟩,
      hbody'⟩
  | .block ss =>
    exact blockValid_hoist_of (fun hΓ => statementsValid_hoist hfs ss hΓ hG) hG hΓ h

lemma statementsValid_hoist (hfs : Complete G fs) (ss : List Statement) {Γ : Scope}
    (hΓ : G.Declares Γ) (hG : G.Holds (functionsOfStatements ss))
    (h : statementsValid dialect Γ ss) :
    statementsValid dialect (withFunctions Γ fs) (hoist ss) := by
  match ss with
  | [] => rfl
  | s :: ss =>
    rw [statementsValid, and_eq_true] at h
    have hss := statementsValid_hoist hfs ss (hΓ.declare s.declares) hG.right h.2
    rw [hoist, statementsValid, and_eq_true]
    split_ifs with hs
    · cases s with
      | functionDefinition f ps rs body => exact ⟨rfl, hss⟩
      | _ => cases hs
    · refine ⟨valid_hoist hfs s hΓ hG.left h.1, ?_⟩
      have hdeclares : (hoistStatement s).declares = s.declares := by cases s <;> rfl
      rw [hdeclares]
      exact hss

lemma casesValid_hoistCases (hfs : Complete G fs) (cs : List Case) {Γ : Scope}
    (hΓ : G.Declares Γ) (hG : G.Holds (functionsOfCases cs))
    (h : casesValid dialect Γ cs) :
    casesValid dialect (withFunctions Γ fs) (hoistCases cs) := by
  match cs with
  | [] => rfl
  | .mk value body :: cs =>
    rw [casesValid, and_eq_true, and_eq_true] at h
    have hbody := blockValid_hoist_of
      (fun hΓ => statementsValid_hoist hfs body hΓ hG.left) hG.left hΓ h.1.2
    rw [hoistCases, casesValid, h.1.1, hbody, casesValid_hoistCases hfs cs hΓ hG.right h.2]
    rfl

end

end

/-! ### The functions that are moved -/

/-- A function definition without other functions in it. -/
def IsFlatFunction (s : Statement) : Prop :=
  ∃ f ps rs body, s = .functionDefinition f ps rs body ∧ functionsOfStatements body = []

section

variable {dialect : Dialect} {G : Functions} {fs : List (YulString × Nat × Nat)}
  {ss ts : List Statement}

lemma IsFlatFunction.isFunctionDefinition {s : Statement} (h : IsFlatFunction s) :
    s.isFunctionDefinition := by
  obtain ⟨f, ps, rs, body, rfl, -⟩ := h
  rfl

lemma definitions_of_flat (h : ∀ s ∈ ss, IsFlatFunction s) :
    functionDefinitions ss = functionsOfStatements ss := by
  induction ss with
  | nil => rfl
  | cons s ss ih =>
    obtain ⟨f, ps, rs, body, rfl, hbody⟩ := h s mem_cons_self
    rw [functionsOfStatements, ← ih fun s hs => h s (mem_cons_of_mem _ hs),
      Statement.functions, hbody]
    rfl

/-- Such a function is valid where the given functions are visible. -/
def IsValidFunction (dialect : Dialect) (fs : List (YulString × Nat × Nat)) (s : Statement) :
    Prop :=
  IsFlatFunction s ∧ s.valid dialect ⟨[], fs, .none⟩ = true

lemma statementsValid_of_isValidFunction (h : ∀ s ∈ ss, IsValidFunction dialect fs s) {Γ : Scope}
    (hΓ : Γ.functions = fs) (hcomponent : Γ.component ≠ .forLoopPre) :
    statementsValid dialect Γ ss := by
  induction ss generalizing Γ with
  | nil => rfl
  | cons s ss ih =>
    obtain ⟨hflat, hvalid⟩ := h s mem_cons_self
    rw [statementsValid, and_eq_true]
    refine ⟨valid_of_isFunctionDefinition hflat.isFunctionDefinition hΓ
      (fun hc => absurd hc hcomponent) hvalid, ?_⟩
    exact ih (fun s hs => h s (mem_cons_of_mem _ hs)) hΓ hcomponent

mutual

lemma isValidFunction_functions (hfs : Complete G fs) (s : Statement) {Γ : Scope}
    (hΓ : G.Declares Γ) (hG : G.Holds s.functions) (h : s.valid dialect Γ) :
    ∀ t ∈ functions s ++ (if s.isFunctionDefinition then [hoistStatement s] else []),
      IsValidFunction dialect fs t := by
  match s with
  | .expressionStatement _ | .assignment _ _ | .variableDeclaration _ _ | .break | .continue =>
    exact nofun
  | .functionDefinition f ps rs body =>
    have hG' : G.Holds (functionsOfStatements body) := hG.subset (subset_cons_self _ _)
    have hhoist := valid_hoist hfs (.functionDefinition f ps rs body) hΓ hG h
    rw [valid_function, and_eq_true] at h
    intro t ht
    rcases mem_append.mp ht with ht | ht
    · exact isValidFunction_functionsIn hfs body
        ((hΓ.function _).register (hG'.subset (definitions_subset body))) hG' h.2 t ht
    · obtain rfl := mem_singleton.mp ht
      refine ⟨⟨f, ps, rs, _, rfl, functions_hoist body⟩, ?_⟩
      exact valid_of_isFunctionDefinition (Γ := withFunctions Γ fs) rfl rfl (fun hc => by cases hc)
        hhoist
  | .if c body =>
    rw [valid_if, and_eq_true] at h
    rw [if_neg (by rintro ⟨⟩), append_nil]
    exact isValidFunction_functionsIn hfs body
      (hΓ.register (hG.subset (definitions_subset body))) hG h.2
  | .switch e cases =>
    rw [valid_switch, and_eq_true] at h
    rw [if_neg (by rintro ⟨⟩), append_nil]
    exact isValidFunction_functionsInCases hfs cases hΓ hG h.2
  | .forLoop pre c post body =>
    simp only [valid_forLoop, and_eq_true, decide_eq_true_eq] at h
    obtain ⟨⟨⟨⟨hpre, -⟩, -⟩, hpost⟩, hbody⟩ := h
    have hΓ' := hΓ.declare (pre.flatMap (·.declares))
    rw [if_neg (by rintro ⟨⟩), append_nil]
    intro t ht
    rcases mem_append.mp ht with ht | ht
    · rcases mem_append.mp ht with ht | ht
      · exact isValidFunction_functionsIn hfs pre (hΓ.enter _) hG.left.left hpre t ht
      · exact isValidFunction_functionsIn hfs post ((hΓ'.enter _).register
          (hG.right.subset (definitions_subset post))) hG.right hpost t ht
    · exact isValidFunction_functionsIn hfs body ((hΓ'.enter _).register
        (hG.left.right.subset (definitions_subset body))) hG.left.right hbody t ht
  | .block ss =>
    rw [if_neg (by rintro ⟨⟩), append_nil]
    exact isValidFunction_functionsIn hfs ss
      (hΓ.register (hG.subset (definitions_subset ss))) hG h

lemma isValidFunction_functionsIn (hfs : Complete G fs) (ss : List Statement) {Γ : Scope}
    (hΓ : G.Declares Γ) (hG : G.Holds (functionsOfStatements ss))
    (h : statementsValid dialect Γ ss) :
    ∀ t ∈ functionsIn ss, IsValidFunction dialect fs t := by
  match ss with
  | [] => exact nofun
  | s :: ss =>
    rw [statementsValid, and_eq_true] at h
    intro t ht
    rcases mem_append.mp ht with ht | ht
    · exact isValidFunction_functions hfs s hΓ hG.left h.1 t ht
    · exact isValidFunction_functionsIn hfs ss (hΓ.declare _) hG.right h.2 t ht

lemma isValidFunction_functionsInCases (hfs : Complete G fs) (cs : List Case) {Γ : Scope}
    (hΓ : G.Declares Γ) (hG : G.Holds (functionsOfCases cs))
    (h : casesValid dialect Γ cs) :
    ∀ t ∈ functionsInCases cs, IsValidFunction dialect fs t := by
  match cs with
  | [] => exact nofun
  | .mk value body :: cs =>
    rw [casesValid, and_eq_true, and_eq_true] at h
    intro t ht
    rcases mem_append.mp ht with ht | ht
    · exact isValidFunction_functionsIn hfs body
        (hΓ.register (hG.left.subset (definitions_subset body))) hG.left h.1.2 t ht
    · exact isValidFunction_functionsInCases hfs cs hΓ hG.right h.2 t ht

end

end

section

variable {dialect : Dialect} {ss : Block}

lemma isFlatFunction_functionsIn (hss : Block.Disambiguated dialect ss) :
    ∀ s ∈ functionsIn ss, IsFlatFunction s := by
  have hG := holds_functionTable hss.uniqueFunctions
  have hfs : Complete (functionTable ss)
      ((functionsOfStatements ss).map fun p => (p.1, p.2.arity)) := by
    intro f d hd
    rw [lookup_arity, ← functionTable, hd]
    rfl
  have hΓ := (Functions.Declares.empty (functionTable ss)).register
    (hG.subset (definitions_subset ss))
  exact fun s hs => (isValidFunction_functionsIn hfs ss hΓ hG hss.valid s hs).1

lemma definitions_run (hflat : ∀ s ∈ functionsIn ss, IsFlatFunction s) :
    functionDefinitions (run ss) = functionsOfStatements (run ss) := by
  have hcode := functions_hoist ss
  have hcode' : functionDefinitions (removeEmptyBlocks (hoist ss)) = [] :=
    subset_nil.mp (hcode ▸ definitions_subset _)
  rw [run, definitions_append, functions_append, hcode, hcode',
    definitions_of_flat hflat]

lemma complete_visibleFunctions (hunique : Block.UniqueFunctions ss)
    (hflat : ∀ s ∈ functionsIn ss, IsFlatFunction s) :
    Complete (functionTable ss) (visibleFunctions (run ss)) := by
  intro f d hd
  have hlookup := lookup_arity (functionDefinitions (run ss)) f
  rw [definitions_run hflat, ← functionTable, (mapsFunctions_run hunique).maps f d hd]
    at hlookup
  rw [visibleFunctions, definitions_run hflat]
  exact hlookup

lemma keepsRuns_run (hss : Block.Disambiguated dialect ss) : KeepsRuns dialect ss (run ss) := by
  have hmap := mapsFunctions_run hss.uniqueFunctions
  have hG := hmap.holds
  have hflat := isFlatFunction_functionsIn hss
  have hfs := complete_visibleFunctions hss.uniqueFunctions hflat
  have hΓ := (Functions.Declares.empty (functionTable ss)).register
    (hG.subset (definitions_subset ss))
  have hscope : Scope.empty.register (run ss) =
      withFunctions (Scope.empty.register ss) (visibleFunctions (run ss)) := by
    rw [register_eq, register_eq]
    exact congrArg (Scope.mk [] · .none) (append_nil _)
  have hvalid : Block.valid dialect (run ss) = true := by
    rw [Block.valid, hscope, run, statementsValid_append_iff]
    constructor
    · exact statementsValid_removeEmpty (statementsValid_hoist hfs ss hΓ hG hss.valid)
    · refine statementsValid_of_isValidFunction
        (isValidFunction_functionsIn hfs ss hΓ hG hss.valid) rfl ?_
      rw [register_eq]
      exact nofun
  refine ⟨⟨hvalid, (names_run_perm ss).nodup_iff.mpr hss.nodup⟩, fun World env => ?_⟩
  refine hmap.sameRuns (A := fun _ => Eq) hss.valid hvalid (fun I I' _ hI p hp vs m => ?_)
    fun I I' _ hI m => ?_
  · exact run_hoistFunction hI p.2 (hG.subset (functionsOfStatements_trans ss hp)) vs m
  · refine execBlock_simAt hG (holds_functionTable hmap.unique') ?_ fun _ _ _ hW =>
      congrArg (Variables.restrict _) hW
    rw [run, exec_append_functions fun s hs => (hflat s hs).isFunctionDefinition,
      exec_removeEmptyBlocks]
    exact exec_hoist hI ss hG _ m

end

end FunctionHoister

end Yul
