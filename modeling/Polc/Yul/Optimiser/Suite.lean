import Polc.Yul.Optimiser.DeadCodeEliminator
import Polc.Yul.Optimiser.ExpressionJoiner.Meaning
import Polc.Yul.Optimiser.ForLoopConditionIntoBody
import Polc.Yul.Optimiser.FunctionGrouper
import Polc.Yul.Optimiser.SSATransform.References

/-!
# The optimiser suite

Runs of many steps on one program, with one name dispenser, as `libyul/optimiser/Suite.cpp` runs
them.
-/

namespace Yul

variable {dialect : Dialect}

lemma KeepsRuns.trans {ss ss' ss'' : Block} (h : KeepsRuns dialect ss ss')
    (h' : KeepsRuns dialect ss' ss'') : KeepsRuns dialect ss ss'' :=
  ⟨h'.1, fun World env m r => (h'.2 World env m r).trans (h.2 World env m r)⟩

lemma KeepsOrder.keepsRuns {ss ss' : Block} (h : KeepsOrder dialect ss ss') :
    KeepsRuns dialect ss ss' :=
  ⟨h.disambiguated, fun _ env => (h.sameOperations env).sameRuns⟩

lemma BlockFlattener.keepsRuns_run {ss : Block} (hss : Block.Disambiguated dialect ss) :
    KeepsRuns dialect ss (run ss) := by
  rw [run, flatten_eq]
  exact sameRuns_dissolve _ hss

lemma ForLoopInitRewriter.keepsRuns_run {ss : Block} (hss : Block.Disambiguated dialect ss) :
    KeepsRuns dialect ss (run ss) := by
  rw [run, rewrite_eq]
  exact sameRuns_dissolve _ hss

lemma FunctionGrouper.names_run (ss : Block) :
    namesOfStatements (run ss) ⊆ namesOfStatements ss := by
  unfold run
  split_ifs
  · exact List.Subset.refl _
  · have hnames := names_perm (filter_perm ss)
    rw [names_append] at hnames
    exact hnames.subset

lemma SSATransform.keepsRuns {ss : Block} (hss : Block.Disambiguated dialect ss)
    {nameDispenser : NameDispenser} (hused : namesOfStatements ss ⊆ nameDispenser.usedNames) :
    KeepsRuns dialect ss
      (statements (assignmentsOfStatements ss) ⟨nameDispenser, fun _ => none⟩ ss).1 := by
  have hready := Ready.start hss hused
  refine ⟨⟨?_, ?_⟩, fun World env => .of_eq fun n m => run_transform hready hss.valid env n m⟩
  · refine blockValid_transform_of hready hss.valid ?_ (valid_statements ss)
    exact ⟨List.Subset.refl _, rfl, rfl, nofun, List.nil_subset _, nofun⟩
  · exact (statements_renewed _ ss ⟨nameDispenser, fun _ => none⟩).nodup hused hss.nodup

lemma DeadCodeEliminator.eraseUnreachable_sublist (dialect : Dialect) (ss : Block) :
    (eraseUnreachable dialect ss).Sublist ss := by
  unfold eraseUnreachable
  split
  · exact .refl _
  · exact .refl _
  · next index _ _ =>
    have h := (List.Sublist.refl (ss.take (index + 1))).append
      (List.filter_sublist (p := (·.isFunctionDefinition)) (l := ss.drop (index + 1)))
    rwa [List.take_append_drop] at h

lemma DeadCodeEliminator.keepsRuns_run {ss : Block} (hss : Block.Disambiguated dialect ss)
    (hinit : everyStatement Statement.initEmpty ss) :
    ∃ ss', run dialect ss = some ss' ∧ KeepsRuns dialect ss ss' := by
  obtain ⟨ss', hss'⟩ := exists_eliminateFrom ss hinit false
  obtain rfl : ss' = Block.mapBlocks (eraseUnreachable dialect) ss :=
    eq_remaining_of_eliminateFrom ss hss'
  have hnames := names_mapBlocks_of (eraseUnreachable_sublist dialect)
    (names_mapBlocksOfStatements (eraseUnreachable_sublist dialect) ss)
  refine ⟨_, hss', ⟨?_, hnames.nodup hss.nodup⟩, fun World env => ?_⟩
  · exact blockValid_mapBlocks (keepsValidity_eraseUnreachable dialect) ss hss.valid hinit
  · exact sameRuns_mapBlocks (keepsStatements_eraseUnreachable dialect) env ss

namespace OptimiserSuite

/-! ### Any number of steps in any order -/

/-- Steps that run on every disambiguated program. -/
inductive Step where
  | functionHoister | blockFlattener | forLoopInitRewriter | forLoopConditionIntoBody
  | functionGrouper | expressionSplitter | ssaTransform | expressionJoiner
  deriving DecidableEq, Repr

/-- The program, and the dispenser that the steps share. -/
structure State where
  ast : Block
  dispenser : NameDispenser

namespace Step

/-- Run a step; there is no result if an assertion fails. -/
def run (dialect : Dialect) (s : State) : Step → Option State
  | functionHoister => some { s with ast := FunctionHoister.run s.ast }
  | blockFlattener => some { s with ast := BlockFlattener.run s.ast }
  | forLoopInitRewriter => some { s with ast := ForLoopInitRewriter.run s.ast }
  | forLoopConditionIntoBody => some { s with ast := ForLoopConditionIntoBody.run s.ast }
  | functionGrouper => some { s with ast := FunctionGrouper.run s.ast }
  | expressionSplitter =>
    let r := ExpressionSplitter.statements dialect s.dispenser s.ast
    some ⟨r.1, r.2⟩
  | ssaTransform =>
    let T : SSATransform := ⟨s.dispenser, fun _ => none⟩
    let r := SSATransform.statements (assignmentsOfStatements s.ast) T s.ast
    (SSATransform.run s.dispenser s.ast).map (⟨·, r.2.1.nameDispenser⟩)
  | expressionJoiner => some { s with ast := ExpressionJoiner.run s.ast }

end Step

/-- Run steps one after the other. -/
def run (dialect : Dialect) (steps : List Step) (s : State) : Option State :=
  steps.foldlM (Step.run dialect) s

/-- What every step needs: no name is declared twice, and the dispenser knows all names. -/
structure Ready (dialect : Dialect) (s : State) : Prop where
  disambiguated : Block.Disambiguated dialect s.ast
  used : namesOfStatements s.ast ⊆ s.dispenser.usedNames

/-- A step of any kind succeeds, keeps the runs and leaves what the next step needs. -/
lemma Step.keepsRuns {s : State} (hs : Ready dialect s) (step : Step) :
    ∃ s', step.run dialect s = some s' ∧ Ready dialect s' ∧ KeepsRuns dialect s.ast s'.ast := by
  have hss := hs.disambiguated
  have hready {s' : State} (h : KeepsRuns dialect s.ast s'.ast)
      (hnames : namesOfStatements s'.ast ⊆ s'.dispenser.usedNames) :
      Ready dialect s' ∧ KeepsRuns dialect s.ast s'.ast := ⟨⟨h.1, hnames⟩, h⟩
  cases step with
  | functionHoister =>
    refine ⟨_, rfl, hready (FunctionHoister.keepsRuns_run hss) ?_⟩
    exact List.Subset.trans (FunctionHoister.names_run_perm s.ast).subset hs.used
  | blockFlattener =>
    refine ⟨_, rfl, hready (BlockFlattener.keepsRuns_run hss) ?_⟩
    rw [BlockFlattener.run, BlockFlattener.flatten_eq, namesOfStatements_dissolve]
    exact hs.used
  | forLoopInitRewriter =>
    refine ⟨_, rfl, hready (ForLoopInitRewriter.keepsRuns_run hss) ?_⟩
    rw [ForLoopInitRewriter.run, ForLoopInitRewriter.rewrite_eq, namesOfStatements_dissolve]
    exact hs.used
  | forLoopConditionIntoBody =>
    refine ⟨_, rfl, hready (ForLoopConditionIntoBody.sameRuns_run hss) ?_⟩
    rw [ForLoopConditionIntoBody.run, ForLoopConditionIntoBody.names_rewrite]
    exact hs.used
  | functionGrouper =>
    refine ⟨_, rfl, hready (FunctionGrouper.keepsRuns_run hss) ?_⟩
    exact List.Subset.trans (FunctionGrouper.names_run s.ast) hs.used
  | expressionSplitter =>
    have hrenewed := ExpressionSplitter.statements_renewed dialect s.ast s.dispenser
    refine ⟨_, rfl, hready (ExpressionSplitter.keepsOrder hss hs.used).keepsRuns fun x hx => ?_⟩
    exact (hrenewed.mem x hx).elim (fun h => hrenewed.used (hs.used h)) (·.2)
  | ssaTransform =>
    have hrenewed := SSATransform.statements_renewed (assignmentsOfStatements s.ast) s.ast
      ⟨s.dispenser, fun _ => none⟩
    refine ⟨_, congrArg (Option.map _) (SSATransform.run_eq s.dispenser s.ast),
      hready (SSATransform.keepsRuns hss hs.used) fun x hx => ?_⟩
    exact (hrenewed.mem x hx).elim (fun h => hrenewed.used (hs.used h)) (·.2)
  | expressionJoiner =>
    refine ⟨_, rfl, hready (ExpressionJoiner.keepsOrder hss).keepsRuns ?_⟩
    exact List.Subset.trans (ExpressionJoiner.names_run s.ast) hs.used

/-- Whatever steps are run in whatever order, all of them succeed, and the program has the same runs
before and after them. -/
theorem run_keepsRuns (dialect : Dialect) (steps : List Step) (s : State)
    (hs : Ready dialect s) :
    ∃ s', run dialect steps s = some s' ∧ Ready dialect s' ∧ KeepsRuns dialect s.ast s'.ast := by
  induction steps generalizing s with
  | nil => exact ⟨s, rfl, hs, hs.disambiguated, fun World env => .refl env dialect s.ast⟩
  | cons step steps ih =>
    obtain ⟨s₁, hrun, hs₁, hruns⟩ := step.keepsRuns hs
    obtain ⟨s₂, hrun', hs₂, hruns'⟩ := ih s₁ hs₁
    refine ⟨s₂, ?_, hs₂, hruns.trans hruns'⟩
    rw [run, List.foldlM_cons, hrun]
    exact hrun'

/-- Functions in blocks are hoisted, split, brought to single assignments and joined again. -/
theorem run_keepsRuns_functionsInBlocks :
    ∃ s', run .strictAssemblyForSVMObjects [.functionHoister, .blockFlattener, .functionGrouper,
        .expressionSplitter, .ssaTransform, .expressionJoiner, .expressionJoiner, .blockFlattener]
        ⟨functionsInBlocks, .ofBlock .strictAssemblyForSVMObjects functionsInBlocks⟩ = some s' ∧
      Ready .strictAssemblyForSVMObjects s' ∧
      KeepsRuns .strictAssemblyForSVMObjects functionsInBlocks s'.ast :=
  run_keepsRuns .strictAssemblyForSVMObjects _ _ ⟨by decide, List.Subset.refl _⟩

/-- The steps of `run` from the function hoister to the function grouper. -/
def prepare (dialect : Dialect) (ss : Block) : Option Block :=
  (DeadCodeEliminator.run dialect
    (ForLoopInitRewriter.run (BlockFlattener.run (FunctionHoister.run ss)))).map FunctionGrouper.run

/-- The first steps succeed on every disambiguated program, since no loop has an init part when the
dead code eliminator comes to it, and keep its runs. -/
theorem prepare_keepsRuns {ss : Block} (hss : Block.Disambiguated dialect ss) :
    ∃ ss', prepare dialect ss = some ss' ∧ KeepsRuns dialect ss ss' := by
  have hhoisted := FunctionHoister.keepsRuns_run hss
  have hflat := hhoisted.trans (BlockFlattener.keepsRuns_run hhoisted.1)
  have hloops := hflat.trans (ForLoopInitRewriter.keepsRuns_run hflat.1)
  obtain ⟨ss₁, hrun, hlive⟩ := DeadCodeEliminator.keepsRuns_run hloops.1
    (ForLoopInitRewriter.initEmpty_rewrite _)
  refine ⟨_, congrArg (Option.map FunctionGrouper.run) hrun, ?_⟩
  exact (hloops.trans hlive).trans (FunctionGrouper.keepsRuns_run hlive.1)

/-- A loop with a loop in its init part. -/
theorem prepare_keepsRuns_loopInInit :
    ∃ ss', prepare .strictAssemblyForSVMObjects loopInInit = some ss' ∧
      KeepsRuns .strictAssemblyForSVMObjects loopInInit ss' :=
  prepare_keepsRuns (by decide)

end OptimiserSuite

end Yul
