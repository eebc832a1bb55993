import Polc.Yul.Optimiser.BlockFlattener
import Polc.Yul.Optimiser.FunctionHoister

/-!
# The function grouper

`libyul/optimiser/FunctionGrouper.cpp`: everything but the functions of a program is moved to a
block of its own at the start. The last theorem is about the three steps that change which block
statements are in.
-/

namespace Yul

open Sof Semantics List

namespace FunctionGrouper

/-- `alreadyGrouped` -/
def alreadyGrouped : Block → Bool
  | .block _ :: ss => ss.all (·.isFunctionDefinition)
  | _ => false

/-- The statements that go to the new block. -/
def code (ss : Block) : Block := ss.filter fun s => !s.isFunctionDefinition

/-- Run the step on a program. -/
def run (ss : Block) : Block :=
  if alreadyGrouped ss then ss else .block (code ss) :: ss.filter (·.isFunctionDefinition)

section

variable {World : Type} {I : Interpreter World} {F : Functions} {V : Variables}
  {m : SvmState World} {dialect : Dialect} {Γ : Scope}

lemma code_cons (s : Statement) (ss : Block) :
    code (s :: ss) = if s.isFunctionDefinition then code ss else s :: code ss := by
  rw [code, filter_cons]
  cases s.isFunctionDefinition <;> rfl

lemma definitions_code (ss : Block) : functionDefinitions (code ss) = [] := by
  induction ss with
  | nil => rfl
  | cons s ss ih => cases s <;> exact ih

lemma exec_code (ss : Block) :
    execStatements I F V (code ss) m = execStatements I F V ss m := by
  induction ss generalizing V m with
  | nil => rfl
  | cons s ss ih =>
    rw [code_cons]
    cases s with
    | functionDefinition f ps rs body =>
      rw [execStatements_cons, exec_function, Result.bind_ok, if_pos rfl]
      exact ih
    | _ =>
      rw [if_neg nofun, execStatements_cons, execStatements_cons]
      exact Result.bind_congr _ fun r m₁ _ => by rw [ih]

lemma statementsValid_code {ss : Block} (h : statementsValid dialect Γ ss) :
    statementsValid dialect Γ (code ss) := by
  induction ss generalizing Γ with
  | nil => rfl
  | cons s ss ih =>
    rw [statementsValid, Bool.and_eq_true] at h
    rw [code_cons]
    split_ifs with hs
    · cases s with
      | functionDefinition f ps rs body => exact ih h.2
      | _ => cases hs
    · rw [statementsValid, h.1, ih h.2]
      rfl

end

section

variable {dialect : Dialect} {ss : Block}

lemma filter_perm (ss : Block) : (code ss ++ ss.filter (·.isFunctionDefinition)).Perm ss :=
  perm_append_comm.trans (filter_append_perm (·.isFunctionDefinition) ss)

lemma visibleFunctions_grouped (ss : Block) :
    visibleFunctions (.block (code ss) :: ss.filter (·.isFunctionDefinition)) =
      visibleFunctions ss :=
  congrArg (List.map _) (definitions_filter ss)

lemma valid_grouped (h : Block.valid dialect ss) :
    Block.valid dialect (.block (code ss) :: ss.filter (·.isFunctionDefinition)) := by
  have hscope : ∀ Γ : Scope, Γ.register (code ss) = Γ := by
    intro Γ
    rw [Scope.register_eq, visibleFunctions, definitions_code]
    rfl
  rw [Block.valid, Scope.register_congr (visibleFunctions_grouped ss), statementsValid,
    Bool.and_eq_true, valid_block, hscope]
  exact ⟨statementsValid_code h, statementsValid_filter rfl rfl h⟩

lemma execBlock_grouped {World : Type} {I : Interpreter World} {G : Functions} {V : Variables}
    {m : SvmState World} (hG : G.Holds (functionsOfStatements ss))
    (hG' : G.Holds
      (functionsOfStatements (.block (code ss) :: ss.filter (·.isFunctionDefinition)))) :
    execBlock I G V (.block (code ss) :: ss.filter (·.isFunctionDefinition)) m =
      execBlock I G V ss m := by
  have hfunctions : ∀ s ∈ ss.filter (·.isFunctionDefinition), s.isFunctionDefinition = true :=
    fun s hs => (mem_filter.mp hs).2
  rw [hG'.execBlock_eq, ← singleton_append, exec_append_functions hfunctions,
    exec_singleton, exec_block, hG'.left.execBlock_eq, exec_code,
    hG.execBlock_eq]
  cases execStatements I G V ss m with
  | ok r m₁ => exact congrArg (Result.ok · m₁) (Prod.ext rfl (V.restrict_restrict r.2))
  | halt h m₁ => rfl
  | timeout => rfl

lemma keepsRuns_run (hss : Block.Disambiguated dialect ss) : KeepsRuns dialect ss (run ss) := by
  unfold run
  split_ifs
  · exact ⟨hss, fun World env => SameRuns.refl env dialect ss⟩
  · have hunique := hss.uniqueFunctions
    have hvalid' := valid_grouped hss.valid
    have hnames := names_perm (filter_perm ss)
    rw [names_append] at hnames
    have hss' : Block.Disambiguated dialect _ := ⟨hvalid', hnames.nodup_iff.mpr hss.nodup⟩
    have hperm := functionsOfStatements_perm (filter_perm ss)
    rw [functions_append] at hperm
    have htable : functionTable (.block (code ss) :: ss.filter (·.isFunctionDefinition)) =
        functionTable ss := functionTable_eq_of_perm hunique hperm
    refine ⟨hss', fun World env => SameRuns.of_eq fun n m => ?_⟩
    rw [Block.run_eq_table hss.valid hunique, Block.run_eq_table hvalid' hss'.uniqueFunctions,
      htable, execBlock_grouped (holds_functionTable hunique)
        (htable ▸ holds_functionTable hss'.uniqueFunctions)]

end

end FunctionGrouper

/-! ### The normal form -/

/-- One code block without function definitions, and after it function definitions without other
functions in them. -/
def FunctionHoister.IsNormalForm (ss : Block) : Prop :=
  ∃ code fs, ss = .block code :: fs ∧ functionsOfStatements code = [] ∧
    ∀ s ∈ fs, IsFlatFunction s

lemma FunctionGrouper.isNormalForm_run {ss : Block} (hcode : functionsOfStatements (code ss) = [])
    (hflat : ∀ s ∈ ss.filter (·.isFunctionDefinition), FunctionHoister.IsFlatFunction s) :
    FunctionHoister.IsNormalForm (run ss) := by
  unfold run
  split_ifs with h
  · unfold alreadyGrouped at h
    split at h
    · next b fs =>
      have hfs : fs.filter (·.isFunctionDefinition) = fs :=
        filter_eq_self.mpr (all_eq_true.mp h)
      have hnil : code fs = [] := by
        rw [code, filter_eq_nil_iff]
        exact fun s hs => by rw [all_eq_true.mp h s hs]; exact nofun
      rw [code_cons, if_neg nofun, hnil, functions_singleton] at hcode
      have hb : ¬ (Statement.block b).isFunctionDefinition = true := nofun
      rw [filter_cons_of_neg hb, hfs] at hflat
      exact ⟨b, fs, rfl, hcode, hflat⟩
    · cases h
  · exact ⟨code ss, _, rfl, hcode, hflat⟩

lemma FunctionGrouper.isNormalForm_run_hoister {dialect : Dialect} {ss : Block}
    (hss : Block.Disambiguated dialect ss) :
    FunctionHoister.IsNormalForm (run (FunctionHoister.run ss)) := by
  have hflat := FunctionHoister.isFlatFunction_functionsIn hss
  have hcode := FunctionHoister.functions_hoist ss
  have hnone : ∀ s ∈ removeEmptyBlocks (FunctionHoister.hoist ss),
      s.isFunctionDefinition = false := by
    intro s hs
    obtain ⟨ts, us, hsplit⟩ := append_of_mem hs
    rw [hsplit, functions_append, append_eq_nil_iff] at hcode
    cases s with
    | functionDefinition f ps rs body => exact absurd hcode.2 nofun
    | _ => rfl
  apply isNormalForm_run
  · have hfs : code (FunctionHoister.functionsIn ss) = [] := by
      rw [code, filter_eq_nil_iff]
      exact fun s hs => by rw [(hflat s hs).isFunctionDefinition]; exact nofun
    have heq : code (removeEmptyBlocks (FunctionHoister.hoist ss)) =
        removeEmptyBlocks (FunctionHoister.hoist ss) :=
      filter_eq_self.mpr fun s hs => by rw [hnone s hs]; rfl
    rw [FunctionHoister.run, code, filter_append, ← code, ← code, heq, hfs, append_nil]
    exact hcode
  · intro s hs
    obtain ⟨hmem, hs⟩ := mem_filter.mp hs
    rcases mem_append.mp hmem with hmem | hmem
    · cases (hnone s hmem).symm.trans hs
    · exact hflat s hmem

/-- The steps keep the runs of every disambiguated program, and hoisting and grouping bring it to
its normal form. -/
theorem normalForm_keepsRuns {dialect : Dialect} {ss : Block}
    (hss : Block.Disambiguated dialect ss) :
    KeepsRuns dialect ss (FunctionHoister.run ss) ∧
      KeepsRuns dialect ss (FunctionGrouper.run ss) ∧
      KeepsRuns dialect ss (BlockFlattener.run ss) ∧
      FunctionHoister.IsNormalForm (FunctionGrouper.run (FunctionHoister.run ss)) := by
  refine ⟨FunctionHoister.keepsRuns_run hss, FunctionGrouper.keepsRuns_run hss, ?_,
    FunctionGrouper.isNormalForm_run_hoister hss⟩
  rw [BlockFlattener.run, BlockFlattener.flatten_eq]
  exact sameRuns_dissolve _ hss

/-- `{ function f(x) -> y { function g() -> z { z := calldataload(0) }  y := add(x, g()) }
if calldataload(1) { function h() { sstore(0, f(1)) }  h() }  let a := f(2)  { sstore(1, a) } }` -/
def functionsInBlocks : Block :=
  [.block
    [.functionDefinition "f" [⟨"x", ""⟩] [⟨"y", ""⟩]
      [.functionDefinition "g" [] [⟨"z", ""⟩]
        [.assignment ["z"] (.functionCall "calldataload" [.literal (.number "0")])],
      .assignment ["y"] (.functionCall "add" [.identifier "x", .functionCall "g" []])],
    .if (.functionCall "calldataload" [.literal (.number "1")])
      [.functionDefinition "h" [] []
        [.expressionStatement (.functionCall "sstore"
          [.literal (.number "0"), .functionCall "f" [.literal (.number "1")]])],
      .expressionStatement (.functionCall "h" [])],
    .variableDeclaration [⟨"a", ""⟩] (some (.functionCall "f" [.literal (.number "2")])),
    .block [.expressionStatement (.functionCall "sstore"
      [.literal (.number "1"), .identifier "a"])]]]

theorem normalForm_keepsRuns_functionsInBlocks :
    KeepsRuns .strictAssemblyForSVMObjects functionsInBlocks
        (FunctionHoister.run functionsInBlocks) ∧
      KeepsRuns .strictAssemblyForSVMObjects functionsInBlocks
        (FunctionGrouper.run functionsInBlocks) ∧
      KeepsRuns .strictAssemblyForSVMObjects functionsInBlocks
        (BlockFlattener.run functionsInBlocks) ∧
      FunctionHoister.IsNormalForm (FunctionGrouper.run (FunctionHoister.run functionsInBlocks)) :=
  normalForm_keepsRuns (by decide)

end Yul
