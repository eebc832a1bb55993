import Polc.Yul.Optimiser.BlockPass

/-!
# The dead code eliminator

`libyul/optimiser/DeadCodeEliminator.cpp`: in every block, what comes after a statement that
control flow does not pass is erased, function definitions apart.
-/

namespace Yul

open Sof Semantics TerminationFinder Option Statement Bool

namespace DeadCodeEliminator

section

variable (dialect : Dialect)

/-- Erase everything after the terminating statement that is not a function definition. -/
def eraseUnreachable (ss : Block) : Block :=
  match firstUnconditionalControlFlowChange dialect ss with
  | (.flowOut, _) | (_, none) => ss
  | (_, some index) =>
    ss.take (index + 1) ++ (ss.drop (index + 1)).filter (·.isFunctionDefinition)

mutual

/-- Visit a statement. It is asserted that loops have no init part. -/
def eliminateStatement : Statement → Option Statement
  | .functionDefinition f ps rs body => do
    some (.functionDefinition f ps rs (← eliminateFrom false body))
  | .if c body => do some (.if c (← eliminateFrom false body))
  | .switch e cases => do some (.switch e (← eliminateCases cases))
  | .forLoop (_ :: _) _ _ _ => none
  | .forLoop [] c post body => do
    some (.forLoop [] c (← eliminateFrom false post) (← eliminateFrom false body))
  | .block ss => do some (.block (← eliminateFrom false ss))
  | s => some s

/-- Visit the statements of a block that are not erased. With `unreachable` control flow does not
get here; then only function definitions are left. -/
def eliminateFrom (unreachable : Bool) : List Statement → Option (List Statement)
  | [] => some []
  | s :: ss =>
    if unreachable && !s.isFunctionDefinition then eliminateFrom unreachable ss
    else do
      let s' ← eliminateStatement s
      let ss' ← eliminateFrom (unreachable || controlFlowKind dialect s ≠ .flowOut) ss
      some (s' :: ss')

def eliminateCases : List Case → Option (List Case)
  | [] => some []
  | .mk value body :: cs => do
    let body ← eliminateFrom false body
    let cs ← eliminateCases cs
    some (.mk value body :: cs)

end

/-- Erase in a block and visit what is left. -/
def eliminate (ss : Block) : Option Block := eliminateFrom dialect false ss

/-- Run the step on a program. -/
def run (ss : Block) : Option Block := eliminate dialect ss

end

section

variable {dialect : Dialect} {s : Statement} {ss : List Statement}

@[simp] lemma eraseUnreachable_nil : eraseUnreachable dialect [] = [] := rfl

lemma eraseUnreachable_cons_of_flowOut (h : controlFlowKind dialect s = .flowOut) :
    eraseUnreachable dialect (s :: ss) = s :: eraseUnreachable dialect ss := by
  rw [eraseUnreachable, eraseUnreachable, firstUnconditionalControlFlowChange,
    if_neg (not_not.mpr h)]
  rcases firstUnconditionalControlFlowChange dialect ss with ⟨kind, _ | index⟩
  · cases kind <;> rfl
  · cases kind <;> rfl

lemma eraseUnreachable_cons_of_ne (h : controlFlowKind dialect s ≠ .flowOut) :
    eraseUnreachable dialect (s :: ss) = s :: ss.filter (·.isFunctionDefinition) := by
  rw [eraseUnreachable, firstUnconditionalControlFlowChange, if_pos h]
  generalize controlFlowKind dialect s = kind at h
  cases kind
  · exact absurd rfl h
  all_goals rfl

end

/-! ### The step as a rewriting of blocks -/

section

variable {dialect : Dialect} {s : Statement} {ss : List Statement}

lemma isFunctionDefinition_mapBlocks (f : Block → Block) (s : Statement) :
    (s.mapBlocks f).isFunctionDefinition = s.isFunctionDefinition := by
  cases s <;> rfl

lemma controlFlowKind_mapBlocks (f : Block → Block) (s : Statement) :
    controlFlowKind dialect (s.mapBlocks f) = controlFlowKind dialect s := by
  cases s <;> rfl

/-- What is left of the statements of a block whose inner blocks are rewritten. -/
def remaining (dialect : Dialect) (unreachable : Bool) (ss : List Statement) : List Statement :=
  if unreachable then
    (mapBlocksOfStatements (eraseUnreachable dialect) ss).filter (·.isFunctionDefinition)
  else Block.mapBlocks (eraseUnreachable dialect) ss

lemma remaining_of_skipped (h : s.isFunctionDefinition = false) :
    remaining dialect true (s :: ss) = remaining dialect true ss := by
  rw [remaining, if_pos rfl, mapBlocksOfStatements, List.filter_cons_of_neg, remaining, if_pos rfl]
  rw [isFunctionDefinition_mapBlocks, h]
  exact false_ne_true

lemma remaining_cons {unreachable : Bool} (h : (unreachable && !s.isFunctionDefinition) = false) :
    remaining dialect unreachable (s :: ss) = s.mapBlocks (eraseUnreachable dialect) ::
      remaining dialect (unreachable || controlFlowKind dialect s ≠ .flowOut) ss := by
  have hkind : controlFlowKind dialect (s.mapBlocks (eraseUnreachable dialect)) =
      controlFlowKind dialect s := controlFlowKind_mapBlocks _ s
  cases unreachable with
  | true =>
    rw [Bool.true_or, remaining, if_pos rfl, mapBlocksOfStatements, List.filter_cons_of_pos,
      remaining, if_pos rfl]
    rw [isFunctionDefinition_mapBlocks]
    simpa using h
  | false =>
    rw [Bool.false_or, remaining, if_neg Bool.false_ne_true, Block.mapBlocks, mapBlocksOfStatements]
    by_cases hs : controlFlowKind dialect s = .flowOut
    · rw [eraseUnreachable_cons_of_flowOut (hkind.trans hs), decide_eq_false (not_not.mpr hs)]
      rfl
    · rw [eraseUnreachable_cons_of_ne (hkind ▸ hs), decide_eq_true hs]
      rfl

mutual

lemma eq_mapBlocks_of_eliminateStatement (s : Statement) {s' : Statement}
    (h : eliminateStatement dialect s = some s') : s' = s.mapBlocks (eraseUnreachable dialect) := by
  match s with
  | .expressionStatement _ | .assignment _ _ | .variableDeclaration _ _ | .break | .continue =>
    cases h
    rfl
  | .functionDefinition f ps rs body =>
    obtain ⟨body', hbody, heq⟩ := bind_eq_some_iff.mp h
    cases heq
    rw [eq_remaining_of_eliminateFrom body hbody]
    rfl
  | .if c body =>
    obtain ⟨body', hbody, heq⟩ := bind_eq_some_iff.mp h
    cases heq
    rw [eq_remaining_of_eliminateFrom body hbody]
    rfl
  | .switch e cases =>
    obtain ⟨cases', hcases, heq⟩ := bind_eq_some_iff.mp h
    cases heq
    rw [eq_mapBlocks_of_eliminateCases cases hcases]
    rfl
  | .forLoop (_ :: _) c post body => cases h
  | .forLoop [] c post body =>
    obtain ⟨post', hpost, h⟩ := bind_eq_some_iff.mp h
    obtain ⟨body', hbody, heq⟩ := bind_eq_some_iff.mp h
    cases heq
    rw [eq_remaining_of_eliminateFrom post hpost, eq_remaining_of_eliminateFrom body hbody]
    rfl
  | .block ss =>
    obtain ⟨ss', hss, heq⟩ := bind_eq_some_iff.mp h
    cases heq
    rw [eq_remaining_of_eliminateFrom ss hss]
    rfl

lemma eq_remaining_of_eliminateFrom (ss : List Statement) {unreachable : Bool}
    {ss' : List Statement} (h : eliminateFrom dialect unreachable ss = some ss') :
    ss' = remaining dialect unreachable ss := by
  match ss with
  | [] =>
    cases h
    cases unreachable <;> rfl
  | s :: ss =>
    rw [eliminateFrom] at h
    split_ifs at h with hskip
    · rw [and_eq_true, not_eq_true'] at hskip
      obtain rfl := hskip.1
      rw [remaining_of_skipped hskip.2]
      exact eq_remaining_of_eliminateFrom ss h
    · obtain ⟨s', hs, h⟩ := bind_eq_some_iff.mp h
      obtain ⟨ss₁, hss, heq⟩ := bind_eq_some_iff.mp h
      cases heq
      rw [remaining_cons (eq_false_of_not_eq_true hskip),
        eq_mapBlocks_of_eliminateStatement s hs, eq_remaining_of_eliminateFrom ss hss]

lemma eq_mapBlocks_of_eliminateCases (cs : List Case) {cs' : List Case}
    (h : eliminateCases dialect cs = some cs') :
    cs' = mapBlocksOfCases (eraseUnreachable dialect) cs := by
  match cs with
  | [] =>
    cases h
    rfl
  | .mk value body :: cs =>
    obtain ⟨body', hbody, h⟩ := bind_eq_some_iff.mp h
    obtain ⟨cs₁, hcs, heq⟩ := bind_eq_some_iff.mp h
    cases heq
    rw [eq_remaining_of_eliminateFrom body hbody, eq_mapBlocks_of_eliminateCases cs hcs]
    rfl

end

mutual

lemma exists_eliminateStatement (s : Statement) (h : s.every Statement.initEmpty) :
    ∃ s', eliminateStatement dialect s = some s' := by
  match s with
  | .expressionStatement _ | .assignment _ _ | .variableDeclaration _ _ | .break | .continue =>
    exact ⟨_, rfl⟩
  | .functionDefinition f ps rs body =>
    obtain ⟨body', hbody⟩ :=
      exists_eliminateFrom body (every_function.mp h).2 false
    exact ⟨_, bind_eq_some_iff.mpr ⟨body', hbody, rfl⟩⟩
  | .if c body =>
    obtain ⟨body', hbody⟩ := exists_eliminateFrom body (every_if.mp h).2 false
    exact ⟨_, bind_eq_some_iff.mpr ⟨body', hbody, rfl⟩⟩
  | .switch e cases =>
    obtain ⟨cases', hcases⟩ := exists_eliminateCases cases (every_switch.mp h).2
    exact ⟨_, bind_eq_some_iff.mpr ⟨cases', hcases, rfl⟩⟩
  | .forLoop (_ :: _) c post body => exact absurd (every_forLoop.mp h).1 (by nofun)
  | .forLoop [] c post body =>
    obtain ⟨-, -, hpost, hbody⟩ := every_forLoop.mp h
    obtain ⟨post', hpost⟩ := exists_eliminateFrom post hpost false
    obtain ⟨body', hbody⟩ := exists_eliminateFrom body hbody false
    exact ⟨_, bind_eq_some_iff.mpr
      ⟨post', hpost, bind_eq_some_iff.mpr ⟨body', hbody, rfl⟩⟩⟩
  | .block ss =>
    obtain ⟨ss', hss⟩ := exists_eliminateFrom ss (every_block.mp h).2 false
    exact ⟨_, bind_eq_some_iff.mpr ⟨ss', hss, rfl⟩⟩

lemma exists_eliminateFrom (ss : List Statement)
    (h : everyStatement Statement.initEmpty ss) (unreachable : Bool) :
    ∃ ss', eliminateFrom dialect unreachable ss = some ss' := by
  match ss with
  | [] => exact ⟨[], rfl⟩
  | s :: ss =>
    obtain ⟨hs, hss⟩ := everyStatement_cons.mp h
    rw [eliminateFrom]
    split_ifs
    · exact exists_eliminateFrom ss hss unreachable
    · obtain ⟨s', hs'⟩ := exists_eliminateStatement s hs
      obtain ⟨ss', hss'⟩ := exists_eliminateFrom ss hss
        (unreachable || controlFlowKind dialect s ≠ .flowOut)
      exact ⟨_, bind_eq_some_iff.mpr
        ⟨s', hs', bind_eq_some_iff.mpr ⟨ss', hss', rfl⟩⟩⟩

lemma exists_eliminateCases (cs : List Case) (h : everyCase Statement.initEmpty cs) :
    ∃ cs', eliminateCases dialect cs = some cs' := by
  match cs with
  | [] => exact ⟨[], rfl⟩
  | .mk value body :: cs =>
    obtain ⟨hbody, hcs⟩ := everyCase_cons.mp h
    obtain ⟨body', hbody'⟩ := exists_eliminateFrom body hbody false
    obtain ⟨cs', hcs'⟩ := exists_eliminateCases cs hcs
    exact ⟨_, bind_eq_some_iff.mpr
      ⟨body', hbody', bind_eq_some_iff.mpr ⟨cs', hcs', rfl⟩⟩⟩

end

variable {World : Type} {I : Interpreter World} {F : Functions} {V : Variables}
  {m : SvmState World}

lemma exec_of_controlFlowKind (h : controlFlowKind I.dialect s ≠ .flowOut) :
    (s.exec I F V m).Returns fun r _ => r.1 ≠ .default := by
  cases s with
  | expressionStatement e =>
    rw [controlFlowKind] at h
    split_ifs at h with he
    · exact (eval_of_isTerminatingBuiltin he).map fun _ _ hfalse => hfalse.elim
    · exact absurd rfl h
  | «break» | «continue» => exact .ok nofun
  | _ => exact absurd rfl h

lemma keepsStatements_eraseUnreachable (dialect : Dialect) :
    KeepsStatements dialect (eraseUnreachable dialect) where
  exec I hI F V ss m := by
    induction ss generalizing V m with
    | nil => rfl
    | cons s ss ih =>
      by_cases hs : controlFlowKind dialect s = .flowOut
      · rw [eraseUnreachable_cons_of_flowOut hs, execStatements_cons, execStatements_cons]
        refine Result.bind_congr _ fun r m₁ _ => ?_
        rw [ih]
      · rw [eraseUnreachable_cons_of_ne hs, execStatements_cons, execStatements_cons]
        refine Result.bind_congr _ fun r m₁ hr => ?_
        have hne := exec_of_controlFlowKind (by rwa [hI]) r m₁ hr
        rw [if_neg hne, if_neg hne]
  definitions ss := by
    induction ss with
    | nil => rfl
    | cons s ss ih =>
      by_cases hs : controlFlowKind dialect s = .flowOut
      · rw [eraseUnreachable_cons_of_flowOut hs, definitions_cons, ih,
          ← definitions_cons]
      · rw [eraseUnreachable_cons_of_ne hs, definitions_cons, definitions_filter,
          ← definitions_cons]

end

section

variable {dialect : Dialect} {s : Statement} {ss : List Statement}

lemma statementsValid_eraseUnreachable {Γ : Scope} (h : statementsValid dialect Γ ss) :
    statementsValid dialect Γ (eraseUnreachable dialect ss) := by
  induction ss generalizing Γ with
  | nil => rfl
  | cons s ss ih =>
    rw [statementsValid, and_eq_true] at h
    by_cases hs : controlFlowKind dialect s = .flowOut
    · rw [eraseUnreachable_cons_of_flowOut hs, statementsValid, h.1, ih h.2]
      rfl
    · rw [eraseUnreachable_cons_of_ne hs, statementsValid, h.1,
        statementsValid_filter rfl rfl h.2]
      rfl

lemma keepsValidity_eraseUnreachable (dialect : Dialect) :
    KeepsValidity dialect (eraseUnreachable dialect) where
  statements := keepsStatements_eraseUnreachable dialect
  valid _ _ := statementsValid_eraseUnreachable
  nil := rfl

end

end DeadCodeEliminator

open DeadCodeEliminator

/-- The step succeeds on programs without init parts; every name that is used in the result is
visible there, and it has the same runs. -/
theorem deadCodeEliminator_sameRuns {dialect : Dialect} {ss : Block}
    (hvalid : Block.valid dialect ss = true)
    (hinit : everyStatement Statement.initEmpty ss = true) :
    ∃ ss', DeadCodeEliminator.run dialect ss = some ss' ∧ Block.valid dialect ss' = true ∧
      ∀ (World : Type) (env : Environment World), SameRuns env dialect ss ss' := by
  obtain ⟨ss', hss'⟩ : ∃ ss', eliminate dialect ss = some ss' :=
    exists_eliminateFrom ss hinit false
  have heq : ss' = Block.mapBlocks (eraseUnreachable dialect) ss :=
    eq_remaining_of_eliminateFrom ss hss'
  refine ⟨ss', hss', ?_, fun World env => ?_⟩
  · rw [heq]
    exact blockValid_mapBlocks (keepsValidity_eraseUnreachable dialect) ss hvalid hinit
  · rw [heq]
    exact sameRuns_mapBlocks (keepsStatements_eraseUnreachable dialect) env ss

/-- `{ for {} 1 {} { sstore(0, f()) break  let x := 1  function f() -> y { return(0, 0)  y := 2 } }
stop()  sstore(1, 2) }` -/
def codeAfterJumps : Block :=
  [.forLoop [] (.literal (.number "1")) []
      [.expressionStatement (.functionCall "sstore" [.literal (.number "0"), .functionCall "f" []]),
        .break,
        .variableDeclaration [⟨"x", ""⟩] (some (.literal (.number "1"))),
        .functionDefinition "f" [] [⟨"y", ""⟩]
          [.expressionStatement
              (.functionCall "return" [.literal (.number "0"), .literal (.number "0")]),
            .assignment ["y"] (.literal (.number "2"))]],
    .expressionStatement (.functionCall "stop" []),
    .expressionStatement
      (.functionCall "sstore" [.literal (.number "1"), .literal (.number "2")])]

theorem deadCodeEliminator_sameRuns_codeAfterJumps :
    ∃ ss', DeadCodeEliminator.run .strictAssemblyForSVMObjects codeAfterJumps = some ss' ∧
      Block.valid .strictAssemblyForSVMObjects ss' = true ∧
      ∀ (World : Type) (env : Environment World),
        SameRuns env .strictAssemblyForSVMObjects codeAfterJumps ss' :=
  deadCodeEliminator_sameRuns (by decide) (by decide)

end Yul
