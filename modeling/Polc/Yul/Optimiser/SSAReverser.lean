import Polc.Yul.Optimiser.BlockPass

/-!
# The SSA reverser

`libyul/optimiser/SSAReverser.cpp`: pairs `let a := e  v := a` and `let a := e  let v := a` become
`v := e  let a := v` and `let v := e  let a := v`. The step keeps the meaning of a program, but the
program is not valid any more if a pair `let a := e  a := a` is rewritten.
-/

namespace Yul

open Sof Semantics List
open Bool (and_eq_true)

/-- Replace windows of two elements, from left to right. After a replacement the next window
begins behind the replaced one, otherwise one element further. -/
def iterateReplacingWindow {α : Type} (f : α → α → Option (List α)) : List α → List α
  | x :: y :: rest =>
    match f x y with
    | some r => r ++ iterateReplacingWindow f rest
    | none => x :: iterateReplacingWindow f (y :: rest)
  | xs => xs

/-- The first list is cut into single elements, which stay, and windows, which are replaced. -/
def ReplacesWindows {α : Type} (f : α → α → Option (List α)) (xs ys : List α) : Prop :=
  ∃ parts : List (List α × List α), xs = parts.flatMap (·.1) ∧ ys = parts.flatMap (·.2) ∧
    ∀ p ∈ parts, (∃ x, p = ([x], [x])) ∨ ∃ x y r, f x y = some r ∧ p = ([x, y], r)

/-- No element is skipped, and what replaces a window is not visited again. -/
theorem iterateReplacingWindow_parts {α : Type} (f : α → α → Option (List α)) (xs : List α) :
    ReplacesWindows f xs (iterateReplacingWindow f xs) := by
  match xs with
  | [] => exact ⟨[], rfl, rfl, nofun⟩
  | [x] => exact ⟨[([x], [x])], rfl, rfl, fun p hp => .inl ⟨x, mem_singleton.mp hp⟩⟩
  | x :: y :: rest =>
    rw [iterateReplacingWindow]
    cases hf : f x y with
    | some r =>
      obtain ⟨parts, hxs, hout, hparts⟩ := iterateReplacingWindow_parts f rest
      refine ⟨([x, y], r) :: parts, by rw [flatMap_cons, ← hxs]; rfl,
        by rw [flatMap_cons, ← hout], fun p hp => ?_⟩
      rcases mem_cons.mp hp with rfl | hp
      · exact .inr ⟨x, y, r, hf, rfl⟩
      · exact hparts p hp
    | none =>
      obtain ⟨parts, hxs, hout, hparts⟩ := iterateReplacingWindow_parts f (y :: rest)
      refine ⟨([x], [x]) :: parts, by rw [flatMap_cons, ← hxs]; rfl,
        by rw [flatMap_cons, ← hout]; rfl, fun p hp => ?_⟩
      rcases mem_cons.mp hp with rfl | hp
      · exact .inl ⟨x, rfl⟩
      · exact hparts p hp

namespace SSAReverser

section

variable (assignmentCount : YulString → Nat)

/-- What replaces two statements. -/
def reversePair : Statement → Statement → Option (List Statement)
  | .variableDeclaration [a] (some e), .assignment [v] (.identifier x) =>
    if x = a.name then
      some [.assignment [v] e, .variableDeclaration [a] (some (.identifier v))]
    else none
  | .variableDeclaration [a] (some e), .variableDeclaration [v] (some (.identifier x)) =>
    if x = a.name ∧ assignmentCount a.name < assignmentCount v.name then
      some [.variableDeclaration [v] (some e), .variableDeclaration [a] (some (.identifier v.name))]
    else none
  | _, _ => none

/-- Rewrite the statements of a block. -/
def reverse (ss : Block) : Block := iterateReplacingWindow (reversePair assignmentCount) ss

end

/-- Run the step on a program. -/
def run (ss : Block) : Block :=
  Block.mapBlocks (reverse fun x => (assignmentsOfStatements ss).count x) ss

/-! ### Rewritten statements -/

section

variable {assignmentCount : YulString → Nat} {s t : Statement} {out : List Statement}

lemma reversePair_cases (h : reversePair assignmentCount s t = some out) :
    (∃ (a : TypedName) (e : Expression) (v : YulString),
      s = .variableDeclaration [a] (some e) ∧ t = .assignment [v] (.identifier a.name) ∧
        out = [.assignment [v] e, .variableDeclaration [a] (some (.identifier v))]) ∨
    ∃ (a : TypedName) (e : Expression) (v : TypedName),
      s = .variableDeclaration [a] (some e) ∧
        t = .variableDeclaration [v] (some (.identifier a.name)) ∧
        out = [.variableDeclaration [v] (some e),
          .variableDeclaration [a] (some (.identifier v.name))] := by
  unfold reversePair at h
  split at h
  · rename_i a e v x
    split_ifs at h with hx
    cases h
    exact .inl ⟨a, e, v, rfl, by rw [hx], rfl⟩
  · rename_i a e v x
    split_ifs at h with hx
    cases h
    exact .inr ⟨a, e, v, rfl, by rw [hx.1], rfl⟩
  · cases h

lemma exec_reversePair {World : Type} (h : reversePair assignmentCount s t = some out)
    (I : Interpreter World) (F : Functions) (V : Variables) (m : SvmState World) :
    execStatements I F V out m = execStatements I F V [s, t] m := by
  have hvalue (a v : YulString) (vs : List Word) :
      (V.assign [v] vs).assign [a] [((V.assign [v] vs) v).getD 0] =
        (V.assign [a] vs).assign [v] [((V.assign [a] vs) a).getD 0] := by
    simp only [Variables.assign_cons, Variables.assign_nil, Variables.set_self, Option.getD_some,
      headD_cons]
    by_cases hav : a = v
    · rw [hav]
    · exact Variables.set_comm fun h => hav h.symm
  rcases reversePair_cases h with ⟨a, e, v, rfl, rfl, rfl⟩ | ⟨a, e, v, rfl, rfl, rfl⟩
  · rw [execStatements_cons, execStatements_cons, exec_assignment, exec_declaration,
      Expression.evaluateMulti]
    cases e.eval I F V m with
    | ok vs m₁ =>
      rw [Result.map_ok, Result.map_ok, Result.bind_ok, Result.bind_ok, if_pos rfl, if_pos rfl,
        exec_singleton, exec_singleton, exec_declaration,
        exec_assignment]
      exact congrArg (fun W => Result.ok (LoopState.default, W) m₁) (hvalue a.name v vs)
    | _ => rfl
  · rw [execStatements_cons, execStatements_cons, exec_declaration,
      exec_declaration, Expression.evaluateMulti]
    cases e.eval I F V m with
    | ok vs m₁ =>
      rw [Result.map_ok, Result.map_ok, Result.bind_ok, Result.bind_ok, if_pos rfl, if_pos rfl,
        exec_singleton, exec_singleton, exec_declaration,
        exec_declaration]
      exact congrArg (fun W => Result.ok (LoopState.default, W) m₁) (hvalue a.name v.name vs)
    | _ => rfl

lemma definitions_reversePair (h : reversePair assignmentCount s t = some out) :
    functionDefinitions out = functionDefinitions [s, t] := by
  rcases reversePair_cases h with ⟨a, e, v, rfl, rfl, rfl⟩ | ⟨a, e, v, rfl, rfl, rfl⟩ <;> rfl

lemma keepsStatements_reverse (dialect : Dialect) :
    KeepsStatements dialect (reverse assignmentCount) where
  exec I _ F V ss m := by
    obtain ⟨parts, hss, hout, hparts⟩ :=
      iterateReplacingWindow_parts (reversePair assignmentCount) ss
    rw [reverse, hout, hss]
    clear hss hout
    induction parts generalizing V m with
    | nil => rfl
    | cons p parts ih =>
      have hp : ∀ V m, execStatements I F V p.2 m = execStatements I F V p.1 m := by
        rcases hparts p mem_cons_self with ⟨x, rfl⟩ | ⟨x, y, r, hr, rfl⟩
        · exact fun _ _ => rfl
        · exact exec_reversePair hr I F
      rw [flatMap_cons, flatMap_cons, execStatements_append, execStatements_append, hp]
      apply Result.bind_congr
      intro r m₁ _
      rw [ih _ _ fun p hp => hparts p (mem_cons_of_mem _ hp)]
  definitions ss := by
    obtain ⟨parts, hss, hout, hparts⟩ :=
      iterateReplacingWindow_parts (reversePair assignmentCount) ss
    rw [reverse, hout, hss]
    clear hss hout
    induction parts with
    | nil => rfl
    | cons p parts ih =>
      have hp : functionDefinitions p.2 = functionDefinitions p.1 := by
        rcases hparts p mem_cons_self with ⟨x, rfl⟩ | ⟨x, y, r, hr, rfl⟩
        · rfl
        · exact definitions_reversePair hr
      rw [flatMap_cons, flatMap_cons, definitions_append,
        definitions_append, hp, ih fun p hp => hparts p (mem_cons_of_mem _ hp)]

end

/-- The pair is `let a := e  a := a`. -/
def assignsToItself : Statement → Statement → Bool
  | .variableDeclaration [a] (some _), .assignment [v] (.identifier x) => x = a.name && v = a.name
  | _, _ => false

section

variable (assignmentCount : YulString → Nat)

mutual

/-- A pair `let a := e  a := a` in the statement is replaced. -/
def reversesSelfAssignment : Statement → Bool
  | .functionDefinition _ _ _ body | .if _ body | .block body => reversesSelfAssignmentIn body
  | .switch _ cases => casesReverseSelfAssignment cases
  | .forLoop pre _ post body =>
    reversesSelfAssignmentIn pre || reversesSelfAssignmentIn post || reversesSelfAssignmentIn body
  | _ => false

/-- A pair `let a := e  a := a` in the block is replaced. -/
def reversesSelfAssignmentIn : List Statement → Bool
  | s :: t :: ss =>
    match reversePair assignmentCount s t with
    | some _ => assignsToItself s t || reversesSelfAssignmentIn ss
    | none => reversesSelfAssignment s || reversesSelfAssignmentIn (t :: ss)
  | [s] => reversesSelfAssignment s
  | [] => false

def casesReverseSelfAssignment : List Case → Bool
  | [] => false
  | .mk _ body :: cs => reversesSelfAssignmentIn body || casesReverseSelfAssignment cs

end

end

/-! ### When the rewritten program is valid -/

section

variable {assignmentCount : YulString → Nat} {dialect : Dialect} {s t : Statement}
  {ss out rest rest' : List Statement}

lemma valid_reversePair_iff (h : reversePair assignmentCount s t = some out) {Γ : Scope}
    (hvalid : statementsValid dialect Γ (s :: t :: rest)) {P : Prop}
    (hrest : ∀ Γ, statementsValid dialect Γ rest →
      (statementsValid dialect Γ rest' ↔ P)) :
    statementsValid dialect Γ (out ++ rest') ↔ assignsToItself s t = false ∧ P := by
  have hidentifier (Γ : Scope) (x : YulString) : (Expression.identifier x).returns dialect Γ = 1 := rfl
  rcases reversePair_cases h with ⟨a, e, v, rfl, rfl, rfl⟩ | ⟨a, e, v, rfl, rfl, rfl⟩
  · simp only [statementsValid, and_eq_true, valid_declaration, valueValid,
      valid_assignment, all_cons, all_nil, Bool.and_true, decide_eq_true_eq,
      length_singleton, Statement.declares] at hvalid
    obtain ⟨⟨⟨-, ha⟩, he, hreturns⟩, ⟨⟨hv, -⟩, -⟩, hvalidRest⟩ := hvalid
    have hP := hrest _ hvalidRest
    have hself : v ∈ Γ.locals ↔ v ≠ a.name := by
      constructor
      · rintro hmem rfl
        exact ha hmem
      · intro hne
        exact (mem_cons.mp hv).resolve_left hne
    have hitself : assignsToItself (.variableDeclaration [a] (some e))
        (.assignment [v] (.identifier a.name)) = false ↔ v ≠ a.name := by
      simp [assignsToItself]
    rw [hitself, ← hself, cons_append, cons_append, statementsValid,
      statementsValid, and_eq_true, and_eq_true, valid_assignment,
      valid_declaration]
    constructor
    · rintro ⟨hassign, -, hr⟩
      rw [and_eq_true, and_eq_true] at hassign
      exact ⟨by simpa using hassign.1.1, hP.mp hr⟩
    · rintro ⟨hmem, hp⟩
      refine ⟨by simp [hmem, he, hreturns], ?_, hP.mpr hp⟩
      simp [ha, hmem, valueValid, hidentifier, Statement.declares]
  · simp only [statementsValid, and_eq_true, valid_declaration, valueValid,
      all_cons, all_nil, Bool.and_true, decide_eq_true_eq, length_singleton,
      Statement.declares] at hvalid
    obtain ⟨⟨⟨-, ha⟩, he, hreturns⟩, ⟨⟨-, hv⟩, -⟩, hvalidRest⟩ := hvalid
    have hP := hrest _ hvalidRest
    have hne : a.name ≠ v.name := fun heq => hv (heq ▸ mem_cons_self)
    have hv' : v.name ∉ Γ.locals := fun hmem => hv (mem_cons_of_mem _ hmem)
    have hitself : assignsToItself (.variableDeclaration [a] (some e))
        (.variableDeclaration [v] (some (.identifier a.name))) = false := rfl
    have hscope : statementsValid dialect ((Γ.declare [v.name]).declare [a.name]) rest' =
        statementsValid dialect ((Γ.declare [a.name]).declare [v.name]) rest' :=
      statementsValid_congr (fun x => by simp [or_left_comm]) rfl rfl
    have hpair : statementsValid dialect Γ
        ([.variableDeclaration [v] (some e),
          .variableDeclaration [a] (some (.identifier v.name))] ++ rest') =
        statementsValid dialect ((Γ.declare [v.name]).declare [a.name]) rest' := by
      rw [cons_append, cons_append, statementsValid, statementsValid,
        valid_declaration, valid_declaration]
      simp [ha, hv', hne, he, hreturns, valueValid, hidentifier, Statement.declares]
    rw [hpair, hscope, hitself]
    exact ⟨fun hr => ⟨rfl, hP.mp hr⟩, fun hr => hP.mpr hr.2⟩

lemma reversePair_mapBlocks (f : Block → Block) (s t : Statement) :
    reversePair assignmentCount (s.mapBlocks f) (t.mapBlocks f) =
      reversePair assignmentCount s t := by
  cases s with
  | variableDeclaration xs value =>
    rcases xs with _ | ⟨a, _ | ⟨b, xs⟩⟩
    · rfl
    · cases value with
      | none => rfl
      | some e => cases t <;> rfl
    · rfl
  | _ => rfl

lemma mem_declares_reverse (x : YulString) (ss : List Statement) :
    x ∈ (reverse assignmentCount ss).flatMap (·.declares) ↔ x ∈ ss.flatMap (·.declares) := by
  obtain ⟨parts, hss, hout, hparts⟩ :=
    iterateReplacingWindow_parts (reversePair assignmentCount) ss
  rw [reverse, hout, hss]
  clear hss hout
  induction parts with
  | nil => rfl
  | cons p parts ih =>
    have hp : x ∈ p.2.flatMap (·.declares) ↔ x ∈ p.1.flatMap (·.declares) := by
      rcases hparts p mem_cons_self with ⟨s, rfl⟩ | ⟨s, t, r, hr, rfl⟩
      · rfl
      · rcases reversePair_cases hr with ⟨a, e, v, rfl, rfl, rfl⟩ | ⟨a, e, v, rfl, rfl, rfl⟩
        · rfl
        · simp [Statement.declares, or_comm]
    rw [flatMap_cons, flatMap_cons, flatMap_append, flatMap_append,
      mem_append, mem_append, hp, ih fun p hp => hparts p (mem_cons_of_mem _ hp)]

lemma visibleFunctions_reverse (ss : Block) :
    visibleFunctions (Block.mapBlocks (reverse assignmentCount) ss) = visibleFunctions ss :=
  visibleFunctions_mapBlocks (keepsStatements_reverse .strictAssemblyForSVMObjects) ss

lemma blockValid_mapBlocks_iff {ss : Block} {P : Prop}
    (h : ∀ {Γ : Scope}, statementsValid dialect Γ ss →
      (statementsValid dialect Γ (Block.mapBlocks (reverse assignmentCount) ss) ↔ P))
    {Γ : Scope} (hvalid : statementsValid dialect (Γ.register ss) ss) :
    statementsValid dialect (Γ.register (Block.mapBlocks (reverse assignmentCount) ss))
      (Block.mapBlocks (reverse assignmentCount) ss) ↔ P := by
  rw [Scope.register_congr (visibleFunctions_reverse ss)]
  exact h hvalid

mutual

/-- The rewritten statement is valid unless a pair that is replaced assigns a variable to itself. -/
lemma valid_mapBlocks_iff (s : Statement) {Γ : Scope} (hvalid : s.valid dialect Γ) :
    (s.mapBlocks (reverse assignmentCount)).valid dialect Γ ↔
      reversesSelfAssignment assignmentCount s = false := by
  match s with
  | .expressionStatement _ | .assignment _ _ | .variableDeclaration _ _ | .break | .continue =>
    exact iff_of_true hvalid rfl
  | .functionDefinition f ps rs body =>
    rw [valid_function, and_eq_true] at hvalid
    rw [Statement.mapBlocks, valid_function, and_eq_true,
      reversesSelfAssignment, ← blockValid_mapBlocks_iff (statementsValid_mapBlocks_iff body) hvalid.2]
    exact and_iff_right hvalid.1
  | .if c body =>
    rw [valid_if, and_eq_true] at hvalid
    rw [Statement.mapBlocks, valid_if, and_eq_true, reversesSelfAssignment,
      ← blockValid_mapBlocks_iff (statementsValid_mapBlocks_iff body) hvalid.2]
    exact and_iff_right hvalid.1
  | .switch e cases =>
    rw [valid_switch, and_eq_true] at hvalid
    rw [Statement.mapBlocks, valid_switch, and_eq_true, reversesSelfAssignment,
      ← casesValid_mapBlocks_iff cases hvalid.2]
    exact and_iff_right hvalid.1
  | .forLoop pre c post body =>
    simp only [valid_forLoop, and_eq_true, decide_eq_true_eq] at hvalid
    obtain ⟨⟨⟨⟨hpre, hc⟩, hreturns⟩, hpost⟩, hbody⟩ := hvalid
    -- The init part declares the same variables, maybe in another order.
    have hmem (x : YulString) :
        x ∈ (Block.mapBlocks (reverse assignmentCount) pre).flatMap (·.declares) ↔
          x ∈ pre.flatMap (·.declares) := by
      rw [Block.mapBlocks, mem_declares_reverse, flatMap_declares_mapBlocks]
    have hlocals {k : ForLoopComponent} (ss ts : Block) : statementsValid dialect
        (((Γ.declare ((Block.mapBlocks (reverse assignmentCount) pre).flatMap
          (·.declares))).enter k).register ss) ts =
        statementsValid dialect
          (((Γ.declare (pre.flatMap (·.declares))).enter k).register ss) ts := by
      refine statementsValid_congr (fun x => ?_) ?_ ?_
      · rw [Scope.locals_register, Scope.locals_register, Scope.locals_enter, Scope.locals_enter,
          Scope.locals_declare, Scope.locals_declare, mem_append, mem_append, hmem]
      · rw [Scope.register_eq, Scope.register_eq]
        rfl
      · rw [Scope.register_eq, Scope.register_eq]
        rfl
    obtain ⟨hc', hreturns'⟩ := c.valid_of_extends
      ((Scope.Extends.refl Γ).declare fun x hx => (hmem x).mpr hx) hc
    simp only [Statement.mapBlocks_forLoop, valid_forLoop, and_eq_true, hlocals, hc',
      hreturns'.trans hreturns, reversesSelfAssignment, Bool.or_eq_false_iff]
    rw [statementsValid_mapBlocks_iff pre hpre, blockValid_mapBlocks_iff (statementsValid_mapBlocks_iff post) hpost,
      blockValid_mapBlocks_iff (statementsValid_mapBlocks_iff body) hbody]
    simp
  | .block ss => exact blockValid_mapBlocks_iff (statementsValid_mapBlocks_iff ss) hvalid

lemma statementsValid_mapBlocks_iff (ss : List Statement) {Γ : Scope}
    (hvalid : statementsValid dialect Γ ss) :
    statementsValid dialect Γ (Block.mapBlocks (reverse assignmentCount) ss) ↔
      reversesSelfAssignmentIn assignmentCount ss = false := by
  match ss with
  | [] => exact iff_of_true rfl rfl
  | [s] =>
    rw [statementsValid, and_eq_true] at hvalid
    rw [reversesSelfAssignmentIn, ← valid_mapBlocks_iff s hvalid.1]
    simp [Block.mapBlocks, mapBlocksOfStatements, reverse, iterateReplacingWindow]
  | s :: t :: ss =>
    rw [Block.mapBlocks, mapBlocksOfStatements, mapBlocksOfStatements, reverse,
      iterateReplacingWindow, reversePair_mapBlocks, reversesSelfAssignmentIn]
    cases hpair : reversePair assignmentCount s t with
    | some out =>
      simp only [Bool.or_eq_false_iff]
      refine valid_reversePair_iff hpair hvalid fun Γ hss => ?_
      exact statementsValid_mapBlocks_iff ss hss
    | none =>
      rw [statementsValid, and_eq_true] at hvalid
      simp only [statementsValid, and_eq_true, Bool.or_eq_false_iff,
        declares_mapBlocks]
      exact and_congr (valid_mapBlocks_iff s hvalid.1)
        (statementsValid_mapBlocks_iff (t :: ss) hvalid.2)

lemma casesValid_mapBlocks_iff (cs : List Case) {Γ : Scope}
    (hvalid : casesValid dialect Γ cs) :
    casesValid dialect Γ (mapBlocksOfCases (reverse assignmentCount) cs) ↔
      casesReverseSelfAssignment assignmentCount cs = false := by
  match cs with
  | [] => exact iff_of_true rfl rfl
  | .mk value body :: cs =>
    rw [casesValid, and_eq_true, and_eq_true] at hvalid
    simp only [mapBlocksOfCases_cons, casesValid, and_eq_true, casesReverseSelfAssignment,
      Bool.or_eq_false_iff]
    rw [blockValid_mapBlocks_iff (statementsValid_mapBlocks_iff body) hvalid.1.2, casesValid_mapBlocks_iff cs hvalid.2]
    exact and_congr_left fun _ => and_iff_right hvalid.1.1

end

end

end SSAReverser

/-- A pair `let a := e  a := a` of the program is replaced: it is not valid afterwards. -/
def Block.ReversesSelfAssignment (ss : Block) : Prop :=
  SSAReverser.reversesSelfAssignmentIn (fun x => (assignmentsOfStatements ss).count x) ss = true

instance (ss : Block) : Decidable (Block.ReversesSelfAssignment ss) :=
  inferInstanceAs (Decidable (_ = true))

/-- The pass does what it is for: in every list of statements windows are replaced, none of them
twice, and the result is a valid program with the same runs. -/
def SSAReverser.KeepsMeaning (dialect : Dialect) (ss : Block) : Prop :=
  (∀ count ts, ReplacesWindows (reversePair count) ts (reverse count ts)) ∧
    Block.valid dialect (run ss) = true ∧
      ∀ (World : Type) (env : Environment World), SameRuns env dialect ss (run ss)

/-- The step keeps the meaning of every program in which no pair `let a := e  a := a` is replaced,
and of no other one. -/
theorem ssaReverser_sameRuns_iff {dialect : Dialect} {ss : Block}
    (hss : Block.Disambiguated dialect ss) :
    SSAReverser.KeepsMeaning dialect ss ↔ ¬ Block.ReversesSelfAssignment ss := by
  rw [Block.ReversesSelfAssignment, Bool.not_eq_true, ← SSAReverser.blockValid_mapBlocks_iff
    (SSAReverser.statementsValid_mapBlocks_iff ss) hss.valid]
  constructor
  · intro h
    exact h.2.1
  · intro h
    refine ⟨fun count ts => iterateReplacingWindow_parts _ ts, h, fun World env => ?_⟩
    exact sameRuns_mapBlocks (SSAReverser.keepsStatements_reverse dialect) env ss

/-- `let a := calldataload(0)  let v := a  v := add(v, 1)  let b := calldataload(v)  v := b
sstore(v, a)` -/
def twoCopies : Block :=
  [.variableDeclaration [⟨"a", ""⟩]
      (some (.functionCall "calldataload" [.literal (.number "0")])),
    .variableDeclaration [⟨"v", ""⟩] (some (.identifier "a")),
    .assignment ["v"] (.functionCall "add" [.identifier "v", .literal (.number "1")]),
    .variableDeclaration [⟨"b", ""⟩] (some (.functionCall "calldataload" [.identifier "v"])),
    .assignment ["v"] (.identifier "b"),
    .expressionStatement (.functionCall "sstore" [.identifier "v", .identifier "a"])]

theorem ssaReverser_sameRuns_iff_twoCopies :
    SSAReverser.KeepsMeaning .strictAssemblyForSVMObjects twoCopies :=
  (ssaReverser_sameRuns_iff (by decide)).mpr (by decide)

/-- `let a := calldataload(0)  a := a  sstore(0, a)` -/
def selfAssignment : Block :=
  [.variableDeclaration [⟨"a", ""⟩]
      (some (.functionCall "calldataload" [.literal (.number "0")])),
    .assignment ["a"] (.identifier "a"),
    .expressionStatement (.functionCall "sstore" [.literal (.number "0"), .identifier "a"])]

/-- The result assigns to `a` before it is declared and uses it in its own declaration. -/
theorem ssaReverser_invalidProgram :
    Block.Disambiguated .strictAssemblyForSVMObjects selfAssignment ∧
      ¬ SSAReverser.KeepsMeaning .strictAssemblyForSVMObjects selfAssignment := by
  refine ⟨by decide, ?_⟩
  rintro ⟨-, hvalid, -⟩
  revert hvalid
  decide

end Yul
