import Polc.Yul.Optimiser.Prerequisites

/-!
# The control flow simplifier

`libyul/optimiser/ControlFlowSimplifier.cpp`: empty branches are removed, switches with at most one
case become conditionals, and so do loops that never run twice.
-/

namespace Yul

open Sof Semantics List Option Result Bool

namespace ControlFlowSimplifier

/-! ### The step -/

/-- How many `break` and `continue` statements were visited in the current loop. -/
structure Jumps where
  numBreakStatements : Nat
  numContinueStatements : Nat
  deriving DecidableEq

def makePopExpressionStatement (e : Expression) : Statement :=
  .expressionStatement (.functionCall "pop" [e])

def removeEmptyDefaultFromSwitch (cases : List Case) : List Case :=
  cases.filter fun c => !(c.value.isNone && c.body.isEmpty)

def removeEmptyCasesFromSwitch (cases : List Case) : List Case :=
  if cases.any (·.value.isNone) then cases else cases.filter fun c => !c.body.isEmpty

def reduceSingleCaseSwitch (e : Expression) : Case → List Statement
  | .mk (some l) body => [.if (.functionCall "eq" [.literal l, e]) body]
  | .mk none body => [makePopExpressionStatement e, .block body]

/-- What replaces a switch. -/
def simplifySwitch (e : Expression) (cases : List Case) : List Statement :=
  match removeEmptyCasesFromSwitch (removeEmptyDefaultFromSwitch cases) with
  | [] => [makePopExpressionStatement e]
  | [c] => reduceSingleCaseSwitch e c
  | cases => [.switch e cases]

/-- What replaces a loop in which the given jumps were visited. -/
def simplifyForLoop (dialect : Dialect) (jumps : Jumps) (condition : Expression)
    (post body : Block) : Statement :=
  match body.getLast?.map (TerminationFinder.controlFlowKind dialect) with
  | some .break =>
    if jumps.numContinueStatements = 0 ∧ jumps.numBreakStatements - 1 = 0 then
      .if condition body.dropLast
    else .forLoop [] condition post body
  | some .terminate =>
    if jumps.numContinueStatements = 0 ∧ jumps.numBreakStatements = 0 then .if condition body
    else .forLoop [] condition post body
  | _ => .forLoop [] condition post body

section

variable (dialect : Dialect)

mutual

/-- The statements that replace a statement, which are visited, and the jumps so far. Bodies that
are empty stay empty and others do not become empty, so the cases of a switch are removed only
after the visit. It is asserted that loops have no init part. -/
def simplifyStatement (jumps : Jumps) : Statement → Option (List Statement × Jumps)
  | .functionDefinition f ps rs body => do
    let (body, jumps) ← simplify jumps body
    some ([.functionDefinition f ps rs body], jumps)
  | .if c [] => some ([makePopExpressionStatement c], jumps)
  | .if c (s :: ss) => do
    let (body, jumps) ← simplify jumps (s :: ss)
    some ([.if c body], jumps)
  | .switch e cases => do
    let (cases, jumps) ← simplifyCases jumps cases
    some (simplifySwitch e cases, jumps)
  | .forLoop (_ :: _) _ _ _ => none
  | .forLoop [] c post body => do
    let (post, inner) ← simplify ⟨0, 0⟩ post
    let (body, inner) ← simplify inner body
    some ([simplifyForLoop dialect inner c post body], jumps)
  | .break => some ([.break], { jumps with numBreakStatements := jumps.numBreakStatements + 1 })
  | .continue =>
    some ([.continue], { jumps with numContinueStatements := jumps.numContinueStatements + 1 })
  | .block ss => do
    let (ss, jumps) ← simplify jumps ss
    some ([.block ss], jumps)
  | s => some ([s], jumps)

def simplify (jumps : Jumps) : List Statement → Option (List Statement × Jumps)
  | [] => some ([], jumps)
  | s :: ss => do
    let (s, jumps) ← simplifyStatement jumps s
    let (ss, jumps) ← simplify jumps ss
    some (s ++ ss, jumps)

def simplifyCases (jumps : Jumps) : List Case → Option (List Case × Jumps)
  | [] => some ([], jumps)
  | .mk value body :: cs => do
    let (body, jumps) ← simplify jumps body
    let (cs, jumps) ← simplifyCases jumps cs
    some (.mk value body :: cs, jumps)

end

end

/-- Run the step on a program. -/
def run (dialect : Dialect) (ss : Block) : Option Block :=
  (simplify dialect ⟨0, 0⟩ ss).map (·.1)

end ControlFlowSimplifier

section

variable {World : Type} {I : Interpreter World} {l : LoopState}

mutual

lemma exec_ne_of_jumps (hl : l ≠ .default) (s : Statement) (h : s.jumps l = 0) (F : Functions)
    (V : Variables) (m : SvmState World) : (s.exec I F V m).Returns fun r _ => r.1 ≠ l := by
  match s with
  | .expressionStatement e | .assignment xs e | .variableDeclaration xs e =>
    exact (Result.Returns.trivial _).map fun _ _ _ => hl.symm
  | .functionDefinition f ps rs body => exact .ok hl.symm
  | .if c body =>
    rw [exec_if]
    refine (Result.Returns.trivial _).bind fun v m₁ _ _ => ?_
    split
    · exact execBlock_ne_of_jumps hl body h F V m₁
    · exact .ok hl.symm
  | .switch e cases =>
    rw [exec_switch]
    exact (Result.Returns.trivial _).bind fun v m₁ _ _ => execCases_ne_of_jumps hl cases h F V v m₁
  | .forLoop pre c post body =>
    rw [exec_forLoop]
    refine Result.Returns.map (P := fun r _ => r.1 ≠ l) ?_ fun _ _ hr => hr
    exact (Result.Returns.trivial _).bind fun _ _ _ _ =>
      (Result.Returns.trivial _).map fun _ _ _ => hl.symm
  | .break =>
    refine .ok fun hbreak => ?_
    rw [Statement.jumps, if_pos hbreak.symm] at h
    cases h
  | .continue =>
    refine .ok fun hcontinue => ?_
    rw [Statement.jumps, if_pos hcontinue.symm] at h
    cases h
  | .block ss => exact execBlock_ne_of_jumps hl ss h F V m

lemma execStatements_ne_of_jumps (hl : l ≠ .default) (ss : List Statement)
    (h : jumpsOfStatements l ss = 0) (F : Functions) (V : Variables) (m : SvmState World) :
    (execStatements I F V ss m).Returns fun r _ => r.1 ≠ l := by
  match ss with
  | [] => exact .ok hl.symm
  | s :: ss =>
    rw [jumpsOfStatements, Nat.add_eq_zero_iff] at h
    rw [execStatements_cons]
    refine (exec_ne_of_jumps hl s h.1 F V m).bind fun r m₁ _ hr => ?_
    split
    · exact execStatements_ne_of_jumps hl ss h.2 F r.2 m₁
    · exact .ok hr

lemma execBlock_ne_of_jumps (hl : l ≠ .default) (ss : Block) (h : jumpsOfStatements l ss = 0)
    (F : Functions) (V : Variables) (m : SvmState World) :
    (execBlock I F V ss m).Returns fun r _ => r.1 ≠ l :=
  (execStatements_ne_of_jumps hl ss h _ V m).map fun _ _ hr => hr

lemma execCases_ne_of_jumps (hl : l ≠ .default) (cs : List Case) (h : jumpsOfCases l cs = 0)
    (F : Functions) (V : Variables) (v : Word) (m : SvmState World) :
    (execCases I F V v cs m).Returns fun r _ => r.1 ≠ l := by
  match cs with
  | [] => exact .ok hl.symm
  | .mk value body :: cs =>
    rw [jumpsOfCases, Nat.add_eq_zero_iff] at h
    rw [execCases_cons]
    split
    · exact execBlock_ne_of_jumps hl body h.1 F V m
    · exact execCases_ne_of_jumps hl cs h.2 F V v m

end

end

/-! ### What replaces a statement -/

namespace ControlFlowSimplifier

/-- The functions that the step introduces are builtin; all versions of the machine have them. -/
structure Supported (dialect : Dialect) : Prop where
  pop : dialect.hasOpcode .pop = true
  eq : dialect.hasOpcode .eq = true

lemma Supported.builtin_pop {dialect : Dialect} (h : Supported dialect) :
    dialect.builtin "pop" = some (createSVMFunction .pop) := by
  have hlookup : Parser.instructions.lookup "pop" = some .pop := by decide
  have hprovides : dialect.providesInstruction .pop = true := h.pop
  rw [Dialect.builtin, hlookup, filter_some, if_pos hprovides]

lemma Supported.builtin_eq {dialect : Dialect} (h : Supported dialect) :
    dialect.builtin "eq" = some (createSVMFunction .eq) := by
  have hlookup : Parser.instructions.lookup "eq" = some .eq := by decide
  have hprovides : dialect.providesInstruction .eq = true := h.eq
  rw [Dialect.builtin, hlookup, filter_some, if_pos hprovides]

section

variable {World : Type} {I : Interpreter World} {F : Functions} {V : Variables}
  {m : SvmState World} {e c : Expression} {cases cs : List Case} {body post : Block}

lemma exec_makePopExpressionStatement (h : Supported I.dialect) :
    (makePopExpressionStatement e).exec I F V m =
      (e.evaluate I F V m).map fun _ => (.default, V) := by
  rw [makePopExpressionStatement, exec_expression, Expression.eval_functionCall,
    args_cons, args_nil, bind_ok, h.builtin_pop, Expression.evaluate]
  cases e.eval I F V m <;> rfl

lemma evaluate_eq (h : Supported I.dialect) (l : Literal) :
    (Expression.functionCall "eq" [.literal l, e]).evaluate I F V m =
      (e.evaluate I F V m).map fun v => Word.ofBool (l.word = v) := by
  rw [Expression.evaluate, Expression.eval_functionCall, args_cons, args_cons,
    args_nil, bind_ok, h.builtin_eq, Expression.evaluate]
  cases e.eval I F V m <;> rfl

lemma execCases_removeEmptyDefault (v : Word)
    (h : cases.dropLast.all (·.value.isSome)) :
    execCases I F V v (removeEmptyDefaultFromSwitch cases) m = execCases I F V v cases m := by
  induction cases with
  | nil => rfl
  | cons c cs ih =>
    obtain ⟨value, body⟩ := c
    rw [removeEmptyDefaultFromSwitch, filter_cons]
    by_cases hempty : value = none ∧ body = []
    · obtain ⟨rfl, rfl⟩ := hempty
      obtain rfl : cs = [] := by
        by_contra hcs
        rw [dropLast_cons_of_ne_nil hcs, all_cons, and_eq_true] at h
        cases h.1
      have hdefault : (none : Option Literal).all (·.word = v) = true := rfl
      rw [execCases_cons, if_pos hdefault, execBlock_nil]
      rfl
    · have hkeep : (!((Case.mk value body).value.isNone && (Case.mk value body).body.isEmpty)) =
          true := by
        simpa [Case.value, Case.body, isSome_iff_ne_none, ← imp_iff_not_or] using hempty
      have hrest : cs.dropLast.all (·.value.isSome) = true := by
        cases cs with
        | nil => rfl
        | cons c' cs =>
          rw [dropLast_cons_of_ne_nil (cons_ne_nil c' cs), all_cons,
            and_eq_true] at h
          exact h.2
      rw [if_pos hkeep, execCases_cons, execCases_cons, ← ih hrest]
      rfl

lemma execCases_of_forall_ne {v : Word}
    (h : ∀ c ∈ cases, ∃ l, c.value = some l ∧ l.word ≠ v) :
    execCases I F V v cases m = .ok (.default, V) m := by
  induction cases with
  | nil => rfl
  | cons c cs ih =>
    obtain ⟨value, body⟩ := c
    obtain ⟨l, hl, hne⟩ := h _ mem_cons_self
    obtain rfl : value = some l := hl
    rw [execCases_cons, if_neg]
    · exact ih fun c hc => h c (mem_cons_of_mem _ hc)
    · simpa using hne

/-- Empty cases can be dropped if there is no default case and no value occurs twice. -/
lemma execCases_removeEmptyCases (v : Word)
    (h : (cases.filterMap fun c => c.value.map Literal.word).Nodup) :
    execCases I F V v (removeEmptyCasesFromSwitch cases) m = execCases I F V v cases m := by
  rw [removeEmptyCasesFromSwitch]
  split_ifs with hdefault
  · rfl
  have hvalue : ∀ c ∈ cases, c.value.isSome = true := by
    simpa [isSome_iff_ne_none] using hdefault
  clear hdefault
  induction cases with
  | nil => rfl
  | cons c cs ih =>
    obtain ⟨value, body⟩ := c
    obtain ⟨l, rfl⟩ := isSome_iff_exists.mp (hvalue _ mem_cons_self)
    have hvalues : ∀ c ∈ cs, c.value.isSome = true :=
      fun c hc => hvalue c (mem_cons_of_mem _ hc)
    obtain ⟨hnew, hnodup⟩ : l.word ∉ (cs.filterMap fun c => c.value.map Literal.word) ∧
        (cs.filterMap fun c => c.value.map Literal.word).Nodup := nodup_cons.mp h
    rw [filter_cons]
    have hrest := ih hnodup hvalues
    cases body with
    | cons s ss =>
      rw [if_pos (by rfl), execCases_cons, execCases_cons, hrest]
    | nil =>
      rw [if_neg (by simp [Case.body]), hrest, execCases_cons, execBlock_nil]
      split_ifs with hv
      · apply execCases_of_forall_ne
        intro c hc
        obtain ⟨l', hl'⟩ := isSome_iff_exists.mp (hvalues c hc)
        refine ⟨l', hl', fun heq => hnew (mem_filterMap.mpr ⟨c, hc, ?_⟩)⟩
        have hw : l.word = v := of_decide_eq_true hv
        rw [hl', map_some, heq, hw]
      · rfl

lemma nodup_removeEmptyDefault
    (h : (cases.filterMap fun c => c.value.map Literal.word).Nodup) :
    ((removeEmptyDefaultFromSwitch cases).filterMap fun c => c.value.map Literal.word).Nodup :=
  h.sublist (filter_sublist.filterMap _)

lemma exec_simplifySwitch (hI : Supported I.dialect)
    (h : (Statement.switch e cases).switchValid) :
    execStatements I F V (simplifySwitch e cases) m =
      (Statement.switch e cases).exec I F V m := by
  rw [Statement.switchValid, and_eq_true, decide_eq_true_eq] at h
  have hcases (v : Word) (m : SvmState World) :
      execCases I F V v (removeEmptyCasesFromSwitch (removeEmptyDefaultFromSwitch cases)) m =
        execCases I F V v cases m := by
    rw [execCases_removeEmptyCases v (nodup_removeEmptyDefault h.2),
      execCases_removeEmptyDefault v h.1]
  rw [simplifySwitch, exec_switch]
  simp only [← hcases]
  generalize removeEmptyCasesFromSwitch (removeEmptyDefaultFromSwitch cases) = kept
  match kept with
  | [] =>
    rw [exec_singleton, exec_makePopExpressionStatement hI]
    rfl
  | [.mk none body] =>
    show execStatements I F V [makePopExpressionStatement e, .block body] m = _
    rw [execStatements_cons, exec_makePopExpressionStatement hI,
      Result.map, Result.bind_assoc]
    apply Result.bind_congr
    intro v m₁ _
    rw [bind_ok, if_pos rfl, exec_singleton]
    rfl
  | [.mk (some l) body] =>
    show execStatements I F V [.if (.functionCall "eq" [.literal l, e]) body] m = _
    rw [exec_singleton, exec_if, evaluate_eq hI, Result.map,
      Result.bind_assoc]
    apply Result.bind_congr
    intro v m₁ _
    rw [bind_ok, execCases_cons, execCases_nil]
    by_cases hv : l.word = v
    · rw [decide_eq_true hv, if_pos (by decide), if_pos (by simpa using hv)]
    · rw [decide_eq_false hv, if_neg (by decide), if_neg (by simpa using hv)]
  | _ :: _ :: _ =>
    rw [exec_singleton, exec_switch]

end

section

variable {dialect : Dialect} {jumps jumps' : Jumps} {s : Statement} {e c : Expression}
  {ss out body pre post : List Statement} {cs cs' : List Case}

lemma simplifyStatement_function {f : YulString} {ps rs : List TypedName}
    (h : simplifyStatement dialect jumps (.functionDefinition f ps rs body) =
      some (out, jumps')) :
    ∃ body', simplify dialect jumps body = some (body', jumps') ∧
      out = [.functionDefinition f ps rs body'] := by
  obtain ⟨⟨body', jumps₁⟩, hbody, heq⟩ := bind_eq_some_iff.mp h
  cases heq
  exact ⟨body', hbody, rfl⟩

lemma simplify_if
    (h : simplifyStatement dialect jumps (.if c body) = some (out, jumps')) :
    body = [] ∧ out = [makePopExpressionStatement c] ∧ jumps' = jumps ∨
      ∃ body', simplify dialect jumps body = some (body', jumps') ∧ out = [.if c body'] := by
  cases body with
  | nil =>
    cases h
    exact .inl ⟨rfl, rfl, rfl⟩
  | cons s ss =>
    obtain ⟨⟨body', jumps₁⟩, hbody, heq⟩ := bind_eq_some_iff.mp h
    cases heq
    exact .inr ⟨body', hbody, rfl⟩

lemma simplify_switch
    (h : simplifyStatement dialect jumps (.switch e cs) = some (out, jumps')) :
    ∃ cs', simplifyCases dialect jumps cs = some (cs', jumps') ∧ out = simplifySwitch e cs' := by
  obtain ⟨⟨cs', jumps₁⟩, hcs, heq⟩ := bind_eq_some_iff.mp h
  cases heq
  exact ⟨cs', hcs, rfl⟩

lemma simplify_forLoop
    (h : simplifyStatement dialect jumps (.forLoop pre c post body) = some (out, jumps')) :
    ∃ post' body' inner inner', simplify dialect ⟨0, 0⟩ post = some (post', inner) ∧
      simplify dialect inner body = some (body', inner') ∧ pre = [] ∧
      out = [simplifyForLoop dialect inner' c post' body'] ∧ jumps' = jumps := by
  cases pre with
  | cons s pre => cases h
  | nil =>
    obtain ⟨⟨post', inner⟩, hpost, h⟩ := bind_eq_some_iff.mp h
    obtain ⟨⟨body', inner'⟩, hbody, heq⟩ := bind_eq_some_iff.mp h
    cases heq
    exact ⟨post', body', inner, inner', hpost, hbody, rfl, rfl, rfl⟩

lemma simplify_block
    (h : simplifyStatement dialect jumps (.block ss) = some (out, jumps')) :
    ∃ ss', simplify dialect jumps ss = some (ss', jumps') ∧ out = [.block ss'] := by
  obtain ⟨⟨ss', jumps₁⟩, hss, heq⟩ := bind_eq_some_iff.mp h
  cases heq
  exact ⟨ss', hss, rfl⟩

lemma simplify_cons (h : simplify dialect jumps (s :: ss) = some (out, jumps')) :
    ∃ out₁ jumps₁ out₂, simplifyStatement dialect jumps s = some (out₁, jumps₁) ∧
      simplify dialect jumps₁ ss = some (out₂, jumps') ∧ out = out₁ ++ out₂ := by
  obtain ⟨⟨out₁, jumps₁⟩, hs, h⟩ := bind_eq_some_iff.mp h
  obtain ⟨⟨out₂, jumps₂⟩, hss, heq⟩ := bind_eq_some_iff.mp h
  cases heq
  exact ⟨out₁, jumps₁, out₂, hs, hss, rfl⟩

lemma simplifyCases_cons {value : Option Literal}
    (h : simplifyCases dialect jumps (.mk value body :: cs) = some (cs', jumps')) :
    ∃ body' jumps₁ cs₁, simplify dialect jumps body = some (body', jumps₁) ∧
      simplifyCases dialect jumps₁ cs = some (cs₁, jumps') ∧ cs' = .mk value body' :: cs₁ := by
  obtain ⟨⟨body', jumps₁⟩, hbody, h⟩ := bind_eq_some_iff.mp h
  obtain ⟨⟨cs₁, jumps₂⟩, hcs, heq⟩ := bind_eq_some_iff.mp h
  cases heq
  exact ⟨body', jumps₁, cs₁, hbody, hcs, rfl⟩

end

/-! ### Counting jumps -/

/-- How many jumps of a kind were visited. -/
def Jumps.count (jumps : Jumps) : LoopState → Nat
  | .break => jumps.numBreakStatements
  | .continue => jumps.numContinueStatements
  | .default => 0

section

variable {dialect : Dialect} {l : LoopState} {e c : Expression} {cases : List Case}
  {post body : Block}

lemma jumpsOfCases_filter {p : Case → Bool} (h : ∀ c, p c = false → c.body = []) :
    jumpsOfCases l (cases.filter p) = jumpsOfCases l cases := by
  induction cases with
  | nil => rfl
  | cons c cs ih =>
    obtain ⟨value, body⟩ := c
    rw [filter_cons]
    split_ifs with hp
    · rw [jumpsOfCases, jumpsOfCases, ih]
    · obtain rfl : body = [] := h (.mk value body) (eq_false_of_not_eq_true hp)
      rw [jumpsOfCases, jumpsOfStatements, Nat.zero_add, ih]

lemma jumpsOfStatements_simplifySwitch :
    jumpsOfStatements l (simplifySwitch e cases) = jumpsOfCases l cases := by
  have hkept : jumpsOfCases l (removeEmptyCasesFromSwitch (removeEmptyDefaultFromSwitch cases)) =
      jumpsOfCases l cases := by
    have hdefault : jumpsOfCases l (removeEmptyDefaultFromSwitch cases) = jumpsOfCases l cases := by
      apply jumpsOfCases_filter
      intro c hc
      simp only [not_eq_false', and_eq_true] at hc
      exact List.isEmpty_iff.mp hc.2
    rw [removeEmptyCasesFromSwitch, ← hdefault]
    split_ifs
    · rfl
    · apply jumpsOfCases_filter
      intro c hc
      exact List.isEmpty_iff.mp (by simpa using hc)
  rw [simplifySwitch, ← hkept]
  generalize removeEmptyCasesFromSwitch (removeEmptyDefaultFromSwitch cases) = kept
  match kept with
  | [] => rfl
  | [.mk none body] => exact Nat.zero_add _
  | [.mk (some l) body] => rfl
  | _ :: _ :: _ => rfl

/-- What replaces a loop: the loop itself, or a conditional if the body ends with `break` or does
not end, without other jumps. -/
lemma simplifyForLoop_cases (dialect : Dialect) (c : Expression) (post : Block) {jumps : Jumps}
    (hcount : ∀ l, l ≠ .default → jumpsOfStatements l body ≤ jumps.count l) :
    simplifyForLoop dialect jumps c post body = .forLoop [] c post body ∨
    (∃ ss, body = ss ++ [.break] ∧ (∀ l, l ≠ .default → jumpsOfStatements l ss = 0) ∧
      simplifyForLoop dialect jumps c post body = .if c ss) ∨
    (∃ ss e, body = ss ++ [.expressionStatement e] ∧
      TerminationFinder.isTerminatingBuiltin dialect e ∧
      (∀ l, l ≠ .default → jumpsOfStatements l body = 0) ∧
        simplifyForLoop dialect jumps c post body = .if c body) := by
  have hbreak := hcount .break (by decide)
  have hcontinue := hcount .continue (by decide)
  simp only [Jumps.count] at hbreak hcontinue
  clear hcount
  rw [simplifyForLoop]
  rcases eq_nil_or_concat body with rfl | ⟨ss, last, rfl⟩
  · exact .inl rfl
  rw [concat_eq_append, getLast?_append, getLast?_singleton, some_or,
    map_some, dropLast_concat]
  rw [concat_eq_append] at hbreak hcontinue
  cases last with
  | «break» =>
    by_cases hjumps : jumps.numContinueStatements = 0 ∧ jumps.numBreakStatements - 1 = 0
    · refine .inr (.inl ⟨ss, rfl, fun l hl => ?_, if_pos hjumps⟩)
      rw [jumpsOfStatements_append] at hbreak hcontinue
      have hlast : jumpsOfStatements .break [Statement.break] = 1 := rfl
      cases l with
      | default => exact absurd rfl hl
      | «break» => omega
      | «continue» => omega
    · exact .inl (if_neg hjumps)
  | expressionStatement e =>
    rw [TerminationFinder.controlFlowKind]
    by_cases he : TerminationFinder.isTerminatingBuiltin dialect e = true
    · rw [if_pos he]
      by_cases hjumps : jumps.numContinueStatements = 0 ∧ jumps.numBreakStatements = 0
      · refine .inr (.inr ⟨ss, e, rfl, he, fun l hl => ?_, if_pos hjumps⟩)
        cases l with
        | default => exact absurd rfl hl
        | «break» => exact Nat.eq_zero_of_le_zero (hjumps.2 ▸ hbreak)
        | «continue» => exact Nat.eq_zero_of_le_zero (hjumps.1 ▸ hcontinue)
      · exact .inl (if_neg hjumps)
    · rw [if_neg he]
      exact .inl rfl
  | _ => exact .inl rfl

lemma jumps_simplifyForLoop {jumps : Jumps} {l : LoopState} (hl : l ≠ .default)
    (hcount : ∀ l, l ≠ .default → jumpsOfStatements l body ≤ jumps.count l) :
    jumpsOfStatements l [simplifyForLoop dialect jumps c post body] = 0 := by
  rcases simplifyForLoop_cases dialect c post hcount with heq | ⟨ss, -, hss, heq⟩ | ⟨ss, e, -, -, hbody, heq⟩
  · rw [heq]
    rfl
  · rw [heq]
    exact hss l hl
  · rw [heq]
    exact hbody l hl

end

section

variable {dialect : Dialect}

mutual

lemma count_simplifyStatement (s : Statement) {jumps jumps' : Jumps} {out : List Statement}
    (h : simplifyStatement dialect jumps s = some (out, jumps')) {l : LoopState}
    (hl : l ≠ .default) : jumps'.count l = jumps.count l + jumpsOfStatements l out := by
  match s with
  | .expressionStatement e | .assignment xs e | .variableDeclaration xs e =>
    cases h
    rfl
  | .functionDefinition f ps rs body =>
    obtain ⟨body', hbody, rfl⟩ := simplifyStatement_function h
    rw [count_simplify body hbody hl]
    rfl
  | .if c body =>
    rcases simplify_if h with ⟨-, rfl, rfl⟩ | ⟨body', hbody, rfl⟩
    · rfl
    · rw [count_simplify body hbody hl]
      rfl
  | .switch e cases =>
    obtain ⟨cases', hcases, rfl⟩ := simplify_switch h
    rw [jumpsOfStatements_simplifySwitch]
    exact count_simplifyCases cases hcases hl
  | .forLoop pre c post body =>
    obtain ⟨post', body', inner, inner', hpost, hbody, -, rfl, rfl⟩ := simplify_forLoop h
    rw [jumps_simplifyForLoop hl]
    · rfl
    · intro l hl
      rw [count_simplify body hbody hl]
      exact Nat.le_add_left _ _
  | .break =>
    cases h
    cases l <;> rfl
  | .continue =>
    cases h
    cases l <;> rfl
  | .block ss =>
    obtain ⟨ss', hss, rfl⟩ := simplify_block h
    rw [count_simplify ss hss hl]
    rfl

lemma count_simplify (ss : List Statement) {jumps jumps' : Jumps} {out : List Statement}
    (h : simplify dialect jumps ss = some (out, jumps')) {l : LoopState} (hl : l ≠ .default) :
    jumps'.count l = jumps.count l + jumpsOfStatements l out := by
  match ss with
  | [] =>
    cases h
    rfl
  | s :: ss =>
    obtain ⟨out₁, jumps₁, out₂, hs, hss, rfl⟩ := simplify_cons h
    rw [jumpsOfStatements_append, ← Nat.add_assoc, ← count_simplifyStatement s hs hl]
    exact count_simplify ss hss hl

lemma count_simplifyCases (cs : List Case) {jumps jumps' : Jumps} {out : List Case}
    (h : simplifyCases dialect jumps cs = some (out, jumps')) {l : LoopState}
    (hl : l ≠ .default) : jumps'.count l = jumps.count l + jumpsOfCases l out := by
  match cs with
  | [] =>
    cases h
    rfl
  | .mk value body :: cs =>
    obtain ⟨body', jumps₁, cs₁, hbody, hcs, rfl⟩ := simplifyCases_cons h
    rw [jumpsOfCases, ← Nat.add_assoc, ← count_simplify body hbody hl]
    exact count_simplifyCases cs hcs hl

end

lemma jumps_le_count {body body' : List Statement} {inner inner' : Jumps}
    (hbody : simplify dialect inner body = some (body', inner')) (l : LoopState)
    (hl : l ≠ .default) : jumpsOfStatements l body' ≤ inner'.count l := by
  rw [count_simplify body hbody hl]
  exact Nat.le_add_left _ _

end

/-! ### Loops that do not run twice -/

section

variable {World : Type} {I I' : Interpreter World} {F F' : Functions} {V : Variables}
  {m : SvmState World} {e c c' : Expression} {ss body body' post : Block}

/-- A body whose last statement is the only jump, and the body without that statement. -/
lemma execBlock_append_break (h : ∀ l, l ≠ .default → jumpsOfStatements l ss = 0) :
    (execBlock I F V (ss ++ [.break]) m).Returns (fun r _ => r.1 = .break) ∧
      execBlock I F V ss m =
        (execBlock I F V (ss ++ [.break]) m).map fun r => (.default, r.2) := by
  have hregister : F.register (ss ++ [.break]) = F.register ss := by
    rw [Functions.register_eq_foldl, Functions.register_eq_foldl, definitions_append]
    exact congrArg (List.foldl _ F) (append_nil _)
  have hdefault : (execStatements I (F.register ss) V ss m).Returns fun r _ => r.1 = .default := by
    intro r m₁ hr
    have hbreak := execStatements_ne_of_jumps (by decide) ss (h .break (by decide)) _ V m r m₁ hr
    have hcontinue :=
      execStatements_ne_of_jumps (by decide) ss (h .continue (by decide)) _ V m r m₁ hr
    cases hl : r.1 with
    | default => rfl
    | «break» => exact absurd hl hbreak
    | «continue» => exact absurd hl hcontinue
  rw [execBlock, execBlock, hregister, execStatements_append]
  cases hss : execStatements I (F.register ss) V ss m with
  | ok r m₁ =>
    obtain ⟨l, W⟩ := r
    obtain rfl : l = .default := hdefault _ _ hss
    rw [bind_ok, if_pos rfl, exec_singleton, exec_break]
    exact ⟨.ok rfl, rfl⟩
  | halt k m₁ => exact ⟨.halt, rfl⟩
  | timeout => exact ⟨.timeout, rfl⟩

lemma execBlock_append_terminate
    (h : ∀ l, l ≠ .default → jumpsOfStatements l (ss ++ [.expressionStatement e]) = 0)
    (he : TerminationFinder.isTerminatingBuiltin I.dialect e) :
    (execBlock I F V (ss ++ [.expressionStatement e]) m).Returns fun _ _ => False := by
  refine Result.Returns.map (P := fun _ _ => False) ?_ fun _ _ hr => hr
  rw [execStatements_append]
  have hjumps (l : LoopState) (hl : l ≠ .default) : jumpsOfStatements l ss = 0 := by
    have hsum := h l hl
    rw [jumpsOfStatements_append, Nat.add_eq_zero_iff] at hsum
    exact hsum.1
  generalize F.register (ss ++ [.expressionStatement e]) = G
  refine (Result.Returns.trivial _).bind fun r m₁ hr _ => ?_
  have hbreak :=
    execStatements_ne_of_jumps (by decide) ss (hjumps .break (by decide)) G V m r m₁ hr
  have hcontinue :=
    execStatements_ne_of_jumps (by decide) ss (hjumps .continue (by decide)) G V m r m₁ hr
  cases hl : r.1 with
  | default =>
    rw [if_pos rfl, exec_singleton, exec_expression]
    exact (eval_of_isTerminatingBuiltin he).map fun _ _ hfalse => hfalse
  | «break» => exact absurd hl hbreak
  | «continue» => exact absurd hl hcontinue

lemma exec_forLoop_if_sim {p q : Prop} (hzero : I.fuel = 0 → p)
    (hc : ∀ m, Result.Sim p q Eq Eq (c.evaluate I F V m) (c.evaluate I' F' V m))
    (hbody : ∀ m, Result.Sim p q Eq (Outcome fun _ => Eq) (execBlock I F V body m)
      (execBlock I' F' V body' m))
    (hleaves : ∀ m, (execBlock I' F' V body' m).Returns fun r _ => r.1 = .break)
    (hif : ∀ m, execBlock I' F' V ss m =
      (execBlock I' F' V body' m).map fun r => (.default, r.2)) :
    Result.Sim p q Eq (Outcome fun _ => Eq) ((Statement.forLoop [] c post body).exec I F V m)
      ((Statement.if c ss).exec I' F' V m) := by
  rw [exec_forLoop, execStatements_nil, bind_ok, exec_if]
  cases hfuel : I.fuel with
  | zero => exact .left (hzero hfuel)
  | succ n =>
    rw [loop_succ, closeScope, Result.map, Result.map, Result.bind_assoc, Result.bind_assoc,
      loopCondition, Result.map, Result.bind_assoc]
    refine (hc m).bind ?_
    rintro v _ m₁ _ - - rfl rfl
    rw [bind_ok]
    by_cases hv : v = 0
    · rw [if_neg (by simp [hv]), if_neg (not_not.mpr hv)]
      exact .ok ⟨rfl, Variables.restrict_self V⟩ rfl
    · rw [if_pos (decide_eq_true hv), if_pos hv, hif, loopBody, Result.map, Result.bind_assoc,
        Result.bind_assoc, Result.map]
      refine (hbody m₁).bind ?_
      rintro ⟨l, W⟩ ⟨_, W'⟩ m₂ _ hr hr' ⟨rfl, hW⟩ rfl
      obtain rfl : W = W' := hW
      obtain rfl : l = .break := hleaves m₁ _ _ hr'
      obtain ⟨⟨l, U⟩, -, heq⟩ := map_eq_ok.mp hr
      cases heq
      exact .ok ⟨rfl, Variables.restrict_restrict V U⟩ rfl

end

end ControlFlowSimplifier

end Yul
