import Polc.Yul.Backends.Wasm.WordSizeTransform.Properties

/-!
# The word size transform is a simulation

On programs whose loops have literal conditions and that do not define `or_bool` themselves, the new
program goes along with the old one statement by statement. Conditions of loops are visited like
expression statements, which leaves variables as they are and does not join the values of calls.
-/

namespace Yul

open Sof Semantics List Option Statement Bool

/-! ### Statements inside statements -/

mutual

/-- The statement and those inside it. -/
def Statement.within : Statement → List Statement
  | .functionDefinition f ps rs body => .functionDefinition f ps rs body :: statementsWithin body
  | .if c body => .if c body :: statementsWithin body
  | .switch e cases => .switch e cases :: statementsWithinCases cases
  | .forLoop pre c post body =>
    .forLoop pre c post body ::
      (statementsWithin pre ++ statementsWithin post ++ statementsWithin body)
  | .block ss => .block ss :: statementsWithin ss
  | s => [s]

def statementsWithin : List Statement → List Statement
  | [] => []
  | s :: ss => s.within ++ statementsWithin ss

def statementsWithinCases : List Case → List Statement
  | [] => []
  | .mk _ body :: cs => statementsWithin body ++ statementsWithinCases cs

end

/-- The variables that a statement introduces. -/
def Statement.introduces : Statement → List YulString
  | .functionDefinition _ ps rs _ => ps.map (·.name) ++ rs.map (·.name)
  | s => s.declares

/-- The statement defines the function. -/
def Statement.definesFunction (f : YulString) : Statement → Bool
  | .functionDefinition g _ _ _ => g = f
  | _ => false

namespace WordSizeTransform

section

variable {p : Statement → Bool} {μ : Mapping}

mutual

/-- What holds of all statements holds of each, and each is replaced by some statements. -/
lemma widenStatement_within (s : Statement) {ts : List Statement} (hs : s.every p)
    (hts : widenStatement μ s = some ts) :
    ∀ u ∈ s.within, u.every p ∧ ∃ us, widenStatement μ u = some us := by
  match s with
  | .expressionStatement _ | .assignment _ _ | .variableDeclaration _ _ | .break | .continue =>
    exact forall_mem_singleton.mpr ⟨hs, ts, hts⟩
  | .functionDefinition f ps rs body =>
    refine forall_mem_cons.mpr ⟨⟨hs, ts, hts⟩, ?_⟩
    obtain ⟨ps', -, hts⟩ := bind_eq_some_iff.mp hts
    obtain ⟨rs', -, hts⟩ := bind_eq_some_iff.mp hts
    obtain ⟨body', hbody, -⟩ := map_eq_some_iff.mp hts
    exact widen_within body (every_function.mp hs).2 hbody
  | .if c body =>
    refine forall_mem_cons.mpr ⟨⟨hs, ts, hts⟩, ?_⟩
    obtain ⟨c', -, hts⟩ := bind_eq_some_iff.mp hts
    obtain ⟨body', hbody, -⟩ := map_eq_some_iff.mp hts
    exact widen_within body (every_if.mp hs).2 hbody
  | .switch e cases => cases hts
  | .forLoop pre c post body =>
    refine forall_mem_cons.mpr ⟨⟨hs, ts, hts⟩, ?_⟩
    obtain ⟨pre', hpre, hts⟩ := bind_eq_some_iff.mp hts
    obtain ⟨c', -, hts⟩ := bind_eq_some_iff.mp hts
    obtain ⟨post', hpost, hts⟩ := bind_eq_some_iff.mp hts
    obtain ⟨body', hbody, -⟩ := map_eq_some_iff.mp hts
    obtain ⟨-, hspre, hspost, hsbody⟩ := every_forLoop.mp hs
    rw [forall_mem_append, forall_mem_append]
    exact ⟨⟨widen_within pre hspre hpre, widen_within post hspost hpost⟩,
      widen_within body hsbody hbody⟩
  | .block ss =>
    refine forall_mem_cons.mpr ⟨⟨hs, ts, hts⟩, ?_⟩
    obtain ⟨ss', hss, -⟩ := map_eq_some_iff.mp hts
    exact widen_within ss (every_block.mp hs).2 hss

lemma widen_within (ss : List Statement) {ts : List Statement}
    (hss : everyStatement p ss) (hts : widen μ ss = some ts) :
    ∀ u ∈ statementsWithin ss, u.every p ∧ ∃ us, widenStatement μ u = some us := by
  match ss with
  | [] => exact nofun
  | s :: ss =>
    obtain ⟨hs, hss⟩ := everyStatement_cons.mp hss
    obtain ⟨us, hus, hts⟩ := bind_eq_some_iff.mp hts
    obtain ⟨us', hus', -⟩ := map_eq_some_iff.mp hts
    exact forall_mem_append.mpr ⟨widenStatement_within s hs hus, widen_within ss hss hus'⟩

end

lemma isSome_of_rewriteIdentifierList {xs ys : List YulString}
    (h : rewriteIdentifierList μ xs = some ys) : ∀ x ∈ xs, (μ x).isSome := by
  induction xs generalizing ys with
  | nil => exact nofun
  | cons x xs ih =>
    obtain ⟨us, hus, h⟩ := bind_eq_some_iff.mp h
    obtain ⟨vs, hvs, -⟩ := map_eq_some_iff.mp h
    exact forall_mem_cons.mpr ⟨isSome_of_mem hus, ih hvs⟩

lemma isSome_of_introduces {s : Statement} {ts : List Statement}
    (h : widenStatement μ s = some ts) : ∀ x ∈ s.introduces, (μ x).isSome := by
  cases s with
  | functionDefinition f ps rs body =>
    obtain ⟨ps', hps, h⟩ := bind_eq_some_iff.mp h
    obtain ⟨rs', hrs, h⟩ := bind_eq_some_iff.mp h
    exact forall_mem_append.mpr ⟨isSome_of_rewriteIdentifierList (widenNames_eq_some hps),
      isSome_of_rewriteIdentifierList (widenNames_eq_some hrs)⟩
  | variableDeclaration xs value =>
    have hnames {ys : List TypedName} (h : widenNames μ xs = some ys) :=
      isSome_of_rewriteIdentifierList (widenNames_eq_some h)
    rw [widenStatement] at h
    unfold widenDeclaration at h
    split at h
    · obtain ⟨ys, hys, -⟩ := map_eq_some_iff.mp h
      exact hnames hys
    · split at h
      · obtain ⟨e', -, h⟩ := bind_eq_some_iff.mp h
        obtain ⟨ys, hys, -⟩ := map_eq_some_iff.mp h
        exact hnames hys
      · obtain ⟨e', -, h⟩ := bind_eq_some_iff.mp h
        obtain ⟨ys, hys, -⟩ := map_eq_some_iff.mp h
        exact hnames hys
      all_goals
        split at h
        · obtain ⟨es, -, h⟩ := bind_eq_some_iff.mp h
          obtain ⟨ys, hys, -⟩ := map_eq_some_iff.mp h
          exact forall_mem_singleton.mpr (isSome_of_mem hys)
        · cases h
  | _ => exact forall_mem_nil _

end

/-! ### Calls of `or_bool` -/

section

variable {dialect : Dialect} {Γ : Scope}

lemma isCallOf_of_valid {f : YulString} {e : Expression} (hf : Γ.arity dialect f = none)
    (h : e.valid dialect Γ) : isCallOf f e = false := by
  cases e with
  | functionCall g es =>
    refine decide_eq_false fun hg => ?_
    subst hg
    rw [Expression.valid_functionCall, hf] at h
    cases h
  | _ => rfl

lemma lookup_register {f : YulString} {ss : List Statement}
    (hΓ : Γ.functions.lookup f = none)
    (hss : everyStatement (fun s => !s.definesFunction f) ss) :
    (Γ.register ss).functions.lookup f = none := by
  induction ss with
  | nil => exact hΓ
  | cons s ss ih =>
    obtain ⟨hs, hrest⟩ := everyStatement_cons.mp hss
    cases s with
    | functionDefinition g ps rs body =>
      have hg : g ≠ f := of_decide_eq_false
        ((not_eq_true' _).mp (every_function.mp hs).1)
      rw [Scope.register, lookup_cons, beq_false_of_ne hg.symm]
      exact ih hrest
    | _ => exact ih hrest

lemma arity_eq_none (hbuiltin : dialect.builtin "or_bool" = none)
    (hΓ : Γ.functions.lookup "or_bool" = none) :
    Γ.arity dialect "or_bool" = none := by
  rw [Scope.arity, hbuiltin]
  exact hΓ

mutual

lemma Statement.every_callsOrBool (hbuiltin : dialect.builtin "or_bool" = none) (s : Statement)
    {Γ : Scope} (hΓ : Γ.functions.lookup "or_bool" = none)
    (hvalid : s.valid dialect Γ)
    (hs : s.every (fun s => !s.definesFunction "or_bool")) :
    s.every (fun s => !callsOrBool s) := by
  match s with
  | .expressionStatement e =>
    rw [valid_expression, and_eq_true] at hvalid
    exact (not_eq_true' _).mpr (isCallOf_of_valid (arity_eq_none hbuiltin hΓ) hvalid.1)
  | .assignment xs e =>
    rw [valid_assignment, and_eq_true, and_eq_true] at hvalid
    exact (not_eq_true' _).mpr (isCallOf_of_valid (arity_eq_none hbuiltin hΓ) hvalid.1.2)
  | .variableDeclaration xs none | .break | .continue => rfl
  | .variableDeclaration xs (some e) =>
    rw [valid_declaration, valueValid, and_eq_true, and_eq_true _ (decide _)]
      at hvalid
    exact (not_eq_true' _).mpr (isCallOf_of_valid (arity_eq_none hbuiltin hΓ) hvalid.2.1)
  | .functionDefinition f ps rs body =>
    rw [valid_function, and_eq_true] at hvalid
    have hbody := (every_function.mp hs).2
    exact every_function.mpr
      ⟨rfl, everyStatement_callsOrBool hbuiltin body (by exact lookup_register hΓ hbody) hvalid.2
        hbody⟩
  | .if c body =>
    rw [valid_if, and_eq_true] at hvalid
    have hbody := (every_if.mp hs).2
    exact every_if.mpr
      ⟨rfl, everyStatement_callsOrBool hbuiltin body (by exact lookup_register hΓ hbody) hvalid.2
        hbody⟩
  | .switch e cases =>
    rw [valid_switch, and_eq_true] at hvalid
    exact every_switch.mpr
      ⟨rfl, everyCase_callsOrBool hbuiltin cases hΓ hvalid.2 (every_switch.mp hs).2⟩
  | .forLoop pre c post body =>
    simp only [valid_forLoop, and_eq_true] at hvalid
    obtain ⟨⟨⟨⟨hvpre, -⟩, -⟩, hvpost⟩, hvbody⟩ := hvalid
    obtain ⟨-, hpre, hpost, hbody⟩ := every_forLoop.mp hs
    refine every_forLoop.mpr ⟨rfl, ?_, ?_, ?_⟩
    · exact everyStatement_callsOrBool hbuiltin pre (Γ := Γ.enter .forLoopPre) hΓ hvpre hpre
    · exact everyStatement_callsOrBool hbuiltin post (by exact lookup_register hΓ hpost) hvpost hpost
    · exact everyStatement_callsOrBool hbuiltin body (by exact lookup_register hΓ hbody) hvbody hbody
  | .block ss =>
    rw [valid_block] at hvalid
    have hss := (every_block.mp hs).2
    exact every_block.mpr
      ⟨rfl, everyStatement_callsOrBool hbuiltin ss (by exact lookup_register hΓ hss) hvalid hss⟩

lemma everyStatement_callsOrBool (hbuiltin : dialect.builtin "or_bool" = none)
    (ss : List Statement) {Γ : Scope} (hΓ : Γ.functions.lookup "or_bool" = none)
    (hvalid : statementsValid dialect Γ ss)
    (hss : everyStatement (fun s => !s.definesFunction "or_bool") ss) :
    everyStatement (fun s => !callsOrBool s) ss := by
  match ss with
  | [] => rfl
  | s :: ss =>
    rw [statementsValid, and_eq_true] at hvalid
    obtain ⟨hs, hss⟩ := everyStatement_cons.mp hss
    exact everyStatement_cons.mpr ⟨Statement.every_callsOrBool hbuiltin s hΓ hvalid.1 hs,
      everyStatement_callsOrBool hbuiltin ss (Γ := Γ.declare s.declares) hΓ hvalid.2 hss⟩

lemma everyCase_callsOrBool (hbuiltin : dialect.builtin "or_bool" = none) (cs : List Case)
    {Γ : Scope} (hΓ : Γ.functions.lookup "or_bool" = none)
    (hvalid : casesValid dialect Γ cs)
    (hcs : everyCase (fun s => !s.definesFunction "or_bool") cs) :
    everyCase (fun s => !callsOrBool s) cs := by
  match cs with
  | [] => rfl
  | .mk value body :: cs =>
    rw [casesValid, and_eq_true, and_eq_true] at hvalid
    obtain ⟨hbody, hcs⟩ := everyCase_cons.mp hcs
    exact everyCase_cons.mpr
      ⟨everyStatement_callsOrBool hbuiltin body (by exact lookup_register hΓ hbody) hvalid.1.2
        hbody,
        everyCase_callsOrBool hbuiltin cs hΓ hvalid.2 hcs⟩

end

end

/-! ### The simulation -/

section

variable {dialect : Dialect}

/-- The machine with the small words goes along with the machine: runs halt and end alike, and from
variables with the same values every statement of the program does what replaces it, to variables
with the same values. -/
structure Simulates {η σ : Type} (μ : Mapping) (M : Machine η σ Word) (ss ss' : Block) : Prop where
  run : ∀ n m, M.wide.run n ss' m = M.run n ss m
  value : ∀ V V' x xs w, Holds μ V V' → μ x = some xs → V x = some w →
    ∃ a b c d, xs.map V' = [some a, some b, some c, some d] ∧ w = joinWords a b c d
  start : Holds μ (fun _ => none) (fun _ => none)
  variablesOf : ∀ d d' vs, WidensFunction μ d d' →
    Holds μ (Machine.variablesOf d vs) (Machine.variablesOf d' (splitWords vs))
  exec : ∀ s ∈ statementsWithin ss, ∃ ts, widenStatement μ s = some ts ∧
    ∀ n F F' V V' m, F.Rel (WidensFunction μ) F' → Holds μ V V' →
      Result.Rel Eq (Parallel μ) ((M.evaluator n).exec F V s m)
        ((M.wide.evaluator n).execStatements F' V' ts m)

lemma simulates_of_widen {η σ : Type} {μ : Mapping} {M : Machine η σ Word} (hμ : μ.Proper)
    (hM : M.Implements dialect) {ss ts : Block} (hts : widen μ ss = some ts)
    (hss : everyStatement isWidenable ss) : Simulates μ M ss ts where
  run := run_widen hμ hM hts hss
  value V V' x xs w hV hx hw := by
    refine ⟨_, _, _, _, ?_, (joinWords_splitWord w).symm⟩
    rw [hV x xs hx, hw]
    rfl
  start := .empty hμ
  variablesOf _ _ vs hd := holds_variablesOf hμ hd vs
  exec s hs := by
    obtain ⟨hevery, us, hus⟩ := widen_within ss hss hts s hs
    exact ⟨us, hus, fun n => exec_widen (widens_evaluator hμ hM n) hμ s hus hevery⟩

/-- On programs whose loops have literal conditions of 64 bits and that do not use the name
`or_bool`, the step does not abort, declares all variables and goes along with the program. -/
theorem wordSizeTransform_simulates {ss : Block} (D : NameDispenser)
    (hss : Block.Disambiguated dialect ss) (hsplit : everyStatement (·.isSplit) ss = true)
    (hswitch : everyStatement (fun s => !s.isSwitch) ss = true)
    (hloops : everyStatement loopConditionFits ss = true)
    (hor : everyStatement (fun s => !s.definesFunction "or_bool") ss = true)
    (hbuiltin : dialect.builtin "or_bool" = none) :
    ∃ ss' μ, run D ss = some ss' ∧ identifiersDeclared [] ss' = true ∧
      (∀ s ∈ statementsWithin ss, ∀ x ∈ s.introduces, (μ x).isSome = true) ∧
      ∀ (η σ : Type) (M : Machine η σ Word), M.Implements dialect → Simulates μ M ss ss' := by
  have hlocals : (Scope.empty.register ss).locals = [] := Scope.locals_register
  have hcovers : Mapping.Covers (fun _ => none) (Scope.empty.register ss).locals := by
    rw [hlocals]
    exact nofun
  have htransformable : everyStatement isTransformable ss = true :=
    everyStatement_and ss (everyStatement_and ss hsplit hswitch) hloops
  obtain ⟨ts, S, hts, hstep, hwiden⟩ := transform_spec ss (S := ⟨fun _ => none, D⟩) hcovers
    hss.valid htransformable hss.nodup fun _ _ => rfl
  have hproper : S.variableMapping.Proper :=
    (hstep.proper ⟨⟨nofun, nofun, nofun⟩, nofun⟩).mapping
  have hwidens := hwiden S.variableMapping fun _ _ => id
  have hcalls := everyStatement_callsOrBool hbuiltin ss (lookup_register rfl hor) hss.valid hor
  have hnames : S.variableMapping.NamesIn (Scope.empty.register ss).locals [] := by
    rw [hlocals]
    exact nofun
  refine ⟨ts, S.variableMapping, ?_, ?_, ?_, fun η σ M hM => ?_⟩
  · rw [run, hts, map_some]
  · exact (identifiersDeclared_widen hproper ss hnames hss.valid hloops hwidens).1
  · intro s hs
    obtain ⟨-, us, hus⟩ := widen_within ss hloops hwidens s hs
    exact isSome_of_introduces hus
  · exact simulates_of_widen hproper hM hwidens (everyStatement_and ss hloops hcalls)

end

/-- `function f(x) -> y, z { y := add(x, 1)  z := x }  let a := calldataload(0)
if a { let b, c := f(a)  for {} 1 { a := sub(a, 1) } { if c { break }  sstore(a, b) } }` -/
def loopInIf : Block :=
  [.functionDefinition "f" [⟨"x", ""⟩] [⟨"y", ""⟩, ⟨"z", ""⟩]
    [.assignment ["y"] (.functionCall "add" [.identifier "x", .literal (.number "1")]),
    .assignment ["z"] (.identifier "x")],
  .variableDeclaration [⟨"a", ""⟩]
    (some (.functionCall "calldataload" [.literal (.number "0")])),
  .if (.identifier "a")
    [.variableDeclaration [⟨"b", ""⟩, ⟨"c", ""⟩] (some (.functionCall "f" [.identifier "a"])),
    .forLoop [] (.literal (.number "1"))
      [.assignment ["a"] (.functionCall "sub" [.identifier "a", .literal (.number "1")])]
      [.if (.identifier "c") [.break],
      .expressionStatement (.functionCall "sstore" [.identifier "a", .identifier "b"])]]]

theorem wordSizeTransform_simulates_loopInIf :
    ∃ ss' μ, run (.ofBlock .strictAssemblyForSVMObjects loopInIf) loopInIf = some ss' ∧
      identifiersDeclared [] ss' = true ∧
      (∀ s ∈ statementsWithin loopInIf, ∀ x ∈ s.introduces, (μ x).isSome = true) ∧
      ∀ (η σ : Type) (M : Machine η σ Word), M.Implements .strictAssemblyForSVMObjects →
        Simulates μ M loopInIf ss' :=
  wordSizeTransform_simulates _ (by decide) (by decide) (by decide) (by decide) (by decide)
    (by decide)

/-- `let x := 1  for {} x { x := 0 } {}` -/
def loopWithVariable : Block :=
  [.variableDeclaration [⟨"x", ""⟩] (some (.literal (.number "1"))),
  .forLoop [] (.identifier "x") [.assignment ["x"] (.literal (.number "0"))] []]

/-- The condition of the loop reads a variable that the new program does not have. -/
theorem wordSizeTransform_undeclared :
    Block.Disambiguated .strictAssemblyForSVMObjects loopWithVariable ∧
      everyStatement (·.isSplit) loopWithVariable = true ∧
      everyStatement (fun s => !s.isSwitch) loopWithVariable = true ∧
      (run (.ofBlock .strictAssemblyForSVMObjects loopWithVariable) loopWithVariable).map
        (identifiersDeclared []) = some false := by
  decide +kernel

end WordSizeTransform

end Yul
