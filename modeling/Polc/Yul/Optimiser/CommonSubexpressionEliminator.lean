import Polc.Yul.Optimiser.DataFlowAnalyzer.Simulation
import Polc.Yul.Optimiser.DataFlowAnalyzer.Totality
import Polc.Yul.Optimiser.SyntacticalEquality

/-!
# The common subexpression eliminator

`libyul/optimiser/CommonSubexpressionEliminator.cpp`: expressions that are known to be the current
value of a variable are replaced by the variable.

Number literals are equal for the eliminator if their values are. The functions for objects read
the text of their arguments, so a call of one of them can be replaced by a variable that holds
the size or offset of other data.
-/

namespace Yul

open Sof Semantics DataFlowAnalyzer List Option

section

variable (dialect : Dialect) (replace : Expression → Option Expression)

mutual

/-- Replace the inner expressions first, arguments from right to left. -/
def Expression.replaceEach : Expression → Option Expression
  | .functionalInstruction i args =>
    (argumentsReplaceEach args).bind fun args => replace (.functionalInstruction i args)
  | .functionCall f args =>
    (if dialect.requiresLiterals f then some args else argumentsReplaceEach args).bind fun args =>
      replace (.functionCall f args)
  | .identifier x => replace (.identifier x)
  | .literal l => replace (.literal l)

def argumentsReplaceEach : List Expression → Option (List Expression)
  | [] => some []
  | e :: es => do
    let es ← argumentsReplaceEach es
    let e ← e.replaceEach
    some (e :: es)

end

end

namespace CommonSubexpressionEliminator

/-- Search for a variable whose value equals the expression; the variables are asserted to be in
scope. -/
def search (S : DataFlowAnalyzer) (e : Expression) : List YulString → Option Expression
  | [] => some e
  | x :: xs =>
    if S.inScope x then
      if (S.value x).any (e.syntacticallyEqual ·) then some (.identifier x) else search S e xs
    else none

/-- Replace an expression whose inner expressions are replaced already. -/
def replace (S : DataFlowAnalyzer) : Expression → Option Expression
  | .identifier x =>
    match S.value x with
    | some (.identifier y) => if S.inScope y then some (.identifier y) else none
    | _ => some (.identifier x)
  | e => search S e S.knownVariables

def visit (dialect : Dialect) (S : DataFlowAnalyzer) (t : Unit) (e : Expression) :
    Option (Expression × Unit) :=
  (e.replaceEach dialect (replace S)).map (·, t)

/-- Run the step on a program. -/
def run (dialect : Dialect) (ss : Block) : Option Block :=
  (analyzeStatements (visit dialect) dialect (init.pushScope false) () ss).map (·.1)

end CommonSubexpressionEliminator

mutual

/-- The names of data and objects that an expression refers to: the texts of the arguments of
functions that accept literals only. -/
def Expression.dataNames (dialect : Dialect) : Expression → List String
  | .functionalInstruction _ args => argumentsDataNames dialect args
  | .functionCall f args =>
    (if dialect.requiresLiterals f then [evalBuiltin.literalText args] else []) ++
      argumentsDataNames dialect args
  | .identifier _ | .literal _ => []

def argumentsDataNames (dialect : Dialect) : List Expression → List String
  | [] => []
  | e :: es => e.dataNames dialect ++ argumentsDataNames dialect es

end

namespace CommonSubexpressionEliminator

/-- If a call is replaced by a variable, its data names are those of the variable's value. -/
def sameDataNames (dialect : Dialect) (S : DataFlowAnalyzer) :
    Expression → Expression → Bool
  | .identifier _, _ => true
  | e, .identifier x => (S.value x).all fun v => e.dataNames dialect = v.dataNames dialect
  | _, _ => true

/-- As the eliminator, but fail where the data names would change. -/
def visitChecked (dialect : Dialect) (S : DataFlowAnalyzer) (t : Unit) (e : Expression) :
    Option (Expression × Unit) :=
  (e.replaceEach dialect fun e => (replace S e).filter (sameDataNames dialect S e)).map (·, t)

/-- The eliminator replaces no call of a function for objects by a variable that holds a value
for another data name. -/
def KeepsDataNames (dialect : Dialect) (ss : Block) : Prop :=
  (analyzeStatements (visitChecked dialect) dialect (init.pushScope false) () ss).isSome

end CommonSubexpressionEliminator

/-! ### Equal expressions -/

section

variable {dialect : Dialect} {Γ : Scope} {i i' : Sof.Instruction} {f f' : YulString}
  {es es' : List Expression} {e e' : Expression}

lemma Expression.equal_functionalInstruction :
    (functionalInstruction i es).syntacticallyEqual (functionalInstruction i' es') =
      (decide (i = i') && argumentsSyntacticallyEqual es es') := rfl

lemma Expression.equal_functionCall :
    (functionCall f es).syntacticallyEqual (functionCall f' es') =
      (decide (f = f') && argumentsSyntacticallyEqual es es') := rfl

lemma Expression.dataNames_functionCall :
    (functionCall f es).dataNames dialect =
      (if dialect.requiresLiterals f then [evalBuiltin.literalText es] else []) ++
        argumentsDataNames dialect es := rfl

lemma Expression.returns_of_equal (h : e.syntacticallyEqual e') :
    e.returns dialect Γ = e'.returns dialect Γ := by
  match e, e' with
  | .functionalInstruction i args, .functionalInstruction i' args' =>
    rw [Expression.equal_functionalInstruction, Bool.and_eq_true,
      decide_eq_true_eq] at h
    rw [h.1]
    rfl
  | .functionCall f args, .functionCall f' args' =>
    rw [Expression.equal_functionCall, Bool.and_eq_true, decide_eq_true_eq] at h
    rw [h.1]
    rfl
  | .identifier x, .identifier y | .literal l, .literal l' => rfl

mutual

lemma Expression.length_dataNames (e e' : Expression) (h : e.syntacticallyEqual e') :
    (e.dataNames dialect).length = (e'.dataNames dialect).length := by
  match e, e' with
  | .functionalInstruction i args, .functionalInstruction i' args' =>
    rw [Expression.equal_functionalInstruction, Bool.and_eq_true] at h
    exact length_argumentsDataNames args args' h.2
  | .functionCall f args, .functionCall f' args' =>
    rw [Expression.equal_functionCall, Bool.and_eq_true, decide_eq_true_eq] at h
    obtain ⟨rfl, hargs⟩ := h
    rw [Expression.dataNames_functionCall, Expression.dataNames_functionCall,
      length_append, length_append, length_argumentsDataNames args args' hargs]
    split <;> rfl
  | .identifier x, .identifier y | .literal l, .literal l' => rfl

lemma length_argumentsDataNames (es es' : List Expression)
    (h : argumentsSyntacticallyEqual es es') :
    (argumentsDataNames dialect es).length = (argumentsDataNames dialect es').length := by
  match es, es' with
  | [], [] => rfl
  | e :: es, e' :: es' =>
    rw [argumentsSyntacticallyEqual, Bool.and_eq_true] at h
    rw [argumentsDataNames, argumentsDataNames, length_append, length_append,
      e.length_dataNames e' h.1, length_argumentsDataNames es es' h.2]

end

end

section

variable {dialect : Dialect}

variable {World : Type} {I : Interpreter World} {F : Functions} {V : Variables}

mutual

lemma Expression.eval_of_equal (e e' : Expression)
    (h : e.syntacticallyEqual e')
    (hnames : e.dataNames I.dialect = e'.dataNames I.dialect) (m : SvmState World) :
    e.eval I F V m = e'.eval I F V m := by
  match e, e' with
  | .functionalInstruction i args, .functionalInstruction i' args' =>
    rw [Expression.equal_functionalInstruction, Bool.and_eq_true,
      decide_eq_true_eq] at h
    obtain ⟨rfl, hargs⟩ := h
    rw [Expression.eval_instruction, Expression.eval_instruction,
      evaluateArgs_of_equal args args' hargs hnames]
  | .functionCall f args, .functionCall f' args' =>
    rw [Expression.equal_functionCall, Bool.and_eq_true, decide_eq_true_eq] at h
    obtain ⟨rfl, hargs⟩ := h
    rw [Expression.dataNames_functionCall, Expression.dataNames_functionCall] at hnames
    obtain ⟨htext, hnames⟩ := append_inj hnames (by split <;> rfl)
    rw [Expression.eval_functionCall, Expression.eval_functionCall,
      evaluateArgs_of_equal args args' hargs hnames]
    apply Result.bind_congr
    intro vs m' _
    cases hb : I.dialect.builtin f with
    | none => rfl
    | some b =>
      refine evalBuiltin_of_literalText hb (fun hliteral => ?_) I.env vs m'
      simpa [hliteral] using htext
  | .identifier x, .identifier y =>
    rw [show x = y from of_decide_eq_true h]
  | .literal l, .literal l' =>
    rw [Expression.eval_literal, Expression.eval_literal, Literal.word_eq_of_equal h]

lemma evaluateArgs_of_equal (es es' : List Expression)
    (h : argumentsSyntacticallyEqual es es')
    (hnames : argumentsDataNames I.dialect es = argumentsDataNames I.dialect es')
    (m : SvmState World) : evaluateArgs I F V es m = evaluateArgs I F V es' m := by
  match es, es' with
  | [], [] => rfl
  | e :: es, e' :: es' =>
    rw [argumentsSyntacticallyEqual, Bool.and_eq_true] at h
    rw [argumentsDataNames, argumentsDataNames] at hnames
    obtain ⟨hname, hnames⟩ := append_inj hnames (e.length_dataNames e' h.1)
    rw [args_cons, args_cons,
      evaluateArgs_of_equal es es' h.2 hnames]
    apply Result.bind_congr
    intro vs m' _
    rw [e.eval_of_equal e' h.1 hname]

end

end

/-! ### Replacing inner expressions first -/

section

variable {dialect : Dialect} {Γ : Scope} {replace : Expression → Option Expression}
  {e e' : Expression} {es es' : List Expression}

lemma Expression.replaceEach_instruction {i : Sof.Instruction}
    (h : (functionalInstruction i es).replaceEach dialect replace = some e') :
    ∃ es', argumentsReplaceEach dialect replace es = some es' ∧
      replace (.functionalInstruction i es') = some e' :=
  bind_eq_some_iff.mp h

lemma Expression.replaceEach_functionCall {f : YulString}
    (h : (functionCall f es).replaceEach dialect replace = some e') :
    ∃ es', (if dialect.requiresLiterals f then some es
        else argumentsReplaceEach dialect replace es) = some es' ∧
      replace (.functionCall f es') = some e' :=
  bind_eq_some_iff.mp h

lemma argumentsReplaceEach_cons
    (h : argumentsReplaceEach dialect replace (e :: es) = some es') :
    ∃ es₁ e₁, argumentsReplaceEach dialect replace es = some es₁ ∧
      e.replaceEach dialect replace = some e₁ ∧ es' = e₁ :: es₁ := by
  obtain ⟨es₁, hes, h⟩ := bind_eq_some_iff.mp h
  obtain ⟨e₁, he, heq⟩ := bind_eq_some_iff.mp h
  cases heq
  exact ⟨es₁, e₁, hes, he, rfl⟩

/-- A replacement keeps valid expressions valid, with as many values. -/
def KeepsValid (dialect : Dialect) (Γ : Scope) (replace : Expression → Option Expression) : Prop :=
  ∀ e e', replace e = some e' → e.valid dialect Γ = true →
    e'.valid dialect Γ = true ∧ e'.returns dialect Γ = e.returns dialect Γ

mutual

lemma Expression.valid_of_replaceEach (hreplace : KeepsValid dialect Γ replace) (e : Expression)
    {e' : Expression} (h : e.replaceEach dialect replace = some e')
    (hvalid : e.valid dialect Γ) :
    e'.valid dialect Γ ∧ e'.returns dialect Γ = e.returns dialect Γ := by
  match e with
  | .functionalInstruction i args =>
    obtain ⟨args', hargs, h⟩ := Expression.replaceEach_instruction h
    have hargs' := argumentsValid_of_argumentsReplaceEach hreplace args hargs
      (Bool.and_eq_true _ _ ▸ hvalid).2
    obtain ⟨hv, hr⟩ := hreplace _ _ h (Expression.valid_instruction_congr hvalid hargs')
    exact ⟨hv, hr⟩
  | .functionCall f args =>
    obtain ⟨args', hargs, h⟩ := Expression.replaceEach_functionCall h
    have hvalid' : (Expression.functionCall f args').valid dialect Γ = true := by
      split at hargs
      · cases hargs
        exact hvalid
      · rename_i hliterals
        exact Expression.valid_functionCall_congr hvalid (Bool.eq_false_iff.mpr hliterals)
          (argumentsValid_of_argumentsReplaceEach hreplace args hargs
            (argumentsValid_of_valid hvalid))
    obtain ⟨hv, hr⟩ := hreplace _ _ h hvalid'
    exact ⟨hv, hr⟩
  | .identifier x | .literal l => exact hreplace _ _ h hvalid

lemma argumentsValid_of_argumentsReplaceEach (hreplace : KeepsValid dialect Γ replace)
    (es : List Expression) {es' : List Expression}
    (h : argumentsReplaceEach dialect replace es = some es')
    (hvalid : argumentsValid dialect Γ es) :
    argumentsValid dialect Γ es' ∧ es'.length = es.length := by
  match es with
  | [] =>
    cases h
    exact ⟨rfl, rfl⟩
  | e :: es =>
    obtain ⟨es₁, e₁, hes, he, rfl⟩ := argumentsReplaceEach_cons h
    simp only [argumentsValid, Bool.and_eq_true, decide_eq_true_eq] at hvalid ⊢
    obtain ⟨hesValid, hlength⟩ := argumentsValid_of_argumentsReplaceEach hreplace es hes
      hvalid.1.1
    obtain ⟨heValid, hreturns⟩ := e.valid_of_replaceEach hreplace he hvalid.1.2
    exact ⟨⟨⟨hesValid, heValid⟩, hreturns.trans hvalid.2⟩, by simp [hlength]⟩

end

mutual

lemma Expression.eval_of_replaceEach {World : Type} {I : Interpreter World} {F : Functions}
    {V : Variables} (hkeeps : KeepsValid I.dialect Γ replace)
    (hreplace : ∀ e e', replace e = some e' → e.valid I.dialect Γ →
      ∀ m, e'.eval I F V m = e.eval I F V m) (e : Expression) {e' : Expression}
    (h : e.replaceEach I.dialect replace = some e') (hvalid : e.valid I.dialect Γ)
    (m : SvmState World) : e'.eval I F V m = e.eval I F V m := by
  match e with
  | .functionalInstruction i args =>
    obtain ⟨args', hargs, h⟩ := Expression.replaceEach_instruction h
    have hvargs : argumentsValid I.dialect Γ args = true := (Bool.and_eq_true _ _ ▸ hvalid).2
    have hargs' := argumentsValid_of_argumentsReplaceEach hkeeps args hargs hvargs
    rw [hreplace _ _ h (Expression.valid_instruction_congr hvalid hargs'),
      Expression.eval_instruction, Expression.eval_instruction,
      args_of_argumentsReplaceEach hkeeps hreplace args hargs hvargs]
  | .functionCall f args =>
    obtain ⟨args', hargs, h⟩ := Expression.replaceEach_functionCall h
    have hvargs := argumentsValid_of_valid hvalid
    split at hargs
    · cases hargs
      exact hreplace _ _ h hvalid m
    · rename_i hliterals
      have hliterals := Bool.eq_false_iff.mpr hliterals
      have hargs' := argumentsValid_of_argumentsReplaceEach hkeeps args hargs hvargs
      rw [hreplace _ _ h (Expression.valid_functionCall_congr hvalid hliterals hargs'),
        Expression.eval_functionCall, Expression.eval_functionCall,
        args_of_argumentsReplaceEach hkeeps hreplace args hargs hvargs]
      apply Result.bind_congr
      intro vs m' _
      cases hb : I.dialect.builtin f with
      | none => rfl
      | some b => exact evalBuiltin_of_literalText hb (fun h => absurd h (by simp [hliterals])) ..
  | .identifier x | .literal l => exact hreplace _ _ h hvalid m

lemma args_of_argumentsReplaceEach {World : Type} {I : Interpreter World} {F : Functions}
    {V : Variables} (hkeeps : KeepsValid I.dialect Γ replace)
    (hreplace : ∀ e e', replace e = some e' → e.valid I.dialect Γ →
      ∀ m, e'.eval I F V m = e.eval I F V m) (es : List Expression) {es' : List Expression}
    (h : argumentsReplaceEach I.dialect replace es = some es')
    (hvalid : argumentsValid I.dialect Γ es) (m : SvmState World) :
    evaluateArgs I F V es' m = evaluateArgs I F V es m := by
  match es with
  | [] =>
    cases h
    rfl
  | e :: es =>
    obtain ⟨es₁, e₁, hes, he, rfl⟩ := argumentsReplaceEach_cons h
    simp only [argumentsValid, Bool.and_eq_true] at hvalid
    rw [args_cons, args_cons,
      args_of_argumentsReplaceEach hkeeps hreplace es hes hvalid.1.1]
    apply Result.bind_congr
    intro vs m' _
    rw [e.eval_of_replaceEach hkeeps hreplace he hvalid.1.2]

end

end

/-! ### What the eliminator replaces -/

namespace CommonSubexpressionEliminator

section

variable {dialect : Dialect} {Γ : Scope} {S : DataFlowAnalyzer} {e e' : Expression}
  {x : YulString}

lemma search_eq_some {xs : List YulString} (h : search S e xs = some e') :
    e' = e ∨ ∃ x v, e' = .identifier x ∧ S.value x = some v ∧ e.syntacticallyEqual v := by
  induction xs with
  | nil =>
    cases h
    exact .inl rfl
  | cons x xs ih =>
    rw [search] at h
    split at h
    · split at h
      · rename_i hany
        cases h
        rw [Option.any_eq_true] at hany
        obtain ⟨v, hv, heq⟩ := hany
        exact .inr ⟨x, v, rfl, hv, heq⟩
      · exact ih h
    · cases h

/-- An identifier is replaced by its value if that is an identifier too, and another expression
by a variable with that value. -/
lemma replace_eq_some (h : replace S e = some e') :
    e' = e ∨ (∃ x y, e = .identifier x ∧ e' = .identifier y ∧ S.value x = some (.identifier y)) ∨
      ∃ x v, e' = .identifier x ∧ S.value x = some v ∧ e.syntacticallyEqual v ∧
        ∀ y, e ≠ .identifier y := by
  match e with
  | .identifier x =>
    rw [replace] at h
    split at h
    · rename_i y hy
      split at h
      · cases h
        exact .inr (.inl ⟨x, y, rfl, rfl, hy⟩)
      · cases h
    · cases h
      exact .inl rfl
  | .functionalInstruction _ _ | .functionCall _ _ | .literal _ =>
    rcases search_eq_some h with h | ⟨x, v, rfl, hv, heq⟩
    · exact .inl h
    · exact .inr (.inr ⟨x, v, rfl, hv, heq, nofun⟩)

lemma keepsValid_replace (hS : S.WellFormed dialect Γ) : KeepsValid dialect Γ (replace S) := by
  intro e e' h hvalid
  rcases replace_eq_some h with rfl | ⟨x, y, rfl, rfl, hy⟩ | ⟨x, v, rfl, hv, heq, -⟩
  · exact ⟨hvalid, rfl⟩
  · exact ⟨(hS x _ hy).valid, rfl⟩
  · refine ⟨?_, ?_⟩
    · rw [Expression.valid_identifier, decide_eq_true_eq]
      exact (hS x v hv).mem_locals
    · rw [Expression.returns_of_equal heq, (hS x v hv).returns]
      rfl

lemma eval_replace {World : Type} {I : Interpreter World} {F : Functions} {V : Variables}
    (hS : S.WellFormed I.dialect Γ) (hold : S.Holds I.env I.dialect V)
    (h : replace S e = some e') (hnames : sameDataNames I.dialect S e e')
    (m : SvmState World) : e'.eval I F V m = e.eval I F V m := by
  rcases replace_eq_some h with rfl | ⟨x, y, rfl, rfl, hy⟩ | ⟨x, v, rfl, hv, heq, hne⟩
  · rfl
  · exact (hold.eval_identifier hS hy m).symm
  · have hnames : e.dataNames I.dialect = v.dataNames I.dialect := by
      cases e with
      | identifier y => exact absurd rfl (hne y)
      | _ => simpa [sameDataNames, hv] using hnames
    rw [hold.eval_identifier hS hv, e.eval_of_equal v heq hnames]

/-- The assertions hold where the known variables and those of their values are in scope. -/
lemma replace_isSome (hS : S.WellFormed dialect Γ) (hscope : S.InScope Γ) (e : Expression) :
    (replace S e).isSome := by
  have hsearch (e : Expression) (xs : List YulString) (hxs : ∀ x ∈ xs, (S.value x).isSome) :
      (search S e xs).isSome := by
    induction xs with
    | nil => rfl
    | cons x xs ih =>
      rw [forall_mem_cons] at hxs
      obtain ⟨v, hv⟩ := isSome_iff_exists.mp hxs.1
      rw [search, if_pos (hscope.inScope x (hS x v hv).mem_locals)]
      split
      · rfl
      · exact ih hxs.2
  match e with
  | .identifier x =>
    rw [replace]
    split
    · rename_i y hy
      have hmem := (hS x _ hy).referenced_mem_locals y mem_cons_self
      rw [if_pos (hscope.inScope y hmem)]
      rfl
    · rfl
  | .functionalInstruction _ _ | .functionCall _ _ | .literal _ =>
    exact hsearch _ _ fun x hx => (hscope.mem_knownVariables hS).mp hx

end

mutual

lemma replaceEach_isSome {dialect : Dialect} {replace : Expression → Option Expression}
    (h : ∀ e, (replace e).isSome) (e : Expression) : (e.replaceEach dialect replace).isSome := by
  match e with
  | .functionalInstruction i args =>
    obtain ⟨args', hargs⟩ := isSome_iff_exists.mp (argumentsReplaceEach_isSome h args)
    rw [Expression.replaceEach, hargs]
    exact h _
  | .functionCall f args =>
    obtain ⟨args', hargs⟩ := isSome_iff_exists.mp (argumentsReplaceEach_isSome h args)
    rw [Expression.replaceEach, hargs]
    split <;> exact h _
  | .identifier x | .literal l => exact h _

lemma argumentsReplaceEach_isSome {dialect : Dialect} {replace : Expression → Option Expression}
    (h : ∀ e, (replace e).isSome) (es : List Expression) :
    (argumentsReplaceEach dialect replace es).isSome := by
  match es with
  | [] => rfl
  | e :: es =>
    obtain ⟨es', hes⟩ := isSome_iff_exists.mp (argumentsReplaceEach_isSome h es)
    obtain ⟨e', he⟩ := isSome_iff_exists.mp (replaceEach_isSome h e)
    rw [argumentsReplaceEach, hes]
    change (Option.bind _ _).isSome
    rw [he]
    rfl

end

lemma visitValid_visit (dialect : Dialect) : VisitValid dialect (visit dialect) := by
  intro Γ S t e e' t' h hS hvalid
  obtain ⟨e₁, he, heq⟩ := map_eq_some_iff.mp h
  cases heq
  exact e.valid_of_replaceEach (keepsValid_replace hS) he hvalid

lemma totalVisit_visit (dialect : Dialect) :
    TotalVisit dialect (fun _ => ()) (visit dialect) := by
  intro Γ S e t r hready hvalid ht
  obtain ⟨e', he⟩ := isSome_iff_exists.mp
    (replaceEach_isSome (replace_isSome hready.wellFormed hready.inScope) e)
  exact ⟨e', (), map_eq_some_iff.mpr ⟨e', he, rfl⟩, rfl⟩

lemma soundVisit_visitChecked {World : Type} (I : Interpreter World) :
    SoundVisit I (visitChecked I.dialect) where
  valid := by
    intro Γ S t e e' t' h hS hvalid
    obtain ⟨e₁, he, heq⟩ := map_eq_some_iff.mp h
    cases heq
    refine e.valid_of_replaceEach (fun e e' h => ?_) he hvalid
    exact keepsValid_replace hS e e' (filter_eq_some_iff.mp h).1
  eval_eq := by
    intro Γ S t e e' t' h hS hvalid V hold F m
    obtain ⟨e₁, he, heq⟩ := map_eq_some_iff.mp h
    cases heq
    refine e.eval_of_replaceEach (fun e e' h => ?_) (fun e e' h _ m => ?_) he hvalid m
    · exact keepsValid_replace hS e e' (filter_eq_some_iff.mp h).1
    · obtain ⟨h, hnames⟩ := filter_eq_some_iff.mp h
      exact eval_replace hS hold h hnames m

mutual

lemma replaceEach_mono {dialect : Dialect} {replace replace' : Expression → Option Expression}
    (hle : ∀ e e', replace e = some e' → replace' e = some e') (e : Expression) {e' : Expression}
    (h : e.replaceEach dialect replace = some e') : e.replaceEach dialect replace' = some e' := by
  match e with
  | .functionalInstruction i args =>
    obtain ⟨args', hargs, h⟩ := Expression.replaceEach_instruction h
    exact bind_eq_some_iff.mpr ⟨args', argumentsReplaceEach_mono hle args hargs, hle _ _ h⟩
  | .functionCall f args =>
    obtain ⟨args', hargs, h⟩ := Expression.replaceEach_functionCall h
    refine bind_eq_some_iff.mpr ⟨args', ?_, hle _ _ h⟩
    split at hargs
    · rw [if_pos ‹_›, hargs]
    · rw [if_neg ‹_›, argumentsReplaceEach_mono hle args hargs]
  | .identifier x | .literal l => exact hle _ _ h

lemma argumentsReplaceEach_mono {dialect : Dialect}
    {replace replace' : Expression → Option Expression}
    (hle : ∀ e e', replace e = some e' → replace' e = some e') (es : List Expression)
    {es' : List Expression} (h : argumentsReplaceEach dialect replace es = some es') :
    argumentsReplaceEach dialect replace' es = some es' := by
  match es with
  | [] => exact h
  | e :: es =>
    obtain ⟨es₁, e₁, hes, he, rfl⟩ := argumentsReplaceEach_cons h
    exact bind_eq_some_iff.mpr ⟨es₁, argumentsReplaceEach_mono hle es hes,
      bind_eq_some_iff.mpr ⟨e₁, replaceEach_mono hle e he, rfl⟩⟩

end

lemma visit_of_visitChecked {dialect : Dialect} {S : DataFlowAnalyzer} {t : Unit}
    {e : Expression} {r : Expression × Unit} (h : visitChecked dialect S t e = some r) :
    visit dialect S t e = some r := by
  obtain ⟨e', he, rfl⟩ := map_eq_some_iff.mp h
  exact map_eq_some_iff.mpr
    ⟨e', replaceEach_mono (fun _ _ h => (filter_eq_some_iff.mp h).1) e he, rfl⟩

/-- `let a := datasize(7)  let b := datasize(0x7)  sstore(0, b)` -/
def dataSizes : Block :=
  [.variableDeclaration [⟨"a", ""⟩]
      (some (.functionCall "datasize" [.literal (.number "7")])),
    .variableDeclaration [⟨"b", ""⟩]
      (some (.functionCall "datasize" [.literal (.number "0x7")])),
    .expressionStatement
      (.functionCall "sstore" [.literal (.number "0"), .identifier "b"])]

/-- `let a := datasize(7)  let b := a  sstore(0, a)` -/
def mergedDataSizes : Block :=
  [.variableDeclaration [⟨"a", ""⟩]
      (some (.functionCall "datasize" [.literal (.number "7")])),
    .variableDeclaration [⟨"b", ""⟩] (some (.identifier "a")),
    .expressionStatement
      (.functionCall "sstore" [.literal (.number "0"), .identifier "a"])]

/-- An object with data of one byte called `7`, and other data of two bytes. -/
def dataEnvironment : Environment Unit :=
  { (default : Environment Unit) with datasize := fun name => if name = "7" then 1 else 2 }

def stored : Run Unit LoopState → Word
  | .ok _ m => m.storage 0
  | _ => 0

/-- `let a := calldataload(0)  let b := calldataload(0)  sstore(b, a)` -/
def callDataTwice : Block :=
  [.variableDeclaration [⟨"a", ""⟩]
      (some (.functionCall "calldataload" [.literal (.number "0")])),
    .variableDeclaration [⟨"b", ""⟩]
      (some (.functionCall "calldataload" [.literal (.number "0")])),
    .expressionStatement (.functionCall "sstore" [.identifier "b", .identifier "a"])]

end CommonSubexpressionEliminator

end Yul
