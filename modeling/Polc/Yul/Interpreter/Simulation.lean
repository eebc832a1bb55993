import Polc.Semantics.Simulation
import Polc.Yul.Interpreter.Properties

/-!
# Simulations between programs

Executions of two programs that are related step by step: one rule for each kind of statement,
one for calls by induction on their depth, and what follows for whole programs. A relation on
function definitions says what the functions of the two programs have to do with each other.
-/

namespace Yul

open Sof Semantics

variable {World : Type}

/-- The program ends with the given result. -/
def Block.Ends (env : Environment World) (dialect : Dialect) (ss : Block) (m : SvmState World)
    (r : Run World LoopState) : Prop :=
  r ≠ .timeout ∧ ∃ n, Block.run env dialect n ss m = r

/-- The programs end with the same results from every state: the same halting reason, memory,
storage and events. They run forever from the same states. -/
def SameRuns (env : Environment World) (dialect : Dialect) (ss ss' : Block) : Prop :=
  ∀ m r, Block.Ends env dialect ss' m r ↔ Block.Ends env dialect ss m r

lemma SameRuns.refl (env : Environment World) (dialect : Dialect) (ss : Block) :
    SameRuns env dialect ss ss :=
  fun _ _ => Iff.rfl

variable {ss body body' : Block}

/-- Two programs have the same runs if each run of one of them that does not run out of fuel is a
run of the other one with enough fuel. -/
lemma SameRuns.of_sim {env : Environment World} {dialect : Dialect} {ss' : Block}
    (b b' : Nat → Nat)
    (h : ∀ n m, Result.Sim True False Eq Eq (Block.run env dialect n ss m)
      (Block.run env dialect (b n) ss' m))
    (h' : ∀ n m, Result.Sim False True Eq Eq (Block.run env dialect (b' n) ss m)
      (Block.run env dialect n ss' m)) : SameRuns env dialect ss ss' := by
  intro m r
  constructor
  · rintro ⟨hr, n, rfl⟩
    exact ⟨hr, b' n, (h' n m).eq_of_ne_timeout' hr⟩
  · rintro ⟨hr, n, rfl⟩
    exact ⟨hr, b n, ((h n m).eq_of_ne_timeout hr).symm⟩

lemma SameRuns.of_eq {env : Environment World} {dialect : Dialect} {ss' : Block}
    (h : ∀ n m, Block.run env dialect n ss m = Block.run env dialect n ss' m) :
    SameRuns env dialect ss ss' := by
  intro m r
  rw [Block.Ends, Block.Ends]
  simp only [h]

/-! ### Functions -/

/-- The same functions are known, up to a relation. -/
def Functions.Rel (D : FunctionDefinition → FunctionDefinition → Prop) (F F' : Functions) :
    Prop :=
  ∀ f, Option.Rel D (F f) (F' f)

/-- The functions that a block defines. -/
def functionDefinitions : Block → List (YulString × FunctionDefinition)
  | [] => []
  | .functionDefinition f ps rs body :: ss => (f, ⟨ps, rs, body⟩) :: functionDefinitions ss
  | _ :: ss => functionDefinitions ss

/-- The same functions are defined, up to a relation. -/
def DefinesRelated (D : FunctionDefinition → FunctionDefinition → Prop) (ss ss' : Block) :
    Prop :=
  List.Forall₂ (fun p p' => p.1 = p'.1 ∧ D p.2 p'.2) (functionDefinitions ss)
    (functionDefinitions ss')

section

variable {D : FunctionDefinition → FunctionDefinition → Prop} {F F' : Functions}
  {d d' : FunctionDefinition} {ss ss' ts ts' : Block} {s : Statement}

lemma Functions.Rel.none : Functions.Rel D (fun _ => none) (fun _ => none) := fun _ => .none

lemma Functions.Rel.set (h : F.Rel D F') (hd : D d d') (f : YulString) :
    (F.set f d).Rel D (F'.set f d') := by
  intro g
  unfold Functions.set
  split
  · exact .some hd
  · exact h g

lemma definitions_append (ss ts : Block) :
    functionDefinitions (ss ++ ts) = functionDefinitions ss ++ functionDefinitions ts := by
  induction ss with
  | nil => rfl
  | cons s ss ih =>
    cases s with
    | functionDefinition f ps rs body => exact congrArg (_ :: ·) ih
    | _ => exact ih

lemma definitions_cons (s : Statement) (ss : Block) :
    functionDefinitions (s :: ss) = functionDefinitions [s] ++ functionDefinitions ss :=
  definitions_append [s] ss

lemma Functions.register_eq_foldl (F : Functions) (ss : Block) :
    F.register ss = (functionDefinitions ss).foldl (fun F p => F.set p.1 p.2) F := by
  induction ss generalizing F with
  | nil => rfl
  | cons s ss ih =>
    cases s with
    | functionDefinition f ps rs body => exact ih _
    | _ => exact ih F

lemma Functions.Rel.register (h : F.Rel D F') (hss : DefinesRelated D ss ss') :
    (F.register ss).Rel D (F'.register ss') := by
  rw [Functions.register_eq_foldl, Functions.register_eq_foldl]
  rw [DefinesRelated] at hss
  generalize functionDefinitions ss = ds at hss
  generalize functionDefinitions ss' = ds' at hss
  induction hss generalizing F F' with
  | nil => exact h
  | cons hp _ ih =>
    obtain ⟨hf, hd⟩ := hp
    rw [List.foldl_cons, List.foldl_cons, hf]
    exact ih (h.set hd _)

lemma DefinesRelated.nil : DefinesRelated D [] [] := List.Forall₂.nil

lemma DefinesRelated.append (h : DefinesRelated D ss ss') (h' : DefinesRelated D ts ts') :
    DefinesRelated D (ss ++ ts) (ss' ++ ts') := by
  rw [DefinesRelated, definitions_append, definitions_append]
  exact List.rel_append h h'

lemma DefinesRelated.cons (h : DefinesRelated D [s] ss') (h' : DefinesRelated D ts ts') :
    DefinesRelated D (s :: ts) (ss' ++ ts') :=
  DefinesRelated.append h h'

lemma DefinesRelated.of_eq_nil (h : functionDefinitions ss = []) (h' : functionDefinitions ss' = []) :
    DefinesRelated D ss ss' := by
  rw [DefinesRelated, h, h']
  exact .nil

end

/-! ### Expressions -/

/-- Two interpreters in which related functions behave alike. -/
structure Interpreter.Sim (p q : Prop) (D : FunctionDefinition → FunctionDefinition → Prop)
    (I I' : Interpreter World) : Prop where
  env : I'.env = I.env
  dialect : I'.dialect = I.dialect
  fuel : Comparable p q I.fuel I'.fuel
  call : ∀ {F F' : Functions}, F.Rel D F' → ∀ f vs m,
    Result.Sim p q Eq Eq (I.call F f vs m) (I'.call F' f vs m)

/-- Two interpreters with calls that behave alike for given functions. -/
structure Interpreter.SimAt (p q : Prop) (F F' : Functions) (I I' : Interpreter World) :
    Prop where
  env : I'.env = I.env
  dialect : I'.dialect = I.dialect
  fuel : Comparable p q I.fuel I'.fuel
  call : ∀ f vs m, Result.Sim p q Eq Eq (I.call F f vs m) (I'.call F' f vs m)

section

variable {p q : Prop} {D : FunctionDefinition → FunctionDefinition → Prop}
  {I I' : Interpreter World} {F F' : Functions} {V V' : Variables}

lemma Interpreter.Sim.simAt (hI : I.Sim p q D I') (hF : F.Rel D F') : I.SimAt p q F F' I' :=
  ⟨hI.env, hI.dialect, hI.fuel, hI.call hF⟩

namespace Interpreter.SimAt

mutual

lemma eval (hI : I.SimAt p q F F' I') (e : Expression)
    (hV : ∀ x ∈ e.referencedVariables, V' x = V x) (m : SvmState World) :
    Result.Sim p q Eq Eq (e.eval I F V m) (e.eval I' F' V' m) := by
  match e with
  | .functionalInstruction i args =>
    rw [Expression.eval_instruction, Expression.eval_instruction]
    refine (evaluateArgs hI args hV m).bind ?_
    rintro vs _ m₁ _ - - rfl rfl
    rw [hI.env]
    exact .refl (fun _ => rfl) (fun _ => rfl) _
  | .functionCall f args =>
    rw [Expression.eval_functionCall, Expression.eval_functionCall]
    refine (evaluateArgs hI args hV m).bind ?_
    rintro vs _ m₁ _ - - rfl rfl
    rw [hI.env, hI.dialect]
    cases I.dialect.builtin f with
    | some b => exact .refl (fun _ => rfl) (fun _ => rfl) _
    | none => exact hI.call f vs m₁
  | .identifier x =>
    rw [Expression.eval_identifier, Expression.eval_identifier, hV x List.mem_cons_self]
    exact .ok rfl rfl
  | .literal l => exact .ok rfl rfl

lemma evaluateArgs (hI : I.SimAt p q F F' I') (es : List Expression)
    (hV : ∀ x ∈ argumentsReferencedVariables es, V' x = V x) (m : SvmState World) :
    Result.Sim p q Eq Eq (Yul.evaluateArgs I F V es m) (Yul.evaluateArgs I' F' V' es m) := by
  match es with
  | [] => exact .ok rfl rfl
  | e :: es =>
    rw [argumentsReferencedVariables, List.forall_mem_append] at hV
    rw [args_cons, args_cons]
    refine (evaluateArgs hI es hV.2 m).bind ?_
    rintro vs _ m₁ _ - - rfl rfl
    refine (eval hI e hV.1 m₁).bind ?_
    rintro v _ m₂ _ - - rfl rfl
    exact .ok rfl rfl

end

lemma evaluate (hI : I.SimAt p q F F' I') (e : Expression)
    (hV : ∀ x ∈ e.referencedVariables, V' x = V x) (m : SvmState World) :
    Result.Sim p q Eq Eq (e.evaluate I F V m) (e.evaluate I' F' V' m) :=
  (hI.eval e hV m).map fun _ _ h => congrArg (·.headD 0) h

lemma evaluateMulti (hI : I.SimAt p q F F' I') (value : Option Expression)
    (hV : ∀ e, value = some e → ∀ x ∈ e.referencedVariables, V' x = V x) (m : SvmState World) :
    Result.Sim p q Eq Eq (Expression.evaluateMulti I F V value m)
      (Expression.evaluateMulti I' F' V' value m) := by
  cases value with
  | none => exact .ok rfl rfl
  | some e => exact hI.eval e (hV e rfl) m

end Interpreter.SimAt

lemma Expression.eval_sim (hI : I.Sim p q D I') (hF : F.Rel D F') (e : Expression)
    (hV : ∀ x ∈ e.referencedVariables, V' x = V x) (m : SvmState World) :
    Result.Sim p q Eq Eq (e.eval I F V m) (e.eval I' F' V' m) :=
  (hI.simAt hF).eval e hV m

lemma Expression.evaluate_sim (hI : I.Sim p q D I') (hF : F.Rel D F') (e : Expression)
    (hV : ∀ x ∈ e.referencedVariables, V' x = V x) (m : SvmState World) :
    Result.Sim p q Eq Eq (e.evaluate I F V m) (e.evaluate I' F' V' m) :=
  (hI.simAt hF).evaluate e hV m

lemma evaluateMulti_sim (hI : I.Sim p q D I') (hF : F.Rel D F') (value : Option Expression)
    (hV : ∀ e, value = some e → ∀ x ∈ e.referencedVariables, V' x = V x) (m : SvmState World) :
    Result.Sim p q Eq Eq (Expression.evaluateMulti I F V value m)
      (Expression.evaluateMulti I' F' V' value m) :=
  (hI.simAt hF).evaluateMulti value hV m

end

/-! ### Statements -/

/-- How the outcomes of statements are related: they leave or continue the loop alike, and the
variables are related by what belongs to that. -/
def Outcome (A : LoopState → Variables → Variables → Prop) (r r' : LoopState × Variables) :
    Prop :=
  r.1 = r'.1 ∧ A r.1 r.2 r'.2

section

variable {p q : Prop} {I I' : Interpreter World} {F F' : Functions} {V V' : Variables}
  {A B : LoopState → Variables → Variables → Prop} {m : SvmState World}

lemma Outcome.mono (h : ∀ l W W', A l W W' → B l W W') :
    ∀ r r', Outcome A r r' → Outcome B r r' :=
  fun _ _ hr => ⟨hr.1, h _ _ _ hr.2⟩

lemma Variables.restrict_self (V : Variables) : V.restrict V = V := by
  funext x
  unfold restrict
  split
  · rfl
  · rename_i hx
    exact (Option.not_isSome_iff_eq_none.mp hx).symm

lemma Variables.restrict_restrict (V W : Variables) : V.restrict (V.restrict W) = V.restrict W := by
  funext x
  unfold restrict
  split <;> rfl

@[simp] lemma execBlock_nil : execBlock I F V [] m = .ok (.default, V) m := by
  rw [execBlock, execStatements_nil, closeScope, Result.map_ok, Variables.restrict_self]

variable {r r' : Run World (LoopState × Variables)}

lemma closeScope_sim (h : Result.Sim p q Eq (Outcome A) r r')
    (hA : ∀ l W W', A l W W' → B l (V.restrict W) (V'.restrict W')) :
    Result.Sim p q Eq (Outcome B) (closeScope V r) (closeScope V' r') :=
  h.map fun _ _ hr => ⟨hr.1, hA _ _ _ hr.2⟩

lemma closeScope_sim_left (h : Result.Sim p q Eq (Outcome A) r r')
    (hA : ∀ l W W', A l W W' → B l (V.restrict W) W') :
    Result.Sim p q Eq (Outcome B) (closeScope V r) r' := by
  have hmap : r'.map id = r' := by cases r' <;> rfl
  rw [← hmap]
  exact h.map fun _ _ hr => ⟨hr.1, hA _ _ _ hr.2⟩

lemma closeScope_sim_right (h : Result.Sim p q Eq (Outcome A) r r')
    (hA : ∀ l W W', A l W W' → B l W (V'.restrict W')) :
    Result.Sim p q Eq (Outcome B) r (closeScope V' r') := by
  have hmap : r.map id = r := by cases r <;> rfl
  rw [← hmap]
  exact h.map fun _ _ hr => ⟨hr.1, hA _ _ _ hr.2⟩

lemma execBlock_sim {D : FunctionDefinition → FunctionDefinition → Prop} {ss' : Block}
    (hF : F.Rel D F') (hss : DefinesRelated D ss ss')
    (h : ∀ {F F' : Functions}, F.Rel D F' → Result.Sim p q Eq (Outcome A)
      (execStatements I F V ss m) (execStatements I' F' V' ss' m))
    (hA : ∀ l W W', A l W W' → B l (V.restrict W) (V'.restrict W')) :
    Result.Sim p q Eq (Outcome B) (execBlock I F V ss m) (execBlock I' F' V' ss' m) :=
  closeScope_sim (h (hF.register hss)) hA

lemma execStatements_append (ss ts : List Statement) :
    execStatements I F V (ss ++ ts) m =
      (execStatements I F V ss m).bind fun r m =>
        if r.1 = .default then execStatements I F r.2 ts m else .ok r m := by
  induction ss generalizing V m with
  | nil => rfl
  | cons s ss ih =>
    rw [List.cons_append, execStatements_cons, execStatements_cons, Result.bind_assoc]
    apply Result.bind_congr
    intro r m₁ _
    by_cases hr : r.1 = .default
    · rw [if_pos hr, if_pos hr, ih]
    · rw [if_neg hr, if_neg hr, Result.bind_ok, if_neg hr]

lemma exec_singleton (s : Statement) :
    execStatements I F V [s] m = s.exec I F V m := by
  rw [execStatements_cons]
  cases s.exec I F V m with
  | ok r m₁ =>
    obtain ⟨l, W⟩ := r
    cases l <;> rfl
  | halt h m₁ => rfl
  | timeout => rfl

lemma exec_append_sim {ss ss' ts ts' : List Statement}
    (h : Result.Sim p q Eq (Outcome A) (execStatements I F V ss m)
      (execStatements I' F' V' ss' m))
    (ht : ∀ W W' m, A .default W W' → Result.Sim p q Eq (Outcome B)
      (execStatements I F W ts m) (execStatements I' F' W' ts' m))
    (hA : ∀ l W W', l ≠ .default → A l W W' → B l W W') :
    Result.Sim p q Eq (Outcome B) (execStatements I F V (ss ++ ts) m)
      (execStatements I' F' V' (ss' ++ ts') m) := by
  rw [execStatements_append, execStatements_append]
  refine h.bind ?_
  rintro ⟨l, W⟩ ⟨_, W'⟩ m₁ _ - - ⟨rfl, hW⟩ rfl
  by_cases hl : l = .default
  · subst hl
    exact ht W W' m₁ hW
  · rw [if_neg hl, if_neg hl]
    exact .ok ⟨rfl, hA l W W' hl hW⟩ rfl

lemma exec_cons_sim {s : Statement} {ss' ts ts' : List Statement}
    (h : Result.Sim p q Eq (Outcome A) (s.exec I F V m) (execStatements I' F' V' ss' m))
    (ht : ∀ W W' m, A .default W W' → Result.Sim p q Eq (Outcome B)
      (execStatements I F W ts m) (execStatements I' F' W' ts' m))
    (hA : ∀ l W W', l ≠ .default → A l W W' → B l W W') :
    Result.Sim p q Eq (Outcome B) (execStatements I F V (s :: ts) m)
      (execStatements I' F' V' (ss' ++ ts') m) := by
  rw [← exec_singleton] at h
  exact exec_append_sim h ht hA

lemma exec_if_sim {c c' : Expression}
    (hc : Result.Sim p q Eq Eq (c.evaluate I F V m) (c'.evaluate I' F' V' m))
    (hbody : ∀ m, Result.Sim p q Eq (Outcome A) (execBlock I F V body m)
      (execBlock I' F' V' body' m)) (hskip : A .default V V') :
    Result.Sim p q Eq (Outcome A) ((Statement.if c body).exec I F V m)
      ((Statement.if c' body').exec I' F' V' m) := by
  rw [exec_if, exec_if]
  refine hc.bind ?_
  rintro v _ m₁ _ - - rfl rfl
  by_cases hv : v = 0
  · rw [if_neg (not_not.mpr hv), if_neg (not_not.mpr hv)]
    exact .ok ⟨rfl, hskip⟩ rfl
  · rw [if_pos hv, if_pos hv]
    exact hbody m₁

lemma exec_switch_sim {e e' : Expression} {cs cs' : List Case}
    (he : Result.Sim p q Eq Eq (e.evaluate I F V m) (e'.evaluate I' F' V' m))
    (hcs : ∀ v m, Result.Sim p q Eq (Outcome A) (execCases I F V v cs m)
      (execCases I' F' V' v cs' m)) :
    Result.Sim p q Eq (Outcome A) ((Statement.switch e cs).exec I F V m)
      ((Statement.switch e' cs').exec I' F' V' m) := by
  rw [exec_switch, exec_switch]
  refine he.bind ?_
  rintro v _ m₁ _ - - rfl rfl
  exact hcs v m₁

/-- The loop itself: related by `A` before each iteration, by `B` after the body, and by `C` at the
end. -/
lemma exec_loop_sim {c c' : Expression} {post post' : Block} {A C : Variables → Variables → Prop}
    (hfuel : Comparable p q I.fuel I'.fuel)
    (hc : ∀ W W' m, A W W' → Result.Sim p q Eq Eq (c.evaluate I F W m) (c'.evaluate I' F' W' m))
    (hexit : ∀ W W', A W W' → C W W')
    (hbody : ∀ W W' m, A W W' → Result.Sim p q Eq (Outcome B) (execBlock I F W body m)
      (execBlock I' F' W' body' m)) (hbreak : ∀ W W', B .break W W' → C W W')
    (hpost : ∀ l W W' m, l ≠ .break → B l W W' → Result.Sim p q Eq (Outcome fun _ => A)
      (execBlock I F W post m) (execBlock I' F' W' post' m)) {W W' : Variables} (hW : A W W')
    (m : SvmState World) :
    Result.Sim p q Eq C
      (loop (loopCondition I F c) (loopBody I F body) (loopPost I F post) I.fuel W m)
      (loop (loopCondition I' F' c') (loopBody I' F' body') (loopPost I' F' post') I'.fuel
        W' m) := by
  refine loop_sim (A := A) (B := fun U U' => ∃ l, l ≠ .break ∧ B l U U') (C := C)
    ?_ hexit ?_ ?_ hfuel hW rfl
  · rintro U U' m₁ _ hU rfl
    exact (hc U U' m₁ hU).map fun v w hvw => by rw [hvw]
  · rintro U U' m₁ _ hU rfl
    refine (hbody U U' m₁ hU).map ?_
    rintro ⟨l, T⟩ ⟨_, T'⟩ ⟨rfl, hT⟩
    refine ⟨rfl, ?_⟩
    by_cases hl : l = .break
    · subst hl
      exact hbreak T T' hT
    · rw [decide_eq_false hl]
      exact ⟨l, hl, hT⟩
  · rintro U U' m₁ _ ⟨l, hl, hU⟩ rfl
    exact (hpost l U U' m₁ hl hU).map fun _ _ hr => hr.2

lemma execCases_cons_sim {v : Word} {value : Option Literal} {cs cs' : List Case}
    (hbody : Result.Sim p q Eq (Outcome A) (execBlock I F V body m) (execBlock I' F' V' body' m))
    (hcs : Result.Sim p q Eq (Outcome A) (execCases I F V v cs m) (execCases I' F' V' v cs' m)) :
    Result.Sim p q Eq (Outcome A) (execCases I F V v (.mk value body :: cs) m)
      (execCases I' F' V' v (.mk value body' :: cs') m) := by
  rw [execCases_cons, execCases_cons]
  by_cases hv : value.all (·.word = v) = true
  · rw [if_pos hv, if_pos hv]
    exact hbody
  · rw [if_neg hv, if_neg hv]
    exact hcs

end

/-- Run the body of a function. -/
def FunctionDefinition.run (I : Interpreter World) (F : Functions) (d : FunctionDefinition)
    (vs : List Word) (m : SvmState World) : Run World (List Word) :=
  (execBlock I F (d.variables vs) d.body m).map fun r =>
    d.returnVariables.map fun x => (r.2 x.name).getD 0

section

variable {env : Environment World} {dialect : Dialect} {p q : Prop}
  {D : FunctionDefinition → FunctionDefinition → Prop} {F F' : Functions}

lemma callFunction_succ (n : Nat) (f : YulString) (vs : List Word) (m : SvmState World) :
    callFunction env dialect (n + 1) F f vs m =
      match F f with
      | none => .halt .invalid m
      | some d => d.run (.ofBound env dialect n) F vs m := rfl

/-- Calls of related functions behave alike, by induction on the depth of calls. The first
program may have a larger bound if the second one may run out of fuel. -/
lemma sim_ofBound {k : Nat} (hk : k = 0 ∨ q)
    (hD : ∀ (I I' : Interpreter World), I.dialect = dialect → (I.fuel = 0 → k = 0) →
      I.Sim p q D I' → ∀ F F', Functions.Rel D F F' → ∀ d d', D d d' → ∀ vs m,
        Result.Sim p q Eq Eq (d.run I F vs m) (d'.run I' F' vs m)) (n : Nat) :
    (Interpreter.ofBound env dialect (n + k)).Sim p q D (.ofBound env dialect n) := by
  have hfuel (n : Nat) : Comparable p q (n + k) n := by
    rcases hk with rfl | hq
    · exact .refl n
    · exact .inr (.inr ⟨hq, Nat.le_add_right n k⟩)
  refine ⟨rfl, rfl, hfuel n, ?_⟩
  show ∀ {F F' : Functions}, F.Rel D F' → ∀ f vs m,
    Result.Sim p q Eq Eq (callFunction env dialect (n + k) F f vs m)
      (callFunction env dialect n F' f vs m)
  induction n with
  | zero =>
    intro F F' hF f vs m
    rcases hk with rfl | hq
    · exact .timeout
    · exact .right hq
  | succ n ih =>
    intro F F' hF f vs m
    rw [Nat.succ_add, callFunction_succ, callFunction_succ]
    match hf : F f, hf' : F' f, hF f with
    | none, none, _ => exact .halt _ rfl
    | some d, some d', .some hd =>
      refine hD (.ofBound env dialect (n + k)) (.ofBound env dialect n) rfl (fun h => ?_)
        ⟨rfl, rfl, hfuel n, ih⟩ F F' hF d d' hd vs m
      exact Nat.eq_zero_of_add_eq_zero_left h

lemma run_sim {A : LoopState → Variables → Variables → Prop} {n n' : Nat} {ss' : Block}
    {m : SvmState World}
    (h : Result.Sim p q Eq (Outcome A)
      (execBlock (.ofBound env dialect n) (fun _ => none) (fun _ => none) ss m)
      (execBlock (.ofBound env dialect n') (fun _ => none) (fun _ => none) ss' m)) :
    Result.Sim p q Eq Eq (Block.run env dialect n ss m) (Block.run env dialect n' ss' m) :=
  h.map fun _ _ hr => hr.1

end

end Yul
