import Polc.Yul.Interpreter
import Polc.Yul.Optimiser.NameCollector

/-!
# Properties of executions

What evaluations depend on, what movable expressions and those without side effects do, and
which variables executing a statement changes.
-/

namespace Yul

open Sof Semantics List Result Expression Variables
open Option hiding or_assoc

variable {World : Type}

/-! ### Variables -/

namespace Variables

variable {V V' : Variables} {x y : YulString} {w : Word}

@[simp] lemma set_self : V.set x w x = some w := if_pos rfl

lemma set_of_ne (h : y ≠ x) : V.set x w y = V y := if_neg h

variable {vs : List Word}

@[simp] lemma assign_nil : V.assign [] vs = V := rfl

variable {xs : List YulString}

@[simp] lemma assign_cons : V.assign (x :: xs) vs = (V.set x (vs.headD 0)).assign xs vs.tail := rfl

lemma assign_of_not_mem (h : x ∉ xs) : V.assign xs vs x = V x := by
  induction xs generalizing V vs with
  | nil => rfl
  | cons y ys ih =>
    rw [mem_cons, not_or] at h
    rw [assign_cons, ih h.2, set_of_ne h.1]

lemma set_comm {w' : Word} (h : x ≠ y) : (V.set x w).set y w' = (V.set y w').set x w := by
  funext z
  unfold set
  by_cases hx : z = x <;> by_cases hy : z = y <;> simp_all

lemma assign_set (h : y ∉ xs) : (V.set y w).assign xs vs = (V.assign xs vs).set y w := by
  induction xs generalizing V vs with
  | nil => rfl
  | cons x xs ih =>
    rw [mem_cons, not_or] at h
    rw [assign_cons, assign_cons, set_comm h.1, ih h.2]

lemma isSome_set_iff : (V.set y w x).isSome ↔ x = y ∨ (V x).isSome := by
  unfold set
  split <;> simp_all

lemma isSome_assign_iff : (V.assign xs vs x).isSome ↔ x ∈ xs ∨ (V x).isSome := by
  induction xs generalizing V vs with
  | nil => simp
  | cons y ys ih => rw [assign_cons, ih, isSome_set_iff, mem_cons, or_left_comm, or_assoc]

lemma restrict_apply_of_isSome (h : (V x).isSome) : V.restrict V' x = V' x := if_pos h

lemma isSome_restrict_iff : (V.restrict V' x).isSome ↔ (V x).isSome ∧ (V' x).isSome := by
  unfold restrict
  split <;> simp_all

/-- The variables of the given names have the same values, or are both not in scope. -/
def AgreeOn (names : List YulString) (V V' : Variables) : Prop := ∀ x ∈ names, V' x = V x

namespace AgreeOn

variable {W W' : Variables} {names xs : List YulString} {vs : List Word}

lemma restrict (h : AgreeOn names V V') (hW : AgreeOn names W W') :
    AgreeOn names (V.restrict W) (V'.restrict W') := by
  intro x hx
  rw [Variables.restrict, Variables.restrict, h x hx, hW x hx]

lemma set (h : AgreeOn names V V') (y : YulString) (w : Word) :
    AgreeOn names (V.set y w) (V'.set y w) := by
  intro x hx
  rw [Variables.set, Variables.set, h x hx]

lemma assign (h : AgreeOn names V V') (xs : List YulString) (vs : List Word) :
    AgreeOn names (V.assign xs vs) (V'.assign xs vs) := by
  induction xs generalizing V V' vs with
  | nil => exact h
  | cons x xs ih => exact ih (h.set x _) vs.tail

lemma assign_append (h : AgreeOn names V V') (xs : List YulString) (vs : List Word) :
    AgreeOn (xs ++ names) (V.assign xs vs) (V'.assign xs vs) := by
  induction xs generalizing V V' names vs with
  | nil => exact h
  | cons x xs ih =>
    have hset : AgreeOn (x :: names) (V.set x (vs.headD 0)) (V'.set x (vs.headD 0)) := by
      intro y hy
      by_cases hyx : y = x
      · rw [hyx, set_self, set_self]
      · exact h.set x _ y ((mem_cons.mp hy).resolve_left hyx)
    intro y hy
    refine ih hset vs.tail y ?_
    simpa [or_left_comm] using hy

lemma assign_right (h : AgreeOn names V V') (hxs : ∀ x ∈ xs, x ∉ names) :
    AgreeOn names V (V'.assign xs vs) := by
  intro x hx
  rw [assign_of_not_mem fun hmem => hxs x hmem hx]
  exact h x hx

end AgreeOn

/-- The variables of the given names are in scope and have the same values. -/
def SetAlike (names : List YulString) (V V' : Variables) : Prop :=
  ∀ x ∈ names, (V x).isSome ∧ V' x = V x

namespace SetAlike

variable {W W' : Variables} {names names' xs : List YulString} {vs : List Word}

lemma nil (V V' : Variables) : SetAlike [] V V' := nofun

lemma refl (h : ∀ x ∈ names, (V x).isSome) : SetAlike names V V := fun x hx => ⟨h x hx, rfl⟩

lemma mono (h : SetAlike names V V') (hsubset : names' ⊆ names) : SetAlike names' V V' :=
  fun x hx => h x (hsubset hx)

lemma assign_append (h : SetAlike names V V') (xs : List YulString) (vs : List Word) :
    SetAlike (xs ++ names) (V.assign xs vs) (V'.assign xs vs) := by
  intro x hx
  have hagree : AgreeOn names V V' := fun y hy => (h y hy).2
  refine ⟨isSome_assign_iff.mpr ?_, hagree.assign_append xs vs x hx⟩
  exact (mem_append.mp hx).imp_right fun hx => (h x hx).1

lemma assign (h : SetAlike names V V') (xs : List YulString) (vs : List Word) :
    SetAlike names (V.assign xs vs) (V'.assign xs vs) :=
  (h.assign_append xs vs).mono (subset_append_right _ _)

lemma restrict (h : SetAlike names V V') (hW : SetAlike names W W') :
    SetAlike names (V.restrict W) (V'.restrict W') := by
  intro x hx
  have hV' : (V' x).isSome := (h x hx).2 ▸ (h x hx).1
  rw [restrict_apply_of_isSome (h x hx).1, restrict_apply_of_isSome hV']
  exact hW x hx

lemma restrict_left (h : SetAlike names V V') (hW : SetAlike names W W') :
    SetAlike names (V.restrict W) W' := by
  intro x hx
  rw [restrict_apply_of_isSome (h x hx).1]
  exact hW x hx

lemma restrict_right (h : SetAlike names V V') (hW : SetAlike names W W') :
    SetAlike names W (V'.restrict W') := by
  intro x hx
  have hV' : (V' x).isSome := (h x hx).2 ▸ (h x hx).1
  rw [restrict_apply_of_isSome hV']
  exact hW x hx

end SetAlike

end Variables

lemma FunctionDefinition.isSome_variables (d : FunctionDefinition) (vs : List Word)
    {x : YulString} (hx : x ∈ (d.parameters ++ d.returnVariables).map (·.name)) :
    (d.variables vs x).isSome := by
  rw [map_append, mem_append] at hx
  rw [FunctionDefinition.variables, isSome_assign_iff, isSome_assign_iff]
  rcases hx with hx | hx
  · exact .inr (.inl hx)
  · exact .inl hx

variable {dialect : Dialect} {f : YulString} {b : BuiltinFunction}

lemma evalBuiltin_of_literalText (hb : dialect.builtin f = some b) {es es' : List Expression}
    (h : dialect.requiresLiterals f →
      evalBuiltin.literalText es = evalBuiltin.literalText es') (env : Environment World)
    (vs : List Word) (m : SvmState World) :
    evalBuiltin env b es vs m = evalBuiltin env b es' vs m := by
  rw [Dialect.requiresLiterals_of_builtin hb] at h
  rcases Dialect.builtin_cases hb with ⟨i, rfl, -⟩ | hmem
  · rfl
  · simp only [objectFunctions, mem_cons, Prod.mk.injEq, not_mem_nil, or_false] at hmem
    rcases hmem with ⟨-, rfl⟩ | ⟨-, rfl⟩ | ⟨-, rfl⟩
    · exact congrArg (fun name => Result.ok [env.datasize name] m) (h rfl)
    · exact congrArg (fun name => Result.ok [env.dataoffset name] m) (h rfl)
    · rfl

/-! ### Movable expressions -/

/-- The values of a movable builtin function. -/
def builtinMovableValue (env : Environment World) (f : BuiltinFunction) (args : List Expression)
    (vs : List Word) : List Word :=
  match f.code with
  | .instruction i => movableValue env i vs
  | .datasize => [env.datasize (evalBuiltin.literalText args)]
  | .dataoffset => [env.dataoffset (evalBuiltin.literalText args)]
  | .datacopy => []

section

variable (env : Environment World) (dialect : Dialect) (V : Variables)

mutual

/-- The values of a movable expression. -/
def Expression.movableValues : Expression → List Word
  | .functionalInstruction i args => movableValue env i (argumentsMovableValues args)
  | .functionCall f args =>
    match dialect.builtin f with
    | some b => builtinMovableValue env b args (argumentsMovableValues args)
    | none => []
  | .identifier x => [(V x).getD 0]
  | .literal l => [l.word]

def argumentsMovableValues : List Expression → List Word
  | [] => []
  | e :: es => e.movableValues.headD 0 :: argumentsMovableValues es

end

/-- The value of a movable expression with one value. -/
def Expression.movableWord (e : Expression) : Word := (e.movableValues env dialect V).headD 0

end

variable {V : Variables}

lemma Expression.movableValues_functionCall {env : Environment World} {args : List Expression} :
    (functionCall f args).movableValues env dialect V =
      match dialect.builtin f with
      | some b => builtinMovableValue env b args (argumentsMovableValues env dialect V args)
      | none => [] := rfl

lemma SideEffects.ofCall_builtin (h : dialect.builtin f = some b) :
    ofCall dialect f = ⟨b.movable, b.sideEffectFree, b.sideEffectFreeIfNoMSize, b.isMSize⟩ := by
  rw [ofCall, h]

/-- A movable builtin function is a movable instruction or reads a constant of the object. -/
lemma evalBuiltin_of_movable (hb : dialect.builtin f = some b) (hmov : b.movable)
    (env : Environment World) (args : List Expression) (vs : List Word) (m : SvmState World) :
    evalBuiltin env b args vs m = .ok (builtinMovableValue env b args vs) m := by
  rcases Dialect.builtin_cases hb with ⟨i, rfl, -⟩ | hmem
  · exact execInstruction_of_movable hmov env vs m
  · simp only [objectFunctions, mem_cons, Prod.mk.injEq, not_mem_nil, or_false] at hmem
    rcases hmem with ⟨-, rfl⟩ | ⟨-, rfl⟩ | ⟨-, rfl⟩
    · rfl
    · rfl
    · cases hmov

section

variable {I : Interpreter World} {F : Functions} {V : Variables}

mutual

lemma Expression.eval_of_movable (e : Expression) (h : e.movable I.dialect)
    (m : SvmState World) : e.eval I F V m = .ok (e.movableValues I.env I.dialect V) m := by
  match e with
  | .functionalInstruction i args =>
    rw [movable_instruction, Bool.and_eq_true] at h
    rw [eval_instruction, args_of_movable args h.1, bind_ok,
      execInstruction_of_movable h.2]
    rfl
  | .functionCall f args =>
    rw [movable_functionCall, Bool.and_eq_true] at h
    rw [eval_functionCall, args_of_movable args h.1, bind_ok,
      movableValues_functionCall]
    cases hb : I.dialect.builtin f with
    | some b =>
      rw [SideEffects.ofCall_builtin hb] at h
      exact evalBuiltin_of_movable hb h.2 I.env args _ m
    | none =>
      rw [SideEffects.ofCall, hb] at h
      cases h.2
  | .identifier x => rfl
  | .literal l => rfl

lemma args_of_movable (es : List Expression)
    (h : (argumentsSideEffects I.dialect es).movable) (m : SvmState World) :
    evaluateArgs I F V es m = .ok (argumentsMovableValues I.env I.dialect V es) m := by
  match es with
  | [] => rfl
  | e :: es =>
    rw [argumentsSideEffects_movable_cons, Bool.and_eq_true] at h
    rw [args_cons, args_of_movable es h.1, bind_ok,
      e.eval_of_movable h.2, bind_ok]
    rfl

end

lemma Expression.evaluate_of_movable (e : Expression) (h : e.movable I.dialect)
    (m : SvmState World) :
    e.evaluate I F V m = .ok (e.movableWord I.env I.dialect V) m := by
  rw [evaluate, e.eval_of_movable h]
  rfl

end

section

variable {env : Environment World} {dialect : Dialect} {V : Variables}

lemma movableValue_length {i : Sof.Instruction} (h : (Sof.instructionInfo i).ret = 1)
    (vs : List Word) : (movableValue env i vs).length = 1 := by
  cases i <;> first | rfl | exact absurd h (by decide)

lemma builtinMovableValue_length (hb : dialect.builtin f = some b) (h : b.returns = 1)
    (args : List Expression) (vs : List Word) : (builtinMovableValue env b args vs).length = 1 := by
  rcases Dialect.builtin_cases hb with ⟨i, rfl, -⟩ | hmem
  · exact movableValue_length h vs
  · simp only [objectFunctions, mem_cons, Prod.mk.injEq, not_mem_nil, or_false] at hmem
    rcases hmem with ⟨-, rfl⟩ | ⟨-, rfl⟩ | ⟨-, rfl⟩
    · rfl
    · rfl
    · cases h

lemma Expression.movableValues_eq_singleton (e : Expression) {Γ : Scope}
    (hmov : e.movable dialect) (h : e.returns dialect Γ = 1) :
    e.movableValues env dialect V = [e.movableWord env dialect V] := by
  have hlength : (e.movableValues env dialect V).length = 1 := by
    match e with
    | .functionalInstruction i args => exact movableValue_length h _
    | .functionCall f args =>
      rw [movable_functionCall, Bool.and_eq_true] at hmov
      rw [movableValues_functionCall]
      cases hb : dialect.builtin f with
      | some b =>
        have hreturns : ((Γ.arity dialect f).getD (0, 0)).2 = 1 := h
        rw [Scope.arity, hb] at hreturns
        exact builtinMovableValue_length hb hreturns args _
      | none =>
        rw [SideEffects.ofCall, hb] at hmov
        cases hmov.2
    | .identifier x | .literal l => rfl
  obtain ⟨w, hw⟩ := length_eq_one_iff.mp hlength
  rw [movableWord, hw]
  rfl

end

/-! ### What executions do to the variables -/

/-- A relation between the variables before and after that is kept by executing code that assigns
to variables in `P` only. -/
structure IsFrame (P : YulString → Prop) (Φ : Variables → Variables → Prop) : Prop where
  refl : ∀ V, Φ V V
  trans : ∀ V V' V'', Φ V V' → Φ V' V'' → Φ V V''
  restrict : ∀ V V', Φ V V' → Φ V (V.restrict V')
  assign : ∀ V xs vs, (∀ x ∈ xs, P x) → Φ V (V.assign xs vs)

namespace IsFrame

variable {I : Interpreter World} {P : YulString → Prop} {Φ : Variables → Variables → Prop}

lemma closeScope (hΦ : IsFrame P Φ) {V : Variables} {r : Run World (LoopState × Variables)}
    (h : r.Returns fun r _ => Φ V r.2) : (closeScope V r).Returns fun r _ => Φ V r.2 :=
  h.map fun r _ hr => hΦ.restrict V r.2 hr

lemma loop (hΦ : IsFrame P Φ) {F : Functions} {c : Expression} {post body : Block}
    (hbody : ∀ V m, (execBlock I F V body m).Returns fun r _ => Φ V r.2)
    (hpost : ∀ V m, (execBlock I F V post m).Returns fun r _ => Φ V r.2) (V : Variables)
    (m : SvmState World) :
    (Semantics.loop (loopCondition I F c) (loopBody I F body) (loopPost I F post) I.fuel V
      m).Returns fun V' _ => Φ V V' := by
  refine loop_returns (I := fun V' _ => Φ V V') (J := fun V' _ => Φ V V') ?_ ?_ ?_ _ (hΦ.refl V)
  · intro V' m' h
    refine (Result.Returns.trivial (c.evaluate I F V' m')).map fun v s _ => ?_
    split <;> exact h
  · intro V' m' h
    refine (hbody V' m').map fun r s hr => ?_
    split <;> exact hΦ.trans _ _ _ h hr
  · intro V' m' h
    exact (hpost V' m').map fun r s hr => hΦ.trans _ _ _ h hr

mutual

lemma exec (hΦ : IsFrame P Φ) (s : Statement) (ha : ∀ x ∈ s.assignments, P x)
    (hd : ∀ x ∈ s.declarations, P x) (F : Functions) (V : Variables) (m : SvmState World) :
    (s.exec I F V m).Returns fun r _ => Φ V r.2 := by
  match s with
  | .expressionStatement e =>
    exact (Result.Returns.trivial _).map fun _ _ _ => hΦ.refl V
  | .assignment xs e =>
    exact (Result.Returns.trivial _).map fun _ _ _ => hΦ.assign V xs _ ha
  | .variableDeclaration xs e =>
    exact (Result.Returns.trivial _).map fun _ _ _ => hΦ.assign V _ _ hd
  | .functionDefinition f ps rs body => exact .ok (hΦ.refl V)
  | .if c body =>
    rw [exec_if]
    refine (Result.Returns.trivial _).bind fun v m' _ _ => ?_
    split
    · exact hΦ.closeScope (hΦ.execStatements body ha hd _ V m')
    · exact .ok (hΦ.refl V)
  | .switch e cases =>
    rw [exec_switch]
    exact (Result.Returns.trivial _).bind fun v m' _ _ => hΦ.execCases cases ha hd F V v m'
  | .forLoop pre c post body =>
    simp only [Statement.assignments, forall_mem_append] at ha
    simp only [Statement.declarations, forall_mem_append] at hd
    obtain ⟨⟨hapre, habody⟩, hapost⟩ := ha
    obtain ⟨⟨hdpre, hdbody⟩, hdpost⟩ := hd
    rw [exec_forLoop]
    refine hΦ.closeScope ((hΦ.execStatements pre hapre hdpre F V m).bind fun r m' _ hr => ?_)
    refine (hΦ.loop ?_ ?_ r.2 m').map fun V' _ h => hΦ.trans _ _ _ hr h
    · exact fun V m => hΦ.closeScope (hΦ.execStatements body habody hdbody _ V m)
    · exact fun V m => hΦ.closeScope (hΦ.execStatements post hapost hdpost _ V m)
  | .break | .continue => exact .ok (hΦ.refl V)
  | .block ss => exact hΦ.closeScope (hΦ.execStatements ss ha hd _ V m)

lemma execStatements (hΦ : IsFrame P Φ) (ss : List Statement)
    (ha : ∀ x ∈ assignmentsOfStatements ss, P x) (hd : ∀ x ∈ declarationsOfStatements ss, P x)
    (F : Functions) (V : Variables) (m : SvmState World) :
    (Yul.execStatements I F V ss m).Returns fun r _ => Φ V r.2 := by
  match ss with
  | [] => exact .ok (hΦ.refl V)
  | s :: ss =>
    rw [assignmentsOfStatements, forall_mem_append] at ha
    rw [declarationsOfStatements, forall_mem_append] at hd
    rw [execStatements_cons]
    refine (hΦ.exec s ha.1 hd.1 F V m).bind fun r m' _ hr => ?_
    split
    · exact (hΦ.execStatements ss ha.2 hd.2 F r.2 m').mono fun r' _ hr' =>
        hΦ.trans _ _ _ hr hr'
    · exact .ok hr

lemma execCases (hΦ : IsFrame P Φ) (cs : List Case) (ha : ∀ x ∈ assignmentsOfCases cs, P x)
    (hd : ∀ x ∈ declarationsOfCases cs, P x) (F : Functions) (V : Variables) (v : Word)
    (m : SvmState World) : (Yul.execCases I F V v cs m).Returns fun r _ => Φ V r.2 := by
  match cs with
  | [] => exact .ok (hΦ.refl V)
  | .mk value body :: cs =>
    rw [assignmentsOfCases, forall_mem_append] at ha
    rw [declarationsOfCases, forall_mem_append] at hd
    rw [execCases_cons]
    split
    · exact hΦ.closeScope (hΦ.execStatements body ha.1 hd.1 _ V m)
    · exact hΦ.execCases cs ha.2 hd.2 F V v m

end

lemma execBlock (hΦ : IsFrame P Φ) (ss : Block) (ha : ∀ x ∈ assignmentsOfStatements ss, P x)
    (hd : ∀ x ∈ declarationsOfStatements ss, P x) (F : Functions) (V : Variables)
    (m : SvmState World) : (Yul.execBlock I F V ss m).Returns fun r _ => Φ V r.2 :=
  hΦ.closeScope (hΦ.execStatements ss ha hd _ V m)

end IsFrame

lemma isFrame_isSome (x : YulString) :
    IsFrame (fun _ => True) fun V V' => (V x).isSome → (V' x).isSome where
  refl _ := id
  trans _ _ _ h h' := h' ∘ h
  restrict _ _ h hx := isSome_restrict_iff.mpr ⟨hx, h hx⟩
  assign _ _ _ _ hx := isSome_assign_iff.mpr (.inr hx)

lemma isFrame_unchanged (x : YulString) : IsFrame (· ≠ x) fun V V' => V' x = V x where
  refl _ := rfl
  trans _ _ _ h h' := h'.trans h
  restrict V V' h := by
    rw [Variables.restrict]
    split
    · exact h
    · rename_i hx
      exact (not_isSome_iff_eq_none.mp hx).symm
  assign V xs vs h := assign_of_not_mem fun hx => h x hx rfl

section

variable {I : Interpreter World} {F : Functions}

lemma exec_unchanged (ss : List Statement) (V : Variables) (m : SvmState World) :
    (execStatements I F V ss m).Returns fun r _ =>
      ∀ x, x ∉ assignmentsOfStatements ss → x ∉ declarationsOfStatements ss → r.2 x = V x :=
  fun r m' hr x ha hd => (isFrame_unchanged x).execStatements ss (fun _ hy h => ha (h ▸ hy))
    (fun _ hy h => hd (h ▸ hy)) F V m r m' hr

lemma execBlock_unchanged (ss : Block) (V : Variables) (m : SvmState World) :
    (execBlock I F V ss m).Returns fun r _ =>
      ∀ x, x ∉ assignmentsOfStatements ss → x ∉ declarationsOfStatements ss → r.2 x = V x :=
  fun r m' hr x ha hd => (isFrame_unchanged x).execBlock ss (fun _ hy h => ha (h ▸ hy))
    (fun _ hy h => hd (h ▸ hy)) F V m r m' hr

end

/-- A loop that starts with `V` and `m` is, after some iterations, before its condition with the
variables and the state of the machine that come last. -/
inductive LoopReaches (I : Interpreter World) (F : Functions) (c : Expression) (post body : Block)
    (V : Variables) (m : SvmState World) : Variables → SvmState World → Prop where
  | start : LoopReaches I F c post body V m V m
  | iteration {V₁ V₂ V₃ m₁ m₂ m₃ m₄} (h : LoopReaches I F c post body V m V₁ m₁)
      (hcond : loopCondition I F c V₁ m₁ = .ok true m₂)
      (hbody : loopBody I F body V₁ m₂ = .ok (false, V₂) m₃)
      (hpost : loopPost I F post V₂ m₃ = .ok V₃ m₄) : LoopReaches I F c post body V m V₃ m₄

lemma LoopReaches.invariant {I : Interpreter World} {F : Functions} {c : Expression}
    {post body : Block} {V' : Variables} {m m' : SvmState World}
    (h : LoopReaches I F c post body V m V' m') {P : Variables → Prop}
    (hbody : ∀ V m, P V → (execBlock I F V body m).Returns fun r _ => P r.2)
    (hpost : ∀ V m, P V → (execBlock I F V post m).Returns fun r _ => P r.2) (hV : P V) : P V' := by
  induction h with
  | start => exact hV
  | iteration _ _ hb hp ih =>
    obtain ⟨r, hr, hr'⟩ := map_eq_ok.mp hb
    obtain ⟨s, hs, rfl⟩ := map_eq_ok.mp hp
    obtain rfl := (congrArg Prod.snd hr').symm
    exact hpost _ _ (hbody _ _ ih r _ hr) s _ hs

lemma execInstruction_of_terminates {i : Sof.Instruction}
    (h : SemanticInformation.terminatesControlFlow i) (env : Environment World)
    (vs : List Word) (m : SvmState World) :
    (execInstruction env i vs m).Returns fun _ _ => False := by
  cases i <;> first
    | exact .halt
    | exact absurd h (by decide)
    | (revert h; simp [SemanticInformation.terminatesControlFlow])

lemma eval_of_isTerminatingBuiltin {I : Interpreter World} {F : Functions} {m : SvmState World}
    {e : Expression} (h : TerminationFinder.isTerminatingBuiltin I.dialect e) :
    (e.eval I F V m).Returns fun _ _ => False := by
  cases e with
  | functionalInstruction i args =>
    exact (Result.Returns.trivial _).bind fun vs m₁ _ _ => execInstruction_of_terminates h _ vs m₁
  | functionCall f args =>
    rw [eval_functionCall]
    refine (Result.Returns.trivial _).bind fun vs m₁ _ _ => ?_
    rw [TerminationFinder.isTerminatingBuiltin, Option.any_eq_true] at h
    obtain ⟨i, hi, hterminates⟩ := h
    obtain ⟨b, hb, hinstruction⟩ := bind_eq_some_iff.mp hi
    rw [hb]
    rw [BuiltinFunction.instruction] at hinstruction
    split at hinstruction
    · rename_i i' hcode
      cases hinstruction
      dsimp only
      rw [evalBuiltin, hcode]
      exact execInstruction_of_terminates hterminates _ vs m₁
    · cases hinstruction
  | _ => cases h

end Yul
