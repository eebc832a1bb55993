import Polc.Yul.Interpreter.Trace

/-!
# Simulations of runs with their operations

Rules for two programs that execute the same operations with the same bound. The variables of the
programs are related by `A`.
-/

namespace Yul

open Sof Semantics List Traced

variable {World : Type}

/-- Two tracers in which related functions behave alike. -/
structure Tracer.Sim (D : FunctionDefinition → FunctionDefinition → Prop) (I I' : Tracer World) :
    Prop where
  env : I'.env = I.env
  dialect : I'.dialect = I.dialect
  fuel : I'.fuel = I.fuel
  call : ∀ {F F' : Functions}, F.Rel D F' → ∀ f vs m, I.call F f vs m = I'.call F' f vs m

section

variable {D : FunctionDefinition → FunctionDefinition → Prop} {I I' : Tracer World}
  {F F' : Functions} {V V' : Variables} {A B : Variables → Variables → Prop}
  {m : SvmState World}

/-- What a function does with the values of its arguments. -/
def tracedCall (I : Tracer World) (F : Functions) (f : YulString) (args : List Expression)
    (vs : List Word) (m : SvmState World) : TracedRun World (List Word) :=
  match I.dialect.builtin f with
  | some b => ⟨[.call f vs], evalBuiltin I.env b args vs m⟩
  | none => ⟨.call f vs :: (I.call F f vs m).trace, (I.call F f vs m).result⟩

lemma traced_functionCall {f : YulString} {es : List Expression} :
    (Expression.functionCall f es).traced I F V m =
      (tracedArgs I F V es m).bind fun vs m => tracedCall I F f es vs m := rfl

lemma tracedCall_eq (hI : I.Sim D I') (hF : F.Rel D F') {f : YulString}
    {es es' : List Expression} (htext : I.dialect.requiresLiterals f → es' = es)
    (vs : List Word) (m : SvmState World) :
    tracedCall I F f es vs m = tracedCall I' F' f es' vs m := by
  unfold tracedCall
  rw [hI.env, hI.dialect, hI.call hF]
  cases hb : I.dialect.builtin f with
  | none => rfl
  | some b =>
    have heq := evalBuiltin_of_literalText hb
      (fun h => congrArg evalBuiltin.literalText (htext h).symm) I.env vs m
    simp only [heq]

mutual

/-- An expression has the same operations and values for both programs, if its variables have the
same values. -/
lemma Expression.traced_eq (hI : I.Sim D I') (hF : F.Rel D F') (e : Expression)
    (hV : ∀ x ∈ e.referencedVariables, V' x = V x) (m : SvmState World) :
    e.traced I F V m = e.traced I' F' V' m := by
  match e with
  | .functionalInstruction i args =>
    rw [Expression.traced, Expression.traced, tracedArgs_eq hI hF args hV, hI.env]
  | .functionCall f args =>
    rw [traced_functionCall, traced_functionCall, tracedArgs_eq hI hF args hV]
    refine bind_congr _ fun vs m₁ _ => ?_
    exact tracedCall_eq hI hF (fun _ => rfl) vs m₁
  | .identifier x => rw [traced_identifier, traced_identifier, hV x mem_cons_self]
  | .literal l => rfl

lemma tracedArgs_eq (hI : I.Sim D I') (hF : F.Rel D F') (es : List Expression)
    (hV : ∀ x ∈ argumentsReferencedVariables es, V' x = V x) (m : SvmState World) :
    tracedArgs I F V es m = tracedArgs I' F' V' es m := by
  match es with
  | [] => rfl
  | e :: es =>
    rw [argumentsReferencedVariables, forall_mem_append] at hV
    rw [tracedArgs, tracedArgs, tracedArgs_eq hI hF es hV.2]
    refine bind_congr _ fun vs m₁ _ => ?_
    rw [e.traced_eq hI hF hV.1]

end

/-! ### Statements -/

/-- The loop around is left or continued alike, with related variables. -/
abbrev SameOutcome (A : Variables → Variables → Prop) :
    LoopState × Variables → LoopState × Variables → Prop :=
  Outcome fun _ => A

lemma tracedBlock_rel {ss ss' : Block} (hF : F.Rel D F') (hss : DefinesRelated D ss ss')
    (h : ∀ {F F' : Functions}, F.Rel D F' → Traced.Rel (SameOutcome A)
      (tracedStatements I F V ss m) (tracedStatements I' F' V' ss' m))
    (hA : ∀ W W', A W W' → B (V.restrict W) (V'.restrict W')) :
    Traced.Rel (SameOutcome B) (tracedBlock I F V ss m) (tracedBlock I' F' V' ss' m) :=
  (h (hF.register hss)).map fun _ _ hr => ⟨hr.1, hA _ _ hr.2⟩

lemma tracedBranch_rel {body body' : Block} {v : Word}
    (hbody : Traced.Rel (SameOutcome A) (tracedBlock I F V body m)
      (tracedBlock I' F' V' body' m)) (hskip : A V V') :
    Traced.Rel (SameOutcome A)
      (if v ≠ 0 then tracedBlock I F V body m else .ok (.default, V) m)
      (if v ≠ 0 then tracedBlock I' F' V' body' m else .ok (.default, V') m) := by
  by_cases hv : v ≠ 0
  · rw [if_pos hv, if_pos hv]
    exact hbody
  · rw [if_neg hv, if_neg hv]
    exact .ok ⟨rfl, hskip⟩

lemma tracedCases_cons_rel {v : Word} {value : Option Literal} {body body' : Block}
    {cs cs' : List Case}
    (hbody : Traced.Rel (SameOutcome A) (tracedBlock I F V body m)
      (tracedBlock I' F' V' body' m))
    (hcs : Traced.Rel (SameOutcome A) (tracedCases I F V v cs m)
      (tracedCases I' F' V' v cs' m)) :
    Traced.Rel (SameOutcome A) (tracedCases I F V v (.mk value body :: cs) m)
      (tracedCases I' F' V' v (.mk value body' :: cs') m) := by
  rw [tracedCases_cons, tracedCases_cons]
  by_cases hv : value.all (·.word = v) = true
  · rw [if_pos hv, if_pos hv]
    exact hbody
  · rw [if_neg hv, if_neg hv]
    exact hcs

lemma traced_forLoop_rel {pre pre' post post' body body' : Block} {c c' : Expression}
    (hfuel : I'.fuel = I.fuel)
    (hpre : Traced.Rel (SameOutcome A) (tracedStatements I F V pre m)
      (tracedStatements I' F' V' pre' m))
    (hc : ∀ W W' m, A W W' → c.traced I F W m = c'.traced I' F' W' m)
    (hbody : ∀ W W' m, A W W' → Traced.Rel (SameOutcome A) (tracedBlock I F W body m)
      (tracedBlock I' F' W' body' m))
    (hpost : ∀ W W' m, A W W' → Traced.Rel (SameOutcome A) (tracedBlock I F W post m)
      (tracedBlock I' F' W' post' m))
    (hA : ∀ W W', A W W' → B (V.restrict W) (V'.restrict W')) :
    Traced.Rel (SameOutcome B) ((Statement.forLoop pre c post body).traced I F V m)
      ((Statement.forLoop pre' c' post' body').traced I' F' V' m) := by
  rw [traced_forLoop, traced_forLoop]
  refine Traced.Rel.map (A := SameOutcome A) (hpre.bind ?_) fun _ _ hr => ⟨hr.1, hA _ _ hr.2⟩
  rintro ⟨l, W⟩ ⟨_, W'⟩ m₁ ⟨rfl, hW⟩
  rw [hfuel]
  refine (loop_rel (A := A) ?_ ?_ ?_ I.fuel hW m₁).map fun U U' hU => ⟨rfl, hU⟩
  · intro U U' m hU
    rw [tracedLoopCondition, tracedLoopCondition, hc U U' m hU]
    exact .refl _
  · intro U U' m hU
    refine (hbody U U' m hU).map ?_
    rintro ⟨l, T⟩ ⟨_, T'⟩ ⟨rfl, hT⟩
    exact ⟨rfl, hT⟩
  · intro U U' m hU
    exact (hpost U U' m hU).map fun _ _ hr => hr.2

lemma traced_append_rel {ss ss' ts ts' : List Statement}
    (h : Traced.Rel (SameOutcome A) (tracedStatements I F V ss m)
      (tracedStatements I' F' V' ss' m))
    (ht : ∀ W W' m, A W W' → Traced.Rel (SameOutcome B) (tracedStatements I F W ts m)
      (tracedStatements I' F' W' ts' m))
    (hA : ∀ W W', A W W' → B W W') :
    Traced.Rel (SameOutcome B) (tracedStatements I F V (ss ++ ts) m)
      (tracedStatements I' F' V' (ss' ++ ts') m) := by
  rw [traced_append, traced_append]
  refine h.bind ?_
  rintro ⟨l, W⟩ ⟨_, W'⟩ m₁ ⟨rfl, hW⟩
  by_cases hl : l = .default
  · rw [if_pos hl, if_pos hl]
    exact ht W W' m₁ hW
  · rw [if_neg hl, if_neg hl]
    exact .ok ⟨rfl, hA W W' hW⟩

end

/-! ### Code that does not refer to some variables -/

/-- The other variables have the same values, or are both not in scope. -/
def Variables.AgreeOff (names : List YulString) (V V' : Variables) : Prop :=
  ∀ x, x ∉ names → V' x = V x

namespace Variables.AgreeOff

variable {V V' W W' : Variables} {names : List YulString}

lemma refl (names : List YulString) (V : Variables) : AgreeOff names V V := fun _ _ => rfl

lemma symm (h : AgreeOff names V V') : AgreeOff names V' V := fun x hx => (h x hx).symm

lemma restrict (h : AgreeOff names V V') (hW : AgreeOff names W W') :
    AgreeOff names (V.restrict W) (V'.restrict W') := by
  intro x hx
  rw [Variables.restrict, Variables.restrict, h x hx, hW x hx]

lemma assign (h : AgreeOff names V V') (xs : List YulString) (vs : List Word) :
    AgreeOff names (V.assign xs vs) (V'.assign xs vs) := by
  induction xs generalizing V V' vs with
  | nil => exact h
  | cons x xs ih =>
    refine ih (fun y hy => ?_) vs.tail
    rw [Variables.set, Variables.set, h y hy]

end Variables.AgreeOff

lemma Functions.Rel.refl {D : FunctionDefinition → FunctionDefinition → Prop}
    (hD : ∀ d, D d d) (F : Functions) : F.Rel D F := by
  intro f
  cases F f with
  | none => exact .none
  | some d => exact .some (hD d)

lemma Tracer.Sim.refl (I : Tracer World) : I.Sim Eq I := by
  refine ⟨rfl, rfl, rfl, fun {F F'} hF f vs m => ?_⟩
  have hFF' : F = F' := by
    funext g
    have hg := hF g
    generalize F g = d at hg ⊢
    generalize F' g = d' at hg ⊢
    cases hg with
    | none => rfl
    | some hd => rw [hd]
  rw [hFF']

section

variable {I : Tracer World} {names : List YulString}

lemma Expression.traced_agreeOff (e : Expression) (he : ∀ x ∈ names, x ∉ e.references)
    (F : Functions) {V V' : Variables} (hV : Variables.AgreeOff names V V')
    (m : SvmState World) : e.traced I F V m = e.traced I F V' m := by
  refine e.traced_eq (.refl I) (.refl (fun _ => rfl) F) (fun x hx => hV x fun hmem => ?_) m
  exact he x hmem (e.referenced_subset_references hx)

lemma tracedBlock_agreeOff_of {ss : Block}
    (hss : ∀ F {V V' : Variables}, Variables.AgreeOff names V V' → ∀ m,
      Traced.Rel (SameOutcome (Variables.AgreeOff names)) (tracedStatements I F V ss m)
        (tracedStatements I F V' ss m))
    (F : Functions) {V V' : Variables} (hV : Variables.AgreeOff names V V')
    (m : SvmState World) :
    Traced.Rel (SameOutcome (Variables.AgreeOff names)) (tracedBlock I F V ss m)
      (tracedBlock I F V' ss m) :=
  (hss (F.register ss) hV m).map fun _ _ hr => ⟨hr.1, hV.restrict hr.2⟩

mutual

lemma Statement.traced_agreeOff (s : Statement) (hs : ∀ x ∈ names, x ∉ s.references)
    (F : Functions) {V V' : Variables} (hV : Variables.AgreeOff names V V')
    (m : SvmState World) :
    Traced.Rel (SameOutcome (Variables.AgreeOff names)) (s.traced I F V m)
      (s.traced I F V' m) := by
  match s with
  | .expressionStatement e =>
    rw [Statement.traced, Statement.traced, e.traced_agreeOff hs F hV]
    exact (Traced.Rel.refl _).map fun _ _ _ => ⟨rfl, hV⟩
  | .assignment xs e =>
    have he (x : YulString) (hx : x ∈ names) : x ∉ e.references :=
      fun hmem => hs x hx (mem_append_right _ hmem)
    rw [Statement.traced, Statement.traced, e.traced_agreeOff he F hV]
    refine (Traced.Rel.refl _).map ?_
    rintro vs _ rfl
    exact ⟨rfl, hV.assign xs vs⟩
  | .variableDeclaration xs none => exact .ok ⟨rfl, hV.assign _ _⟩
  | .variableDeclaration xs (some e) =>
    rw [Statement.traced, Statement.traced, Expression.tracedMulti, Expression.tracedMulti,
      e.traced_agreeOff hs F hV]
    refine (Traced.Rel.refl _).map ?_
    rintro vs _ rfl
    exact ⟨rfl, hV.assign _ vs⟩
  | .functionDefinition f ps rs body => exact .ok ⟨rfl, hV⟩
  | .if c body =>
    simp only [Statement.references, mem_append, not_or] at hs
    rw [traced_if, traced_if, c.traced_agreeOff (fun x hx => (hs x hx).1) F hV]
    refine (Traced.Rel.refl _).bind ?_
    rintro v _ m₁ rfl
    exact tracedBranch_rel (tracedBlock_agreeOff_of
      (tracedStatements_agreeOff body fun x hx => (hs x hx).2) F hV m₁) hV
  | .switch e cs =>
    simp only [Statement.references, mem_append, not_or] at hs
    rw [traced_switch, traced_switch, e.traced_agreeOff (fun x hx => (hs x hx).1) F hV]
    refine (Traced.Rel.refl _).bind ?_
    rintro v _ m₁ rfl
    exact tracedCases_agreeOff cs (fun x hx => (hs x hx).2) F hV _ m₁
  | .forLoop pre c post body =>
    simp only [Statement.references, mem_append, not_or] at hs
    refine traced_forLoop_rel (A := Variables.AgreeOff names) rfl
      (tracedStatements_agreeOff pre (fun x hx => (hs x hx).1.1.1) F hV m) ?_ ?_ ?_
      fun W W' hW => hV.restrict hW
    · exact fun W W' m hW => c.traced_agreeOff (fun x hx => (hs x hx).1.1.2) F hW m
    · exact fun W W' m hW => tracedBlock_agreeOff_of
        (tracedStatements_agreeOff body fun x hx => (hs x hx).1.2) F hW m
    · exact fun W W' m hW => tracedBlock_agreeOff_of
        (tracedStatements_agreeOff post fun x hx => (hs x hx).2) F hW m
  | .break | .continue => exact .ok ⟨rfl, hV⟩
  | .block ss =>
    exact tracedBlock_agreeOff_of (tracedStatements_agreeOff ss hs) F hV m

lemma tracedStatements_agreeOff (ss : List Statement)
    (hss : ∀ x ∈ names, x ∉ referencesOfStatements ss) (F : Functions) {V V' : Variables}
    (hV : Variables.AgreeOff names V V') (m : SvmState World) :
    Traced.Rel (SameOutcome (Variables.AgreeOff names)) (tracedStatements I F V ss m)
      (tracedStatements I F V' ss m) := by
  match ss with
  | [] => exact .ok ⟨rfl, hV⟩
  | s :: ss =>
    simp only [referencesOfStatements, mem_append, not_or] at hss
    rw [tracedStatements, tracedStatements]
    refine (s.traced_agreeOff (fun x hx => (hss x hx).1) F hV m).bind ?_
    rintro ⟨l, W⟩ ⟨_, W'⟩ m₁ ⟨rfl, hW⟩
    by_cases hl : l = .default
    · rw [if_pos hl, if_pos hl]
      exact tracedStatements_agreeOff ss (fun x hx => (hss x hx).2) F hW m₁
    · rw [if_neg hl, if_neg hl]
      exact .ok ⟨rfl, hW⟩

lemma tracedCases_agreeOff (cs : List Case) (hcs : ∀ x ∈ names, x ∉ referencesOfCases cs)
    (F : Functions) {V V' : Variables} (hV : Variables.AgreeOff names V V') (v : Word)
    (m : SvmState World) :
    Traced.Rel (SameOutcome (Variables.AgreeOff names)) (tracedCases I F V v cs m)
      (tracedCases I F V' v cs m) := by
  match cs with
  | [] => exact .ok ⟨rfl, hV⟩
  | .mk value body :: cs =>
    simp only [referencesOfCases, mem_append, not_or] at hcs
    exact tracedCases_cons_rel
      (tracedBlock_agreeOff_of (tracedStatements_agreeOff body fun x hx => (hcs x hx).1) F hV m)
      (tracedCases_agreeOff cs (fun x hx => (hcs x hx).2) F hV v m)

end

end

/-- Bounds on the calls and the iterations of loops give tracers that match, if bodies of related
functions do. -/
lemma Tracer.sim_ofBound {env : Environment World} {dialect : Dialect}
    {D : FunctionDefinition → FunctionDefinition → Prop}
    (hD : ∀ (I I' : Tracer World), I.dialect = dialect → I.Sim D I' → ∀ F F',
      Functions.Rel D F F' → ∀ d d', D d d' → ∀ vs m,
        Traced.Rel Eq (d.traced I F vs m) (d'.traced I' F' vs m)) (n : Nat) :
    (Tracer.ofBound env dialect n).Sim D (.ofBound env dialect n) := by
  refine ⟨rfl, rfl, rfl, ?_⟩
  show ∀ {F F' : Functions}, F.Rel D F' → ∀ f vs m,
    tracedFunction env dialect n F f vs m = tracedFunction env dialect n F' f vs m
  induction n with
  | zero =>
    intro F F' hF f vs m
    rfl
  | succ n ih =>
    intro F F' hF f vs m
    rw [tracedFunction, tracedFunction]
    have hrel := hF f
    generalize hf : F f = d at hrel ⊢
    generalize hf' : F' f = d' at hrel ⊢
    cases hrel with
    | none => rfl
    | @some d d' hd =>
      exact (hD (.ofBound env dialect n) (.ofBound env dialect n) rfl ⟨rfl, rfl, rfl, ih⟩ F F' hF
        d d' hd vs m).eq

lemma SameOperations.of_rel {env : Environment World} {dialect : Dialect} {ss ss' : Block}
    {A : Variables → Variables → Prop}
    (h : ∀ n m, Traced.Rel (SameOutcome A)
      (tracedBlock (.ofBound env dialect n) (fun _ => none) (fun _ => none) ss m)
      (tracedBlock (.ofBound env dialect n) (fun _ => none) (fun _ => none) ss' m)) :
    SameOperations env dialect ss ss' :=
  fun n m => ((h n m).map (B := Eq) fun _ _ hr => hr.1).eq.symm

end Yul
