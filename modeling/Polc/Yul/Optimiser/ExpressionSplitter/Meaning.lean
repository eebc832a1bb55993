import Polc.Yul.Interpreter.TraceSimulation
import Polc.Yul.Optimiser.ExpressionSplitter

/-!
# The expression splitter keeps the order of evaluation

The declarations in front of a statement execute the operations of the outlined expressions, from
right to left, and the new variables keep their values until the statement reads them.
-/

namespace Yul

open Sof Semantics NameDispenser List Traced Bool

namespace ExpressionSplitter

variable {World : Type}

/-! ### Expressions -/

/-- The expression is a known variable with the value. -/
def Holds (D : NameDispenser) (V : Variables) (e : Expression) (w : Word) : Prop :=
  ∃ x, e = .identifier x ∧ x ∈ D.usedNames ∧ (V x).getD 0 = w

/-- Behind declarations in front of a statement, where only new variables differ from `V`. -/
def Behind (D : NameDispenser) (V : Variables) (r : LoopState × Variables) : Prop :=
  r.1 = .default ∧ Variables.AgreeOn D.usedNames V r.2

variable {e : Expression}

section

variable {S : FunctionDefinition → FunctionDefinition → Prop} {I I' : Tracer World}
  {F F' : Functions} {V V' : Variables} {D D' : NameDispenser} {es : List Expression}
  {vs : List Word}

lemma Holds.mono {w : Word} (h : Holds D V e w) (hused : D.usedNames ⊆ D'.usedNames)
    (hV : Variables.AgreeOn D.usedNames V V') : Holds D' V' e w := by
  obtain ⟨x, rfl, hx, hw⟩ := h
  refine ⟨x, rfl, hused hx, ?_⟩
  rw [hV x hx, hw]

lemma Holds.traced {w : Word} (h : Holds D V e w) (m : SvmState World) :
    e.traced I F V m = .ok [w] m := by
  obtain ⟨x, rfl, -, rfl⟩ := h
  rfl

lemma tracedArgs_of_holds (h : List.Forall₂ (Holds D V) es vs) (m : SvmState World) :
    tracedArgs I F V es m = .ok vs m := by
  induction h with
  | nil => rfl
  | cons he _ ih => rw [tracedArgs, ih, ok_bind, he.traced, ok_map]; rfl

/-- A visited expression is evaluated behind its declarations as the expression, whatever comes
next. -/
def VisitedAlike (I I' : Tracer World) (F F' : Functions) (V V' : Variables) (D : NameDispenser)
    (e : Expression) (q : Outlined Expression) : Prop :=
  ∀ {γ : Type} {R : γ → LoopState × Variables → Prop}
    {K : List Word → SvmState World → TracedRun World γ}
    (K' : Variables → List Word → SvmState World → TracedRun World (LoopState × Variables)),
    (∀ vs W m, Variables.AgreeOn D.usedNames V' W → Traced.Rel R (K vs m) (K' W vs m)) →
      ∀ m, Traced.Rel R ((e.traced I F V m).bind K)
        ((tracedStatements I' F' V' q.statementsToPrefix m).bind fun r m =>
          if r.1 = .default then (q.code.traced I' F' r.2 m).bind (K' r.2) else .ok r m)

/-- The declarations of an outlined expression execute its operations, and the variable has its
value. -/
lemma outline_rel {q : Outlined Expression}
    (hdeclarations : Declarations D q.nameDispenser q.statementsToPrefix)
    (h : VisitedAlike I I' F F' V V' D e q)
    (hV : ∀ x ∈ e.referencedVariables, x ∈ D.usedNames ∧ V' x = V x) (m : SvmState World) :
    Traced.Rel (fun v r => Behind D V' r ∧
        Holds (outline D e q).nameDispenser r.2 (outline D e q).code (v.headD 0))
      (e.traced I F V m)
      (tracedStatements I' F' V' (outline D e q).statementsToPrefix m) := by
  have hnew (e : Expression) (r : NameDispenser) (hr : D.usedNames ⊆ r.usedNames)
      (hq : VisitedAlike I I' F F' V V' D e q) :
      Traced.Rel (fun v p => Behind D V' p ∧
          Holds (r.newName "").2 p.2 (.identifier (r.newName "").1) (v.headD 0))
        (e.traced I F V m)
        (tracedStatements I' F' V' (q.statementsToPrefix ++
          [.variableDeclaration [⟨(r.newName "").1, ""⟩] (some q.code)]) m) := by
    rw [traced_append, ← bind_ok (e.traced I F V m)]
    simp only [traced_singleton, Statement.traced, Expression.tracedMulti,
      map_eq_bind]
    refine hq (fun W vs m => .ok (.default, W.assign [(r.newName "").1] vs) m)
      (fun vs W m hW => .ok ⟨⟨rfl, ?_⟩, _, rfl, mem_cons_self, ?_⟩) m
    · refine hW.assign_right fun x hx hmem => ?_
      rw [mem_singleton.mp hx] at hmem
      exact (r.fresh_newName "").notUsed (hr hmem)
    · simp [Variables.assign, Variables.set]
  cases e with
  | identifier x =>
    obtain ⟨hx, hVx⟩ := hV x mem_cons_self
    exact .ok ⟨⟨rfl, fun _ _ => rfl⟩, x, rfl, hx, congrArg (·.getD 0) hVx⟩
  | _ => exact hnew _ _ hdeclarations.renewed.used h

mutual

lemma visit_rel (hI : I.Sim S I') (hF : F.Rel S F') (e : Expression) {D : NameDispenser}
    {V' : Variables} (hV : ∀ x ∈ e.referencedVariables, x ∈ D.usedNames ∧ V' x = V x) :
    VisitedAlike I I' F F' V V' D e (visit I.dialect D e) := by
  intro γ R K K' hK m
  have hexact {code : Expression} (hcode : ∀ m, e.traced I F V m = code.traced I' F' V' m) :
      Traced.Rel R ((e.traced I F V m).bind K)
        ((tracedStatements I' F' V' [] m).bind fun r m =>
          if r.1 = .default then (code.traced I' F' r.2 m).bind (K' r.2) else .ok r m) := by
    rw [tracedStatements, ok_bind, if_pos rfl, hcode]
    refine (Traced.Rel.refl _).bind ?_
    rintro vs _ m₁ rfl
    exact hK vs V' m₁ fun _ _ => rfl
  match e with
  | .functionalInstruction i args =>
    rw [visit, Expression.traced, bind_assoc]
    refine (outlineArguments_rel hI hF args hV m).bind ?_
    rintro vs ⟨_, W⟩ m₁ ⟨⟨rfl, hW⟩, hargs⟩
    rw [if_pos rfl, Expression.traced, tracedArgs_of_holds hargs, ok_bind, hI.env]
    refine (Traced.Rel.refl _).bind ?_
    rintro vs _ m₁ rfl
    exact hK vs W m₁ hW
  | .functionCall f args =>
    rw [visit]
    by_cases hf : I.dialect.requiresLiterals f = true
    · rw [if_pos hf]
      exact hexact (Expression.traced_eq hI hF (.functionCall f args) fun x hx => (hV x hx).2)
    · rw [if_neg hf, traced_functionCall, bind_assoc]
      refine (outlineArguments_rel hI hF args hV m).bind ?_
      rintro vs ⟨_, W⟩ m₁ ⟨⟨rfl, hW⟩, hargs⟩
      rw [if_pos rfl, traced_functionCall, tracedArgs_of_holds hargs, ok_bind,
        tracedCall_eq hI hF fun h => absurd h hf]
      refine (Traced.Rel.refl _).bind ?_
      rintro vs _ m₁ rfl
      exact hK vs W m₁ hW
  | .identifier x =>
    rw [visit]
    refine hexact fun m => ?_
    rw [traced_identifier, traced_identifier, (hV x mem_cons_self).2]
  | .literal l => exact hexact fun m => rfl

lemma outlineArguments_rel (hI : I.Sim S I') (hF : F.Rel S F') (es : List Expression)
    {D : NameDispenser} {V' : Variables}
    (hV : ∀ x ∈ argumentsReferencedVariables es, x ∈ D.usedNames ∧ V' x = V x)
    (m : SvmState World) :
    Traced.Rel (fun vs r => Behind D V' r ∧
        List.Forall₂ (Holds (outlineArguments I.dialect D es).nameDispenser r.2)
          (outlineArguments I.dialect D es).code vs)
      (tracedArgs I F V es m)
      (tracedStatements I' F' V' (outlineArguments I.dialect D es).statementsToPrefix m) := by
  match es with
  | [] => exact .ok ⟨⟨rfl, fun _ _ => rfl⟩, .nil⟩
  | e :: es =>
    rw [argumentsReferencedVariables, forall_mem_append] at hV
    have hes := declarations_outlineArguments I.dialect es D
    rw [outlineArguments, tracedArgs, traced_append]
    refine (outlineArguments_rel hI hF es hV.2 m).bind ?_
    rintro vs ⟨_, W⟩ m₁ ⟨⟨rfl, hW⟩, hargs⟩
    rw [if_pos rfl]
    have hVe (x : YulString) (hx : x ∈ e.referencedVariables) :
        x ∈ (outlineArguments I.dialect D es).nameDispenser.usedNames ∧ W x = V x := by
      obtain ⟨hused, hVx⟩ := hV.1 x hx
      exact ⟨hes.renewed.used hused, (hW x hused).trans hVx⟩
    refine (outline_rel (declarations_visit I.dialect e _) (visit_rel hI hF e hVe) hVe m₁).map_left ?_
    rintro v ⟨l, U⟩ ⟨⟨hl, hU⟩, hholds⟩
    refine ⟨⟨hl, fun x hx => (hU x (hes.renewed.used hx)).trans (hW x hx)⟩, ?_⟩
    refine .cons hholds (hargs.imp fun a w ha => ha.mono ?_ hU)
    exact (declarations_outline (declarations_visit I.dialect e _)).renewed.used

end

end

/-! ### Statements -/

/-- The visible variables and the declared names are among `N`, and the dispenser knows these. -/
structure Bounded (N : List YulString) (Γ : Scope) (D : NameDispenser) (names : List YulString) :
    Prop where
  used : N ⊆ D.usedNames
  locals : Γ.locals ⊆ N
  subset : names ⊆ N

section

variable {N : List YulString} {Γ Γ' : Scope} {D D' : NameDispenser}
  {names rest : List YulString}

namespace Bounded

lemma of_locals_eq (h : Bounded N Γ D names) (hΓ : Γ'.locals = Γ.locals) :
    Bounded N Γ' D names :=
  ⟨h.used, hΓ ▸ h.locals, h.subset⟩

lemma left (h : Bounded N Γ D (names ++ rest)) : Bounded N Γ D names :=
  ⟨h.used, h.locals, (append_subset.mp h.subset).1⟩

lemma right (h : Bounded N Γ D (names ++ rest)) : Bounded N Γ D rest :=
  ⟨h.used, h.locals, (append_subset.mp h.subset).2⟩

lemma after (h : Bounded N Γ D names) (hD : D.usedNames ⊆ D'.usedNames) : Bounded N Γ D' names :=
  ⟨List.Subset.trans h.used hD, h.locals, h.subset⟩

lemma outlined (dialect : Dialect) (e : Expression) (h : Bounded N Γ D names) :
    Bounded N Γ (outlineExpression dialect D e).nameDispenser names :=
  h.after (declarations_outlineExpression dialect e D).renewed.used

lemma afterStatements (dialect : Dialect) (ss : List Statement) (h : Bounded N Γ D names) :
    Bounded N Γ (statements dialect D ss).2 names :=
  h.after (statements_renewed dialect ss D).used

lemma enter (h : Bounded N Γ D names) (c : ForLoopComponent) : Bounded N (Γ.enter c) D names :=
  h.of_locals_eq rfl

lemma declare (h : Bounded N Γ D names) {xs : List YulString} (hxs : xs ⊆ N) :
    Bounded N (Γ.declare xs) D names :=
  ⟨h.used, append_subset.mpr ⟨hxs, h.locals⟩, h.subset⟩

lemma statement (dialect : Dialect) {s : Statement} (h : Bounded N Γ D (s.names ++ rest)) :
    Bounded N (Γ.declare s.declares) (statement dialect D s).nameDispenser rest :=
  (h.right.after (statement_renewed dialect s D).used).declare
    (List.Subset.trans (declares_subset_names s) h.left.subset)

end Bounded

end

/-- The second function is what the splitter makes of the first one. -/
structure Split (dialect : Dialect) (N : List YulString) (d d' : FunctionDefinition) : Prop where
  parameters : d'.parameters = d.parameters
  returnVariables : d'.returnVariables = d.returnVariables
  body : ∃ Γ D, Γ.locals = (d.parameters ++ d.returnVariables).map (·.name) ∧
    Bounded N Γ D (namesOfStatements d.body) ∧
    statementsValid dialect (Γ.register d.body) d.body = true ∧
    d'.body = (statements dialect D d.body).1

variable {V V' : Variables}

section

variable {dialect : Dialect} {N : List YulString} {Γ : Scope} {D : NameDispenser}

lemma definesRelated_statement {s : Statement} (hN : Bounded N Γ D s.names)
    (hvalid : s.valid dialect Γ) :
    DefinesRelated (Split dialect N) [s] [(statement dialect D s).code] := by
  cases s with
  | functionDefinition f ps rs body =>
    rw [valid_function, and_eq_true] at hvalid
    have hsubset : f :: ps.map (·.name) ++ rs.map (·.name) ++ namesOfStatements body ⊆ N :=
      hN.subset
    rw [append_subset] at hsubset
    refine List.Forall₂.cons ⟨rfl, rfl, rfl, ⟨_, D, rfl, ⟨hN.used, ?_, hsubset.2⟩, hvalid.2, rfl⟩⟩
      .nil
    rw [map_append]
    exact fun x hx => hsubset.1 (mem_cons_of_mem _ hx)
  | _ => exact .nil

lemma definesRelated_statements (ss : List Statement) (hN : Bounded N Γ D (namesOfStatements ss))
    (hvalid : statementsValid dialect Γ ss) :
    DefinesRelated (Split dialect N) ss (statements dialect D ss).1 := by
  induction ss generalizing Γ D with
  | nil => exact .nil
  | cons s ss ih =>
    rw [statementsValid, and_eq_true] at hvalid
    have hpre : functionDefinitions (statement dialect D s).statementsToPrefix = [] :=
      (declarations_statement dialect s D).choose_spec.functions
    have hs := definesRelated_statement (N := N) hN.left hvalid.1
    have hss := ih (hN.statement dialect) hvalid.2
    have happend := hs.cons hss
    rw [statements]
    have hprefix : DefinesRelated (Split dialect N) [] (statement dialect D s).statementsToPrefix :=
      .of_eq_nil rfl hpre
    exact hprefix.append happend

lemma Bounded.references {names : List YulString} (h : Bounded N Γ D names)
    (he : e.valid dialect Γ) (hV : Variables.AgreeOn N V V') :
    ∀ x ∈ e.referencedVariables, x ∈ D.usedNames ∧ V' x = V x := by
  intro x hx
  have hN := h.locals (e.mem_locals_of_valid he hx)
  exact ⟨h.used hN, hV x hN⟩

end

section

variable {N : List YulString} {I I' : Tracer World}

lemma tracedBlock_split_of {ss : Block} {Γ : Scope} {D : NameDispenser}
    (hN : Bounded N Γ D (namesOfStatements ss))
    (hvalid : statementsValid I.dialect (Γ.register ss) ss)
    (hss : ∀ {Γ}, Bounded N Γ D (namesOfStatements ss) → statementsValid I.dialect Γ ss →
      ∀ {F F'}, F.Rel (Split I.dialect N) F' → ∀ {V V'}, Variables.AgreeOn N V V' → ∀ m,
        Traced.Rel (SameOutcome (Variables.AgreeOn N)) (tracedStatements I F V ss m)
          (tracedStatements I' F' V' (statements I.dialect D ss).1 m)) {F F' : Functions}
    (hF : F.Rel (Split I.dialect N) F') (hV : Variables.AgreeOn N V V') (m : SvmState World) :
    Traced.Rel (SameOutcome (Variables.AgreeOn N)) (tracedBlock I F V ss m)
      (tracedBlock I' F' V' (statements I.dialect D ss).1 m) := by
  have hN' : Bounded N (Γ.register ss) D (namesOfStatements ss) :=
    hN.of_locals_eq Scope.locals_register
  exact tracedBlock_rel hF (definesRelated_statements ss hN' hvalid)
    (fun hF => hss hN' hvalid hF hV m) fun _ _ hW => hV.restrict hW

lemma traced_visit {S : FunctionDefinition → FunctionDefinition → Prop} {F F' : Functions}
    (hI : I.Sim S I') (hF : F.Rel S F') {D : NameDispenser} (hV : Variables.AgreeOn N V V')
    (hN : N ⊆ D.usedNames) (he : ∀ x ∈ e.referencedVariables, x ∈ D.usedNames ∧ V' x = V x)
    (g g' : Variables → List Word → LoopState × Variables)
    (hg : ∀ {W W'} vs, Variables.AgreeOn N W W' →
      SameOutcome (Variables.AgreeOn N) (g W vs) (g' W' vs)) {s' : Statement}
    (hs' : ∀ W m, s'.traced I' F' W m = ((visit I.dialect D e).code.traced I' F' W m).map (g' W))
    (m : SvmState World) :
    Traced.Rel (SameOutcome (Variables.AgreeOn N)) ((e.traced I F V m).map (g V))
      (tracedStatements I' F' V' ((visit I.dialect D e).statementsToPrefix ++ [s']) m) := by
  rw [traced_append, map_eq_bind]
  simp only [traced_singleton, hs', map_eq_bind]
  refine visit_rel hI hF e he (fun W vs m => .ok (g' W vs) m) (fun vs W m hW => ?_) m
  exact .ok (hg vs fun x hx => (hW x (hN hx)).trans (hV x hx))

mutual

lemma statement_rel (hI : I.Sim (Split I.dialect N) I') (s : Statement) {Γ : Scope}
    {D : NameDispenser} (hN : Bounded N Γ D s.names) (hvalid : s.valid I.dialect Γ)
    {F F' : Functions} (hF : F.Rel (Split I.dialect N) F') {V V' : Variables}
    (hV : Variables.AgreeOn N V V') (m : SvmState World) :
    Traced.Rel (SameOutcome (Variables.AgreeOn N)) (s.traced I F V m)
      (tracedStatements I' F' V' ((statement I.dialect D s).statementsToPrefix ++
        [(statement I.dialect D s).code]) m) := by
  match s with
  | .expressionStatement e =>
    rw [valid_expression, and_eq_true] at hvalid
    exact traced_visit hI hF hV hN.used (hN.references hvalid.1 hV) (fun V _ => (.default, V))
      (fun V _ => (.default, V)) (fun vs hW => ⟨rfl, hW⟩) (fun _ _ => rfl) m
  | .assignment xs e =>
    rw [valid_assignment, and_eq_true, and_eq_true] at hvalid
    exact traced_visit hI hF hV hN.used (hN.references hvalid.1.2 hV)
      (fun V vs => (.default, V.assign xs vs)) (fun V vs => (.default, V.assign xs vs))
      (fun vs hW => ⟨rfl, hW.assign xs vs⟩) (fun _ _ => rfl) m
  | .variableDeclaration xs none => exact .ok ⟨rfl, hV.assign _ _⟩
  | .variableDeclaration xs (some e) =>
    rw [valid_declaration, and_eq_true, valueValid, and_eq_true,
      and_eq_true] at hvalid
    rw [statement, visitValue]
    refine traced_visit hI hF hV hN.used (hN.references hvalid.2.1 hV)
      (fun V vs => (.default, V.assign (xs.map (·.name)) vs))
      (fun V vs => (.default, V.assign (xs.map (·.name)) vs))
      (fun vs hW => ⟨rfl, hW.assign _ vs⟩) ?_ m
    intro W m
    rfl
  | .functionDefinition f ps rs body => exact .ok ⟨rfl, hV⟩
  | .if c body =>
    rw [valid_if, and_eq_true, and_eq_true] at hvalid
    have hc := hN.references hvalid.1.1 hV
    rw [statement, traced_if, traced_append]
    refine (outline_rel (declarations_visit I.dialect c D) (visit_rel hI hF c hc) hc m).bind ?_
    rintro v ⟨_, W⟩ m₁ ⟨⟨rfl, hW⟩, hholds⟩
    have hVW : Variables.AgreeOn N V W := fun x hx => (hW x (hN.used hx)).trans (hV x hx)
    rw [if_pos rfl, traced_singleton, traced_if, outlineExpression, hholds.traced,
      ok_bind]
    exact tracedBranch_rel (tracedBlock_split_of (hN.outlined I.dialect c) hvalid.2
      (statements_rel hI body) hF hVW m₁) hVW
  | .switch e cs =>
    rw [valid_switch, and_eq_true, and_eq_true] at hvalid
    have he := hN.references hvalid.1.1 hV
    rw [statement, traced_switch, traced_append]
    refine (outline_rel (declarations_visit I.dialect e D) (visit_rel hI hF e he) he m).bind ?_
    rintro v ⟨_, W⟩ m₁ ⟨⟨rfl, hW⟩, hholds⟩
    have hVW : Variables.AgreeOn N V W := fun x hx => (hW x (hN.used hx)).trans (hV x hx)
    rw [if_pos rfl, traced_singleton, traced_switch, outlineExpression, hholds.traced,
      ok_bind]
    exact cases_rel hI cs (hN.outlined I.dialect e) hvalid.2 hF hVW _ m₁
  | .forLoop pre c post body =>
    simp only [valid_forLoop, and_eq_true] at hvalid
    obtain ⟨⟨⟨⟨hpre, hc⟩, -⟩, hpost⟩, hbody⟩ := hvalid
    have hN' : Bounded N Γ D (namesOfStatements pre ++ namesOfStatements body ++
        namesOfStatements post) := hN
    have hlocals := List.Subset.trans (flatMap_declares_subset_names pre) hN'.left.left.subset
    rw [statement, nil_append, traced_singleton]
    refine traced_forLoop_rel (A := Variables.AgreeOn N) hI.fuel
      (statements_rel hI pre (hN'.left.left.enter .forLoopPre) hpre hF hV m) ?_ ?_ ?_
      fun W W' hW => hV.restrict hW
    · intro W W' m hW
      refine c.traced_eq hI hF (fun x hx => hW x ?_) m
      exact (hN'.left.left.declare hlocals).locals (c.mem_locals_of_valid hc hx)
    · intro W W' m hW
      have hbodyN := ((hN'.left.right.afterStatements I.dialect pre).afterStatements I.dialect
        post).declare hlocals
      exact tracedBlock_split_of (hbodyN.enter .forLoopBody) hbody (statements_rel hI body) hF hW m
    · intro W W' m hW
      have hpostN := (hN'.right.afterStatements I.dialect pre).declare hlocals
      exact tracedBlock_split_of (hpostN.enter .forLoopPost) hpost (statements_rel hI post) hF
        hW m
  | .break | .continue => exact .ok ⟨rfl, hV⟩
  | .block ss =>
    rw [statement, nil_append, traced_singleton]
    exact tracedBlock_split_of hN hvalid (statements_rel hI ss) hF hV m

lemma statements_rel (hI : I.Sim (Split I.dialect N) I') (ss : List Statement)
    {D : NameDispenser} {Γ : Scope} (hN : Bounded N Γ D (namesOfStatements ss))
    (hvalid : statementsValid I.dialect Γ ss) {F F' : Functions}
    (hF : F.Rel (Split I.dialect N) F') {V V' : Variables} (hV : Variables.AgreeOn N V V')
    (m : SvmState World) :
    Traced.Rel (SameOutcome (Variables.AgreeOn N)) (tracedStatements I F V ss m)
      (tracedStatements I' F' V' (statements I.dialect D ss).1 m) := by
  match ss with
  | [] => exact .ok ⟨rfl, hV⟩
  | s :: ss =>
    rw [statementsValid, and_eq_true] at hvalid
    have hs := statement_rel hI s hN.left hvalid.1 hF hV m
    rw [← traced_singleton] at hs
    have happend := traced_append_rel hs (fun W W' m hW =>
      statements_rel hI ss (hN.statement I.dialect) hvalid.2 hF hW m) fun _ _ h => h
    rw [append_assoc] at happend
    exact happend

lemma cases_rel (hI : I.Sim (Split I.dialect N) I') (cs : List Case)
    {D : NameDispenser} {Γ : Scope} (hN : Bounded N Γ D (namesOfCases cs))
    (hvalid : casesValid I.dialect Γ cs) {F F' : Functions}
    (hF : F.Rel (Split I.dialect N) F') {V V' : Variables} (hV : Variables.AgreeOn N V V')
    (v : Word) (m : SvmState World) :
    Traced.Rel (SameOutcome (Variables.AgreeOn N)) (tracedCases I F V v cs m)
      (tracedCases I' F' V' v (cases I.dialect D cs).1 m) := by
  match cs with
  | [] => exact .ok ⟨rfl, hV⟩
  | .mk value body :: cs =>
    simp only [casesValid, and_eq_true] at hvalid
    have hN' : Bounded N Γ D (namesOfStatements body ++ namesOfCases cs) := hN
    exact tracedCases_cons_rel
      (tracedBlock_split_of hN'.left hvalid.1.2 (statements_rel hI body) hF hV m)
      (cases_rel hI cs (hN'.right.afterStatements I.dialect body) hvalid.2 hF hV v m)

end

end

end ExpressionSplitter

end Yul
