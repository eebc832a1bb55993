import Polc.Yul.Optimiser.DataFlowAnalyzer.Soundness

/-!
# Program points and what is known there

An execution and the analysis are followed together: each point of the program that control
comes to is paired with the state of the analyser when it visits that point. What the analyser
knows then is true.
-/

namespace Yul

open Sof Semantics DataFlowAnalyzer List Result Variables

variable {World : Type}

section

variable {ξ : Type} (visit : DataFlowAnalyzer → ξ → Expression → Option (Expression × ξ))
  (I : Interpreter World)

mutual

/-- From the start of the statement, with the functions `F`, the variables `V` and the machine in
state `m`, and the analyser in state `S`, control comes to a point with the variables that come
last, and the analyser visits it in the state before them. A function body can be entered with
any arguments, known functions and state of the machine. -/
inductive Statement.Visits : Functions → DataFlowAnalyzer → ξ → Variables → SvmState World →
    Statement → DataFlowAnalyzer → Variables → Prop where
  | here {F S t V m s} : Statement.Visits F S t V m s S V
  | value {F S t V m xs e} :
      Statement.Visits F S t V m (.variableDeclaration xs (some e))
        (S.declare (xs.map (·.name))) V
  | functionBody {F S t V m f ps rs body S' V'} (F' : Functions) (vs : List Word)
      (m' : SvmState World)
      (h : StatementsVisit (F'.register body)
        ((S.enterFunction I.dialect (ps.map (·.name)) (rs.map (·.name))).pushScope false) t
        ((⟨ps, rs, body⟩ : FunctionDefinition).variables vs) m' body S' V') :
      Statement.Visits F S t V m (.functionDefinition f ps rs body) S' V'
  | ifBody {F S t V m c body c' t₁ v m₁ S' V'} (hc : visit S t c = some (c', t₁))
      (hv : c.evaluate I F V m = .ok v m₁) (hne : v ≠ 0)
      (h : StatementsVisit (F.register body) (S.pushScope false) t₁ V m₁ body S' V') :
      Statement.Visits F S t V m (.if c body) S' V'
  | switchCase {F S t V m e cases e' t₁ v m₁ S' V'} (he : visit S t e = some (e', t₁))
      (hv : e.evaluate I F V m = .ok v m₁) (h : CasesVisit F S t₁ V v m₁ cases S' V') :
      Statement.Visits F S t V m (.switch e cases) S' V'
  | loopCondition {F S t V m c post body since V₁ m₁}
      (hsince : assignmentsSinceContinue body = some since)
      (hloop : LoopReaches I F c post body V m V₁ m₁) :
      Statement.Visits F S t V m (.forLoop [] c post body)
        (S.clearValues (assignmentsOfStatements body ++ assignmentsOfStatements post)) V₁
  | loopBody {F S t V m c post body since V₁ m₁ m₂ c' t₁ S' V'}
      (hsince : assignmentsSinceContinue body = some since)
      (hloop : LoopReaches I F c post body V m V₁ m₁)
      (hcond : Yul.loopCondition I F c V₁ m₁ = .ok true m₂)
      (hc : visit (S.clearValues (assignmentsOfStatements body ++ assignmentsOfStatements post)) t
        c = some (c', t₁))
      (h : StatementsVisit (F.register body)
        ((S.clearValues (assignmentsOfStatements body ++ assignmentsOfStatements post)).pushScope
          false) t₁ V₁ m₂ body S' V') :
      Statement.Visits F S t V m (.forLoop [] c post body) S' V'
  | loopPost {F S t V m c post body since V₁ m₁ m₂ V₂ m₃ c' t₁ body' S₁ t₂ S' V'}
      (hsince : assignmentsSinceContinue body = some since)
      (hloop : LoopReaches I F c post body V m V₁ m₁)
      (hcond : Yul.loopCondition I F c V₁ m₁ = .ok true m₂)
      (hbody : Yul.loopBody I F body V₁ m₂ = .ok (false, V₂) m₃)
      (hc : visit (S.clearValues (assignmentsOfStatements body ++ assignmentsOfStatements post)) t
        c = some (c', t₁))
      (hab : analyzeStatements visit I.dialect
        ((S.clearValues (assignmentsOfStatements body ++ assignmentsOfStatements post)).pushScope
          false) t₁ body = some (body', S₁, t₂))
      (h : StatementsVisit (F.register post) ((S₁.popScope.clearValues since).pushScope false) t₂
        V₂ m₃ post S' V') :
      Statement.Visits F S t V m (.forLoop [] c post body) S' V'
  | block {F S t V m ss S' V'}
      (h : StatementsVisit (F.register ss) (S.pushScope false) t V m ss S' V') :
      Statement.Visits F S t V m (.block ss) S' V'

inductive StatementsVisit : Functions → DataFlowAnalyzer → ξ → Variables → SvmState World →
    List Statement → DataFlowAnalyzer → Variables → Prop where
  | here {F S t V m ss} : StatementsVisit F S t V m ss S V
  | head {F S t V m s ss S' V'} (h : Statement.Visits F S t V m s S' V') :
      StatementsVisit F S t V m (s :: ss) S' V'
  | tail {F S t V m s ss s' S₁ t₁ V₁ m₁ S' V'} (hs : s.exec I F V m = .ok (.default, V₁) m₁)
      (ha : s.analyze visit I.dialect S t = some (s', S₁, t₁))
      (h : StatementsVisit F S₁ t₁ V₁ m₁ ss S' V') : StatementsVisit F S t V m (s :: ss) S' V'

inductive CasesVisit : Functions → DataFlowAnalyzer → ξ → Variables → Word → SvmState World →
    List Case → DataFlowAnalyzer → Variables → Prop where
  | head {F S t V v m value body cs S' V'} (hv : value.all (·.word = v) = true)
      (h : StatementsVisit (F.register body) (S.pushScope false) t V m body S' V') :
      CasesVisit F S t V v m (.mk value body :: cs) S' V'
  | tail {F S t V v m value body cs body' S₁ t₁ S' V'} (hv : value.all (·.word = v) = false)
      (ha : analyzeStatements visit I.dialect (S.pushScope false) t body = some (body', S₁, t₁))
      (h : CasesVisit F (S₁.popScope.clearValues (assignmentsOfStatements body')) t₁ V v m cs
        S' V') : CasesVisit F S t V v m (.mk value body :: cs) S' V'

end

end

/-! ### The scopes of the analyser -/

namespace DataFlowAnalyzer

/-- All visible variables are in scope for the analyser, which is in a block. -/
structure InScope (Γ : Scope) (S : DataFlowAnalyzer) : Prop where
  nonempty : S.variableScopes ≠ []
  inScope : ∀ x ∈ Γ.locals, S.inScope x = true

variable {Γ Γ' : Scope} {S S' : DataFlowAnalyzer} {xs : List YulString} {x : YulString}

lemma InScope.of_locals (h : S.InScope Γ) (hΓ : Γ'.locals ⊆ Γ.locals) : S.InScope Γ' :=
  ⟨h.nonempty, fun x hx => h.inScope x (hΓ hx)⟩

variable {scopes : List VariableScope}

lemma inScopeOf_declareIn (hne : scopes ≠ []) :
    inScopeOf x (declareIn xs scopes) = (decide (x ∈ xs) || inScopeOf x scopes) := by
  cases scopes with
  | nil => exact absurd rfl hne
  | cons scope scopes =>
    simp only [declareIn, inScopeOf, mem_append, Bool.decide_or]
    rw [Bool.or_left_comm, ← Bool.or_assoc]

lemma InScope.of_declareIn (h : S.InScope Γ)
    (hscopes : S'.variableScopes = declareIn xs S.variableScopes) : S'.InScope (Γ.declare xs) := by
  refine ⟨?_, fun x hx => ?_⟩
  · rw [hscopes]
    cases hS : S.variableScopes with
    | nil => exact absurd hS h.nonempty
    | cons scope scopes => exact cons_ne_nil _ _
  · rw [DataFlowAnalyzer.inScope, hscopes, inScopeOf_declareIn h.nonempty, Bool.or_eq_true, decide_eq_true_eq]
    exact (List.mem_append.mp hx).imp_right (h.inScope x)

lemma InScope.pushScope (h : S.InScope Γ) : (S.pushScope false).InScope Γ :=
  ⟨cons_ne_nil _ _, fun x hx => by
    simpa [DataFlowAnalyzer.inScope, inScopeOf] using h.inScope x hx⟩

lemma InScope.of_scopes (h : S.InScope Γ) (hscopes : S'.variableScopes = S.variableScopes) :
    S'.InScope Γ :=
  ⟨hscopes ▸ h.nonempty, fun x hx => by
    rw [DataFlowAnalyzer.inScope, hscopes]
    exact h.inScope x hx⟩

variable {dialect : Dialect}

lemma InScope.enterFunction (S : DataFlowAnalyzer) (ps rs : List YulString)
    (fs : List (YulString × Nat × Nat)) (c : ForLoopComponent) :
    (S.enterFunction dialect ps rs).InScope ⟨ps ++ rs, fs, c⟩ := by
  have hfold (S : DataFlowAnalyzer) (ps : List YulString) (hS : S.InScope ⟨ps, fs, c⟩) :
      (rs.foldl (fun S r => (S.declare [r]).handleAssignment dialect [r] none) S).InScope
        ⟨ps ++ rs, fs, c⟩ := by
    induction rs generalizing S ps with
    | nil => simpa using hS
    | cons r rs ih =>
      have hS' : ((S.declare [r]).handleAssignment dialect [r] none).InScope
          ⟨ps ++ [r], fs, c⟩ := by
        have hdeclare : ((S.declare [r]).handleAssignment dialect [r] none).InScope
            (Scope.declare ⟨ps, fs, c⟩ [r]) := hS.of_declareIn rfl
        refine hdeclare.of_locals fun x hx => ?_
        simpa [or_comm] using hx
      simpa using ih _ _ hS'
  refine hfold _ ps ⟨cons_ne_nil _ _, fun x hx => ?_⟩
  simpa [DataFlowAnalyzer.inScope, inScopeOf, declare, DataFlowAnalyzer.pushScope,
    declareIn] using hx

lemma mem_names_of_inScopeOf (h : inScopeOf x scopes) : x ∈ scopes.flatMap (·.names) := by
  induction scopes with
  | nil => cases h
  | cons scope scopes ih =>
    simp only [inScopeOf, Bool.or_eq_true, Bool.and_eq_true, decide_eq_true_eq] at h
    rw [flatMap_cons, mem_append]
    exact h.imp_right fun h => ih h.2

lemma InScope.mem_knownVariables (h : S.InScope Γ) (hS : S.WellFormed dialect Γ) :
    x ∈ S.knownVariables ↔ (S.value x).isSome := by
  rw [knownVariables, mem_filter, mem_insertionSort, and_iff_right_iff_imp]
  intro hx
  obtain ⟨e, he⟩ := Option.isSome_iff_exists.mp hx
  exact mem_names_of_inScopeOf (h.inScope x (hS x e he).mem_locals)

/-! ### True knowledge -/

/-- What is recorded is well-formed and true, for the visible variables, which have values. -/
structure TrueAt (I : Interpreter World) (Γ : Scope) (S : DataFlowAnalyzer) (V : Variables) :
    Prop where
  wellFormed : S.WellFormed I.dialect Γ
  inScope : S.InScope Γ
  covers : V.Covers Γ
  holds : S.Holds I.env I.dialect V

section

variable {I : Interpreter World} {V V' : Variables}

lemma TrueAt.of_locals_eq (h : TrueAt I Γ S V) (hΓ : Γ'.locals = Γ.locals) : TrueAt I Γ' S V :=
  ⟨h.wellFormed.of_subset (by simp [hΓ]), h.inScope.of_locals (by simp [hΓ]),
    h.covers.of_locals (by simp [hΓ]), h.holds⟩

lemma TrueAt.pushScope (h : TrueAt I Γ S V) : TrueAt I Γ (S.pushScope false) V :=
  ⟨h.wellFormed.pushScope false, h.inScope.pushScope, h.covers, h.holds⟩

lemma TrueAt.declare (h : TrueAt I Γ S V) (xs : List YulString) : TrueAt I Γ (S.declare xs) V :=
  ⟨h.wellFormed.declare xs,
    (h.inScope.of_declareIn rfl).of_locals (subset_append_right xs _), h.covers, h.holds⟩

/-- All that is recorded when a function is entered is that its return variables are zero. -/
lemma value_enterFunction {ps rs : List YulString} {e : Expression}
    (he : (S.enterFunction dialect ps rs).value x = some e) : x ∈ rs ∧ e = zero := by
  have hfold (rs : List YulString) (S : DataFlowAnalyzer) (h : (rs.foldl (fun S r =>
      (S.declare [r]).handleAssignment dialect [r] none) S).value x = some e) :
      S.value x = some e ∨ x ∈ rs ∧ e = zero := by
    induction rs generalizing S with
    | nil => exact .inl h
    | cons r rs ih =>
      rcases ih _ h with h | ⟨hx, rfl⟩
      · rcases value_handleAssignment h with h | ⟨hx, ⟨-, rfl⟩ | ⟨-, h, -⟩⟩
        · exact .inl (value_clearValues h).1
        · rw [List.mem_singleton.mp hx]
          exact .inr ⟨mem_cons_self, rfl⟩
        · cases h
      · exact .inr ⟨mem_cons_of_mem _ hx, rfl⟩
  exact (hfold rs _ he).resolve_left nofun

lemma TrueAt.enterFunction (S : DataFlowAnalyzer) (ps rs : List TypedName) (body : Block)
    (vs : List Word) (fs : List (YulString × Nat × Nat)) (c : ForLoopComponent) :
    TrueAt I ⟨(ps ++ rs).map (·.name), fs, c⟩
      (S.enterFunction I.dialect (ps.map (·.name)) (rs.map (·.name)))
      ((⟨ps, rs, body⟩ : FunctionDefinition).variables vs) where
  wellFormed := .enterFunction _ _ fun x hx => by
    simp only [map_append, mem_append]
    exact .inr hx
  inScope := by
    rw [map_append]
    exact InScope.enterFunction S (ps.map (·.name)) (rs.map (·.name)) fs c
  covers x hx := by
    simp only [map_append, mem_append] at hx
    exact isSome_assign_iff.mpr
      (hx.symm.imp_right fun h => isSome_assign_iff.mpr (.inl h))
  holds x e he := by
    obtain ⟨hx, rfl⟩ := value_enterFunction he
    rw [FunctionDefinition.variables, assign_zero hx]
    exact congrArg some (show 0 = (Literal.number "0").word by decide)

lemma TrueAt.loopReaches {F : Functions} {c : Expression} {post body : Block}
    {m m' : SvmState World} (h : TrueAt I Γ S V)
    (hvalid : (Statement.forLoop [] c post body).valid I.dialect Γ)
    (hloop : LoopReaches I F c post body V m V' m') :
    TrueAt I Γ (S.clearValues (assignmentsOfStatements body ++ assignmentsOfStatements post))
      V' := by
  obtain ⟨hcovers, hframe⟩ : V'.Covers Γ ∧ ∀ x ∈ Γ.locals,
      x ∉ assignmentsOfStatements body ++ assignmentsOfStatements post → V' x = V x := by
    induction hloop with
    | start => exact ⟨h.covers, fun _ _ _ => rfl⟩
    | iteration _ _ hbody hpost ih =>
      obtain ⟨hcovers, hframe⟩ := ih
      obtain ⟨r, hr, heq⟩ := map_eq_ok.mp hbody
      obtain ⟨r', hr', rfl⟩ := map_eq_ok.mp hpost
      obtain ⟨-, rfl⟩ := Prod.mk.inj heq
      have hcovers₁ := execBlock_covers body F _ hcovers r _ hr
      refine ⟨execBlock_covers post F _ hcovers₁ r' _ hr', fun x hx ha => ?_⟩
      have hd := not_mem_declarations_of_valid hx _ hvalid
      simp only [Statement.declarations, declarationsOfStatements, nil_append,
        mem_append, not_or] at hd ha
      have hbody := (isFrame_unchanged x).execBlock body (fun y hy h => ha.1 (h ▸ hy))
        (fun y hy h => hd.1 (h ▸ hy)) F _ _ r _ hr
      have hpost := (isFrame_unchanged x).execBlock post (fun y hy h => ha.2 (h ▸ hy))
        (fun y hy h => hd.2 (h ▸ hy)) F _ _ r' _ hr'
      rw [hpost, hbody, hframe x hx (by simp [ha])]
  exact ⟨h.wellFormed.clearValues _, h.inScope.of_scopes rfl, hcovers,
    h.holds.frame h.wellFormed hframe⟩

end

end DataFlowAnalyzer

/-! ### Knowledge is true at all program points -/

section

variable {ξ : Type} {visit : DataFlowAnalyzer → ξ → Expression → Option (Expression × ξ)}
  {I : Interpreter World}

variable {Γ : Scope} {S S' : DataFlowAnalyzer} {t t' : ξ} {V : Variables}

lemma trueAt_of_exec (hv : SoundVisit I visit) {s s' : Statement} {F : Functions} {V' : Variables}
    {m m' : SvmState World} (h : TrueAt I Γ S V) (hvalid : s.valid I.dialect Γ)
    (ha : s.analyze visit I.dialect S t = some (s', S', t'))
    (hs : s.exec I F V m = .ok (.default, V') m') : TrueAt I (Γ.declare s.declares) S' V' := by
  obtain ⟨hstep, -⟩ := analyze_step hv.valid s ha hvalid h.wellFormed
  exact ⟨hstep.wellFormed, h.inScope.of_declareIn hstep.scopes,
    (s.exec_covers F m h.covers _ _ hs).2 rfl,
    holdsExcept_nil.mp ((exec_holds hv s ha hvalid h.wellFormed h.covers h.holds F m _ _ hs).1 rfl)⟩

lemma trueAt_of_loopBody (hv : SoundVisit I visit) {body body' : Block} {F : Functions}
    {Γ' : Scope} {V' : Variables} {m m' : SvmState World} {since : List YulString}
    (h : TrueAt I Γ S V) (hvalid : statementsValid I.dialect (Γ'.register body) body)
    (hΓ : Γ'.locals = Γ.locals)
    (ha : analyzeStatements visit I.dialect (S.pushScope false) t body = some (body', S', t'))
    (hsince : assignmentsSinceContinue body = some since)
    (hs : loopBody I F body V m = .ok (false, V') m') :
    TrueAt I Γ (S'.popScope.clearValues since) V' := by
  obtain ⟨⟨l, V₁⟩, hr, heq⟩ := map_eq_ok.mp hs
  simp only [Prod.mk.injEq, decide_eq_false_iff_not] at heq
  obtain ⟨hl, rfl⟩ := heq
  obtain ⟨c', hc', rfl⟩ := Option.map_eq_some_iff.mp hsince
  obtain ⟨hstep, -⟩ := analyzeBlock_step hv.valid body ha hvalid h.wellFormed hΓ
  have hout := execBlock_holds hv body ha hvalid h.wellFormed h.covers h.holds F m hΓ _ _ hr
  have hd : ∀ x ∈ Γ.locals, x ∉ declarationsOfStatements body := fun x hx =>
    not_mem_declarationsOfStatements_of_valid (by simpa [hΓ] using hx) body hvalid
  have hexcept : S'.popScope.HoldsExcept I.env I.dialect c'.names V₁ := by
    match l with
    | .default => exact (hout.1 rfl).mono (nil_subset _)
    | .continue => exact (hout.2 rfl _ c' hc').2.of_not_mem_locals hstep.wellFormed hd
    | .break => exact absurd rfl hl
  refine ⟨hstep.wellFormed.clearValues _, h.inScope.of_scopes ?_,
    execBlock_covers body F m h.covers _ _ hr, hexcept.clearValues_holds hstep.wellFormed⟩
  exact hstep.scopes.trans (declareIn_nil _)

lemma trueAt_of_skip (hv : SoundVisit I visit) {body body' : Block} (h : TrueAt I Γ S V)
    (ha : analyzeStatements visit I.dialect (S.pushScope false) t body = some (body', S', t'))
    (hvalid : statementsValid I.dialect (Γ.register body) body) :
    TrueAt I Γ (S'.popScope.clearValues (assignmentsOfStatements body')) V := by
  obtain ⟨hstep, -, hassign⟩ := analyzeBlock_step hv.valid body ha hvalid h.wellFormed rfl
  refine ⟨hstep.wellFormed.clearValues _, h.inScope.of_scopes ?_, h.covers,
    h.holds.of_value fun x e he => ?_⟩
  · exact hstep.scopes.trans (declareIn_nil _)
  · rw [hassign] at he
    exact hstep.skip (fun x hx => not_mem_declarationsOfStatements_of_valid (by simpa using hx)
      body hvalid) he

mutual

lemma Statement.Visits.trueAt (hv : SoundVisit I visit) {F : Functions}
    {S S' : DataFlowAnalyzer} {t : ξ} {V V' : Variables} {m : SvmState World} {s : Statement}
    (h : Statement.Visits visit I F S t V m s S' V') {Γ : Scope}
    (hvalid : s.valid I.dialect Γ) (hS : TrueAt I Γ S V) : ∃ Γ', TrueAt I Γ' S' V' := by
  match h with
  | .here => exact ⟨Γ, hS⟩
  | .value => exact ⟨Γ, hS.declare _⟩
  | .functionBody F' vs m' h =>
    simp only [valid_function, Bool.and_eq_true] at hvalid
    exact h.trueAt hv hvalid.2
      ((TrueAt.enterFunction S _ _ _ vs Γ.functions .none).pushScope.of_locals_eq (by simp))
  | .ifBody hc hval hne h =>
    rw [valid_if, Bool.and_eq_true] at hvalid
    exact h.trueAt hv hvalid.2 (hS.pushScope.of_locals_eq (by simp))
  | .switchCase he hval h =>
    rw [valid_switch, Bool.and_eq_true] at hvalid
    exact h.trueAt hv hvalid.2 hS
  | .loopCondition hsince hloop => exact ⟨Γ, hS.loopReaches hvalid hloop⟩
  | .loopBody hsince hloop hcond hc h =>
    have hhead := hS.loopReaches hvalid hloop
    rw [valid_forLoop_nil, Bool.and_eq_true] at hvalid
    exact h.trueAt hv hvalid.2 (hhead.pushScope.of_locals_eq (by simp))
  | .loopPost hsince hloop hcond hbody hc hab h =>
    have hhead := hS.loopReaches hvalid hloop
    simp only [valid_forLoop_nil, Bool.and_eq_true] at hvalid
    have hpost := trueAt_of_loopBody hv hhead hvalid.2 rfl hab hsince hbody
    exact h.trueAt hv hvalid.1.2 (hpost.pushScope.of_locals_eq (by simp))
  | .block h => exact h.trueAt hv hvalid (hS.pushScope.of_locals_eq (by simp))

lemma StatementsVisit.trueAt (hv : SoundVisit I visit) {F : Functions}
    {S S' : DataFlowAnalyzer} {t : ξ} {V V' : Variables} {m : SvmState World}
    {ss : List Statement} (h : StatementsVisit visit I F S t V m ss S' V') {Γ : Scope}
    (hvalid : statementsValid I.dialect Γ ss) (hS : TrueAt I Γ S V) :
    ∃ Γ', TrueAt I Γ' S' V' := by
  match h with
  | .here => exact ⟨Γ, hS⟩
  | .head h =>
    rw [statementsValid, Bool.and_eq_true] at hvalid
    exact h.trueAt hv hvalid.1 hS
  | .tail hs ha h =>
    rw [statementsValid, Bool.and_eq_true] at hvalid
    exact h.trueAt hv hvalid.2 (trueAt_of_exec hv hS hvalid.1 ha hs)

lemma CasesVisit.trueAt (hv : SoundVisit I visit) {F : Functions} {S S' : DataFlowAnalyzer}
    {t : ξ} {V V' : Variables} {v : Word} {m : SvmState World} {cs : List Case}
    (h : CasesVisit visit I F S t V v m cs S' V') {Γ : Scope}
    (hvalid : casesValid I.dialect Γ cs) (hS : TrueAt I Γ S V) :
    ∃ Γ', TrueAt I Γ' S' V' := by
  match h with
  | .head hval h =>
    simp only [casesValid, Bool.and_eq_true] at hvalid
    exact h.trueAt hv hvalid.1.2 (hS.pushScope.of_locals_eq (by simp))
  | .tail hval ha h =>
    simp only [casesValid, Bool.and_eq_true] at hvalid
    exact h.trueAt hv hvalid.2 (trueAt_of_skip hv hS ha hvalid.1.2)

end

end

/-- The analyser itself leaves expressions as they are. -/
def DataFlowAnalyzer.visit (_ : DataFlowAnalyzer) (t : Unit) (e : Expression) :
    Option (Expression × Unit) := some (e, t)

lemma soundVisit_visit (I : Interpreter World) : SoundVisit I DataFlowAnalyzer.visit where
  valid _ _ _ _ _ _ h _ hvalid := by
    cases h
    exact ⟨hvalid, rfl⟩
  eval_eq _ _ _ _ _ _ h _ _ _ _ _ _ := by
    cases h
    rfl

lemma trueAt_init (I : Interpreter World) (ss : Block) :
    TrueAt I (Scope.empty.register ss) (init.pushScope false) (fun _ => none) where
  wellFormed _ _ h := nomatch h
  inScope := ⟨cons_ne_nil _ _, fun x hx => by simp [Scope.empty] at hx⟩
  covers x hx := by simp [Scope.empty] at hx
  holds _ _ h := nomatch h

/-- Wherever control is at a point of a program that the analyser visits, each recorded value is
movable, the variable has that value, now and whenever it is evaluated, and the variables that
it references are in scope. -/
theorem value_true (I : Interpreter World) (ss : Block)
    (hss : Block.Disambiguated I.dialect ss) (m : SvmState World) (S : DataFlowAnalyzer)
    (V : Variables)
    (h : StatementsVisit DataFlowAnalyzer.visit I (Functions.register (fun _ => none) ss)
      (init.pushScope false) () (fun _ => none) m ss S V)
    (x : YulString) (e : Expression) (he : S.value x = some e) :
    e.movable I.dialect = true ∧
      (∃ w, V x = some w ∧ ∀ F m, e.evaluate I F V m = .ok w m) ∧
      ∀ y ∈ e.referencedVariables, S.inScope y = true ∧ (V y).isSome := by
  obtain ⟨Γ, hS⟩ := h.trueAt (soundVisit_visit I) hss.valid (trueAt_init I ss)
  have hk := hS.wellFormed x e he
  refine ⟨hk.movable, ⟨_, hS.holds x e he, fun F m => e.evaluate_of_movable hk.movable m⟩,
    fun y hy => ?_⟩
  have hy := hk.referenced_mem_locals y hy
  exact ⟨hS.inScope.inScope y hy, hS.covers y hy⟩

/-- `let a := 7  let b := a` -/
def copyOfSeven : Block :=
  [.variableDeclaration [⟨"a", ""⟩] (some (.literal (.number "7"))),
    .variableDeclaration [⟨"b", ""⟩] (some (.identifier "a"))]

theorem value_true_copyOfSeven :
    let I : Interpreter Unit := .ofBound default .strictAssemblyForSVMObjects 0
    let V : Variables := Variables.assign (Variables.assign (fun _ => none) ["a"] [7]) ["b"] [7]
    (∃ w, V "b" = some w ∧ ∀ F m, (Expression.identifier "a").evaluate I F V m = .ok w m) :=
  (value_true (.ofBound default .strictAssemblyForSVMObjects 0) copyOfSeven (by decide) default _
    _ (.tail rfl rfl (.tail rfl rfl .here)) "b" (.identifier "a") rfl).2.1

end Yul
