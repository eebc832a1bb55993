import Polc.Codegen.ContractCompiler

/-!
# The creation code constructs the contract

Constructors are nested in the code: the arguments of all of them are evaluated first, from derived
to base, and then they run on the way back.
-/

namespace Polynomial

open ContractLevelChecker ContractCompiler Semantics List Result

variable {T E : Type*}

namespace CreationMachine

variable {η σ : Type*} (M : CreationMachine T E η σ) (setting : Setting T E)

section

variable {stack : List Sof.Word}

@[simp] lemma length_wordsOf (n : ℕ) (w : ℕ → Sof.Word) : (wordsOf n w).length = n := by
  simp [wordsOf]

lemma execAll_append (codes codes' : List (CreationCode T E)) (stack : List Sof.Word) (s : σ) :
    M.execAll setting (codes ++ codes') stack s =
      (M.execAll setting codes stack s).bind (M.execAll setting codes') := by
  induction codes generalizing stack s with
  | nil => rfl
  | cons code codes ih =>
    rw [cons_append, execAll, execAll, bind_assoc]
    exact bind_congr _ fun stack s _ => ih stack s

lemma execAll_singleton (code : CreationCode T E) (stack : List Sof.Word) (s : σ) :
    M.execAll setting [code] stack s = M.exec setting code stack s := by
  rw [execAll]
  cases M.exec setting code stack s <;> rfl

lemma execAll_initialisation (contracts : List (ContractDefinition T E)) (s : σ) :
    M.execAll setting (contracts.map .initializeStateVariables) stack s =
      (M.initialiseAll contracts s).map fun _ => stack := by
  induction contracts generalizing s with
  | nil => rfl
  | cons contract contracts ih =>
    rw [map_cons, execAll, initialiseAll, exec]
    cases M.initialise contract s with
    | ok _ s => exact ih s
    | halt _ _ => rfl
    | timeout => rfl

lemma runAll_append (ρ : Arguments) (fs gs : List (FunctionDefinition T E)) (s : σ) :
    M.runAll setting ρ (fs ++ gs) s =
      (M.runAll setting ρ fs s).bind fun _ => M.runAll setting ρ gs := by
  induction fs generalizing s with
  | nil => rfl
  | cons f fs ih =>
    rw [cons_append, runAll, runAll, bind_assoc]
    exact bind_congr _ fun _ s _ => ih s

end

section

variable {ρ : Arguments} {f : FunctionDefinition T E} {fs gs : List (FunctionDefinition T E)}

/-- The arguments of constructors one above the other. -/
def stackOf (ρ : Arguments) (fs : List (FunctionDefinition T E)) : List Sof.Word :=
  fs.flatMap (argumentsOf setting ρ)

/-- The height of their stack. -/
def heightOf (fs : List (FunctionDefinition T E)) : ℕ := (fs.map (parametersSize setting)).sum

@[simp] lemma length_argumentsOf : (argumentsOf setting ρ f).length = parametersSize setting f :=
  length_wordsOf _ _

@[simp] lemma length_stackOf : (stackOf setting ρ fs).length = heightOf setting fs := by
  simp [stackOf, heightOf, length_flatMap]

@[simp] lemma stackOf_append : stackOf setting ρ (fs ++ gs) =
    stackOf setting ρ fs ++ stackOf setting ρ gs := flatMap_append

@[simp] lemma stackOf_cons : stackOf setting ρ (f :: fs) =
    argumentsOf setting ρ f ++ stackOf setting ρ fs := rfl

@[simp] lemma stackOf_nil : stackOf setting ρ [] = [] := rfl

@[simp] lemma heightOf_append : heightOf setting (fs ++ gs) =
    heightOf setting fs + heightOf setting gs := by simp [heightOf]

@[simp] lemma heightOf_singleton : heightOf setting [f] = parametersSize setting f := by
  simp [heightOf]

lemma stackOf_update (h : f.id ∉ fs.map (·.id)) (w : ℕ → Sof.Word) :
    stackOf setting (Function.update ρ f.id w) fs = stackOf setting ρ fs := by
  refine flatMap_congr fun g hg => ?_
  have hne : g.id ≠ f.id := fun heq => h (heq ▸ mem_map_of_mem hg)
  rw [argumentsOf, argumentsOf, Function.update_of_ne hne]

lemma argumentsOf_update (w : ℕ → Sof.Word) :
    argumentsOf setting (Function.update ρ f.id w) f = wordsOf (parametersSize setting f) w := by
  rw [argumentsOf, Function.update_self]

/-- The positions of the arguments are known. -/
def Positioned (locals : List (ℕ × ℕ × ℕ)) (fs : List (FunctionDefinition T E)) : Prop :=
  ∀ before f after, fs = before ++ f :: after →
    locals.lookup f.id = some (heightOf setting before, parametersSize setting f)

variable {setting}

lemma Positioned.snoc {locals : List (ℕ × ℕ × ℕ)} (h : Positioned setting locals fs)
    (hf : f.id ∉ fs.map (·.id)) :
    Positioned setting ((f.id, heightOf setting fs, parametersSize setting f) :: locals)
      (fs ++ [f]) := by
  intro before g after heq
  rcases eq_nil_or_concat after with rfl | ⟨after, k, rfl⟩
  · obtain ⟨rfl, rfl⟩ := append_inj' heq rfl |>.imp_right singleton_inj.mp
    simp
  · have hsplit : fs ++ [f] = (before ++ g :: after) ++ [k] := by simpa using heq
    obtain ⟨rfl, -⟩ := append_inj' hsplit rfl
    have hne : g.id ≠ f.id := fun heq => hf (heq ▸ mem_map_of_mem (by simp))
    rw [lookup_cons, beq_eq_false_iff_ne.mpr hne]
    exact h before g after rfl

end

/-! ### Evaluation of arguments -/

section

variable {ρ : Arguments} {fs : List (FunctionDefinition T E)} {owner : Option (FunctionDefinition T E)}
  {slots : Option (ℕ × ℕ)}

/-- The slots are those of the constructor whose arguments may be used. -/
inductive SlotsOf (fs : List (FunctionDefinition T E)) :
    Option (FunctionDefinition T E) → Option (ℕ × ℕ) → Prop where
  | none : SlotsOf fs none none
  | some {before f after} (h : fs = before ++ f :: after) :
    SlotsOf fs (some f) (some (heightOf setting before, parametersSize setting f))

variable {setting}

lemma exec_compileExpression (hids : (fs.map (·.id)).Nodup) (h : SlotsOf setting fs owner slots)
    (e : E) (type : ParameterType T) (rest : List Sof.Word) (s : σ) :
    M.exec setting (.compileExpression e type slots) (stackOf setting ρ fs ++ rest) s =
      (M.evaluateIn setting owner e type ρ s).map fun r =>
        stackOf setting r.2 fs ++ (rest ++ wordsOf (setting.sizeOnStack type) r.1) := by
  cases h with
  | none =>
    rw [exec, evaluateIn]
    cases M.evaluate e type [] s with
    | ok r s => simp
    | halt _ _ => rfl
    | timeout => rfl
  | @some before f after h =>
    subst h
    have hslot : ((stackOf setting ρ (before ++ f :: after) ++ rest).drop
        (heightOf setting before)).take (parametersSize setting f) = argumentsOf setting ρ f := by
      rw [stackOf_append, stackOf_cons, append_assoc, append_assoc,
        drop_left' (length_stackOf setting), take_left' (length_argumentsOf setting)]
    have htake : (stackOf setting ρ (before ++ f :: after) ++ rest).take
        (heightOf setting before) = stackOf setting ρ before := by
      rw [stackOf_append, append_assoc, take_left' (length_stackOf setting)]
    have hdrop : (stackOf setting ρ (before ++ f :: after) ++ rest).drop
        (heightOf setting before + parametersSize setting f) = stackOf setting ρ after ++ rest := by
      rw [← drop_drop, stackOf_append, stackOf_cons, append_assoc, append_assoc,
        drop_left' (length_stackOf setting), drop_left' (length_argumentsOf setting)]
    rw [exec, evaluateIn, hslot, htake, hdrop]
    rw [map_append, map_cons, nodup_append'] at hids
    have hbefore : f.id ∉ before.map (·.id) := fun hmem => hids.2.2 hmem mem_cons_self
    have hafter : f.id ∉ after.map (·.id) := (nodup_cons.mp hids.2.1).1
    cases M.evaluate e type (argumentsOf setting ρ f) s with
    | ok r s =>
      simp only [map_ok, stackOf_append, stackOf_cons, argumentsOf_update,
        stackOf_update setting hbefore, stackOf_update setting hafter, append_assoc]
    | halt _ _ => rfl
    | timeout => rfl

lemma execAll_compileExpressions (hids : (fs.map (·.id)).Nodup)
    (h : SlotsOf setting fs owner slots) (arguments : List E) (types : List (ParameterType T))
    (ρ : Arguments) (rest : List Sof.Word) (s : σ) :
    M.execAll setting (compileExpressions slots arguments types) (stackOf setting ρ fs ++ rest) s =
      (M.evaluateAll setting owner (arguments.zip types) ρ s).map fun r =>
        stackOf setting r.2 fs ++ (rest ++ r.1) := by
  induction arguments generalizing types ρ rest s with
  | nil => simp [compileExpressions, execAll, evaluateAll]
  | cons e es ih =>
    cases types with
    | nil => simp [compileExpressions, execAll, evaluateAll]
    | cons type types =>
      rw [compileExpressions, zipWith_cons_cons, ← compileExpressions, execAll,
        exec_compileExpression M hids h, zip_cons_cons, evaluateAll]
      cases M.evaluateIn setting owner e type ρ s with
      | ok r s =>
        rw [map_ok, bind_ok, bind_ok, ih]
        cases M.evaluateAll setting owner (es.zip types) r.2 s with
        | ok r' s => simp
        | halt _ _ => rfl
        | timeout => rfl
      | halt _ _ => rfl
      | timeout => rfl

lemma length_evaluateAll (setting : Setting T E) (owner : Option (FunctionDefinition T E))
    (es : List (E × ParameterType T)) (ρ : Arguments) (s : σ) :
    (M.evaluateAll setting owner es ρ s).Returns fun r _ =>
      r.1.length = (es.map fun e => setting.sizeOnStack e.2).sum := by
  induction es generalizing ρ s with
  | nil => exact .ok rfl
  | cons e es ih =>
    refine (Result.Returns.trivial _).bind fun r s _ _ => (ih r.2 s).map fun r' _ hr' => ?_
    rw [length_append, length_wordsOf, hr', map_cons, sum_cons]

end

/-! ### Arguments of base constructors -/

section

variable {contract : ContractDefinition T E} {ρ : Arguments} {f : FunctionDefinition T E}
  {fs cs : List (FunctionDefinition T E)}

/-- For the constructor there are arguments, which use those of more derived constructors. -/
def Supplied (fs : List (FunctionDefinition T E)) (f : FunctionDefinition T E) : Prop :=
  f.parameters ≠ [] → ∃ arguments, setting.baseArguments.lookup f.id = some arguments ∧
    arguments.arguments.length = f.parameters.length ∧
    ∀ g ∈ arguments.constructor, g ∈ fs.map (·.id)

/-- The constructors of the hierarchy in the order in which their arguments are evaluated. -/
structure Chain (contract : ContractDefinition T E) (fs : List (FunctionDefinition T E)) :
    Prop where
  constructors : setting.inheritanceHierarchy.filterMap (·.constructor) = fs
  nodup : (fs.map (·.id)).Nodup
  supplied : ∀ before f after, fs = before ++ f :: after →
    contract.constructor.any (·.id = f.id) = false → Supplied setting before f
  size : ∀ f ∈ fs, parametersSize setting f ≤ 16

variable {setting}

omit setting in
lemma find?_id (h : (fs.map (·.id)).Nodup) (hf : f ∈ fs) : fs.find? (·.id = f.id) = some f := by
  have hsome : (fs.find? (·.id = f.id)).isSome = true :=
    find?_isSome.mpr ⟨f, hf, decide_eq_true rfl⟩
  obtain ⟨g, hg⟩ := Option.isSome_iff_exists.mp hsome
  have hid := find?_some (p := fun g : FunctionDefinition T E => decide (g.id = f.id)) hg
  rw [hg, inj_on_of_nodup_map h (mem_of_find?_eq_some hg) hf (of_decide_eq_true hid)]

lemma wordsOf_getD (ws : List Sof.Word) : wordsOf ws.length (fun i => ws.getD i 0) = ws := by
  refine ext_getElem (length_wordsOf _ _) fun i h h' => ?_
  simp [wordsOf, h']

lemma execAll_baseArgumentsCode (context : Context)
    (hchain : Chain setting contract (fs ++ f :: cs))
    (hpositioned : Positioned setting context.localVariables fs)
    (hown : contract.constructor.any (·.id = f.id) = false) :
    ∃ code, baseArgumentsCode setting context f = .ok code ∧ ∀ (M : CreationMachine T E η σ) ρ s,
      M.execAll setting code (stackOf setting ρ fs) s =
        (M.bindArguments setting contract f ρ s).map fun ρ => stackOf setting ρ (fs ++ [f]) := by
  by_cases hparameters : f.parameters = []
  · refine ⟨[], if_pos hparameters, fun M ρ s => ?_⟩
    have hsize : argumentsOf setting ρ f = [] := by
      rw [argumentsOf, parametersSize, hparameters]
      rfl
    rw [bindArguments, if_pos hparameters, execAll, map_ok, stackOf_append, stackOf_cons,
      stackOf_nil, hsize, append_nil, append_nil]
  · obtain ⟨⟨owner, arguments⟩, hlookup, hlength, howner⟩ :=
      hchain.supplied fs f cs rfl hown hparameters
    obtain ⟨g, slots, hg, hslots, hcode⟩ : ∃ g slots,
        (owner.bind fun id => (fs ++ f :: cs).find? (·.id = id)) = g ∧ SlotsOf setting fs g slots ∧
        baseArgumentsCode setting context f =
          .ok (compileExpressions slots arguments f.parameters) := by
      cases owner with
      | none =>
        refine ⟨none, none, rfl, .none, ?_⟩
        rw [baseArgumentsCode, if_neg hparameters, hlookup]
        exact if_neg (not_not.mpr hlength)
      | some id =>
        obtain ⟨g, hmem, hid⟩ := mem_map.mp (howner id rfl)
        obtain ⟨before, after, rfl⟩ := append_of_mem hmem
        refine ⟨some g, _, ?_, .some rfl, ?_⟩
        · rw [← hid]
          exact find?_id hchain.nodup (mem_append_left _ hmem)
        · rw [baseArgumentsCode, if_neg hparameters, hlookup]
          have hposition := hpositioned before g after rfl
          rw [hid] at hposition
          simp only [hposition, hlength, ne_eq, not_true_eq_false, if_false]
    refine ⟨_, hcode, fun M ρ s => ?_⟩
    have hids : (fs.map (·.id)).Nodup := by
      have hnodup := hchain.nodup
      rw [map_append] at hnodup
      exact (nodup_append'.mp hnodup).1
    have hrun := execAll_compileExpressions M hids hslots arguments f.parameters ρ [] s
    rw [append_nil] at hrun
    rw [hrun, bindArguments, if_neg hparameters, hown, hlookup, hchain.constructors]
    simp only [Bool.false_eq_true, if_false, hg]
    have hreturns := length_evaluateAll M setting g (arguments.zip f.parameters) ρ s
    cases hr : M.evaluateAll setting g (arguments.zip f.parameters) ρ s with
    | ok r s =>
      have hwords := hreturns r s hr
      have hnot : f.id ∉ fs.map (·.id) := by
        have hnodup := hchain.nodup
        rw [map_append, map_cons, nodup_append'] at hnodup
        exact fun hmem => hnodup.2.2 hmem mem_cons_self
      have hsizes : ((arguments.zip f.parameters).map fun e => setting.sizeOnStack e.2).sum =
          parametersSize setting f := by
        show ((arguments.zip f.parameters).map (setting.sizeOnStack ∘ Prod.snd)).sum = _
        rw [← List.map_map, map_snd_zip hlength.ge]
        rfl
      rw [hsizes] at hwords
      simp only [map_ok, nil_append, stackOf_append, stackOf_cons, stackOf_nil,
        append_nil, stackOf_update setting hnot, argumentsOf_update]
      rw [← hwords, wordsOf_getD]
    | halt _ _ => rfl
    | timeout => rfl

omit setting in
lemma superContract_eq {before after H : List (ContractDefinition T E)}
    {scope : ContractDefinition T E} (hH : H = before ++ scope :: after)
    (hids : (H.map (·.id)).Nodup) : CompilerContext.superContract H scope = after := by
  subst hH
  rw [map_append, map_cons, nodup_append'] at hids
  have hbefore : ∀ c ∈ before, decide (c.id ≠ scope.id) = true := by
    intro c hc
    refine decide_eq_true fun heq => hids.2.2 (mem_map_of_mem hc) ?_
    rw [heq]
    exact mem_cons_self
  rw [CompilerContext.superContract, dropWhile_append_of_pos hbefore,
    dropWhile_cons_of_neg (by simp), tail_cons]

omit setting in
lemma nextConstructor_eq {before after H : List (ContractDefinition T E)}
    {scope : ContractDefinition T E} (hH : H = before ++ scope :: after)
    (hids : (H.map (·.id)).Nodup) :
    CompilerContext.nextConstructor H scope =
      after.findSome? fun c => c.constructor.map (c, ·) := by
  rw [CompilerContext.nextConstructor, superContract_eq hH hids]

lemma execAll_own (ρ : Arguments) (s : σ) :
    M.execAll setting [.modifierOrFunctionCode f (heightOf setting fs, parametersSize setting f),
        .popStackSlots (parametersSize setting f)] (stackOf setting ρ (fs ++ [f])) s =
      (M.run f (argumentsOf setting ρ f) s).map fun _ => stackOf setting ρ fs := by
  have hslot : ((stackOf setting ρ (fs ++ [f])).drop (heightOf setting fs)).take
      (parametersSize setting f) = argumentsOf setting ρ f := by
    rw [stackOf_append, stackOf_cons, stackOf_nil, append_nil,
      drop_left' (length_stackOf setting), take_of_length_le (length_argumentsOf setting).le]
  have htake : (stackOf setting ρ (fs ++ [f])).take
      ((stackOf setting ρ (fs ++ [f])).length - parametersSize setting f) = stackOf setting ρ fs := by
    rw [length_stackOf, heightOf_append, heightOf_singleton, Nat.add_sub_cancel, stackOf_append,
      take_left' (length_stackOf setting)]
  rw [execAll, exec, hslot]
  cases M.run f (argumentsOf setting ρ f) s with
  | ok _ s =>
    rw [map_ok, bind_ok, execAll_singleton, exec, htake]
    rfl
  | halt _ _ => rfl
  | timeout => rfl

lemma execAll_visitConstructor {n : ℕ} (context : Context)
    {before after : List (ContractDefinition T E)} {scope : ContractDefinition T E}
    (hH : setting.inheritanceHierarchy = before ++ scope :: after)
    (hids : (setting.inheritanceHierarchy.map (·.id)).Nodup) (hn : after.length < n)
    (hcs : after.filterMap (·.constructor) = cs) (hchain : Chain setting contract (fs ++ f :: cs))
    (hown : ∀ c ∈ cs, contract.constructor.any (·.id = c.id) = false)
    (hdeposit : context.deposit = heightOf setting (fs ++ [f]))
    (hpositioned : Positioned setting context.localVariables fs) :
    ∃ code, visitConstructor setting n context scope f = .ok code ∧
      ∀ (M : CreationMachine T E η σ) ρ s,
        M.execAll setting code (stackOf setting ρ (fs ++ [f])) s =
          (M.bindAll setting contract cs ρ s).bind fun ρ s =>
            (M.runAll setting ρ (cs.reverse ++ [f]) s).map fun _ => stackOf setting ρ fs := by
  induction n generalizing context before scope after f fs cs with
  | zero => cases hn
  | succ n ih =>
    have hsize := hchain.size f (mem_append_right _ mem_cons_self)
    have hnodup : ((fs ++ [f]).map (·.id)).Nodup := by
      have hnodup := hchain.nodup
      rw [← singleton_append, ← append_assoc, map_append] at hnodup
      exact (nodup_append'.mp hnodup).1
    have hnot : f.id ∉ fs.map (·.id) := by
      rw [map_append, nodup_append'] at hnodup
      exact fun hmem => hnodup.2.2 hmem mem_cons_self
    have hslots : context.deposit - parametersSize setting f = heightOf setting fs := by
      rw [hdeposit, heightOf_append, heightOf_singleton, Nat.add_sub_cancel]
    have hdeep : ¬parametersSize setting f + 1 > 17 := by omega
    rw [visitConstructor, nextConstructor_eq hH hids, hslots]
    cases hnext : after.findSome? fun c => c.constructor.map (c, ·) with
    | none =>
      obtain rfl : cs = [] := by
        rw [← hcs, filterMap_eq_nil_iff]
        intro c hc
        exact Option.map_eq_none_iff.mp (findSome?_eq_none_iff.mp hnext c hc)
      refine ⟨_, if_neg hdeep, fun M ρ s => ?_⟩
      rw [nil_append, execAll_own, bindAll, bind_ok, reverse_nil,
        nil_append, runAll]
      cases M.run f (argumentsOf setting ρ f) s <;> rfl
    | some p =>
      obtain ⟨scope', c⟩ := p
      obtain ⟨mid, d, after', rfl, hd, hmid⟩ := findSome?_eq_some_iff.mp hnext
      obtain ⟨c', hc, heq⟩ := Option.map_eq_some_iff.mp hd
      cases heq
      have hmid' : mid.filterMap (·.constructor) = [] :=
        filterMap_eq_nil_iff.mpr fun c hc => Option.map_eq_none_iff.mp (hmid c hc)
      obtain rfl : cs = c :: after'.filterMap (·.constructor) := by
        rw [← hcs, filterMap_append, hmid', filterMap_cons, hc]
        rfl
      rw [← singleton_append, ← append_assoc] at hchain
      obtain ⟨arguments, harguments, hrunArguments⟩ := execAll_baseArgumentsCode
        (η := η) (σ := σ) ⟨context.deposit, (f.id, heightOf setting fs, parametersSize setting f) ::
          context.localVariables⟩ hchain (hpositioned.snoc hnot) (hown c mem_cons_self)
      have hlength : after'.length < n := by
        simp only [length_append, length_cons] at hn
        omega
      have hH' : setting.inheritanceHierarchy = (before ++ scope :: mid) ++ scope' :: after' := by
        rw [hH, append_assoc, cons_append]
      obtain ⟨code, hcode, hrun⟩ := ih ⟨context.deposit + parametersSize setting c,
          (f.id, heightOf setting fs, parametersSize setting f) :: context.localVariables⟩ hH'
        hlength rfl hchain (fun c hc => hown c (mem_cons_of_mem _ hc))
        (by rw [hdeposit, ← heightOf_singleton setting, ← heightOf_append])
        (hpositioned.snoc hnot)
      refine ⟨arguments ++ code ++ [.modifierOrFunctionCode f (heightOf setting fs,
        parametersSize setting f), .popStackSlots (parametersSize setting f)], ?_, fun M ρ s => ?_⟩
      · simp only [harguments, hcode, Except.bind, Except.map, if_neg hdeep]
      · rw [execAll_append, execAll_append, hrunArguments, bindAll]
        cases M.bindArguments setting contract c ρ s with
        | ok ρ s =>
          rw [map_ok, bind_ok, bind_ok, hrun, bind_assoc]
          refine bind_congr _ fun ρ s _ => ?_
          rw [reverse_cons, M.runAll_append setting ρ _ [f]]
          cases M.runAll setting ρ ((after'.filterMap (·.constructor)).reverse ++ [c]) s with
          | ok _ s =>
            rw [map_ok, bind_ok, bind_ok, execAll_own, runAll]
            cases M.run f (argumentsOf setting ρ f) s <;> rfl
          | halt _ _ => rfl
          | timeout => rfl
        | halt _ _ => rfl
        | timeout => rfl

end

/-! ### Where the arguments come from -/

section

variable {contracts bases : List (ContractDefinition T E)} {constructor : ℕ}
  {annotated : BaseConstructorArguments E}

/-- Arguments that are given at a constructor are for a base contract it names. -/
def GivenAt (contracts : List (ContractDefinition T E)) (k g : ℕ) : Prop :=
  ∃ d ∈ contracts, ∃ f, d.constructor = some f ∧ f.id = g ∧
    ∃ base arguments, .baseConstructor base arguments ∈ f.modifiers ∧
      ∃ c, constructorOf contracts base = some c ∧ c.id = k

/-- All arguments are given somewhere. -/
def AllGiven (contracts : List (ContractDefinition T E))
    (annotated : BaseConstructorArguments E) : Prop :=
  ∀ a ∈ annotated, ∀ g ∈ a.2.constructor, GivenAt contracts a.1 g

lemma AllGiven.annotate (h : AllGiven contracts annotated) {k : ℕ} {arguments : BaseArguments E}
    (hk : ∀ g ∈ arguments.constructor, GivenAt contracts k g) :
    AllGiven contracts (annotateBaseConstructorArguments annotated k arguments).2 := by
  rw [annotateBaseConstructorArguments]
  split_ifs
  · exact h
  · intro a ha
    rcases mem_append.mp ha with ha | ha
    · exact h a ha
    · rw [mem_singleton.mp ha]
      exact hk

lemma AllGiven.annotateModifiers (h : AllGiven contracts annotated)
    {d : ContractDefinition T E} (hd : d ∈ contracts) {f : FunctionDefinition T E}
    (hf : d.constructor = some f) {invocations : List (ModifierInvocation E)}
    (hsubset : invocations ⊆ f.modifiers) :
    AllGiven contracts (annotateModifiers contracts f.id annotated invocations).2 := by
  induction invocations generalizing annotated with
  | nil => exact h
  | cons invocation invocations ih =>
    have hrest := List.Subset.trans (subset_cons_self _ _) hsubset
    match invocation with
    | .modifier _ _ | .baseConstructor _ none => exact ih h hrest
    | .baseConstructor base (some arguments) =>
      rw [ContractLevelChecker.annotateModifiers]
      dsimp only
      cases hc : constructorOf contracts base with
      | none => exact ih h hrest
      | some c =>
        refine ih (h.annotate fun g hg => ?_) hrest
        cases hg
        exact ⟨d, hd, f, hf, rfl, base, _, hsubset mem_cons_self, c, hc, rfl⟩

lemma AllGiven.annotateBaseContracts (h : AllGiven contracts annotated)
    (specifiers : List (InheritanceSpecifier E)) :
    AllGiven contracts (annotateBaseContracts contracts annotated specifiers).2 := by
  induction specifiers generalizing annotated with
  | nil => exact h
  | cons specifier specifiers ih =>
    obtain ⟨base, arguments⟩ := specifier
    refine ih ?_
    split
    · exact h.annotate (by rintro _ ⟨⟩)
    · exact h

lemma AllGiven.annotateContracts (h : AllGiven contracts annotated) (hbases : bases ⊆ contracts) :
    AllGiven contracts (annotateContracts contracts annotated bases).2 := by
  induction bases generalizing annotated with
  | nil => exact h
  | cons d bases ih =>
    rw [ContractLevelChecker.annotateContracts]
    dsimp only
    refine ih (AllGiven.annotateBaseContracts ?_ _)
      (List.Subset.trans (subset_cons_self _ _) hbases)
    cases hf : d.constructor with
    | none => exact h
    | some f =>
      exact h.annotateModifiers (hbases mem_cons_self) hf (List.Subset.refl _)

lemma allGiven_baseConstructorArguments :
    AllGiven contracts (baseConstructorArguments contracts) :=
  AllGiven.annotateContracts (by exact nofun) (List.Subset.refl _)

end

end CreationMachine

/-- A contract can be deployed: identifiers are distinct, base constructors have as many arguments as
parameters, constructors only invoke those of their bases, and all arguments fit on the stack. -/
structure Deployable (sizeOnStack : ParameterType T → ℕ)
    (contracts : List (ContractDefinition T E)) : Prop where
  nodup : (contracts.map (·.id)).Nodup
  constructors : ((contracts.filterMap (·.constructor)).map (·.id)).Nodup
  implemented : unimplementedConstructors contracts = []
  arity : ∀ c ∈ contracts.filterMap (·.constructor),
    ∀ a ∈ (baseConstructorArguments contracts).lookup c.id,
      a.arguments.length = c.parameters.length
  bases : ∀ d ∈ contracts, ∀ f ∈ d.constructor, ∀ invocation ∈ f.modifiers,
    ∀ base ∈ invocation.contract,
      base ∈ (CompilerContext.superContract contracts d).map (·.id)
  size : ∀ c ∈ contracts.filterMap (·.constructor), (c.parameters.map sizeOnStack).sum ≤ 16

namespace CreationMachine

section

variable {sizeOnStack : ParameterType T → ℕ} {contract : ContractDefinition T E}
  {contracts bases : List (ContractDefinition T E)}

lemma mem_of_append_eq {α : Type*} {xs ys zs ws : List α} {x y : α}
    (h : xs ++ x :: ys = zs ++ y :: ws) (hnodup : (zs ++ y :: ws).Nodup) (hy : y ∈ ys) : x ∈ zs := by
  have hnot : y ∉ ws := (nodup_cons.mp (nodup_append'.mp hnodup).2.1).1
  rcases append_eq_append_iff.mp h with ⟨as, rfl, hrest⟩ | ⟨bs, rfl, hrest⟩
  · cases as with
    | nil =>
      obtain ⟨-, rfl⟩ := List.cons.inj hrest
      exact absurd hy hnot
    | cons a as =>
      obtain ⟨rfl, -⟩ := List.cons.inj hrest
      exact mem_append_right _ mem_cons_self
  · cases bs with
    | nil =>
      obtain ⟨-, rfl⟩ := List.cons.inj hrest
      exact absurd hy hnot
    | cons b bs =>
      obtain ⟨-, rfl⟩ := List.cons.inj hrest
      exact absurd (mem_append_right _ (mem_cons_of_mem _ hy)) hnot

/-- A contract that can be deployed has arguments for all constructors of its bases. -/
lemma chain_of_deployable (h : Deployable sizeOnStack (contract :: bases)) :
    Chain ⟨sizeOnStack, contract :: bases, baseConstructorArguments (contract :: bases)⟩ contract
      ((contract :: bases).filterMap (·.constructor)) where
  constructors := rfl
  nodup := h.constructors
  size := h.size
  supplied before f after heq hown hparameters := by
    have hf : f ∈ (contract :: bases).filterMap (·.constructor) := by
      rw [heq]
      exact mem_append_right _ mem_cons_self
    have htail : f ∈ bases.filterMap (·.constructor) := by
      obtain ⟨d, hd, hdf⟩ := mem_filterMap.mp hf
      rcases mem_cons.mp hd with rfl | hd
      · rw [hdf] at hown
        simp at hown
      · exact mem_filterMap.mpr ⟨d, hd, hdf⟩
    have hsome := filter_eq_nil_iff.mp h.implemented f htail
    simp only [hparameters, Bool.and_eq_true, ne_eq, not_false_eq_true, decide_true, true_and,
      Option.isNone_iff_eq_none, ← Option.isSome_iff_ne_none] at hsome
    obtain ⟨arguments, hlookup⟩ := Option.isSome_iff_exists.mp hsome
    refine ⟨arguments, hlookup, h.arity f hf arguments hlookup, fun g hg => ?_⟩
    obtain ⟨l, l', hl, -⟩ := lookup_eq_some_iff.mp hlookup
    have hmem : (f.id, arguments) ∈ baseConstructorArguments (contract :: bases) := by
      rw [hl]
      exact mem_append_right _ mem_cons_self
    obtain ⟨d, hd, f', hf', rfl, base, _, hinvocation, c, hc, hid⟩ :=
      allGiven_baseConstructorArguments _ hmem g hg
    obtain ⟨e, he, hec⟩ := Option.bind_eq_some_iff.mp hc
    have hemem := mem_of_find?_eq_some he
    obtain rfl : c = f := inj_on_of_nodup_map h.constructors
      (mem_filterMap.mpr ⟨e, hemem, hec⟩) hf hid
    have hbase := h.bases d hd f' hf' _ hinvocation base rfl
    obtain ⟨derived, rest, hsplit⟩ := append_of_mem hd
    rw [superContract_eq hsplit h.nodup] at hbase
    obtain ⟨e', he', hid'⟩ := mem_map.mp hbase
    have hide := find?_some (p := fun e : ContractDefinition T E => decide (e.id = base)) he
    have he'mem : e' ∈ contract :: bases := by
      rw [hsplit]
      exact mem_append_right _ (mem_cons_of_mem _ he')
    obtain rfl : e' = e := inj_on_of_nodup_map h.nodup he'mem hemem
      (hid'.trans (of_decide_eq_true hide).symm)
    have hnodup := h.constructors.of_map
    rw [heq] at hnodup
    rw [hsplit, filterMap_append, filterMap_cons, hf'] at heq
    exact mem_map_of_mem
      (mem_of_append_eq heq hnodup (mem_filterMap.mpr ⟨e', he', hec⟩))

end

end CreationMachine

end Polynomial
