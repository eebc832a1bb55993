import Polc.Codegen.ContractCompiler.Properties

/-!
# Creation of a contract

The creation code initialises the state variables and runs the constructors as a contract is
constructed, but it only checks the call value if the contract has a constructor of its own or there
is none at all.
-/

namespace Polynomial

open ContractLevelChecker ContractCompiler Semantics List Option Result

namespace CreationMachine

variable {T E : Type*} {sizeOnStack : ParameterType T → ℕ} {contract : ContractDefinition T E}
  {bases : List (ContractDefinition T E)}

/-- The setting in which the code of a contract is made. -/
def settingOf (sizeOnStack : ParameterType T → ℕ) (contracts : List (ContractDefinition T E)) :
    Setting T E :=
  ⟨sizeOnStack, contracts, baseConstructorArguments contracts⟩

section

variable {η σ : Type*} (M : CreationMachine T E η σ) (setting : Setting T E)

lemma create_initialisation (contracts : List (ContractDefinition T E))
    (codes : List (CreationCode T E)) (s : σ) :
    M.create setting (contracts.map .initializeStateVariables ++ codes) s =
      (M.initialiseAll contracts s).bind fun _ => M.create setting codes := by
  rw [create, execAll_append, execAll_initialisation]
  cases M.initialiseAll contracts s <;> rfl

lemma create_callValueCheck (codes : List (CreationCode T E)) (s : σ) :
    M.create setting (.callValueCheck :: codes) s =
      (M.checkCallValue s).bind fun _ => M.create setting codes := by
  rw [create, execAll, exec]
  cases M.checkCallValue s <;> rfl

lemma create_nil (s : σ) : M.create setting [] s = .ok () s := rfl

end

section

variable {η σ : Type*} {c : FunctionDefinition T E}

lemma any_id_eq_false (h : Deployable sizeOnStack (contract :: bases)) :
    ∀ c ∈ bases.filterMap (·.constructor), contract.constructor.any (·.id = c.id) = false := by
  intro c hc
  cases hown : contract.constructor with
  | none => rfl
  | some f =>
    have hnodup := h.constructors
    rw [filterMap_cons, hown] at hnodup
    refine decide_eq_false fun heq => (nodup_cons.mp hnodup).1 ?_
    show f.id ∈ _
    rw [heq]
    exact List.mem_map_of_mem hc

lemma exists_visitConstructor (h : Deployable sizeOnStack (contract :: bases))
    {before after : List (ContractDefinition T E)} {scope : ContractDefinition T E}
    (hsplit : contract :: bases = before ++ scope :: after)
    (hbefore : before.filterMap (·.constructor) = []) (hc : scope.constructor = some c) :
    ∃ code, visitConstructor (settingOf sizeOnStack (contract :: bases)) (contract :: bases).length
        ⟨parametersSize (settingOf sizeOnStack (contract :: bases)) c, []⟩ scope c = .ok code ∧
      ∀ (M : CreationMachine T E η σ) ρ s,
        M.execAll (settingOf sizeOnStack (contract :: bases)) code
            (argumentsOf (settingOf sizeOnStack (contract :: bases)) ρ c) s =
          (M.bindAll (settingOf sizeOnStack (contract :: bases)) contract
            (after.filterMap (·.constructor)) ρ s).bind fun ρ s =>
              (M.runAll (settingOf sizeOnStack (contract :: bases)) ρ
                ((after.filterMap (·.constructor)).reverse ++ [c]) s).map fun _ => [] := by
  have hchain := chain_of_deployable h
  rw [hsplit, filterMap_append, hbefore, filterMap_cons, hc, ← hsplit] at hchain
  have hsubset : ∀ c ∈ after.filterMap (·.constructor),
      contract.constructor.any (·.id = c.id) = false := by
    intro k hk
    refine any_id_eq_false h k ?_
    obtain ⟨d, hd, hdk⟩ := mem_filterMap.mp hk
    refine mem_filterMap.mpr ⟨d, ?_, hdk⟩
    cases before with
    | nil =>
      obtain ⟨-, rfl⟩ := List.cons.inj hsplit
      exact hd
    | cons b before =>
      obtain ⟨-, rfl⟩ := List.cons.inj hsplit
      exact mem_append_right _ (mem_cons_of_mem _ hd)
  have hlength : after.length < (contract :: bases).length := by
    rw [hsplit, length_append, length_cons]
    omega
  obtain ⟨code, hcode, hrun⟩ := execAll_visitConstructor (η := η) (σ := σ)
    ⟨parametersSize (settingOf sizeOnStack (contract :: bases)) c, []⟩ hsplit h.nodup hlength rfl
    hchain hsubset (heightOf_singleton _).symm (by rintro (_ | _) _ _ ⟨⟩)
  refine ⟨code, hcode, fun M ρ s => ?_⟩
  have hone := hrun M ρ s
  rw [nil_append, stackOf_cons, stackOf_nil, append_nil] at hone
  exact hone

lemma exists_appendConstructor (h : Deployable sizeOnStack (contract :: bases))
    (hc : contract.constructor = some c) :
    ∃ code, appendConstructor (settingOf sizeOnStack (contract :: bases)) contract c =
        .ok ((if c.isPayable then [] else [.callValueCheck]) ++ code) ∧
      ∀ (M : CreationMachine T E η σ) s,
        M.create (settingOf sizeOnStack (contract :: bases)) code s =
          (M.bindAll (settingOf sizeOnStack (contract :: bases)) contract
            ((contract :: bases).filterMap (·.constructor)) (fun _ _ => 0) s).bind fun ρ =>
              M.runAll (settingOf sizeOnStack (contract :: bases)) ρ
                ((contract :: bases).filterMap (·.constructor)).reverse := by
  obtain ⟨code, hcode, hrun⟩ := exists_visitConstructor (η := η) (σ := σ) h
    (nil_append _).symm rfl hc
  refine ⟨(if c.parameters = [] then [] else [.decodeArguments c]) ++ code, ?_, fun M s => ?_⟩
  · have hlength : (settingOf sizeOnStack (contract :: bases)).inheritanceHierarchy.length =
        (contract :: bases).length := rfl
    rw [appendConstructor, hlength, hcode, Except.map, append_assoc]
  have hown : contract.constructor.any (·.id = c.id) = true := by
    rw [hc]
    exact decide_eq_true rfl
  have hdecode : M.execAll (settingOf sizeOnStack (contract :: bases))
      (if c.parameters = [] then [] else [.decodeArguments c]) [] s =
      (M.bindArguments (settingOf sizeOnStack (contract :: bases)) contract c
        (fun _ _ => 0) s).map fun ρ =>
          argumentsOf (settingOf sizeOnStack (contract :: bases)) ρ c := by
    by_cases hparameters : c.parameters = []
    · have hnone : argumentsOf (settingOf sizeOnStack (contract :: bases)) (fun _ _ => 0) c = [] := by
        rw [argumentsOf, parametersSize, hparameters]
        rfl
      rw [bindArguments, if_pos hparameters, if_pos hparameters, map_ok, hnone, execAll]
    · rw [bindArguments, if_neg hparameters, if_neg hparameters, if_pos hown, execAll_singleton, exec]
      cases M.decode c s with
      | ok w s =>
        rw [map_ok, map_ok, map_ok, argumentsOf_update, nil_append]
      | halt _ _ => rfl
      | timeout => rfl
  rw [create, execAll_append, hdecode, filterMap_cons, hc]
  dsimp only
  rw [bindAll, reverse_cons]
  cases M.bindArguments (settingOf sizeOnStack (contract :: bases)) contract c (fun _ _ => 0) s with
  | ok ρ s =>
    rw [map_ok, bind_ok, bind_ok, hrun]
    cases M.bindAll (settingOf sizeOnStack (contract :: bases)) contract
      (bases.filterMap (·.constructor)) ρ s with
    | ok ρ s =>
      rw [bind_ok, bind_ok]
      cases M.runAll (settingOf sizeOnStack (contract :: bases)) ρ
        ((bases.filterMap (·.constructor)).reverse ++ [c]) s <;> rfl
    | halt _ _ => rfl
    | timeout => rfl
  | halt _ _ => rfl
  | timeout => rfl

lemma exists_appendBaseConstructor (h : Deployable sizeOnStack (contract :: bases))
    (hnone : contract.constructor = none) {scope : ContractDefinition T E}
    (hnext : CompilerContext.nextConstructor (contract :: bases) contract = some (scope, c)) :
    ∃ code, appendBaseConstructor (settingOf sizeOnStack (contract :: bases)) scope c = .ok code ∧
      ∀ (M : CreationMachine T E η σ) s,
        M.create (settingOf sizeOnStack (contract :: bases)) code s =
          (M.bindAll (settingOf sizeOnStack (contract :: bases)) contract
            ((contract :: bases).filterMap (·.constructor)) (fun _ _ => 0) s).bind fun ρ =>
              M.runAll (settingOf sizeOnStack (contract :: bases)) ρ
                ((contract :: bases).filterMap (·.constructor)).reverse := by
  rw [nextConstructor_eq (nil_append _).symm h.nodup] at hnext
  obtain ⟨mid, d, after, hsplit, hd, hmid⟩ := findSome?_eq_some_iff.mp hnext
  obtain ⟨c', hc, heq⟩ := map_eq_some_iff.mp hd
  cases heq
  have hmid' : (contract :: mid).filterMap (·.constructor) = [] := by
    rw [filterMap_cons, hnone, filterMap_eq_nil_iff]
    exact fun c hc => map_eq_none_iff.mp (hmid c hc)
  have hsplit' : contract :: bases = (contract :: mid) ++ scope :: after := by
    rw [hsplit, cons_append]
  have hconstructors : (contract :: bases).filterMap (·.constructor) =
      c :: after.filterMap (·.constructor) := by
    rw [hsplit', filterMap_append, hmid', filterMap_cons, hc]
    rfl
  have hown : contract.constructor.any (·.id = c.id) = false := by
    rw [hnone]
    rfl
  have hchain := chain_of_deployable h
  rw [hconstructors, ← nil_append (c :: _)] at hchain
  obtain ⟨arguments, harguments, hrunArguments⟩ := execAll_baseArgumentsCode (η := η) (σ := σ)
    ⟨0, []⟩ hchain (by rintro (_ | _) _ _ ⟨⟩) hown
  obtain ⟨code, hcode, hrun⟩ := exists_visitConstructor (η := η) (σ := σ) h hsplit' hmid' hc
  refine ⟨arguments ++ code, ?_, fun M s => ?_⟩
  · have hlength : (settingOf sizeOnStack (contract :: bases)).inheritanceHierarchy.length =
        (contract :: bases).length := rfl
    have harguments' : baseArgumentsCode (settingOf sizeOnStack (contract :: bases)) ⟨0, []⟩ c =
        .ok arguments := harguments
    rw [appendBaseConstructor, hlength, hcode, harguments']
    rfl
  · have hbind := hrunArguments M (fun _ _ => 0) s
    simp only [stackOf_nil, nil_append, stackOf_cons, append_nil] at hbind
    rw [create, execAll_append, settingOf, hbind, ← settingOf, hconstructors, bindAll,
      reverse_cons]
    cases M.bindArguments (settingOf sizeOnStack (contract :: bases)) contract c
      (fun _ _ => 0) s with
    | ok ρ s =>
      rw [map_ok, bind_ok, bind_ok, hrun]
      cases M.bindAll (settingOf sizeOnStack (contract :: bases)) contract
        (after.filterMap (·.constructor)) ρ s with
      | ok ρ s =>
        rw [bind_ok, bind_ok]
        cases M.runAll (settingOf sizeOnStack (contract :: bases)) ρ
          ((after.filterMap (·.constructor)).reverse ++ [c]) s <;> rfl
      | halt _ _ => rfl
      | timeout => rfl
    | halt _ _ => rfl
    | timeout => rfl

/-- The run of the creation code: it leaves out the check of the call value if the contract only
inherits constructors. -/
lemma exists_appendInitAndConstructorCode (h : Deployable sizeOnStack (contract :: bases)) :
    ∃ code, appendInitAndConstructorCode (settingOf sizeOnStack (contract :: bases)) contract =
        .ok code ∧
      ∀ (M : CreationMachine T E η σ) s,
        M.create (settingOf sizeOnStack (contract :: bases)) code s =
          (M.initialiseAll (contract :: bases).reverse s).bind fun _ s =>
            (if contract.constructor.any (·.isPayable) ∨
                (contract.constructor = none ∧ bases.filterMap (·.constructor) ≠ []) then .ok () s
              else M.checkCallValue s).bind fun _ s =>
              (M.bindAll (settingOf sizeOnStack (contract :: bases)) contract
                ((contract :: bases).filterMap (·.constructor)) (fun _ _ => 0) s).bind fun ρ =>
                  M.runAll (settingOf sizeOnStack (contract :: bases)) ρ
                    ((contract :: bases).filterMap (·.constructor)).reverse := by
  have hhierarchy : (settingOf sizeOnStack (contract :: bases)).inheritanceHierarchy =
      contract :: bases := rfl
  rw [appendInitAndConstructorCode, hhierarchy]
  cases hc : contract.constructor with
  | some c =>
    obtain ⟨code, hcode, hrun⟩ := exists_appendConstructor (η := η) (σ := σ) h hc
    refine ⟨_, by dsimp only; rw [hcode, Except.map], fun M s => ?_⟩
    rw [create_initialisation]
    refine bind_congr _ fun _ s _ => ?_
    by_cases hpayable : c.isPayable = true
    · rw [if_pos hpayable, if_pos (.inl hpayable), nil_append, hrun, bind_ok]
    · have hnot : ¬((some c).any (·.isPayable) = true ∨
          (some c = none ∧ bases.filterMap (·.constructor) ≠ [])) := by
        rintro (hor | ⟨hor, -⟩)
        · exact hpayable hor
        · cases hor
      rw [if_neg hpayable, if_neg hnot, singleton_append, create_callValueCheck]
      exact bind_congr _ fun _ s _ => hrun M s
  | none =>
    cases hnext : CompilerContext.nextConstructor (contract :: bases) contract with
    | none =>
      have hbases : bases.filterMap (·.constructor) = [] := by
        rw [nextConstructor_eq (nil_append _).symm h.nodup] at hnext
        rw [filterMap_eq_nil_iff]
        exact fun c hc => map_eq_none_iff.mp (findSome?_eq_none_iff.mp hnext c hc)
      refine ⟨_, rfl, fun M s => ?_⟩
      rw [create_initialisation]
      refine bind_congr _ fun _ s _ => ?_
      have hnot : ¬((none : Option (FunctionDefinition T E)).any (·.isPayable) = true ∨
          ((none : Option (FunctionDefinition T E)) = none ∧
            bases.filterMap (·.constructor) ≠ [])) := by
        rintro (hor | ⟨-, hor⟩)
        · cases hor
        · exact hor hbases
      rw [if_neg hnot, create_callValueCheck, filterMap_cons, hc, hbases]
      rfl
    | some p =>
      obtain ⟨scope, c⟩ := p
      obtain ⟨code, hcode, hrun⟩ := exists_appendBaseConstructor (η := η) (σ := σ) h hc hnext
      have hbases : bases.filterMap (·.constructor) ≠ [] := by
        rw [nextConstructor_eq (nil_append _).symm h.nodup] at hnext
        obtain ⟨d, hd, hdc⟩ := exists_of_findSome?_eq_some hnext
        obtain ⟨c', hc', -⟩ := map_eq_some_iff.mp hdc
        exact ne_nil_of_mem (mem_filterMap.mpr ⟨d, hd, hc'⟩)
      refine ⟨_, by dsimp only; rw [hcode, Except.map], fun M s => ?_⟩
      rw [create_initialisation]
      refine bind_congr _ fun _ s _ => ?_
      rw [if_pos (.inr ⟨rfl, hbases⟩), bind_ok]
      exact hrun M s

end

/-- A machine on which nothing stops. -/
def quietMachine (callValue : Sof.Word) : CreationMachine T E Unit Unit where
  callValue := callValue
  reverted := ()
  initialise _ _ := .ok () ()
  decode _ _ := .ok (fun _ => 0) ()
  evaluate _ _ _ _ := .ok (fun _ => 0, fun _ => 0) ()
  run _ _ _ := .ok () ()

section

variable (setting : Setting T E) (callValue : Sof.Word)

lemma initialiseAll_quiet (contracts : List (ContractDefinition T E)) :
    (quietMachine callValue).initialiseAll contracts () = .ok () () := by
  induction contracts with
  | nil => rfl
  | cons contract contracts ih => exact ih

lemma evaluateAll_quiet (owner : Option (FunctionDefinition T E)) (es : List (E × ParameterType T))
    (ρ : Arguments) :
    ∃ r, (quietMachine callValue).evaluateAll setting owner es ρ () = .ok r () := by
  induction es generalizing ρ with
  | nil => exact ⟨_, rfl⟩
  | cons e es ih =>
    cases owner with
    | none =>
      obtain ⟨r, hr⟩ := ih ρ
      exact ⟨_, by rw [evaluateAll, evaluateIn, quietMachine, map_ok, bind_ok,
        ← quietMachine, hr, map_ok]⟩
    | some f =>
      obtain ⟨r, hr⟩ := ih (Function.update ρ f.id fun _ => 0)
      exact ⟨_, by rw [evaluateAll, evaluateIn, quietMachine, map_ok, bind_ok,
        ← quietMachine, hr, map_ok]⟩

lemma bindAll_quiet (contract : ContractDefinition T E) (fs : List (FunctionDefinition T E))
    (ρ : Arguments) :
    ∃ ρ', (quietMachine callValue).bindAll setting contract fs ρ () = .ok ρ' () := by
  induction fs generalizing ρ with
  | nil => exact ⟨ρ, rfl⟩
  | cons f fs ih =>
    have hbind : ∃ ρ', (quietMachine callValue).bindArguments setting contract f ρ () =
        .ok ρ' () := by
      rw [bindArguments]
      split_ifs
      · exact ⟨_, rfl⟩
      · exact ⟨_, rfl⟩
      · cases setting.baseArguments.lookup f.id with
        | none => exact ⟨_, rfl⟩
        | some arguments =>
          obtain ⟨r, hr⟩ := evaluateAll_quiet setting callValue
            (arguments.constructor.bind fun id =>
              (setting.inheritanceHierarchy.filterMap (·.constructor)).find? (·.id = id))
            (arguments.arguments.zip f.parameters) ρ
          dsimp only
          rw [hr]
          exact ⟨_, rfl⟩
    obtain ⟨ρ₁, hρ₁⟩ := hbind
    rw [bindAll, hρ₁]
    exact ih ρ₁

lemma runAll_quiet (fs : List (FunctionDefinition T E)) (ρ : Arguments) :
    (quietMachine callValue).runAll setting ρ fs () = .ok () () := by
  induction fs with
  | nil => rfl
  | cons f fs ih => exact ih

end

/-- The creation code of a contract that can be deployed initialises the state variables, checks the
call value and runs each constructor once, as the contract is constructed, if no call value comes
with it; and for every call value iff the contract has a constructor of its own or its bases have
none. -/
theorem appendInitAndConstructorCode_constructs_iff
    (h : Deployable sizeOnStack (contract :: bases)) :
    ∃ code, appendInitAndConstructorCode (settingOf sizeOnStack (contract :: bases)) contract =
        .ok code ∧
      (∀ (η σ : Type) (M : CreationMachine T E η σ) (s : σ), M.callValue = 0 →
        M.create (settingOf sizeOnStack (contract :: bases)) code s =
          M.construct (settingOf sizeOnStack (contract :: bases)) contract s) ∧
      ((∀ (η σ : Type) (M : CreationMachine T E η σ) (s : σ),
          M.create (settingOf sizeOnStack (contract :: bases)) code s =
            M.construct (settingOf sizeOnStack (contract :: bases)) contract s) ↔
        contract.constructor ≠ none ∨ bases.filterMap (·.constructor) = []) := by
  obtain ⟨code, hcode, -⟩ := exists_appendInitAndConstructorCode (η := Unit) (σ := Unit) h
  have hrun (η σ : Type) (M : CreationMachine T E η σ) (s : σ) : _ :=
    let ⟨code', hcode', hrun'⟩ := exists_appendInitAndConstructorCode (η := η) (σ := σ) h
    (Except.ok.inj (hcode.symm.trans hcode')) ▸ hrun' M s
  refine ⟨code, hcode, fun η σ M s hvalue => ?_, fun hall => ?_, fun hcondition η σ M s => ?_⟩
  · rw [hrun]
    refine bind_congr _ fun _ s _ => ?_
    have hcheck : M.checkCallValue s = .ok () s := if_pos hvalue
    rw [hcheck, ite_self, ite_self]
    rfl
  · by_contra hnot
    rw [not_or, not_not] at hnot
    have hquiet := hall Unit Unit (quietMachine 1) ()
    obtain ⟨ρ, hρ⟩ := bindAll_quiet
      (settingOf sizeOnStack (contract :: bases)) 1 contract
      ((contract :: bases).filterMap (·.constructor)) fun _ _ => 0
    have hrevert : (quietMachine 1).construct (settingOf sizeOnStack (contract :: bases)) contract ()
        = .halt () () := by
      show ((quietMachine 1).initialiseAll (contract :: bases).reverse ()).bind _ = _
      rw [initialiseAll_quiet, bind_ok, hnot.1]
      rfl
    rw [hrun, hrevert, initialiseAll_quiet, bind_ok, if_pos (.inr hnot), bind_ok,
      hρ, bind_ok, runAll_quiet] at hquiet
    cases hquiet
  · rw [hrun]
    refine bind_congr _ fun _ s _ => ?_
    have hnot : ¬(contract.constructor = none ∧ bases.filterMap (·.constructor) ≠ []) :=
      fun hand => hcondition.elim (fun h => h hand.1) hand.2
    simp only [hnot, or_false]
    rfl

/-- `contract A { constructor(uint256 x) public {} }` -/
def baseWithConstructor : ContractDefinition String String :=
  ⟨0, .contract, [],
    [⟨1, "", true, .public, .nonPayable, [.value "uint256"], [], [], by decide⟩], []⟩

/-- `contract B is A { constructor(uint256 y) A(y) payable public {} }` -/
def derivedWithConstructor : ContractDefinition String String :=
  ⟨2, .contract, [⟨0, none⟩], [⟨3, "", true, .public, .payable, [.value "uint256"], [],
    [.baseConstructor 0 (some ["y"])], by decide⟩], []⟩

theorem appendInitAndConstructorCode_constructs_iff_twoConstructors :
    ∃ code, appendInitAndConstructorCode
        (settingOf (fun _ => 1) [derivedWithConstructor, baseWithConstructor])
        derivedWithConstructor = .ok code ∧
      (∀ (η σ : Type) (M : CreationMachine String String η σ) (s : σ), M.callValue = 0 →
        M.create (settingOf (fun _ => 1) [derivedWithConstructor, baseWithConstructor]) code s =
          M.construct (settingOf (fun _ => 1) [derivedWithConstructor, baseWithConstructor])
            derivedWithConstructor s) ∧
      ((∀ (η σ : Type) (M : CreationMachine String String η σ) (s : σ),
          M.create (settingOf (fun _ => 1) [derivedWithConstructor, baseWithConstructor]) code s =
            M.construct (settingOf (fun _ => 1) [derivedWithConstructor, baseWithConstructor])
              derivedWithConstructor s) ↔
        derivedWithConstructor.constructor ≠ none ∨
          [baseWithConstructor].filterMap (·.constructor) = []) :=
  appendInitAndConstructorCode_constructs_iff
    ⟨by decide, by decide, by decide, by decide, by decide, by decide⟩

/-- `contract A { constructor() public {} }` -/
def baseOnlyConstructor : ContractDefinition String String :=
  ⟨0, .contract, [],
    [⟨1, "", true, .public, .nonPayable, [], [], [], allowedDataLocations_nil⟩], []⟩

/-- `contract B is A {}` -/
def derivedOnly : ContractDefinition String String := ⟨2, .contract, [⟨0, none⟩], [], []⟩

/-- A call value is accepted although no constructor is payable. -/
theorem appendInitAndConstructorCode_callValueAccepted :
    Deployable (fun _ => 1) [derivedOnly, baseOnlyConstructor] ∧
      ∃ code, appendInitAndConstructorCode
          (settingOf (fun _ => 1) [derivedOnly, baseOnlyConstructor]) derivedOnly = .ok code ∧
        (quietMachine 1).create (settingOf (fun _ => 1) [derivedOnly, baseOnlyConstructor]) code ()
          = .ok () () ∧
        (quietMachine 1).construct (settingOf (fun _ => 1) [derivedOnly, baseOnlyConstructor])
          derivedOnly () = .halt () () :=
  ⟨⟨by decide, by decide, by decide, by decide, by decide, by decide⟩, _, rfl, rfl, rfl⟩

end CreationMachine

end Polynomial
