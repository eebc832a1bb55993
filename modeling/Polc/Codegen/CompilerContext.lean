import Polc.Analysis.ContractLevelChecker

/-!
# Lookup in the inheritance hierarchy

`libpolynomial/codegen/CompilerContext.cpp` looks for functions, modifiers and constructors in the
linearized base contracts, from derived to base.
-/

namespace Polynomial

open ContractLevelChecker List Option

variable {T E : Type*}

namespace CompilerContext

/-- The bases that follow on the contract. -/
def superContract (inheritanceHierarchy : List (ContractDefinition T E))
    (contract : ContractDefinition T E) : List (ContractDefinition T E) :=
  (inheritanceHierarchy.dropWhile (·.id ≠ contract.id)).tail

/-- The next constructor in the hierarchy, with the contract that defines it. -/
def nextConstructor (inheritanceHierarchy : List (ContractDefinition T E))
    (contract : ContractDefinition T E) :
    Option (ContractDefinition T E × FunctionDefinition T E) :=
  (superContract inheritanceHierarchy contract).findSome? fun c => c.constructor.map (c, ·)

variable [DecidableEq T]

/-- The function has the name of `f` and takes its parameters. -/
def hasSignatureOf (g f : FunctionDefinition T E) : Bool :=
  g.name = f.name && !g.isConstructor && g.callableParameters = f.parameters

/-- The first function with the signature of `f` from the contract on where the search starts. -/
def findFunction (searchStart : List (ContractDefinition T E)) (f : FunctionDefinition T E) :
    Option (FunctionDefinition T E) :=
  searchStart.findSome? fun contract => contract.definedFunctions.find? (hasSignatureOf · f)

/-- The function that is called for `f`, which is defined in the contract `scope`. -/
def resolveVirtualFunction (inheritanceHierarchy : List (ContractDefinition T E))
    (scope : ContractDefinition T E) (f : FunctionDefinition T E) :
    Option (FunctionDefinition T E) :=
  if scope.isLibrary then some f else findFunction inheritanceHierarchy f

/-- The function that is called for `super.f` in the code of the contract. -/
def superFunction (inheritanceHierarchy : List (ContractDefinition T E))
    (contract : ContractDefinition T E) (f : FunctionDefinition T E) :
    Option (FunctionDefinition T E) :=
  findFunction (superContract inheritanceHierarchy contract) f

/-- The modifier that runs for the one with the name, which the contract `scope` defines. -/
def resolveVirtualFunctionModifier (inheritanceHierarchy : List (ContractDefinition T E))
    (scope : ContractDefinition T E) (m : ModifierDefinition T) : Option (ModifierDefinition T) :=
  if scope.isLibrary then some m
  else inheritanceHierarchy.findSome? (·.functionModifiers.find? (·.name = m.name))

end CompilerContext

variable [DecidableEq T]

/-! ### What a call means -/

/-- A linearized hierarchy that the checks of all its contracts accept. -/
structure AcceptedHierarchy (contracts : List (ContractDefinition T E)) : Prop where
  nodup : (contracts.flatMap (·.definedFunctions)).Nodup
  /-- Libraries cannot be inherited from. -/
  bases : ∀ contract ∈ contracts.tail, contract.isLibrary = false
  duplicates : ∀ contract ∈ contracts, checkDuplicateFunctions contract = []
  overrides : checkIllegalOverrides contracts = []

/-- The functions that name resolution finds in a contract, with the contracts that define them. -/
inductive Found (contract : ContractDefinition T E) (bases : List (ContractDefinition T E)) :
    ContractDefinition T E → FunctionDefinition T E → Prop where
  | own {f} (hf : f ∈ contract.definedFunctions) (h : f.isVisibleInContract = true) :
    Found contract bases contract f
  | inherited {scope f} (hscope : scope ∈ bases) (hf : f ∈ scope.definedFunctions)
    (h : f.isVisibleInDerivedContracts = true) : Found contract bases scope f

namespace Found

variable {contract scope : ContractDefinition T E} {bases : List (ContractDefinition T E)}
  {f : FunctionDefinition T E}

omit [DecidableEq T]

lemma isVisibleInContract (h : Found contract bases scope f) : f.isVisibleInContract := by
  cases h with
  | own _ h => exact h
  | inherited _ _ h => exact (Bool.and_eq_true_iff.mp h).1

lemma mem (h : Found contract bases scope f) :
    scope ∈ contract :: bases ∧ f ∈ scope.definedFunctions := by
  cases h with
  | own hf _ => exact ⟨mem_cons_self, hf⟩
  | inherited hscope hf _ => exact ⟨mem_cons_of_mem _ hscope, hf⟩

lemma of_private (h : Found contract bases scope f) (hf : f.visibility = .private) :
    scope = contract := by
  cases h with
  | own _ _ => rfl
  | inherited _ _ h => simp [FunctionDefinition.isVisibleInDerivedContracts, hf] at h

end Found

/-- A function overrides itself, and the ones of base contracts with its signature; private
functions neither override others nor are overridden. -/
def FunctionDefinition.Overrides (g f : FunctionDefinition T E) : Prop :=
  g = f ∨ (g.visibility ≠ .private ∧ f.visibility ≠ .private ∧
    CompilerContext.hasSignatureOf g f = true)

/-- `g` is the most derived definition among those that override `f`. -/
def MostDerived (contracts : List (ContractDefinition T E)) (f g : FunctionDefinition T E) : Prop :=
  ∃ derived contract bases, contracts = derived ++ contract :: bases ∧
    g ∈ contract.definedFunctions ∧ g.Overrides f ∧
    (∃ scope ∈ contract :: bases, f ∈ scope.definedFunctions) ∧
    ∀ c ∈ derived, ∀ h ∈ c.definedFunctions, ¬h.Overrides f

namespace CompilerContext

section

variable {f g : FunctionDefinition T E} {contract scope : ContractDefinition T E}
  {contracts derived bases : List (ContractDefinition T E)}

lemma hasSignatureOf_iff : hasSignatureOf g f ↔
    g.name = f.name ∧ g.isConstructor = false ∧ g.callableParameters = f.parameters := by
  simp [hasSignatureOf, and_assoc]

lemma hasSignatureOf_self (h : f.isVisibleInContract) : hasSignatureOf f f := by
  simp only [FunctionDefinition.isVisibleInContract, Bool.and_eq_true, decide_eq_true_eq,
    Bool.not_eq_true'] at h
  exact hasSignatureOf_iff.mpr
    ⟨rfl, h.1.2, FunctionDefinition.callableParameters_of_ne_external h.1.1⟩

lemma eq_of_hasSignatureOf (hduplicates : checkDuplicateFunctions contract = [])
    (hf : f ∈ contract.definedFunctions) (h : f.isVisibleInContract)
    (hg : g ∈ contract.definedFunctions) (hsignature : hasSignatureOf g f) : g = f := by
  obtain ⟨-, hconstructor, hself⟩ := hasSignatureOf_iff.mp (hasSignatureOf_self h)
  obtain ⟨hname, hconstructor', hparameters⟩ := hasSignatureOf_iff.mp hsignature
  have hfallback : f.isFallback = false := by
    simp only [FunctionDefinition.isVisibleInContract, Bool.and_eq_true, Bool.not_eq_true'] at h
    exact h.2
  exact (eq_of_checkDuplicateFunctions hduplicates hf hg hconstructor hconstructor' hfallback
    hname.symm (hself.trans hparameters.symm)).symm

/-- Among functions with one signature visibility changes from external to public only. -/
lemma visibility_eq (haccepted : AcceptedHierarchy (derived ++ contract :: bases))
    (hg : g ∈ contract.definedFunctions) (hscope : scope ∈ bases) (hf : f ∈ scope.definedFunctions)
    (h : f.isVisibleInContract) (hsignature : hasSignatureOf g f) :
    g.visibility = f.visibility := by
  obtain ⟨-, hconstructor, hself⟩ := hasSignatureOf_iff.mp (hasSignatureOf_self h)
  obtain ⟨hname, hconstructor', hparameters⟩ := hasSignatureOf_iff.mp hsignature
  have hallowed := overridesAllowed_of_checkOverrides (by exact List.Pairwise.nil)
    haccepted.overrides
  rw [nil_append, flatMap_append, flatMap_cons, filter_append,
    filter_append, OverridesAllowed, pairwise_append, pairwise_append] at hallowed
  have hcheck := hallowed.2.1.2.2 g
    (mem_filter.mpr ⟨hg, by rw [hconstructor']; rfl⟩) f
    (mem_filter.mpr ⟨mem_flatMap.mpr ⟨scope, hscope, hf⟩, by rw [hconstructor]; rfl⟩) hname
  have hequal : g.hasEqualParameterTypes f = true :=
    decide_eq_true (hparameters.trans hself.symm)
  simp only [checkFunctionOverride, hequal, Bool.not_true, Bool.false_eq_true, if_false,
    append_eq_nil_iff] at hcheck
  by_contra hne
  have hinternal : ¬(f.visibility = .external ∧ g.visibility = .public) := by
    rintro ⟨hexternal, -⟩
    simp [FunctionDefinition.isVisibleInContract, hexternal] at h
  have hvisibility := hcheck.1.2
  rw [if_pos ⟨hne, hinternal⟩] at hvisibility
  cases hvisibility

lemma stateMutability_eq (haccepted : AcceptedHierarchy contracts)
    (hg : g ∈ contracts.flatMap (·.definedFunctions))
    (hf : f ∈ contracts.flatMap (·.definedFunctions)) (h : f.isVisibleInContract)
    (hsignature : hasSignatureOf g f) : g.stateMutability = f.stateMutability := by
  obtain ⟨-, hconstructor, hself⟩ := hasSignatureOf_iff.mp (hasSignatureOf_self h)
  obtain ⟨hname, hconstructor', hparameters⟩ := hasSignatureOf_iff.mp hsignature
  have hallowed := overridesAllowed_of_checkOverrides (by exact List.Pairwise.nil)
    haccepted.overrides
  have hpairwise : ((contracts.flatMap (·.definedFunctions)).filter (!·.isConstructor)).Pairwise
      fun g f => g.name = f.name → g.callableParameters = f.callableParameters →
        g.stateMutability = f.stateMutability := by
    refine hallowed.imp fun {g f} hcheck hname hparameters => ?_
    have hequal : g.hasEqualParameterTypes f = true := decide_eq_true hparameters
    by_contra hne
    have hoverride := hcheck hname
    simp [checkFunctionOverride, hequal, hne] at hoverride
  have hsymm : Std.Symm fun g f : FunctionDefinition T E => g.name = f.name →
      g.callableParameters = f.callableParameters → g.stateMutability = f.stateMutability :=
    ⟨fun g f hgf hname hparameters => (hgf hname.symm hparameters.symm).symm⟩
  by_cases heq : g = f
  · rw [heq]
  · exact hpairwise.forall (mem_filter.mpr ⟨hg, by rw [hconstructor']; rfl⟩)
      (mem_filter.mpr ⟨hf, by rw [hconstructor]; rfl⟩) heq hname
      (hparameters.trans hself.symm)

/-- Where the lookup finds a function, no more derived contract has one with the signature. -/
lemma findFunction_eq_some (h : findFunction contracts f = some g) :
    ∃ derived contract bases, contracts = derived ++ contract :: bases ∧
      g ∈ contract.definedFunctions ∧ hasSignatureOf g f ∧
      ∀ c ∈ derived, ∀ h ∈ c.definedFunctions, hasSignatureOf h f = false := by
  obtain ⟨derived, contract, bases, rfl, hfind, hnone⟩ := findSome?_eq_some_iff.mp h
  refine ⟨derived, contract, bases, rfl, mem_of_find?_eq_some hfind, ?_, fun c hc h hh => ?_⟩
  · exact find?_some (p := fun h => hasSignatureOf h f) hfind
  · exact Bool.eq_false_of_not_eq_true (find?_eq_none.mp (hnone c hc) h hh)

lemma findFunction_append (hderived : ∀ c ∈ derived, ∀ h ∈ c.definedFunctions,
    hasSignatureOf h f = false) (hf : f ∈ contract.definedFunctions)
    (hduplicates : checkDuplicateFunctions contract = []) (h : f.isVisibleInContract) :
    findFunction (derived ++ contract :: bases) f = some f := by
  refine findSome?_eq_some_iff.mpr ⟨derived, contract, bases, rfl, ?_, fun c hc => ?_⟩
  · have hsome : (contract.definedFunctions.find? (hasSignatureOf · f)).isSome = true :=
      find?_isSome.mpr ⟨f, hf, hasSignatureOf_self h⟩
    obtain ⟨g, hg⟩ := isSome_iff_exists.mp hsome
    have hsignature : hasSignatureOf g f = true :=
      find?_some (p := fun h => hasSignatureOf h f) hg
    rw [hg, eq_of_hasSignatureOf hduplicates hf h (mem_of_find?_eq_some hg) hsignature]
  · exact find?_eq_none.mpr fun g hg => by rw [hderived c hc g hg]; exact Bool.false_ne_true

lemma isLibrary_eq_false (haccepted : AcceptedHierarchy (derived ++ contract :: bases))
    (hne : derived ≠ []) (hscope : scope ∈ contract :: bases) : scope.isLibrary = false := by
  obtain ⟨c, cs, rfl⟩ := exists_cons_of_ne_nil hne
  exact haccepted.bases scope (mem_append_right _ hscope)

end

section

variable {f : FunctionDefinition T E} {contract scope : ContractDefinition T E}
  {derived bases : List (ContractDefinition T E)}

/-- A function that is not private is replaced by the most derived one that overrides it. -/
lemma findFunction_mostDerived (haccepted : AcceptedHierarchy (derived ++ contract :: bases))
    (hf : Found contract bases scope f) (hprivate : f.visibility ≠ .private) :
    ∃ g, findFunction (derived ++ contract :: bases) f = some g ∧
      MostDerived (derived ++ contract :: bases) f g := by
  have hvisible := hf.isVisibleInContract
  obtain ⟨hscope, hmem⟩ := hf.mem
  have hself := hasSignatureOf_self hvisible
  have hscope' : scope ∈ derived ++ contract :: bases := mem_append_right _ hscope
  have hsome : (findFunction (derived ++ contract :: bases) f).isSome = true := by
    rw [findFunction, findSome?_isSome_iff]
    exact ⟨scope, hscope', find?_isSome.mpr ⟨f, hmem, hself⟩⟩
  obtain ⟨g, hg⟩ := isSome_iff_exists.mp hsome
  obtain ⟨derived', contract', bases', heq, hmem', hsignature, hnone⟩ := findFunction_eq_some hg
  rw [heq] at haccepted hscope'
  have hbelow : scope ∈ contract' :: bases' := by
    refine (mem_append.mp hscope').resolve_left fun hderived => ?_
    have hother := hnone scope hderived f hmem
    rw [hself] at hother
    cases hother
  refine ⟨g, hg, derived', contract', bases', heq, hmem', ?_, ⟨scope, hbelow, hmem⟩,
    fun c hc h hh hoverrides => ?_⟩
  · rcases mem_cons.mp hbelow with rfl | hbase
    · exact .inl (eq_of_hasSignatureOf (haccepted.duplicates _ hscope') hmem hvisible hmem'
        hsignature)
    · refine .inr ⟨?_, hprivate, hsignature⟩
      rw [visibility_eq haccepted hmem' hbase hmem hvisible hsignature]
      exact hprivate
  · have hother : hasSignatureOf h f = true := by
      rcases hoverrides with rfl | ⟨-, -, hother⟩
      · exact hself
      · exact hother
    rw [hnone c hc h hh] at hother
    cases hother

/-- In an accepted hierarchy a call of `f` reaches the most derived definition that overrides `f`,
and `f` itself if it is private, iff no more derived contract has a function with the signature of a
private `f`. -/
theorem resolveVirtualFunction_mostDerived_iff
    (haccepted : AcceptedHierarchy (derived ++ contract :: bases))
    (hf : Found contract bases scope f) :
    (∃ g, resolveVirtualFunction (derived ++ contract :: bases) scope f = some g ∧
        MostDerived (derived ++ contract :: bases) f g ∧ (f.visibility = .private → g = f)) ↔
      (f.visibility = .private →
        ∀ c ∈ derived, ∀ g ∈ c.definedFunctions, hasSignatureOf g f = false) := by
  have hvisible := hf.isVisibleInContract
  have hresolve (hne : derived ≠ []) : resolveVirtualFunction (derived ++ contract :: bases) scope f =
      findFunction (derived ++ contract :: bases) f := by
    rw [resolveVirtualFunction, isLibrary_eq_false haccepted hne hf.mem.1]
    rfl
  constructor
  · rintro ⟨g, hg, -, hself⟩ hprivate c hc h hh
    obtain rfl := hself hprivate
    obtain rfl := hf.of_private hprivate
    rw [hresolve (ne_nil_of_mem hc)] at hg
    by_contra hsignature
    have hsome : (findFunction derived g).isSome = true := by
      rw [findFunction, findSome?_isSome_iff]
      exact ⟨c, hc, find?_isSome.mpr ⟨h, hh, Bool.eq_true_of_not_eq_false hsignature⟩⟩
    obtain ⟨k, hk⟩ := isSome_iff_exists.mp hsome
    rw [findFunction, findSome?_append, ← findFunction, hk] at hg
    obtain rfl : k = g := Option.some.inj hg
    obtain ⟨_, d, _, rfl, hd, -, -⟩ := findFunction_eq_some hk
    have hnodup := haccepted.nodup
    rw [flatMap_append, nodup_append'] at hnodup
    refine hnodup.2.2 (mem_flatMap.mpr ⟨d, ?_, hd⟩)
      (mem_flatMap.mpr ⟨scope, mem_cons_self, hf.mem.2⟩)
    exact mem_append_right _ mem_cons_self
  · intro h
    by_cases hprivate : f.visibility = .private
    · obtain rfl := hf.of_private hprivate
      have hfind : resolveVirtualFunction (derived ++ scope :: bases) scope f = some f := by
        rw [resolveVirtualFunction]
        split_ifs
        · rfl
        · exact findFunction_append (h hprivate) hf.mem.2 (haccepted.duplicates _
            (mem_append_right _ mem_cons_self)) hvisible
      refine ⟨f, hfind, ⟨derived, scope, bases, rfl, hf.mem.2, .inl rfl,
        ⟨scope, mem_cons_self, hf.mem.2⟩, fun c hc g hg hoverrides => ?_⟩, fun _ => rfl⟩
      rcases hoverrides with rfl | ⟨-, hnot, -⟩
      · have hother := h hprivate c hc g hg
        rw [hasSignatureOf_self hvisible] at hother
        cases hother
      · exact hnot hprivate
    · by_cases hlibrary : scope.isLibrary = true
      · obtain rfl : derived = [] := by
          by_contra hne
          rw [isLibrary_eq_false haccepted hne hf.mem.1] at hlibrary
          cases hlibrary
        obtain rfl : scope = contract := by
          refine (mem_cons.mp hf.mem.1).resolve_right fun hbase => ?_
          rw [haccepted.bases scope hbase] at hlibrary
          cases hlibrary
        exact ⟨f, if_pos hlibrary, ⟨[], scope, bases, rfl, hf.mem.2, .inl rfl,
          ⟨scope, mem_cons_self, hf.mem.2⟩, nofun⟩, fun _ => rfl⟩
      · obtain ⟨g, hg, hmost⟩ := findFunction_mostDerived haccepted hf hprivate
        exact ⟨g, (if_neg hlibrary).trans hg, hmost, fun h => absurd h hprivate⟩

end

/-- `function f(uint256) private {}` -/
def privateFunction (id : ℕ) : FunctionDefinition String String :=
  ⟨id, "f", false, .private, .nonPayable, [.value "uint256"], [], [], by decide⟩

/-- `function g() public {}` -/
def publicFunction (id : ℕ) : FunctionDefinition String String :=
  ⟨id, "g", false, .public, .nonPayable, [], [], [], by decide⟩

/-- `contract B { function f(uint256) private {} function g() public {} }` -/
def baseContract : ContractDefinition String String :=
  ⟨0, .contract, [], [privateFunction 1, publicFunction 2], []⟩

/-- A contract that derives from `B` and defines one function. -/
def derivedContract (f : FunctionDefinition String String) : ContractDefinition String String :=
  ⟨3, .contract, [⟨0, none⟩], [f], []⟩

theorem resolveVirtualFunction_mostDerived_iff_publicOverridden :
    (∃ g, resolveVirtualFunction ([derivedContract (publicFunction 4)] ++ baseContract :: [])
          baseContract (publicFunction 2) = some g ∧
        MostDerived ([derivedContract (publicFunction 4)] ++ baseContract :: []) (publicFunction 2) g ∧
        ((publicFunction 2).visibility = .private → g = publicFunction 2)) ↔
      ((publicFunction 2).visibility = .private →
        ∀ c ∈ [derivedContract (publicFunction 4)], ∀ g ∈ c.definedFunctions,
          hasSignatureOf g (publicFunction 2) = false) :=
  resolveVirtualFunction_mostDerived_iff
    ⟨by decide +kernel, by decide, by decide +kernel, by decide +kernel⟩
    (.own (by decide) (by decide))

/-- A call of `f` in the base contract reaches a private function of the derived one. -/
theorem resolveVirtualFunction_privateReplaced :
    AcceptedHierarchy [derivedContract (privateFunction 4), baseContract] ∧
      Found baseContract [] baseContract (privateFunction 1) ∧
      (privateFunction 1).visibility = .private ∧
      resolveVirtualFunction [derivedContract (privateFunction 4), baseContract] baseContract
        (privateFunction 1) = some (privateFunction 4) ∧
      privateFunction 4 ≠ privateFunction 1 :=
  ⟨⟨by decide +kernel, by decide, by decide +kernel, by decide +kernel⟩,
    .own (by decide) (by decide), rfl, by decide +kernel, by decide⟩

end CompilerContext

end Polynomial
