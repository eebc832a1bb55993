import Polc.Ast.AST
import Polc.Langutil.Exceptions
import Mathlib.Data.List.Dedup
import Mathlib.Data.List.Pairwise
import Mathlib.Data.List.Sort

/-!
# Checks of contracts as a whole

The checks of `libpolynomial/analysis/ContractLevelChecker.cpp` about arguments for base
constructors, functions that are defined twice and functions that override others.
-/

namespace Polynomial

open Langutil

variable {T E : Type*}

namespace ContractLevelChecker

/-! ### Arguments for the constructors of base contracts -/

/-- Arguments for a base constructor, with the constructor at which they are given, if it is not the
contract. -/
structure BaseArguments (E : Type*) where
  constructor : Option ℕ
  arguments : List E
  deriving DecidableEq, Repr

/-- The arguments by the identifiers of the constructors they are for. -/
abbrev BaseConstructorArguments (E : Type*) := List (ℕ × BaseArguments E)

/-- The constructor of the contract with the identifier. -/
def constructorOf (contracts : List (ContractDefinition T E)) (contract : ℕ) :
    Option (FunctionDefinition T E) :=
  (contracts.find? (·.id = contract)).bind (·.constructor)

/-- Only the first arguments for a constructor are kept. -/
def annotateBaseConstructorArguments (annotated : BaseConstructorArguments E) (constructor : ℕ)
    (arguments : BaseArguments E) : List Error × BaseConstructorArguments E :=
  if (annotated.lookup constructor).isSome then
    ([⟨.declarationError, "Base constructor arguments given twice."⟩], annotated)
  else ([], annotated ++ [(constructor, arguments)])

/-- What the constructor gives as invocations of base constructors. -/
def annotateModifiers (contracts : List (ContractDefinition T E)) (constructor : ℕ)
    (annotated : BaseConstructorArguments E) :
    List (ModifierInvocation E) → List Error × BaseConstructorArguments E
  | [] => ([], annotated)
  | .modifier _ _ :: invocations => annotateModifiers contracts constructor annotated invocations
  | .baseConstructor _ none :: invocations =>
    let rest := annotateModifiers contracts constructor annotated invocations
    (⟨.declarationError, "Modifier-style base constructor call without arguments."⟩ :: rest.1,
      rest.2)
  | .baseConstructor base (some arguments) :: invocations =>
    let first := match constructorOf contracts base with
      | none => ([], annotated)
      | some c => annotateBaseConstructorArguments annotated c.id ⟨some constructor, arguments⟩
    let rest := annotateModifiers contracts constructor first.2 invocations
    (first.1 ++ rest.1, rest.2)

/-- What the contract gives after the names of its bases. -/
def annotateBaseContracts (contracts : List (ContractDefinition T E))
    (annotated : BaseConstructorArguments E) :
    List (InheritanceSpecifier E) → List Error × BaseConstructorArguments E
  | [] => ([], annotated)
  | ⟨base, arguments⟩ :: bases =>
    let first := match constructorOf contracts base, arguments with
      | some c, some (e :: es) => annotateBaseConstructorArguments annotated c.id ⟨none, e :: es⟩
      | _, _ => ([], annotated)
    let rest := annotateBaseContracts contracts first.2 bases
    (first.1 ++ rest.1, rest.2)

/-- The loop over the linearized base contracts `bases`. -/
def annotateContracts (contracts : List (ContractDefinition T E))
    (annotated : BaseConstructorArguments E) :
    List (ContractDefinition T E) → List Error × BaseConstructorArguments E
  | [] => ([], annotated)
  | contract :: bases =>
    let modifiers := match contract.constructor with
      | none => ([], annotated)
      | some c => annotateModifiers contracts c.id annotated c.modifiers
    let specifiers := annotateBaseContracts contracts modifiers.2 contract.baseContracts
    let rest := annotateContracts contracts specifiers.2 bases
    (modifiers.1 ++ specifiers.1 ++ rest.1, rest.2)

/-- The arguments that are used for the base constructors. -/
def baseConstructorArguments (contracts : List (ContractDefinition T E)) :
    BaseConstructorArguments E := (annotateContracts contracts [] contracts).2

/-- The base constructors that lack arguments; with one of them the contract is not deployed. -/
def unimplementedConstructors (contracts : List (ContractDefinition T E)) :
    List (FunctionDefinition T E) :=
  (contracts.tail.filterMap (·.constructor)).filter fun c =>
    c.parameters ≠ [] && ((baseConstructorArguments contracts).lookup c.id).isNone

end ContractLevelChecker

variable [DecidableEq T]

namespace FunctionDefinition

/-- The function takes what the other one takes if both are called from outside. -/
def hasEqualParameterTypes (f g : FunctionDefinition T E) : Bool :=
  f.callableParameters = g.callableParameters

def hasEqualReturnTypes (f g : FunctionDefinition T E) : Bool :=
  f.returnParameters = g.returnParameters

end FunctionDefinition

def StateMutability.toString : StateMutability → String
  | .pure => "pure"
  | .view => "view"
  | .nonPayable => "nonpayable"
  | .payable => "payable"

namespace ContractLevelChecker

/-- The positions of the functions in the list, counted from `i`, with the parameters of `f`. -/
def duplicatesOf (f : FunctionDefinition T E) (i : ℕ) (fs : List (FunctionDefinition T E)) :
    List ℕ :=
  ((fs.zipIdx i).filter fun p => f.hasEqualParameterTypes p.1).map (·.2)

/-- The loop over the overloads of one name; it ends at the first one that has been reported. -/
def findDuplicates (message : String) (reported : List ℕ) (i : ℕ) :
    List (FunctionDefinition T E) → List Error
  | [] => []
  | f :: fs =>
    if i ∈ reported then []
    else
      let duplicates := duplicatesOf f (i + 1) fs
      (if duplicates = [] then [] else [⟨.declarationError, message⟩]) ++
        findDuplicates message (reported ++ duplicates) (i + 1) fs

def findDuplicateDefinitions (definitions : List (FunctionDefinition T E)) (message : String) :
    List Error :=
  ((definitions.map (·.name)).dedup.insertionSort (· ≤ ·)).flatMap fun name =>
    findDuplicates message [] 0 (definitions.filter (·.name = name))

/-- Functions with the same name in a contract have different parameters, and there is at most one
constructor and one fallback function. -/
def checkDuplicateFunctions (contract : ContractDefinition T E) : List Error :=
  let constructors := contract.definedFunctions.filter (·.isConstructor)
  let others := contract.definedFunctions.filter (!·.isConstructor)
  let fallbacks := others.filter (·.isFallback)
  constructors.tail.map (fun _ => ⟨.declarationError, "More than one constructor defined."⟩) ++
    fallbacks.tail.map (fun _ => ⟨.declarationError, "Only one fallback function is allowed."⟩) ++
    findDuplicateDefinitions (others.filter (!·.isFallback))
      "Function with same name and arguments defined twice."

/-- Errors if a function that comes after another one in the hierarchy is overridden by it. -/
def checkFunctionOverride (function super : FunctionDefinition T E) : List Error :=
  if !function.hasEqualParameterTypes super then []
  else
    (if !function.hasEqualReturnTypes super then
      [⟨.typeError, "Overriding function return types differ."⟩] else []) ++
    (if function.visibility ≠ super.visibility ∧
        ¬(super.visibility = .external ∧ function.visibility = .public) then
      [⟨.typeError, "Overriding function visibility differs."⟩] else []) ++
    (if function.stateMutability ≠ super.stateMutability then
      [⟨.typeError, "Overriding function changes state mutability from \"" ++
        super.stateMutability.toString ++ "\" to \"" ++ function.stateMutability.toString ++
        "\"."⟩] else [])

/-- The definitions that have been seen, of modifiers the first one of each name. -/
structure Seen (T E : Type*) where
  functions : List (FunctionDefinition T E)
  modifiers : List (ModifierDefinition T)

namespace Seen

def functionsNamed (seen : Seen T E) (name : String) : List (FunctionDefinition T E) :=
  seen.functions.filter (·.name = name)

def modifierNamed (seen : Seen T E) (name : String) : Option (ModifierDefinition T) :=
  seen.modifiers.find? (·.name = name)

end Seen

/-- The functions of a contract against what has been seen. -/
def checkFunctions (seen : Seen T E) : List (FunctionDefinition T E) → List Error × Seen T E
  | [] => ([], seen)
  | f :: fs =>
    if f.isConstructor then checkFunctions seen fs
    else
      let rest := checkFunctions { seen with functions := seen.functions ++ [f] } fs
      ((if (seen.modifierNamed f.name).isSome then
          [⟨.typeError, "Override changes function to modifier."⟩] else []) ++
        (seen.functionsNamed f.name).flatMap (checkFunctionOverride · f) ++ rest.1, rest.2)

/-- The modifiers of a contract against what has been seen. -/
def checkModifiers (seen : Seen T E) : List (ModifierDefinition T) → List Error × Seen T E
  | [] => ([], seen)
  | m :: ms =>
    let override := seen.modifierNamed m.name
    let seen' := if override.isSome then seen else { seen with modifiers := seen.modifiers ++ [m] }
    let rest := checkModifiers seen' ms
    ((if override.any (·.parameterTypes ≠ m.parameterTypes) then
        [⟨.typeError, "Override changes modifier signature."⟩] else []) ++
      (if seen.functionsNamed m.name ≠ [] then
        [⟨.typeError, "Override changes modifier to function."⟩] else []) ++ rest.1, rest.2)

/-- We search from derived to base, so the definition seen first causes the error. -/
def checkOverrides (seen : Seen T E) : List (ContractDefinition T E) → List Error
  | [] => []
  | contract :: contracts =>
    let functions := checkFunctions seen contract.definedFunctions
    let modifiers := checkModifiers functions.2 contract.functionModifiers
    functions.1 ++ modifiers.1 ++ checkOverrides modifiers.2 contracts

def checkIllegalOverrides (linearizedBaseContracts : List (ContractDefinition T E)) : List Error :=
  checkOverrides ⟨[], []⟩ linearizedBaseContracts

/-! ### What is accepted -/

lemma pairwise_of_findDuplicates {message : String} {i : ℕ} {fs : List (FunctionDefinition T E)}
    (h : findDuplicates message [] i fs = []) :
    fs.Pairwise fun f g => f.hasEqualParameterTypes g = false := by
  induction fs generalizing i with
  | nil => exact .nil
  | cons f fs ih =>
    rw [findDuplicates, if_neg List.not_mem_nil, List.append_eq_nil_iff, List.nil_append] at h
    obtain ⟨hhead, hrest⟩ := h
    split_ifs at hhead with hduplicates
    rw [hduplicates] at hrest
    refine .cons (fun g hg => ?_) (ih hrest)
    obtain ⟨k, hk⟩ := List.mem_iff_getElem?.mp hg
    rw [duplicatesOf, List.map_eq_nil_iff, List.filter_eq_nil_iff] at hduplicates
    have hmem : (g, i + 1 + k) ∈ fs.zipIdx (i + 1) := by
      rw [List.mem_zipIdx_iff_le_and_getElem?_sub]
      exact ⟨Nat.le_add_right _ _, by simpa using hk⟩
    simpa using hduplicates _ hmem

/-- In a contract without duplicates a function is given by its name and its parameters. -/
lemma eq_of_checkDuplicateFunctions {contract : ContractDefinition T E}
    (h : checkDuplicateFunctions contract = []) {f g : FunctionDefinition T E}
    (hf : f ∈ contract.definedFunctions) (hg : g ∈ contract.definedFunctions)
    (hconstructor : f.isConstructor = false) (hconstructor' : g.isConstructor = false)
    (hfallback : f.isFallback = false) (hname : f.name = g.name)
    (hparameters : f.callableParameters = g.callableParameters) : f = g := by
  have hfallback' : g.isFallback = false := by
    simp only [FunctionDefinition.isFallback, hconstructor, hconstructor', hname] at hfallback ⊢
    exact hfallback
  rw [checkDuplicateFunctions, List.append_eq_nil_iff, findDuplicateDefinitions,
    List.flatMap_eq_nil_iff] at h
  have hpairwise := pairwise_of_findDuplicates (h.2 f.name (by
    simp only [List.mem_insertionSort, List.mem_dedup, List.mem_map, List.mem_filter]
    exact ⟨f, ⟨⟨hf, by simp [hconstructor]⟩, by simp [hfallback]⟩, rfl⟩))
  have hsymm : Std.Symm fun f g : FunctionDefinition T E => f.hasEqualParameterTypes g = false :=
    ⟨fun f g h => by
      rw [FunctionDefinition.hasEqualParameterTypes, decide_eq_false_iff_not] at h ⊢
      exact Ne.symm h⟩
  have hmem {k : FunctionDefinition T E} (hk : k ∈ contract.definedFunctions)
      (hc : k.isConstructor = false) (hb : k.isFallback = false) (hn : k.name = f.name) :
      k ∈ ((contract.definedFunctions.filter (!·.isConstructor)).filter (!·.isFallback)).filter
        (·.name = f.name) := by
    simp only [List.mem_filter, hk, hc, hb, hn, Bool.not_false, decide_true, and_self]
  by_contra hne
  have hdifferent := hpairwise.forall (hmem hf hconstructor hfallback rfl)
    (hmem hg hconstructor' hfallback' hname.symm) hne
  rw [FunctionDefinition.hasEqualParameterTypes, decide_eq_false_iff_not] at hdifferent
  exact hdifferent hparameters

lemma checkFunctions_functions (seen : Seen T E) (fs : List (FunctionDefinition T E)) :
    (checkFunctions seen fs).2.functions = seen.functions ++ fs.filter (!·.isConstructor) := by
  induction fs generalizing seen with
  | nil => exact (List.append_nil _).symm
  | cons f fs ih =>
    by_cases hconstructor : f.isConstructor = true
    · rw [checkFunctions, if_pos hconstructor, ih,
        List.filter_cons_of_neg (by simpa using hconstructor)]
    · rw [checkFunctions, if_neg hconstructor,
        List.filter_cons_of_pos (by simpa using hconstructor)]
      exact (ih _).trans (List.append_assoc _ _ _)

lemma checkModifiers_functions (seen : Seen T E) (ms : List (ModifierDefinition T)) :
    (checkModifiers seen ms).2.functions = seen.functions := by
  induction ms generalizing seen with
  | nil => rfl
  | cons m ms ih =>
    refine (ih _).trans ?_
    split_ifs <;> rfl

/-- No function of the list overrides a later one in a way that is not allowed. -/
def OverridesAllowed (fs : List (FunctionDefinition T E)) : Prop :=
  fs.Pairwise fun g f => g.name = f.name → checkFunctionOverride g f = []

lemma OverridesAllowed.checkFunctions {seen : Seen T E} {fs : List (FunctionDefinition T E)}
    (hseen : OverridesAllowed seen.functions) (h : (checkFunctions seen fs).1 = []) :
    OverridesAllowed (checkFunctions seen fs).2.functions := by
  induction fs generalizing seen with
  | nil => exact hseen
  | cons f fs ih =>
    rw [ContractLevelChecker.checkFunctions] at h ⊢
    by_cases hconstructor : f.isConstructor = true
    · rw [if_pos hconstructor] at h ⊢
      exact ih hseen h
    · rw [if_neg hconstructor] at h ⊢
      dsimp only at h ⊢
      rw [List.append_eq_nil_iff, List.append_eq_nil_iff, List.flatMap_eq_nil_iff] at h
      refine ih ?_ h.2
      refine List.pairwise_append.mpr ⟨hseen, List.pairwise_singleton _ _, fun g hg f' hf' hname => ?_⟩
      obtain rfl := List.mem_singleton.mp hf'
      exact h.1.2 g (List.mem_filter.mpr ⟨hg, by simpa using hname⟩)

lemma overridesAllowed_of_checkOverrides {seen : Seen T E} {contracts : List (ContractDefinition T E)}
    (hseen : OverridesAllowed seen.functions) (h : checkOverrides seen contracts = []) :
    OverridesAllowed (seen.functions ++
      (contracts.flatMap (·.definedFunctions)).filter (!·.isConstructor)) := by
  induction contracts generalizing seen with
  | nil =>
    rw [List.flatMap_nil, List.filter_nil, List.append_nil]
    exact hseen
  | cons contract contracts ih =>
    rw [checkOverrides, List.append_eq_nil_iff, List.append_eq_nil_iff] at h
    have hrest := ih (by
      rw [checkModifiers_functions]
      exact hseen.checkFunctions h.1.1) h.2
    rw [checkModifiers_functions, checkFunctions_functions, List.append_assoc] at hrest
    rwa [List.flatMap_cons, List.filter_append]

end ContractLevelChecker

end Polynomial
