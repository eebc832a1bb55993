import Polc.Codegen.CompilerContext
import Polc.Sof.Machine

/-!
# Creation code

How `libpolynomial/codegen/ContractCompiler.cpp` puts the code for the creation of a contract
together from pieces: initialisation of state variables, the check of the call value, arguments of
constructors and their code. Pieces work on a stack, on which the arguments of each constructor lie
one above the other.
-/

namespace Polynomial

open ContractLevelChecker Semantics

variable {T E : Type*}

/-! ### The code -/

/-- A piece of code. Arguments of a constructor are given by their position on the stack. -/
inductive CreationCode (T E : Type*) where
  | initializeStateVariables (contract : ContractDefinition T E)
  | callValueCheck
  | decodeArguments (constructor : FunctionDefinition T E)
  /-- The expression may use the arguments of one constructor. -/
  | compileExpression (e : E) (type : ParameterType T) (slots : Option (ℕ × ℕ))
  /-- The code of the constructor, inside of its modifiers. -/
  | modifierOrFunctionCode (constructor : FunctionDefinition T E) (slots : ℕ × ℕ)
  | popStackSlots (n : ℕ)

namespace ContractCompiler

/-- What is constant: the number of slots of a value, the inheritance hierarchy and the arguments
for base constructors. -/
structure Setting (T E : Type*) where
  sizeOnStack : ParameterType T → ℕ
  inheritanceHierarchy : List (ContractDefinition T E)
  baseArguments : BaseConstructorArguments E

/-- The height of the stack and the positions of the arguments of constructors. -/
structure Context where
  deposit : ℕ
  localVariables : List (ℕ × ℕ × ℕ)

variable (setting : Setting T E)

def parametersSize (f : FunctionDefinition T E) : ℕ := (f.parameters.map setting.sizeOnStack).sum

/-- Evaluate arguments one after the other. -/
def compileExpressions (slots : Option (ℕ × ℕ)) (arguments : List E)
    (types : List (ParameterType T)) : List (CreationCode T E) :=
  List.zipWith (fun e type => .compileExpression e type slots) arguments types

/-- The arguments for a base constructor. -/
def baseArgumentsCode (context : Context) (constructor : FunctionDefinition T E) :
    Except String (List (CreationCode T E)) :=
  if constructor.parameters = [] then .ok []
  else
    match setting.baseArguments.lookup constructor.id with
    | none => .error "Base arguments not found."
    | some ⟨owner, arguments⟩ =>
      if arguments.length ≠ constructor.parameters.length then .error "Wrong number of arguments."
      else
        match owner with
        | none => .ok (compileExpressions none arguments constructor.parameters)
        | some f =>
          match context.localVariables.lookup f with
          | none => .error "Variable not found on stack."
          | some slots =>
            .ok (compileExpressions (some slots) arguments constructor.parameters)

/-- The code of a constructor whose arguments are on the stack: first the next constructor, then its
own code, and the arguments are removed. -/
def visitConstructor : ℕ → Context → ContractDefinition T E → FunctionDefinition T E →
    Except String (List (CreationCode T E))
  | 0, _, _, _ => .error "Too many constructors."
  | n + 1, context, scope, constructor =>
    let size := parametersSize setting constructor
    let slots := (context.deposit - size, size)
    let locals := (constructor.id, slots) :: context.localVariables
    let base : Except String (List (CreationCode T E)) :=
      match CompilerContext.nextConstructor setting.inheritanceHierarchy scope with
      | none => .ok []
      | some (scope', c) =>
        (baseArgumentsCode setting ⟨context.deposit, locals⟩ c).bind fun arguments =>
          (visitConstructor n ⟨context.deposit + parametersSize setting c, locals⟩ scope' c).map
            (arguments ++ ·)
    base.bind fun base =>
      if size + 1 > 17 then .error "Stack too deep, try removing local variables."
      else .ok (base ++ [.modifierOrFunctionCode constructor slots, .popStackSlots size])

/-- The constructor of the contract itself, whose arguments follow on the code. -/
def appendConstructor (contract : ContractDefinition T E) (constructor : FunctionDefinition T E) :
    Except String (List (CreationCode T E)) :=
  (visitConstructor setting setting.inheritanceHierarchy.length
      ⟨parametersSize setting constructor, []⟩ contract constructor).map fun code =>
    (if constructor.isPayable then [] else [.callValueCheck]) ++
      (if constructor.parameters = [] then [] else [.decodeArguments constructor]) ++ code

/-- The constructor of a base contract. -/
def appendBaseConstructor (scope : ContractDefinition T E) (constructor : FunctionDefinition T E) :
    Except String (List (CreationCode T E)) :=
  (baseArgumentsCode setting ⟨0, []⟩ constructor).bind fun arguments =>
    (visitConstructor setting setting.inheritanceHierarchy.length
      ⟨parametersSize setting constructor, []⟩ scope constructor).map (arguments ++ ·)

def appendInitAndConstructorCode (contract : ContractDefinition T E) :
    Except String (List (CreationCode T E)) :=
  let initialisation := setting.inheritanceHierarchy.reverse.map CreationCode.initializeStateVariables
  let construction := match contract.constructor with
    | some c => appendConstructor setting contract c
    | none =>
      match CompilerContext.nextConstructor setting.inheritanceHierarchy contract with
      | some (scope, c) => appendBaseConstructor setting scope c
      | none => .ok [.callValueCheck]
  construction.map (initialisation ++ ·)

end ContractCompiler

/-- What the parts of a contract do. Evaluating an expression gives the words of its value and the
new words of the variables it can change. -/
structure CreationMachine (T E η σ : Type*) where
  callValue : Sof.Word
  reverted : η
  initialise : ContractDefinition T E → σ → Result η σ Unit
  decode : FunctionDefinition T E → σ → Result η σ (ℕ → Sof.Word)
  evaluate : E → ParameterType T → List Sof.Word → σ → Result η σ ((ℕ → Sof.Word) × (ℕ → Sof.Word))
  run : FunctionDefinition T E → List Sof.Word → σ → Result η σ Unit

namespace CreationMachine

variable {η σ : Type*} (M : CreationMachine T E η σ) (setting : ContractCompiler.Setting T E)

/-- The first words of a value. -/
def wordsOf (n : ℕ) (w : ℕ → Sof.Word) : List Sof.Word := (List.range n).map w

/-- The call value is zero, or the run reverts. -/
def checkCallValue (s : σ) : Result η σ Unit :=
  if M.callValue = 0 then .ok () s else .halt M.reverted s

/-- What a piece of code does to the stack, whose top is the end of the list. -/
def exec : CreationCode T E → List Sof.Word → σ → Result η σ (List Sof.Word)
  | .initializeStateVariables contract, stack, s => (M.initialise contract s).map fun _ => stack
  | .callValueCheck, stack, s => (M.checkCallValue s).map fun _ => stack
  | .decodeArguments constructor, stack, s =>
    (M.decode constructor s).map fun w =>
      stack ++ wordsOf (ContractCompiler.parametersSize setting constructor) w
  | .compileExpression e type none, stack, s =>
    (M.evaluate e type [] s).map fun r => stack ++ wordsOf (setting.sizeOnStack type) r.1
  | .compileExpression e type (some (offset, n)), stack, s =>
    (M.evaluate e type ((stack.drop offset).take n) s).map fun r =>
      stack.take offset ++ wordsOf n r.2 ++ stack.drop (offset + n) ++
        wordsOf (setting.sizeOnStack type) r.1
  | .modifierOrFunctionCode constructor (offset, n), stack, s =>
    (M.run constructor ((stack.drop offset).take n) s).map fun _ => stack
  | .popStackSlots n, stack, s => .ok (stack.take (stack.length - n)) s

def execAll : List (CreationCode T E) → List Sof.Word → σ → Result η σ (List Sof.Word)
  | [], stack, s => .ok stack s
  | code :: codes, stack, s => (M.exec setting code stack s).bind (execAll codes)

/-- Run the creation code on an empty stack. -/
def create (codes : List (CreationCode T E)) (s : σ) : Result η σ Unit :=
  (M.execAll setting codes [] s).map fun _ => ()

end CreationMachine

namespace CreationMachine

variable {η σ : Type*} (M : CreationMachine T E η σ) (setting : ContractCompiler.Setting T E)

/-- The words of the arguments of each constructor. -/
abbrev Arguments := ℕ → ℕ → Sof.Word

def argumentsOf (ρ : Arguments) (f : FunctionDefinition T E) : List Sof.Word :=
  wordsOf (ContractCompiler.parametersSize setting f) (ρ f.id)

def initialiseAll : List (ContractDefinition T E) → σ → Result η σ Unit
  | [], s => .ok () s
  | contract :: contracts, s => (M.initialise contract s).bind fun _ => initialiseAll contracts

/-- Evaluate an expression that may use the arguments of the constructor `owner`. -/
def evaluateIn (owner : Option (FunctionDefinition T E)) (e : E) (type : ParameterType T)
    (ρ : Arguments) (s : σ) : Result η σ ((ℕ → Sof.Word) × Arguments) :=
  match owner with
  | none => (M.evaluate e type [] s).map fun r => (r.1, ρ)
  | some f =>
    (M.evaluate e type (argumentsOf setting ρ f) s).map fun r => (r.1, Function.update ρ f.id r.2)

/-- The words of the values of expressions. -/
def evaluateAll (owner : Option (FunctionDefinition T E)) : List (E × ParameterType T) →
    Arguments → σ → Result η σ (List Sof.Word × Arguments)
  | [], ρ, s => .ok ([], ρ) s
  | (e, type) :: es, ρ, s =>
    (M.evaluateIn setting owner e type ρ s).bind fun r s =>
      (evaluateAll owner es r.2 s).map fun r' =>
        (wordsOf (setting.sizeOnStack type) r.1 ++ r'.1, r'.2)

/-- The arguments of a constructor: they come with the code for the contract itself, and from the
derived contracts for the others. -/
def bindArguments (contract : ContractDefinition T E) (f : FunctionDefinition T E) (ρ : Arguments)
    (s : σ) : Result η σ Arguments :=
  if f.parameters = [] then .ok ρ s
  else if contract.constructor.any (·.id = f.id) then
    (M.decode f s).map fun w => Function.update ρ f.id w
  else
    match setting.baseArguments.lookup f.id with
    | none => .ok ρ s
    | some ⟨owner, arguments⟩ =>
      let constructors := setting.inheritanceHierarchy.filterMap (·.constructor)
      let constructor := owner.bind fun id => constructors.find? (·.id = id)
      (M.evaluateAll setting constructor (arguments.zip f.parameters) ρ s).map fun r =>
        Function.update r.2 f.id fun i => r.1.getD i 0

/-- The arguments of the constructors, from derived to base. -/
def bindAll (contract : ContractDefinition T E) : List (FunctionDefinition T E) → Arguments → σ →
    Result η σ Arguments
  | [], ρ, s => .ok ρ s
  | f :: fs, ρ, s => (M.bindArguments setting contract f ρ s).bind (bindAll contract fs)

/-- Run the constructors in the given order, each with its own arguments. -/
def runAll (ρ : Arguments) : List (FunctionDefinition T E) → σ → Result η σ Unit
  | [], s => .ok () s
  | f :: fs, s => (M.run f (argumentsOf setting ρ f) s).bind fun _ => runAll ρ fs

/-- State variables are initialised from base to derived. The creation reverts if a call value comes
with a contract that does not declare a payable constructor. Then all constructors run from base to
derived. -/
def construct (contract : ContractDefinition T E) (s : σ) : Result η σ Unit :=
  let constructors := setting.inheritanceHierarchy.filterMap (·.constructor)
  (M.initialiseAll setting.inheritanceHierarchy.reverse s).bind fun _ s =>
    (if contract.constructor.any (·.isPayable) then .ok () s else M.checkCallValue s).bind fun _ s =>
      (M.bindAll setting contract constructors (fun _ _ => 0) s).bind fun ρ s =>
        M.runAll setting ρ constructors.reverse s

end CreationMachine

end Polynomial
