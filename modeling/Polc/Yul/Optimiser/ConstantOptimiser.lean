import Polc.Langutil.SVMVersion
import Polc.Semantics.Fallible
import Polc.Sof.ConstantOptimiser.Decomposition
import Polc.Yul.Interpreter

/-!
# The constant optimiser

`libyul/optimiser/ConstantOptimiser.cpp`: number literals are replaced by expressions that compute
them, if these are cheaper. The search for such an expression is recursive and remembers what it
found; its result is checked by evaluating it. Failed assertions are `none`.
-/

namespace Yul

open Sof Semantics Langutil

/-- The dialect of a version of the machine. -/
structure SVMDialect where
  flavour : AsmFlavour
  objectAccess : Bool
  svmVersion : SVMVersion
  deriving DecidableEq, Repr

def SVMDialect.toDialect (dialect : SVMDialect) : Dialect :=
  ⟨dialect.flavour, dialect.objectAccess, dialect.svmVersion.hasOpcode⟩

namespace MiniSVMInterpreter

/-- `exp256` of `libdevcore/Common.h`, with the result so far. -/
def exp256From (result base exponent : Word) : Word :=
  if exponent = 0 then result
  else
    exp256From (if exponent.getLsbD 0 then result * base else result) (base * base) (exponent >>> 1)
termination_by exponent.toNat
decreasing_by
  rename_i hzero
  have hpos : 0 < exponent.toNat := Nat.pos_of_ne_zero fun h => hzero (BitVec.eq_of_toNat_eq h)
  rw [BitVec.toNat_ushiftRight, Nat.shiftRight_eq_div_pow]
  omega

def exp256 (base exponent : Word) : Word := exp256From 1 base exponent

/-- The operations that representations consist of. -/
def evalInstruction : Instruction → List Word → Option Word
  | .add, a :: b :: _ => some (a + b)
  | .sub, a :: b :: _ => some (a - b)
  | .mul, a :: b :: _ => some (a * b)
  | .exp, a :: b :: _ => some (exp256 a b)
  | .shl, a :: b :: _ => some (if 255 < a then 0 else b <<< a.toNat)
  | .not, a :: _ => some (~~~a)
  | _, _ => none

mutual

def eval (dialect : Dialect) : Expression → Option Word
  | .functionalInstruction i args => (evalArguments dialect args).bind (evalInstruction i)
  | .functionCall f args =>
    ((dialect.builtin f).bind (·.instruction)).bind fun i =>
      (evalArguments dialect args).bind (evalInstruction i)
  | .identifier _ => none
  | .literal l => valueOfLiteral l

def evalArguments (dialect : Dialect) : List Expression → Option (List Word)
  | [] => some []
  | e :: es => (eval dialect e).bind fun w => (evalArguments dialect es).map (w :: ·)

end

end MiniSVMInterpreter

/-! ### Representations -/

namespace ConstantOptimiser

/-- Costs have 64 bits and wrap around. -/
abbrev Cost := BitVec 64

structure GasMeter where
  costs : Expression → Cost
  instructionCosts : Instruction → Cost

structure Representation where
  expression : Expression
  cost : Cost

namespace Representation

/-- The cheaper one of two representations, the first one if they cost the same. -/
def min (a b : Representation) : Representation := if a.cost ≤ b.cost then a else b

end Representation

end ConstantOptimiser

open ConstantOptimiser

namespace RepresentationFinder

section

variable (dialect : SVMDialect) (meter : GasMeter)

/-- A number as a literal. -/
def represent (value : Word) : Representation :=
  let expression := .literal (.number (formatNumber value))
  ⟨expression, meter.costs expression⟩

/-- The instruction that a name stands for. -/
def instructionOf (instruction : YulString) : Option Instruction :=
  (dialect.toDialect.builtin instruction).bind (·.instruction)

def representUnary (instruction : YulString) (argument : Representation) :
    Option Representation :=
  (instructionOf dialect instruction).map fun i =>
    ⟨.functionCall instruction [argument.expression],
      argument.cost + meter.instructionCosts i⟩

def representBinary (instruction : YulString) (arg₁ arg₂ : Representation) :
    Option Representation :=
  (instructionOf dialect instruction).map fun i =>
    ⟨.functionCall instruction [arg₁.expression, arg₂.expression],
      meter.instructionCosts i + arg₁.cost + arg₂.cost⟩

/-- What a search changes: a counter for the complexity, which stops it at zero, and the
representations that were found. -/
structure State where
  maxSteps : ℕ := 10000
  cache : Std.TreeMap Word Representation := ∅

abbrev Search := StateT State Option

/-- Try to represent the negation, if that is shorter. -/
def tryNegation (value : Word) (find : ∀ w : Word, w < value → Search Representation)
    (routine : Representation) : Search Representation :=
  if h : bytesRequired (~~~value).toNat < bytesRequired value.toNat then do
    let negation ← find (~~~value) (not_lt_of_bytesRequired h)
    let newRoutine ← StateT.lift (representUnary dialect meter "not" negation)
    return routine.min newRoutine
  else return routine

/-- The power of two times the upper part. -/
def multiplied (upperPart : Word) (findUpper : Search Representation) (power : Representation) :
    Search Representation :=
  if upperPart ≠ 1 then do
    let upper ← findUpper
    StateT.lift (representBinary dialect meter "mul" upper power)
  else return power

/-- The upper part at its position. -/
def shifted (bits : ℕ) (upperPart : Word) (findUpper : Search Representation) :
    Search Representation :=
  if dialect.svmVersion.hasBitwiseShifting then do
    let upper ← findUpper
    StateT.lift (representBinary dialect meter "shl" (represent meter (.ofNat 256 bits)) upper)
  else do
    let power ← StateT.lift
      (representBinary dialect meter "exp" (represent meter 2) (represent meter (.ofNat 256 bits)))
    multiplied dialect meter upperPart findUpper power

/-- Put the lower part to the shifted upper part. -/
def withLowerPart (lowerPart : ℤ) (findLower : Search Representation)
    (newRoutine : Representation) : Search Representation :=
  if 0 < lowerPart then do
    let lower ← findLower
    StateT.lift (representBinary dialect meter "add" newRoutine lower)
  else if lowerPart < 0 then do
    let lower ← findLower
    StateT.lift (representBinary dialect meter "sub" newRoutine lower)
  else return newRoutine

/-- Complete a routine for the upper part, unless it is too expensive already. -/
def complete (lowerPart : ℤ) (findLower : Search Representation)
    (routine newRoutine : Representation) : Search Representation :=
  if routine.cost ≤ newRoutine.cost then return routine
  else do
    let newRoutine ← withLowerPart dialect meter lowerPart findLower newRoutine
    modify fun s => { s with maxSteps := s.maxSteps - 1 }
    return routine.min newRoutine

/-- Try to decompose the number at a bit. -/
def tryDecomposition (value : Word) (find : ∀ w : Word, w < value → Search Representation)
    (bits : ℕ) (routine : Representation) : Search Representation :=
  match h : decompose value bits with
  | none => return routine
  | some d => do
    let newRoutine ← shifted dialect meter bits d.upperPart (find d.upperPart (upperPart_lt h))
    complete dialect meter d.lowerPart (find d.lowerWord (lowerWord_lt h)) routine newRoutine

/-- Try the bits below `n + 9`, from the highest one to bit 9. -/
def tryDecompositions (value : Word) (find : ∀ w : Word, w < value → Search Representation) :
    ℕ → Representation → Search Representation
  | 0, routine => return routine
  | n + 1, routine => do
    let s ← get
    if s.maxSteps = 0 then return routine
    else do
      let routine ← tryDecomposition dialect meter value find (n + 9) routine
      tryDecompositions value find n routine

/-- Remember a routine. It is asserted that the routine is valid. -/
def store (value : Word) (routine : Representation) : Search Representation :=
  if MiniSVMInterpreter.eval dialect.toDialect routine.expression = some value then do
    modify fun s => { s with cache := s.cache.insert value routine }
    return routine
  else failure

/-- Search for a representation that is not in the cache, with `find` for smaller numbers. -/
def searchRepresentation (value : Word)
    (find : ∀ w : Word, w < value → Search Representation) : Search Representation := do
  let routine ← tryNegation dialect meter value find (represent meter value)
  let routine ← tryDecompositions dialect meter value find 247 routine
  store dialect value routine

/-- Recursively try to find the cheapest representation of the given number, literal if
necessary. -/
def findRepresentation (value : Word) : Search Representation := fun s =>
  match s.cache[value]? with
  | some r => some (r, s)
  | none => searchRepresentation dialect meter value (fun w _ => findRepresentation w) s
termination_by value.toNat

end

end RepresentationFinder

end Yul
