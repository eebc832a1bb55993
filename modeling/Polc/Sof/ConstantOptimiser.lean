import Polc.Langutil.SVMVersion
import Polc.Semantics.Fallible
import Polc.Sof.Assembly
import Polc.Sof.ConstantOptimiser.Decomposition

/-!
# Costs of instructions and data

The part of `libsvmasm/GasMeter.h` that the constant optimiser uses.
-/

namespace Sof

open Langutil

namespace GasCosts

def expGas : ℕ := 10

def expByteGas (svmVersion : SVMVersion) : ℕ :=
  if .spuriousDragon ≤ svmVersion then 50 else 10

def createDataGas : ℕ := 200

def txDataZeroGas : ℕ := 4

def txDataNonZeroGas : ℕ := 68

def copyGas : ℕ := 3

/-- The gas of a tier, if it is the same for all its instructions. -/
def tierGas : Tier → Option ℕ
  | .zero => some 0
  | .base => some 2
  | .veryLow => some 3
  | .low => some 5
  | .mid => some 8
  | .high => some 10
  | .ext => some 20
  | _ => none

end GasCosts

namespace GasMeter

/-- Gas costs of instructions with constant costs. Fails where the source throws "Invalid gas tier
for instruction". -/
def runGas (i : Instruction) : Option ℕ :=
  if i = .jumpdest then some 1 else GasCosts.tierGas (instructionInfo i).gasPriceTier

/-- The gas cost of data, in creation code or stored. Fails where the source throws "Gas cost
exceeds 256 bits.". -/
def dataGas (data : List Byte) (inCreation : Bool) : Option ℕ :=
  let gas :=
    if inCreation then
      (data.map fun b => if b ≠ 0 then GasCosts.txDataNonZeroGas else GasCosts.txDataZeroGas).sum
    else GasCosts.createDataGas * data.length
  if gas < 2 ^ 256 - 1 then some gas else none

end GasMeter

end Sof

/-!
## The constant optimiser

`libsvmasm/ConstantOptimiser.cpp`: constants are pushed literally, copied from the data of the
code, or computed. What throws an exception in the source is `none`.
-/

namespace Sof

open Semantics Langutil

/-- The settings for a constant: whether this is for contract creation, the estimated number of
calls per opcode, how often the constant appears, and the version of the machine. -/
structure Params where
  isCreation : Bool
  runs : ℕ
  multiplicity : ℕ
  svmVersion : SVMVersion
  deriving DecidableEq, Repr

namespace ConstantOptimisationMethod

/-- The run gas for the given items ignoring special gas costs. -/
def simpleRunGas : List AssemblyItem → Option ℕ
  | [] => some 0
  | .push _ :: items =>
    (GasMeter.runGas (.push 0)).bind fun gas => (simpleRunGas items).map (gas + ·)
  | .operation .exp :: items => (simpleRunGas items).map (GasCosts.expGas + ·)
  | .operation i :: items =>
    (GasMeter.runGas i).bind fun gas => (simpleRunGas items).map (gas + ·)
  | _ :: items => simpleRunGas items

/-- The number of bytes of the items, assuming addresses of 3 bytes. -/
def bytesRequired : List AssemblyItem → Option ℕ
  | [] => some 0
  | i :: items => (i.bytesRequired 3).bind fun n => (bytesRequired items).map (n + ·)

section

variable (params : Params)

/-- The gas needed to store the given data literally. Fails where the source throws "Empty bytecode
generated.". -/
def dataGas (data : List Byte) : Option ℕ :=
  if data = [] then none else GasMeter.dataGas data params.isCreation

/-- The costs of a byte of code. -/
def byteGas : ℕ := if params.isCreation then GasCosts.txDataNonZeroGas else GasCosts.createDataGas

/-- The combined estimated gas usage. -/
def combineGas (runGas repeatedDataGas uniqueDataGas : ℕ) : ℕ :=
  params.runs * runGas + params.multiplicity * repeatedDataGas + uniqueDataGas

end

/-- Put the replacements in the place of the constants. -/
def replaceConstants (items : List AssemblyItem)
    (replacements : Std.TreeMap Word (List AssemblyItem)) : List AssemblyItem :=
  items.flatMap fun
    | .push value => (replacements[value]?).getD [.push value]
    | i => [i]

end ConstantOptimisationMethod

open ConstantOptimisationMethod

namespace LiteralMethod

def gasNeeded (params : Params) (value : Word) : Option ℕ := do
  let runGas ← simpleRunGas [.operation (.push 0)]
  let length := max 1 (Semantics.bytesRequired value.toNat)
  let literalGas ← dataGas params (toBigEndian length value.toNat)
  return combineGas params runGas (byteGas params + literalGas) 0

end LiteralMethod

namespace CodeCopyMethod

/-- Code that copies 32 bytes of data into memory and back to the stack, with the memory restored
afterwards. -/
def copyRoutine (data : AssemblyItem) : List AssemblyItem :=
  -- The constant is used again three times, and the memory is backed up.
  [.push 0, .operation (.dup 0), .operation .mload,
    -- codecopy(0, <offset>, 32)
    .push 32, data, .operation (.dup 3), .operation .codecopy,
    -- mload(0)
    .operation (.dup 1), .operation .mload,
    -- restore original memory
    .operation (.swap 1), .operation .mstore]

/-- The routine with data that is still to be replaced. -/
def genericRoutine : List AssemblyItem := copyRoutine (.pushData (1 <<< 16))

def gasNeeded (params : Params) (value : Word) : Option ℕ := do
  let runGas ← simpleRunGas genericRoutine
  let length ← bytesRequired genericRoutine
  let uniqueDataGas ← dataGas params (toBigEndian 32 value.toNat)
  return combineGas params (runGas + GasCosts.copyGas) (length * byteGas params) uniqueDataGas

end CodeCopyMethod

/-- Add data to an assembly. -/
def Assembly.newData (keccak256 : List Byte → Word) (a : Assembly) (data : List Byte) :
    Assembly × AssemblyItem :=
  let h := keccak256 data
  ({ a with data := a.data.insert h data }, .pushData h)

/-- The assembly with the data, and the routine that copies it. -/
def CodeCopyMethod.execute (keccak256 : List Byte → Word) (value : Word) (a : Assembly) :
    Assembly × List AssemblyItem :=
  let r := a.newData keccak256 (toBigEndian 32 value.toNat)
  (r.1, copyRoutine r.2)

/-! ### Computations -/

namespace ComputeMethod

section

variable (params : Params)

def gasNeeded (routine : List AssemblyItem) : Option ℕ := do
  let numExps := routine.count (.operation .exp)
  let runGas ← simpleRunGas routine
  let length ← bytesRequired routine
  return combineGas params
    (runGas + numExps * (GasCosts.expGas + GasCosts.expByteGas params.svmVersion))
    (length * byteGas params) 0

/-- A search, which counts down the steps that it may still make. -/
abbrev Search := StateT ℕ Option

/-- A routine and its costs. -/
structure Candidate where
  routine : List AssemblyItem
  gas : ℕ

/-- The lower part, if there is one. -/
def lowerRoutine (lowerPart : ℤ) (findLower : Search (List AssemblyItem)) :
    Search (List AssemblyItem) :=
  if lowerPart ≠ 0 then findLower else return []

/-- What multiplies the power of two on the stack by the upper part. -/
def multiplyRoutine (upperPart : Word) (findUpper : Search (List AssemblyItem)) :
    Search (List AssemblyItem) :=
  if upperPart ≠ 1 then do
    let upper ← findUpper
    return upper ++ [.operation .mul]
  else return []

/-- The upper part at its position. -/
def upperRoutine (bits : ℕ) (upperPart : Word) (findUpper : Search (List AssemblyItem)) :
    Search (List AssemblyItem) :=
  if params.svmVersion.hasBitwiseShifting then do
    let upper ← findUpper
    return upper ++ [.push (.ofNat 256 bits), .operation .shl]
  else do
    let multiply ← multiplyRoutine upperPart findUpper
    return [.push (.ofNat 256 bits), .push 2, .operation .exp] ++ multiply

/-- What puts the lower part to the upper part. -/
def combineRoutine (lowerPart : ℤ) : List AssemblyItem :=
  if 0 < lowerPart then [.operation .add]
  else if lowerPart < 0 then [.operation .sub]
  else []

/-- Try to decompose the number at a bit. -/
def tryDecomposition (value : Word)
    (find : ∀ w : Word, w < value → Search (List AssemblyItem)) (bits : ℕ) (best : Candidate) :
    Search Candidate :=
  match h : decompose value bits with
  | none => return best
  | some d => do
    let lower ← lowerRoutine d.lowerPart (find d.lowerWord (lowerWord_lt h))
    let upper ← upperRoutine params bits d.upperPart (find d.upperPart (upperPart_lt h))
    let newRoutine := lower ++ upper ++ combineRoutine d.lowerPart
    modify (· - 1)
    let newGas ← StateT.lift (gasNeeded params newRoutine)
    return if newGas < best.gas then ⟨newRoutine, newGas⟩ else best

/-- Try the bits below `n + 9`, from the highest one to bit 9. -/
def tryDecompositions (value : Word)
    (find : ∀ w : Word, w < value → Search (List AssemblyItem)) : ℕ → Candidate → Search Candidate
  | 0, best => return best
  | n + 1, best => do
    let maxSteps ← get
    if maxSteps = 0 then return best
    else do
      let best ← tryDecomposition params value find (n + 9) best
      tryDecompositions value find n best

/-- Search for a routine, with `find` for smaller numbers. -/
def searchRepresentation (value : Word)
    (find : ∀ w : Word, w < value → Search (List AssemblyItem)) : Search (List AssemblyItem) :=
  if value < 0x10000 then
    -- very small value, not worth computing
    return [.push value]
  else if h : bytesRequired (~~~value).toNat < bytesRequired value.toNat then do
    -- negated is shorter to represent
    let negation ← find (~~~value) (not_lt_of_bytesRequired h)
    return negation ++ [.operation .not]
  else do
    let gas ← StateT.lift (gasNeeded params [.push value])
    let best ← tryDecompositions params value find 247 ⟨[.push value], gas⟩
    return best.routine

/-- Tries to recursively find a way to compute the number. -/
def findRepresentation (value : Word) : Search (List AssemblyItem) :=
  searchRepresentation params value fun w _ => findRepresentation w
termination_by value.toNat

/-- A tiny machine that can only evaluate some instructions. -/
def checkInstruction : Instruction → List Word → Option (List Word)
  | .mul, a :: b :: stack => some (a * b :: stack)
  | .exp, a :: b :: stack =>
    if 0xff < b then none else some (.ofNat 256 (a.toNat ^ b.toNat) :: stack)
  | .add, a :: b :: stack => some ((a + b) :: stack)
  | .sub, a :: b :: stack => some ((a - b) :: stack)
  | .not, a :: stack => some (~~~a :: stack)
  | .shl, a :: b :: stack =>
    if params.svmVersion.hasBitwiseShifting ∧ a ≤ 255 then some (b <<< a.toNat :: stack) else none
  | .shr, a :: b :: stack =>
    if params.svmVersion.hasBitwiseShifting ∧ a ≤ 255 then some (b >>> a.toNat :: stack) else none
  | _, _ => none

def checkItem (stack : List Word) : AssemblyItem → Option (List Word)
  | .operation i => checkInstruction params i stack
  | .push w => some (w :: stack)
  | _ => none

/-- Recomputes the value from the calculated representation and checks for correctness. -/
def checkRepresentation (value : Word) (routine : List AssemblyItem) : Bool :=
  routine.foldlM (checkItem params) [] = some [value]

/-- The routine that is computed when the method is set up. Fails where the source throws "Invalid
constant expression created.". -/
def create (value : Word) : Option (List AssemblyItem) := do
  let (routine, _) ← findRepresentation params value 10000
  if checkRepresentation params value routine then some routine else none

end

end ComputeMethod

namespace ConstantOptimisationMethod

/-- The constants that are pushed, and how often. -/
def pushes (items : List AssemblyItem) : Std.TreeMap Word ℕ :=
  items.foldl (fun m i =>
    match i with
    | .push value => m.insert value (m.getD value 0 + 1)
    | _ => m) ∅

/-- What the loop over the constants changes. -/
structure State where
  assembly : Assembly
  pendingReplacements : Std.TreeMap Word (List AssemblyItem) := ∅
  optimisations : ℕ := 0

/-- Choose the cheapest way to represent a constant. -/
def optimiseConstant (keccak256 : List Byte → Word) (isCreation : Bool) (runs : ℕ)
    (svmVersion : SVMVersion) (s : State) (item : Word × ℕ) : Option State :=
  let value := item.1
  if value < 0x100 then some s
  else do
    let params : Params := ⟨isCreation, runs, item.2, svmVersion⟩
    let literalGas ← LiteralMethod.gasNeeded params value
    let copyGas ← CodeCopyMethod.gasNeeded params value
    let routine ← ComputeMethod.create params value
    let computeGas ← ComputeMethod.gasNeeded params routine
    return if copyGas < literalGas ∧ copyGas < computeGas then
      let r := CodeCopyMethod.execute keccak256 value s.assembly
      ⟨r.1, s.pendingReplacements.insert value r.2, s.optimisations + 1⟩
    else if computeGas < literalGas ∧ computeGas ≤ copyGas then
      -- an empty replacement would not be used
      ⟨s.assembly, if routine.isEmpty then s.pendingReplacements
        else s.pendingReplacements.insert value routine, s.optimisations + 1⟩
    else s

/-- The assembly with optimised constants, and the number of optimisations. -/
def optimiseConstants (keccak256 : List Byte → Word) (isCreation : Bool) (runs : ℕ)
    (svmVersion : SVMVersion) (a : Assembly) : Option (Assembly × ℕ) := do
  let s ← (pushes a.items).toList.foldlM
    (optimiseConstant keccak256 isCreation runs svmVersion) { assembly := a }
  return ({ s.assembly with items := replaceConstants a.items s.pendingReplacements },
    s.optimisations)

end ConstantOptimisationMethod

end Sof
