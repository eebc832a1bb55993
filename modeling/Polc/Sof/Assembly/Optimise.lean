import Polc.Sof.Assembly
import Polc.Sof.BlockDeduplicator
import Polc.Sof.PeepholeOptimiser

/-!
# Optimising an assembly

`Assembly::optimise` with the jumpdest remover of `libsvmasm/JumpdestRemover.cpp`. What the common
subexpression eliminator makes of a chunk of items and what the constant optimiser makes of an
assembly are parameters.
-/

namespace Sof

open AssemblyItem

namespace JumpdestRemover

/-- The tags of a sub-assembly, or of the assembly itself, that the items push. -/
def referencedTags (items : List AssemblyItem) (subId : Nat) : Finset Nat :=
  (items.filterMap fun
    | .pushTag d =>
      if (splitForeignPushTag d).1 = subId then some (splitForeignPushTag d).2 else none
    | _ => none).toFinset

/-- The item places a tag that is not referenced. -/
def isUnreferenced (references : Finset Nat) : AssemblyItem → Bool
  | .tag d => (splitForeignPushTag d).2 ∉ references
  | _ => false

/-- The tag of a sub-assembly is used as label. -/
def isForeignLabel : AssemblyItem → Bool
  | .tag d => (splitForeignPushTag d).1 ≠ noSub
  | _ => false

/-- The items without tags that are never referenced, and whether there were any. Fails where the
source throws "Sub-assembly tag used as label.". -/
def optimise (items : List AssemblyItem) (tagsReferencedFromOutside : Finset Nat) :
    Option (List AssemblyItem × Bool) :=
  let references := referencedTags items noSub ∪ tagsReferencedFromOutside
  let kept := items.filter fun i => !isUnreferenced references i
  if items.any isForeignLabel then none else some (kept, kept.length ≠ items.length)

end JumpdestRemover

/-! ### The optimiser -/

/-- Which steps run. The version of the machine and the number of executions are settings of the
constant optimiser only. -/
structure OptimiserSettings where
  isCreation : Bool := false
  runJumpdestRemover : Bool := false
  runPeephole : Bool := false
  runDeduplicate : Bool := false
  runCSE : Bool := false
  runConstantOptimiser : Bool := false

inductive OptimiserException where
  | subAssemblyTagUsedAsLabel
  /-- The size of an item of undefined type was asked for. -/
  | invalidOpcode
  | peepholeStuck
  | invalidTagReplacement
  | replacementAlreadyKnown
  /-- The model ran out of fuel. -/
  | timeout
  deriving DecidableEq, Repr

/-- The texts of the exceptions that have one. -/
def OptimiserException.message : OptimiserException → Option String
  | invalidOpcode | timeout => none
  | subAssemblyTagUsedAsLabel => some "Sub-assembly tag used as label."
  | peepholeStuck => some "Peephole optimizer seems to be stuck."
  | invalidTagReplacement => some "Invalid tag replacement."
  | replacementAlreadyKnown => some "Replacement already known."

/-- The steps that are parameters. -/
structure OptimiserSteps where
  /-- What a fresh eliminator makes of a chunk of items, unless it fails. -/
  getOptimizedItems : List AssemblyItem → Option (List AssemblyItem)
  optimiseConstants : OptimiserSettings → Assembly → Assembly

namespace Assembly

/-- What the loop of `optimiseInternal` changes. -/
structure OptimiserState where
  items : List AssemblyItem
  tagsReferencedFromOutside : Finset Nat
  tagReplacements : ReplacedTags

abbrev Optimising := Except OptimiserException

/-- The loop of peephole passes. -/
def runPeephole : Nat → List AssemblyItem → Nat → Optimising (List AssemblyItem × Nat)
  | 0, _, _ => .error .timeout
  | fuel + 1, items, count =>
    match PeepholeOptimiser.optimise items with
    | none => .error .invalidOpcode
    | some (items', false) => .ok (items', count)
    | some (items', true) =>
      if count + 1 < 64000 then runPeephole fuel items' (count + 1) else .error .peepholeStuck

/-- Note that a tag was replaced by another one. -/
def noteReplacement (s : OptimiserState) (replacement : Word × Word) :
    Optimising OptimiserState :=
  if 2 ^ 64 ≤ replacement.1.toNat ∨ 2 ^ 64 ≤ replacement.2.toNat then
    .error .invalidTagReplacement
  else if s.tagReplacements.contains replacement.1 then .error .replacementAlreadyKnown
  else .ok { s with
    tagReplacements := s.tagReplacements.insert replacement.1 replacement.2
    tagsReferencedFromOutside :=
      if replacement.1.toNat ∈ s.tagsReferencedFromOutside then
        insert replacement.2.toNat (s.tagsReferencedFromOutside.erase replacement.1.toNat)
      else s.tagsReferencedFromOutside }

def runDeduplicate (fuel : Nat) (s : OptimiserState) : Optimising (OptimiserState × Bool) :=
  match BlockDeduplicator.deduplicate fuel s.items with
  | none => .error .timeout
  | some r =>
    if r.changed then do
      let s ← r.replacedTags.toList.foldlM noteReplacement { s with items := r.items }
      return (s, true)
    else .ok ({ s with items := r.items }, false)

/-- The item ends a chunk. -/
def breaksCSEAnalysisBlock (msizeImportant : Bool) : AssemblyItem → Bool
  | .undefinedItem _ | .tag _ | .pushDeployTimeAddress _ => true
  | .operation i => SemanticInformation.breaksCSEAnalysisBlock i msizeImportant
  | _ => false

/-- The items up to the next one that ends a chunk, and the items behind it. -/
def nextChunk (msizeImportant : Bool) : List AssemblyItem → List AssemblyItem × List AssemblyItem
  | [] => ([], [])
  | i :: items =>
    if breaksCSEAnalysisBlock msizeImportant i then ([i], items)
    else
      let (chunk, rest) := nextChunk msizeImportant items
      (i :: chunk, rest)

/-- Every chunk, replaced by what the eliminator makes of it where that is shorter. There are at
most as many chunks as items. -/
def optimiseChunks (steps : OptimiserSteps) (msizeImportant : Bool) :
    Nat → List AssemblyItem → List AssemblyItem
  | 0, _ => []
  | _, [] => []
  | n + 1, items =>
    let (chunk, rest) := nextChunk msizeImportant items
    let optimised := match steps.getOptimizedItems chunk with
      | some optimisedChunk => if optimisedChunk.length < chunk.length then optimisedChunk else chunk
      | none => chunk
    optimised ++ optimiseChunks steps msizeImportant n rest

def runCSE (steps : OptimiserSteps) (items : List AssemblyItem) : List AssemblyItem × Bool :=
  let usesMSize := items.contains (.operation .msize)
  let optimisedItems := optimiseChunks steps usesMSize items.length items
  if optimisedItems.length < items.length then (optimisedItems, true) else (items, false)

/-- The steps of a round in front of the deduplicator, with the number of changes. -/
def beforeDeduplicate (fuel : Nat) (settings : OptimiserSettings) (s : OptimiserState) :
    Optimising (OptimiserState × Nat) := do
  let (items, count) ←
    if settings.runJumpdestRemover then
      match JumpdestRemover.optimise s.items s.tagsReferencedFromOutside with
      | none => .error .subAssemblyTagUsedAsLabel
      | some (items, changed) => pure (items, changed.toNat)
    else pure (s.items, 0)
  let (items, count) ←
    if settings.runPeephole then runPeephole fuel items count else pure (items, count)
  return ({ s with items := items }, count)

/-- One round of the loop, with the number of changes. -/
def round (steps : OptimiserSteps) (fuel : Nat) (settings : OptimiserSettings)
    (s : OptimiserState) : Optimising (OptimiserState × Nat) := do
  let (s, count) ← beforeDeduplicate fuel settings s
  let (s, deduplicated) ←
    if settings.runDeduplicate then runDeduplicate fuel s else pure (s, false)
  let (items, eliminated) := if settings.runCSE then runCSE steps s.items else (s.items, false)
  return ({ s with items := items }, count + deduplicated.toNat + eliminated.toNat)

/-- Rounds until no new optimisation possibilities are found. -/
def rounds (steps : OptimiserSteps) (fuel : Nat) (settings : OptimiserSettings) :
    Nat → OptimiserState → Optimising OptimiserState
  | 0, _ => .error .timeout
  | n + 1, s => do
    let (s, count) ← round steps fuel settings s
    if 0 < count then rounds steps fuel settings n s else return s

mutual

/-- Optimise an assembly, and say which tags were replaced. The set holds the tags of the assembly
that are referenced in a super-assembly. -/
def optimiseInternal (steps : OptimiserSteps) (fuel : Nat) (settings : OptimiserSettings) :
    Assembly → Finset Nat → Optimising (Assembly × ReplacedTags)
  | ⟨usedTags, items, data, auxiliaryData, subs, strings, libraries, deposit⟩,
      tagsReferencedFromOutside => do
    let (subs, items) ←
      optimiseSubs steps fuel { settings with isCreation := false } subs 0 items
    let s ← rounds steps fuel settings fuel ⟨items, tagsReferencedFromOutside, ∅⟩
    let a := ⟨usedTags, s.items, data, auxiliaryData, subs, strings, libraries, deposit⟩
    return (if settings.runConstantOptimiser then steps.optimiseConstants settings a else a,
      s.tagReplacements)

/-- Optimise the sub-assemblies from `subId` on, and apply the replacements to the items. -/
def optimiseSubs (steps : OptimiserSteps) (fuel : Nat) (settings : OptimiserSettings) :
    List Assembly → Nat → List AssemblyItem → Optimising (List Assembly × List AssemblyItem)
  | [], _, items => return ([], items)
  | sub :: subs, subId, items => do
    let (sub, subTagReplacements) ←
      optimiseInternal steps fuel settings sub (JumpdestRemover.referencedTags items subId)
    let items := (BlockDeduplicator.applyTagReplacement items subTagReplacements subId).1
    let (subs, items) ← optimiseSubs steps fuel settings subs (subId + 1) items
    return (sub :: subs, items)

end

/-- Optimise the current assembly. -/
def optimise (steps : OptimiserSteps) (fuel : Nat) (settings : OptimiserSettings) (a : Assembly) :
    Optimising Assembly := do
  let (a, _) ← a.optimiseInternal steps fuel settings ∅
  return a

end Assembly

end Sof
