import Polc.Sof.AssemblyItem

/-!
# The peephole optimiser

`libsvmasm/PeepholeOptimiser.cpp`: methods that look at the next one to four items are tried in
order, and what they put out is collected, until no items are left. The result is used if it is
better.
-/

namespace Sof.PeepholeOptimiser

/-- A method looks at the items ahead. Where it applies, it yields the items it puts out and the
items that are left. -/
abbrev Method := List AssemblyItem → Option (List AssemblyItem × List AssemblyItem)

def window1 (applySimple : AssemblyItem → Option (List AssemblyItem)) : Method
  | a :: rest => (applySimple a).map (·, rest)
  | _ => none

def window2 (applySimple : AssemblyItem → AssemblyItem → Option (List AssemblyItem)) : Method
  | a :: b :: rest => (applySimple a b).map (·, rest)
  | _ => none

def window3 (applySimple : AssemblyItem → AssemblyItem → AssemblyItem →
    Option (List AssemblyItem)) : Method
  | a :: b :: c :: rest => (applySimple a b c).map (·, rest)
  | _ => none

def window4 (applySimple : AssemblyItem → AssemblyItem → AssemblyItem → AssemblyItem →
    Option (List AssemblyItem)) : Method
  | a :: b :: c :: d :: rest => (applySimple a b c d).map (·, rest)
  | _ => none

/-! ### Methods -/

def identity (item : AssemblyItem) : Option (List AssemblyItem) :=
  some [item]

/-- The item only pushes a value, and `PushPop` knows it. -/
def isPush : AssemblyItem → Bool
  | .operation i => i.isDupInstruction
  | .push _ | .pushString _ | .pushTag _ | .pushSub _ | .pushSubSize _ | .pushProgramSize _
  | .pushData _ | .pushLibraryAddress _ => true
  | _ => false

def pushPop (push pop : AssemblyItem) : Option (List AssemblyItem) :=
  if pop = .operation .pop ∧ isPush push then some [] else none

def opPop (op pop : AssemblyItem) : Option (List AssemblyItem) :=
  match op with
  | .operation i =>
    if pop = .operation .pop ∧ (instructionInfo i).ret = 1 ∧ !(instructionInfo i).sideEffects then
      some (List.replicate (instructionInfo i).args (.operation .pop))
    else none
  | _ => none

def isSwap : AssemblyItem → Bool
  | .operation i => i.isSwapInstruction
  | _ => false

def doubleSwap (s1 s2 : AssemblyItem) : Option (List AssemblyItem) :=
  if s1 = s2 ∧ isSwap s1 then some [] else none

def doublePush (push1 push2 : AssemblyItem) : Option (List AssemblyItem) :=
  match push1, push2 with
  | .push a, .push b => if a = b then some [.push a, .operation (.dup 0)] else none
  | _, _ => none

/-- Remove `SWAP1` if the following instruction is commutative. -/
def commutativeSwap (swap op : AssemblyItem) : Option (List AssemblyItem) :=
  match op with
  | .operation i =>
    if swap = .operation (.swap 0) ∧ SemanticInformation.isCommutativeOperation i then
      some [.operation i]
    else none
  | _ => none

def swappableOps : Instruction → Option Instruction
  | .lt => some .gt
  | .gt => some .lt
  | .slt => some .sgt
  | .sgt => some .slt
  | _ => none

def swapComparison (swap op : AssemblyItem) : Option (List AssemblyItem) :=
  match op with
  | .operation i =>
    if swap = .operation (.swap 0) then (swappableOps i).map fun j => [.operation j] else none
  | _ => none

def isZeroIsZeroJumpI (iszero1 iszero2 pushTag jumpi : AssemblyItem) :
    Option (List AssemblyItem) :=
  match pushTag with
  | .pushTag d =>
    if iszero1 = .operation .iszero ∧ iszero2 = .operation .iszero ∧ jumpi = .operation .jumpi then
      some [.pushTag d, .operation .jumpi]
    else none
  | _ => none

def jumpToNext (pushTag jump tag : AssemblyItem) : Option (List AssemblyItem) :=
  match pushTag, tag with
  | .pushTag d, .tag e =>
    if d = e then
      if jump = .operation .jump then some [.tag e]
      else if jump = .operation .jumpi then some [.operation .pop, .tag e]
      else none
    else none
  | _, _ => none

def tagConjunctions (pushTag pushConstant and : AssemblyItem) : Option (List AssemblyItem) :=
  match pushTag, pushConstant with
  | .pushTag d, .push w =>
    if and = .operation .and ∧ w &&& 0xffffffff = 0xffffffff then some [.pushTag d] else none
  | _, _ => none

def truthyAnd (push not and : AssemblyItem) : Option (List AssemblyItem) :=
  if push = .push 0 ∧ not = .operation .not ∧ and = .operation .and then some [] else none

/-- What `UnreachableCode` takes for the end of a block. -/
def isStop : AssemblyItem → Bool
  | .operation .jump | .operation .return | .operation .stop | .operation .invalid
  | .operation .selfdestruct | .operation .revert => true
  | _ => false

lemma isStop_eq_endsBlock (i : AssemblyItem) : isStop i = i.endsBlock := by
  cases i with
  | operation i => cases i <;> rfl
  | _ => rfl

/-- Removes everything after a `JUMP` (or similar) until the next tag. -/
def unreachableCode : Method
  | i :: rest =>
    if isStop i ∧ rest.takeWhile (·.placedTag.isNone) ≠ [] then
      some ([i], rest.dropWhile (·.placedTag.isNone))
    else none
  | [] => none

/-- The methods in the order in which they are tried. -/
def methods : List Method :=
  [window2 pushPop, window2 opPop, window2 doublePush, window2 doubleSwap,
    window2 commutativeSwap, window2 swapComparison, window4 isZeroIsZeroJumpI,
    window3 jumpToNext, unreachableCode, window3 tagConjunctions, window3 truthyAnd,
    window1 identity]

/-- Apply the first method that applies. -/
def applyMethods (items : List AssemblyItem) : Option (List AssemblyItem × List AssemblyItem) :=
  methods.findSome? fun method => method items

/-- The loop of `optimise`, which puts out at least as many rounds as there are items. -/
def optimisedItems : Nat → List AssemblyItem → List AssemblyItem
  | 0, _ => []
  | n + 1, items =>
    match applyMethods items with
    | some (out, rest) => out ++ optimisedItems n rest
    | none => []

/-- Bytes of all items; there is no number for items of undefined type. -/
def bytesRequired (items : List AssemblyItem) (addressLength : Nat) : Option Nat :=
  (items.mapM (AssemblyItem.bytesRequired addressLength)).map List.sum

def numberOfPops (items : List AssemblyItem) : Nat :=
  items.count (.operation .pop)

/-- The items after a pass, and whether they have changed. Fails where the source throws. -/
def optimise (items : List AssemblyItem) : Option (List AssemblyItem × Bool) :=
  let optimised := optimisedItems items.length items
  if optimised.length < items.length then some (optimised, true)
  else if optimised.length = items.length then do
    let bytes ← bytesRequired items 3
    let optimisedBytes ← bytesRequired optimised 3
    if optimisedBytes < bytes ∨ numberOfPops items < numberOfPops optimised then
      some (optimised, true)
    else some (items, false)
  else some (items, false)

lemma optimise_eq_some {items items' : List AssemblyItem} {changed : Bool}
    (h : optimise items = some (items', changed)) :
    items' = optimisedItems items.length items ∨ items' = items := by
  rw [optimise] at h
  split_ifs at h
  · cases h
    exact .inl rfl
  · obtain ⟨bytes, -, h⟩ := Option.bind_eq_some_iff.mp h
    obtain ⟨optimisedBytes, -, h⟩ := Option.bind_eq_some_iff.mp h
    split_ifs at h
    · cases h
      exact .inl rfl
    · cases h
      exact .inr rfl
  · cases h
    exact .inr rfl

end Sof.PeepholeOptimiser
