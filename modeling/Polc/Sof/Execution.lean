import Polc.Sof.AssemblyItem
import Polc.Semantics.Transition

/-!
# Execution of assembly items

The meaning of a list of items that is not assembled yet. A pushed tag stays a symbol: it can
be moved on the stack and jumped to, and used as a number it faults, as that would observe a
code position. The position in the code is the list of items that are still ahead; tags are
passed over without a step, since all they do is to cost gas.
-/

namespace Sof

open Semantics AssemblyItem

variable {World : Type}

/-- A stack slot: a number, or a tag of a sub-assembly or (`noSub`) of the code itself. -/
inductive Value where
  | word (w : Word)
  | tag (subId tagId : Nat)
  deriving DecidableEq, Repr

/-- What only assembling decides. -/
structure Layout where
  /-- The value of `PC` in front of so many items, if it may be observed. -/
  pc : Nat → Option Word
  /-- The value of `GAS` in front of so many items and after these events, if it may be
  observed. -/
  gas : Nat → List Event → Option Word
  /-- What items other than `Push` and `PushTag` push. -/
  pushed : AssemblyItem → Word
  /-- The tag at a position of the code. -/
  tagAt : Word → Option Nat

/-- Code positions and gas must not be observed. -/
def Layout.blind (layout : Layout) : Layout :=
  { layout with pc := fun _ => none, gas := fun _ _ => none }

structure Config (World : Type) where
  code : List AssemblyItem
  stack : List Value
  state : SvmState World

/-- What execution of items does not give a meaning to. -/
inductive Fault where
  | stackUnderflow
  /-- A tag is used as a number. -/
  | tagAsNumber
  /-- A code position or the gas is observed. -/
  | observed
  /-- The jump destination is not a tag of the code. -/
  | badDestination
  | undefinedItem
  deriving DecidableEq, Repr

inductive Outcome (World : Type) where
  | halt (reason : Halt) (stack : List Value) (state : SvmState World)
  | fault (f : Fault)

/-- The numbers in the given slots, if all of them are numbers. -/
def Value.words : List Value → Option (List Word)
  | [] => some []
  | .word w :: vs => (words vs).map (w :: ·)
  | .tag _ _ :: _ => none

/-- A tag stays itself under a mask that covers all code positions. -/
def Value.maskTag : Value → Value → Option Value
  | .tag s t, .word w | .word w, .tag s t =>
    if w &&& 0xffffffff = 0xffffffff then some (.tag s t) else none
  | _, _ => none

/-- Tags in front of the next instruction. -/
def skipTags (code : List AssemblyItem) : List AssemblyItem :=
  code.dropWhile (·.placedTag.isSome)

lemma skipTags_cons (i : AssemblyItem) (rest : List AssemblyItem) :
    skipTags (i :: rest) = if i.placedTag.isSome then skipTags rest else i :: rest :=
  List.dropWhile_cons

lemma length_skipTags_le (code : List AssemblyItem) : (skipTags code).length ≤ code.length :=
  (List.dropWhile_sublist _).length_le

lemma placedTag_of_skipTags {code rest : List AssemblyItem} {i : AssemblyItem}
    (h : skipTags code = i :: rest) : i.placedTag = none := by
  induction code with
  | nil => cases h
  | cons j code ih =>
    rw [skipTags_cons] at h
    split_ifs at h with hj
    · exact ih h
    · cases h
      exact Option.not_isSome_iff_eq_none.mp hj

/-- The item places tag `t` of the code itself. -/
def placesTag (t : Nat) : AssemblyItem → Bool
  | .tag d => splitForeignPushTag d = (noSub, t)
  | _ => false

/-- The code from tag `t` on. A tag that is placed twice cannot be assembled. -/
def codeAt (program : List AssemblyItem) (t : Nat) : Option (List AssemblyItem) :=
  if program.countP (placesTag t) = 1 then some (program.dropWhile (!placesTag t ·)) else none

/-- The tag of the code itself that a jump destination means. -/
def jumpTag (layout : Layout) : Value → Option Nat
  | .tag s t => if s = noSub then some t else none
  | .word w => layout.tagAt w

/-- Continue at a jump destination. -/
def jumpTo (layout : Layout) (program : List AssemblyItem) (destination : Value)
    (stack : List Value) (state : SvmState World) : Config World ⊕ Outcome World :=
  match (jumpTag layout destination).bind (codeAt program) with
  | some code => .inl ⟨code, stack, state⟩
  | none => .inr (.fault .badDestination)

/-- Execute an operation that takes numbers from the stack and leaves numbers. -/
def execOperation (env : Environment World) (i : Instruction) (rest : List AssemblyItem)
    (stack : List Value) (state : SvmState World) : Config World ⊕ Outcome World :=
  let args := stack.take (instructionInfo i).args
  let stack := stack.drop (instructionInfo i).args
  if args.length < (instructionInfo i).args then .inr (.fault .stackUnderflow)
  else
    match Value.words args with
    | some args =>
      match execInstruction env i args state with
      | .ok values state => .inl ⟨rest, values.map .word ++ stack, state⟩
      | .halt reason state => .inr (.halt reason stack state)
      | .timeout => .inr (.fault .undefinedItem)
    | none => .inr (.fault .tagAsNumber)

/-- Push what `PC` and `GAS` yield. -/
def execObserve (value : Option Word) (rest : List AssemblyItem) (stack : List Value)
    (state : SvmState World) : Config World ⊕ Outcome World :=
  match value with
  | some w => .inl ⟨rest, .word w :: stack, state⟩
  | none => .inr (.fault .observed)

/-- Execute the next item, with `rest` behind it. -/
def execItem (env : Environment World) (layout : Layout) (program : List AssemblyItem)
    (i : AssemblyItem) (rest : List AssemblyItem) (stack : List Value) (state : SvmState World) :
    Config World ⊕ Outcome World :=
  match i with
  | .operation .jump =>
    match stack with
    | destination :: stack => jumpTo layout program destination stack state
    | [] => .inr (.fault .stackUnderflow)
  | .operation .jumpi =>
    match stack with
    | destination :: .word condition :: stack =>
      if condition = 0 then .inl ⟨rest, stack, state⟩
      else jumpTo layout program destination stack state
    | _ :: .tag _ _ :: _ => .inr (.fault .tagAsNumber)
    | _ => .inr (.fault .stackUnderflow)
  | .operation (.dup n) =>
    match stack[n.val]? with
    | some v => .inl ⟨rest, v :: stack, state⟩
    | none => .inr (.fault .stackUnderflow)
  | .operation (.swap n) =>
    match stack with
    | top :: stack =>
      match stack[n.val]? with
      | some v => .inl ⟨rest, v :: stack.set n top, state⟩
      | none => .inr (.fault .stackUnderflow)
    | [] => .inr (.fault .stackUnderflow)
  | .operation .pop =>
    match stack with
    | _ :: stack => .inl ⟨rest, stack, state⟩
    | [] => .inr (.fault .stackUnderflow)
  | .operation .and =>
    match stack with
    | v :: w :: stack' =>
      match Value.maskTag v w with
      | some masked => .inl ⟨rest, masked :: stack', state⟩
      | none => execOperation env .and rest stack state
    | _ => .inr (.fault .stackUnderflow)
  | .operation (.push _) => .inr (.fault .undefinedItem)
  | .operation .pc => execObserve (layout.pc (rest.length + 1)) rest stack state
  | .operation .gas => execObserve (layout.gas (rest.length + 1) state.events) rest stack state
  | .operation i => execOperation env i rest stack state
  | .push d => .inl ⟨rest, .word d :: stack, state⟩
  | .pushTag d =>
    let tag := splitForeignPushTag d
    .inl ⟨rest, .tag tag.1 tag.2 :: stack, state⟩
  | .tag _ => .inl ⟨rest, stack, state⟩
  | .undefinedItem _ => .inr (.fault .undefinedItem)
  | i => .inl ⟨rest, .word (layout.pushed i) :: stack, state⟩

/-- One step: execution that runs off the end of the items stops. -/
def execStep (env : Environment World) (layout : Layout) (program : List AssemblyItem)
    (c : Config World) : Config World ⊕ Outcome World :=
  match skipTags c.code with
  | [] => .inr (.halt .stop c.stack c.state)
  | i :: rest => execItem env layout program i rest c.stack c.state

variable {env : Environment World} {layout : Layout} {items : List AssemblyItem}

lemma execItem_blind (i : AssemblyItem)
    (rest : List AssemblyItem) (stack : List Value) (state : SvmState World) :
    execItem env layout.blind items i rest stack state = .inr (.fault .observed) ∨
      execItem env layout items i rest stack state =
        execItem env layout.blind items i rest stack state := by
  cases i with
  | operation i =>
    cases i with
    | pc => exact .inl rfl
    | gas => exact .inl rfl
    | _ => exact .inr rfl
  | _ => exact .inr rfl

lemma execStep_blind (c : Config World) :
    execStep env layout.blind items c = .inr (.fault .observed) ∨
      execStep env layout items c = execStep env layout.blind items c := by
  rw [execStep, execStep]
  cases skipTags c.code with
  | nil => exact .inr rfl
  | cons i rest => exact execItem_blind i rest c.stack c.state

lemma ends_blind_iff {c : Config World}
    (h : ¬ Ends (execStep env layout.blind items) c (.fault .observed)) (o : Outcome World) :
    Ends (execStep env layout.blind items) c o ↔ Ends (execStep env layout items) c o := by
  have hstep : ∀ c d : Config World, c = d →
      Advances (execStep env layout.blind items) (execStep env layout items) Eq Eq
        (· = .fault .observed) (fun _ => 0) c d := by
    rintro c _ rfl
    rcases execStep_blind c with hc | hc
    · exact .bad _ ⟨1, runFor_succ_of_end hc 0⟩ rfl
    · apply Advances.of_liftRel
      rw [hc]
  have hgood : ∀ o, Ends (execStep env layout.blind items) c o → ¬ o = .fault .observed := by
    rintro o ho rfl
    exact h ho
  constructor
  · intro ho
    obtain ⟨_, ho', rfl⟩ := ends_of_advances hstep rfl hgood ho
    exact ho'
  · intro ho
    obtain ⟨_, ho', rfl⟩ := ends_of_advances_symm hstep rfl hgood ho
    exact ho'

end Sof
