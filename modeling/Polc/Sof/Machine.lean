import Polc.Semantics.Result
import Polc.Sof.SemanticInformation
import Mathlib.Data.BitVec

/-!
# The machine the instructions run on

A state holds memory, active memory size, storage, return data, the rest of the world and the
events emitted so far. What is constant during one call is in an `Environment`, which also
answers what the model leaves open: hashes, other accounts, external calls, gas and code
positions. All answers are functions of what the machine has done so far, so that two runs with
the same effects get the same answers.
-/

namespace Sof

open Semantics

abbrev Byte := BitVec 8
abbrev Word := BitVec 256

/-- The word whose big-endian bytes are `f 0, …, f 31`. -/
def wordOfBytes (f : Nat → Byte) : Word :=
  (List.range 32).foldl (fun w i => w <<< 8 ||| (f i).setWidth 256) 0

/-- Byte `i` of a word, counted from the most significant one. -/
def Word.byte (w : Word) (i : Nat) : Byte :=
  (w >>> (8 * (31 - i))).setWidth 8

/-- The word of a truth value. -/
def Word.ofBool (b : Bool) : Word := if b then 1 else 0

/-- Byte `i` of `x` as a word, zero beyond the last byte. -/
def Word.byteAt (i x : Word) : Word :=
  if 32 ≤ i.toNat then 0 else (x.byte i.toNat).setWidth 256

/-- Repeat the sign bit of the `k + 1` low bytes of `x` upwards. -/
def Word.signextend (k x : Word) : Word :=
  if 31 ≤ k.toNat then x else (x.setWidth (8 * k.toNat + 8)).signExtend 256

-- The guards of the shifts keep their evaluation short.

def Word.shl (s x : Word) : Word := if 256 ≤ s.toNat then 0 else x <<< s.toNat

def Word.shr (s x : Word) : Word := if 256 ≤ s.toNat then 0 else x >>> s.toNat

def Word.sar (s x : Word) : Word := x.sshiftRight (min s.toNat 256)

/-- Value of the instructions that compute on their arguments only. Missing arguments count as
zero; the analyser rejects programs that leave out arguments. -/
def arithmetic (i : Instruction) (args : List Word) : Option Word :=
  let a := args.getD 0 0
  let b := args.getD 1 0
  let c := args.getD 2 0
  match i with
  | .add => some (a + b)
  | .mul => some (a * b)
  | .sub => some (a - b)
  | .div => some (a / b)
  | .sdiv => some (a.sdiv b)
  | .mod => some (if b = 0 then 0 else a % b)
  | .smod => some (if b = 0 then 0 else a.srem b)
  | .addmod => some (if c = 0 then 0 else .ofNat 256 ((a.toNat + b.toNat) % c.toNat))
  | .mulmod => some (if c = 0 then 0 else .ofNat 256 ((a.toNat * b.toNat) % c.toNat))
  | .exp => some (.ofNat 256 (a.toNat ^ b.toNat))
  | .signextend => some (.signextend a b)
  | .lt => some (.ofBool (a.ult b))
  | .gt => some (.ofBool (b.ult a))
  | .slt => some (.ofBool (a.slt b))
  | .sgt => some (.ofBool (b.slt a))
  | .eq => some (.ofBool (a = b))
  | .iszero => some (.ofBool (a = 0))
  | .and => some (a &&& b)
  | .or => some (a ||| b)
  | .xor => some (a ^^^ b)
  | .not => some (~~~a)
  | .byte => some (.byteAt a b)
  | .shl => some (.shl a b)
  | .shr => some (.shr a b)
  | .sar => some (.sar a b)
  | _ => none

/-! ### States and environments -/

/-- The kinds of message calls. -/
inductive CallKind where
  | call | callcode | delegatecall | staticcall
  deriving DecidableEq, Repr

/-- A message call or contract creation, as the environment sees it. -/
inductive Request where
  | call (kind : CallKind) (gas address value : Word) (input : List Byte)
  | create (value : Word) (salt : Option Word) (code : List Byte)
  deriving DecidableEq, Repr

/-- What an execution leaves behind besides memory and storage, in order. -/
inductive Event where
  | log (topics : List Word) (data : List Byte)
  | request (r : Request)
  deriving DecidableEq, Repr

/-- The answer to a request: the pushed word (a success flag, or the address of the new contract),
the returned data, and the world and own storage after it. -/
structure Reply (World : Type) where
  value : BitVec 160
  output : List Byte
  world : World
  storage : Word → Word

/-- Everything an execution reads and never changes. Addresses have 160 bits. -/
structure Environment (World : Type) where
  address : BitVec 160
  origin : BitVec 160
  caller : BitVec 160
  coinbase : BitVec 160
  callvalue : Word
  gasprice : Word
  timestamp : Word
  number : Word
  difficulty : Word
  gaslimit : Word
  calldata : List Byte
  code : List Byte
  blockhash : Word → Word
  keccak256 : List Byte → Word
  balance : World → Word → Word
  extcodehash : World → Word → Word
  extcode : World → Word → List Byte
  reply : Request → World → (Word → Word) → Reply World
  gas : List Event → Word
  pc : List Event → Word
  datasize : String → Word
  dataoffset : String → Word

/-- The state of the machine apart from the stack. -/
structure SvmState (World : Type) where
  memory : Nat → Byte
  msize : Nat
  storage : Word → Word
  returndata : List Byte
  world : World
  events : List Event

instance : Inhabited (Environment Unit) where
  default := {
    address := 0, origin := 0, caller := 0, coinbase := 0, callvalue := 0, gasprice := 0
    timestamp := 0, number := 0, difficulty := 0, gaslimit := 0, calldata := [], code := []
    blockhash := fun _ => 0, keccak256 := fun bytes => .ofNat 256 bytes.length
    balance := fun _ _ => 0, extcodehash := fun _ _ => 0, extcode := fun _ _ => []
    reply := fun _ _ storage => ⟨0, [], (), storage⟩
    gas := fun _ => 0, pc := fun _ => 0, datasize := fun _ => 0, dataoffset := fun _ => 0 }

instance : Inhabited (SvmState Unit) where
  default := ⟨fun _ => 0, 0, fun _ => 0, [], (), []⟩

/-- How an execution ends before its code does. -/
inductive Halt where
  | stop
  | «return» (data : List Byte)
  | revert (data : List Byte)
  | invalid
  | selfdestruct (beneficiary : Word)
  deriving DecidableEq, Repr

variable {World : Type}

/-- What running code with values of type `α` yields. -/
abbrev Run (World : Type) (α : Type) := Result Halt (SvmState World) α

namespace SvmState

/-- Make the bytes from `offset` on active; nothing happens when there are none. -/
def expand (m : SvmState World) (offset len : Nat) : SvmState World :=
  if len = 0 then m else { m with msize := max m.msize ((offset + len + 31) / 32 * 32) }

def readMemory (m : SvmState World) (offset len : Nat) : List Byte :=
  (List.range len).map fun i => m.memory (offset + i)

/-- Replace the `len` bytes from `offset` on by `f 0, f 1, …`. -/
def writeMemory (m : SvmState World) (offset len : Nat) (f : Nat → Byte) : SvmState World :=
  { m.expand offset len with
    memory := fun a => if offset ≤ a ∧ a < offset + len then f (a - offset) else m.memory a }

def emit (m : SvmState World) (e : Event) : SvmState World :=
  { m with events := m.events ++ [e] }

end SvmState

/-- Send a request and store its answer; `outOffset` and `outSize` say where the output goes. -/
def sendRequest (env : Environment World) (r : Request) (outOffset outSize : Nat)
    (m : SvmState World) : Run World (List Word) :=
  let reply := env.reply r m.world m.storage
  let m := m.expand outOffset outSize
  let n := min outSize reply.output.length
  .ok [reply.value.setWidth 256]
    { (m.writeMemory outOffset n fun i => reply.output.getD i 0).emit (.request r) with
      storage := reply.storage
      returndata := reply.output
      world := reply.world }

/-- Value of the instructions that read constants of the call. -/
def Environment.constant (env : Environment World) (i : Instruction) (args : List Word) :
    Option Word :=
  match i with
  | .address => some (env.address.setWidth 256)
  | .origin => some (env.origin.setWidth 256)
  | .caller => some (env.caller.setWidth 256)
  | .coinbase => some (env.coinbase.setWidth 256)
  | .callvalue => some env.callvalue
  | .calldataload => some (wordOfBytes fun k => env.calldata.getD ((args.getD 0 0).toNat + k) 0)
  | .calldatasize => some (.ofNat 256 env.calldata.length)
  | .codesize => some (.ofNat 256 env.code.length)
  | .gasprice => some env.gasprice
  | .blockhash => some (env.blockhash (args.getD 0 0))
  | .timestamp => some env.timestamp
  | .number => some env.number
  | .difficulty => some env.difficulty
  | .gaslimit => some env.gaslimit
  | _ => none

/-- Execute an instruction on arguments already taken from the stack. The jumps, which code
without labels cannot contain, are invalid here; `PUSH`, `DUP` and `SWAP` have no functional
form and do nothing. -/
def execInstruction (env : Environment World) (i : Instruction) (args : List Word)
    (m : SvmState World) : Run World (List Word) :=
  match (arithmetic i args).or (env.constant i args) with
  | some w => .ok [w] m
  | none =>
    let a := args.getD 0 0
    let b := args.getD 1 0
    let c := args.getD 2 0
    let d := args.getD 3 0
    match i with
    | .stop => .halt .stop m
    | .keccak256 =>
      .ok [env.keccak256 (m.readMemory a.toNat b.toNat)] (m.expand a.toNat b.toNat)
    | .balance => .ok [env.balance m.world a] m
    | .extcodesize => .ok [.ofNat 256 (env.extcode m.world a).length] m
    | .extcodehash => .ok [env.extcodehash m.world a] m
    | .returndatasize => .ok [.ofNat 256 m.returndata.length] m
    | .calldatacopy =>
      .ok [] (m.writeMemory a.toNat c.toNat fun k => env.calldata.getD (b.toNat + k) 0)
    | .codecopy => .ok [] (m.writeMemory a.toNat c.toNat fun k => env.code.getD (b.toNat + k) 0)
    | .extcodecopy =>
      .ok [] (m.writeMemory b.toNat d.toNat fun k =>
        (env.extcode m.world a).getD (c.toNat + k) 0)
    | .returndatacopy =>
      if b.toNat + c.toNat ≤ m.returndata.length then
        .ok [] (m.writeMemory a.toNat c.toNat fun k => m.returndata.getD (b.toNat + k) 0)
      else .halt .invalid m
    | .pop => .ok [] m
    | .mload => .ok [wordOfBytes fun k => m.memory (a.toNat + k)] (m.expand a.toNat 32)
    | .mstore => .ok [] (m.writeMemory a.toNat 32 b.byte)
    | .mstore8 => .ok [] (m.writeMemory a.toNat 1 fun _ => b.byte 31)
    | .sload => .ok [m.storage a] m
    | .sstore => .ok [] { m with storage := fun k => if k = a then b else m.storage k }
    | .pc => .ok [env.pc m.events] m
    | .msize => .ok [.ofNat 256 m.msize] m
    | .gas => .ok [env.gas m.events] m
    | .jumpdest => .ok [] m
    | .push _ => .ok [0] m
    | .log n =>
      .ok [] ((m.expand a.toNat b.toNat).emit
        (.log ((args.drop 2).take n) (m.readMemory a.toNat b.toNat)))
    | .create =>
      sendRequest env (.create a none (m.readMemory b.toNat c.toNat)) 0 0
        (m.expand b.toNat c.toNat)
    | .create2 =>
      sendRequest env (.create a (some d) (m.readMemory b.toNat c.toNat)) 0 0
        (m.expand b.toNat c.toNat)
    | .call => message .call c 3
    | .callcode => message .callcode c 3
    | .delegatecall => message .delegatecall 0 2
    | .staticcall => message .staticcall 0 2
    | .«return» =>
      .halt (.«return» (m.readMemory a.toNat b.toNat)) (m.expand a.toNat b.toNat)
    | .revert => .halt (.revert (m.readMemory a.toNat b.toNat)) (m.expand a.toNat b.toNat)
    | .selfdestruct => .halt (.selfdestruct a) m
    | .dup _ | .swap _ => .ok [] m
    | _ => .halt .invalid m
where
  /-- A message call; its memory ranges start at argument `k`. -/
  message (kind : CallKind) (value : Word) (k : Nat) : Run World (List Word) :=
    let arg (j : Nat) := (args.getD (k + j) 0).toNat
    sendRequest env
      (.call kind (args.getD 0 0) (args.getD 1 0) value (m.readMemory (arg 0) (arg 1)))
      (arg 2) (arg 3) (m.expand (arg 0) (arg 1))

open SemanticInformation

/-- The value of a movable instruction. -/
def movableValue (env : Environment World) (i : Instruction) (args : List Word) : List Word :=
  match i with
  | .pop => []
  | .push _ => [0]
  | _ => [((arithmetic i args).or (env.constant i args)).getD 0]

/-- A movable instruction computes a value that the machine's state does not influence, and
leaves the state alone. -/
lemma execInstruction_of_movable {i : Instruction} (h : movable i)
    (env : Environment World) (args : List Word) (m : SvmState World) :
    execInstruction env i args m = .ok (movableValue env i args) m := by
  cases i <;> first | rfl | exact absurd h (by decide) | (revert h; simp [movable,
    Instruction.isDupInstruction, Instruction.isSwapInstruction, instructionInfo])

end Sof
