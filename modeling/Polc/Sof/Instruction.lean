import Mathlib.Algebra.GroupWithZero.Nat
import Mathlib.Data.Fin.Basic

/-!
# Instructions of the virtual machine

The instruction set of `libsvmasm/Instruction.h` with the table of
`libsvmasm/Instruction.cpp`. The pseudo instructions of the 1.5 machine have no entry in that
table and are left out.
-/

namespace Sof

/-- Virtual machine bytecode instruction. The families are indexed from zero: `push n` is
`PUSH(n+1)`, `dup n` is `DUP(n+1)`, `swap n` is `SWAP(n+1)` and `log n` is `LOGn`. -/
inductive Instruction where
  | stop | add | mul | sub | div | sdiv | mod | smod | addmod | mulmod | exp | signextend
  | lt | gt | slt | sgt | eq | iszero | and | or | xor | not | byte | shl | shr | sar
  | keccak256
  | address | balance | origin | caller | callvalue | calldataload | calldatasize | calldatacopy
  | codesize | codecopy | gasprice | extcodesize | extcodecopy | returndatasize
  | returndatacopy | extcodehash
  | blockhash | coinbase | timestamp | number | difficulty | gaslimit
  | pop | mload | mstore | mstore8 | sload | sstore | jump | jumpi | pc | msize | gas
  | jumpdest
  | push (n : Fin 32)
  | dup (n : Fin 16)
  | swap (n : Fin 16)
  | log (n : Fin 5)
  | create | call | callcode | «return» | delegatecall | create2 | staticcall
  | revert | invalid | selfdestruct
  deriving DecidableEq, Repr

instance neZero_pushes : NeZero 32 := ⟨by decide⟩

instance neZero_stackItems : NeZero 16 := ⟨by decide⟩

instance neZero_topics : NeZero 5 := ⟨by decide⟩

namespace Instruction

def isPushInstruction : Instruction → Bool
  | push _ => true
  | _ => false

def isDupInstruction : Instruction → Bool
  | dup _ => true
  | _ => false

def isSwapInstruction : Instruction → Bool
  | swap _ => true
  | _ => false

end Instruction

/-- The byte that encodes an instruction. -/
def Instruction.opcode : Instruction → BitVec 8
  | stop => 0x00 | add => 0x01 | mul => 0x02 | sub => 0x03 | div => 0x04 | sdiv => 0x05
  | mod => 0x06 | smod => 0x07 | addmod => 0x08 | mulmod => 0x09 | exp => 0x0a
  | signextend => 0x0b
  | lt => 0x10 | gt => 0x11 | slt => 0x12 | sgt => 0x13 | eq => 0x14 | iszero => 0x15
  | and => 0x16 | or => 0x17 | xor => 0x18 | not => 0x19 | byte => 0x1a | shl => 0x1b
  | shr => 0x1c | sar => 0x1d
  | keccak256 => 0x20
  | address => 0x30 | balance => 0x31 | origin => 0x32 | caller => 0x33 | callvalue => 0x34
  | calldataload => 0x35 | calldatasize => 0x36 | calldatacopy => 0x37 | codesize => 0x38
  | codecopy => 0x39 | gasprice => 0x3a | extcodesize => 0x3b | extcodecopy => 0x3c
  | returndatasize => 0x3d | returndatacopy => 0x3e | extcodehash => 0x3f
  | blockhash => 0x40 | coinbase => 0x41 | timestamp => 0x42 | number => 0x43
  | difficulty => 0x44 | gaslimit => 0x45
  | pop => 0x50 | mload => 0x51 | mstore => 0x52 | mstore8 => 0x53 | sload => 0x54
  | sstore => 0x55 | jump => 0x56 | jumpi => 0x57 | pc => 0x58 | msize => 0x59 | gas => 0x5a
  | jumpdest => 0x5b
  | push n => 0x60 + .ofNat 8 n
  | dup n => 0x80 + .ofNat 8 n
  | swap n => 0x90 + .ofNat 8 n
  | log n => 0xa0 + .ofNat 8 n
  | create => 0xf0 | call => 0xf1 | callcode => 0xf2 | «return» => 0xf3 | delegatecall => 0xf4
  | create2 => 0xf5 | staticcall => 0xfa
  | revert => 0xfd | invalid => 0xfe | selfdestruct => 0xff

/-- The instruction that a byte encodes. -/
def Instruction.ofOpcode (b : BitVec 8) : Option Instruction :=
  let families : List Instruction :=
    (List.finRange 32).map push ++ (List.finRange 16).map dup ++ (List.finRange 16).map swap ++
      (List.finRange 5).map log
  let others : List Instruction :=
    [stop, add, mul, sub, div, sdiv, mod, smod, addmod, mulmod, exp, signextend, lt, gt, slt, sgt,
      eq, iszero, and, or, xor, not, byte, shl, shr, sar, keccak256, address, balance, origin,
      caller, callvalue, calldataload, calldatasize, calldatacopy, codesize, codecopy, gasprice,
      extcodesize, extcodecopy, returndatasize, returndatacopy, extcodehash, blockhash, coinbase,
      timestamp, number, difficulty, gaslimit, pop, mload, mstore, mstore8, sload, sstore, jump,
      jumpi, pc, msize, gas, jumpdest, create, call, callcode, «return», delegatecall, create2,
      staticcall, revert, invalid, selfdestruct]
  (families ++ others).find? (·.opcode = b)

lemma Instruction.ofOpcode_opcode (i : Instruction) : ofOpcode i.opcode = some i := by
  cases i with
  | push n | dup n | swap n | log n => revert n; decide +kernel
  | _ => decide +kernel

lemma Instruction.opcode_injective : Function.Injective opcode := by
  intro i j h
  have hj := ofOpcode_opcode j
  rw [← h, ofOpcode_opcode i] at hj
  exact Option.some.inj hj

/-- Gas price classes, in the order of the source. -/
inductive Tier where
  | zero | base | veryLow | low | mid | high | ext | extCode | balance | special | invalid
  deriving DecidableEq, Repr

/-- The position of a tier in the source's enumeration, by which tiers are compared. -/
def Tier.toNat : Tier → Nat
  | zero => 0 | base => 1 | veryLow => 2 | low => 3 | mid => 4 | high => 5 | ext => 6
  | extCode => 7 | balance => 8 | special => 9 | invalid => 10

/-- Information structure for a particular instruction: the stack items it takes and puts back,
and whether it does anything but change the topmost segment of the stack. -/
structure InstructionInfo where
  args : Nat
  ret : Nat
  sideEffects : Bool
  gasPriceTier : Tier
  deriving DecidableEq, Repr

/-- Information on all the instructions. -/
def instructionInfo : Instruction → InstructionInfo
  | .stop => ⟨0, 0, true, .zero⟩
  | .add => ⟨2, 1, false, .veryLow⟩
  | .sub => ⟨2, 1, false, .veryLow⟩
  | .mul => ⟨2, 1, false, .low⟩
  | .div => ⟨2, 1, false, .low⟩
  | .sdiv => ⟨2, 1, false, .low⟩
  | .mod => ⟨2, 1, false, .low⟩
  | .smod => ⟨2, 1, false, .low⟩
  | .exp => ⟨2, 1, false, .special⟩
  | .not => ⟨1, 1, false, .veryLow⟩
  | .lt => ⟨2, 1, false, .veryLow⟩
  | .gt => ⟨2, 1, false, .veryLow⟩
  | .slt => ⟨2, 1, false, .veryLow⟩
  | .sgt => ⟨2, 1, false, .veryLow⟩
  | .eq => ⟨2, 1, false, .veryLow⟩
  | .iszero => ⟨1, 1, false, .veryLow⟩
  | .and => ⟨2, 1, false, .veryLow⟩
  | .or => ⟨2, 1, false, .veryLow⟩
  | .xor => ⟨2, 1, false, .veryLow⟩
  | .byte => ⟨2, 1, false, .veryLow⟩
  | .shl => ⟨2, 1, false, .veryLow⟩
  | .shr => ⟨2, 1, false, .veryLow⟩
  | .sar => ⟨2, 1, false, .veryLow⟩
  | .addmod => ⟨3, 1, false, .mid⟩
  | .mulmod => ⟨3, 1, false, .mid⟩
  | .signextend => ⟨2, 1, false, .low⟩
  | .keccak256 => ⟨2, 1, true, .special⟩
  | .address => ⟨0, 1, false, .base⟩
  | .balance => ⟨1, 1, false, .balance⟩
  | .origin => ⟨0, 1, false, .base⟩
  | .caller => ⟨0, 1, false, .base⟩
  | .callvalue => ⟨0, 1, false, .base⟩
  | .calldataload => ⟨1, 1, false, .veryLow⟩
  | .calldatasize => ⟨0, 1, false, .base⟩
  | .calldatacopy => ⟨3, 0, true, .veryLow⟩
  | .codesize => ⟨0, 1, false, .base⟩
  | .codecopy => ⟨3, 0, true, .veryLow⟩
  | .gasprice => ⟨0, 1, false, .base⟩
  | .extcodesize => ⟨1, 1, false, .extCode⟩
  | .extcodecopy => ⟨4, 0, true, .extCode⟩
  | .returndatasize => ⟨0, 1, false, .base⟩
  | .returndatacopy => ⟨3, 0, true, .veryLow⟩
  | .extcodehash => ⟨1, 1, false, .balance⟩
  | .blockhash => ⟨1, 1, false, .ext⟩
  | .coinbase => ⟨0, 1, false, .base⟩
  | .timestamp => ⟨0, 1, false, .base⟩
  | .number => ⟨0, 1, false, .base⟩
  | .difficulty => ⟨0, 1, false, .base⟩
  | .gaslimit => ⟨0, 1, false, .base⟩
  | .pop => ⟨1, 0, false, .base⟩
  | .mload => ⟨1, 1, true, .veryLow⟩
  | .mstore => ⟨2, 0, true, .veryLow⟩
  | .mstore8 => ⟨2, 0, true, .veryLow⟩
  | .sload => ⟨1, 1, false, .special⟩
  | .sstore => ⟨2, 0, true, .special⟩
  | .jump => ⟨1, 0, true, .mid⟩
  | .jumpi => ⟨2, 0, true, .high⟩
  | .pc => ⟨0, 1, false, .base⟩
  | .msize => ⟨0, 1, false, .base⟩
  | .gas => ⟨0, 1, false, .base⟩
  | .jumpdest => ⟨0, 0, true, .special⟩
  | .push _ => ⟨0, 1, false, .veryLow⟩
  | .dup n => ⟨n + 1, n + 2, false, .veryLow⟩
  | .swap n => ⟨n + 2, n + 2, false, .veryLow⟩
  | .log n => ⟨n + 2, 0, true, .special⟩
  | .create => ⟨3, 1, true, .special⟩
  | .call => ⟨7, 1, true, .special⟩
  | .callcode => ⟨7, 1, true, .special⟩
  | .«return» => ⟨2, 0, true, .zero⟩
  | .delegatecall => ⟨6, 1, true, .special⟩
  | .staticcall => ⟨6, 1, true, .special⟩
  | .create2 => ⟨4, 1, true, .special⟩
  | .revert => ⟨2, 0, true, .zero⟩
  | .invalid => ⟨0, 0, true, .zero⟩
  | .selfdestruct => ⟨1, 0, true, .special⟩

end Sof
