import Polc.Sof.Instruction

/-!
# Semantic information about instructions

The classification of `libsvmasm/SemanticInformation.cpp` that the optimiser steps rely on.
`Sof.Machine` proves what each class promises about the machine.
-/

namespace Sof.SemanticInformation

open Instruction

/-- The instruction ends the execution. -/
def terminatesControlFlow : Instruction → Bool
  | «return» | selfdestruct | stop | invalid | revert => true
  | _ => false

/-- Execution does not always continue with the next instruction. -/
def altersControlFlow : Instruction → Bool
  | jump | jumpi | «return» | selfdestruct | stop | invalid | revert => true
  | _ => false

/-- The instruction ends a block of items that are analysed together. -/
def breaksCSEAnalysisBlock (i : Instruction) (msizeImportant : Bool) : Bool :=
  if i.isSwapInstruction || i.isDupInstruction then false
  else
    match i with
    -- GAS and PC assume a specific order of opcodes
    | gas | pc | msize => true
    | sstore | mstore => false
    | _ =>
      if !msizeImportant && (i = mload || i = keccak256) then false
      else (instructionInfo i).sideEffects || 2 < (instructionInfo i).args

def isCommutativeOperation : Instruction → Bool
  | add | mul | eq | .and | .or | .xor => true
  | _ => false

/-- The value the instruction leaves on the stack depends only on the information in the current
block header, memory, storage and stack. -/
def isDeterministic : Instruction → Bool
  | call | callcode | delegatecall | staticcall | create | create2 | gas | pc
  | msize -- depends on previous writes and reads, not only on content
  | balance -- depends on previous calls
  | extcodesize | extcodehash
  | returndatacopy -- depends on previous calls
  | returndatasize => false
  | _ => true

/-- The instruction's value depends on its arguments and on constants of the call only, and it
has no effect. -/
def movable (i : Instruction) : Bool :=
  -- These are not really functional.
  if i.isDupInstruction || i.isSwapInstruction then false
  else if (instructionInfo i).sideEffects then false
  else
    match i with
    | keccak256 | balance | extcodesize | extcodehash | returndatasize | sload | pc | msize
    | gas => false
    | _ => true

/-- The instruction can be dropped together with its value. The source asserts that it is
never asked for a `DUP` or a `SWAP`. -/
def sideEffectFree (i : Instruction) : Bool :=
  !(instructionInfo i).sideEffects

/-- The instruction can be dropped unless somebody looks at the size of the active memory. -/
def sideEffectFreeIfNoMSize (i : Instruction) : Bool :=
  if i = keccak256 || i = mload then true else sideEffectFree i

lemma ret_le_one_of_movable {i : Instruction} (h : movable i) :
    (instructionInfo i).ret ≤ 1 := by
  cases i <;> first | decide | exact absurd h (by decide) | (revert h; simp [movable,
    isDupInstruction, isSwapInstruction, instructionInfo])

/-- The instruction modifies the state, or may lead to code that does. -/
def invalidInViewFunctions : Instruction → Bool
  | sstore | jump | jumpi | log _ | create | call | callcode | delegatecall | create2
  | selfdestruct => true
  | _ => false

/-- The instruction reads the state or the environment, or modifies the state. -/
def invalidInPureFunctions : Instruction → Bool
  | address | balance | origin | caller | callvalue | gas | gasprice | extcodesize | extcodecopy
  | extcodehash | blockhash | coinbase | timestamp | number | difficulty | gaslimit | staticcall
  | sload => true
  | i => invalidInViewFunctions i

end Sof.SemanticInformation
