import Polc.Sof.SemanticInformation
import Polc.Yul.AsmData

/-!
# The dialects for the virtual machine

`libyul/Dialect.h` and `libyul/backends/svm/SVMDialect.cpp`. A dialect without object access
and without opcodes has no builtin functions, as the dialect that is not tied to a backend.
-/

namespace Yul

open Sof

/-- The opcodes that are not families, by their lowercase names. -/
def Parser.plainInstructions : List (String × Instruction) :=
  [("stop", .stop), ("add", .add), ("sub", .sub), ("mul", .mul), ("div", .div),
    ("sdiv", .sdiv), ("mod", .mod), ("smod", .smod), ("exp", .exp), ("not", .not), ("lt", .lt),
    ("gt", .gt), ("slt", .slt), ("sgt", .sgt), ("eq", .eq), ("iszero", .iszero), ("and", .and),
    ("or", .or), ("xor", .xor), ("byte", .byte), ("shl", .shl), ("shr", .shr), ("sar", .sar),
    ("addmod", .addmod), ("mulmod", .mulmod), ("signextend", .signextend),
    ("keccak256", .keccak256), ("address", .address), ("balance", .balance),
    ("origin", .origin), ("caller", .caller), ("callvalue", .callvalue),
    ("calldataload", .calldataload), ("calldatasize", .calldatasize),
    ("calldatacopy", .calldatacopy), ("codesize", .codesize), ("codecopy", .codecopy),
    ("gasprice", .gasprice), ("extcodesize", .extcodesize), ("extcodecopy", .extcodecopy),
    ("returndatasize", .returndatasize), ("returndatacopy", .returndatacopy),
    ("extcodehash", .extcodehash), ("blockhash", .blockhash), ("coinbase", .coinbase),
    ("timestamp", .timestamp), ("number", .number), ("difficulty", .difficulty),
    ("gaslimit", .gaslimit), ("pop", .pop), ("mload", .mload), ("mstore", .mstore),
    ("mstore8", .mstore8), ("sload", .sload), ("sstore", .sstore), ("jump", .jump),
    ("jumpi", .jumpi), ("pc", .pc), ("msize", .msize), ("gas", .gas), ("log0", .log 0),
    ("log1", .log 1), ("log2", .log 2), ("log3", .log 3), ("log4", .log 4),
    ("create", .create), ("call", .call), ("callcode", .callcode),
    ("staticcall", .staticcall), ("return", .return), ("delegatecall", .delegatecall),
    ("create2", .create2), ("revert", .revert), ("invalid", .invalid),
    ("selfdestruct", .selfdestruct)]

/-- The opcodes by their lowercase names (`Parser::instructions`): without `JUMPDEST` and the
pushes. -/
def Parser.instructions : List (String × Instruction) :=
  Parser.plainInstructions ++
  (List.finRange 16).map (fun n => ("dup" ++ toString (n.val + 1), .dup n)) ++
  (List.finRange 16).map (fun n => ("swap" ++ toString (n.val + 1), .swap n))

/-- Constructs that are allowed: direct stack access (loose), none of it, or none and types. -/
inductive AsmFlavour where
  | loose | strict | yul
  deriving DecidableEq, Repr

/-- What a call of a builtin function compiles to. -/
inductive BuiltinCode where
  | instruction (i : Instruction)
  | datasize | dataoffset | datacopy
  deriving DecidableEq, Repr

/-- A builtin function and its properties: whether calls can be freely moved and copied, whether
they can be omitted (if the program does not contain `msize`), whether it is `msize` itself,
and whether it accepts literals only. -/
structure BuiltinFunction where
  parameters : Nat
  returns : Nat
  movable : Bool
  sideEffectFree : Bool
  sideEffectFreeIfNoMSize : Bool
  isMSize : Bool
  literalArguments : Bool
  code : BuiltinCode
  deriving DecidableEq, Repr

/-- The instruction of a function that compiles to a single one. -/
def BuiltinFunction.instruction (f : BuiltinFunction) : Option Instruction :=
  match f.code with
  | .instruction i => some i
  | _ => none

def createSVMFunction (i : Instruction) : BuiltinFunction where
  parameters := (instructionInfo i).args
  returns := (instructionInfo i).ret
  movable := SemanticInformation.movable i
  sideEffectFree := SemanticInformation.sideEffectFree i
  sideEffectFreeIfNoMSize := SemanticInformation.sideEffectFreeIfNoMSize i
  isMSize := i = .msize
  literalArguments := false
  code := .instruction i

/-- The functions for objects: the size and the offset of data, and copying it. -/
def objectFunctions : List (String × BuiltinFunction) :=
  [("datasize", ⟨1, 1, true, true, true, false, true, .datasize⟩),
    ("dataoffset", ⟨1, 1, true, true, true, false, true, .dataoffset⟩),
    ("datacopy", ⟨3, 0, false, false, false, false, false, .datacopy⟩)]

/-- A dialect; `hasOpcode` is what the version of the machine supports. -/
structure Dialect where
  flavour : AsmFlavour
  objectAccess : Bool
  hasOpcode : Instruction → Bool

namespace Dialect

/-- The instruction is a builtin function of the dialect. -/
def providesInstruction (dialect : Dialect) (i : Instruction) : Bool :=
  !i.isDupInstruction && !i.isSwapInstruction && i != .jump && i != .jumpi && dialect.hasOpcode i

/-- The builtin function of the given name, if there is one. -/
def builtin (dialect : Dialect) (name : YulString) : Option BuiltinFunction :=
  match (Parser.instructions.lookup name).filter dialect.providesInstruction with
  | some i => some (createSVMFunction i)
  | none => if dialect.objectAccess then objectFunctions.lookup name else none

/-- The function accepts literals only. -/
def requiresLiterals (dialect : Dialect) (f : YulString) : Bool :=
  (dialect.builtin f).any (·.literalArguments)

lemma requiresLiterals_of_builtin {dialect : Dialect} {f : YulString} {b : BuiltinFunction}
    (hb : dialect.builtin f = some b) : dialect.requiresLiterals f = b.literalArguments := by
  rw [requiresLiterals, hb]
  rfl

end Dialect

/-- The strict dialect with object access, with all opcodes. -/
def Dialect.strictAssemblyForSVMObjects : Dialect := ⟨.strict, true, fun _ => true⟩

lemma Dialect.builtin_cases {dialect : Dialect} {name : YulString} {f : BuiltinFunction}
    (h : dialect.builtin name = some f) :
    (∃ i, f = createSVMFunction i ∧ dialect.providesInstruction i) ∨
      (name, f) ∈ objectFunctions := by
  unfold builtin at h
  split at h
  · rename_i i hi
    cases h
    exact .inl ⟨i, rfl, (Option.filter_eq_some_iff.mp hi).2⟩
  · split at h
    · obtain ⟨l₁, l₂, heq, -⟩ := List.lookup_eq_some_iff.mp h
      rw [heq]
      exact .inr (List.mem_append_right _ List.mem_cons_self)
    · cases h

end Yul
