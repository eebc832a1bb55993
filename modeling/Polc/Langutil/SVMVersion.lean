import Polc.Sof.Instruction

/-!
# Versions of the machine

`liblangutil/SVMVersion.h` with the opcodes each version has.
-/

namespace Langutil

/-- A version of the machine we want to compile to, in the order of release. -/
inductive SVMVersion where
  | homestead | tangerineWhistle | spuriousDragon | byzantium | constantinople | petersburg
  deriving DecidableEq, Repr

namespace SVMVersion

def toNat : SVMVersion → ℕ
  | homestead => 0 | tangerineWhistle => 1 | spuriousDragon => 2 | byzantium => 3
  | constantinople => 4 | petersburg => 5

instance : LE SVMVersion where
  le v v' := v.toNat ≤ v'.toNat

instance (v v' : SVMVersion) : Decidable (v ≤ v') := inferInstanceAs (Decidable (_ ≤ _))

def supportsReturndata (v : SVMVersion) : Bool := byzantium ≤ v

def hasStaticCall (v : SVMVersion) : Bool := byzantium ≤ v

def hasBitwiseShifting (v : SVMVersion) : Bool := constantinople ≤ v

def hasCreate2 (v : SVMVersion) : Bool := constantinople ≤ v

def hasExtCodeHash (v : SVMVersion) : Bool := constantinople ≤ v

def hasOpcode (v : SVMVersion) : Sof.Instruction → Bool
  | .returndatacopy | .returndatasize => v.supportsReturndata
  | .staticcall => v.hasStaticCall
  | .shl | .shr | .sar => v.hasBitwiseShifting
  | .create2 => v.hasCreate2
  | .extcodehash => v.hasExtCodeHash
  | _ => true

end SVMVersion

end Langutil
