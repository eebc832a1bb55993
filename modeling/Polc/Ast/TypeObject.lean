import Polc.Analysis.ContractLevelChecker
import Polc.Semantics.Texts
import Mathlib.Data.BitVec
import Mathlib.Data.Rat.Defs

/-!
# Types as objects

All the types of `libpolynomial/ast/Types.h` with what their identifiers and their `operator==`
depend on. A tuple type refers to its components by pointers, which its operator compares.
-/

namespace Polynomial

open Semantics

abbrev Text := List Char

/-- The declaration of a contract, a struct or an enum. -/
structure NamedDeclaration where
  id : ℕ
  name : Text
  deriving DecidableEq, Repr

/-- `FunctionType::Kind` -/
inductive FunctionKind where
  | internal | external | delegateCall | bareCall | bareCallCode | bareDelegateCall
  | bareStaticCall | creation | send | transfer | keccak256 | selfdestruct | revert | ecRecover
  | sha256 | ripemd160 | log0 | log1 | log2 | log3 | log4 | gasLeft | event | setGas | setValue
  | blockHash | addMod | mulMod | arrayPush | arrayPop | byteArrayPush | objectCreation
  | assert | require | abiEncode | abiEncodePacked | abiEncodeWithSelector
  | abiEncodeWithSignature | abiDecode | metaType
  deriving DecidableEq, Repr

/-- A type. The pointers of a tuple type are those to its components. -/
inductive TypeObject where
  | address (payable : Bool)
  | integer (numBits : ℕ) (isSigned : Bool)
  | fixedPoint (totalBits fractionalDigits : ℕ) (isSigned : Bool)
  | rationalNumber (value : ℚ)
  | stringLiteral (value : List (BitVec 8))
  | bool
  | fixedBytes (numBytes : ℕ)
  | byteArray (isString : Bool) (location : DataLocation) (isPointer : Bool)
  | array (baseType : TypeObject) (length : Option ℕ) (location : DataLocation)
      (isPointer : Bool)
  | contract (declaration : NamedDeclaration) (isSuper : Bool)
  | struct (declaration : NamedDeclaration) (location : DataLocation) (isPointer : Bool)
  | enum (declaration : NamedDeclaration)
  | tuple (pointers : List (Option ℕ)) (components : List (Option TypeObject))
  | function (kind : FunctionKind) (stateMutability : StateMutability)
      (parameterTypes returnParameterTypes : List TypeObject) (gasSet valueSet bound : Bool)
  | mapping (keyType valueType : TypeObject)
  | typeType (actualType : TypeObject)
  | modifier (parameterTypes : List TypeObject)
  | module (id : ℕ)
  | block
  | message
  | transaction
  | abi
  | metaType (typeArgument : TypeObject)
  | inaccessibleDynamic

/-! ### Identifiers -/

def parenthesizeIdentifier (internal : Text) : Text := '(' :: (internal ++ [')'])

def identifierList (list : List Text) : Text := parenthesizeIdentifier (join ',' list)

def identifierLocationSuffix (location : DataLocation) (isPointer : Bool) : Text :=
  (match location with
    | .storage => "_storage"
    | .memory => "_memory"
    | .callData => "_calldata").toList ++
  if isPointer then "_ptr".toList else []

def FunctionKind.toString : FunctionKind → String
  | internal => "internal"
  | external => "external"
  | delegateCall => "delegatecall"
  | bareCall => "barecall"
  | bareCallCode => "barecallcode"
  | bareDelegateCall => "baredelegatecall"
  | bareStaticCall => "barestaticcall"
  | creation => "creation"
  | send => "send"
  | transfer => "transfer"
  | keccak256 => "keccak256"
  | selfdestruct => "selfdestruct"
  | revert => "revert"
  | ecRecover => "ecrecover"
  | sha256 => "sha256"
  | ripemd160 => "ripemd160"
  | log0 => "log0"
  | log1 => "log1"
  | log2 => "log2"
  | log3 => "log3"
  | log4 => "log4"
  | gasLeft => "gasleft"
  | event => "event"
  | setGas => "setgas"
  | setValue => "setvalue"
  | blockHash => "blockhash"
  | addMod => "addmod"
  | mulMod => "mulmod"
  | arrayPush => "arraypush"
  | arrayPop => "arraypop"
  | byteArrayPush => "bytearraypush"
  | objectCreation => "objectcreation"
  | assert => "assert"
  | require => "require"
  | abiEncode => "abiencode"
  | abiEncodePacked => "abiencodepacked"
  | abiEncodeWithSelector => "abiencodewithselector"
  | abiEncodeWithSignature => "abiencodewithsignature"
  | abiDecode => "abidecode"
  | metaType => "metatype"

def toHex (bytes : List (BitVec 8)) : Text :=
  bytes.flatMap fun b => [(b.toNat / 16).digitChar, (b.toNat % 16).digitChar]

namespace TypeObject

section

-- the hash of a string
variable (keccak256 : List (BitVec 8) → Fin 32 → BitVec 8)

mutual

def richIdentifier : TypeObject → Text
  | address payable => (if payable then "t_address_payable" else "t_address").toList
  | integer numBits isSigned =>
    "t_".toList ++ (if isSigned then "" else "u").toList ++ "int".toList ++ Nat.toDigits 10 numBits
  | fixedPoint totalBits fractionalDigits isSigned =>
    "t_".toList ++ (if isSigned then "" else "u").toList ++ "fixed".toList ++
      Nat.toDigits 10 totalBits ++ "x".toList ++ Nat.toDigits 10 fractionalDigits
  | rationalNumber value =>
    (if value < 0 then "t_rational_minus_" else "t_rational_").toList ++
      Nat.toDigits 10 value.num.natAbs ++ "_by_".toList ++ Nat.toDigits 10 value.den
  | stringLiteral value => "t_stringliteral_".toList ++ toHex (List.ofFn (keccak256 value))
  | bool => "t_bool".toList
  | fixedBytes numBytes => "t_bytes".toList ++ Nat.toDigits 10 numBytes
  | byteArray isString location isPointer =>
    (if isString then "t_string" else "t_bytes").toList ++
      identifierLocationSuffix location isPointer
  | array baseType length location isPointer =>
    "t_array".toList ++ identifierList [richIdentifier baseType] ++
      (match length with
        | none => "dyn".toList
        | some n => Nat.toDigits 10 n) ++
      identifierLocationSuffix location isPointer
  | contract declaration isSuper =>
    (if isSuper then "t_super" else "t_contract").toList ++
      parenthesizeIdentifier declaration.name ++ Nat.toDigits 10 declaration.id
  | struct declaration location isPointer =>
    "t_struct".toList ++ parenthesizeIdentifier declaration.name ++
      Nat.toDigits 10 declaration.id ++ identifierLocationSuffix location isPointer
  | enum declaration =>
    "t_enum".toList ++ parenthesizeIdentifier declaration.name ++ Nat.toDigits 10 declaration.id
  | tuple _ components => "t_tuple".toList ++ identifierList (richComponents components)
  | function kind stateMutability parameterTypes returnParameterTypes gasSet valueSet bound =>
    "t_function_".toList ++ kind.toString.toList ++ "_".toList ++ stateMutability.toString.toList ++
      identifierList (richIdentifiers parameterTypes) ++ "returns".toList ++
      identifierList (richIdentifiers returnParameterTypes) ++
      (if gasSet then "gas" else "").toList ++ (if valueSet then "value" else "").toList ++
      (if bound then
        "bound_to".toList ++ parenthesizeIdentifier ((richIdentifiers parameterTypes).headD [])
      else [])
  | mapping keyType valueType =>
    "t_mapping".toList ++ identifierList [richIdentifier keyType, richIdentifier valueType]
  | typeType actualType => "t_type".toList ++ identifierList [richIdentifier actualType]
  | modifier parameterTypes =>
    "t_modifier".toList ++ identifierList (richIdentifiers parameterTypes)
  | module id => "t_module_".toList ++ Nat.toDigits 10 id
  | block => "t_magic_block".toList
  | message => "t_magic_message".toList
  | transaction => "t_magic_transaction".toList
  | abi => "t_magic_abi".toList
  | metaType typeArgument => "t_magic_meta_type_".toList ++ richIdentifier typeArgument
  | inaccessibleDynamic => "t_inaccessible".toList

def richIdentifiers : List TypeObject → List Text
  | [] => []
  | t :: ts => richIdentifier t :: richIdentifiers ts

/-- An absent component has an empty identifier. -/
def richComponents : List (Option TypeObject) → List Text
  | [] => []
  | none :: ts => [] :: richComponents ts
  | some t :: ts => richIdentifier t :: richComponents ts

end

/-- Replace all the occurrences of a character. -/
def replaceAll (s : Text) (c : Char) (replacement : Text) : Text :=
  s.flatMap fun d => if d = c then replacement else [d]

def escapeIdentifier (identifier : Text) : Text :=
  replaceAll
    (replaceAll (replaceAll (replaceAll identifier '$' "$$$".toList) ',' "_$_".toList)
      '(' "$_".toList)
    ')' "_$".toList

def identifier (t : TypeObject) : Text := escapeIdentifier (richIdentifier keccak256 t)

end

mutual

/-- `operator==` -/
def equal : TypeObject → TypeObject → Bool
  | address payable, address payable' => payable = payable'
  | integer n s, integer n' s' => n = n' && s = s'
  | fixedPoint n k s, fixedPoint n' k' s' => n = n' && k = k' && s = s'
  | rationalNumber q, rationalNumber q' => q = q'
  | stringLiteral s, stringLiteral s' => s = s'
  | bool, bool => true
  | fixedBytes n, fixedBytes n' => n = n'
  | byteArray s l p, byteArray s' l' p' => l = l' && p = p' && s = s'
  | array b n l p, array b' n' l' p' =>
    l = l' && p = p' && n.isNone = n'.isNone && equal b b' && (n.isNone || n = n')
  | contract d s, contract d' s' => d.id = d'.id && s = s'
  | struct d l p, struct d' l' p' => l = l' && p = p' && d.id = d'.id
  | enum d, enum d' => d.id = d'.id
  | tuple ps _, tuple ps' _ => ps = ps'
  | function k m ps rs g v b, function k' m' ps' rs' g' v' b' =>
    k = k' && equalLists ps ps' && equalLists rs rs' && g = g' && v = v' && b = b' && m = m'
  | mapping k v, mapping k' v' => equal k k' && equal v v'
  | typeType t, typeType t' => equal t t'
  | modifier ps, modifier ps' => equalLists ps ps'
  | module i, module i' => i = i'
  | block, block => true
  | message, message => true
  | transaction, transaction => true
  | abi, abi => true
  | metaType _, metaType _ => true
  | inaccessibleDynamic, inaccessibleDynamic => true
  | _, _ => false

def equalLists : List TypeObject → List TypeObject → Bool
  | [], [] => true
  | t :: ts, t' :: ts' => equal t t' && equalLists ts ts'
  | _, _ => false

end

end TypeObject

end Polynomial
