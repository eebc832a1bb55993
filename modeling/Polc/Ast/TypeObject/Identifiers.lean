import Polc.Ast.TypeObject.Chains
import Mathlib.Algebra.Order.Ring.Unbundled.Rat

/-!
# What identifiers tell

An identifier tells the type up to the pointers of tuple types: it starts with the kind of the type,
no such start is a start of another one, and what follows tells the components.
-/

namespace Polynomial

open Semantics

namespace TypeObject

/-! ### Types without pointers -/

mutual

/-- The type without the pointers of its tuple types. -/
def erase : TypeObject → TypeObject
  | array baseType length location isPointer => array baseType.erase length location isPointer
  | tuple _ components => tuple [] (eraseComponents components)
  | function kind stateMutability parameterTypes returnParameterTypes gasSet valueSet bound =>
    function kind stateMutability (eraseTypes parameterTypes) (eraseTypes returnParameterTypes)
      gasSet valueSet bound
  | mapping keyType valueType => mapping keyType.erase valueType.erase
  | typeType actualType => typeType actualType.erase
  | modifier parameterTypes => modifier (eraseTypes parameterTypes)
  | metaType typeArgument => metaType typeArgument.erase
  | t => t

def eraseTypes : List TypeObject → List TypeObject
  | [] => []
  | t :: ts => t.erase :: eraseTypes ts

def eraseComponents : List (Option TypeObject) → List (Option TypeObject)
  | [] => []
  | none :: ts => none :: eraseComponents ts
  | some t :: ts => some t.erase :: eraseComponents ts

end

lemma eraseTypes_eq_map (ts : List TypeObject) : eraseTypes ts = ts.map erase := by
  induction ts with
  | nil => rfl
  | cons t ts ih => rw [eraseTypes, ih, List.map_cons]

lemma eraseComponents_eq_map (ts : List (Option TypeObject)) :
    eraseComponents ts = ts.map (Option.map erase) := by
  induction ts with
  | nil => rfl
  | cons t ts ih => cases t <;> rw [eraseComponents, ih, List.map_cons] <;> rfl

lemma erase_tuple (ps : List (Option ℕ)) (cs : List (Option TypeObject)) :
    (tuple ps cs).erase = tuple [] (cs.map (Option.map erase)) := by
  rw [erase, eraseComponents_eq_map]

lemma erase_function (k : FunctionKind) (m : StateMutability) (ps rs : List TypeObject)
    (g v b : Bool) :
    (function k m ps rs g v b).erase = function k m (ps.map erase) (rs.map erase) g v b := by
  rw [erase, eraseTypes_eq_map, eraseTypes_eq_map]

lemma erase_modifier (ps : List TypeObject) : (modifier ps).erase = modifier (ps.map erase) := by
  rw [erase, eraseTypes_eq_map]

section

variable (keccak256 : List (BitVec 8) → Fin 32 → BitVec 8)

lemma richIdentifier_erase (t : TypeObject) :
    richIdentifier keccak256 t.erase = richIdentifier keccak256 t := by
  induction t using children_induction with
  | h t ih =>
    have hmap {ts : List TypeObject} (hts : ∀ c ∈ ts, c ∈ t.children) :
        (ts.map erase).map (richIdentifier keccak256) = ts.map (richIdentifier keccak256) := by
      rw [List.map_map]
      exact List.map_congr_left fun c hc => ih c (hts c hc)
    cases t with
    | array b n l p =>
      rw [erase, richIdentifier_array, richIdentifier_array, ih b (List.mem_singleton_self b)]
    | tuple ps cs =>
      have htexts : (cs.map (Option.map erase)).map (componentText keccak256) =
          cs.map (componentText keccak256) := by
        rw [List.map_map]
        refine List.map_congr_left fun c hc => ?_
        cases c with
        | none => rfl
        | some c => exact ih c (List.reduceOption_mem_iff.mpr hc)
      rw [erase_tuple, richIdentifier_tuple, richIdentifier_tuple, htexts]
    | function k m ps rs g v b =>
      rw [erase_function, richIdentifier_function, richIdentifier_function,
        hmap fun c hc => List.mem_append_left rs hc, hmap fun c hc => List.mem_append_right ps hc]
    | mapping k v =>
      rw [erase, richIdentifier_mapping, richIdentifier_mapping, ih k (List.mem_cons_self ..),
        ih v (List.mem_cons_of_mem _ (List.mem_singleton_self v))]
    | typeType t =>
      rw [erase, richIdentifier_typeType, richIdentifier_typeType, ih t (List.mem_singleton_self t)]
    | modifier ps =>
      rw [erase_modifier, richIdentifier_modifier, richIdentifier_modifier,
        hmap (show ∀ c ∈ ps, c ∈ (modifier ps).children from fun c hc => hc)]
    | metaType t =>
      exact congrArg ("t_magic_meta_type_".toList ++ ·) (ih t (List.mem_singleton_self t))
    | _ => rfl

end

/-! ### Kinds of types -/

/-- What the start of an identifier distinguishes. -/
inductive Kind where
  | address
  | integer (isSigned : Bool)
  | fixedPoint (isSigned : Bool)
  | rationalNumber
  | bool
  | bytes (isString : Bool)
  | array
  | contract (isSuper : Bool)
  | struct
  | enum
  | tuple
  | function
  | mapping
  | typeType
  | modifier
  | module
  | block
  | message
  | transaction
  | abi
  | metaType
  | inaccessibleDynamic
  deriving DecidableEq

namespace Kind

def text : Kind → String
  | address => "t_address"
  | integer isSigned => if isSigned then "t_int" else "t_uint"
  | fixedPoint isSigned => if isSigned then "t_fixed" else "t_ufixed"
  | rationalNumber => "t_rational_"
  | bool => "t_bool"
  | bytes isString => if isString then "t_string" else "t_bytes"
  | array => "t_array"
  | contract isSuper => if isSuper then "t_super" else "t_contract"
  | struct => "t_struct"
  | enum => "t_enum"
  | tuple => "t_tuple"
  | function => "t_function_"
  | mapping => "t_mapping"
  | typeType => "t_type"
  | modifier => "t_modifier"
  | module => "t_module_"
  | block => "t_magic_block"
  | message => "t_magic_message"
  | transaction => "t_magic_transaction"
  | abi => "t_magic_abi"
  | metaType => "t_magic_meta_type_"
  | inaccessibleDynamic => "t_inaccessible"

def all : List Kind :=
  [address, integer false, integer true, fixedPoint false, fixedPoint true, rationalNumber, bool,
    bytes false, bytes true, array, contract false, contract true, struct, enum, tuple, function,
    mapping, typeType, modifier, module, block, message, transaction, abi, metaType,
    inaccessibleDynamic]

lemma mem_all (k : Kind) : k ∈ all := by
  cases k with
  | integer s | fixedPoint s | bytes s | contract s => cases s <;> decide
  | _ => decide

lemma eq_of_prefix {k k' : Kind} (h : k.text.toList <+: k'.text.toList) : k = k' := by
  have hall : ∀ k ∈ all, ∀ k' ∈ all, k.text.toList <+: k'.text.toList → k = k' := by
    decide +kernel
  exact hall k (mem_all k) k' (mem_all k') h

lemma tells {S : Text → Prop} (k k' : Kind) :
    Tells S k.text.toList k'.text.toList (k = k') :=
  Tells.of_prefixFree (fun k : Kind => k.text.toList) eq_of_prefix eq_of_prefix

end Kind

def kind : TypeObject → Kind
  | address _ => .address
  | integer _ isSigned => .integer isSigned
  | fixedPoint _ _ isSigned => .fixedPoint isSigned
  | rationalNumber _ => .rationalNumber
  | stringLiteral _ => .bytes true
  | bool => .bool
  | fixedBytes _ => .bytes false
  | byteArray isString _ _ => .bytes isString
  | array .. => .array
  | contract _ isSuper => .contract isSuper
  | struct .. => .struct
  | enum _ => .enum
  | tuple .. => .tuple
  | function .. => .function
  | mapping .. => .mapping
  | typeType _ => .typeType
  | modifier _ => .modifier
  | module _ => .module
  | block => .block
  | message => .message
  | transaction => .transaction
  | abi => .abi
  | metaType _ => .metaType
  | inaccessibleDynamic => .inaccessibleDynamic

section

variable (keccak256 : List (BitVec 8) → Fin 32 → BitVec 8)

/-- What follows the start of an identifier. -/
def details : TypeObject → Text
  | address payable => if payable then "_payable".toList else []
  | integer numBits _ => Nat.toDigits 10 numBits
  | fixedPoint totalBits fractionalDigits _ =>
    Nat.toDigits 10 totalBits ++ ("x".toList ++ Nat.toDigits 10 fractionalDigits)
  | rationalNumber value =>
    (if value < 0 then "minus_".toList else []) ++
      (Nat.toDigits 10 value.num.natAbs ++ ("_by_".toList ++ Nat.toDigits 10 value.den))
  | stringLiteral value => "literal_".toList ++ toHex (List.ofFn (keccak256 value))
  | fixedBytes numBytes => Nat.toDigits 10 numBytes
  | byteArray _ location isPointer => identifierLocationSuffix location isPointer
  | array baseType length location isPointer =>
    identifierList ([baseType].map (richIdentifier keccak256)) ++
      arrayTail length location isPointer
  | contract declaration _ =>
    parenthesizeIdentifier declaration.name ++ (Nat.toDigits 10 declaration.id ++ [])
  | struct declaration location isPointer =>
    parenthesizeIdentifier declaration.name ++
      (Nat.toDigits 10 declaration.id ++ identifierLocationSuffix location isPointer)
  | enum declaration =>
    parenthesizeIdentifier declaration.name ++ (Nat.toDigits 10 declaration.id ++ [])
  | tuple _ components => identifierList (components.map (componentText keccak256))
  | function kind stateMutability parameterTypes returnParameterTypes gasSet valueSet bound =>
    kind.toString.toList ++ ("_".toList ++ (stateMutability.toString.toList ++
      (identifierList (parameterTypes.map (richIdentifier keccak256)) ++
        functionTail (parameterTypes.map (richIdentifier keccak256))
          (returnParameterTypes.map (richIdentifier keccak256)) gasSet valueSet bound)))
  | mapping keyType valueType =>
    identifierList ([keyType, valueType].map (richIdentifier keccak256))
  | typeType actualType => identifierList ([actualType].map (richIdentifier keccak256))
  | modifier parameterTypes => identifierList (parameterTypes.map (richIdentifier keccak256))
  | module id => Nat.toDigits 10 id
  | metaType typeArgument => richIdentifier keccak256 typeArgument
  | bool | block | message | transaction | abi | inaccessibleDynamic => []

lemma richIdentifier_eq (t : TypeObject) :
    richIdentifier keccak256 t = t.kind.text.toList ++ details keccak256 t := by
  cases t with
  | address p => cases p <;> rfl
  | integer n s =>
    have hstart : "t_".toList ++ (if s then "" else "u").toList ++ "int".toList =
        (Kind.integer s).text.toList := by cases s <;> decide
    exact congrArg (· ++ Nat.toDigits 10 n) hstart
  | fixedPoint n k s =>
    have hstart : "t_".toList ++ (if s then "" else "u").toList ++ "fixed".toList =
        (Kind.fixedPoint s).text.toList := by cases s <;> decide
    change _ ++ _ ++ _ ++ Nat.toDigits 10 n ++ "x".toList ++ Nat.toDigits 10 k = _
    rw [hstart, List.append_assoc, List.append_assoc]
    rfl
  | rationalNumber q =>
    have hstart : (if q < 0 then "t_rational_minus_" else "t_rational_").toList =
        "t_rational_".toList ++ if q < 0 then "minus_".toList else [] := by
      split_ifs <;> decide
    change _ ++ Nat.toDigits 10 q.num.natAbs ++ "_by_".toList ++ Nat.toDigits 10 q.den = _
    rw [hstart, List.append_assoc, List.append_assoc, List.append_assoc]
    rfl
  | stringLiteral v =>
    have hstart : "t_stringliteral_".toList = "t_string".toList ++ "literal_".toList := by decide
    change _ ++ toHex (List.ofFn (keccak256 v)) = _
    rw [hstart, List.append_assoc]
    rfl
  | byteArray s l p => cases s <;> rfl
  | array b n l p => exact richIdentifier_array ..
  | contract d s =>
    rw [richIdentifier_contract]
    cases s <;> rfl
  | struct d l p => exact richIdentifier_struct ..
  | enum d => exact richIdentifier_enum ..
  | tuple ps cs =>
    rw [richIdentifier_tuple, List.append_nil]
    rfl
  | function k m ps rs g v b =>
    rw [richIdentifier_function]
    simp only [List.append_assoc]
    rfl
  | mapping k v =>
    rw [richIdentifier_mapping, List.append_nil]
    rfl
  | typeType t =>
    rw [richIdentifier_typeType, List.append_nil]
    rfl
  | modifier ps =>
    rw [richIdentifier_modifier, List.append_nil]
    rfl
  | metaType t => rfl
  | _ => rfl

end

/-! ### Parts of identifiers -/

/-- What follows an identifier that is part of another one. -/
def Stops (u : Text) : Prop := ∀ c ∈ u.head?, c = ',' ∨ c = ')'

section

variable {S : Text → Prop}

lemma Stops.noDigit {u : Text} (h : Stops u) : NoDigit u := by
  intro c hc
  rcases h c hc with rfl | rfl <;> decide

lemma IsPlain.tells {x y : Text} (hx : IsPlain x) (hy : IsPlain y) : Tells Stops x y (x = y) := by
  refine Tells.of_notMem (fun c => c = ',' ∨ c = ')') (fun _ h => h) ?_ ?_
  · exact fun c hc => not_or.mpr ⟨(hx c hc).2.2, (hx c hc).2.1⟩
  · exact fun c hc => not_or.mpr ⟨(hy c hc).2.2, (hy c hc).2.1⟩

lemma tells_parenthesize {x y : Text} (hx : IsPlain x) (hy : IsPlain y) :
    Tells S (parenthesizeIdentifier x) (parenthesizeIdentifier y) (x = y) := by
  have hinner : Tells (fun u => ∀ c ∈ u.head?, c = ')') x y (x = y) :=
    Tells.of_notMem (fun c => c = ')') (fun _ h => h) (fun c hc => (hx c hc).2.1)
      fun c hc => (hy c hc).2.1
  refine Tells.prepend ['('] (Tells.mono (hinner.append ?_ ?_ fun _ => Tells.refl [')'] trivial)
    And.left)
  · rintro u - c ⟨⟩
    rfl
  · rintro u - c ⟨⟩
    rfl

lemma tells_identifierLocationSuffix (l l' : DataLocation) (p p' : Bool) :
    Tells Stops (identifierLocationSuffix l p) (identifierLocationSuffix l' p')
      (l = l' ∧ p = p') := by
  refine (IsPlain.tells (isPlain_identifierLocationSuffix l p)
    (isPlain_identifierLocationSuffix l' p')).mono ?_
  cases l <;> cases l' <;> cases p <;> cases p' <;> decide

lemma head_identifierLocationSuffix (l : DataLocation) (p : Bool) :
    (identifierLocationSuffix l p).head? = some '_' := by
  cases l <;> rfl

lemma head_toDigits (n : ℕ) : ∃ c, (Nat.toDigits 10 n).head? = some c ∧ c ≠ '_' := by
  obtain ⟨c, cs, hcs⟩ := List.exists_cons_of_ne_nil (Nat.toDigits_ne_nil (n := n) (b := 10))
  refine ⟨c, by rw [hcs]; rfl, ?_⟩
  rintro rfl
  have hmem : '_' ∈ Nat.toDigits 10 n := hcs ▸ List.mem_cons_self ..
  exact absurd (Nat.isDigit_of_mem_toDigits (by decide) (by decide) hmem) (by decide)

lemma lengthText_injective : lengthText.Injective := by
  have hdyn (n : ℕ) : "dyn".toList ≠ Nat.toDigits 10 n := by
    intro heq
    have hmem : 'd' ∈ Nat.toDigits 10 n := heq ▸ List.mem_cons_self ..
    exact absurd (Nat.isDigit_of_mem_toDigits (by decide) (by decide) hmem) (by decide)
  intro m n heq
  cases m with
  | none =>
    cases n with
    | none => rfl
    | some n => exact absurd heq (hdyn n)
  | some m =>
    cases n with
    | none => exact absurd heq.symm (hdyn m)
    | some n =>
      rw [← Nat.ofDigitChars_ten_toDigits (n := m), ← Nat.ofDigitChars_ten_toDigits (n := n)]
      exact congrArg _ (congrArg _ heq)

lemma notMem_lengthText (n : Option ℕ) : ∀ c ∈ lengthText n, c ≠ '_' := by
  cases n with
  | none => decide
  | some n =>
    rintro c hc rfl
    exact absurd (Nat.isDigit_of_mem_toDigits (by decide) (by decide) hc) (by decide)

lemma tells_arrayTail (n n' : Option ℕ) (l l' : DataLocation) (p p' : Bool) :
    Tells Stops (arrayTail n l p) (arrayTail n' l' p') (n = n' ∧ l = l' ∧ p = p') := by
  have hhead (l : DataLocation) (p : Bool) (u : Text) :
      ∀ c ∈ (identifierLocationSuffix l p ++ u).head?, c = '_' := by
    cases l <;>
      · rintro c ⟨⟩
        rfl
  exact Tells.append ((Tells.of_notMem (fun c => c = '_') (fun _ h => h) (notMem_lengthText n)
    (notMem_lengthText n')).mono fun heq => lengthText_injective heq) (fun u _ => hhead l p u)
    (fun u _ => hhead l' p' u) fun _ => tells_identifierLocationSuffix l l' p p'

lemma tells_declaration {d d' : NamedDeclaration} (hd : isIdentifier d.name)
    (hd' : isIdentifier d'.name) {z w : Text} {Q : Prop} (hz : ∀ u, S u → NoDigit (z ++ u))
    (hw : ∀ u, S u → NoDigit (w ++ u)) (h : Tells S z w Q) :
    Tells S (parenthesizeIdentifier d.name ++ (Nat.toDigits 10 d.id ++ z))
      (parenthesizeIdentifier d'.name ++ (Nat.toDigits 10 d'.id ++ w)) (d = d' ∧ Q) := by
  refine (Tells.append_of_all (tells_parenthesize (isPlain_of_isAlphanum hd.2.2)
    (isPlain_of_isAlphanum hd'.2.2)) fun _ => Tells.append Tells.toDigits hz hw fun _ => h).mono ?_
  rintro ⟨hname, hid, hQ⟩
  cases d
  cases d'
  cases hname
  cases hid
  exact ⟨rfl, hQ⟩

lemma noDigit_identifierLocationSuffix (l : DataLocation) (p : Bool) (u : Text) :
    NoDigit (identifierLocationSuffix l p ++ u) := by
  cases l <;>
    · rintro c ⟨⟩
      rfl

def functionKinds : List FunctionKind :=
  [.internal, .external, .delegateCall, .bareCall, .bareCallCode, .bareDelegateCall,
    .bareStaticCall, .creation, .send, .transfer, .keccak256, .selfdestruct, .revert, .ecRecover,
    .sha256, .ripemd160, .log0, .log1, .log2, .log3, .log4, .gasLeft, .event, .setGas, .setValue,
    .blockHash, .addMod, .mulMod, .arrayPush, .arrayPop, .byteArrayPush, .objectCreation, .assert,
    .require, .abiEncode, .abiEncodePacked, .abiEncodeWithSelector, .abiEncodeWithSignature,
    .abiDecode, .metaType]

lemma mem_functionKinds (k : FunctionKind) : k ∈ functionKinds := by
  cases k <;> decide

lemma functionKind_injective {k k' : FunctionKind}
    (h : k.toString.toList = k'.toString.toList) : k = k' := by
  have hnodup : (functionKinds.map fun k => k.toString.toList).Nodup := by decide +kernel
  exact List.inj_on_of_nodup_map hnodup (mem_functionKinds k) (mem_functionKinds k') h

lemma tells_functionKind (k k' : FunctionKind) :
    Tells (fun u => ∀ c ∈ u.head?, c = '_') k.toString.toList k'.toString.toList (k = k') := by
  have hplain : ∀ k ∈ functionKinds, ∀ c ∈ k.toString.toList, c ≠ '_' := by decide +kernel
  exact (Tells.of_notMem (fun c => c = '_') (fun _ h => h) (hplain k (mem_functionKinds k))
    (hplain k' (mem_functionKinds k'))).mono functionKind_injective

lemma tells_stateMutability (m m' : StateMutability) :
    Tells (fun u => ∀ c ∈ u.head?, c = '(') m.toString.toList m'.toString.toList (m = m') := by
  have hplain (m : StateMutability) : ∀ c ∈ m.toString.toList, c ≠ '(' := by
    cases m <;> decide
  refine (Tells.of_notMem (fun c => c = '(') (fun _ h => h) (hplain m) (hplain m')).mono ?_
  cases m <;> cases m' <;> decide

end

/-! ### Lists of types -/

lemma map_eq_map_of_forall₂ {α β γ : Type*} {f : α → γ} {g : β → γ} {as : List α} {bs : List β}
    (h : List.Forall₂ (fun a b => f a = g b) as bs) : as.map f = bs.map g := by
  induction h with
  | nil => rfl
  | cons hab _ ih => rw [List.map_cons, List.map_cons, hab, ih]

lemma IsPart.closing_notMem {s : Text} (h : IsPart s) : ')' ∉ s.head? := by
  rw [h.2]
  decide

lemma IsPart.not_stops {s : Text} (h : IsPart s) (u : Text) : ¬ Stops (s ++ u) := by
  intro hstops
  have hhead : 't' ∈ (s ++ u).head? := by
    rw [List.head?_append, h.2]
    rfl
  rcases hstops _ hhead with hc | hc <;> exact absurd hc (by decide)

section

variable {keccak256 : List (BitVec 8) → Fin 32 → BitVec 8} {S : Text → Prop}
  {as bs : List TypeObject}

lemma map_richIdentifier_ne (h : ∀ a ∈ as, IsPart (richIdentifier keccak256 a)) :
    as.map (richIdentifier keccak256) ≠ [[]] := by
  intro heq
  obtain ⟨a, rfl, ha⟩ := List.map_eq_singleton_iff.mp heq
  have hhead := (h a (List.mem_singleton_self a)).2
  rw [ha] at hhead
  exact absurd hhead nofun

lemma tells_types (has : ∀ a ∈ as, IsPart (richIdentifier keccak256 a))
    (hbs : ∀ b ∈ bs, IsPart (richIdentifier keccak256 b))
    (h : ∀ a ∈ as, ∀ b ∈ bs, Tells Stops (richIdentifier keccak256 a)
      (richIdentifier keccak256 b) (a.erase = b.erase)) :
    Tells S (identifierList (as.map (richIdentifier keccak256)))
      (identifierList (bs.map (richIdentifier keccak256))) (as.map erase = bs.map erase) :=
  Tells.prepend ['('] ((Tells.join (by decide) h (fun a ha => (has a ha).closing_notMem)
    (fun b hb => (hbs b hb).closing_notMem) (map_richIdentifier_ne has)
    (map_richIdentifier_ne hbs)).mono map_eq_map_of_forall₂)

lemma tells_components {as bs : List (Option TypeObject)}
    (has : ∀ a ∈ as.reduceOption, IsPart (richIdentifier keccak256 a))
    (hbs : ∀ b ∈ bs.reduceOption, IsPart (richIdentifier keccak256 b))
    (h : ∀ a ∈ as.reduceOption, ∀ b ∈ bs.reduceOption, Tells Stops (richIdentifier keccak256 a)
      (richIdentifier keccak256 b) (a.erase = b.erase)) (ha : as ≠ [none]) (hb : bs ≠ [none]) :
    Tells S (identifierList (as.map (componentText keccak256)))
      (identifierList (bs.map (componentText keccak256)))
      (as.map (Option.map erase) = bs.map (Option.map erase)) := by
  have hhead {cs : List (Option TypeObject)}
      (hcs : ∀ c ∈ cs.reduceOption, IsPart (richIdentifier keccak256 c)) :
      ∀ c ∈ cs, ')' ∉ (componentText keccak256 c).head? := by
    intro c hc
    cases c with
    | none => exact Option.not_mem_none _
    | some c => exact (hcs c (List.reduceOption_mem_iff.mpr hc)).closing_notMem
  have hne {cs : List (Option TypeObject)}
      (hcs : ∀ c ∈ cs.reduceOption, IsPart (richIdentifier keccak256 c)) (hcs' : cs ≠ [none]) :
      cs.map (componentText keccak256) ≠ [[]] := by
    intro heq
    obtain ⟨c, rfl, hc⟩ := List.map_eq_singleton_iff.mp heq
    cases c with
    | none => exact hcs' rfl
    | some c =>
      exact map_richIdentifier_ne hcs (congrArg (fun x => [x]) hc)
  refine Tells.prepend ['('] ((Tells.join (by decide)
    (R := fun a b => Option.map erase a = Option.map erase b) ?_ (hhead has) (hhead hbs)
    (hne has ha) (hne hbs hb)).mono map_eq_map_of_forall₂)
  intro a ha b hb
  cases a with
  | none =>
    cases b with
    | none => exact Tells.refl _ rfl
    | some b =>
      rintro u v hu - rfl
      exact absurd hu ((hbs b (List.reduceOption_mem_iff.mpr hb)).not_stops v)
  | some a =>
    cases b with
    | none =>
      rintro u v - hv rfl
      exact absurd hv ((has a (List.reduceOption_mem_iff.mpr ha)).not_stops u)
    | some b =>
      exact (h a (List.reduceOption_mem_iff.mpr ha) b (List.reduceOption_mem_iff.mpr hb)).mono
        (congrArg some)

/-- The text that the flags of a function type add. -/
def flagsText (gasSet valueSet bound : Bool) (self : Text) : Text :=
  (if gasSet then "gas".toList else []) ++ ((if valueSet then "value".toList else []) ++
    if bound then self else [])

lemma tells_flagsText {self : Text} (hself : self.head? = some 'b') (g v b g' v' b' : Bool) :
    Tells Stops (flagsText g v b self) (flagsText g' v' b' self) (g = g' ∧ v = v' ∧ b = b') := by
  have hother {c : Char} (hc : c ≠ ',' ∧ c ≠ ')') {u : Text} (hu : Stops u) : c ∉ u.head? := by
    intro hmem
    rcases hu c hmem with rfl | rfl
    · exact hc.1 rfl
    · exact hc.2 rfl
  have hbound (b : Bool) {u : Text} (hu : Stops u) {c : Char} (hc : c ≠ ',' ∧ c ≠ ')')
      (hb : c ≠ 'b') : c ∉ ((if b then self else []) ++ u).head? := by
    cases b with
    | false => exact hother hc hu
    | true =>
      rw [if_pos rfl, List.head?_append, hself]
      exact fun hmem => hb (Option.some.inj hmem).symm
  have hvalue (v b : Bool) {u : Text} (hu : Stops u) :
      'g' ∉ (((if v then "value".toList else []) ++ if b then self else []) ++ u).head? := by
    rw [List.append_assoc]
    cases v with
    | false => exact hbound b hu (by decide) (by decide)
    | true => exact fun hmem => absurd (Option.some.inj hmem) (by decide)
  refine Tells.append (Tells.optional (c := 'g') rfl (fun u hu => hu) g g')
    (fun u hu => hvalue v b hu) (fun u hu => hvalue v' b' hu) fun _ => ?_
  exact Tells.append (Tells.optional (c := 'v') rfl (fun u hu => hu) v v')
    (fun u hu => hbound b hu (by decide) (by decide))
    (fun u hu => hbound b' hu (by decide) (by decide))
    fun _ => Tells.optional hself (fun u hu => hother (by decide) hu) b b'

lemma functionTail_eq (ps rs : List Text) (g v b : Bool) :
    functionTail ps rs g v b = "returns".toList ++ (identifierList rs ++
      flagsText g v b ("bound_to".toList ++ parenthesizeIdentifier (ps.headD []))) := by
  cases g <;> cases v <;> rfl

lemma tells_functionTail {ps ps' rs rs' : List TypeObject} (hps : ps.map erase = ps'.map erase)
    (hrs : ∀ r ∈ rs, IsPart (richIdentifier keccak256 r))
    (hrs' : ∀ r ∈ rs', IsPart (richIdentifier keccak256 r))
    (h : ∀ r ∈ rs, ∀ r' ∈ rs', Tells Stops (richIdentifier keccak256 r)
      (richIdentifier keccak256 r') (r.erase = r'.erase)) (g v b g' v' b' : Bool) :
    Tells Stops
      (functionTail (ps.map (richIdentifier keccak256)) (rs.map (richIdentifier keccak256)) g v b)
      (functionTail (ps'.map (richIdentifier keccak256)) (rs'.map (richIdentifier keccak256))
        g' v' b')
      (rs.map erase = rs'.map erase ∧ g = g' ∧ v = v' ∧ b = b') := by
  have htexts : ps.map (richIdentifier keccak256) = ps'.map (richIdentifier keccak256) := by
    have hmap := congrArg (List.map (richIdentifier keccak256)) hps
    simpa only [List.map_map, Function.comp_def, richIdentifier_erase] using hmap
  rw [functionTail_eq, functionTail_eq, htexts]
  exact Tells.prepend _ (Tells.append_of_all (tells_types hrs hrs' h)
    fun _ => tells_flagsText rfl g v b g' v' b')

end

section

variable {S : Text → Prop}

lemma toHex_injective : toHex.Injective := by
  have hdigit : ∀ m < 16, ∀ n < 16, Nat.digitChar m = Nat.digitChar n → m = n := by decide
  intro x y heq
  induction x generalizing y with
  | nil =>
    cases y with
    | nil => rfl
    | cons b y => exact absurd heq nofun
  | cons a x ih =>
    cases y with
    | nil => exact absurd heq nofun
    | cons b y =>
      simp only [toHex, List.flatMap_cons, List.cons_append, List.nil_append,
        List.cons.injEq] at heq
      obtain ⟨hhigh, hlow, heq⟩ := heq
      have hlta := a.isLt
      have hltb := b.isLt
      have hhigh := hdigit _ (by omega) _ (by omega) hhigh
      have hlow := hdigit _ (by omega) _ (by omega) hlow
      rw [ih heq, BitVec.eq_of_toNat_eq (by omega : a.toNat = b.toNat)]

lemma tells_hash {x y : Fin 32 → BitVec 8} :
    Tells S (toHex (List.ofFn x)) (toHex (List.ofFn y)) (x = y) := by
  have hlength (x : Fin 32 → BitVec 8) : (toHex (List.ofFn x)).length = 64 := by
    simp [toHex]
  exact (Tells.of_length_eq ((hlength x).trans (hlength y).symm)).mono fun heq =>
    List.ofFn_injective (toHex_injective heq)

lemma ratio_ext {q r : ℚ} (hsign : q < 0 ↔ r < 0) (hnum : q.num.natAbs = r.num.natAbs)
    (hden : q.den = r.den) : q = r := by
  rw [← Rat.num_neg, ← Rat.num_neg] at hsign
  exact Rat.ext (by omega) hden

lemma tells_rationalNumber (q r : ℚ) :
    Tells Stops
      ((if q < 0 then "minus_".toList else []) ++
        (Nat.toDigits 10 q.num.natAbs ++ ("_by_".toList ++ Nat.toDigits 10 q.den)))
      ((if r < 0 then "minus_".toList else []) ++
        (Nat.toDigits 10 r.num.natAbs ++ ("_by_".toList ++ Nat.toDigits 10 r.den))) (q = r) := by
  have hsign (q : ℚ) : (if q < 0 then "minus_".toList else []) =
      if decide (q < 0) then "minus_".toList else [] := by
    simp only [decide_eq_true_eq]
  have hnoMinus (n : ℕ) (t u : Text) : 'm' ∉ (Nat.toDigits 10 n ++ t ++ u).head? := by
    rw [List.append_assoc, List.head?_append_of_ne_nil _ Nat.toDigits_ne_nil]
    intro hm
    exact absurd (Nat.isDigit_of_mem_toDigits (by decide) (by decide) (List.mem_of_mem_head? hm))
      (by decide)
  have hby (n : ℕ) (u : Text) : NoDigit ("_by_".toList ++ Nat.toDigits 10 n ++ u) := by
    rintro c ⟨⟩
    rfl
  rw [hsign, hsign]
  refine (Tells.append (Tells.optional (c := 'm') rfl (fun u hu => hu) _ _)
    (fun u _ => hnoMinus _ _ u) (fun u _ => hnoMinus _ _ u) fun _ =>
      Tells.append Tells.toDigits (fun u _ => hby _ u) (fun u _ => hby _ u) fun _ =>
        Tells.prepend _ (Tells.toDigits.weaken fun u hu => hu.noDigit)).mono ?_
  rintro ⟨hsign, hnum, hden⟩
  exact ratio_ext (decide_eq_decide.mp hsign) hnum hden

end

/-! ### Types -/

section

variable {keccak256 : List (BitVec 8) → Fin 32 → BitVec 8} {types : Set TypeObject}

/-- The hash distinguishes the literals among the types. -/
def HasNoCollision (keccak256 : List (BitVec 8) → Fin 32 → BitVec 8) (types : Set TypeObject) :
    Prop :=
  ∀ s s', stringLiteral s ∈ types → stringLiteral s' ∈ types → keccak256 s = keccak256 s' → s = s'

/-- What follows the kind, if the identifiers of the types referred to tell these. -/
theorem tells_details (h : IsClosed types) (hhash : HasNoCollision keccak256 types)
    {a b : TypeObject} (ha : a ∈ types) (hb : b ∈ types) (hkind : a.kind = b.kind)
    (ih : ∀ c ∈ a.children, ∀ d ∈ b.children, Tells Stops (richIdentifier keccak256 c)
      (richIdentifier keccak256 d) (c.erase = d.erase)) :
    Tells Stops (details keccak256 a) (details keccak256 b) (a.erase = b.erase) := by
  have hparts {t : TypeObject} (ht : t ∈ types) :
      ∀ c ∈ t.children, IsPart (richIdentifier keccak256 c) :=
    fun c hc => isPart_richIdentifier keccak256 h c (h.children t ht c hc)
  cases a with
  | address p =>
    cases b with
    | address p' =>
      refine (Tells.optional (c := '_') rfl (fun u hu hc => ?_) p p').mono (congrArg address)
      rcases hu _ hc with hc | hc <;> exact absurd hc (by decide)
    | _ => cases hkind
  | integer n s =>
    cases b with
    | integer n' s' =>
      cases hkind
      exact (Tells.toDigits.weaken fun u hu => hu.noDigit).mono fun heq => by rw [heq]
    | _ => cases hkind
  | fixedPoint n k s =>
    cases b with
    | fixedPoint n' k' s' =>
      cases hkind
      have hx (m : ℕ) (u : Text) : NoDigit ("x".toList ++ Nat.toDigits 10 m ++ u) := by
        rintro c ⟨⟩
        rfl
      refine (Tells.append Tells.toDigits (fun u _ => hx k u) (fun u _ => hx k' u) fun _ =>
        Tells.prepend _ (Tells.toDigits.weaken fun u hu => hu.noDigit)).mono ?_
      rintro ⟨rfl, rfl⟩
      rfl
    | _ => cases hkind
  | rationalNumber q =>
    cases b with
    | rationalNumber q' => exact (tells_rationalNumber q q').mono (congrArg rationalNumber)
    | _ => cases hkind
  | stringLiteral s =>
    cases b with
    | stringLiteral s' =>
      exact Tells.prepend _ (tells_hash.mono fun heq =>
        congrArg stringLiteral (hhash s s' ha hb heq))
    | byteArray s' l p =>
      exact Tells.of_head_ne (c := 'l') rfl (head_identifierLocationSuffix l p) (by decide)
    | _ => cases hkind
  | fixedBytes n =>
    cases b with
    | fixedBytes n' =>
      exact (Tells.toDigits.weaken fun u hu => hu.noDigit).mono (congrArg fixedBytes)
    | byteArray s' l p =>
      obtain ⟨c, hc, hne⟩ := head_toDigits n
      exact Tells.of_head_ne hc (head_identifierLocationSuffix l p) hne
    | _ => cases hkind
  | byteArray s l p =>
    cases b with
    | stringLiteral s' =>
      exact Tells.of_head_ne (head_identifierLocationSuffix l p) (d := 'l') rfl (by decide)
    | fixedBytes n' =>
      obtain ⟨c, hc, hne⟩ := head_toDigits n'
      exact Tells.of_head_ne (head_identifierLocationSuffix l p) hc hne.symm
    | byteArray s' l' p' =>
      cases hkind
      refine (tells_identifierLocationSuffix l l' p p').mono ?_
      rintro ⟨rfl, rfl⟩
      rfl
    | _ => cases hkind
  | array e n l p =>
    cases b with
    | array e' n' l' p' =>
      refine (Tells.append_of_all (tells_types (hparts ha) (hparts hb) ih)
        fun _ => tells_arrayTail n n' l l' p p').mono ?_
      rintro ⟨he, rfl, rfl, rfl⟩
      rw [erase, erase, List.singleton_inj.mp he]
    | _ => cases hkind
  | contract d s =>
    cases b with
    | contract d' s' =>
      cases hkind
      refine (tells_declaration (h.isIdentifier ha rfl) (h.isIdentifier hb rfl)
        (fun u hu => hu.noDigit) (fun u hu => hu.noDigit) (Tells.refl [] trivial)).mono ?_
      rintro ⟨rfl, -⟩
      rfl
    | _ => cases hkind
  | struct d l p =>
    cases b with
    | struct d' l' p' =>
      refine (tells_declaration (h.isIdentifier ha rfl) (h.isIdentifier hb rfl)
        (fun u _ => noDigit_identifierLocationSuffix l p u)
        (fun u _ => noDigit_identifierLocationSuffix l' p' u)
        (tells_identifierLocationSuffix l l' p p')).mono ?_
      rintro ⟨rfl, rfl, rfl⟩
      rfl
    | _ => cases hkind
  | enum d =>
    cases b with
    | enum d' =>
      refine (tells_declaration (h.isIdentifier ha rfl) (h.isIdentifier hb rfl)
        (fun u hu => hu.noDigit) (fun u hu => hu.noDigit) (Tells.refl [] trivial)).mono ?_
      rintro ⟨rfl, -⟩
      rfl
    | _ => cases hkind
  | tuple ps cs =>
    cases b with
    | tuple ps' cs' =>
      refine (tells_components (hparts ha) (hparts hb) ih (h.valid _ ha) (h.valid _ hb)).mono ?_
      intro heq
      rw [erase_tuple, erase_tuple, heq]
    | _ => cases hkind
  | function k m ps rs g v f =>
    cases b with
    | function k' m' ps' rs' g' v' f' =>
      have hps (c) (hc : c ∈ ps) : c ∈ (function k m ps rs g v f).children :=
        List.mem_append_left rs hc
      have hrs (c) (hc : c ∈ rs) : c ∈ (function k m ps rs g v f).children :=
        List.mem_append_right ps hc
      have hps' (c) (hc : c ∈ ps') : c ∈ (function k' m' ps' rs' g' v' f').children :=
        List.mem_append_left rs' hc
      have hrs' (c) (hc : c ∈ rs') : c ∈ (function k' m' ps' rs' g' v' f').children :=
        List.mem_append_right ps' hc
      have hparameters : Tells (fun _ => True)
          (identifierList (ps.map (richIdentifier keccak256)))
          (identifierList (ps'.map (richIdentifier keccak256))) (ps.map erase = ps'.map erase) :=
        tells_types (fun c hc => hparts ha c (hps c hc)) (fun c hc => hparts hb c (hps' c hc))
          fun c hc d hd => ih c (hps c hc) d (hps' d hd)
      refine (Tells.append (tells_functionKind k k') ?_ ?_ fun _ => Tells.prepend _
        (Tells.append (tells_stateMutability m m') ?_ ?_ fun _ =>
          hparameters.append_of_all fun hps =>
            tells_functionTail hps (fun c hc => hparts ha c (hrs c hc))
              (fun c hc => hparts hb c (hrs' c hc))
              (fun c hc d hd => ih c (hrs c hc) d (hrs' d hd)) g v f g' v' f')).mono ?_
      · rintro u - c ⟨⟩
        rfl
      · rintro u - c ⟨⟩
        rfl
      · rintro u - c ⟨⟩
        rfl
      · rintro u - c ⟨⟩
        rfl
      · rintro ⟨rfl, rfl, hps, hrs, rfl, rfl, rfl⟩
        rw [erase_function, erase_function, hps, hrs]
    | _ => cases hkind
  | mapping k v =>
    cases b with
    | mapping k' v' =>
      refine (tells_types (hparts ha) (hparts hb) ih).mono ?_
      intro heq
      obtain ⟨hk, hv⟩ := List.cons.inj heq
      rw [erase, erase, hk, List.singleton_inj.mp hv]
    | _ => cases hkind
  | typeType t =>
    cases b with
    | typeType t' =>
      refine (tells_types (hparts ha) (hparts hb) ih).mono ?_
      intro heq
      rw [erase, erase, List.singleton_inj.mp heq]
    | _ => cases hkind
  | modifier ps =>
    cases b with
    | modifier ps' =>
      refine (tells_types (hparts ha) (hparts hb) ih).mono ?_
      intro heq
      rw [erase_modifier, erase_modifier]
      exact congrArg modifier heq
    | _ => cases hkind
  | module i =>
    cases b with
    | module i' => exact (Tells.toDigits.weaken fun u hu => hu.noDigit).mono (congrArg module)
    | _ => cases hkind
  | metaType t =>
    cases b with
    | metaType t' =>
      exact (ih t (List.mem_singleton_self t) t' (List.mem_singleton_self t')).mono
        (congrArg metaType)
    | _ => cases hkind
  | bool =>
    cases b with
    | bool => exact Tells.refl [] rfl
    | _ => cases hkind
  | block =>
    cases b with
    | block => exact Tells.refl [] rfl
    | _ => cases hkind
  | message =>
    cases b with
    | message => exact Tells.refl [] rfl
    | _ => cases hkind
  | transaction =>
    cases b with
    | transaction => exact Tells.refl [] rfl
    | _ => cases hkind
  | abi =>
    cases b with
    | abi => exact Tells.refl [] rfl
    | _ => cases hkind
  | inaccessibleDynamic =>
    cases b with
    | inaccessibleDynamic => exact Tells.refl [] rfl
    | _ => cases hkind

theorem tells_richIdentifier (h : IsClosed types) (hhash : HasNoCollision keccak256 types)
    (a : TypeObject) (ha : a ∈ types) (b : TypeObject) (hb : b ∈ types) :
    Tells Stops (richIdentifier keccak256 a) (richIdentifier keccak256 b) (a.erase = b.erase) := by
  induction a using children_induction generalizing b with
  | h a ih =>
    rw [richIdentifier_eq, richIdentifier_eq]
    refine (Tells.append_of_all (Kind.tells a.kind b.kind)
      fun hkind => tells_details h hhash ha hb hkind ?_).mono And.right
    exact fun c hc d hd => ih c hc (h.children a ha c hc) d (h.children b hb d hd)

/-- Identifiers identify types up to pointers. -/
theorem identifier_eq_iff_erase_eq (h : IsClosed types) (hhash : HasNoCollision keccak256 types)
    {a b : TypeObject} (ha : a ∈ types) (hb : b ∈ types) :
    identifier keccak256 a = identifier keccak256 b ↔ a.erase = b.erase := by
  constructor
  · intro heq
    have hrich := congrArg unescape heq
    rw [identifier, identifier,
      unescape_escapeIdentifier (isPart_richIdentifier keccak256 h a ha).1,
      unescape_escapeIdentifier (isPart_richIdentifier keccak256 h b hb).1] at hrich
    exact (tells_richIdentifier h hhash a ha b hb [] [] nofun nofun
      (congrArg (· ++ []) hrich)).1
  · intro heq
    rw [identifier, identifier, ← richIdentifier_erase, heq, richIdentifier_erase]

end

end TypeObject

end Polynomial
