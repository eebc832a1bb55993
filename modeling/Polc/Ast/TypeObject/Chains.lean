import Polc.Ast.TypeObject.Escaping
import Mathlib.Data.List.ReduceOption

/-!
# Types of one compilation

What holds of all the types that are built in one compilation, and the induction over the types
that a type is built from. The escaping of their identifiers can be undone.
-/

namespace Polynomial

open Semantics List

/-- An identifier of the language. -/
def isIdentifier (name : Text) : Prop :=
  name ≠ [] ∧ (∀ c ∈ name.head?, c.isDigit = false) ∧
    ∀ c ∈ name, c.isAlphanum = true ∨ c = '_' ∨ c = '$'

namespace TypeObject

/-- The types that a type refers to. -/
def children : TypeObject → List TypeObject
  | array baseType _ _ _ => [baseType]
  | tuple _ components => components.reduceOption
  | function _ _ parameterTypes returnParameterTypes _ _ _ => parameterTypes ++ returnParameterTypes
  | mapping keyType valueType => [keyType, valueType]
  | typeType actualType => [actualType]
  | modifier parameterTypes => parameterTypes
  | metaType typeArgument => [typeArgument]
  | _ => []

/-- The declaration of a user-defined type. -/
def declaration : TypeObject → Option NamedDeclaration
  | contract d _ | struct d _ _ | enum d => some d
  | _ => none

/-- A tuple type has no single absent component, and declarations are named by identifiers. -/
def IsValid : TypeObject → Prop
  | tuple _ components => components ≠ [none]
  | t => ∀ d ∈ t.declaration, isIdentifier d.name

lemma sizeOf_lt_of_mem_children {t c : TypeObject} (h : c ∈ t.children) : sizeOf c < sizeOf t := by
  cases t with
  | array b n l p =>
    obtain rfl := mem_singleton.mp h
    simp only [array.sizeOf_spec]
    omega
  | tuple ps cs =>
    have hmem := sizeOf_lt_of_mem (reduceOption_mem_iff.mp h)
    simp only [tuple.sizeOf_spec, Option.some.sizeOf_spec] at hmem ⊢
    omega
  | function k m ps rs g v b =>
    simp only [function.sizeOf_spec]
    rcases mem_append.mp h with h | h
    · have := sizeOf_lt_of_mem h
      omega
    · have := sizeOf_lt_of_mem h
      omega
  | mapping k v =>
    simp only [mapping.sizeOf_spec]
    rcases mem_pair.mp h with rfl | rfl
    · omega
    · omega
  | typeType t =>
    obtain rfl := mem_singleton.mp h
    simp only [typeType.sizeOf_spec]
    omega
  | modifier ps =>
    have : sizeOf c < sizeOf ps := sizeOf_lt_of_mem h
    simp only [modifier.sizeOf_spec]
    omega
  | metaType t =>
    obtain rfl := mem_singleton.mp h
    simp only [metaType.sizeOf_spec]
    omega
  | _ => exact absurd h not_mem_nil

theorem children_induction {P : TypeObject → Prop} (h : ∀ t, (∀ c ∈ t.children, P c) → P t)
    (t : TypeObject) : P t :=
  h t fun c _ => children_induction h c
termination_by sizeOf t
decreasing_by exact sizeOf_lt_of_mem_children ‹_›

/-- The text has no bracket and no comma. -/
def IsPlain (s : Text) : Prop := ∀ c ∈ s, c ≠ '(' ∧ c ≠ ')' ∧ c ≠ ','

instance (s : Text) : Decidable (IsPlain s) := inferInstanceAs (Decidable (∀ c ∈ s, _))

lemma IsPlain.append {s t : Text} (hs : IsPlain s) (ht : IsPlain t) : IsPlain (s ++ t) := by
  intro c hc
  rcases mem_append.mp hc with hc | hc
  · exact hs c hc
  · exact ht c hc

lemma isPlain_of_isAlphanum {s : Text} (h : ∀ c ∈ s, c.isAlphanum ∨ c = '_' ∨ c = '$') :
    IsPlain s := by
  intro c hc
  refine ⟨?_, ?_, ?_⟩ <;>
    · rintro rfl
      exact absurd (h _ hc) (by decide)

lemma isPlain_toDigits (n : ℕ) : IsPlain (Nat.toDigits 10 n) := by
  refine isPlain_of_isAlphanum fun c hc => .inl ?_
  have hdigit := Nat.isDigit_of_mem_toDigits (by decide) (by decide) hc
  simp [Char.isAlphanum, hdigit]

lemma isPlain_toHex (bytes : List (BitVec 8)) : IsPlain (toHex bytes) := by
  refine isPlain_of_isAlphanum fun c hc => .inl ?_
  obtain ⟨b, -, hc⟩ := mem_flatMap.mp hc
  have hdigit : ∀ n < 16, (Nat.digitChar n).isAlphanum = true := by decide
  have hlt := b.isLt
  rcases mem_pair.mp hc with rfl | rfl
  · exact hdigit _ (by omega)
  · exact hdigit _ (by omega)

lemma isPlain_identifierLocationSuffix (location : DataLocation) (isPointer : Bool) :
    IsPlain (identifierLocationSuffix location isPointer) := by
  cases location <;> cases isPointer <;> decide

/-! ### Chains -/

lemma mayPrecede_closing (c : Char) : MayPrecede c ')' := ⟨nofun, fun _ => by decide⟩

lemma mayPrecede_comma (c : Char) : MayPrecede c ',' := ⟨nofun, fun _ => by decide⟩

lemma mayPrecede_of_opening (c : Char) : MayPrecede '(' c := ⟨fun _ => by decide, nofun⟩

lemma IsPlain.isChain {s : Text} (h : IsPlain s) : s.IsChain MayPrecede := by
  induction s with
  | nil => exact .nil
  | cons c s ih =>
    refine isChain_cons.mpr ⟨fun d hd => ?_, ih fun d hd => h d (mem_cons_of_mem c hd)⟩
    obtain ⟨-, hclosing, hcomma⟩ := h c (mem_cons_self ..)
    have hd' := h d (mem_cons_of_mem c (mem_of_mem_head? hd))
    exact ⟨fun hopening => absurd hopening hd'.1,
      fun hc => absurd hc (not_or.mpr ⟨hclosing, hcomma⟩)⟩

/-- The text may follow a bracket that closes, or a comma. -/
def IsRest (s : Text) : Prop :=
  s.IsChain MayPrecede ∧ ∀ c ∈ s.head?, c ≠ '_' ∧ c ≠ '$' ∧ c ≠ '('

lemma isRest_nil : IsRest [] := ⟨.nil, nofun⟩

lemma IsRest.cons {c : Char} {s : Text} (h : IsRest s) : (c :: s).IsChain MayPrecede :=
  isChain_cons.mpr ⟨fun d hd => ⟨fun hd' => absurd hd' (h.2 d hd).2.2, fun _ => h.2 d hd⟩, h.1⟩

lemma IsPlain.isRest_append {w t : Text} (hw : IsPlain w)
    (hhead : ∀ c ∈ w.head?, c ≠ '_' ∧ c ≠ '$') (ht : IsRest t) : IsRest (w ++ t) := by
  constructor
  · refine hw.isChain.append ht.1 fun c hc d hd => ?_
    obtain ⟨-, hclosing, hcomma⟩ := hw c (mem_of_mem_getLast? hc)
    exact ⟨fun h => absurd h (ht.2 d hd).2.2, fun h => absurd h (not_or.mpr ⟨hclosing, hcomma⟩)⟩
  · cases w with
    | nil => exact ht.2
    | cons a w =>
      rintro c ⟨⟩
      exact ⟨(hhead a rfl).1, (hhead a rfl).2, (hw a (mem_cons_self ..)).1⟩

lemma isRest_toDigits {n : ℕ} {t : Text} (ht : IsPlain t) : IsRest (Nat.toDigits 10 n ++ t) := by
  refine ⟨((isPlain_toDigits n).append ht).isChain, fun c hc => ?_⟩
  rw [head?_append_of_ne_nil _ Nat.toDigits_ne_nil] at hc
  have hdigit := Nat.isDigit_of_mem_toDigits (by decide) (by decide) (mem_of_mem_head? hc)
  refine ⟨?_, ?_, ?_⟩ <;>
    · rintro rfl
      exact absurd hdigit (by decide)

lemma isChain_parenthesize {w s t : Text} (hw : IsPlain w)
    (hlast : ∀ c ∈ w.getLast?, c ≠ '_' ∧ c ≠ '$') (hs : s.IsChain MayPrecede) (ht : IsRest t) :
    (w ++ (parenthesizeIdentifier s ++ t)).IsChain MayPrecede := by
  refine hw.isChain.append ?_ ?_
  · have hinner : (s ++ ')' :: t).IsChain MayPrecede := by
      refine hs.append ht.cons ?_
      rintro c - d ⟨⟩
      exact mayPrecede_closing c
    have heq : parenthesizeIdentifier s ++ t = '(' :: (s ++ ')' :: t) := by
      simp [parenthesizeIdentifier]
    rw [heq]
    exact isChain_cons.mpr ⟨fun c _ => mayPrecede_of_opening c, hinner⟩
  · rintro c hc d ⟨⟩
    obtain ⟨-, hclosing, hcomma⟩ := hw c (mem_of_mem_getLast? hc)
    exact ⟨fun _ => hlast c hc, fun h => absurd h (not_or.mpr ⟨hclosing, hcomma⟩)⟩

/-- The text of a type as part of others. -/
def IsPart (s : Text) : Prop := s.IsChain MayPrecede ∧ s.head? = some 't'

lemma IsPart.isRest {s : Text} (h : IsPart s) : IsRest s := by
  refine ⟨h.1, fun c hc => ?_⟩
  rw [h.2] at hc
  obtain rfl := Option.some.inj hc
  decide

lemma IsPlain.isPart {s : Text} (h : IsPlain s) (hhead : s.head? = some 't') : IsPart s :=
  ⟨h.isChain, hhead⟩

lemma isPart_toList (s : String) (h : IsPlain s.toList) (hhead : s.toList.head? = some 't') :
    IsPart s.toList :=
  h.isPart hhead

lemma isPart_parenthesize {w s t : Text} (hw : IsPlain w) (hhead : w.head? = some 't')
    (hlast : ∀ c ∈ w.getLast?, c ≠ '_' ∧ c ≠ '$') (hs : s.IsChain MayPrecede) (ht : IsRest t) :
    IsPart (w ++ (parenthesizeIdentifier s ++ t)) :=
  ⟨isChain_parenthesize hw hlast hs ht, by rw [head?_append, hhead, Option.some_or]⟩

lemma isRest_join {xs : List Text} (h : ∀ x ∈ xs, x = [] ∨ IsPart x) : IsRest (join ',' xs) := by
  have hrest : ∀ x : Text, x = [] ∨ IsPart x → IsRest x := by
    rintro x (rfl | hx)
    · exact isRest_nil
    · exact hx.isRest
  induction xs with
  | nil => exact isRest_nil
  | cons x xs ih =>
    have hx := hrest x (h x (mem_cons_self ..))
    cases xs with
    | nil => exact hx
    | cons y ys =>
      have htail := ih fun z hz => h z (mem_cons_of_mem x hz)
      rw [join_cons_cons]
      constructor
      · refine hx.1.append htail.cons ?_
        rintro c - d ⟨⟩
        exact mayPrecede_comma c
      · cases x with
        | nil =>
          rintro c ⟨⟩
          decide
        | cons c x => exact hx.2

/-! ### Identifiers of types -/

section

variable (keccak256 : List (BitVec 8) → Fin 32 → BitVec 8)

lemma richIdentifiers_eq_map (ts : List TypeObject) :
    richIdentifiers keccak256 ts = ts.map (richIdentifier keccak256) := by
  induction ts with
  | nil => rfl
  | cons t ts ih => rw [richIdentifiers, ih, map_cons]

/-- The text of a component. -/
def componentText (t : Option TypeObject) : Text := t.elim [] (richIdentifier keccak256)

lemma richComponents_eq_map (ts : List (Option TypeObject)) :
    richComponents keccak256 ts = ts.map (componentText keccak256) := by
  induction ts with
  | nil => rfl
  | cons t ts ih => cases t <;> rw [richComponents, ih, map_cons] <;> rfl

lemma isPlain_functionKind (kind : FunctionKind) : IsPlain kind.toString.toList := by
  cases kind <;> decide

/-- What follows the parameters of a function. -/
def functionTail (parameterTypes returnParameterTypes : List Text) (gasSet valueSet bound : Bool) :
    Text :=
  "returns".toList ++ (identifierList returnParameterTypes ++
    ((if gasSet then "gas" else "").toList ++ ((if valueSet then "value" else "").toList ++
      if bound then "bound_to".toList ++ parenthesizeIdentifier (parameterTypes.headD [])
      else [])))

lemma isRest_functionTail {ps rs : List Text} (hps : ∀ p ∈ ps, IsPart p)
    (hrs : ∀ r ∈ rs, IsPart r) (gasSet valueSet bound : Bool) :
    IsRest (functionTail ps rs gasSet valueSet bound) := by
  have hself : (ps.headD []).IsChain MayPrecede := by
    cases ps with
    | nil => exact .nil
    | cons p ps => exact (hps p (mem_cons_self ..)).1
  have hbound : IsRest (if bound then "bound_to".toList ++ parenthesizeIdentifier (ps.headD [])
      else []) := by
    cases bound with
    | false => exact isRest_nil
    | true =>
      have hchain := isChain_parenthesize (w := "bound_to".toList) (by decide) (by decide) hself
        isRest_nil
      rw [append_nil] at hchain
      refine ⟨hchain, ?_⟩
      rintro c ⟨⟩
      decide
  have hword (b : Bool) (word : String) (hplain : IsPlain word.toList)
      (hhead : ∀ c ∈ word.toList.head?, c ≠ '_' ∧ c ≠ '$') {t : Text} (ht : IsRest t) :
      IsRest ((if b then word else "").toList ++ t) := by
    cases b with
    | false => exact ht
    | true => exact hplain.isRest_append hhead ht
  have htail := hword gasSet "gas" (by decide) (by decide)
    (hword valueSet "value" (by decide) (by decide) hbound)
  refine ⟨isChain_parenthesize (by decide) (by decide)
    (isRest_join fun r hr => .inr (hrs r hr)).1 htail, ?_⟩
  rintro c ⟨⟩
  decide

def lengthText : Option ℕ → Text
  | none => "dyn".toList
  | some n => Nat.toDigits 10 n

/-- What follows the base type of an array. -/
def arrayTail (length : Option ℕ) (location : DataLocation) (isPointer : Bool) : Text :=
  lengthText length ++ identifierLocationSuffix location isPointer

/-! The texts of the types that refer to others or to declarations, from the left. -/

lemma richIdentifier_array (b : TypeObject) (n : Option ℕ) (l : DataLocation) (p : Bool) :
    richIdentifier keccak256 (array b n l p) = "t_array".toList ++
      (identifierList [richIdentifier keccak256 b] ++ arrayTail n l p) := by
  change _ ++ _ ++ lengthText n ++ _ = _
  simp only [append_assoc]
  rfl

lemma richIdentifier_contract (d : NamedDeclaration) (s : Bool) :
    richIdentifier keccak256 (contract d s) = (if s then "t_super" else "t_contract").toList ++
      (parenthesizeIdentifier d.name ++ (Nat.toDigits 10 d.id ++ [])) := by
  change _ ++ _ ++ _ = _
  simp only [append_assoc, append_nil]

lemma richIdentifier_struct (d : NamedDeclaration) (l : DataLocation) (p : Bool) :
    richIdentifier keccak256 (struct d l p) = "t_struct".toList ++
      (parenthesizeIdentifier d.name ++
        (Nat.toDigits 10 d.id ++ identifierLocationSuffix l p)) := by
  change _ ++ _ ++ _ ++ _ = _
  simp only [append_assoc]

lemma richIdentifier_enum (d : NamedDeclaration) :
    richIdentifier keccak256 (enum d) = "t_enum".toList ++
      (parenthesizeIdentifier d.name ++ (Nat.toDigits 10 d.id ++ [])) := by
  change _ ++ _ ++ _ = _
  simp only [append_assoc, append_nil]

lemma richIdentifier_tuple (ps : List (Option ℕ)) (cs : List (Option TypeObject)) :
    richIdentifier keccak256 (tuple ps cs) = "t_tuple".toList ++
      (identifierList (cs.map (componentText keccak256)) ++ []) := by
  rw [← richComponents_eq_map, append_nil]
  rfl

lemma append_assoc_function {α : Type*} (a b c d e f g h i j : List α) :
    a ++ b ++ c ++ d ++ e ++ f ++ g ++ h ++ i ++ j =
      a ++ (b ++ (c ++ d)) ++ (e ++ (f ++ (g ++ (h ++ (i ++ j))))) := by
  simp only [append_assoc]

lemma richIdentifier_function (kind : FunctionKind) (m : StateMutability) (ps rs : List TypeObject)
    (g v b : Bool) :
    richIdentifier keccak256 (function kind m ps rs g v b) =
      "t_function_".toList ++ (kind.toString.toList ++ ("_".toList ++ m.toString.toList)) ++
        (identifierList (ps.map (richIdentifier keccak256)) ++
          functionTail (ps.map (richIdentifier keccak256)) (rs.map (richIdentifier keccak256))
            g v b) := by
  rw [← richIdentifiers_eq_map, ← richIdentifiers_eq_map]
  exact append_assoc_function ..

lemma richIdentifier_mapping (k v : TypeObject) :
    richIdentifier keccak256 (mapping k v) = "t_mapping".toList ++
      (identifierList [richIdentifier keccak256 k, richIdentifier keccak256 v] ++ []) := by
  rw [append_nil]
  rfl

lemma richIdentifier_typeType (t : TypeObject) :
    richIdentifier keccak256 (typeType t) = "t_type".toList ++
      (identifierList [richIdentifier keccak256 t] ++ []) := by
  rw [append_nil]
  rfl

lemma richIdentifier_modifier (ps : List TypeObject) :
    richIdentifier keccak256 (modifier ps) = "t_modifier".toList ++
      (identifierList (ps.map (richIdentifier keccak256)) ++ []) := by
  rw [← richIdentifiers_eq_map, append_nil]
  rfl

/-- The types are closed under the types they refer to, and valid. -/
structure IsClosed (types : Set TypeObject) : Prop where
  children : ∀ t ∈ types, ∀ c ∈ t.children, c ∈ types
  valid : ∀ t ∈ types, t.IsValid

variable {types : Set TypeObject}

lemma IsClosed.isIdentifier (h : IsClosed types) {t : TypeObject} (ht : t ∈ types)
    {d : NamedDeclaration} (hd : t.declaration = some d) : isIdentifier d.name := by
  have hvalid := h.valid t ht
  cases t with
  | contract d' s | struct d' l p | enum d' => exact hvalid d hd
  | _ => exact absurd hd nofun

theorem isPart_richIdentifier (h : IsClosed types) (t : TypeObject) (ht : t ∈ types) :
    IsPart (richIdentifier keccak256 t) := by
  induction t using children_induction with
  | h t ih =>
    have hchild : ∀ c ∈ t.children, IsPart (richIdentifier keccak256 c) := fun c hc =>
      ih c hc (h.children t ht c hc)
    have hchildren : ∀ x ∈ t.children.map (richIdentifier keccak256), x = [] ∨ IsPart x := by
      intro x hx
      obtain ⟨c, hc, rfl⟩ := mem_map.mp hx
      exact .inr (hchild c hc)
    cases t with
    | address p =>
      change IsPart (if p then "t_address_payable" else "t_address").toList
      cases p
      · exact ⟨by decide, rfl⟩
      · exact ⟨by decide, rfl⟩
    | integer n s =>
      refine IsPlain.isPart (IsPlain.append ?_ (isPlain_toDigits n)) rfl
      cases s <;> decide
    | fixedPoint n k s =>
      refine IsPlain.isPart (IsPlain.append (IsPlain.append (IsPlain.append ?_
        (isPlain_toDigits n)) (by decide)) (isPlain_toDigits k)) rfl
      cases s <;> decide
    | rationalNumber q =>
      refine IsPlain.isPart (IsPlain.append (IsPlain.append (IsPlain.append ?_
        (isPlain_toDigits _)) (by decide)) (isPlain_toDigits _)) ?_
      · split_ifs <;> decide
      · change List.head? ((if q < 0 then "t_rational_minus_" else "t_rational_").toList ++ _ ++
          _ ++ _) = _
        split_ifs <;> rfl
    | stringLiteral v => exact IsPlain.isPart (IsPlain.append (by decide) (isPlain_toHex _)) rfl
    | bool => exact isPart_toList "t_bool" (by decide) rfl
    | fixedBytes n => exact IsPlain.isPart (IsPlain.append (by decide) (isPlain_toDigits n)) rfl
    | byteArray s l p =>
      refine IsPlain.isPart (IsPlain.append ?_ (isPlain_identifierLocationSuffix l p)) ?_
      · cases s <;> decide
      · cases s <;> rfl
    | array b n l p =>
      rw [richIdentifier_array]
      refine isPart_parenthesize (by decide) rfl (by decide) (isRest_join hchildren).1 ?_
      cases n with
      | none =>
        refine ⟨IsPlain.isChain (IsPlain.append (by decide)
          (isPlain_identifierLocationSuffix l p)), ?_⟩
        rintro c ⟨⟩
        decide
      | some n => exact isRest_toDigits (isPlain_identifierLocationSuffix l p)
    | contract d s =>
      have hname := isPlain_of_isAlphanum (h.isIdentifier ht rfl).2.2
      rw [richIdentifier_contract]
      refine isPart_parenthesize ?_ ?_ ?_ hname.isChain (isRest_toDigits nofun)
      · cases s <;> decide
      · cases s <;> rfl
      · cases s <;> decide
    | struct d l p =>
      have hname := isPlain_of_isAlphanum (h.isIdentifier ht rfl).2.2
      rw [richIdentifier_struct]
      exact isPart_parenthesize (by decide) rfl (by decide) hname.isChain
        (isRest_toDigits (isPlain_identifierLocationSuffix l p))
    | enum d =>
      have hname := isPlain_of_isAlphanum (h.isIdentifier ht rfl).2.2
      rw [richIdentifier_enum]
      exact isPart_parenthesize (by decide) rfl (by decide) hname.isChain (isRest_toDigits nofun)
    | tuple ps cs =>
      rw [richIdentifier_tuple]
      refine isPart_parenthesize (by decide) rfl (by decide) (isRest_join fun x hx => ?_).1
        isRest_nil
      obtain ⟨c, hc, rfl⟩ := mem_map.mp hx
      cases c with
      | none => exact .inl rfl
      | some c => exact .inr (hchild c (reduceOption_mem_iff.mpr hc))
    | function k m ps rs g v b =>
      have hmutability : IsPlain m.toString.toList ∧
          ∀ c ∈ m.toString.toList.getLast?, c ≠ '_' ∧ c ≠ '$' := by
        cases m <;> exact ⟨by decide, by decide⟩
      have hne : m.toString.toList ≠ [] := by cases m <;> exact cons_ne_nil _ _
      have hparts {ts : List TypeObject} (hts : ∀ c ∈ ts, c ∈ (function k m ps rs g v b).children) :
          ∀ x ∈ ts.map (richIdentifier keccak256), IsPart x := by
        intro x hx
        obtain ⟨c, hc, rfl⟩ := mem_map.mp hx
        exact hchild c (hts c hc)
      have hps := hparts fun c hc => mem_append_left rs hc
      have hrs := hparts fun c hc => mem_append_right ps hc
      rw [richIdentifier_function]
      refine isPart_parenthesize (IsPlain.append (by decide) ((isPlain_functionKind k).append
        (IsPlain.append (by decide) hmutability.1))) rfl ?_
        (isRest_join fun x hx => .inr (hps x hx)).1 (isRest_functionTail hps hrs g v b)
      rw [getLast?_append_of_ne_nil, getLast?_append_of_ne_nil,
        getLast?_append_of_ne_nil]
      · exact hmutability.2
      · exact hne
      · exact append_ne_nil_of_right_ne_nil _ hne
      · exact append_ne_nil_of_right_ne_nil _ (append_ne_nil_of_right_ne_nil _ hne)
    | mapping k v =>
      rw [richIdentifier_mapping]
      exact isPart_parenthesize (by decide) rfl (by decide) (isRest_join hchildren).1 isRest_nil
    | typeType t =>
      rw [richIdentifier_typeType]
      exact isPart_parenthesize (by decide) rfl (by decide) (isRest_join hchildren).1 isRest_nil
    | modifier ps =>
      rw [richIdentifier_modifier]
      exact isPart_parenthesize (by decide) rfl (by decide) (isRest_join hchildren).1 isRest_nil
    | module i => exact IsPlain.isPart (IsPlain.append (by decide) (isPlain_toDigits i)) rfl
    | block => exact isPart_toList "t_magic_block" (by decide) rfl
    | message => exact isPart_toList "t_magic_message" (by decide) rfl
    | transaction => exact isPart_toList "t_magic_transaction" (by decide) rfl
    | abi => exact isPart_toList "t_magic_abi" (by decide) rfl
    | metaType t =>
      have hargument := hchild t (mem_singleton_self t)
      exact ⟨(IsPlain.isRest_append (by decide) (by decide) hargument.isRest).1, rfl⟩
    | inaccessibleDynamic => exact isPart_toList "t_inaccessible" (by decide) rfl

end

end TypeObject

end Polynomial
