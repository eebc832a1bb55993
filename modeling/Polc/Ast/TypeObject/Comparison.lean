import Polc.Ast.TypeObject.Identifiers

/-!
# Identifiers and comparison

Identifiers tell types up to the pointers of tuple types. The operators of tuple types and of magic
types do not: one compares pointers, and the other one forgets the argument of `type(...)`.
-/

namespace Polynomial

open List
open Bool (and_eq_true)

namespace TypeObject

/-- What holds of all the types that are built in one compilation. -/
structure IsCompilation (keccak256 : List (BitVec 8) → Fin 32 → BitVec 8)
    (types : Set TypeObject) : Prop extends IsClosed types where
  hash : HasNoCollision keccak256 types
  /-- The ids of declarations are unique. -/
  declarations : ∀ t ∈ types, ∀ t' ∈ types, ∀ d ∈ t.declaration, ∀ d' ∈ t'.declaration,
    d.id = d'.id → d = d'
  /-- Pointers refer to types. -/
  heap : ∃ heap : ℕ → TypeObject, ∀ pointers components, tuple pointers components ∈ types →
    components = pointers.map (Option.map heap)

/-- Tuple types with the same components share the objects of these. -/
def SharesComponents (types : Set TypeObject) : Prop :=
  ∀ pointers components pointers' components', tuple pointers components ∈ types →
    tuple pointers' components' ∈ types →
    components.map (Option.map erase) = components'.map (Option.map erase) → pointers = pointers'

/-- All the expressions `type(...)` are about one type. -/
def SharesArgument (types : Set TypeObject) : Prop :=
  ∀ t t', metaType t ∈ types → metaType t' ∈ types → t.erase = t'.erase

section

variable {keccak256 : List (BitVec 8) → Fin 32 → BitVec 8} {types : Set TypeObject}

lemma equalLists_iff {ts ts' : List TypeObject}
    (h : ∀ t ∈ ts, ∀ t' ∈ ts', equal t t' ↔ t.erase = t'.erase) :
    equalLists ts ts' ↔ ts.map erase = ts'.map erase := by
  induction ts generalizing ts' with
  | nil =>
    cases ts' with
    | nil => exact iff_of_true rfl rfl
    | cons t' ts' => exact iff_of_false Bool.false_ne_true nofun
  | cons t ts ih =>
    cases ts' with
    | nil => exact iff_of_false Bool.false_ne_true nofun
    | cons t' ts' =>
      have hhead := h t (mem_cons_self ..) t' (mem_cons_self ..)
      have htail := ih fun s hs s' hs' =>
        h s (mem_cons_of_mem t hs) s' (mem_cons_of_mem t' hs')
      change (equal t t' && equalLists ts ts') = true ↔ _
      rw [and_eq_true, hhead, htail, map_cons, map_cons, List.cons.injEq]

lemma IsCompilation.id_eq_iff (h : IsCompilation keccak256 types) {t t' : TypeObject}
    (ht : t ∈ types) (ht' : t' ∈ types) {d d' : NamedDeclaration} (hd : t.declaration = some d)
    (hd' : t'.declaration = some d') : d.id = d'.id ↔ d = d' :=
  ⟨h.declarations t ht t' ht' d hd d' hd', congrArg _⟩

theorem equal_iff_erase_eq (h : IsCompilation keccak256 types)
    (hcomponents : SharesComponents types) (hargument : SharesArgument types) {a b : TypeObject}
    (ha : a ∈ types) (hb : b ∈ types) :
    equal a b ↔ a.erase = b.erase := by
  induction a using children_induction generalizing b with
  | h a ih =>
    have hchildren {b : TypeObject} (hb : b ∈ types) (c) (hc : c ∈ a.children) (d)
        (hd : d ∈ b.children) : equal c d = true ↔ c.erase = d.erase :=
      ih c hc (h.children a ha c hc) (h.children b hb d hd)
    cases a with
    | address p =>
      cases b with
      | address p' =>
        change decide (p = p') = true ↔ address p = address p'
        rw [decide_eq_true_eq, address.injEq]
      | _ => exact iff_of_false Bool.false_ne_true nofun
    | integer n s =>
      cases b with
      | integer n' s' =>
        change (decide (n = n') && decide (s = s')) = true ↔ integer n s = integer n' s'
        simp only [and_eq_true, decide_eq_true_eq, integer.injEq]
      | _ => exact iff_of_false Bool.false_ne_true nofun
    | fixedPoint n k s =>
      cases b with
      | fixedPoint n' k' s' =>
        change (decide (n = n') && decide (k = k') && decide (s = s')) = true ↔
          fixedPoint n k s = fixedPoint n' k' s'
        simp only [and_eq_true, decide_eq_true_eq, fixedPoint.injEq, and_assoc]
      | _ => exact iff_of_false Bool.false_ne_true nofun
    | rationalNumber q =>
      cases b with
      | rationalNumber q' =>
        change decide (q = q') = true ↔ rationalNumber q = rationalNumber q'
        rw [decide_eq_true_eq, rationalNumber.injEq]
      | _ => exact iff_of_false Bool.false_ne_true nofun
    | stringLiteral s =>
      cases b with
      | stringLiteral s' =>
        change decide (s = s') = true ↔ stringLiteral s = stringLiteral s'
        rw [decide_eq_true_eq, stringLiteral.injEq]
      | _ => exact iff_of_false Bool.false_ne_true nofun
    | fixedBytes n =>
      cases b with
      | fixedBytes n' =>
        change decide (n = n') = true ↔ fixedBytes n = fixedBytes n'
        rw [decide_eq_true_eq, fixedBytes.injEq]
      | _ => exact iff_of_false Bool.false_ne_true nofun
    | byteArray s l p =>
      cases b with
      | byteArray s' l' p' =>
        change (decide (l = l') && decide (p = p') && decide (s = s')) = true ↔
          byteArray s l p = byteArray s' l' p'
        simp only [and_eq_true, decide_eq_true_eq, byteArray.injEq]
        tauto
      | _ => exact iff_of_false Bool.false_ne_true nofun
    | array e n l p =>
      cases b with
      | array e' n' l' p' =>
        have hlength : (n.isNone = n'.isNone ∧ (n.isNone = true ∨ n = n')) ↔ n = n' := by
          cases n <;> cases n' <;> simp
        change (decide (l = l') && decide (p = p') && decide (n.isNone = n'.isNone) && equal e e' &&
          (n.isNone || decide (n = n'))) = true ↔ array e.erase n l p = array e'.erase n' l' p'
        simp only [and_eq_true, Bool.or_eq_true, decide_eq_true_eq, array.injEq,
          hchildren hb e (mem_singleton_self e) e' (mem_singleton_self e')]
        tauto
      | _ => exact iff_of_false Bool.false_ne_true nofun
    | contract d s =>
      cases b with
      | contract d' s' =>
        change (decide (d.id = d'.id) && decide (s = s')) = true ↔ contract d s = contract d' s'
        simp only [and_eq_true, decide_eq_true_eq, contract.injEq, h.id_eq_iff ha hb rfl rfl]
      | _ => exact iff_of_false Bool.false_ne_true nofun
    | struct d l p =>
      cases b with
      | struct d' l' p' =>
        change (decide (l = l') && decide (p = p') && decide (d.id = d'.id)) = true ↔
          struct d l p = struct d' l' p'
        simp only [and_eq_true, decide_eq_true_eq, struct.injEq, h.id_eq_iff ha hb rfl rfl]
        tauto
      | _ => exact iff_of_false Bool.false_ne_true nofun
    | enum d =>
      cases b with
      | enum d' =>
        change decide (d.id = d'.id) = true ↔ enum d = enum d'
        rw [decide_eq_true_eq, enum.injEq, h.id_eq_iff ha hb rfl rfl]
      | _ => exact iff_of_false Bool.false_ne_true nofun
    | tuple ps cs =>
      cases b with
      | tuple ps' cs' =>
        obtain ⟨heap, hheap⟩ := h.heap
        change decide (ps = ps') = true ↔ _
        rw [decide_eq_true_eq, erase_tuple, erase_tuple, tuple.injEq]
        constructor
        · rintro rfl
          rw [hheap ps cs ha, hheap ps cs' hb]
          exact ⟨rfl, rfl⟩
        · rintro ⟨-, heq⟩
          exact hcomponents ps cs ps' cs' ha hb heq
      | _ => exact iff_of_false Bool.false_ne_true nofun
    | function k m ps rs g v f =>
      cases b with
      | function k' m' ps' rs' g' v' f' =>
        have hps : equalLists ps ps' = true ↔ ps.map erase = ps'.map erase :=
          equalLists_iff fun c hc d hd => hchildren hb c (mem_append_left rs hc) d
            (mem_append_left rs' hd)
        have hrs : equalLists rs rs' = true ↔ rs.map erase = rs'.map erase :=
          equalLists_iff fun c hc d hd => hchildren hb c (mem_append_right ps hc) d
            (mem_append_right ps' hd)
        change (decide (k = k') && equalLists ps ps' && equalLists rs rs' && decide (g = g') &&
          decide (v = v') && decide (f = f') && decide (m = m')) = true ↔ _
        rw [erase_function, erase_function]
        simp only [and_eq_true, decide_eq_true_eq, function.injEq, hps, hrs]
        tauto
      | _ => exact iff_of_false Bool.false_ne_true nofun
    | mapping k v =>
      cases b with
      | mapping k' v' =>
        change (equal k k' && equal v v') = true ↔
          mapping k.erase v.erase = mapping k'.erase v'.erase
        have hk := hchildren hb k (mem_cons_self ..) k' (mem_cons_self ..)
        have hv := hchildren hb v (mem_cons_of_mem _ (mem_singleton_self v)) v'
          (mem_cons_of_mem _ (mem_singleton_self v'))
        rw [and_eq_true, hk, hv, mapping.injEq]
      | _ => exact iff_of_false Bool.false_ne_true nofun
    | typeType t =>
      cases b with
      | typeType t' =>
        change equal t t' = true ↔ typeType t.erase = typeType t'.erase
        rw [typeType.injEq]
        exact hchildren hb t (mem_singleton_self t) t' (mem_singleton_self t')
      | _ => exact iff_of_false Bool.false_ne_true nofun
    | modifier ps =>
      cases b with
      | modifier ps' =>
        change equalLists ps ps' = true ↔ _
        rw [erase_modifier, erase_modifier, modifier.injEq]
        exact equalLists_iff (hchildren hb)
      | _ => exact iff_of_false Bool.false_ne_true nofun
    | module i =>
      cases b with
      | module i' =>
        change decide (i = i') = true ↔ module i = module i'
        rw [decide_eq_true_eq, module.injEq]
      | _ => exact iff_of_false Bool.false_ne_true nofun
    | metaType t =>
      cases b with
      | metaType t' => exact iff_of_true rfl (congrArg metaType (hargument t t' ha hb))
      | _ => exact iff_of_false Bool.false_ne_true nofun
    | bool =>
      cases b with
      | bool => exact iff_of_true rfl rfl
      | _ => exact iff_of_false Bool.false_ne_true nofun
    | block =>
      cases b with
      | block => exact iff_of_true rfl rfl
      | _ => exact iff_of_false Bool.false_ne_true nofun
    | message =>
      cases b with
      | message => exact iff_of_true rfl rfl
      | _ => exact iff_of_false Bool.false_ne_true nofun
    | transaction =>
      cases b with
      | transaction => exact iff_of_true rfl rfl
      | _ => exact iff_of_false Bool.false_ne_true nofun
    | abi =>
      cases b with
      | abi => exact iff_of_true rfl rfl
      | _ => exact iff_of_false Bool.false_ne_true nofun
    | inaccessibleDynamic =>
      cases b with
      | inaccessibleDynamic => exact iff_of_true rfl rfl
      | _ => exact iff_of_false Bool.false_ne_true nofun

/-- Identifiers identify the types of a compilation exactly if tuple types with the same components
share their objects and all the expressions `type(...)` are about one type. -/
theorem identifiers_identify_iff (h : IsCompilation keccak256 types) :
    (∀ a ∈ types, ∀ b ∈ types,
      identifier keccak256 a = identifier keccak256 b ↔ equal a b = true) ↔
    SharesComponents types ∧ SharesArgument types := by
  constructor
  · intro hidentify
    have hequal {a b : TypeObject} (ha : a ∈ types) (hb : b ∈ types) :
        equal a b = true ↔ a.erase = b.erase :=
      (hidentify a ha b hb).symm.trans (identifier_eq_iff_erase_eq h.toIsClosed h.hash ha hb)
    constructor
    · intro ps cs ps' cs' ha hb heq
      have herase : (tuple ps cs).erase = (tuple ps' cs').erase := by
        rw [erase_tuple, erase_tuple, heq]
      exact of_decide_eq_true ((hequal ha hb).mpr herase)
    · intro t t' ha hb
      exact metaType.inj ((hequal ha hb).mp rfl)
  · rintro ⟨hcomponents, hargument⟩ a ha b hb
    rw [identifier_eq_iff_erase_eq h.toIsClosed h.hash ha hb,
      equal_iff_erase_eq h hcomponents hargument ha hb]

end

/-- The types of `mapping($A_ => uint)` and of `(a, ) = ...` for a number `a`. -/
def mappingTypes : Set TypeObject :=
  {integer 256 false, contract ⟨1, "$A_".toList⟩ false,
    mapping (contract ⟨1, "$A_".toList⟩ false) (integer 256 false),
    tuple [some 0, none] [some (integer 256 false), none]}

lemma isCompilation_mappingTypes : IsCompilation (fun _ _ => 0) mappingTypes where
  children := by
    rintro t (rfl | rfl | rfl | rfl) c hc
    · exact absurd hc not_mem_nil
    · exact absurd hc not_mem_nil
    · rcases mem_pair.mp hc with rfl | rfl
      · exact .inr (.inl rfl)
      · exact .inl rfl
    · obtain rfl := mem_singleton.mp hc
      exact .inl rfl
  valid := by
    rintro t (rfl | rfl | rfl | rfl)
    · exact nofun
    · rintro d ⟨⟩
      exact ⟨by decide, by decide, by decide⟩
    · exact nofun
    · exact nofun
  hash := by
    rintro s s' (h | h | h | h)
    all_goals cases h
  declarations := by
    have hdeclaration : ∀ t ∈ mappingTypes, ∀ d ∈ t.declaration, d = ⟨1, "$A_".toList⟩ := by
      rintro t (rfl | rfl | rfl | rfl)
      · exact nofun
      · rintro d ⟨⟩
        rfl
      · exact nofun
      · exact nofun
    intro t ht t' ht' d hd d' hd' _
    rw [hdeclaration t ht d hd, hdeclaration t' ht' d' hd']
  heap := by
    refine ⟨fun _ => integer 256 false, ?_⟩
    rintro ps cs (h | h | h | h)
    all_goals cases h
    rfl

theorem identifiers_identify_iff_mapping :
    (SharesComponents mappingTypes ∧ SharesArgument mappingTypes) ∧
    ∀ a ∈ mappingTypes, ∀ b ∈ mappingTypes,
      identifier (fun _ _ => 0) a = identifier (fun _ _ => 0) b ↔ equal a b = true := by
  suffices hshared : SharesComponents mappingTypes ∧ SharesArgument mappingTypes from
    ⟨hshared, (identifiers_identify_iff isCompilation_mappingTypes).mpr hshared⟩
  constructor
  · rintro ps cs ps' cs' (h | h | h | h) (h' | h' | h' | h') -
    all_goals cases h
    all_goals cases h'
    rfl
  · rintro t t' (h | h | h | h)
    all_goals cases h

/-- The types of `type(A).name` and `type(B).name`, and those of `(uint[] memory, uint)` as the
types of two calls. -/
def callTypes : Set TypeObject :=
  {contract ⟨1, "A".toList⟩ false, contract ⟨2, "B".toList⟩ false,
    metaType (contract ⟨1, "A".toList⟩ false), metaType (contract ⟨2, "B".toList⟩ false),
    integer 256 false, array (integer 256 false) none .memory true,
    tuple [some 1, some 0] [some (array (integer 256 false) none .memory true),
      some (integer 256 false)],
    tuple [some 2, some 0] [some (array (integer 256 false) none .memory true),
      some (integer 256 false)]}

lemma isCompilation_callTypes : IsCompilation (fun _ _ => 0) callTypes where
  children := by
    have hpair {p : Option ℕ} (c) (hc : c ∈ (tuple [p, some 0]
        [some (array (integer 256 false) none .memory true), some (integer 256 false)]).children) :
        c ∈ callTypes := by
      rcases mem_pair.mp hc with rfl | rfl
      · exact .inr (.inr (.inr (.inr (.inr (.inl rfl)))))
      · exact .inr (.inr (.inr (.inr (.inl rfl))))
    rintro t (rfl | rfl | rfl | rfl | rfl | rfl | rfl | rfl) c hc
    · exact absurd hc not_mem_nil
    · exact absurd hc not_mem_nil
    · obtain rfl := mem_singleton.mp hc
      exact .inl rfl
    · obtain rfl := mem_singleton.mp hc
      exact .inr (.inl rfl)
    · exact absurd hc not_mem_nil
    · obtain rfl := mem_singleton.mp hc
      exact .inr (.inr (.inr (.inr (.inl rfl))))
    · exact hpair c hc
    · exact hpair c hc
  valid := by
    rintro t (rfl | rfl | rfl | rfl | rfl | rfl | rfl | rfl)
    · rintro d ⟨⟩
      exact ⟨by decide, by decide, by decide⟩
    · rintro d ⟨⟩
      exact ⟨by decide, by decide, by decide⟩
    all_goals exact nofun
  hash := by
    rintro s s' (h | h | h | h | h | h | h | h)
    all_goals cases h
  declarations := by
    have hdeclaration : ∀ t ∈ callTypes, ∀ d ∈ t.declaration,
        d = ⟨1, "A".toList⟩ ∨ d = ⟨2, "B".toList⟩ := by
      rintro t (rfl | rfl | rfl | rfl | rfl | rfl | rfl | rfl)
      · rintro d ⟨⟩
        exact .inl rfl
      · rintro d ⟨⟩
        exact .inr rfl
      all_goals exact nofun
    intro t ht t' ht' d hd d' hd' hid
    rcases hdeclaration t ht d hd with rfl | rfl <;>
      rcases hdeclaration t' ht' d' hd' with rfl | rfl
    · rfl
    · cases hid
    · cases hid
    · rfl
  heap := by
    refine ⟨fun p => if p = 0 then integer 256 false else
      array (integer 256 false) none .memory true, ?_⟩
    rintro ps cs (h | h | h | h | h | h | h | h)
    all_goals cases h
    · rfl
    · rfl

/-- The magic types compare equal but have different identifiers, and the tuple types are different
but have one identifier. -/
theorem identifier_misidentifies :
    IsCompilation (fun _ _ => 0) callTypes ∧
    (∃ a ∈ callTypes, ∃ b ∈ callTypes, equal a b = true ∧
      identifier (fun _ _ => 0) a ≠ identifier (fun _ _ => 0) b) ∧
    ∃ a ∈ callTypes, ∃ b ∈ callTypes, equal a b = false ∧
      identifier (fun _ _ => 0) a = identifier (fun _ _ => 0) b := by
  refine ⟨isCompilation_callTypes, ⟨metaType (contract ⟨1, "A".toList⟩ false),
    .inr (.inr (.inl rfl)), metaType (contract ⟨2, "B".toList⟩ false),
    .inr (.inr (.inr (.inl rfl))), rfl, by decide +kernel⟩, ?_⟩
  exact ⟨tuple [some 1, some 0] [some (array (integer 256 false) none .memory true),
      some (integer 256 false)], .inr (.inr (.inr (.inr (.inr (.inr (.inl rfl)))))),
    tuple [some 2, some 0] [some (array (integer 256 false) none .memory true),
      some (integer 256 false)], .inr (.inr (.inr (.inr (.inr (.inr (.inr rfl)))))), by decide, rfl⟩

end TypeObject

end Polynomial
