import Polc.Sof.Execution

/-!
# Execution in lock-step

Two programs that execute the same items up to the tags they push do the same up to these tags,
whatever relation between the code ahead they keep.
-/

namespace Sof

open AssemblyItem Semantics

/-- Equal, or pushing related tags of the code itself. -/
inductive AssemblyItem.Rel (E : Nat → Nat → Prop) : AssemblyItem → AssemblyItem → Prop
  | refl (i : AssemblyItem) : Rel E i i
  | pushTag (d d' : Word) (hd : (splitForeignPushTag d).1 = noSub)
    (hd' : (splitForeignPushTag d').1 = noSub)
    (h : E (splitForeignPushTag d).2 (splitForeignPushTag d').2) :
    Rel E (.pushTag d) (.pushTag d')

/-- Equal, or related tags of the code itself. -/
inductive Value.Rel (E : Nat → Nat → Prop) : Value → Value → Prop
  | refl (v : Value) : Rel E v v
  | tag (t t' : Nat) (h : E t t') : Rel E (.tag noSub t) (.tag noSub t')

variable {E E' : Nat → Nat → Prop}

lemma AssemblyItem.Rel.mono (hE : ∀ a b, E a b → E' a b) {i i' : AssemblyItem}
    (h : Rel E i i') : Rel E' i i' := by
  cases h with
  | refl => exact .refl i
  | pushTag d d' hd hd' h => exact .pushTag d d' hd hd' (hE _ _ h)

lemma AssemblyItem.Rel.equivalence (hE : Equivalence E) : Equivalence (Rel E) where
  refl := .refl
  symm h := by
    cases h with
    | refl => exact .refl _
    | pushTag d d' hd hd' h => exact .pushTag d' d hd' hd (hE.symm h)
  trans h h' := by
    cases h with
    | refl => exact h'
    | pushTag d d' hd hd' h =>
      cases h' with
      | refl => exact .pushTag d d' hd hd' h
      | pushTag _ d'' _ hd'' h' => exact .pushTag d d'' hd hd'' (hE.trans h h')

lemma AssemblyItem.Rel.placedTag_eq {i i' : AssemblyItem} (h : Rel E i i') :
    i.placedTag = i'.placedTag := by
  cases h <;> rfl

lemma AssemblyItem.Rel.endsBlock_eq {i i' : AssemblyItem} (h : Rel E i i') :
    i.endsBlock = i'.endsBlock := by
  cases h <;> rfl

lemma forall₂_equivalence {α : Type} {R : α → α → Prop} (hR : Equivalence R) :
    Equivalence (List.Forall₂ R) where
  refl l := List.forall₂_same.mpr fun x _ => hR.refl x
  symm h := (h.imp fun _ _ hab => hR.symm hab).flip
  trans {l₁ l₂ l₃} h h' := by
    induction h generalizing l₃ with
    | nil => exact h'
    | cons hab _ ih =>
      obtain ⟨c, l, hbc, hl, rfl⟩ := List.forall₂_cons_left_iff.mp h'
      exact .cons (hR.trans hab hbc) (ih hl)

section LockStep

variable {World : Type}

/-- In front of related code, with equal states and stacks that are equal up to tags. -/
structure ConfigRel (E : Nat → Nat → Prop) (K : List AssemblyItem → List AssemblyItem → Prop)
    (c c' : Config World) : Prop where
  code : K c.code c'.code
  stack : List.Forall₂ (Value.Rel E) c.stack c'.stack
  state : c.state = c'.state

/-- The same fault, or halts that differ in related tags on the stack only. -/
inductive OutcomeRel (E : Nat → Nat → Prop) : Outcome World → Outcome World → Prop
  | halt (reason : Halt) (stack stack' : List Value) (state : SvmState World)
    (h : List.Forall₂ (Value.Rel E) stack stack') :
    OutcomeRel E (.halt reason stack state) (.halt reason stack' state)
  | fault (f : Fault) : OutcomeRel E (.fault f) (.fault f)

abbrev StepRel (E : Nat → Nat → Prop) (K : List AssemblyItem → List AssemblyItem → Prop) :
    Config World ⊕ Outcome World → Config World ⊕ Outcome World → Prop :=
  Sum.LiftRel (ConfigRel E K) (OutcomeRel E)

/-- Related tags are in front of related code, or both missing. -/
def SameJumps (E : Nat → Nat → Prop) (K : List AssemblyItem → List AssemblyItem → Prop)
    (items items' : List AssemblyItem) : Prop :=
  ∀ t t', E t t' → Option.Rel K (codeAt items t) (codeAt items' t')

variable {K : List AssemblyItem → List AssemblyItem → Prop}
  {items items' rest rest' : List AssemblyItem} {stack stack' : List Value}
  {state : SvmState World} {env : Environment World} {layout : Layout}

lemma StepRel.fault (f : Fault) :
    StepRel E K (.inr (.fault f) : Config World ⊕ Outcome World) (.inr (.fault f)) :=
  .inr (.fault f)

lemma jumpTag_rel (hE : ∀ t, E t t) {v v' : Value} (hv : Value.Rel E v v') :
    Option.Rel E (jumpTag layout v) (jumpTag layout v') := by
  cases hv with
  | refl =>
    cases jumpTag layout v with
    | none => exact .none
    | some t => exact .some (hE t)
  | tag t t' h =>
    rw [jumpTag, jumpTag, if_pos rfl, if_pos rfl]
    exact .some h

lemma jumpTo_rel (hE : ∀ t, E t t) (hjump : SameJumps E K items items') {v v' : Value}
    (hv : Value.Rel E v v') (hstack : List.Forall₂ (Value.Rel E) stack stack') :
    StepRel E K (jumpTo layout items v stack state) (jumpTo layout items' v' stack' state) := by
  have htag : Option.Rel E (jumpTag layout v) (jumpTag layout v') := jumpTag_rel hE hv
  rw [jumpTo, jumpTo]
  generalize jumpTag layout v = tag at htag ⊢
  generalize jumpTag layout v' = tag' at htag ⊢
  cases htag with
  | none => exact .fault _
  | @some t t' h =>
    rw [Option.bind_some, Option.bind_some]
    have hcode := hjump t t' h
    generalize codeAt items t = code at hcode ⊢
    generalize codeAt items' t' = code' at hcode ⊢
    cases hcode with
    | none => exact .fault _
    | some hcode => exact .inl ⟨hcode, hstack, rfl⟩

/-! #### Operations -/

lemma rel_getElem? {α : Type} {R : α → α → Prop} {l l' : List α} (h : List.Forall₂ R l l')
    (n : Nat) : Option.Rel R l[n]? l'[n]? := by
  induction h generalizing n with
  | nil => exact .none
  | cons ha _ ih =>
    cases n with
    | zero => exact .some ha
    | succ n => exact ih n

lemma rel_set {α : Type} {R : α → α → Prop} {l l' : List α} (h : List.Forall₂ R l l') (n : Nat)
    {a a' : α} (ha : R a a') : List.Forall₂ R (l.set n a) (l'.set n a') := by
  induction h generalizing n with
  | nil => exact .nil
  | cons hb h ih =>
    cases n with
    | zero => exact .cons ha h
    | succ n => exact .cons hb (ih n)

lemma words_rel (h : List.Forall₂ (Value.Rel E) stack stack') :
    Value.words stack = Value.words stack' := by
  induction h with
  | nil => rfl
  | @cons v v' _ _ hv _ ih =>
    cases hv with
    | tag => rfl
    | refl =>
      cases v with
      | word w => rw [Value.words, Value.words, ih]
      | tag => rfl

lemma maskTag_rel {v v' w w' : Value} (hv : Value.Rel E v v') (hw : Value.Rel E w w') :
    Option.Rel (Value.Rel E) (Value.maskTag v w) (Value.maskTag v' w') := by
  have hrefl : ∀ v : Option Value, Option.Rel (Value.Rel E) v v := by
    rintro (_ | v)
    · exact .none
    · exact .some (.refl v)
  have hif : ∀ {p : Prop} [Decidable p] {t t' : Nat}, E t t' →
      Option.Rel (Value.Rel E) (if p then some (.tag noSub t) else none)
        (if p then some (.tag noSub t') else none) := by
    intro p _ t t' h
    split_ifs
    · exact .some (.tag t t' h)
    · exact .none
  cases hv with
  | refl =>
    cases hw with
    | refl => exact hrefl _
    | tag t t' h =>
      cases v with
      | word x => exact hif h
      | tag => exact .none
  | tag t t' h =>
    cases hw with
    | refl =>
      cases w with
      | word x => exact hif h
      | tag => exact .none
    | tag => exact .none

lemma execInstruction_of_endsBlock {i : Instruction} (h : endsBlock (.operation i))
    (hi : i ≠ .jump) (env : Environment World) (args : List Word) :
    ∃ reason state', execInstruction env i args state = .halt reason state' := by
  cases i <;> first
    | exact ⟨_, _, rfl⟩
    | exact absurd rfl hi
    | cases h

lemma execOperation_rel (env : Environment World) {i : Instruction} (hi : i ≠ .jump)
    (hrest : endsBlock (.operation i) = false → K rest rest')
    (hstack : List.Forall₂ (Value.Rel E) stack stack') :
    StepRel E K (execOperation env i rest stack state) (execOperation env i rest' stack' state) := by
  have htake := List.forall₂_take (instructionInfo i).args hstack
  have hdrop := List.forall₂_drop (instructionInfo i).args hstack
  rw [execOperation, execOperation, htake.length_eq, words_rel htake]
  split_ifs
  · exact .fault _
  · cases hwords : Value.words (stack'.take (instructionInfo i).args) with
    | none => exact .fault _
    | some args =>
      cases hexec : execInstruction env i args state with
      | ok values state' =>
        simp only [hexec]
        refine .inl ⟨hrest ?_, ?_, rfl⟩
        · by_contra hends
          obtain ⟨reason, state'', hhalt⟩ := execInstruction_of_endsBlock
            (Bool.not_eq_false _ ▸ hends) hi env args
          rw [hhalt] at hexec
          cases hexec
        · exact List.rel_append (List.forall₂_same.mpr fun v _ => .refl v) hdrop
      | halt reason state' =>
        simp only [hexec]
        exact .inr (.halt reason _ _ state' hdrop)
      | timeout =>
        simp only [hexec]
        exact .fault _

lemma dup_rel (hrest : K rest rest')
    (n : Fin 16) (hstack : List.Forall₂ (Value.Rel E) stack stack') :
    StepRel E K (execItem env layout items (.operation (.dup n)) rest stack state)
      (execItem env layout items' (.operation (.dup n)) rest' stack' state) := by
  have hn := rel_getElem? hstack n.val
  simp only [execItem]
  generalize stack[n.val]? = v at hn ⊢
  generalize stack'[n.val]? = v' at hn ⊢
  cases hn with
  | none => exact .fault _
  | some hv => exact .inl ⟨hrest, .cons hv hstack, rfl⟩

lemma swap_rel (hrest : K rest rest')
    (n : Fin 16) (hstack : List.Forall₂ (Value.Rel E) stack stack') :
    StepRel E K (execItem env layout items (.operation (.swap n)) rest stack state)
      (execItem env layout items' (.operation (.swap n)) rest' stack' state) := by
  cases hstack with
  | nil => exact .fault _
  | @cons top top' stack stack' htop hstack =>
    have hn := rel_getElem? hstack n.val
    simp only [execItem]
    generalize stack[n.val]? = v at hn ⊢
    generalize stack'[n.val]? = v' at hn ⊢
    cases hn with
    | none => exact .fault _
    | some hv => exact .inl ⟨hrest, .cons hv (rel_set hstack n htop), rfl⟩

lemma execItem_rel (layout : Layout) (hE : ∀ t, E t t) (hjump : SameJumps E K items items')
    {i i' : AssemblyItem} (hi : Rel E i i')
    (hrest : endsBlock i = false → K rest rest')
    (hstack : List.Forall₂ (Value.Rel E) stack stack') :
    StepRel E K (execItem env layout.blind items i rest stack state)
      (execItem env layout.blind items' i' rest' stack' state) := by
  cases hi with
  | pushTag d d' hd hd' h =>
    refine .inl ⟨hrest rfl, .cons ?_ hstack, rfl⟩
    rw [hd, hd']
    exact .tag _ _ h
  | refl =>
    cases i with
    | undefinedItem => exact .fault _
    | tag => exact .inl ⟨hrest rfl, hstack, rfl⟩
    | operation i =>
      cases i with
      | jump =>
        cases hstack with
        | nil => exact .fault _
        | cons hv hstack => exact jumpTo_rel hE hjump hv hstack
      | jumpi =>
        cases hstack with
        | nil => exact .fault _
        | cons hv hstack =>
          cases hstack with
          | nil => exact .fault _
          | @cons w w' _ _ hw hstack =>
            cases hw with
            | tag => exact .fault _
            | refl =>
              cases w with
              | tag => exact .fault _
              | word w =>
                simp only [execItem]
                split_ifs
                · exact .inl ⟨hrest rfl, hstack, rfl⟩
                · exact jumpTo_rel hE hjump hv hstack
      | dup n => exact dup_rel (hrest rfl) n hstack
      | swap n => exact swap_rel (hrest rfl) n hstack
      | pop =>
        cases hstack with
        | nil => exact .fault _
        | cons _ hstack => exact .inl ⟨hrest rfl, hstack, rfl⟩
      | and =>
        cases hstack with
        | nil => exact .fault _
        | cons hv hstack =>
          cases hstack with
          | nil => exact .fault _
          | @cons w w' _ _ hw hstack =>
            have hmask := maskTag_rel hv hw
            simp only [execItem]
            generalize Value.maskTag _ w = masked at hmask ⊢
            generalize Value.maskTag _ w' = masked' at hmask ⊢
            cases hmask with
            | none => exact execOperation_rel env nofun hrest (.cons hv (.cons hw hstack))
            | some hmask => exact .inl ⟨hrest rfl, .cons hmask hstack, rfl⟩
      | push n => exact .fault _
      | pc => exact .fault _
      | gas => exact .fault _
      | _ =>
        refine execOperation_rel env (fun h => ?_) hrest hstack
        cases h
    | _ => exact .inl ⟨hrest rfl, .cons (.refl _) hstack, rfl⟩

end LockStep

end Sof
