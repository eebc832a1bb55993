import Polc.Sof.Execution.LockStep
import Polc.Sof.PeepholeOptimiser.Windows

/-!
# The peephole optimiser keeps the meaning

A pass rewrites windows all over the code at once, a single application only one of them. Both
are rewritings in the sense below, and a rewriting simulates the code it was made of: tags are
kept, and execution can only enter a window at its start.
-/

namespace Sof.PeepholeOptimiser

open AssemblyItem Semantics List Option

/-! ### Rewritings -/

/-- Windows of the code are replaced, any number of them, and what is between them stays. -/
inductive Rewrites : List AssemblyItem → List AssemblyItem → Prop
  | nil : Rewrites [] []
  | keep (i : AssemblyItem) {l l' : List AssemblyItem} (h : Rewrites l l') :
    Rewrites (i :: l) (i :: l')
  | window (w out : List AssemblyItem) (hw : Replaces w out) {l l' : List AssemblyItem}
    (h : Rewrites l l') : Rewrites (w ++ l) (out ++ l')
  | isZero (d : Word) {l l' : List AssemblyItem} (h : Rewrites l l') :
    Rewrites (.operation .iszero :: .operation .iszero :: .pushTag d :: .operation .jumpi :: l)
      (.pushTag d :: .operation .jumpi :: l')
  | jump (d : Word) {l l' : List AssemblyItem} (h : Rewrites l l') :
    Rewrites (.pushTag d :: .operation .jump :: .tag d :: l) (.tag d :: l')
  | jumpi (d : Word) {l l' : List AssemblyItem} (h : Rewrites l l') :
    Rewrites (.pushTag d :: .operation .jumpi :: .tag d :: l)
      (.operation .pop :: .tag d :: l')
  | unreachable (i : AssemblyItem) (hi : i.endsBlock = true) (w : List AssemblyItem)
    (hw : ∀ j ∈ w, j.placedTag = none) {l l' : List AssemblyItem} (h : Rewrites l l') :
    Rewrites (i :: (w ++ l)) (i :: l')

lemma Rewrites.refl : ∀ l : List AssemblyItem, Rewrites l l
  | [] => .nil
  | i :: l => .keep i (refl l)

variable {l w out rest items items' : List AssemblyItem}

lemma Rewrites.append {l' : List AssemblyItem} (h : Rewrites l l') :
    ∀ pre : List AssemblyItem, Rewrites (pre ++ l) (pre ++ l')
  | [] => h
  | i :: pre => .keep i (h.append pre)

/-- What is put out for the first items rewrites them. -/
structure Rewritten (items out rest : List AssemblyItem) : Prop where
  length_lt : rest.length < items.length
  rewrites : ∀ rest', Rewrites rest rest' → Rewrites items (out ++ rest')

lemma rewritten_window2 {f : AssemblyItem → AssemblyItem → Option (List AssemblyItem)}
    (hf : ∀ i j o, f i j = some o → Replaces [i, j] o) (h : window2 f items = some (out, rest)) :
    Rewritten items out rest := by
  rcases items with _ | ⟨a, _ | ⟨b, items⟩⟩
  · cases h
  · cases h
  · obtain ⟨o, ho, hout⟩ := map_eq_some_iff.mp h
    cases hout
    refine ⟨?_, fun rest' hrest => .window [a, b] out (hf a b out ho) hrest⟩
    simp only [length_cons]
    omega

lemma rewritten_window3
    {f : AssemblyItem → AssemblyItem → AssemblyItem → Option (List AssemblyItem)}
    (hf : ∀ i j k o, f i j k = some o → Replaces [i, j, k] o)
    (h : window3 f items = some (out, rest)) : Rewritten items out rest := by
  rcases items with _ | ⟨a, _ | ⟨b, _ | ⟨c, items⟩⟩⟩
  · cases h
  · cases h
  · cases h
  · obtain ⟨o, ho, hout⟩ := map_eq_some_iff.mp h
    cases hout
    refine ⟨?_, fun rest' hrest => .window [a, b, c] out (hf a b c out ho) hrest⟩
    simp only [length_cons]
    omega

lemma rewritten_isZeroIsZeroJumpI (h : window4 isZeroIsZeroJumpI items = some (out, rest)) :
    Rewritten items out rest := by
  rcases items with _ | ⟨a, _ | ⟨b, _ | ⟨c, _ | ⟨d, items⟩⟩⟩⟩
  · cases h
  · cases h
  · cases h
  · cases h
  · obtain ⟨o, ho, hout⟩ := map_eq_some_iff.mp h
    cases hout
    cases c with
    | pushTag t =>
      rw [isZeroIsZeroJumpI] at ho
      split_ifs at ho with hitems
      obtain ⟨rfl, rfl, rfl⟩ := hitems
      cases ho
      refine ⟨?_, fun rest' hrest => .isZero t hrest⟩
      simp only [length_cons]
      omega
    | _ => cases ho

lemma rewritten_jumpToNext (h : window3 jumpToNext items = some (out, rest)) :
    Rewritten items out rest := by
  rcases items with _ | ⟨a, _ | ⟨b, _ | ⟨c, items⟩⟩⟩
  · cases h
  · cases h
  · cases h
  · obtain ⟨o, ho, hout⟩ := map_eq_some_iff.mp h
    cases hout
    refine ⟨?_, fun rest' hrest => ?_⟩
    · simp only [length_cons]
      omega
    · cases a with
      | pushTag d =>
        cases c with
        | tag e =>
          rw [jumpToNext] at ho
          split_ifs at ho with hde hjump hjumpi
          · subst hde hjump
            cases ho
            exact .jump d hrest
          · subst hde hjumpi
            cases ho
            exact .jumpi d hrest
        | _ => cases ho
      | _ => cases ho

lemma rewritten_unreachableCode (h : unreachableCode items = some (out, rest)) :
    Rewritten items out rest := by
  cases items with
  | nil => cases h
  | cons i items =>
    rw [unreachableCode] at h
    split_ifs at h with hi
    cases h
    refine ⟨Nat.lt_succ_of_le (dropWhile_sublist _).length_le, fun rest' hrest => ?_⟩
    rw [← takeWhile_append_dropWhile (p := (·.placedTag.isNone)) (l := items)]
    refine .unreachable i (isStop_eq_endsBlock i ▸ hi.1) _ (fun j hj => ?_) hrest
    exact isNone_iff_eq_none.mp (List.all_eq_true.mp all_takeWhile j hj)

lemma rewritten_of_method {method : Method} (hmethod : method ∈ methods)
    (h : method items = some (out, rest)) : Rewritten items out rest := by
  simp only [methods, mem_cons, not_mem_nil, or_false] at hmethod
  rcases hmethod with rfl | rfl | rfl | rfl | rfl | rfl | rfl | rfl | rfl | rfl | rfl | rfl
  · exact rewritten_window2 (fun _ _ _ => replaces_pushPop) h
  · exact rewritten_window2 (fun _ _ _ => replaces_opPop) h
  · exact rewritten_window2 (fun _ _ _ => replaces_doublePush) h
  · exact rewritten_window2 (fun _ _ _ => replaces_doubleSwap) h
  · exact rewritten_window2 (fun _ _ _ => replaces_commutativeSwap) h
  · exact rewritten_window2 (fun _ _ _ => replaces_swapComparison) h
  · exact rewritten_isZeroIsZeroJumpI h
  · exact rewritten_jumpToNext h
  · exact rewritten_unreachableCode h
  · exact rewritten_window3 (fun _ _ _ _ => replaces_tagConjunctions) h
  · exact rewritten_window3 (fun _ _ _ _ => replaces_truthyAnd) h
  · cases items with
    | nil => cases h
    | cons i items =>
      cases h
      exact ⟨Nat.lt_succ_self _, fun rest' hrest => .keep i hrest⟩

lemma applyMethods_cons (i : AssemblyItem) (items : List AssemblyItem) :
    ∃ method ∈ methods, ∃ out rest, method (i :: items) = some (out, rest) ∧
      applyMethods (i :: items) = some (out, rest) := by
  cases happly : applyMethods (i :: items) with
  | none =>
    have hidentity := findSome?_eq_none_iff.mp happly (window1 identity) (by simp [methods])
    cases hidentity
  | some r =>
    obtain ⟨method, hmem, hr⟩ := exists_of_findSome?_eq_some happly
    exact ⟨method, hmem, r.1, r.2, hr, rfl⟩

lemma rewrites_optimisedItems {n : Nat} (h : items.length ≤ n) :
    Rewrites items (optimisedItems n items) := by
  induction n generalizing items with
  | zero =>
    rw [length_eq_zero_iff.mp (Nat.le_zero.mp h)]
    exact .nil
  | succ n ih =>
    cases items with
    | nil => exact .nil
    | cons i items =>
      obtain ⟨method, hmem, out, rest, hmethod, happly⟩ := applyMethods_cons i items
      rw [optimisedItems, happly]
      have hrewritten := rewritten_of_method hmem hmethod
      exact hrewritten.rewrites _
        (ih (Nat.le_of_lt_succ (Nat.lt_of_lt_of_le hrewritten.length_lt h)))

/-! ### Jumps -/

variable {i : AssemblyItem}

lemma placesTag_eq_false (hi : i.placedTag = none) (t : Nat) : placesTag t i = false := by
  cases i with
  | tag => cases hi
  | _ => rfl

lemma placedTag_of_isPlain (hi : isPlain i) : i.placedTag = none := by
  cases i with
  | tag => cases hi
  | _ => rfl

lemma countP_eq_zero_of_placedTag (hw : ∀ i ∈ w, i.placedTag = none) (t : Nat) :
    w.countP (placesTag t) = 0 := by
  rw [countP_eq_zero]
  intro i hi
  rw [placesTag_eq_false (hw i hi)]
  exact Bool.false_ne_true

lemma dropWhile_append_of_placedTag (hw : ∀ i ∈ w, i.placedTag = none) (t : Nat)
    (l : List AssemblyItem) :
    (w ++ l).dropWhile (!placesTag t ·) = l.dropWhile (!placesTag t ·) := by
  apply dropWhile_append_of_pos
  intro i hi
  rw [placesTag_eq_false (hw i hi)]
  rfl

lemma placedTag_of_all (hw : w.all isPlain) : ∀ i ∈ w, i.placedTag = none :=
  fun i hi => placedTag_of_isPlain (List.all_eq_true.mp hw i hi)

lemma countP_rewrites (h : Rewrites items items') (t : Nat) :
    items.countP (placesTag t) = items'.countP (placesTag t) := by
  induction h with
  | nil => rfl
  | keep i _ ih => rw [countP_cons, countP_cons, ih]
  | window w out hw _ ih =>
    rw [countP_append, countP_append, ih,
      countP_eq_zero_of_placedTag (placedTag_of_all hw.plain),
      countP_eq_zero_of_placedTag (placedTag_of_all hw.plain_out)]
  | isZero d _ ih => simpa [countP_cons, placesTag] using ih
  | jump d _ ih => simpa [countP_cons, placesTag] using ih
  | jumpi d _ ih => simpa [countP_cons, placesTag] using ih
  | unreachable i _ w hw _ ih =>
    rw [countP_cons, countP_cons, countP_append, ih,
      countP_eq_zero_of_placedTag hw, Nat.zero_add]

lemma rewrites_dropWhile_cons {l' : List AssemblyItem} {p : AssemblyItem → Bool}
    (h : Rewrites l l') (ih : Rewrites (l.dropWhile p) (l'.dropWhile p)) (i : AssemblyItem) :
    Rewrites ((i :: l).dropWhile p) ((i :: l').dropWhile p) := by
  rw [dropWhile_cons, dropWhile_cons]
  split_ifs
  · exact ih
  · exact .keep i h

lemma rewrites_dropWhile (h : Rewrites items items') (t : Nat) :
    Rewrites (items.dropWhile (!placesTag t ·)) (items'.dropWhile (!placesTag t ·)) := by
  induction h with
  | nil => exact .nil
  | keep i h ih => exact rewrites_dropWhile_cons h ih i
  | window w out hw _ ih =>
    rw [dropWhile_append_of_placedTag (placedTag_of_all hw.plain),
      dropWhile_append_of_placedTag (placedTag_of_all hw.plain_out)]
    exact ih
  | isZero d _ ih => exact ih
  | jump d h ih => exact rewrites_dropWhile_cons h ih (.tag d)
  | jumpi d h ih => exact rewrites_dropWhile_cons h ih (.tag d)
  | unreachable i hi w hw h ih =>
    rw [dropWhile_cons, dropWhile_cons]
    split_ifs
    · rw [dropWhile_append_of_placedTag hw]
      exact ih
    · exact .unreachable i hi w hw h

lemma codeAt_rewrites (h : Rewrites items items') (t : Nat) :
    Option.Rel (fun k k' => k <:+ items ∧ Rewrites k k') (codeAt items t) (codeAt items' t) := by
  rw [codeAt, codeAt, countP_rewrites h]
  split_ifs
  · exact .some ⟨dropWhile_suffix _, rewrites_dropWhile h t⟩
  · exact .none

variable {d : Word}

lemma codeAt_of_suffix {code : List AssemblyItem} (hl : .tag d :: l <:+ items) {t : Nat}
    (hd : splitForeignPushTag d = (noSub, t)) (h : codeAt items t = some code) :
    code = .tag d :: l := by
  obtain ⟨pre, rfl⟩ := hl
  have hplaces : placesTag t (.tag d) = true := by
    rw [placesTag, hd]
    exact decide_eq_true rfl
  rw [codeAt] at h
  split_ifs at h with hcount
  cases h
  rw [countP_append, countP_cons_of_pos hplaces] at hcount
  have hpre : pre.countP (placesTag t) = 0 := by omega
  rw [dropWhile_append_of_pos, dropWhile_cons_of_neg]
  · rw [hplaces]
    exact Bool.false_ne_true
  · intro i hi
    rw [Bool.not_eq_true']
    exact Bool.eq_false_iff.mpr (countP_eq_zero.mp hpre i hi)

/-! ### The simulation -/

section Simulation

variable {World : Type} {env : Environment World} {layout : Layout}
  {items items' : List AssemblyItem}

/-- In front of code and of its rewriting, tags apart. -/
structure Related (items : List AssemblyItem) (c c' : Config World) : Prop where
  ahead : ∃ k k', skipTags c.code = skipTags k ∧ skipTags c'.code = skipTags k' ∧
    k <:+ items ∧ Rewrites k k'
  stack : c.stack = c'.stack
  state : c.state = c'.state

/-- What one of the two does is what the other one does, or the first one faults. -/
abbrev Simulates (env : Environment World) (layout : Layout) (items items' : List AssemblyItem)
    (c c' : Config World) : Prop :=
  Advances (execStep env layout.symbolic items) (execStep env layout.symbolic items')
    (Related items) Eq (fun o => ∃ f, o = .fault f) (fun c => (skipTags c.code).length) c c'

lemma eq_of_forall₂_rel {stack stack' : List Value}
    (h : List.Forall₂ (Value.Rel Eq) stack stack') : stack = stack' := by
  induction h with
  | nil => rfl
  | cons hv _ ih =>
    rw [ih]
    cases hv with
    | refl => rfl
    | tag t t' h => rw [h]

lemma forall₂_rel_refl (stack : List Value) : List.Forall₂ (Value.Rel Eq) stack stack :=
  List.forall₂_same.mpr fun v _ => .refl v

lemma simulates_of_stepRel {c c' : Config World}
    (h : StepRel Eq (fun k k' => k <:+ items ∧ Rewrites k k')
      (execStep env layout.symbolic items c) (execStep env layout.symbolic items' c')) :
    Simulates env layout items items' c c' := by
  apply Advances.of_liftRel
  generalize execStep env layout.symbolic items c = r at h ⊢
  generalize execStep env layout.symbolic items' c' = r' at h ⊢
  cases h with
  | inl h => exact .inl ⟨⟨_, _, rfl, rfl, h.code.1, h.code.2⟩, eq_of_forall₂_rel h.stack, h.state⟩
  | inr h =>
    refine .inr ?_
    cases h with
    | halt reason stack stack' state h => rw [eq_of_forall₂_rel h]
    | fault f => rfl

lemma sameJumps_of_rewrites (h : Rewrites items items') :
    SameJumps Eq (fun k k' => k <:+ items ∧ Rewrites k k') items items' := by
  rintro t _ rfl
  exact codeAt_rewrites h t

variable {k k' l l' code code' : List AssemblyItem} {stack : List Value} {state : SvmState World}

lemma execStep_of_skipTags {program : List AssemblyItem} (h : skipTags code = i :: l) :
    execStep env layout program ⟨code, stack, state⟩ =
      execItem env layout program i l stack state := by
  rw [execStep, h]

lemma simulates_keep (hitems : Rewrites items items')
    (hrest : i.endsBlock = false → l <:+ items ∧ Rewrites l l') (hcode : skipTags code = i :: l)
    (hcode' : skipTags code' = i :: l') :
    Simulates env layout items items' ⟨code, stack, state⟩ ⟨code', stack, state⟩ := by
  apply simulates_of_stepRel
  rw [execStep_of_skipTags hcode, execStep_of_skipTags hcode']
  exact execItem_rel layout.symbolic (fun _ => rfl) (sameJumps_of_rewrites hitems)
    (.refl i) hrest (forall₂_rel_refl stack)

lemma skipTags_append (hne : w ≠ []) (hw : w.all isPlain) (l : List AssemblyItem) :
    skipTags (w ++ l) = w ++ l := by
  cases w with
  | nil => exact absurd rfl hne
  | cons i w =>
    rw [all_cons, Bool.and_eq_true] at hw
    exact skipTags_of_isPlain hw.1 (w ++ l)

lemma simulates_window (hw : Replaces w out) (hk : w ++ l <:+ items) (h : Rewrites l l')
    (hcode : skipTags code = skipTags (w ++ l)) (hcode' : skipTags code' = skipTags (out ++ l')) :
    Simulates env layout items items' ⟨code, stack, state⟩ ⟨code', stack, state⟩ := by
  rcases hw.same env layout stack state with ⟨f, hf⟩ | ⟨⟨stack', state'⟩, hr, hr'⟩
  · exact .bad _ (ends_straight (List.all_eq_true.mp hw.plain) hcode hf) ⟨f, rfl⟩
  · obtain ⟨code₁, hcode₁, hrun⟩ := runFor_straight (List.all_eq_true.mp hw.plain) hcode hr
    obtain ⟨code₁', hcode₁', hrun'⟩ :=
      runFor_straight (List.all_eq_true.mp hw.plain_out) hcode' hr'
    refine .steps _ _ _ _ (length_pos_iff.mpr hw.ne_nil) hrun hrun' (.inr ?_)
      ⟨⟨l, l', hcode₁, hcode₁', (suffix_append w l).trans hk, h⟩, rfl, rfl⟩
    have hle := length_skipTags_le l
    rw [hcode₁, hcode, skipTags_append hw.ne_nil hw.plain, length_append]
    have hpos := length_pos_iff.mpr hw.ne_nil
    omega

lemma ofBool_ofBool_eq_zero_iff (x : Word) :
    Word.ofBool (decide (Word.ofBool (decide (x = 0)) = 0)) = 0 ↔ x = 0 := by
  by_cases hx : x = 0
  · rw [decide_eq_true hx]
    exact iff_of_true (by decide) hx
  · rw [decide_eq_false hx]
    exact iff_of_false (by decide) hx

lemma simulates_isZero (hitems : Rewrites items items')
    (hk : .operation .iszero :: .operation .iszero :: .pushTag d :: .operation .jumpi :: l <:+ items)
    (h : Rewrites l l')
    (hcode : skipTags code =
      .operation .iszero :: .operation .iszero :: .pushTag d :: .operation .jumpi :: l)
    (hcode' : skipTags code' = .pushTag d :: .operation .jumpi :: l') :
    Simulates env layout items items' ⟨code, stack, state⟩ ⟨code', stack, state⟩ := by
  have hplain : ∀ i ∈ [.operation .iszero, .operation .iszero, .pushTag d], isPlain i = true :=
    List.all_eq_true.mp rfl
  have hplain' : ∀ i ∈ [.pushTag d], isPlain i = true := List.all_eq_true.mp rfl
  cases stack with
  | nil => exact .bad _ (ends_straight hplain hcode rfl) ⟨_, rfl⟩
  | cons v stack =>
    cases v with
    | tag s t => exact .bad _ (ends_straight hplain hcode rfl) ⟨_, rfl⟩
    | word x =>
      obtain ⟨code₁, hcode₁, hrun⟩ : ∃ code₁, skipTags code₁ = .operation .jumpi :: l ∧
          runFor (execStep env layout.symbolic items) 3 ⟨code, .word x :: stack, state⟩ =
            .inl ⟨code₁, .tag (splitForeignPushTag d).1 (splitForeignPushTag d).2 ::
              .word (.ofBool (decide (Word.ofBool (decide (x = 0)) = 0))) :: stack, state⟩ :=
        runFor_straight hplain hcode rfl
      obtain ⟨code₁', hcode₁', hrun'⟩ : ∃ code₁', skipTags code₁' = .operation .jumpi :: l' ∧
          runFor (execStep env layout.symbolic items') 1 ⟨code', .word x :: stack, state⟩ =
            .inl ⟨code₁', .tag (splitForeignPushTag d).1 (splitForeignPushTag d).2 ::
              .word x :: stack, state⟩ :=
        runFor_straight hplain' hcode' rfl
      apply Advances.of_runFor hrun hrun' Nat.one_pos
      apply simulates_of_stepRel
      rw [execStep_of_skipTags hcode₁, execStep_of_skipTags hcode₁']
      simp only [execItem, ofBool_ofBool_eq_zero_iff]
      split_ifs
      · refine .inl ⟨⟨List.IsSuffix.trans ?_ hk, h⟩, forall₂_rel_refl stack, rfl⟩
        exact ⟨[.operation .iszero, .operation .iszero, .pushTag d, .operation .jumpi], rfl⟩
      · exact jumpTo_rel (fun _ => rfl) (sameJumps_of_rewrites hitems) (.refl _)
          (forall₂_rel_refl stack)

/-- Jumping to a tag leads to the code behind it, unless the tag cannot be jumped to. -/
lemma jumpTo_place (hl : .tag d :: l <:+ items) :
    (∃ f, jumpTo layout.symbolic items
      (.tag (splitForeignPushTag d).1 (splitForeignPushTag d).2) stack state =
        .inr (.fault f)) ∨
      jumpTo layout.symbolic items
        (.tag (splitForeignPushTag d).1 (splitForeignPushTag d).2) stack state =
          .inl ⟨.tag d :: l, stack, state⟩ := by
  rw [jumpTo, jumpTag]
  by_cases hsub : (splitForeignPushTag d).1 = noSub
  · rw [if_pos hsub, bind_some]
    cases hcode : codeAt items (splitForeignPushTag d).2 with
    | none => exact .inl ⟨_, rfl⟩
    | some code =>
      rw [codeAt_of_suffix hl (Prod.ext hsub rfl) hcode]
      exact .inr rfl
  · rw [if_neg hsub]
    exact .inl ⟨_, rfl⟩

lemma simulates_jump (hk : .pushTag d :: .operation .jump :: .tag d :: l <:+ items)
    (h : Rewrites l l') (hcode : skipTags code = .pushTag d :: .operation .jump :: .tag d :: l)
    (hcode' : skipTags code' = skipTags (.tag d :: l')) :
    Simulates env layout items items' ⟨code, stack, state⟩ ⟨code', stack, state⟩ := by
  have hl : .tag d :: l <:+ items := .trans ⟨[.pushTag d, .operation .jump], rfl⟩ hk
  have hplain : ∀ i ∈ [.pushTag d], isPlain i = true := List.all_eq_true.mp rfl
  obtain ⟨code₁, hcode₁, hrun⟩ : ∃ code₁, skipTags code₁ = .operation .jump :: .tag d :: l ∧
      runFor (execStep env layout.symbolic items) 1 ⟨code, stack, state⟩ =
        .inl ⟨code₁, .tag (splitForeignPushTag d).1 (splitForeignPushTag d).2 :: stack, state⟩ :=
    runFor_straight hplain hcode rfl
  have hstep : execStep env layout.symbolic items
      ⟨code₁, .tag (splitForeignPushTag d).1 (splitForeignPushTag d).2 :: stack, state⟩ =
        jumpTo layout.symbolic items (.tag (splitForeignPushTag d).1 (splitForeignPushTag d).2)
          stack state := execStep_of_skipTags hcode₁
  rcases jumpTo_place hl with ⟨f, hf⟩ | hjump
  · exact .bad _ (.of_runFor hrun ⟨1, runFor_succ_of_end (hstep.trans hf) 0⟩) ⟨f, rfl⟩
  · have hrun₂ := runFor_succ_of_step (hstep.trans hjump) 0
    refine .steps (1 + 1) 0 _ _ (Nat.succ_pos 1) ((runFor_add hrun 1).trans hrun₂) rfl (.inr ?_)
      ⟨⟨.tag d :: l, .tag d :: l', rfl, hcode', hl, .keep (.tag d) h⟩, rfl, rfl⟩
    have hle := length_skipTags_le l
    simp only [hcode, skipTags_cons, placedTag, isSome_some, if_true, length_cons]
    omega

lemma simulates_jumpi (hk : .pushTag d :: .operation .jumpi :: .tag d :: l <:+ items)
    (h : Rewrites l l') (hcode : skipTags code = .pushTag d :: .operation .jumpi :: .tag d :: l)
    (hcode' : skipTags code' = .operation .pop :: .tag d :: l') :
    Simulates env layout items items' ⟨code, stack, state⟩ ⟨code', stack, state⟩ := by
  have hl : .tag d :: l <:+ items := .trans ⟨[.pushTag d, .operation .jumpi], rfl⟩ hk
  have hplain : ∀ i ∈ [.pushTag d], isPlain i = true := List.all_eq_true.mp rfl
  obtain ⟨code₁, hcode₁, hrun⟩ : ∃ code₁, skipTags code₁ = .operation .jumpi :: .tag d :: l ∧
      runFor (execStep env layout.symbolic items) 1 ⟨code, stack, state⟩ =
        .inl ⟨code₁, .tag (splitForeignPushTag d).1 (splitForeignPushTag d).2 :: stack, state⟩ :=
    runFor_straight hplain hcode rfl
  have hbad : ∀ f, execStep env layout.symbolic items
      ⟨code₁, .tag (splitForeignPushTag d).1 (splitForeignPushTag d).2 :: stack, state⟩ =
        .inr (.fault f) →
      Simulates env layout items items' ⟨code, stack, state⟩ ⟨code', stack, state⟩ :=
    fun f hf => .bad _ (.of_runFor hrun ⟨1, runFor_succ_of_end hf 0⟩) ⟨f, rfl⟩
  rw [execStep_of_skipTags hcode₁] at hbad
  cases stack with
  | nil => exact hbad _ rfl
  | cons v stack =>
    cases v with
    | tag s t => exact hbad _ rfl
    | word x =>
      have hjump : (∃ f, execItem env layout.symbolic items (.operation .jumpi) (.tag d :: l)
          (.tag (splitForeignPushTag d).1 (splitForeignPushTag d).2 :: .word x :: stack) state =
            .inr (.fault f)) ∨
          execItem env layout.symbolic items (.operation .jumpi) (.tag d :: l)
            (.tag (splitForeignPushTag d).1 (splitForeignPushTag d).2 :: .word x :: stack) state =
              .inl ⟨.tag d :: l, stack, state⟩ := by
        simp only [execItem]
        split_ifs
        · exact .inr rfl
        · exact jumpTo_place hl
      rcases hjump with ⟨f, hf⟩ | hjump
      · exact hbad f hf
      · have hrun₂ := runFor_succ_of_step ((execStep_of_skipTags hcode₁).trans hjump) 0
        have hrun' : runFor (execStep env layout.symbolic items') 1 ⟨code', .word x :: stack, state⟩ =
            .inl ⟨.tag d :: l', stack, state⟩ :=
          runFor_succ_of_step (execStep_of_skipTags hcode') 0
        exact .steps (1 + 1) 1 _ _ (Nat.succ_pos 1) ((runFor_add hrun 1).trans hrun₂) hrun'
          (.inl Nat.one_pos)
          ⟨⟨.tag d :: l, .tag d :: l', rfl, rfl, hl, .keep (.tag d) h⟩, rfl, rfl⟩

lemma simulates_of_rewrites (hitems : Rewrites items items') (h : Rewrites k k')
    (hk : k <:+ items) (hcode : skipTags code = skipTags k)
    (hcode' : skipTags code' = skipTags k') :
    Simulates env layout items items' ⟨code, stack, state⟩ ⟨code', stack, state⟩ := by
  induction h with
  | nil =>
    apply simulates_of_stepRel
    rw [execStep, execStep, hcode, hcode']
    exact .inr (.halt .stop stack stack state (forall₂_rel_refl stack))
  | @keep i l l' h ih =>
    have hl : l <:+ items := (suffix_cons i l).trans hk
    rw [skipTags_cons] at hcode hcode'
    split_ifs at hcode hcode' with hi
    · exact ih hl hcode hcode'
    · exact simulates_keep hitems (fun _ => ⟨hl, h⟩) hcode hcode'
  | window w out hw h => exact simulates_window hw hk h hcode hcode'
  | isZero d h => exact simulates_isZero hitems hk h hcode hcode'
  | jump d h => exact simulates_jump hk h hcode hcode'
  | jumpi d h => exact simulates_jumpi hk h hcode hcode'
  | unreachable i hi w hw h =>
    have hplain : i.placedTag.isSome = false := by
      cases i with
      | tag => cases hi
      | _ => rfl
    rw [skipTags_cons, hplain] at hcode hcode'
    refine simulates_keep hitems (fun hends => ?_) hcode hcode'
    rw [hi] at hends
    cases hends

end Simulation

/-! ### The result -/

/-- The runs end alike, unless the first one faults. Both pieces of code are given the same values
for what neither `Push` nor `PushTag` pushes. -/
def SameRuns {World : Type} (items items' : List AssemblyItem) (c c' : Config World) : Prop :=
  ∀ (env : Environment World) (layout layout' : Layout), layout.pushed = layout'.pushed →
    (∀ f, ¬ Ends (execStep env layout.symbolic items) c (.fault f)) →
      ∀ o, Ends (execStep env layout items) c o ↔ Ends (execStep env layout' items') c' o

/-- The items do the same from the start and from every tag. -/
structure KeepsMeaning (items items' : List AssemblyItem) : Prop where
  start : ∀ (World : Type) (stack : List Value) (state : SvmState World),
    SameRuns items items' ⟨items, stack, state⟩ ⟨items', stack, state⟩
  tag : ∀ t code, codeAt items t = some code → ∃ code', codeAt items' t = some code' ∧
    ∀ (World : Type) (stack : List Value) (state : SvmState World),
      SameRuns items items' ⟨code, stack, state⟩ ⟨code', stack, state⟩

lemma symbolic_congr {layout layout' : Layout} (h : layout.pushed = layout'.pushed) :
    layout.symbolic = layout'.symbolic := by
  rw [Layout.symbolic, Layout.symbolic, Layout.blind, Layout.blind, h]

lemma sameRuns_of_rewrites {World : Type} {k k' : List AssemblyItem}
    (hitems : Rewrites items items') (h : Rewrites k k') (hk : k <:+ items) (stack : List Value)
    (state : SvmState World) : SameRuns items items' ⟨k, stack, state⟩ ⟨k', stack, state⟩ := by
  intro env layout layout' hpushed hgood o
  have hsim : ∀ c c' : Config World, Related items c c' →
      Simulates env layout items items' c c' := by
    rintro ⟨code, stack, state⟩ ⟨code', _, _⟩ ⟨⟨k, k', hcode, hcode', hk, h⟩, rfl, rfl⟩
    exact simulates_of_rewrites hitems h hk hcode hcode'
  have hstart : Related items (⟨k, stack, state⟩ : Config World) ⟨k', stack, state⟩ :=
    ⟨⟨k, k', rfl, rfl, hk, h⟩, rfl, rfl⟩
  have hnofault : ∀ o, Ends (execStep env layout.symbolic items) ⟨k, stack, state⟩ o →
      ¬ ∃ f, o = .fault f := by
    rintro o ho ⟨f, rfl⟩
    exact hgood f ho
  have hsymbolic : ∀ o, Ends (execStep env layout.symbolic items) ⟨k, stack, state⟩ o ↔
      Ends (execStep env layout.symbolic items') ⟨k', stack, state⟩ o := by
    intro o
    constructor
    · intro ho
      obtain ⟨_, ho', rfl⟩ := ends_of_advances hsim hstart hnofault ho
      exact ho'
    · intro ho'
      obtain ⟨_, ho, rfl⟩ := ends_of_advances_symm hsim hstart hnofault ho'
      exact ho
  rw [← ends_symbolic_iff hgood, hsymbolic, symbolic_congr hpushed]
  apply ends_symbolic_iff
  intro f hf
  rw [← symbolic_congr hpushed, ← hsymbolic] at hf
  exact hgood f hf

lemma keepsMeaning_of_rewrites (h : Rewrites items items') : KeepsMeaning items items' := by
  refine ⟨fun World => sameRuns_of_rewrites h h (suffix_refl items), fun t code hcode => ?_⟩
  have hrel := codeAt_rewrites h t
  rw [hcode] at hrel
  cases hcode' : codeAt items' t with
  | none =>
    rw [hcode'] at hrel
    cases hrel
  | some code' =>
    rw [hcode'] at hrel
    cases hrel with
    | some hrel => exact ⟨code', rfl, fun World => sameRuns_of_rewrites h hrel.2 hrel.1⟩

lemma SameRuns.trans {World : Type} {items'' : List AssemblyItem} {c c' c'' : Config World}
    (h : SameRuns items items' c c') (h' : SameRuns items' items'' c' c'') :
    SameRuns items items'' c c'' := by
  intro env layout layout' hpushed hgood o
  rw [h env layout layout rfl hgood o]
  refine h' env layout layout' hpushed (fun f hf => ?_) o
  exact hgood f ((h env layout.symbolic layout.symbolic rfl hgood (.fault f)).mpr hf)

lemma KeepsMeaning.trans {items'' : List AssemblyItem} (h : KeepsMeaning items items')
    (h' : KeepsMeaning items' items'') : KeepsMeaning items items'' := by
  refine ⟨fun World stack state => (h.start World stack state).trans (h'.start World stack state),
    fun t code hcode => ?_⟩
  obtain ⟨code', hcode', hrun⟩ := h.tag t code hcode
  obtain ⟨code'', hcode'', hrun'⟩ := h'.tag t code' hcode'
  exact ⟨code'', hcode'', fun World stack state =>
    (hrun World stack state).trans (hrun' World stack state)⟩

/-- One method is applied anywhere in the items, or `optimise` is. -/
inductive Improves : List AssemblyItem → List AssemblyItem → Prop
  | method (method : Method) (hmethod : method ∈ methods) (pre : List AssemblyItem)
    {items out rest : List AssemblyItem} (h : method items = some (out, rest)) :
    Improves (pre ++ items) (pre ++ (out ++ rest))
  | optimise {items items' : List AssemblyItem} (changed : Bool)
    (h : optimise items = some (items', changed)) : Improves items items'

lemma rewrites_of_improves (h : Improves items items') : Rewrites items items' := by
  cases h with
  | method method hmethod pre h =>
    exact ((rewritten_of_method hmethod h).rewrites _ (.refl _)).append pre
  | optimise changed h =>
    rcases optimise_eq_some h with rfl | rfl
    · exact rewrites_optimisedItems (Nat.le_refl items.length)
    · exact .refl _

/-- The peephole optimiser keeps the meaning, for any number and any order of applications. -/
theorem improves_keepsMeaning {items items' : List AssemblyItem}
    (h : Relation.ReflTransGen Improves items items') : KeepsMeaning items items' := by
  induction h with
  | refl => exact keepsMeaning_of_rewrites (.refl items)
  | tail _ h ih => exact ih.trans (keepsMeaning_of_rewrites (rewrites_of_improves h))

/-- Two passes over a conditional jump with a condition that is negated twice. -/
theorem improves_keepsMeaning_twoPasses :
    KeepsMeaning
      [.push 5, .push 5, .operation .pop, .operation .iszero, .operation .iszero, .pushTag 1,
        .operation .jumpi, .operation .stop, .push 0, .tag 1]
      [.push 5, .pushTag 1, .operation .jumpi, .operation .stop, .tag 1] := by
  have hfirst : optimise [.push 5, .push 5, .operation .pop, .operation .iszero,
      .operation .iszero, .pushTag 1, .operation .jumpi, .operation .stop, .push 0, .tag 1] =
        some ([.push 5, .operation (.dup 0), .operation .pop, .pushTag 1, .operation .jumpi,
          .operation .stop, .tag 1], true) := by decide +kernel
  have hsecond : optimise [.push 5, .operation (.dup 0), .operation .pop, .pushTag 1,
      .operation .jumpi, .operation .stop, .tag 1] =
        some ([.push 5, .pushTag 1, .operation .jumpi, .operation .stop, .tag 1], true) := by
    decide +kernel
  exact improves_keepsMeaning (.tail (.single (.optimise true hfirst)) (.optimise true hsecond))

end Sof.PeepholeOptimiser
