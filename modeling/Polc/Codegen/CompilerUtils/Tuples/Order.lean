import Polc.Codegen.CompilerUtils.Tuples.ValueTypes

/-!
# The order of the components of a converted tuple

The code for a tuple replaces its components by the converted ones and keeps what is below the
tuple, whatever the components and their conversions are, exactly if no component changes its size
by more than one slot.
-/

namespace Polynomial

open List Option Bool
open Sof (Word)
open Semantics StackOperation TupleCode CompilerUtils

variable {τ ι World : Type} {T : StackTypes τ}

/-! ### Converted components -/

namespace Conversions

variable (conversions : Conversions T ι World)

/-- The words of a converted component. There are none if its conversion stops. -/
def converted (s : τ) (t : Option τ) (cleanupNeeded : Bool) (w : World) (words : List Word) :
    Option (World × List Word) :=
  match t with
  | none => some (w, [])
  | some t =>
    if T.equal s t && !cleanupNeeded then some (w, words)
    else (conversions.convertType s t cleanupNeeded).bind fun code =>
      run conversions.step code (w, words)

/-- The words of each converted component, converted one after the other. -/
def convertedComponents (cleanupNeeded : Bool) :
    List (Option τ) → List (Option τ) → World → List (List Word) →
      Option (World × List (List Word))
  | some s :: ss, t :: ts, w, c :: cs =>
    (conversions.converted s t cleanupNeeded w c).bind fun σ =>
      (convertedComponents cleanupNeeded ss ts σ.1 cs).map fun σ' => (σ'.1, σ.2 :: σ'.2)
  | none :: ss, _ :: ts, w, _ :: cs =>
    (convertedComponents cleanupNeeded ss ts w cs).map fun σ => (σ.1, [] :: σ.2)
  | _, _, w, _ => some (w, [])

end Conversions

/-- The words of the components as they are on the stack, the last one on top. -/
def onStack (components : List (List Word)) : List Word := components.reverse.flatten

@[simp] lemma onStack_nil : onStack [] = [] := rfl

@[simp] lemma onStack_cons (c : List Word) (cs : List (List Word)) :
    onStack (c :: cs) = onStack cs ++ c := by
  simp [onStack]

/-- The words of components with the sizes that their types have. -/
def HasSizes (T : StackTypes τ) (types : List (Option τ)) (components : List (List Word)) : Prop :=
  List.Forall₂ (fun t c => c.length = componentSize T t) types components

@[simp] lemma tupleSize_cons (t : Option τ) (ts : List (Option τ)) :
    tupleSize T (t :: ts) = componentSize T t + tupleSize T ts := by
  rw [tupleSize, map_cons, sum_cons, tupleSize]

variable {components : List (List Word)}

lemma HasSizes.length_onStack {types : List (Option τ)} (h : HasSizes T types components) :
    (onStack components).length = tupleSize T types := by
  induction h with
  | nil => rfl
  | cons hc _ ih =>
    rw [onStack_cons, length_append, ih, hc, tupleSize_cons, Nat.add_comm]

/-- The code replaces the components on the stack by the converted ones, in order, and leaves
everything below the tuple as it is. It stops only where the conversion of a component does. -/
def KeepsOrder (conversions : Conversions T ι World) (source target : List (Option τ))
    (cleanupNeeded : Bool) : Prop :=
  ∀ code, convertTuple T conversions.convertType source target cleanupNeeded = some code →
    ∀ w components below, HasSizes T source components →
      runItems conversions.step code (w, onStack components ++ below) =
        (conversions.convertedComponents cleanupNeeded source target w components).map fun σ =>
          (σ.1, onStack σ.2 ++ below)

/-- No component changes its size by more than one slot. -/
def SizesChangeByOne (T : StackTypes τ) (source target : List (Option τ)) : Prop :=
  ∀ p ∈ source.zip target, componentSize T p.1 ≤ componentSize T p.2 + 1 ∧
    componentSize T p.2 ≤ componentSize T p.1 + 1

instance (T : StackTypes τ) (source target : List (Option τ)) :
    Decidable (SizesChangeByOne T source target) :=
  inferInstanceAs (Decidable (∀ p ∈ source.zip target, _ ∧ _))

lemma sizesChangeByOne_cons {s t : Option τ} {ss ts : List (Option τ)} :
    SizesChangeByOne T (s :: ss) (t :: ts) ↔
      (componentSize T s ≤ componentSize T t + 1 ∧ componentSize T t ≤ componentSize T s + 1) ∧
        SizesChangeByOne T ss ts := by
  rw [SizesChangeByOne, zip_cons_cons, forall_mem_cons]
  rfl

/-! ### One component -/

variable {c : List Word} {code : TupleCode ι}

section

variable (conversions : Conversions T ι World) {s : τ} {t : Option τ} {cleanupNeeded : Bool}

lemma isConverted_eq_false {t : τ} :
    isConverted T s (some t) cleanupNeeded = false ↔ T.equal s t ∧ cleanupNeeded = false := by
  cases cleanupNeeded <;> simp [isConverted]

lemma runItems_convertCopy {rest : List Word}
    (h : convertCopy T conversions.convertType (rest.length + c.length) s t cleanupNeeded =
      some code) (hc : c.length = T.sizeOnStack s)
    (hconv : isConverted T s t cleanupNeeded) (w : World) (below : List Word) :
    runItems conversions.step code (w, rest ++ (c ++ below)) =
      (conversions.converted s t cleanupNeeded w c).map fun σ =>
        (σ.1, σ.2 ++ (rest ++ (c ++ below))) := by
  cases t with
  | none =>
    obtain rfl := Option.some.inj h
    rfl
  | some t =>
    simp only [convertCopy, Option.bind_eq_bind, Option.bind_eq_some_iff, Option.pure_def,
      Option.some.injEq] at h
    obtain ⟨copy, hcopy, conversion, hconversion, rfl⟩ := h
    have hexec : applyAll copy (rest ++ (c ++ below)) = some (c ++ (rest ++ (c ++ below))) := by
      rw [← hc] at hcopy
      split_ifs at hcopy with hpos
      · exact applyAll_copyToStackTop hcopy below
      · obtain rfl := Option.some.inj hcopy
        rw [eq_nil_of_length_eq_zero (Nat.eq_zero_of_not_pos hpos)]
        rfl
    have hdiff : ¬ (T.equal s t && !cleanupNeeded) = true := by
      rw [isConverted] at hconv
      revert hconv
      cases T.equal s t <;> cases cleanupNeeded <;> simp
    rw [runItems_append_of_some (runItems_moves_of_some hexec w), runItems_component,
      conversions.run_append hconversion w c _ hc, Conversions.converted, if_neg hdiff,
      hconversion, bind_some]

lemma length_converted {w : World} {σ : World × List Word}
    (h : conversions.converted s t cleanupNeeded w c = some σ) (hc : c.length = T.sizeOnStack s) :
    σ.2.length = componentSize T t := by
  cases t with
  | none =>
    obtain rfl := Option.some.inj h
    rfl
  | some t =>
    rw [Conversions.converted] at h
    split_ifs at h with hequal
    · obtain rfl := Option.some.inj h
      exact hc.trans (T.sizeOnStack_eq s t (and_eq_true_iff.mp hequal).1)
    · obtain ⟨code, hcode, hrun⟩ := bind_eq_some_iff.mp h
      exact conversions.length_run hcode w c σ hc hrun

lemma runItems_convertComponent {rest : List Word}
    (h : convertComponent T conversions.convertType (rest.length + c.length) s t cleanupNeeded =
      some code) (hc : c.length = T.sizeOnStack s) (w : World) (below : List Word)
    (hbelow : T.sizeOnStack s - componentSize T t - 1 + (componentSize T t - T.sizeOnStack s - 1) ≤
      below.length) :
    runItems conversions.step code (w, rest ++ (c ++ below)) =
      (conversions.converted s t cleanupNeeded w c).map fun σ =>
        (σ.1, rest ++ replaced c σ.2 below) := by
  rw [convertComponent] at h
  by_cases hconv : isConverted T s t cleanupNeeded = true
  · simp only [if_pos hconv, Option.bind_eq_bind, Option.bind_eq_some_iff, Option.pure_def,
      Option.some.injEq] at h
    obtain ⟨converted, hconverted, moved, hmoved, rfl⟩ := h
    rw [runItems_append, runItems_convertCopy conversions hconverted hc hconv]
    cases hresult : conversions.converted s t cleanupNeeded w c with
    | none => rfl
    | some σ =>
      have hlen := length_converted conversions hresult hc
      rw [map_some, bind_some, map_some]
      refine runItems_moves_of_some ?_ _
      rw [← hc, ← hlen] at hmoved hbelow
      split_ifs at hmoved with hpos
      · exact applyAll_moveBack hmoved hbelow
      · obtain rfl := Option.some.inj hmoved
        obtain ⟨hzero, hzero'⟩ := not_or.mp hpos
        rw [eq_nil_of_length_eq_zero (Nat.eq_zero_of_not_pos hzero),
          eq_nil_of_length_eq_zero (Nat.eq_zero_of_not_pos hzero')]
        simp [replaced]
  · rw [if_neg hconv] at h
    obtain rfl := Option.some.inj h
    cases t with
    | none => exact absurd rfl hconv
    | some t =>
      obtain ⟨hequal, rfl⟩ := isConverted_eq_false.mp (eq_false_of_not_eq_true hconv)
      rw [Conversions.converted, hequal, if_pos (by rfl), map_some,
        replaced_of_le (Nat.le_succ _) (Nat.le_succ _)]
      rfl

end

variable {cleanupNeeded : Bool} {source target : List (Option τ)}

lemma runItems_convertComponents (conversions : Conversions T ι World)
    (hsizes : SizesChangeByOne T source target) (hcomponents : HasSizes T source components)
    (h : convertComponents T conversions.convertType (onStack components).length cleanupNeeded
      source target = some code) (w : World) (below : List Word) :
    runItems conversions.step code (w, onStack components ++ below) =
      (conversions.convertedComponents cleanupNeeded source target w components).map fun σ =>
        (σ.1, onStack σ.2 ++ below) := by
  induction hcomponents generalizing target code w below with
  | nil =>
    cases target with
    | nil =>
      obtain rfl := Option.some.inj h
      rfl
    | cons t ts => exact absurd h nofun
  | @cons s c ss cs hc hcs ih =>
    cases target with
    | nil => cases s <;> exact absurd h nofun
    | cons t ts =>
      obtain ⟨hsize, htail⟩ := sizesChangeByOne_cons.mp hsizes
      cases s with
      | none =>
        cases t with
        | some t => exact absurd h nofun
        | none =>
          obtain rfl := eq_nil_of_length_eq_zero hc
          rw [onStack_cons, append_nil] at h ⊢
          rw [ih htail h, Conversions.convertedComponents, Option.map_map]
          simp [Function.comp_def]
      | some s =>
        simp only [convertComponents, bind_eq_bind, bind_eq_some_iff,
          Option.pure_def, Option.some.injEq] at h
        obtain ⟨code₁, hcode₁, code₂, hcode₂, rfl⟩ := h
        have hc' : c.length = T.sizeOnStack s := hc
        rw [onStack_cons, length_append] at hcode₁ hcode₂
        rw [← hc', Nat.add_sub_cancel] at hcode₂
        have hstep := runItems_convertComponent conversions hcode₁ hc' w below
          (by change T.sizeOnStack s ≤ _ ∧ _ ≤ T.sizeOnStack s + 1 at hsize; omega)
        rw [onStack_cons, append_assoc, runItems_append, hstep, Conversions.convertedComponents]
        cases hresult : conversions.converted s t cleanupNeeded w c with
        | none => rfl
        | some σ =>
          have hlen := length_converted conversions hresult hc'
          rw [map_some, bind_some, bind_some,
            replaced_of_le (by rw [hlen]; exact hc ▸ hsize.1) (by rw [hlen]; exact hc ▸ hsize.2),
            ih htail hcode₂, Option.map_map]
          simp [Function.comp_def]

/-! ### Tuples that lose their order -/

section

variable {s : τ} {t : Option τ} {cleanupNeeded : Bool} {c c' below : List Word}

lemma length_replaced
    (hbelow : c.length - c'.length - 1 + (c'.length - c.length - 1) ≤ below.length) :
    (replaced c c' below).length = c'.length + below.length := by
  simp only [replaced, length_append, length_take, length_drop]
  omega

lemma mem_of_mem_replaced {x : Word} (h : x ∈ replaced c c' below) :
    x ∈ c ∨ x ∈ c' ∨ x ∈ below := by
  simp only [replaced, mem_append] at h
  rcases h with (((h | h) | h) | h) | h
  · exact .inr (.inl (mem_of_mem_take h))
  · exact .inr (.inr (mem_of_mem_take h))
  · exact .inr (.inl (mem_of_mem_drop h))
  · exact .inl (mem_of_mem_drop (mem_of_mem_take h))
  · exact .inr (.inr (mem_of_mem_drop h))

lemma replaced_ne_of_shrinks {m n : ℕ} (h : n + 1 < m) (below : List Word) {zs : List Word}
    (hzs : ∀ z ∈ zs, z = 0) :
    replaced (List.replicate m 1) (List.replicate n 0) below ≠ List.replicate n 0 ++ zs := by
  intro heq
  rw [replaced_of_ge (by simp; omega), append_cancel_left_eq] at heq
  have hmem : (1 : Word) ∈ zs := by
    rw [← heq]
    simp
    omega
  exact absurd (hzs 1 hmem) (by decide)

lemma replaced_ne_of_grows {m n : ℕ} (h : m + 1 < n) (hbelow : ∀ z ∈ below, z = 0)
    (hlen : n ≤ below.length) (zs : List Word) (a : Word) :
    replaced (List.replicate m a) (List.replicate n 1) below ≠ List.replicate n 1 ++ zs := by
  intro heq
  obtain ⟨b, below, rfl⟩ := exists_cons_of_length_pos (by omega : 0 < below.length)
  obtain ⟨k, hk⟩ : ∃ k, n - m - 1 = k + 1 := ⟨n - m - 2, by omega⟩
  obtain ⟨j, hj⟩ : ∃ j, n = m + (j + 1) := ⟨n - m - 1, by omega⟩
  have hzero : b = 0 := hbelow b (mem_cons_self ..)
  rw [replaced_of_lt (by simp; omega), length_replicate, length_replicate, hk,
    take_succ_cons, hj, replicate_add, append_assoc (List.replicate m 1)] at heq
  simp [replicate_succ, hzero] at heq

end

/-- Conversions of any sizes, whose results are words from the world. -/
def Conversions.outputs (T : StackTypes τ) : Conversions T (ℕ × ℕ) (List Word) where
  convertType s t _ := some [(T.sizeOnStack s, T.sizeOnStack t)]
  step i σ := some (σ.1.tail, List.replicate i.2 (σ.1.headD 0) ++ σ.2.drop i.1)
  run_append := by
    rintro s t - _ ⟨⟩ w words below hwords
    simp [TupleCode.run, hwords]
  length_run := by
    rintro s t - _ ⟨⟩ w words σ hwords hrun
    obtain rfl := Option.some.inj hrun
    simp [hwords]

section

variable {s : τ} {t : Option τ}

lemma converted_outputs (hsize : T.sizeOnStack s ≠ componentSize T t) (cleanupNeeded : Bool)
    (w : List Word) (hc : c.length = T.sizeOnStack s) :
    ∃ w', (Conversions.outputs T).converted s t cleanupNeeded w c =
      some (w', List.replicate (componentSize T t) (w.headD 0)) := by
  cases t with
  | none => exact ⟨w, rfl⟩
  | some t =>
    refine ⟨w.tail, ?_⟩
    have hdiff : ¬ (T.equal s t && !cleanupNeeded) = true := fun h =>
      hsize (T.sizeOnStack_eq s t (and_eq_true_iff.mp h).1)
    rw [Conversions.converted, if_neg hdiff]
    simp [Conversions.outputs, TupleCode.run, hc, componentSize]

lemma exists_converted_outputs (s : τ) (t : Option τ) (cleanupNeeded : Bool) (w : List Word) :
    ∃ w₀, (Conversions.outputs T).converted s t cleanupNeeded w₀
      (List.replicate (T.sizeOnStack s) 0) =
        some (w, List.replicate (componentSize T t) 0) := by
  cases t with
  | none => exact ⟨w, rfl⟩
  | some t =>
    by_cases hequal : (T.equal s t && !cleanupNeeded) = true
    · refine ⟨w, ?_⟩
      rw [Conversions.converted, if_pos hequal,
        T.sizeOnStack_eq s t (and_eq_true_iff.mp hequal).1]
      rfl
    · refine ⟨0 :: w, ?_⟩
      rw [Conversions.converted, if_neg hequal]
      simp [Conversions.outputs, TupleCode.run, componentSize]

end

lemma exists_hasSizes (types : List (Option τ)) : ∃ components, HasSizes T types components := by
  refine ⟨types.map fun t => List.replicate (componentSize T t) 0, ?_⟩
  rw [HasSizes, List.forall₂_map_right_iff, List.forall₂_same]
  exact fun t _ => length_replicate

lemma exists_convertedComponents_outputs (cleanupNeeded : Bool) (source target : List (Option τ))
    (w : List Word) (h : HasSizes T source components) :
    ∃ σ, (Conversions.outputs T).convertedComponents cleanupNeeded source target w components =
      some σ := by
  induction h generalizing target w with
  | nil => exact ⟨_, rfl⟩
  | @cons s c ss cs hc hcs ih =>
    cases target with
    | nil => cases s <;> exact ⟨_, rfl⟩
    | cons t ts =>
      cases s with
      | none =>
        obtain ⟨σ, hσ⟩ := ih ts w
        exact ⟨_, by rw [Conversions.convertedComponents, hσ, map_some]⟩
      | some s =>
        obtain ⟨σ, hσ⟩ : ∃ σ, (Conversions.outputs T).converted s t cleanupNeeded w c = some σ := by
          cases t with
          | none => exact ⟨_, rfl⟩
          | some t =>
            rw [Conversions.converted]
            split_ifs
            · exact ⟨_, rfl⟩
            · exact ⟨_, rfl⟩
        obtain ⟨σ', hσ'⟩ := ih ts σ.1
        exact ⟨_, by rw [Conversions.convertedComponents, hσ, bind_some, hσ',
          map_some]⟩

/-- Started on these components, the code leaves something else than the converted components
above zeros. -/
def Disorders (T : StackTypes τ) (code : TupleCode (ℕ × ℕ)) (source target : List (Option τ))
    (cleanupNeeded : Bool) (w : List Word) (components : List (List Word)) : Prop :=
  ∀ below, (∀ z ∈ below, z = 0) → tupleSize T source + tupleSize T target ≤ below.length →
    ∃ w' stack σ,
      runItems (Conversions.outputs T).step code (w, onStack components ++ below) = some (w', stack) ∧
      (Conversions.outputs T).convertedComponents cleanupNeeded source target w components =
        some σ ∧
      ∀ zs, (∀ z ∈ zs, z = 0) → stack ≠ onStack σ.2 ++ zs

section

variable {s : τ} {t : Option τ} {ss ts : List (Option τ)} {cleanupNeeded : Bool}
  {code₁ code₂ : TupleCode (ℕ × ℕ)}

lemma disorders_of_head (hcomponents : HasSizes T ss components)
    (hcode₁ : convertComponent T (Conversions.outputs T).convertType
      ((onStack components).length + T.sizeOnStack s) s t cleanupNeeded = some code₁)
    (hcode₂ : convertComponents T (Conversions.outputs T).convertType (onStack components).length
      cleanupNeeded ss ts = some code₂)
    (hsize : ¬ (T.sizeOnStack s ≤ componentSize T t + 1 ∧ componentSize T t ≤ T.sizeOnStack s + 1))
    (htail : SizesChangeByOne T ss ts) :
    ∃ a b : Word, Disorders T (code₁ ++ code₂) (some s :: ss) (t :: ts) cleanupNeeded [b]
      (List.replicate (T.sizeOnStack s) a :: components) := by
  obtain ⟨a, b, hne⟩ : ∃ a b : Word, ∀ below : List Word, (∀ z ∈ below, z = 0) →
      componentSize T t ≤ below.length → ∀ zs : List Word, (∀ z ∈ zs, z = 0) →
        replaced (List.replicate (T.sizeOnStack s) a) (List.replicate (componentSize T t) b) below ≠
          List.replicate (componentSize T t) b ++ zs := by
    rcases Nat.lt_or_ge (componentSize T t + 1) (T.sizeOnStack s) with hlt | hge
    · exact ⟨1, 0, fun below _ _ zs hzs => replaced_ne_of_shrinks hlt below hzs⟩
    · have hlt : T.sizeOnStack s + 1 < componentSize T t :=
        Nat.lt_of_not_le fun hle => hsize ⟨hge, hle⟩
      exact ⟨0, 1, fun below hbelow hlen zs _ => replaced_ne_of_grows hlt hbelow hlen zs 0⟩
  refine ⟨a, b, fun below hbelow hlen => ?_⟩
  have hc : (List.replicate (T.sizeOnStack s) a).length = T.sizeOnStack s := length_replicate
  obtain ⟨w', hconverted⟩ := converted_outputs
    (fun heq => hsize (by omega) : T.sizeOnStack s ≠ componentSize T t) cleanupNeeded [b] hc
  obtain ⟨σ, hσ⟩ := exists_convertedComponents_outputs cleanupNeeded ss ts w' hcomponents
  rw [tupleSize_cons, tupleSize_cons] at hlen
  change T.sizeOnStack s + _ + _ ≤ _ at hlen
  rw [← hc] at hcode₁
  have hstep := runItems_convertComponent _ hcode₁ hc [b] below (by omega)
  have hrest := runItems_convertComponents _ htail hcomponents hcode₂ w'
    (replaced (List.replicate (T.sizeOnStack s) a) (List.replicate (componentSize T t) b) below)
  rw [hconverted, map_some] at hstep
  rw [hσ, map_some] at hrest
  have hexec := (runItems_append_of_some hstep code₂).trans hrest
  rw [← append_assoc, ← onStack_cons] at hexec
  refine ⟨_, _, (σ.1, List.replicate (componentSize T t) b :: σ.2), hexec, ?_, ?_⟩
  · rw [Conversions.convertedComponents, hconverted, bind_some, hσ, map_some]
    rfl
  · intro zs hzs heq
    rw [onStack_cons, append_assoc, append_cancel_left_eq] at heq
    exact hne below hbelow (by omega) zs hzs heq

lemma disorders_of_tail {w : List Word}
    (hcode₁ : convertComponent T (Conversions.outputs T).convertType
      ((onStack components).length + T.sizeOnStack s) s t cleanupNeeded = some code₁)
    (htail : Disorders T code₂ ss ts cleanupNeeded w components) :
    ∃ w₀, Disorders T (code₁ ++ code₂) (some s :: ss) (t :: ts) cleanupNeeded w₀
      (List.replicate (T.sizeOnStack s) 0 :: components) := by
  obtain ⟨w₀, hconverted⟩ := exists_converted_outputs s t cleanupNeeded w
  refine ⟨w₀, fun below hbelow hlen => ?_⟩
  have hc : (List.replicate (T.sizeOnStack s) (0 : Word)).length = T.sizeOnStack s :=
    length_replicate
  rw [tupleSize_cons, tupleSize_cons] at hlen
  change T.sizeOnStack s + _ + _ ≤ _ at hlen
  rw [← hc] at hcode₁
  have hstep := runItems_convertComponent _ hcode₁ hc w₀ below (by omega)
  rw [hconverted, map_some] at hstep
  have hzeros : ∀ z ∈ replaced (List.replicate (T.sizeOnStack s) 0)
      (List.replicate (componentSize T t) 0) below, z = 0 := by
    intro z hz
    rcases mem_of_mem_replaced hz with hz | hz | hz
    · exact eq_of_mem_replicate hz
    · exact eq_of_mem_replicate hz
    · exact hbelow z hz
  obtain ⟨w', stack, σ, hexec, hσ, hne⟩ := htail _ hzeros (by
    rw [length_replaced (by simp only [length_replicate]; omega)]
    omega)
  refine ⟨w', stack, (σ.1, List.replicate (componentSize T t) 0 :: σ.2), ?_, ?_, ?_⟩
  · rw [onStack_cons, append_assoc, runItems_append_of_some hstep]
    exact hexec
  · rw [Conversions.convertedComponents, hconverted, bind_some, hσ, map_some]
  · intro zs hzs
    rw [onStack_cons, append_assoc]
    refine hne _ fun z hz => ?_
    rcases List.mem_append.mp hz with hz | hz
    · exact eq_of_mem_replicate hz
    · exact hzs z hz

end

/-- Where a component changes its size by more than one slot, some components are disordered. -/
lemma exists_disorders {code : TupleCode (ℕ × ℕ)}
    (h : convertComponents T (Conversions.outputs T).convertType (tupleSize T source) cleanupNeeded
      source target = some code) (hsizes : ¬ SizesChangeByOne T source target) :
    ∃ w components, HasSizes T source components ∧
      Disorders T code source target cleanupNeeded w components := by
  induction source generalizing target code with
  | nil => exact absurd nofun hsizes
  | cons s ss ih =>
    cases target with
    | nil => cases s <;> exact absurd h nofun
    | cons t ts =>
      rw [sizesChangeByOne_cons] at hsizes
      rw [tupleSize_cons] at h
      cases s with
      | none =>
        cases t with
        | some t => exact absurd h nofun
        | none =>
          rw [componentSize, elim_none, Nat.zero_add] at h
          obtain ⟨w, components, hcomponents, hdisorders⟩ :=
            ih h fun htail => hsizes ⟨⟨Nat.le_succ _, Nat.le_succ _⟩, htail⟩
          refine ⟨w, [] :: components, .cons rfl hcomponents, fun below hbelow hlen => ?_⟩
          obtain ⟨w', stack, σ, hexec, hσ, hne⟩ := hdisorders below hbelow (by
            rw [tupleSize_cons, tupleSize_cons] at hlen
            omega)
          refine ⟨w', stack, (σ.1, [] :: σ.2), ?_, ?_, ?_⟩
          · rwa [onStack_cons, append_nil]
          · rw [Conversions.convertedComponents, hσ, map_some]
          · rwa [onStack_cons, append_nil]
      | some s =>
        simp only [convertComponents, bind_eq_bind, bind_eq_some_iff,
          Option.pure_def, Option.some.injEq] at h
        obtain ⟨code₁, hcode₁, code₂, hcode₂, rfl⟩ := h
        change convertComponent _ _ (T.sizeOnStack s + _) _ _ _ = _ at hcode₁
        change convertComponents _ _ (T.sizeOnStack s + _ - _) _ _ _ = _ at hcode₂
        rw [Nat.add_sub_cancel_left] at hcode₂
        rw [Nat.add_comm] at hcode₁
        by_cases htail : SizesChangeByOne T ss ts
        · obtain ⟨components, hcomponents⟩ := exists_hasSizes (T := T) ss
          rw [← hcomponents.length_onStack] at hcode₁ hcode₂
          obtain ⟨a, b, hdisorders⟩ := disorders_of_head hcomponents hcode₁ hcode₂
            (fun hsize => hsizes ⟨hsize, htail⟩) htail
          exact ⟨_, _, .cons length_replicate hcomponents, hdisorders⟩
        · obtain ⟨w, components, hcomponents, hdisorders⟩ := ih hcode₂ htail
          rw [← hcomponents.length_onStack] at hcode₁
          obtain ⟨w₀, hdisorders⟩ := disorders_of_tail hcode₁ hdisorders
          exact ⟨_, _, .cons length_replicate hcomponents, hdisorders⟩

/-! ### When the order is kept -/

section

variable {κ : Type} {f : τ → τ → Bool → Option (List ι)} {g : τ → τ → Bool → Option (List κ)}

lemma exists_convertComponent (hg : ∀ s t cleanupNeeded, (g s t cleanupNeeded).isSome) {depth : ℕ}
    {s : τ} {t : Option τ} (h : convertComponent T f depth s t cleanupNeeded = some code) :
    ∃ code', convertComponent T g depth s t cleanupNeeded = some code' := by
  rw [convertComponent] at h
  by_cases hconv : isConverted T s t cleanupNeeded = true
  · simp only [if_pos hconv, bind_eq_bind, bind_eq_some_iff] at h
    obtain ⟨converted, hconverted, moved, hmoved, -⟩ := h
    obtain ⟨converted', hconverted'⟩ :
        ∃ converted', convertCopy T g depth s t cleanupNeeded = some converted' := by
      cases t with
      | none => exact ⟨_, rfl⟩
      | some t =>
        simp only [convertCopy, bind_eq_bind, bind_eq_some_iff] at hconverted
        obtain ⟨copy, hcopy, -⟩ := hconverted
        obtain ⟨code', hcode'⟩ := isSome_iff_exists.mp (hg s t cleanupNeeded)
        exact ⟨_, by rw [convertCopy, hcopy, hcode']; rfl⟩
    exact ⟨_, by rw [convertComponent, if_pos hconv, hconverted', hmoved]; rfl⟩
  · exact ⟨[], by rw [convertComponent, if_neg hconv]⟩

/-- Which conversions the components have decides about the code only, not whether there is some,
as long as all of them have one. -/
lemma exists_convertComponents (hg : ∀ s t cleanupNeeded, (g s t cleanupNeeded).isSome)
    {depth : ℕ} (h : convertComponents T f depth cleanupNeeded source target = some code) :
    ∃ code', convertComponents T g depth cleanupNeeded source target = some code' := by
  induction source generalizing target depth code with
  | nil =>
    cases target with
    | nil => exact ⟨[], rfl⟩
    | cons t ts => exact absurd h nofun
  | cons s ss ih =>
    cases target with
    | nil => cases s <;> exact absurd h nofun
    | cons t ts =>
      cases s with
      | none =>
        cases t with
        | none => exact ih h
        | some t => exact absurd h nofun
      | some s =>
        simp only [convertComponents, bind_eq_bind, bind_eq_some_iff] at h
        obtain ⟨code₁, hcode₁, code₂, hcode₂, -⟩ := h
        obtain ⟨code₁', hcode₁'⟩ := exists_convertComponent hg hcode₁
        obtain ⟨code₂', hcode₂'⟩ := ih hcode₂
        exact ⟨_, by rw [convertComponents, hcode₁', hcode₂']; rfl⟩

end

/-- The tuples have as many components as each other, and the stack is not too deep for the code
that converts one to the other. -/
def HasConversion (T : StackTypes τ) (source target : List (Option τ)) (cleanupNeeded : Bool) :
    Prop :=
  (convertTuple T (fun _ _ _ => some ([] : List Empty)) source target cleanupNeeded).isSome

instance (T : StackTypes τ) (source target : List (Option τ)) (cleanupNeeded : Bool) :
    Decidable (HasConversion T source target cleanupNeeded) :=
  inferInstanceAs (Decidable (_ = true))

theorem keepsOrder_iff_sizesChangeByOne {source target : List (Option τ)} {cleanupNeeded : Bool}
    (hconversion : HasConversion T source target cleanupNeeded) :
    (∀ (ι World : Type) (conversions : Conversions T ι World),
      KeepsOrder conversions source target cleanupNeeded) ↔ SizesChangeByOne T source target := by
  constructor
  · intro h
    obtain ⟨_, hcode⟩ := isSome_iff_exists.mp hconversion
    obtain ⟨code, hcode⟩ := exists_convertComponents
      (g := (Conversions.outputs T).convertType) (fun _ _ _ => rfl) hcode
    by_contra hsizes
    obtain ⟨w, components, hcomponents, hdisorders⟩ := exists_disorders hcode hsizes
    let below : List Word := List.replicate (tupleSize T source + tupleSize T target) 0
    have hbelow : ∀ z ∈ below, z = 0 := fun z hz => eq_of_mem_replicate hz
    obtain ⟨w', stack, σ, hexec, hσ, hne⟩ :=
      hdisorders below hbelow (length_replicate (n := _)).ge
    have hkeeps := h _ _ (Conversions.outputs T) code hcode w components below hcomponents
    rw [hexec, hσ, map_some, Option.some.injEq, Prod.mk.injEq] at hkeeps
    exact hne below hbelow hkeeps.2
  · intro hsizes ι World conversions code hcode w components below hcomponents
    rw [convertTuple, ← hcomponents.length_onStack] at hcode
    exact runItems_convertComponents conversions hsizes hcomponents hcode w below

/-- A function that is called with a message. -/
def externalFunction : ValueType := .function ⟨true, 0, .nonPayable⟩

/-- A narrow integer and a function that is assigned to an address. -/
theorem keepsOrder_iff_sizesChangeByOne_address :
    (∀ (ι World : Type) (conversions : Conversions ValueType.stackTypes ι World),
      KeepsOrder conversions
        [some (.integer ⟨8, false, by decide⟩), some externalFunction, none]
        [some (.integer ⟨256, false, by decide⟩), some (.address false), none] true) ↔
      SizesChangeByOne ValueType.stackTypes
        [some (.integer ⟨8, false, by decide⟩), some externalFunction, none]
        [some (.integer ⟨256, false, by decide⟩), some (.address false), none] :=
  keepsOrder_iff_sizesChangeByOne (by decide)

/-- A function that is not assigned stays on the stack in part, and the word below the tuple is
lost. -/
theorem convertTuple_dropsWordBelow :
    ¬ KeepsOrder (ValueType.conversions true)
      [some externalFunction, some .bool] [none, some .bool] false := by
  intro h
  have hkeeps := h _ rfl () [[2, 1], [3]] [4, 5] (.cons rfl (.cons rfl .nil))
  exact absurd hkeeps (by decide)

end Polynomial
