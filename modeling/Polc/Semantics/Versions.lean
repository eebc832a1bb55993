import Mathlib.Data.Set.Lattice

/-!
# Versions of variables

Static single assignment without the values: every known variable has a current version and a first
one that is still free. `Writes` says which variables an update leaves with another version; there
is one rule for each way to combine updates.
-/

namespace Semantics

open Function

universe u

/-- The versions of the variables that are known. -/
structure Versions (V : Type u) where
  known : V → Bool
  index : V → ℕ
  nextFree : V → ℕ

/-- A change of versions; without a result where it is not possible. -/
abbrev Update (V : Type u) := Versions V → Option (Versions V)

namespace Versions

variable {V : Type u}

/-- Versions that are in use are not free. -/
def Fresh (σ : Versions V) : Prop := ∀ v, σ.known v = true → σ.index v < σ.nextFree v

/-- The versions of before, for the variables that were known then. -/
def restore (before σ : Versions V) : Versions V :=
  { σ with index := fun v => if before.known v then before.index v else σ.index v }

/-- New versions for the known variables of a kind. -/
def reset (kind : V → Bool) (σ : Versions V) : Versions V where
  known := σ.known
  index v := if σ.known v && kind v then σ.nextFree v else σ.index v
  nextFree v := if σ.known v && kind v then σ.nextFree v + 1 else σ.nextFree v

/-- A variable that becomes known, with its first version. -/
def create [DecidableEq V] (v : V) (σ : Versions V) : Versions V where
  known := Function.update σ.known v true
  index := Function.update σ.index v 0
  nextFree := Function.update σ.nextFree v 1

/-- The known variables with other versions afterwards are those of `S`. -/
structure Changes (S : Set V) (σ σ' : Versions V) : Prop where
  known : ∀ v, σ.known v = true → σ'.known v = true
  nextFree : ∀ v, σ.known v = true → σ.nextFree v ≤ σ'.nextFree v
  same : ∀ v, σ.known v = true → v ∉ S → σ'.index v = σ.index v
  changed : ∀ v, σ.known v = true → v ∈ S → σ.nextFree v ≤ σ'.index v
  fresh : σ.Fresh → σ'.Fresh

namespace Changes

variable {S S' : Set V} {σ σ' σ'' : Versions V}

lemma refl (σ : Versions V) : Changes ∅ σ σ :=
  ⟨fun _ h => h, fun _ _ => le_rfl, fun _ _ _ => rfl, nofun, fun h => h⟩

lemma trans (h : Changes S σ σ') (h' : Changes S' σ' σ'') : Changes (S ∪ S') σ σ'' where
  known v hv := h'.known v (h.known v hv)
  nextFree v hv := (h.nextFree v hv).trans (h'.nextFree v (h.known v hv))
  same v hv hmem := by
    rw [Set.mem_union, not_or] at hmem
    rw [h'.same v (h.known v hv) hmem.2, h.same v hv hmem.1]
  changed v hv hmem := by
    by_cases hlast : v ∈ S'
    · exact (h.nextFree v hv).trans (h'.changed v (h.known v hv) hlast)
    · rw [h'.same v (h.known v hv) hlast]
      exact h.changed v hv (hmem.resolve_right hlast)
  fresh hσ := h'.fresh (h.fresh hσ)

lemma mem_iff (h : Changes S σ σ') (hσ : σ.Fresh) {v : V} (hv : σ.known v) :
    v ∈ S ↔ σ'.index v ≠ σ.index v := by
  constructor
  · intro hmem
    exact ((hσ v hv).trans_le (h.changed v hv hmem)).ne'
  · intro hne
    by_contra hmem
    exact hne (h.same v hv hmem)

lemma congr (h : Changes S σ σ') (hS : ∀ v, σ.known v → (v ∈ S ↔ v ∈ S')) :
    Changes S' σ σ' where
  known := h.known
  nextFree := h.nextFree
  same v hv hmem := h.same v hv (hmem ∘ (hS v hv).mp)
  changed v hv hmem := h.changed v hv ((hS v hv).mpr hmem)
  fresh := h.fresh

lemma restore (h : Changes S σ σ') : Changes ∅ σ (restore σ σ') where
  known := h.known
  nextFree := h.nextFree
  same v hv _ := if_pos hv
  changed := nofun
  fresh hσ v hv := by
    unfold Versions.restore
    dsimp only
    split
    · rename_i hknown
      exact (hσ v hknown).trans_le (h.nextFree v hknown)
    · exact h.fresh hσ v hv

lemma reset (kind : V → Bool) (σ : Versions V) :
    Changes {v | kind v = true} σ (reset kind σ) where
  known v hv := hv
  nextFree v hv := by
    unfold Versions.reset
    dsimp only
    split
    · exact Nat.le_succ _
    · exact le_rfl
  same v hv hmem := by
    have hkind : ¬(σ.known v && kind v) = true := by simpa [hv] using hmem
    exact if_neg hkind
  changed v hv hmem := by
    have hkind : (σ.known v && kind v) = true := by simpa [hv] using hmem
    exact (if_pos hkind).ge
  fresh hσ v hv := by
    unfold Versions.reset
    dsimp only
    split
    · exact Nat.lt_succ_self _
    · exact hσ v hv

lemma create [DecidableEq V] {v : V} {σ : Versions V} (hv : σ.known v = false) :
    Changes ∅ σ (create v σ) := by
  have hne {w : V} (hw : σ.known w = true) : w ≠ v := by
    rintro rfl
    rw [hv] at hw
    cases hw
  refine ⟨fun w hw => ?_, fun w hw => ?_, fun w hw _ => ?_, nofun, fun hσ w hw => ?_⟩
  · exact (update_of_ne (hne hw) _ _).trans hw
  · exact (update_of_ne (hne hw) _ _).ge
  · exact update_of_ne (hne hw) _ _
  · simp only [Versions.create] at hw ⊢
    by_cases heq : w = v
    · subst heq
      simp
    · rw [update_of_ne heq] at hw ⊢
      rw [update_of_ne heq]
      exact hσ w hw

end Changes

end Versions

namespace Update

variable {V : Type u}

open Versions

def skip : Update V := some

def fail : Update V := fun _ => none

def andThen (f g : Update V) : Update V := fun σ => (f σ).bind g

def reset (kind : V → Bool) : Update V := fun σ => some (σ.reset kind)

variable [DecidableEq V]

/-- A new version of a variable that is known. -/
def newValue (v : V) : Update V := fun σ =>
  if σ.known v then some (σ.reset (· = v)) else none

/-- As `newValue`, but nothing happens to a variable that is not known. -/
def newValueIfKnown (v : V) : Update V := fun σ =>
  if σ.known v then newValue v σ else some σ

def newValues : List V → Update V
  | [] => skip
  | v :: vs => andThen (newValue v) (newValues vs)

def newValuesIfKnown : List V → Update V
  | [] => skip
  | v :: vs => andThen (newValueIfKnown v) (newValuesIfKnown vs)

/-- A new version of a variable, which becomes known if it is not; then it only gets the version
if it is of a supported kind. -/
def initializeVariable (isSupported : V → Bool) (v : V) : Update V := fun σ =>
  if σ.known v then newValue v σ
  else if isSupported v then newValue v (σ.create v)
  else some (σ.create v)

def initializeVariables (isSupported : V → Bool) : List V → Update V
  | [] => skip
  | v :: vs => andThen (initializeVariable isSupported v) (initializeVariables isSupported vs)

/-- New versions for variables that have different ones at the ends of two branches. -/
def merge (vs : List V) (endTrue endFalse : Versions V) : Update V := fun σ =>
  if ∀ v ∈ vs, endTrue.known v ∧ endFalse.known v ∧ endTrue.index v ≠ endFalse.index v then
    newValues vs σ
  else none

/-! ### Branches and loops -/

/-- Both branches start from the versions after the condition; then `vs` are merged. -/
def branches (condition trueBranch falseBranch : Update V) (vs : List V) : Update V := fun σ =>
  (condition σ).bind fun σ₁ => (trueBranch σ₁).bind fun endTrue =>
    (falseBranch (restore σ₁ endTrue)).bind fun endFalse =>
      merge vs endTrue endFalse (restore σ₁ endFalse)

/-- A part that may be skipped. -/
def optional (first second : Update V) (vs : List V) : Update V := fun σ =>
  (first σ).bind fun σ₁ => (second σ₁).bind fun σ₂ =>
    merge vs (restore σ₁ σ₂) σ₂ (restore σ₁ σ₂)

/-- One iteration from unknown values of `vs`, and the condition once more without it. -/
def whileLoop (condition body : Update V) (vs : List V) : Update V := fun σ =>
  (newValues vs σ).bind fun σ₁ => (condition σ₁).bind fun σ₂ => (body σ₂).bind fun endBody =>
    (condition (restore σ (restore σ₂ endBody))).bind fun σ₃ => merge vs endBody σ₃ σ₃

/-- One iteration from unknown values of `vs`; what the condition changes is lost. -/
def doWhileLoop (condition body : Update V) (vs : List V) : Update V := fun σ =>
  (newValues vs σ).bind fun σ₁ => (body σ₁).bind fun endBody =>
    (condition (restore σ₁ endBody)).bind fun σ₂ =>
      merge vs endBody (restore σ σ₂) (restore σ σ₂)

/-- As the loop with the condition first, with a part after the body. -/
def forLoop (condition body next : Update V) (vs : List V) : Update V := fun σ =>
  (newValues vs σ).bind fun σ₁ => (condition σ₁).bind fun σ₂ => (body σ₂).bind fun σ₃ =>
    (next σ₃).bind fun endLoop =>
      (condition (restore σ endLoop)).bind fun σ₄ => merge vs endLoop σ₄ σ₄

omit [DecidableEq V] in
/-- The update gives new versions to the variables of `S`. -/
def Writes (f : Update V) (S : Set V) : Prop := ∀ ⦃σ σ'⦄, f σ = some σ' → Changes S σ σ'

namespace Writes

variable {f g : Update V} {S S' : Set V}

omit [DecidableEq V]

lemma skip : Writes (skip : Update V) ∅ := by
  intro σ σ' h
  cases h
  exact .refl σ

lemma fail : Writes (fail : Update V) S := nofun

lemma andThen (hf : Writes f S) (hg : Writes g S') : Writes (andThen f g) (S ∪ S') := by
  intro σ σ' h
  obtain ⟨σ₁, h₁, h₂⟩ := Option.bind_eq_some_iff.mp h
  exact (hf h₁).trans (hg h₂)

lemma reset (kind : V → Bool) : Writes (reset kind) {v | kind v = true} := by
  intro σ σ' h
  cases h
  exact .reset kind σ

lemma congr (hf : Writes f S) (hS : S = S') : Writes f S' := hS ▸ hf

variable [DecidableEq V]

lemma newValue (v : V) : Writes (newValue v) {v} := by
  intro σ σ' h
  unfold Update.newValue at h
  split at h
  · cases h
    exact (Changes.reset (· = v) σ).congr fun w _ => by simp
  · cases h

lemma newValueIfKnown (v : V) : Writes (newValueIfKnown v) {v} := by
  intro σ σ' h
  unfold Update.newValueIfKnown at h
  split at h
  · exact newValue v h
  · rename_i hunknown
    cases h
    refine (Changes.refl σ).congr fun w hw => ?_
    simp only [Set.mem_empty_iff_false, Set.mem_singleton_iff, false_iff]
    rintro rfl
    exact hunknown hw

lemma newValues (vs : List V) : Writes (newValues vs) {v | v ∈ vs} := by
  induction vs with
  | nil => exact skip.congr (by simp)
  | cons v vs ih =>
    refine ((newValue v).andThen ih).congr ?_
    ext w
    simp

lemma newValuesIfKnown (vs : List V) : Writes (newValuesIfKnown vs) {v | v ∈ vs} := by
  induction vs with
  | nil => exact skip.congr (by simp)
  | cons v vs ih =>
    refine ((newValueIfKnown v).andThen ih).congr ?_
    ext w
    simp

lemma merge (vs : List V) (endTrue endFalse : Versions V) :
    Writes (merge vs endTrue endFalse) {v | v ∈ vs} := by
  intro σ σ' h
  unfold Update.merge at h
  split at h
  · exact newValues vs h
  · cases h

lemma initializeVariable (isSupported : V → Bool) (v : V) :
    Writes (initializeVariable isSupported v) {v} := by
  intro σ σ' h
  unfold Update.initializeVariable at h
  split at h
  · exact newValue v h
  · rename_i hunknown
    have hv : σ.known v = false := Bool.eq_false_of_not_eq_true hunknown
    have hnone (w : V) (hw : σ.known w = true) : w ∈ (∅ : Set V) ∪ {v} ↔ w ∈ ({v} : Set V) := by
      rw [Set.empty_union]
    split at h
    · exact ((Changes.create hv).trans (newValue v h)).congr hnone
    · cases h
      refine (Changes.create hv).congr fun w hw => ?_
      simp only [Set.mem_empty_iff_false, Set.mem_singleton_iff, false_iff]
      rintro rfl
      exact hunknown hw

lemma initializeVariables (isSupported : V → Bool) (vs : List V) :
    Writes (initializeVariables isSupported vs) {v | v ∈ vs} := by
  induction vs with
  | nil => exact skip.congr (by simp)
  | cons v vs ih =>
    refine ((initializeVariable isSupported v).andThen ih).congr ?_
    ext w
    simp

variable {condition body next : Update V} {Sc Sb Sn : Set V} {vs : List V}

lemma branches (hc : Writes condition Sc) (ht : Writes f S) (hf : Writes g S') :
    Writes (branches condition f g vs) (Sc ∪ {v | v ∈ vs}) := by
  intro σ σ' h
  obtain ⟨σ₁, h₁, h⟩ := Option.bind_eq_some_iff.mp h
  obtain ⟨endTrue, h₂, h⟩ := Option.bind_eq_some_iff.mp h
  obtain ⟨endFalse, h₃, h⟩ := Option.bind_eq_some_iff.mp h
  have hend := ((ht h₂).restore.trans (hf h₃)).restore
  simpa using (hc h₁).trans (hend.trans (merge _ _ _ h))

lemma optional (hf : Writes f S) (hg : Writes g S') :
    Writes (optional f g vs) (S ∪ {v | v ∈ vs}) := by
  intro σ σ' h
  obtain ⟨σ₁, h₁, h⟩ := Option.bind_eq_some_iff.mp h
  obtain ⟨σ₂, h₂, h⟩ := Option.bind_eq_some_iff.mp h
  simpa using (hf h₁).trans ((hg h₂).restore.trans (merge _ _ _ h))

lemma whileLoop (hc : Writes condition Sc) (hb : Writes body Sb) :
    Writes (whileLoop condition body vs) (Sc ∪ {v | v ∈ vs}) := by
  intro σ σ' h
  obtain ⟨σ₁, h₁, h⟩ := Option.bind_eq_some_iff.mp h
  obtain ⟨σ₂, h₂, h⟩ := Option.bind_eq_some_iff.mp h
  obtain ⟨endBody, h₃, h⟩ := Option.bind_eq_some_iff.mp h
  obtain ⟨σ₃, h₄, h⟩ := Option.bind_eq_some_iff.mp h
  have hiteration := (((newValues _ h₁).trans (hc h₂)).trans (hb h₃).restore).restore
  simpa using hiteration.trans ((hc h₄).trans (merge _ _ _ h))

lemma doWhileLoop (hc : Writes condition Sc) (hb : Writes body Sb) :
    Writes (doWhileLoop condition body vs) {v | v ∈ vs} := by
  intro σ σ' h
  obtain ⟨σ₁, h₁, h⟩ := Option.bind_eq_some_iff.mp h
  obtain ⟨endBody, h₂, h⟩ := Option.bind_eq_some_iff.mp h
  obtain ⟨σ₂, h₃, h⟩ := Option.bind_eq_some_iff.mp h
  have hiteration := ((newValues _ h₁).trans ((hb h₂).restore.trans (hc h₃))).restore
  simpa using hiteration.trans (merge _ _ _ h)

lemma forLoop (hc : Writes condition Sc) (hb : Writes body Sb) (hn : Writes next Sn) :
    Writes (forLoop condition body next vs) (Sc ∪ {v | v ∈ vs}) := by
  intro σ σ' h
  obtain ⟨σ₁, h₁, h⟩ := Option.bind_eq_some_iff.mp h
  obtain ⟨σ₂, h₂, h⟩ := Option.bind_eq_some_iff.mp h
  obtain ⟨σ₃, h₃, h⟩ := Option.bind_eq_some_iff.mp h
  obtain ⟨endLoop, h₄, h⟩ := Option.bind_eq_some_iff.mp h
  obtain ⟨σ₄, h₅, h⟩ := Option.bind_eq_some_iff.mp h
  have hiteration := ((((newValues _ h₁).trans (hc h₂)).trans (hb h₃)).trans (hn h₄)).restore
  simpa using hiteration.trans ((hc h₅).trans (merge _ _ _ h))

end Writes

section

variable {f g condition : Update V} {S S' : Set V} {vs : List V} {σ σ₁ endTrue endFalse : Versions V}

end

end Update

end Semantics
