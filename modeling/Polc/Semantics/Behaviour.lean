import Mathlib.Data.Set.Lattice

/-!
# Behaviours of code with structured control flow

The runs of a piece of code whose decisions are left open: the steps it takes and the way it is
left. `Respects` says of all runs that they take permitted steps as long as their steps are regular
ones; it is established one construct at a time.
-/

namespace Semantics

universe u

/-- How code is left. -/
inductive Exit where
  | normal
  | break
  | continue
  | return
  | halt
  deriving DecidableEq, Repr

/-- The runs of some code, with the steps that they take. -/
abbrev Behaviour (ε : Type u) := Set (List ε × Exit)

namespace Behaviour

variable {ε : Type u}

/-- Leaves without a step. -/
def leave (x : Exit) : Behaviour ε := {([], x)}

def done : Behaviour ε := leave .normal

def event (s : ε) : Behaviour ε := {([s], .normal)}

/-- One code after another, which only runs if the first one is left normally. -/
def andThen (A B : Behaviour ε) : Behaviour ε :=
  {r | r ∈ A ∧ r.2 ≠ .normal} ∪
    {r | ∃ t u, (t, .normal) ∈ A ∧ (u, r.2) ∈ B ∧ r.1 = t ++ u}

def orElse (A B : Behaviour ε) : Behaviour ε := A ∪ B

/-- The code of some index. -/
def any {ι : Type*} (A : ι → Behaviour ε) : Behaviour ε := ⋃ i, A i

def events : List ε → Behaviour ε
  | [] => done
  | s :: ss => andThen (event s) (events ss)

/-- Continues normally where the code was left in the given way. -/
def resume (x : Exit) (A : Behaviour ε) : Behaviour ε :=
  {r | (r ∈ A ∧ r.2 ≠ x) ∨ (r.2 = .normal ∧ (r.1, x) ∈ A)}

/-- The code any number of times in a row. -/
inductive Repeated (A : Behaviour ε) : List ε × Exit → Prop where
  | done : Repeated A ([], .normal)
  | left {t x} (h : (t, x) ∈ A) (hx : x ≠ .normal) : Repeated A (t, x)
  | next {t u x} (h : (t, .normal) ∈ A) (hrest : Repeated A (u, x)) : Repeated A (t ++ u, x)

def repeated (A : Behaviour ε) : Behaviour ε := {r | Repeated A r}

/-- A loop whose condition comes first; `next` follows on the body. -/
def loop (condition body next : Behaviour ε) : Behaviour ε :=
  resume .break
    (andThen (repeated (andThen condition (andThen (resume .continue body) next))) condition)

/-- A loop whose condition comes last. -/
def doLoop (body condition : Behaviour ε) : Behaviour ε :=
  let iteration := andThen (resume .continue body) condition
  resume .break (andThen iteration (repeated iteration))

section

variable (A : Behaviour ε)

@[simp] lemma mem_leave {x : Exit} {r : List ε × Exit} :
    r ∈ (leave x : Behaviour ε) ↔ r = ([], x) := Iff.rfl

@[simp] lemma mem_event {s : ε} {r : List ε × Exit} : r ∈ event s ↔ r = ([s], .normal) := Iff.rfl

@[simp] lemma done_andThen : andThen done A = A := by
  ext ⟨t, x⟩
  simp [andThen, done]

@[simp] lemma andThen_done : andThen A done = A := by
  ext ⟨t, x⟩
  by_cases hx : x = .normal <;> simp [andThen, done, hx]

@[simp] lemma resume_done (x : Exit) : resume x (done : Behaviour ε) = done := by
  ext ⟨t, y⟩
  cases x <;> cases y <;> simp [resume, done]

lemma mem_resume {x : Exit} {t : List ε} (h : (t, x) ∈ A) : (t, .normal) ∈ resume x A :=
  .inr ⟨rfl, h⟩

lemma mem_andThen {A B : Behaviour ε} {t u : List ε} {x : Exit} (ht : (t, .normal) ∈ A)
    (hu : (u, x) ∈ B) : (t ++ u, x) ∈ andThen A B :=
  .inr ⟨t, u, ht, hu, rfl⟩

end

/-! ### Permitted steps -/

variable (regular permitted : ε → Prop)

/-- All steps up to the first one that is not regular are permitted. -/
def Keeps : List ε → Prop
  | [] => True
  | s :: ss => regular s → permitted s ∧ Keeps ss

def Respects (A : Behaviour ε) : Prop := ∀ r ∈ A, Keeps regular permitted r.1

variable {regular permitted} {A B : Behaviour ε}

lemma Keeps.append {t u : List ε} (ht : Keeps regular permitted t)
    (hu : Keeps regular permitted u) : Keeps regular permitted (t ++ u) := by
  induction t with
  | nil => exact hu
  | cons s t ih =>
    intro hs
    obtain ⟨hpermitted, hrest⟩ := ht hs
    exact ⟨hpermitted, ih hrest⟩

/-- The steps up to any point of a run, if they are all regular, are all permitted. -/
lemma Keeps.permitted_of_regular {t u : List ε} (h : Keeps regular permitted (t ++ u))
    (hregular : ∀ s ∈ t, regular s) : ∀ s ∈ t, permitted s := by
  induction t with
  | nil => simp
  | cons s t ih =>
    simp only [List.mem_cons, forall_eq_or_imp] at hregular ⊢
    obtain ⟨hpermitted, hrest⟩ := h hregular.1
    exact ⟨hpermitted, ih hrest hregular.2⟩

namespace Respects

lemma leave (x : Exit) : Respects regular permitted (leave x : Behaviour ε) := by
  rintro r rfl
  trivial

lemma done : Respects regular permitted (done : Behaviour ε) := leave .normal

lemma event {s : ε} (h : regular s → permitted s) :
    Respects regular permitted (event s) := by
  rintro r rfl
  exact fun hs => ⟨h hs, trivial⟩

lemma andThen (hA : Respects regular permitted A) (hB : Respects regular permitted B) :
    Respects regular permitted (andThen A B) := by
  rintro r (⟨hr, -⟩ | ⟨t, u, ht, hu, heq⟩)
  · exact hA r hr
  · rw [heq]
    exact (hA _ ht).append (hB _ hu)

lemma event_andThen {s : ε} (h : regular s → permitted s ∧ Respects regular permitted B) :
    Respects regular permitted (Behaviour.andThen (Behaviour.event s) B) := by
  rintro ⟨t, x⟩ (⟨hr, hx⟩ | ⟨t, u, ht, hu, heq⟩)
  · cases hr
    exact absurd rfl hx
  · cases ht
    obtain rfl : _ = [s] ++ u := heq
    intro hs
    exact ⟨(h hs).1, (h hs).2 _ hu⟩

lemma orElse (hA : Respects regular permitted A) (hB : Respects regular permitted B) :
    Respects regular permitted (orElse A B) := by
  rintro r (hr | hr)
  · exact hA r hr
  · exact hB r hr

lemma any {ι : Type*} {A : ι → Behaviour ε} (h : ∀ i, Respects regular permitted (A i)) :
    Respects regular permitted (any A) := by
  intro r hr
  obtain ⟨i, hi⟩ := Set.mem_iUnion.mp hr
  exact h i r hi

lemma events {ss : List ε} (h : ∀ s ∈ ss, regular s → permitted s) :
    Respects regular permitted (events ss) := by
  induction ss with
  | nil => exact done
  | cons s ss ih =>
    rw [List.forall_mem_cons] at h
    exact (event h.1).andThen (ih h.2)

lemma resume {x : Exit} (hA : Respects regular permitted A) :
    Respects regular permitted (resume x A) := by
  rintro r (⟨hr, -⟩ | ⟨-, hr⟩)
  · exact hA r hr
  · exact hA (r.1, x) hr

lemma repeated (hA : Respects regular permitted A) : Respects regular permitted (repeated A) := by
  intro r hr
  induction hr with
  | done => trivial
  | left h _ => exact hA _ h
  | next h _ ih => exact (hA _ h).append ih

lemma loop {C : Behaviour ε} (hA : Respects regular permitted A)
    (hB : Respects regular permitted B) (hC : Respects regular permitted C) :
    Respects regular permitted (loop A B C) :=
  ((hA.andThen (hB.resume.andThen hC)).repeated.andThen hA).resume

lemma doLoop (hA : Respects regular permitted A) (hB : Respects regular permitted B) :
    Respects regular permitted (doLoop A B) :=
  ((hA.resume.andThen hB).andThen (hA.resume.andThen hB).repeated).resume

end Respects

end Behaviour

end Semantics
