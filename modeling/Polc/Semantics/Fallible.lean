import Mathlib.Data.List.Forall2
import Mathlib.Data.Option.Basic
import Mathlib.Order.MinMax

/-!
# Computations with a state that may fail

A computation establishes a property under an invariant if it does not fail in a state with the
invariant, keeps the invariant and returns a value with the property.
-/

namespace Semantics

universe u

variable {σ α β : Type u} {I : σ → Prop} {p q : α → Prop} {r : β → Prop}

def Establishes (I : σ → Prop) (m : StateT σ Option α) (p : α → Prop) : Prop :=
  ∀ s, I s → ∃ a s', m s = some (a, s') ∧ I s' ∧ p a

namespace Establishes

lemma pure {a : α} (h : p a) : Establishes I (Pure.pure a) p :=
  fun s hs => ⟨a, s, rfl, hs, h⟩

lemma bind {m : StateT σ Option α} {f : α → StateT σ Option β} (hm : Establishes I m p)
    (hf : ∀ a, p a → Establishes I (f a) r) : Establishes I (m >>= f) r := by
  intro s hs
  obtain ⟨a, s', hrun, hs', ha⟩ := hm s hs
  obtain ⟨b, s'', hrun', hs'', hb⟩ := hf a ha s' hs'
  refine ⟨b, s'', ?_, hs'', hb⟩
  rw [← hrun']
  exact (congrArg (Option.bind · _) hrun :)

lemma mono {m : StateT σ Option α} (h : Establishes I m p) (hpq : ∀ a, p a → q a) :
    Establishes I m q := by
  intro s hs
  obtain ⟨a, s', hrun, hs', ha⟩ := h s hs
  exact ⟨a, s', hrun, hs', hpq a ha⟩

lemma modify {f : σ → σ} (hf : ∀ s, I s → I (f s)) :
    Establishes I (modifyThe σ f : StateT σ Option PUnit) fun _ => True :=
  fun s hs => ⟨_, f s, rfl, hf s hs, trivial⟩

lemma lift {x : Option α} {a : α} (hx : x = some a) (h : p a) :
    Establishes I (StateT.lift x : StateT σ Option α) p := by
  subst hx
  exact pure h

end Establishes

end Semantics

/-!
## Computations that come to an end

Loops with fuel report it as an error when they run out of it. Such a computation comes to an end
if with enough fuel it always has the same result, which is not this error.
-/

namespace Semantics

universe u v

variable {ε : Type u} {α β : Type v} {timeout : ε} {f : ℕ → Except ε α}

lemma bind_eq_ok_iff {r : Except ε α} {g : α → Except ε β} {b : β} :
    r.bind g = .ok b ↔ ∃ a, r = .ok a ∧ g a = .ok b := by
  cases r with
  | error e => exact ⟨nofun, nofun⟩
  | ok a =>
    refine ⟨fun h => ⟨a, rfl, h⟩, ?_⟩
    rintro ⟨_, ⟨⟩, h⟩
    exact h

/-- From some fuel on there is one result, and it is no timeout. -/
def Settles (timeout : ε) (f : ℕ → Except ε α) : Prop :=
  ∃ n r, r ≠ .error timeout ∧ ∀ fuel, n ≤ fuel → f fuel = r

namespace Settles

lemma const {r : Except ε α} (h : r ≠ .error timeout) : Settles timeout fun _ => r :=
  ⟨0, r, h, fun _ _ => rfl⟩

lemma pure (a : α) : Settles timeout fun _ => (.ok a : Except ε α) := const nofun

lemma congr {g : ℕ → Except ε α} (h : Settles timeout f) {n : ℕ}
    (heq : ∀ fuel, n ≤ fuel → g fuel = f fuel) : Settles timeout g := by
  obtain ⟨m, r, hr, hf⟩ := h
  refine ⟨max m n, r, hr, fun fuel hfuel => ?_⟩
  rw [heq fuel (le_trans (le_max_right m n) hfuel)]
  exact hf fuel (le_trans (le_max_left m n) hfuel)

lemma bind {g : ℕ → α → Except ε β} (hf : Settles timeout f)
    (hg : ∀ fuel a, f fuel = .ok a → Settles timeout fun fuel => g fuel a) :
    Settles timeout fun fuel => (f fuel).bind (g fuel) := by
  obtain ⟨n, r, hr, hf⟩ := hf
  cases r with
  | error e =>
    refine ⟨n, .error e, fun h => hr (congrArg _ (Except.error.inj h)), fun fuel hfuel => ?_⟩
    exact congrArg (Except.bind · (g fuel)) (hf fuel hfuel)
  | ok a =>
    exact (hg n a (hf n le_rfl)).congr fun fuel (hfuel : n ≤ fuel) =>
      congrArg (Except.bind · (g fuel)) (hf fuel hfuel)

lemma succ (h : Settles timeout fun fuel => f (fuel + 1)) : Settles timeout f := by
  obtain ⟨n, r, hr, hf⟩ := h
  refine ⟨n + 1, r, hr, fun fuel hfuel => ?_⟩
  obtain ⟨k, rfl⟩ := Nat.exists_eq_add_of_le' (Nat.le_trans (Nat.le_add_left 1 n) hfuel)
  exact hf k (Nat.le_of_succ_le_succ hfuel)

end Settles

end Semantics
