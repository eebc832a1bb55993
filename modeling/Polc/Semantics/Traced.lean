import Polc.Semantics.Result

/-!
# Computations with a trace

A computation that leaves events behind, in order. Also one that runs out of fuel has a trace, the
events up to then.
-/

namespace Semantics

universe u v w x

/-- A result, and the events on the way to it. -/
structure Traced (ε : Type u) (η : Type v) (σ : Type w) (α : Type x) where
  trace : List ε
  result : Result η σ α

namespace Traced

variable {ε η σ α β γ δ : Type*}

/-- A value, without events. -/
def ok (a : α) (s : σ) : Traced ε η σ α := ⟨[], .ok a s⟩

def bind (r : Traced ε η σ α) (f : α → σ → Traced ε η σ β) : Traced ε η σ β :=
  match r.result with
  | .ok a s => ⟨r.trace ++ (f a s).trace, (f a s).result⟩
  | .halt h s => ⟨r.trace, .halt h s⟩
  | .timeout => ⟨r.trace, .timeout⟩

def map (f : α → β) (r : Traced ε η σ α) : Traced ε η σ β := ⟨r.trace, r.result.map f⟩

@[simp] lemma ok_bind (a : α) (s : σ) (f : α → σ → Traced ε η σ β) :
    (ok a s).bind f = f a s := by
  simp [ok, bind]

@[simp] lemma ok_map (f : α → β) (a : α) (s : σ) :
    (ok a s : Traced ε η σ α).map f = ok (f a) s := rfl

@[simp] lemma result_ok (a : α) (s : σ) : (ok a s : Traced ε η σ α).result = .ok a s := rfl

@[simp] lemma result_bind (r : Traced ε η σ α) (f : α → σ → Traced ε η σ β) :
    (r.bind f).result = r.result.bind fun a s => (f a s).result := by
  unfold bind
  cases r.result <;> rfl

@[simp] lemma result_map (f : α → β) (r : Traced ε η σ α) :
    (r.map f).result = r.result.map f := rfl

lemma bind_assoc (r : Traced ε η σ α) (f : α → σ → Traced ε η σ β)
    (g : β → σ → Traced ε η σ γ) : (r.bind f).bind g = r.bind fun a s => (f a s).bind g := by
  obtain ⟨t, r⟩ := r
  cases r with
  | ok a s =>
    simp only [bind]
    cases (f a s).result <;> simp
  | halt h s => rfl
  | timeout => rfl

lemma map_eq_bind (f : α → β) (r : Traced ε η σ α) :
    r.map f = r.bind fun a s => ok (f a) s := by
  obtain ⟨t, r⟩ := r
  cases r with
  | ok a s => simp [map, bind, ok]
  | halt h s => rfl
  | timeout => rfl

lemma map_bind (f : α → β) (r : Traced ε η σ α) (g : β → σ → Traced ε η σ γ) :
    (r.map f).bind g = r.bind fun a s => g (f a) s := by
  rw [map_eq_bind, bind_assoc]
  simp

lemma bind_ok (r : Traced ε η σ α) : r.bind ok = r := by
  obtain ⟨t, r⟩ := r
  cases r with
  | ok a s => simp [bind, ok]
  | halt h s => rfl
  | timeout => rfl

lemma bind_congr (r : Traced ε η σ α) {f g : α → σ → Traced ε η σ β}
    (h : ∀ a s, r.result = .ok a s → f a s = g a s) : r.bind f = r.bind g := by
  unfold bind
  cases hr : r.result with
  | ok a s => simp only [h a s hr]
  | halt _ _ => rfl
  | timeout => rfl

/-! ### Relational lifting -/

/-- The same events, and results that match in the same states. -/
structure Rel (A : α → β → Prop) (r : Traced ε η σ α) (r' : Traced ε η σ β) : Prop where
  trace : r.trace = r'.trace
  result : Result.Rel Eq A r.result r'.result

namespace Rel

variable {A : α → β → Prop} {B : γ → δ → Prop} {r : Traced ε η σ α} {r' : Traced ε η σ β}

lemma ok {a : α} {b : β} {s : σ} (h : A a b) : Rel A (ok a s : Traced ε η σ α) (.ok b s) :=
  ⟨rfl, .ok h rfl⟩

lemma bind {f : α → σ → Traced ε η σ γ} {f' : β → σ → Traced ε η σ δ} (h : Rel A r r')
    (hf : ∀ a b s, A a b → Rel B (f a s) (f' b s)) : Rel B (r.bind f) (r'.bind f') := by
  obtain ⟨t, r⟩ := r
  obtain ⟨t', r'⟩ := r'
  obtain ⟨rfl, h⟩ := h
  simp only at h
  cases h with
  | @ok a b s _ ha hs =>
    subst hs
    have hrel := hf a b s ha
    refine ⟨?_, hrel.result⟩
    simp only [Traced.bind, hrel.trace]
  | halt h hs => exact ⟨rfl, .halt h hs⟩
  | timeout => exact ⟨rfl, .timeout⟩

lemma map {f : α → γ} {f' : β → δ} (h : Rel A r r') (hf : ∀ a b, A a b → B (f a) (f' b)) :
    Rel B (r.map f) (r'.map f') :=
  ⟨h.trace, h.result.map hf⟩

lemma map_left {f : α → γ} {C : γ → β → Prop} (h : Rel A r r') (hf : ∀ a b, A a b → C (f a) b) :
    Rel C (r.map f) r' := by
  refine ⟨h.trace, ?_⟩
  have hmap : Result.Rel Eq C (r.result.map f) (r'.result.map id) := h.result.map hf
  cases hr' : r'.result <;> rw [hr'] at hmap <;> exact hmap

lemma mono {A' : α → β → Prop} (h : Rel A r r') (hA : ∀ a b, A a b → A' a b) : Rel A' r r' :=
  ⟨h.trace, h.result.mono hA⟩

lemma mono_of_returns {A' : α → β → Prop} {P : α → σ → Prop} (h : Rel A r r')
    (hP : r.result.Returns P) (hA : ∀ a b s, P a s → A a b → A' a b) : Rel A' r r' := by
  refine ⟨h.trace, ?_⟩
  have hr := h.result
  generalize r.result = x at hP hr
  generalize r'.result = y at hr
  cases hr with
  | ok ha hs => exact .ok (hA _ _ _ (hP _ _ rfl) ha) hs
  | halt h hs => exact .halt h hs
  | timeout => exact .timeout

lemma trans {B : β → γ → Prop} {r'' : Traced ε η σ γ} (h : Rel A r r') (h' : Rel B r' r'') :
    Rel (fun a c => ∃ b, A a b ∧ B b c) r r'' := by
  refine ⟨h.trace.trans h'.trace, ?_⟩
  have hr := h.result
  have hr' := h'.result
  generalize r.result = x at hr
  generalize r'.result = y at hr hr'
  generalize r''.result = z at hr'
  cases hr with
  | ok ha hs =>
    cases hr' with
    | ok hb hs' => exact .ok ⟨_, ha, hb⟩ (hs.trans hs')
  | halt h hs =>
    cases hr' with
    | halt _ hs' => exact .halt h (hs.trans hs')
  | timeout =>
    cases hr'
    exact .timeout

lemma eq {r r' : Traced ε η σ α} (h : Rel Eq r r') : r = r' := by
  obtain ⟨t, r⟩ := r
  obtain ⟨t', r'⟩ := r'
  obtain ⟨rfl, h⟩ := h
  obtain rfl : r = r' := Result.Rel.eq_iff.mp h
  rfl

lemma refl (r : Traced ε η σ α) : Rel Eq r r := ⟨rfl, Result.Rel.eq_iff.mpr rfl⟩

end Rel

/-- Run `body` and `post` as long as `cond` holds and the body does not ask to leave the loop. -/
def loop (cond : α → σ → Traced ε η σ Bool) (body : α → σ → Traced ε η σ (Bool × α))
    (post : α → σ → Traced ε η σ α) : Nat → α → σ → Traced ε η σ α
  | 0, _, _ => ⟨[], .timeout⟩
  | n + 1, a, s =>
    (cond a s).bind fun c s =>
      if c then
        (body a s).bind fun r s =>
          if r.1 then .ok r.2 s else (post r.2 s).bind (loop cond body post n)
      else .ok a s

lemma result_loop (cond : α → σ → Traced ε η σ Bool) (body : α → σ → Traced ε η σ (Bool × α))
    (post : α → σ → Traced ε η σ α) (n : Nat) (a : α) (s : σ) :
    (loop cond body post n a s).result =
      Semantics.loop (fun a s => (cond a s).result) (fun a s => (body a s).result)
        (fun a s => (post a s).result) n a s := by
  induction n generalizing a s with
  | zero => rfl
  | succ n ih =>
    rw [loop, loop_succ, result_bind]
    apply Result.bind_congr
    intro c s₁ _
    by_cases hc : c = true
    · rw [if_pos hc, if_pos hc, result_bind]
      apply Result.bind_congr
      intro r s₂ _
      by_cases hr : r.1 = true
      · rw [if_pos hr, if_pos hr, result_ok]
      · rw [if_neg hr, if_neg hr, result_bind]
        apply Result.bind_congr
        intro b s₃ _
        exact ih b s₃
    · rw [if_neg hc, if_neg hc, result_ok]

lemma loop_rel {A : α → β → Prop}
    {cond : α → σ → Traced ε η σ Bool} {body : α → σ → Traced ε η σ (Bool × α)}
    {post : α → σ → Traced ε η σ α}
    {cond' : β → σ → Traced ε η σ Bool} {body' : β → σ → Traced ε η σ (Bool × β)}
    {post' : β → σ → Traced ε η σ β}
    (hcond : ∀ a b s, A a b → Rel Eq (cond a s) (cond' b s))
    (hbody : ∀ a b s, A a b → Rel (fun r r' => r.1 = r'.1 ∧ A r.2 r'.2) (body a s) (body' b s))
    (hpost : ∀ a b s, A a b → Rel A (post a s) (post' b s))
    (n : Nat) {a : α} {b : β} (h : A a b) (s : σ) :
    Rel A (loop cond body post n a s) (loop cond' body' post' n b s) := by
  induction n generalizing a b s with
  | zero => exact ⟨rfl, .timeout⟩
  | succ n ih =>
    rw [loop, loop]
    refine (hcond a b s h).bind ?_
    rintro c _ s₁ rfl
    by_cases hc : c = true
    · rw [if_pos hc, if_pos hc]
      refine (hbody a b s₁ h).bind ?_
      rintro ⟨l, a₁⟩ ⟨_, b₁⟩ s₂ ⟨rfl, h₁⟩
      by_cases hl : l = true
      · rw [if_pos hl, if_pos hl]
        exact .ok h₁
      · rw [if_neg hl, if_neg hl]
        exact (hpost a₁ b₁ s₂ h₁).bind fun a₂ b₂ s₃ h₂ => ih h₂ s₃
    · rw [if_neg hc, if_neg hc]
      exact .ok h

end Traced

end Semantics
