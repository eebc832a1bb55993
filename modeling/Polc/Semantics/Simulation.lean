import Polc.Semantics.Result

/-!
# Simulations up to fuel

`Result.Sim p q` weakens `Result.Rel`: the first computation may run out of fuel if `p` holds, and
the second one if `q` does. One proof for arbitrary `p` and `q` thus shows that two runs are the
same with the same fuel, or that either of them has the result of the other one with enough fuel.
-/

namespace Semantics

universe u

namespace Result

variable {η σ τ α β γ δ : Type*}

/-- The results match, unless one of the computations ran out of fuel where it may. -/
inductive Sim (p q : Prop) (S : σ → τ → Prop) (A : α → β → Prop) :
    Result η σ α → Result η τ β → Prop where
  | rel {r r'} (h : Rel S A r r') : Sim p q S A r r'
  | left {r'} (hp : p) : Sim p q S A .timeout r'
  | right {r} (hq : q) : Sim p q S A r .timeout

namespace Sim

variable {p q : Prop} {S : σ → τ → Prop} {A : α → β → Prop} {B : γ → δ → Prop}

lemma ok {a : α} {b : β} {s : σ} {t : τ} (ha : A a b) (hs : S s t) :
    Sim p q S A (ok a s : Result η σ α) (ok b t) := .rel (.ok ha hs)

lemma halt {s : σ} {t : τ} (h : η) (hs : S s t) :
    Sim p q S A (halt h s : Result η σ α) (halt h t) := .rel (.halt h hs)

lemma timeout : Sim p q S A (timeout : Result η σ α) timeout := .rel .timeout

variable {r : Result η σ α} {r' : Result η τ β}

/-- Matching results stay matched when they are continued by matching continuations. -/
lemma bind {f : α → σ → Result η σ γ} {f' : β → τ → Result η τ δ} (h : Sim p q S A r r')
    (hf : ∀ a b s t, r = .ok a s → r' = .ok b t → A a b → S s t → Sim p q S B (f a s) (f' b t)) :
    Sim p q S B (r.bind f) (r'.bind f') := by
  cases h with
  | left hp => exact .left hp
  | right hq => exact .right hq
  | rel h =>
    cases h with
    | ok ha hs => exact hf _ _ _ _ rfl rfl ha hs
    | halt h hs => exact .halt h hs
    | timeout => exact .timeout

lemma map {f : α → γ} {f' : β → δ} (h : Sim p q S A r r') (hf : ∀ a b, A a b → B (f a) (f' b)) :
    Sim p q S B (r.map f) (r'.map f') :=
  h.bind fun _ _ _ _ _ _ ha hs => .ok (hf _ _ ha) hs

lemma mono {A' : α → β → Prop} (h : Sim p q S A r r') (hA : ∀ a b, A a b → A' a b) :
    Sim p q S A' r r' := by
  cases h with
  | rel h => exact .rel (h.mono hA)
  | left hp => exact .left hp
  | right hq => exact .right hq

lemma refl {S : σ → σ → Prop} {A : α → α → Prop} (hS : ∀ s, S s s) (hA : ∀ a, A a a)
    (r : Result η σ α) : Sim p q S A r r :=
  .rel (.refl hS hA r)

lemma and_right {P : β → τ → Prop} (h : Sim p q S A r r') (hP : r'.Returns P) :
    Sim p q S (fun a b => A a b ∧ ∃ t, P b t) r r' := by
  cases h with
  | left hp => exact .left hp
  | right hq => exact .right hq
  | rel h =>
    cases h with
    | ok ha hs => exact .ok ⟨ha, _, hP _ _ rfl⟩ hs
    | halt h hs => exact .halt h hs
    | timeout => exact .timeout

lemma rel_of_ne_timeout (h : Sim p False S A r r') (hr : p → r ≠ .timeout) : Rel S A r r' := by
  cases h with
  | rel h => exact h
  | left hp => exact absurd rfl (hr hp)
  | right hq => exact hq.elim

lemma eq {r' : Result η σ α} (h : Sim False False Eq Eq r r') : r = r' := by
  cases h with
  | rel h => exact Rel.eq_iff.mp h
  | left hp => exact hp.elim
  | right hq => exact hq.elim

lemma eq_of_ne_timeout {r' : Result η σ α} (h : Sim p False Eq Eq r r') (hr : r ≠ .timeout) :
    r = r' := by
  cases h with
  | rel h => exact Rel.eq_iff.mp h
  | left hp => exact absurd rfl hr
  | right hq => exact hq.elim

lemma eq_of_ne_timeout' {r' : Result η σ α} (h : Sim False q Eq Eq r r') (hr : r' ≠ .timeout) :
    r = r' := by
  cases h with
  | rel h => exact Rel.eq_iff.mp h
  | left hp => exact hp.elim
  | right hq => exact absurd rfl hr

end Sim

end Result

/-- The bounds are the same, or the computation with the smaller one may run out of fuel. -/
def Comparable (p q : Prop) (n n' : Nat) : Prop := n = n' ∨ p ∧ n ≤ n' ∨ q ∧ n' ≤ n

variable {p q : Prop}

lemma Comparable.refl (n : Nat) : Comparable p q n n := .inl rfl

lemma Comparable.of_succ {n n' : Nat} (h : Comparable p q (n + 1) (n' + 1)) :
    Comparable p q n n' := by
  rcases h with h | ⟨hp, h⟩ | ⟨hq, h⟩
  · exact .inl (Nat.succ.inj h)
  · exact .inr (.inl ⟨hp, Nat.le_of_succ_le_succ h⟩)
  · exact .inr (.inr ⟨hq, Nat.le_of_succ_le_succ h⟩)

variable {η σ τ α β : Type*}

/-- The rule for two loops in step: related before each iteration by `A`, after the bodies by
`B`, they end related by `C`. -/
lemma loop_sim {S : σ → τ → Prop} {A B C : α → β → Prop} {cond : α → σ → Result η σ Bool}
    {body : α → σ → Result η σ (Bool × α)} {post : α → σ → Result η σ α}
    {cond' : β → τ → Result η τ Bool} {body' : β → τ → Result η τ (Bool × β)}
    {post' : β → τ → Result η τ β}
    (hcond : ∀ a b s t, A a b → S s t → Result.Sim p q S (· = ·) (cond a s) (cond' b t))
    (hexit : ∀ a b, A a b → C a b)
    (hbody : ∀ a b s t, A a b → S s t → Result.Sim p q S
      (fun r r' => r.1 = r'.1 ∧ if r.1 then C r.2 r'.2 else B r.2 r'.2) (body a s) (body' b t))
    (hpost : ∀ a b s t, B a b → S s t → Result.Sim p q S A (post a s) (post' b t)) {n n' : Nat}
    (hn : Comparable p q n n') {a : α} {b : β} {s : σ} {t : τ} (ha : A a b) (hs : S s t) :
    Result.Sim p q S C (loop cond body post n a s) (loop cond' body' post' n' b t) := by
  induction n generalizing n' a b s t with
  | zero =>
    rcases hn with rfl | ⟨hp, -⟩ | ⟨-, hn⟩
    · exact .timeout
    · exact .left hp
    · rw [Nat.le_zero.mp hn]
      exact .timeout
  | succ n ih =>
    cases n' with
    | zero =>
      rcases hn with hn | ⟨-, hn⟩ | ⟨hq, -⟩
      · cases hn
      · cases hn
      · exact .right hq
    | succ n' =>
      rw [loop_succ, loop_succ]
      refine (hcond a b s t ha hs).bind ?_
      rintro c c' s₁ t₁ - - rfl hs₁
      by_cases hc : c = true
      · rw [if_pos hc, if_pos hc]
        refine (hbody a b s₁ t₁ ha hs₁).bind ?_
        rintro ⟨l, a₁⟩ ⟨l', b₁⟩ s₂ t₂ - - ⟨rfl, hr⟩ hs₂
        by_cases hl : l = true
        · simp only [hl, if_true] at hr ⊢
          exact .ok hr hs₂
        · simp only [hl] at hr ⊢
          exact (hpost a₁ b₁ s₂ t₂ hr hs₂).bind fun _ _ _ _ _ _ ha₂ hs₃ =>
            ih hn.of_succ ha₂ hs₃
      · rw [if_neg hc, if_neg hc]
        exact .ok (hexit a b ha) hs₁

end Semantics
