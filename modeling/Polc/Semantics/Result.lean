import Mathlib.Logic.Basic

/-!
# Results of computations that may halt, diverge or return

A computation over a state `σ` returns a value, halts the whole run with a reason from `η`,
or runs out of fuel. `Result.Rel` lifts a relation on states and one on values to results;
it is what a simulation proof shows of two runs, and `Result.Rel.bind` composes such proofs.
-/

namespace Semantics

universe u v w

/-- The outcome of a computation with state `σ` and halting reasons `η`. -/
inductive Result (η : Type u) (σ : Type v) (α : Type w) where
  | ok : α → σ → Result η σ α
  | halt : η → σ → Result η σ α
  | timeout : Result η σ α
  deriving DecidableEq

namespace Result

variable {η σ τ α β γ δ : Type*}

/-- Continue with `f` after a returned value; a halted or diverged run stays as it is. -/
def bind (r : Result η σ α) (f : α → σ → Result η σ β) : Result η σ β :=
  match r with
  | ok a s => f a s
  | halt h s => halt h s
  | timeout => timeout

/-- Apply `f` to the returned value. -/
def map (f : α → β) (r : Result η σ α) : Result η σ β :=
  r.bind fun a s => ok (f a) s

variable (r : Result η σ α) (f : α → σ → Result η σ β)

@[simp] lemma bind_ok (a : α) (s : σ) (f : α → σ → Result η σ β) :
    (ok a s).bind f = f a s := rfl

@[simp] lemma bind_halt (h : η) (s : σ) (f : α → σ → Result η σ β) :
    (halt h s : Result η σ α).bind f = halt h s := rfl

@[simp] lemma bind_timeout : (timeout : Result η σ α).bind f = timeout := rfl

@[simp] lemma map_ok (f : α → β) (a : α) (s : σ) :
    (ok a s : Result η σ α).map f = ok (f a) s := rfl

@[simp] lemma map_halt (f : α → β) (h : η) (s : σ) :
    (halt h s : Result η σ α).map f = halt h s := rfl

@[simp] lemma map_timeout (f : α → β) : (timeout : Result η σ α).map f = timeout := rfl

lemma bind_assoc (g : β → σ → Result η σ γ) :
    (r.bind f).bind g = r.bind fun a s => (f a s).bind g := by
  cases r <;> rfl

lemma bind_eq_ok {r : Result η σ α} {f : α → σ → Result η σ β} {b : β} {t : σ} :
    r.bind f = ok b t ↔ ∃ a s, r = ok a s ∧ f a s = ok b t := by
  cases r <;> simp [and_assoc]

lemma map_eq_ok {r : Result η σ α} {f : α → β} {b : β} {t : σ} :
    r.map f = ok b t ↔ ∃ a, r = ok a t ∧ f a = b := by
  simp [map, bind_eq_ok]

lemma bind_map (f : α → β) (g : β → σ → Result η σ γ) :
    (r.map f).bind g = r.bind fun a s => g (f a) s := by
  cases r <;> rfl

lemma map_bind (g : β → γ) : (r.bind f).map g = r.bind fun a s => (f a s).map g := by
  cases r <;> rfl

lemma map_map (f : α → β) (g : β → γ) : (r.map f).map g = r.map fun a => g (f a) := by
  cases r <;> rfl

lemma bind_congr {f g : α → σ → Result η σ β} (h : ∀ a s, r = ok a s → f a s = g a s) :
    r.bind f = r.bind g := by
  cases r with
  | ok a s => exact h a s rfl
  | halt _ _ => rfl
  | timeout => rfl

/-- If the computation returns a value in a state, `P` holds of them. -/
def Returns (P : α → σ → Prop) (r : Result η σ α) : Prop := ∀ a s, r = ok a s → P a s

namespace Returns

variable {P : α → σ → Prop} {Q : β → σ → Prop}

lemma ok {a : α} {s : σ} (h : P a s) : Returns P (ok a s : Result η σ α) := by
  rintro _ _ ⟨⟩
  exact h

lemma halt {h : η} {s : σ} : Returns P (halt h s : Result η σ α) := by
  rintro _ _ ⟨⟩

lemma timeout : Returns P (timeout : Result η σ α) := by
  rintro _ _ ⟨⟩

variable {r : Result η σ α}

lemma bind {f : α → σ → Result η σ β} (h : r.Returns P)
    (hf : ∀ a s, r = .ok a s → P a s → (f a s).Returns Q) : (r.bind f).Returns Q := by
  intro b t heq
  obtain ⟨a, s, hr, hb⟩ := bind_eq_ok.mp heq
  exact hf a s hr (h a s hr) b t hb

lemma map {f : α → β} (h : r.Returns P) (hf : ∀ a s, P a s → Q (f a) s) : (r.map f).Returns Q :=
  h.bind fun a s _ ha => .ok (hf a s ha)

lemma mono {P' : α → σ → Prop} (h : r.Returns P) (hP : ∀ a s, P a s → P' a s) : r.Returns P' :=
  fun a s heq => hP a s (h a s heq)

lemma trivial (r : Result η σ α) : r.Returns fun _ _ => True := fun _ _ _ => True.intro

end Returns

/-! ### Relational lifting -/

/-- Two results match: both return related values in related states, both halt for the same
reason in related states, or both run out of fuel. -/
inductive Rel (S : σ → τ → Prop) (A : α → β → Prop) : Result η σ α → Result η τ β → Prop where
  | ok {a b s t} (ha : A a b) (hs : S s t) : Rel S A (ok a s) (ok b t)
  | halt {s t} (h : η) (hs : S s t) : Rel S A (halt h s) (halt h t)
  | timeout : Rel S A timeout timeout

namespace Rel

variable {S : σ → τ → Prop} {A : α → β → Prop} {B : γ → δ → Prop}

variable {r : Result η σ α} {r' : Result η τ β}

/-- Matching results stay matched when they are continued by matching continuations. -/
lemma bind {f : α → σ → Result η σ γ} {f' : β → τ → Result η τ δ} (h : Rel S A r r')
    (hf : ∀ a b s t, r = .ok a s → r' = .ok b t → A a b → S s t → Rel S B (f a s) (f' b t)) :
    Rel S B (r.bind f) (r'.bind f') := by
  cases h with
  | ok ha hs => exact hf _ _ _ _ rfl rfl ha hs
  | halt h hs => exact .halt h hs
  | timeout => exact .timeout

lemma mono {A' : α → β → Prop} (h : Rel S A r r') (hA : ∀ a b, A a b → A' a b) : Rel S A' r r' := by
  cases h with
  | ok ha hs => exact .ok (hA _ _ ha) hs
  | halt h hs => exact .halt h hs
  | timeout => exact .timeout

lemma map {f : α → γ} {f' : β → δ} (h : Rel S A r r') (hf : ∀ a b, A a b → B (f a) (f' b)) :
    Rel S B (r.map f) (r'.map f') :=
  h.bind fun _ _ _ _ _ _ ha hs => .ok (hf _ _ ha) hs

lemma refl {S : σ → σ → Prop} {A : α → α → Prop} (hS : ∀ s, S s s) (hA : ∀ a, A a a)
    (r : Result η σ α) : Rel S A r r := by
  cases r with
  | ok a s => exact .ok (hA a) (hS s)
  | halt h s => exact .halt h (hS s)
  | timeout => exact .timeout

lemma eq_iff {r' : Result η σ α} : Rel Eq Eq r r' ↔ r = r' := by
  constructor
  · rintro (⟨rfl, rfl⟩ | ⟨_, rfl⟩ | _) <;> rfl
  · rintro rfl
    exact refl (fun _ => rfl) (fun _ => rfl) r

lemma eq_map {r' : Result η σ β} {f : α → β} (h : Rel Eq (fun a b => b = f a) r r') :
    r' = r.map f := by
  cases h with
  | ok ha hs =>
    rw [ha, hs]
    rfl
  | halt h hs => exact congrArg (Result.halt h) hs.symm
  | timeout => rfl

end Rel

end Result

end Semantics

/-!
## Implementations of operations on abstract values

Operations change an abstract value, or fail on it, and are executed on states that stand for such
values. Between two operations others may change the state. What holds in all states that runs under a
condition come to.
-/

namespace Semantics

structure Implementation (η σ O A : Type*) where
  /-- What an operation does to the value, in the given state. -/
  apply : O → σ → A → Option A
  execute : O → σ → Result η σ Unit
  /-- The value that a run starts with and the states it starts from. -/
  starts : A → σ → Prop
  /-- The changes by others. -/
  interferes : σ → σ → Prop

namespace Implementation

variable {η σ O A : Type*}

/-- The states that runs come to whose operations meet the condition, with the values they are to
stand for. -/
inductive Reaches (I : Implementation η σ O A) (condition : O → A → σ → Prop) : A → σ → Prop
  | start {a : A} {s : σ} (h : I.starts a s) : Reaches I condition a s
  | interfere {a : A} {s s' : σ} (h : Reaches I condition a s) (hs : I.interferes s s') :
      Reaches I condition a s'
  | step {a b : A} {s s' : σ} (h : Reaches I condition a s) (operation : O)
      (hcondition : condition operation a s) (happly : I.apply operation s a = some b)
      (hexecute : I.execute operation s = .ok () s') : Reaches I condition b s'

/-- One operation does to the state what it does to the value, and fails where there is none. -/
def Simulates (I : Implementation η σ O A) (R : A → σ → Prop) (keeps : σ → σ → Prop)
    (failure : η) (operation : O) (a : A) (s : σ) : Prop :=
  match I.apply operation s a with
  | some b => ∃ s', I.execute operation s = .ok () s' ∧ R b s' ∧ keeps s s'
  | none => I.execute operation s = .halt failure s

variable {I : Implementation η σ O A} {condition : O → A → σ → Prop} {R : A → σ → Prop}
  {keeps : σ → σ → Prop} {failure : η} {a b : A} {s s' : σ} {operation : O}

lemma Simulates.exists (h : I.Simulates R keeps failure operation a s)
    (happly : I.apply operation s a = some b) :
    ∃ s', I.execute operation s = .ok () s' ∧ R b s' ∧ keeps s s' := by
  unfold Simulates at h
  rwa [happly] at h

lemma Simulates.mono {R' : A → σ → Prop} (hR : ∀ b s', R b s' → R' b s')
    (h : I.Simulates R keeps failure operation a s) :
    I.Simulates R' keeps failure operation a s := by
  unfold Simulates at h ⊢
  split at h
  · obtain ⟨s', hexecute, hb, hkeeps⟩ := h
    exact ⟨s', hexecute, hR _ _ hb, hkeeps⟩
  · exact h

/-- A representation that others and the operations under the condition keep is an invariant. -/
theorem Reaches.invariant (hstart : ∀ a s, I.starts a s → R a s)
    (hinterfere : ∀ a s s', R a s → I.interferes s s' → R a s')
    (hstep : ∀ operation a s, R a s → condition operation a s →
      I.Simulates R keeps failure operation a s)
    (h : I.Reaches condition a s) : R a s := by
  induction h with
  | start h => exact hstart _ _ h
  | interfere _ hs ih => exact hinterfere _ _ _ ih hs
  | step _ operation hcondition happly hexecute ih =>
    obtain ⟨s', hs', hb, -⟩ := (hstep operation _ _ ih hcondition).exists happly
    rw [hexecute] at hs'
    cases hs'
    exact hb

lemma Reaches.next (h : I.Reaches condition a s) (hcondition : condition operation a s)
    (hstep : I.Simulates R keeps failure operation a s)
    (happly : I.apply operation s a = some b) :
    ∃ s', I.Reaches condition b s' ∧ R b s' ∧ keeps s s' := by
  obtain ⟨s', hexecute, hb, hkeeps⟩ := hstep.exists happly
  exact ⟨s', .step h operation hcondition happly hexecute, hb, hkeeps⟩

end Implementation

end Semantics

/-!
## Loops with a bound on the iterations

A loop with a condition, a body that may leave it and a step between two iterations. A loop
that needs more iterations than the bound allows runs out of fuel.
-/

namespace Semantics

variable {η σ τ α β : Type*}

/-- Run `body` and `post` as long as `cond` holds and the body does not ask to leave the loop. -/
def loop (cond : α → σ → Result η σ Bool) (body : α → σ → Result η σ (Bool × α))
    (post : α → σ → Result η σ α) : Nat → α → σ → Result η σ α
  | 0, _, _ => .timeout
  | n + 1, a, s =>
    (cond a s).bind fun c s =>
      if c then
        (body a s).bind fun r s =>
          if r.1 then .ok r.2 s else (post r.2 s).bind (loop cond body post n)
      else .ok a s

variable {a : α} {s : σ}

section

variable {cond : α → σ → Result η σ Bool} {body : α → σ → Result η σ (Bool × α)}
  {post : α → σ → Result η σ α}

lemma loop_zero (a : α) (s : σ) : loop cond body post 0 a s = .timeout := rfl

lemma loop_succ (n : Nat) (a : α) (s : σ) :
    loop cond body post (n + 1) a s =
      (cond a s).bind fun c s =>
        if c then
          (body a s).bind fun r s =>
            if r.1 then .ok r.2 s else (post r.2 s).bind (loop cond body post n)
        else .ok a s := rfl

/-- The rule for one loop: `I` holds before each iteration, `J` after the body and `Q` where the
loop ends. -/
lemma loop_returns {I J Q : α → σ → Prop}
    (hcond : ∀ a s, I a s → (cond a s).Returns fun c s' => if c then I a s' else Q a s')
    (hbody : ∀ a s, I a s → (body a s).Returns fun r s' => if r.1 then Q r.2 s' else J r.2 s')
    (hpost : ∀ a s, J a s → (post a s).Returns I) (n : Nat) (h : I a s) :
    (loop cond body post n a s).Returns Q := by
  induction n generalizing a s with
  | zero => exact .timeout
  | succ n ih =>
    rw [loop_succ]
    refine (hcond a s h).bind fun c s₁ _ hc => ?_
    by_cases hct : c = true
    · rw [if_pos hct] at hc ⊢
      refine (hbody a s₁ hc).bind fun r s₂ _ hr => ?_
      by_cases hleave : r.1 = true
      · rw [if_pos hleave] at hr ⊢
        exact .ok hr
      · rw [if_neg hleave] at hr ⊢
        exact (hpost _ _ hr).bind fun a₁ s₃ _ ha => ih ha
    · rw [if_neg hct] at hc ⊢
      exact .ok hc

/-- The rule for a loop that runs a known number of times: `I` counts the iterations. -/
lemma loop_counts {I : Nat → α → σ → Prop} {total : Nat}
    (hcond : ∀ i a s, i ≤ total → I i a s → cond a s = .ok (decide (i < total)) s)
    (hstep : ∀ i a s, i < total → I i a s → ∃ b s₁ c s₂,
      body a s = .ok (false, b) s₁ ∧ post b s₁ = .ok c s₂ ∧ I (i + 1) c s₂) (n : Nat) {i : Nat}
    (hi : i ≤ total) (hn : total - i < n) (h : I i a s) :
    ∃ b t, loop cond body post n a s = .ok b t ∧ I total b t := by
  induction n generalizing i a s with
  | zero => exact absurd hn (Nat.not_lt_zero _)
  | succ n ih =>
    rw [loop_succ, hcond i a s hi h, Result.bind_ok]
    by_cases hlt : i < total
    · obtain ⟨b, s₁, c, s₂, hbody, hpost, hnext⟩ := hstep i a s hlt h
      simp only [hlt, decide_true, if_true, hbody, Result.bind_ok, Bool.false_eq_true, if_false,
        hpost]
      exact ih hlt (by omega) hnext
    · have heq : i = total := Nat.le_antisymm hi (Nat.le_of_not_lt hlt)
      subst heq
      simp only [hlt, decide_false, Bool.false_eq_true, if_false]
      exact ⟨a, s, rfl, h⟩

variable {cond' : α → σ → Result η σ Bool} {body' : α → σ → Result η σ (Bool × α)}

lemma loop_condition_into_body (hcond : ∀ a s, cond' a s = .ok true s)
    (hbody : ∀ a s, body' a s = (cond a s).bind fun c s => if c then body a s else .ok (true, a) s)
    (n : Nat) (a : α) (s : σ) : loop cond' body' post n a s = loop cond body post n a s := by
  induction n generalizing a s with
  | zero => rfl
  | succ n ih =>
    rw [loop_succ, loop_succ, hcond, Result.bind_ok, if_pos rfl, hbody, Result.bind_assoc]
    refine Result.bind_congr _ fun c s₁ _ => ?_
    by_cases hc : c = true
    · rw [if_pos hc, if_pos hc]
      refine Result.bind_congr _ fun r s₂ _ => ?_
      split
      · rfl
      · exact Result.bind_congr _ fun b s₃ _ => ih b s₃
    · rw [if_neg hc, if_neg hc, Result.bind_ok, if_pos rfl]

lemma loop_congr {I : α → σ → Prop} {post' : α → σ → Result η σ α}
    (hcond : ∀ a s, I a s → cond' a s = cond a s)
    (hbody : ∀ a s s₁, I a s → cond a s = .ok true s₁ → body' a s₁ = body a s₁)
    (hpost : ∀ a s s₁ b s₂, I a s → cond a s = .ok true s₁ → body a s₁ = .ok (false, b) s₂ →
      post' b s₂ = post b s₂)
    (hstep : ∀ a s s₁ b s₂ c s₃, I a s → cond a s = .ok true s₁ →
      body a s₁ = .ok (false, b) s₂ → post b s₂ = .ok c s₃ → I c s₃) (n : Nat) (h : I a s) :
    loop cond' body' post' n a s = loop cond body post n a s := by
  induction n generalizing a s with
  | zero => rfl
  | succ n ih =>
    rw [loop_succ, loop_succ, hcond a s h]
    apply Result.bind_congr
    rintro c s₁ hc
    by_cases hct : c = true
    · subst hct
      rw [if_pos rfl, if_pos rfl, hbody a s s₁ h hc]
      apply Result.bind_congr
      rintro ⟨l, b⟩ s₂ hb
      cases l with
      | true => rfl
      | false =>
        simp only [Bool.false_eq_true, if_false]
        rw [hpost a s s₁ b s₂ h hc hb]
        apply Result.bind_congr
        intro c s₃ hp
        exact ih (hstep a s s₁ b s₂ c s₃ h hc hb hp)
    · rw [if_neg hct, if_neg hct]

end

/-- The rule for two loops in step: related before each iteration by `A`, after the bodies by
`B`, they end related by `C`. -/
lemma loop_rel {S : σ → τ → Prop} {A B C : α → β → Prop} {cond : α → σ → Result η σ Bool}
    {body : α → σ → Result η σ (Bool × α)} {post : α → σ → Result η σ α}
    {cond' : β → τ → Result η τ Bool} {body' : β → τ → Result η τ (Bool × β)}
    {post' : β → τ → Result η τ β}
    (hcond : ∀ a b s t, A a b → S s t → Result.Rel S (· = ·) (cond a s) (cond' b t))
    (hexit : ∀ a b, A a b → C a b)
    (hbody : ∀ a b s t, A a b → S s t → Result.Rel S
      (fun r r' => r.1 = r'.1 ∧ if r.1 then C r.2 r'.2 else B r.2 r'.2) (body a s) (body' b t))
    (hpost : ∀ a b s t, B a b → S s t → Result.Rel S A (post a s) (post' b t)) (n : Nat) {b : β}
    {t : τ} (ha : A a b) (hs : S s t) :
    Result.Rel S C (loop cond body post n a s) (loop cond' body' post' n b t) := by
  induction n generalizing a b s t with
  | zero => exact .timeout
  | succ n ih =>
    rw [loop_succ, loop_succ]
    refine (hcond a b s t ha hs).bind ?_
    rintro c c' s₁ t₁ - - rfl hs₁
    by_cases hc : c = true
    · rw [if_pos hc, if_pos hc]
      refine (hbody a b s₁ t₁ ha hs₁).bind ?_
      rintro ⟨l, a₁⟩ ⟨l', b₁⟩ s₂ t₂ - - ⟨rfl, hr⟩ hs₂
      by_cases hl : l = true
      · simp only [hl, if_true] at hr ⊢
        exact .ok hr hs₂
      · simp only [hl] at hr ⊢
        exact (hpost a₁ b₁ s₂ t₂ hr hs₂).bind fun _ _ _ _ _ _ ha₂ hs₃ => ih ha₂ hs₃
    · rw [if_neg hc, if_neg hc]
      exact .ok (hexit a b ha) hs₁

end Semantics
