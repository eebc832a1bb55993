import Mathlib.Data.Sum.Order

/-!
# Deterministic transition systems

A step leads to the next configuration or ends the run with an outcome. A simulation relates
configurations of two systems such that related ones advance together, the second one possibly
without a step while a measure on the first one decreases; then runs from related
configurations end in related outcomes, or none of them ends.
-/

namespace Semantics

universe u v

variable {C D : Type u} {O P : Type v}

/-- At most `n` steps. -/
def runFor (step : C → C ⊕ O) : Nat → C → C ⊕ O
  | 0, c => .inl c
  | n + 1, c =>
    match step c with
    | .inl d => runFor step n d
    | .inr o => .inr o

/-- The run from `c` ends with outcome `o`. -/
def Ends (step : C → C ⊕ O) (c : C) (o : O) : Prop := ∃ n, runFor step n c = .inr o

variable {step : C → C ⊕ O} {step' : D → D ⊕ P}

variable {c d : C}

lemma runFor_succ_of_step (h : step c = .inl d) (n : Nat) :
    runFor step (n + 1) c = runFor step n d := by
  rw [runFor, h]

variable {o : O}

lemma runFor_succ_of_end (h : step c = .inr o) (n : Nat) : runFor step (n + 1) c = .inr o := by
  rw [runFor, h]

variable {m : Nat}

lemma runFor_add (h : runFor step m c = .inl d) (n : Nat) :
    runFor step (m + n) c = runFor step n d := by
  induction m generalizing c with
  | zero =>
    cases h
    rw [Nat.zero_add]
  | succ m ih =>
    rw [Nat.succ_add]
    rcases hc : step c with c' | o
    · rw [runFor_succ_of_step hc] at h ⊢
      exact ih h
    · rw [runFor_succ_of_end hc] at h
      cases h

lemma runFor_add_of_end (h : runFor step m c = .inr o) (n : Nat) :
    runFor step (m + n) c = .inr o := by
  induction m generalizing c with
  | zero => cases h
  | succ m ih =>
    rw [Nat.succ_add]
    rcases hc : step c with c' | o'
    · rw [runFor_succ_of_step hc] at h ⊢
      exact ih h
    · rw [runFor_succ_of_end hc] at h ⊢
      exact h

lemma Ends.unique {o' : O} (h : Ends step c o) (h' : Ends step c o') : o = o' := by
  obtain ⟨m, hm⟩ := h
  obtain ⟨n, hn⟩ := h'
  have hm' := runFor_add_of_end hm n
  have hn' := runFor_add_of_end hn m
  rw [Nat.add_comm, hm'] at hn'
  exact Sum.inr.inj hn'

lemma runFor_rest {n : Nat} (hm : runFor step m c = .inl d) (hn : runFor step n c = .inr o) :
    ∃ k, n = m + k ∧ runFor step k d = .inr o := by
  rcases Nat.le_total m n with hle | hle
  · obtain ⟨k, rfl⟩ := Nat.exists_eq_add_of_le hle
    exact ⟨k, rfl, by rw [← runFor_add hm, hn]⟩
  · obtain ⟨k, rfl⟩ := Nat.exists_eq_add_of_le hle
    rw [runFor_add_of_end hn] at hm
    cases hm

lemma Ends.of_runFor (hm : runFor step m c = .inl d) (h : Ends step d o) : Ends step c o := by
  obtain ⟨n, hn⟩ := h
  exact ⟨m + n, by rw [runFor_add hm, hn]⟩

/-! ### Simulations -/

/-- From `c` and `d`, the runs end with related outcomes, or the first one ends badly, or both
go on to related configurations. -/
inductive Advances (step : C → C ⊕ O) (step' : D → D ⊕ P) (R : C → D → Prop) (Q : O → P → Prop)
    (bad : O → Prop) (μ : C → Nat) (c : C) (d : D) : Prop
  | ends (o : O) (p : P) (hc : Ends step c o) (hd : Ends step' d p) (h : Q o p)
  | bad (o : O) (hc : Ends step c o) (h : bad o)
  | steps (m n : Nat) (c' : C) (d' : D) (hm : 0 < m) (hc : runFor step m c = .inl c')
    (hd : runFor step' n d = .inl d') (hprogress : 0 < n ∨ μ c' < μ c) (h : R c' d')

variable {R : C → D → Prop} {Q : O → P → Prop} {bad : O → Prop} {μ : C → Nat}

lemma Advances.of_runFor {n : Nat} {c' : C} {d d' : D} (hc : runFor step m c = .inl c')
    (hd : runFor step' n d = .inl d') (hn : 0 < n) (h : Advances step step' R Q bad μ c' d') :
    Advances step step' R Q bad μ c d := by
  cases h with
  | ends o p ho hp hQ => exact .ends o p (ho.of_runFor hc) (hp.of_runFor hd) hQ
  | bad o ho hbad => exact .bad o (ho.of_runFor hc) hbad
  | steps k l c'' d'' hk hc' hd' _ hR =>
    exact .steps (m + k) (n + l) c'' d'' (Nat.add_pos_right m hk) (by rw [runFor_add hc, hc'])
      (by rw [runFor_add hd, hd']) (.inl (Nat.add_pos_left hn l)) hR

lemma Advances.of_liftRel {d : D} (h : Sum.LiftRel R Q (step c) (step' d)) :
    Advances step step' R Q bad μ c d := by
  rcases hc : step c with c' | o
  · rcases hd : step' d with d' | p
    · rw [hc, hd] at h
      cases h with
      | inl h =>
        exact .steps 1 1 c' d' Nat.one_pos (runFor_succ_of_step hc 0) (runFor_succ_of_step hd 0)
          (.inl Nat.one_pos) h
    · rw [hc, hd] at h
      cases h
  · rcases hd : step' d with d' | p
    · rw [hc, hd] at h
      cases h
    · rw [hc, hd] at h
      cases h with
      | inr h => exact .ends o p ⟨1, runFor_succ_of_end hc 0⟩ ⟨1, runFor_succ_of_end hd 0⟩ h

/-- Where the first run ends, the second one ends with a related outcome. -/
theorem ends_of_advances (hsim : ∀ c d, R c d → Advances step step' R Q bad μ c d) {d : D}
    (h : R c d) (hgood : ∀ o, Ends step c o → ¬ bad o) (hc : Ends step c o) :
    ∃ p, Ends step' d p ∧ Q o p := by
  obtain ⟨n, hn⟩ := hc
  induction n using Nat.strongRecOn generalizing c d with
  | ind n ih =>
    cases hsim c d h with
    | ends o' p hc hd hQ =>
      cases hc.unique ⟨n, hn⟩
      exact ⟨p, hd, hQ⟩
    | bad o' hc hbad => exact absurd hbad (hgood o' hc)
    | steps m k c' d' hm hc hd _ hR =>
      obtain ⟨l, rfl, hl⟩ := runFor_rest hc hn
      obtain ⟨p, hp, hQ⟩ := ih l (by omega) hR (fun o ho => hgood o (ho.of_runFor hc)) hl
      exact ⟨p, hp.of_runFor hd, hQ⟩

/-- Where the second run ends, the first one ends with a related outcome. -/
theorem ends_of_advances_symm (hsim : ∀ c d, R c d → Advances step step' R Q bad μ c d) {d : D}
    (h : R c d) (hgood : ∀ o, Ends step c o → ¬ bad o) {p : P} (hd : Ends step' d p) :
    ∃ o, Ends step c o ∧ Q o p := by
  obtain ⟨n, hn⟩ := hd
  -- lexicographic: the second run gets shorter, or it stays and the measure decreases
  induction n using Nat.strongRecOn generalizing c d with
  | ind n ihn =>
    induction hk : μ c using Nat.strongRecOn generalizing c d with
    | ind k ihk =>
      cases hsim c d h with
      | ends o p' hc hd hQ =>
        cases hd.unique ⟨n, hn⟩
        exact ⟨o, hc, hQ⟩
      | bad o hc hbad => exact absurd hbad (hgood o hc)
      | steps m j c' d' hm hc hd hprogress hR =>
        have hgood' : ∀ o, Ends step c' o → ¬ bad o := fun o ho => hgood o (ho.of_runFor hc)
        obtain ⟨l, rfl, hl⟩ := runFor_rest hd hn
        rcases Nat.eq_zero_or_pos j with rfl | hj
        · have hlt : μ c' < k := hk ▸ hprogress.resolve_left (Nat.lt_irrefl 0)
          rw [Nat.zero_add] at ihk ihn
          obtain ⟨o, ho, hQ⟩ := ihk _ hlt hR hgood' hl rfl
          exact ⟨o, ho.of_runFor hc, hQ⟩
        · obtain ⟨o, ho, hQ⟩ := ihn l (by omega) hR hgood' hl
          exact ⟨o, ho.of_runFor hc, hQ⟩

end Semantics
