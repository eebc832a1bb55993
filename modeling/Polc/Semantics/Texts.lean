import Mathlib.Data.Int.Order.Basic
import Mathlib.Data.List.Infix
import Mathlib.Data.List.Lemmas

/-!
# Texts that tell what they stand for

Two texts tell a property if it follows, together with the equality of the rests, from their being
equal when rests of some kind follow them. Such texts are put together from parts that tell the
parts of the property.
-/

namespace Semantics

open List

variable {χ : Type*}

/-- Followed by rests of the given kind, the texts are only equal if the property holds and the
rests are equal. -/
def Tells (S : List χ → Prop) (x y : List χ) (P : Prop) : Prop :=
  ∀ u v, S u → S v → x ++ u = y ++ v → P ∧ u = v

namespace Tells

variable {S S' : List χ → Prop} {x y z w : List χ} {P Q : Prop}

lemma mono (h : Tells S x y P) (hPQ : P → Q) : Tells S x y Q := by
  intro u v hu hv heq
  obtain ⟨hP, hrest⟩ := h u v hu hv heq
  exact ⟨hPQ hP, hrest⟩

lemma weaken (h : Tells S' x y P) (hS : ∀ u, S u → S' u) : Tells S x y P :=
  fun u v hu hv => h u v (hS u hu) (hS v hv)

lemma append (h : Tells S' x y P) (hz : ∀ u, S u → S' (z ++ u)) (hw : ∀ u, S u → S' (w ++ u))
    (h' : P → Tells S z w Q) : Tells S (x ++ z) (y ++ w) (P ∧ Q) := by
  intro u v hu hv heq
  rw [append_assoc, append_assoc] at heq
  obtain ⟨hP, hrest⟩ := h _ _ (hz u hu) (hw v hv) heq
  obtain ⟨hQ, huv⟩ := h' hP u v hu hv hrest
  exact ⟨⟨hP, hQ⟩, huv⟩

lemma append_of_all (h : Tells (fun _ => True) x y P) (h' : P → Tells S z w Q) :
    Tells S (x ++ z) (y ++ w) (P ∧ Q) :=
  h.append (fun _ _ => trivial) (fun _ _ => trivial) h'

lemma prepend (x : List χ) (h : Tells S z w P) : Tells S (x ++ z) (x ++ w) P := by
  intro u v hu hv heq
  rw [append_assoc, append_assoc, append_cancel_left_eq] at heq
  exact h u v hu hv heq

lemma refl (x : List χ) (hP : P) : Tells S x x P :=
  fun _ _ _ _ heq => ⟨hP, append_cancel_left heq⟩

lemma of_length_eq (h : x.length = y.length) : Tells S x y (x = y) :=
  fun _ _ _ _ heq => append_inj heq h

lemma of_notMem (p : χ → Prop) (hS : ∀ u, S u → ∀ c ∈ u.head?, p c) (hx : ∀ c ∈ x, ¬ p c)
    (hy : ∀ c ∈ y, ¬ p c) : Tells S x y (x = y) := by
  induction x generalizing y with
  | nil =>
    intro u v hu hv heq
    cases y with
    | nil => exact ⟨rfl, heq⟩
    | cons d y =>
      rw [nil_append] at heq
      exact absurd (hS u hu d (by rw [heq]; rfl)) (hy d (mem_cons_self ..))
  | cons c x ih =>
    intro u v hu hv heq
    cases y with
    | nil =>
      rw [nil_append] at heq
      exact absurd (hS v hv c (by rw [← heq]; rfl)) (hx c (mem_cons_self ..))
    | cons d y =>
      rw [cons_append, cons_append, List.cons.injEq] at heq
      obtain ⟨rfl, heq⟩ := heq
      obtain ⟨rfl, hrest⟩ := ih (fun c hc => hx c (mem_cons_of_mem _ hc))
        (fun c hc => hy c (mem_cons_of_mem _ hc)) u v hu hv heq
      exact ⟨rfl, hrest⟩

lemma of_not_prefix (h : ¬ x <+: y) (h' : ¬ y <+: x) : Tells S x y P := by
  intro u v _ _ heq
  rcases prefix_or_prefix_of_prefix (prefix_append x u)
    (heq ▸ prefix_append y v) with hprefix | hprefix
  · exact absurd hprefix h
  · exact absurd hprefix h'

lemma of_head_ne {c d : χ} (hx : x.head? = some c) (hy : y.head? = some d) (hcd : c ≠ d) :
    Tells S x y P := by
  intro u v _ _ heq
  have hheads := congrArg List.head? heq
  rw [head?_append, head?_append, hx, hy] at hheads
  exact absurd (Option.some.inj hheads) hcd

lemma of_prefixFree {α : Type*} (text : α → List χ) {a b : α}
    (h : text a <+: text b → a = b) (h' : text b <+: text a → b = a) :
    Tells S (text a) (text b) (a = b) := by
  by_cases hab : text a <+: text b
  · exact h hab ▸ refl _ rfl
  · by_cases hba : text b <+: text a
    · exact h' hba ▸ refl _ rfl
    · exact of_not_prefix hab hba

lemma optional {w : List χ} {c : χ} (hw : w.head? = some c) (hS : ∀ u, S u → c ∉ u.head?)
    (b b' : Bool) : Tells S (if b then w else []) (if b' then w else []) (b = b') := by
  have hne (u v : List χ) (hu : S u) : u ≠ w ++ v := by
    rintro rfl
    refine hS _ hu ?_
    rw [head?_append, hw]
    rfl
  cases b with
  | false =>
    cases b' with
    | false => exact refl _ rfl
    | true => exact fun u v hu _ heq => absurd heq (hne u v hu)
  | true =>
    cases b' with
    | false => exact fun u v _ hv heq => absurd heq.symm (hne v u hv)
    | true => exact refl _ rfl

end Tells

/-! ### Lists -/

/-- The texts with a separator between each two of them. -/
def join (separator : χ) : List (List χ) → List χ
  | [] => []
  | [x] => x
  | x :: xs => x ++ separator :: join separator xs

section

variable (separator close : χ) (xs : List (List χ)) (x y : List χ)

@[simp] lemma join_nil : join separator [] = [] := rfl

@[simp] lemma join_singleton : join separator [x] = x := rfl

lemma join_cons_cons : join separator (x :: y :: xs) = x ++ separator :: join separator (y :: xs) :=
  rfl

/-- What follows the first of several texts. -/
def tailText : List (List χ) → List χ
  | [] => [close]
  | y :: ys => separator :: (join separator (y :: ys) ++ [close])

lemma join_cons : join separator (x :: xs) ++ [close] = x ++ tailText separator close xs := by
  cases xs with
  | nil => rfl
  | cons y ys => rw [join_cons_cons, append_assoc, tailText, cons_append]

lemma head_tailText (u : List χ) :
    ∀ c ∈ (tailText separator close xs ++ u).head?, c = separator ∨ c = close := by
  cases xs with
  | nil =>
    rintro c ⟨⟩
    exact .inr rfl
  | cons y ys =>
    rintro c ⟨⟩
    exact .inl rfl

end

section

variable {α β : Type*} {separator close : χ} {text : α → List χ} {text' : β → List χ}
  {R : α → β → Prop} {S : List χ → Prop} {a : α} {b : β} {as : List α} {bs : List β}

lemma Tells.join_cons (hne : separator ≠ close)
    (h : ∀ x ∈ a :: as, ∀ y ∈ b :: bs,
      Tells (fun u => ∀ c ∈ u.head?, c = separator ∨ c = close) (text x) (text' y) (R x y)) :
    Tells S (join separator ((a :: as).map text) ++ [close])
      (join separator ((b :: bs).map text') ++ [close]) (List.Forall₂ R (a :: as) (b :: bs)) := by
  induction as generalizing a b bs with
  | nil =>
    intro u v hu hv heq
    simp only [map_cons, Semantics.join_cons, append_assoc] at heq
    obtain ⟨hR, hrest⟩ := h a (mem_cons_self ..) b (mem_cons_self ..) _ _
      (head_tailText separator close _ u) (head_tailText separator close _ v) heq
    cases bs with
    | nil => exact ⟨.cons hR .nil, List.cons_injective.eq_iff.mp hrest⟩
    | cons b' bs => exact absurd (List.cons.inj hrest).1 hne.symm
  | cons a' as ih =>
    intro u v hu hv heq
    simp only [map_cons, Semantics.join_cons, append_assoc] at heq
    obtain ⟨hR, hrest⟩ := h a (mem_cons_self ..) b (mem_cons_self ..) _ _
      (head_tailText separator close _ u) (head_tailText separator close _ v) heq
    cases bs with
    | nil => exact absurd (List.cons.inj hrest).1 hne
    | cons b' bs =>
      obtain ⟨hforall, huv⟩ := ih (fun x hx y hy => h x (mem_cons_of_mem _ hx) y
        (mem_cons_of_mem _ hy)) u v hu hv (List.cons.inj hrest).2
      exact ⟨.cons hR hforall, huv⟩

lemma join_ne_nil (hne : separator ≠ close) (ha : close ∉ (text a).head?)
    (has : (a :: as).map text ≠ [[]]) (u v : List χ) :
    join separator ((a :: as).map text) ++ [close] ++ u ≠ close :: v := by
  intro heq
  rw [map_cons, Semantics.join_cons, append_assoc] at heq
  cases htext : text a with
  | cons c cs =>
    rw [htext] at heq ha
    exact ha (congrArg some (List.cons.inj heq).1)
  | nil =>
    rw [htext] at heq
    cases as with
    | nil => exact has (by rw [map_cons, htext, map_nil])
    | cons a' as => exact hne (List.cons.inj heq).1

/-- Joined texts in brackets tell the lists, if the texts do and do not start with a bracket. A
list of one empty text cannot be told from the empty list. -/
lemma Tells.join (hne : separator ≠ close)
    (h : ∀ a ∈ as, ∀ b ∈ bs,
      Tells (fun u => ∀ c ∈ u.head?, c = separator ∨ c = close) (text a) (text' b) (R a b))
    (ha : ∀ a ∈ as, close ∉ (text a).head?) (hb : ∀ b ∈ bs, close ∉ (text' b).head?)
    (has : as.map text ≠ [[]]) (hbs : bs.map text' ≠ [[]]) :
    Tells S (Semantics.join separator (as.map text) ++ [close])
      (Semantics.join separator (bs.map text') ++ [close]) (List.Forall₂ R as bs) := by
  cases as with
  | nil =>
    cases bs with
    | nil => exact .refl _ .nil
    | cons b bs =>
      intro u v hu hv heq
      exact absurd heq.symm (join_ne_nil hne (hb b (mem_cons_self ..)) hbs v u)
  | cons a as =>
    cases bs with
    | nil =>
      intro u v hu hv heq
      exact absurd heq (join_ne_nil hne (ha a (mem_cons_self ..)) has u v)
    | cons b bs => exact .join_cons hne h

end

/-- Rests that do not start with a digit. -/
def NoDigit (u : List Char) : Prop := ∀ c ∈ u.head?, c.isDigit = false

lemma Tells.toDigits {m n : ℕ} : Tells NoDigit (Nat.toDigits 10 m) (Nat.toDigits 10 n) (m = n) := by
  have hdigits (k : ℕ) : ∀ c ∈ Nat.toDigits 10 k, ¬ c.isDigit = false := by
    intro c hc
    rw [Nat.isDigit_of_mem_toDigits (by decide) (by decide) hc]
    decide
  refine (Tells.of_notMem (fun c : Char => c.isDigit = false) (fun _ h => h) (hdigits m)
    (hdigits n)).mono ?_
  intro heq
  rw [← Nat.ofDigitChars_ten_toDigits (n := m), heq, Nat.ofDigitChars_ten_toDigits]

/-- Negative numbers have a minus sign in front. -/
def decimalText (i : ℤ) : List Char :=
  if i < 0 then '-' :: Nat.toDigits 10 i.natAbs else Nat.toDigits 10 i.natAbs

def readDigits (digits : List Char) : Option ℕ :=
  if digits ≠ [] ∧ digits.all Char.isDigit then some (Nat.ofDigitChars 10 digits 0) else none

def readDecimal : List Char → Option ℤ
  | '-' :: digits => (readDigits digits).map fun n : ℕ => -(n : ℤ)
  | digits => (readDigits digits).map fun n : ℕ => (n : ℤ)

lemma isDigit_of_mem_toDigits {n : ℕ} {c : Char} (h : c ∈ Nat.toDigits 10 n) : c.isDigit :=
  Nat.isDigit_of_mem_toDigits (by decide) (by decide) h

@[simp] lemma readDigits_toDigits (n : ℕ) : readDigits (Nat.toDigits 10 n) = some n := by
  have hdigits : (Nat.toDigits 10 n).all Char.isDigit = true := by
    rw [all_eq_true]
    intro c hc
    exact isDigit_of_mem_toDigits hc
  rw [readDigits, if_pos ⟨Nat.toDigits_ne_nil, hdigits⟩, Nat.ofDigitChars_ten_toDigits]

lemma readDecimal_decimalText (i : ℤ) : readDecimal (decimalText i) = some i := by
  rw [decimalText]
  split_ifs with hneg
  · rw [readDecimal, readDigits_toDigits, Option.map_some]
    congr 1
    omega
  · have hread : readDecimal (Nat.toDigits 10 i.natAbs) =
        (readDigits (Nat.toDigits 10 i.natAbs)).map fun n : ℕ => (n : ℤ) := by
      have hne : Nat.toDigits 10 i.natAbs ≠ [] := Nat.toDigits_ne_nil
      obtain ⟨c, cs, hcs⟩ := exists_cons_of_ne_nil hne
      have hc : c ≠ '-' := by
        rintro rfl
        exact absurd (isDigit_of_mem_toDigits (hcs ▸ mem_cons_self ..)) (by decide)
      rw [hcs]
      unfold readDecimal
      split
      · rename_i heq
        exact absurd (head_eq_of_cons_eq heq) hc
      · rfl
    rw [hread, readDigits_toDigits, Option.map_some]
    congr 1
    omega

lemma decimalText_ne_nil (i : ℤ) : decimalText i ≠ [] := by
  rw [decimalText]
  split_ifs
  · exact cons_ne_nil _ _
  · exact Nat.toDigits_ne_nil

lemma mem_decimalText {i : ℤ} {c : Char} (h : c ∈ decimalText i) : c = '-' ∨ c.isDigit := by
  rw [decimalText] at h
  split_ifs at h
  · rcases mem_cons.mp h with rfl | h
    · exact .inl rfl
    · exact .inr (isDigit_of_mem_toDigits h)
  · exact .inr (isDigit_of_mem_toDigits h)

end Semantics
