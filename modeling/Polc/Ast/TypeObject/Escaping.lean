import Polc.Ast.TypeObject
import Mathlib.Data.List.Chain

/-!
# Escaped identifiers

The escaping of brackets, commas and dollar signs can be undone where no bracket opens behind an
underscore or a dollar sign, and where neither of them nor an opening bracket follows a closing
bracket or a comma.
-/

namespace Polynomial

namespace TypeObject

/-- What holds of the characters of a text is decided along the text, not for every character. -/
scoped instance (priority := 2000) decidableForallText (s : Text) (p : Char → Prop)
    [DecidablePred p] : Decidable (∀ c ∈ s, p c) :=
  List.decidableBAll p s

scoped instance (priority := 2000) decidableForallHead (o : Option Char) (p : Char → Prop)
    [DecidablePred p] : Decidable (∀ c ∈ o, p c) :=
  Option.decidableForallMem o

def escapeChar (c : Char) : Text :=
  if c = '$' then ['$', '$', '$']
  else if c = ',' then ['_', '$', '_']
  else if c = '(' then ['$', '_']
  else if c = ')' then ['_', '$']
  else [c]

lemma replaceAll_append (s t : Text) (c : Char) (replacement : Text) :
    replaceAll (s ++ t) c replacement = replaceAll s c replacement ++ replaceAll t c replacement :=
  List.flatMap_append

lemma escapeIdentifier_eq (s : Text) : escapeIdentifier s = s.flatMap escapeChar := by
  induction s with
  | nil => rfl
  | cons c s ih =>
    have hsplit : escapeIdentifier (c :: s) = escapeIdentifier [c] ++ escapeIdentifier s := by
      simp only [escapeIdentifier, ← replaceAll_append, List.singleton_append]
    rw [hsplit, ih, List.flatMap_cons]
    congr 1
    by_cases hdollar : c = '$'
    · subst hdollar
      rfl
    by_cases hcomma : c = ','
    · subst hcomma
      rfl
    by_cases hopening : c = '('
    · subst hopening
      rfl
    by_cases hclosing : c = ')'
    · subst hclosing
      rfl
    simp [escapeIdentifier, replaceAll, escapeChar, hdollar, hcomma, hopening, hclosing]

/-! ### Unescaping -/

/-- The character that is followed by the other one does not make its escaping ambiguous. -/
def MayPrecede (c d : Char) : Prop :=
  (d = '(' → c ≠ '_' ∧ c ≠ '$') ∧ ((c = ')' ∨ c = ',') → d ≠ '_' ∧ d ≠ '$' ∧ d ≠ '(')

instance : DecidableRel MayPrecede := fun _ _ => inferInstanceAs (Decidable (_ ∧ _))

def unescape : Text → Text
  | '$' :: '$' :: '$' :: s => '$' :: unescape s
  | '$' :: '_' :: s => '(' :: unescape s
  | '_' :: '$' :: '_' :: '$' :: s => ')' :: unescape ('_' :: '$' :: s)
  | '_' :: '$' :: '$' :: s => '_' :: unescape ('$' :: '$' :: s)
  | '_' :: '$' :: '_' :: s => ',' :: unescape s
  | '_' :: '$' :: s => ')' :: unescape s
  | c :: s => c :: unescape s
  | [] => []
termination_by s => s.length

section

attribute [local simp] unescape

variable {c : Char} {s : Text}

lemma unescape_other (hdollar : c ≠ '$') (hunderscore : c ≠ '_') :
    unescape (c :: s) = c :: unescape s := by
  rw [unescape] <;> simp_all

lemma unescape_underscore (h : s.head? ≠ some '$') : unescape ('_' :: s) = '_' :: unescape s := by
  cases s <;> (rw [unescape] <;> simp_all)

lemma unescape_closing (hunderscore : s.head? ≠ some '_') (hdollar : s.head? ≠ some '$') :
    unescape ('_' :: '$' :: s) = ')' :: unescape s := by
  cases s <;> (rw [unescape] <;> simp_all)

lemma unescape_comma (h : s.head? ≠ some '$') :
    unescape ('_' :: '$' :: '_' :: s) = ',' :: unescape s := by
  cases s <;> (rw [unescape]; simp_all)

end

lemma flatMap_escapeChar_cases (s : Text) :
    (s = [] ∧ s.flatMap escapeChar = []) ∨
    (s.head? = some '$' ∧ ∃ t, s.flatMap escapeChar = '$' :: '$' :: '$' :: t) ∨
    (s.head? = some ',' ∧ ∃ t, s.flatMap escapeChar = '_' :: '$' :: '_' :: t) ∨
    (s.head? = some '(' ∧ ∃ t, s.flatMap escapeChar = '$' :: '_' :: t) ∨
    (s.head? = some ')' ∧ ∃ t, s.flatMap escapeChar = '_' :: '$' :: t) ∨
    ∃ c t, s.head? = some c ∧ c ≠ '$' ∧ s.flatMap escapeChar = c :: t := by
  cases s with
  | nil => exact .inl ⟨rfl, rfl⟩
  | cons c s =>
    rw [List.flatMap_cons, escapeChar]
    split_ifs with hdollar hcomma hopening hclosing
    · exact .inr (.inl ⟨congrArg some hdollar, _, rfl⟩)
    · exact .inr (.inr (.inl ⟨congrArg some hcomma, _, rfl⟩))
    · exact .inr (.inr (.inr (.inl ⟨congrArg some hopening, _, rfl⟩)))
    · exact .inr (.inr (.inr (.inr (.inl ⟨congrArg some hclosing, _, rfl⟩))))
    · exact .inr (.inr (.inr (.inr (.inr ⟨c, _, rfl, hdollar, rfl⟩))))

lemma unescape_escapeChar_comma (s : Text) (h : ∀ d ∈ s.head?, MayPrecede ',' d) :
    unescape ('_' :: '$' :: '_' :: s.flatMap escapeChar) =
      ',' :: unescape (s.flatMap escapeChar) := by
  apply unescape_comma
  rcases flatMap_escapeChar_cases s with ⟨-, ht⟩ | ⟨hs, t, ht⟩ | ⟨-, t, ht⟩ | ⟨hs, t, ht⟩ |
    ⟨-, t, ht⟩ | ⟨d, t, -, hd, ht⟩
  · simp [ht]
  · exact absurd rfl ((h _ hs).2 (.inr rfl)).2.1
  · simp [ht]
  · exact absurd rfl ((h _ hs).2 (.inr rfl)).2.2
  · simp [ht]
  · simpa [ht] using hd

lemma unescape_escapeChar_closing (s : Text) (h : ∀ d ∈ s.head?, MayPrecede ')' d) :
    unescape ('_' :: '$' :: s.flatMap escapeChar) = ')' :: unescape (s.flatMap escapeChar) := by
  rcases flatMap_escapeChar_cases s with ⟨-, ht⟩ | ⟨hs, t, ht⟩ | ⟨-, t, ht⟩ | ⟨hs, t, ht⟩ |
    ⟨-, t, ht⟩ | ⟨d, t, hs, hd, ht⟩
  · exact unescape_closing (by simp [ht]) (by simp [ht])
  · exact absurd rfl ((h _ hs).2 (.inl rfl)).2.1
  · rw [ht, unescape]
  · exact absurd rfl ((h _ hs).2 (.inl rfl)).2.2
  · rw [ht, unescape]
  · refine unescape_closing ?_ (by simpa [ht] using hd)
    simpa [ht] using ((h _ hs).2 (.inl rfl)).1

lemma unescape_escapeChar_underscore (s : Text) (h : ∀ d ∈ s.head?, MayPrecede '_' d) :
    unescape ('_' :: s.flatMap escapeChar) = '_' :: unescape (s.flatMap escapeChar) := by
  rcases flatMap_escapeChar_cases s with ⟨-, ht⟩ | ⟨hs, t, ht⟩ | ⟨-, t, ht⟩ | ⟨hs, t, ht⟩ |
    ⟨-, t, ht⟩ | ⟨d, t, -, hd, ht⟩
  · exact unescape_underscore (by simp [ht])
  · rw [ht, unescape, unescape, unescape]
  · exact unescape_underscore (by simp [ht])
  · exact absurd rfl ((h _ hs).1 rfl).1
  · exact unescape_underscore (by simp [ht])
  · exact unescape_underscore (by simpa [ht] using hd)

lemma unescape_escapeChar (c : Char) (s : Text) (h : ∀ d ∈ s.head?, MayPrecede c d) :
    unescape (escapeChar c ++ s.flatMap escapeChar) = c :: unescape (s.flatMap escapeChar) := by
  rw [escapeChar]
  split_ifs with hdollar hcomma hopening hclosing
  · rw [hdollar, List.cons_append, List.cons_append, List.cons_append, unescape]
    rfl
  · subst hcomma
    exact unescape_escapeChar_comma s h
  · rw [hopening, List.cons_append, List.cons_append, unescape]
    rfl
  · subst hclosing
    exact unescape_escapeChar_closing s h
  · by_cases hunderscore : c = '_'
    · subst hunderscore
      exact unescape_escapeChar_underscore s h
    · exact unescape_other hdollar hunderscore

theorem unescape_escapeIdentifier {s : Text} (h : List.IsChain MayPrecede s) :
    unescape (escapeIdentifier s) = s := by
  rw [escapeIdentifier_eq]
  induction s with
  | nil => rw [List.flatMap_nil, unescape]
  | cons c s ih =>
    obtain ⟨hhead, htail⟩ := List.isChain_cons.mp h
    rw [List.flatMap_cons, unescape_escapeChar c s hhead, ih htail]

end TypeObject

end Polynomial
