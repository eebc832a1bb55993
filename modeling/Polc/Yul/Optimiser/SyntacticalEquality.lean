import Polc.Yul.Utilities

/-!
# Syntactical equality of expressions

The part of `libyul/optimiser/SyntacticalEquality.cpp` that compares expressions. No names are
bound in an expression, so identifiers are equal if their names are.
-/

namespace Yul

/-- Number literals are compared by value, others by their text. -/
def Literal.syntacticallyEqual (l r : Literal) : Bool :=
  l.kind = r.kind && l.type = r.type &&
    if l.kind = .number then
      (valueOfNumberLiteral l.value).getD 0 = (valueOfNumberLiteral r.value).getD 0
    else l.value = r.value

mutual

def Expression.syntacticallyEqual : Expression → Expression → Bool
  | .functionalInstruction i args, .functionalInstruction i' args' =>
    i = i' && argumentsSyntacticallyEqual args args'
  | .functionCall f args, .functionCall f' args' =>
    f = f' && argumentsSyntacticallyEqual args args'
  | .identifier x, .identifier y => x = y
  | .literal l, .literal r => l.syntacticallyEqual r
  | _, _ => false

/-- `containerEqual` for arguments. -/
def argumentsSyntacticallyEqual : List Expression → List Expression → Bool
  | [], [] => true
  | e :: es, e' :: es' => e.syntacticallyEqual e' && argumentsSyntacticallyEqual es es'
  | _, _ => false

end

lemma Literal.word_eq_of_equal {l r : Literal}
    (h : l.syntacticallyEqual r) : l.word = r.word := by
  obtain ⟨kind, value, type⟩ := l
  obtain ⟨kind', value', type'⟩ := r
  simp only [syntacticallyEqual, Bool.and_eq_true, decide_eq_true_eq] at h
  obtain ⟨⟨rfl, -⟩, h⟩ := h
  split at h
  · rename_i hkind
    subst hkind
    simpa [word, valueOfLiteral] using h
  · rw [of_decide_eq_true h]
    rfl

end Yul
