import Polc.Semantics.LastMaximum
import Mathlib.Data.List.Infix
import Mathlib.Data.Prod.Lex

/-!
# Remappings of import paths

`CompilerStack::applyRemapping` of `libpolynomial/interface/CompilerStack.cpp`. How paths are
brought into their generic form is a parameter.
-/

namespace Polynomial

open Semantics List

abbrev SourcePath := List Char

/-- `CompilerStack::Remapping` -/
structure Remapping where
  context : SourcePath
  importPrefix : SourcePath
  target : SourcePath
  deriving DecidableEq, Repr

namespace CompilerStack

variable (sanitizePath : SourcePath → SourcePath)

/-- What the pass over the remappings keeps. -/
structure BestMatch where
  longestPrefix : ℕ
  longestContext : ℕ
  bestMatchTarget : SourcePath
  deriving DecidableEq, Repr

def tryRemapping (path context : SourcePath) (best : BestMatch) (redir : Remapping) : BestMatch :=
  let redirContext := sanitizePath redir.context
  let redirPrefix := sanitizePath redir.importPrefix
  if redirContext.length < best.longestContext then best
  else if ¬ redirContext <+: context then best
  else if redirPrefix.length < best.longestPrefix ∧ redirContext.length = best.longestContext then
    best
  else if ¬ redirPrefix <+: path then best
  else ⟨redirPrefix.length, redirContext.length, sanitizePath redir.target⟩

def applyRemapping (remappings : List Remapping) (path context : SourcePath) : SourcePath :=
  let best := remappings.foldl (tryRemapping sanitizePath path context) ⟨0, 0, []⟩
  best.bestMatchTarget ++ path.drop best.longestPrefix

/-! ### The best match -/

/-- The remapping is active in the context and matches the path. -/
def Applies (path context : SourcePath) (redir : Remapping) : Prop :=
  sanitizePath redir.context <+: context ∧ sanitizePath redir.importPrefix <+: path

instance (path context : SourcePath) : DecidablePred (Applies sanitizePath path context) :=
  fun _ => inferInstanceAs (Decidable (_ ∧ _))

/-- Longer contexts come first, then longer prefixes. -/
def closeness (redir : Remapping) : ℕ ×ₗ ℕ :=
  toLex ((sanitizePath redir.context).length, (sanitizePath redir.importPrefix).length)

def IsBestMatch (remappings : List Remapping) (path context : SourcePath) (redir : Remapping) :
    Prop :=
  IsLastMaximum (Applies sanitizePath path context) (closeness sanitizePath) remappings redir

def toBestMatch : Option Remapping → BestMatch
  | none => ⟨0, 0, []⟩
  | some redir => ⟨(sanitizePath redir.importPrefix).length, (sanitizePath redir.context).length,
      sanitizePath redir.target⟩

lemma closeness_le_iff (best : Option Remapping) (redir : Remapping) :
    (∀ b ∈ best, closeness sanitizePath b ≤ closeness sanitizePath redir) ↔
      ¬ (sanitizePath redir.context).length < (toBestMatch sanitizePath best).longestContext ∧
      ¬ ((sanitizePath redir.importPrefix).length < (toBestMatch sanitizePath best).longestPrefix ∧
        (sanitizePath redir.context).length = (toBestMatch sanitizePath best).longestContext) := by
  cases best with
  | none => exact iff_of_true nofun ⟨Nat.not_lt_zero _, fun h => Nat.not_lt_zero _ h.1⟩
  | some b =>
    simp only [Option.mem_def, Option.some.injEq, forall_eq', closeness, Prod.Lex.toLex_le_toLex,
      toBestMatch]
    omega

lemma tryRemapping_toBestMatch (path context : SourcePath) (best : Option Remapping)
    (redir : Remapping) :
    tryRemapping sanitizePath path context (toBestMatch sanitizePath best) redir =
      toBestMatch sanitizePath (betterOf (Applies sanitizePath path context)
        (closeness sanitizePath) best redir) := by
  simp only [tryRemapping, betterOf, closeness_le_iff, Applies]
  split_ifs with hcontext hactive hprefix hmatch
  all_goals first | rfl | tauto

lemma foldl_tryRemapping (remappings : List Remapping) (path context : SourcePath) :
    remappings.foldl (tryRemapping sanitizePath path context) ⟨0, 0, []⟩ =
      toBestMatch sanitizePath (lastMaximum (Applies sanitizePath path context)
        (closeness sanitizePath) remappings) := by
  induction remappings using List.reverseRecOn with
  | nil => rfl
  | append_singleton remappings redir ih =>
    rw [lastMaximum, foldl_append, foldl_append, ih]
    exact tryRemapping_toBestMatch sanitizePath path context _ redir

/-- The best match is replaced, if there is one, and without a match the path is unchanged. -/
theorem applyRemapping_isBestMatch (remappings : List Remapping) (path context : SourcePath) :
    (∀ redir rest, IsBestMatch sanitizePath remappings path context redir →
      path = sanitizePath redir.importPrefix ++ rest →
      applyRemapping sanitizePath remappings path context = sanitizePath redir.target ++ rest) ∧
    ((∃ redir ∈ remappings, Applies sanitizePath path context redir) →
      ∃ redir, IsBestMatch sanitizePath remappings path context redir) ∧
    ((∀ redir ∈ remappings, ¬ Applies sanitizePath path context redir) →
      applyRemapping sanitizePath remappings path context = path) := by
  obtain ⟨hsome, hnone⟩ := isLastMaximum_lastMaximum (Applies sanitizePath path context)
    (closeness sanitizePath) remappings
  refine ⟨?_, ?_, ?_⟩
  · rintro redir rest hbest rfl
    rw [applyRemapping, foldl_tryRemapping, hbest.eq_lastMaximum, toBestMatch, drop_left]
  · rintro ⟨redir, hmem, happlies⟩
    cases hbest : lastMaximum (Applies sanitizePath path context) (closeness sanitizePath)
        remappings with
    | none => exact absurd happlies (hnone hbest redir hmem)
    | some best => exact ⟨best, hsome best hbest⟩
  · intro hall
    cases hbest : lastMaximum (Applies sanitizePath path context) (closeness sanitizePath)
        remappings with
    | none =>
      rw [applyRemapping, foldl_tryRemapping, hbest, toBestMatch, nil_append, drop_zero]
    | some best =>
      obtain ⟨before, after, rfl, happlies, -, -⟩ := hsome best hbest
      exact absurd happlies (hall best (mem_append_right _ (mem_cons_self ..)))

end CompilerStack

end Polynomial
