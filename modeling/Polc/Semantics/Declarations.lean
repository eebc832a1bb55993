import Mathlib.Data.List.Count
import Mathlib.Data.List.Nodup

/-!
# Scripts that declare the names they use

A script is a list of commands, each of which declares and uses some names. In a well-scoped script
every name that is used is declared exactly once, before its first use.
-/

namespace Semantics

variable {C N : Type*}

section

variable (declares uses : C → List N)

/-- The names that a script declares, as often as it does. -/
def declared (script : List C) : List N := script.flatMap declares

/-- Every use of a name has a declaration before it, and no name that is used has another one. -/
def WellScoped [DecidableEq N] (script : List C) : Prop :=
  ∀ before c after, script = before ++ c :: after → ∀ x ∈ uses c,
    x ∈ declared declares before ∧ (declared declares script).count x = 1

/-- The names that a script uses are among the given ones or declared by it before. -/
def ScopedFrom : List N → List C → Prop
  | _, [] => True
  | known, c :: script => (∀ x ∈ uses c, x ∈ known) ∧ ScopedFrom (known ++ declares c) script

end

variable {declares uses : C → List N} {known known' : List N} {script rest : List C} {c : C}

@[simp] lemma declared_nil : declared declares [] = [] := rfl

@[simp] lemma declared_cons :
    declared declares (c :: script) = declares c ++ declared declares script := rfl

@[simp] lemma declared_append :
    declared declares (script ++ rest) = declared declares script ++ declared declares rest :=
  List.flatMap_append

@[simp] lemma scopedFrom_nil : ScopedFrom declares uses known [] := trivial

@[simp] lemma scopedFrom_cons : ScopedFrom declares uses known (c :: script) ↔
    (∀ x ∈ uses c, x ∈ known) ∧ ScopedFrom declares uses (known ++ declares c) script := Iff.rfl

lemma scopedFrom_append : ScopedFrom declares uses known (script ++ rest) ↔
    ScopedFrom declares uses known script ∧
      ScopedFrom declares uses (known ++ declared declares script) rest := by
  induction script generalizing known with
  | nil => simp
  | cons c script ih =>
    simp only [List.cons_append, scopedFrom_cons, ih, declared_cons, List.append_assoc, and_assoc]

/-- A script that declares no name twice is well-scoped if it uses names after their declaration. -/
theorem ScopedFrom.wellScoped [DecidableEq N] (h : ScopedFrom declares uses [] script)
    (hnodup : (declared declares script).Nodup) : WellScoped declares uses script := by
  rintro before c after rfl x hx
  obtain ⟨-, huses, -⟩ := scopedFrom_append.mp h
  have hmem : x ∈ declared declares before := by simpa using huses x hx
  exact ⟨hmem, List.count_eq_one_of_mem hnodup (by simp [hmem])⟩

end Semantics
