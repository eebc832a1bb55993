import Polc.Yul.Optimiser.SSATransform

/-!
# What the SSA transform does to names

The names that a transformed statement declares and assigns to, and which current values are known
behind it: those of variables that it does not assign to, and those it created itself.
-/

namespace Yul

open Sof Semantics List

namespace SSATransform

section

variable {T : SSATransform} {xs : List YulString}

@[simp] lemma erase_nil (T : SSATransform) : T.erase [] = T := by
  simp [erase]

@[simp] lemma nameDispenser_erase : (T.erase xs).nameDispenser = T.nameDispenser := rfl

lemma erase_eq_some {x y : YulString} :
    (T.erase xs).currentVariableValues x = some y ↔
      x ∉ xs ∧ T.currentVariableValues x = some y := by
  unfold erase
  by_cases hx : x ∈ xs <;> simp [hx]

/-- Make the new variables the current values of the old ones. -/
def setValues : List (YulString × YulString) → (YulString → Option YulString) →
    YulString → Option YulString
  | [], M => M
  | p :: pairs, M => setValues pairs fun x => if x = p.1 then some p.2 else M x

/-- What new variables are: new names, different from each other, which become the values. -/
structure NewVariables (T : SSATransform) (xs : List YulString)
    (r : List (YulString × YulString) × SSATransform) : Prop where
  dialect : r.2.nameDispenser.dialect = T.nameDispenser.dialect
  used : T.nameDispenser.usedNames ⊆ r.2.nameDispenser.usedNames
  old : r.1.map (·.1) = xs
  fresh : ∀ p ∈ r.1, T.nameDispenser.Fresh p.2 ∧ p.2 ∈ r.2.nameDispenser.usedNames
  nodup : (r.1.map (·.2)).Nodup
  values : r.2.currentVariableValues = setValues r.1 T.currentVariableValues

lemma newVariables_spec (T : SSATransform) (xs : List YulString) :
    T.NewVariables xs (T.newVariables xs) := by
  induction xs generalizing T with
  | nil => exact ⟨rfl, List.Subset.refl _, rfl, nofun, nodup_nil, rfl⟩
  | cons x xs ih =>
    have hnew := T.nameDispenser.fresh_newName x
    have hrest := ih (T.newVariable x).2
    have hmono {y : YulString} (h : (T.newVariable x).2.nameDispenser.Fresh y) :
        T.nameDispenser.Fresh y :=
      ⟨fun hy => h.notUsed (mem_cons_of_mem _ hy), h.notBuiltin, h.notEmpty,
        h.notInstruction⟩
    refine ⟨hrest.dialect, ?_, ?_, ?_, ?_, hrest.values⟩
    · exact List.Subset.trans (subset_cons_self _ _) hrest.used
    · exact congrArg (x :: ·) hrest.old
    · intro p hp
      rcases mem_cons.mp hp with rfl | hp
      · exact ⟨hnew, hrest.used mem_cons_self⟩
      · exact ⟨hmono (hrest.fresh p hp).1, (hrest.fresh p hp).2⟩
    · refine nodup_cons.mpr ⟨fun hmem => ?_, hrest.nodup⟩
      obtain ⟨p, hp, heq⟩ := mem_map.mp hmem
      exact (hrest.fresh p hp).1.notUsed (heq ▸ mem_cons_self)

lemma setValues_eq_some {pairs : List (YulString × YulString)} {M : YulString → Option YulString}
    {x y : YulString} (h : setValues pairs M x = some y) :
    (x ∉ pairs.map (·.1) ∧ M x = some y) ∨ (x, y) ∈ pairs := by
  induction pairs generalizing M with
  | nil => exact .inl ⟨not_mem_nil, h⟩
  | cons p pairs ih =>
    rcases ih h with ⟨hx, hM⟩ | hmem
    · by_cases hp : x = p.1
      · rw [if_pos hp] at hM
        cases hM
        exact .inr (mem_cons.mpr (.inl (Prod.ext hp rfl)))
      · rw [if_neg hp] at hM
        exact .inl ⟨fun hmem => (mem_cons.mp hmem).elim hp hx, hM⟩
    · exact .inr (mem_cons_of_mem _ hmem)

end

/-! ### Steps -/

/-- From `T` to `T'`, over code that assigns to `assigned` and declares `declared` and becomes code
that assigns to `assigned'` and declares `declared'`; `cleared` is still to be cleared. -/
structure Step (T T' : SSATransform) (assigned declared cleared assigned' declared' : List YulString) :
    Prop where
  dialect : T'.nameDispenser.dialect = T.nameDispenser.dialect
  used : T.nameDispenser.usedNames ⊆ T'.nameDispenser.usedNames
  value : ∀ x y, T'.currentVariableValues x = some y →
    (T.currentVariableValues x = some y ∧ x ∉ assigned) ∨
      x ∈ cleared ∧ y ∉ T.nameDispenser.usedNames ∧ y ∈ T'.nameDispenser.usedNames
  assigned : assigned' ⊆ assigned
  declared : ∀ x ∈ declared', x ∈ declared ∨
    x ∉ T.nameDispenser.usedNames ∧ x ∈ T'.nameDispenser.usedNames

namespace Step

variable {T T' T'' : SSATransform}
  {assigned declared cleared assigned' declared' : List YulString}
  {assigned₁ declared₁ cleared₁ assigned₁' declared₁' : List YulString}

lemma refl (T : SSATransform) (declared : List YulString) : Step T T [] declared [] [] declared :=
  ⟨rfl, List.Subset.refl _, fun _ _ h => .inl ⟨h, not_mem_nil⟩, List.Subset.refl _,
    fun _ h => .inl h⟩

lemma append (h : Step T T' assigned declared cleared assigned' declared')
    (h' : Step T' T'' assigned₁ declared₁ cleared₁ assigned₁' declared₁') :
    Step T T'' (assigned ++ assigned₁) (declared ++ declared₁) (cleared ++ cleared₁)
      (assigned' ++ assigned₁') (declared' ++ declared₁') where
  dialect := h'.dialect.trans h.dialect
  used := List.Subset.trans h.used h'.used
  value x y hx := by
    rw [mem_append, mem_append, not_or]
    rcases h'.value x y hx with ⟨hx₁, hassigned₁⟩ | ⟨hcleared, hnew, hused⟩
    · rcases h.value x y hx₁ with ⟨hx₀, hassigned⟩ | ⟨hcleared, hnew, hused⟩
      · exact .inl ⟨hx₀, hassigned, hassigned₁⟩
      · exact .inr ⟨.inl hcleared, hnew, h'.used hused⟩
    · exact .inr ⟨.inr hcleared, fun hy => hnew (h.used hy), hused⟩
  assigned := append_subset.mpr
    ⟨subset_append_of_subset_left _ h.assigned,
      subset_append_of_subset_right _ h'.assigned⟩
  declared x hx := by
    rw [mem_append]
    rcases mem_append.mp hx with hx | hx
    · rcases h.declared x hx with hx | ⟨hnew, hused⟩
      · exact .inl (.inl hx)
      · exact .inr ⟨hnew, h'.used hused⟩
    · rcases h'.declared x hx with hx | ⟨hnew, hused⟩
      · exact .inl (.inr hx)
      · exact .inr ⟨fun hy => hnew (h.used hy), hused⟩

lemma close (h : Step T T' assigned declared cleared assigned' declared') :
    Step T (T'.erase cleared) assigned declared [] assigned' declared' where
  dialect := h.dialect
  used := h.used
  value x y hx := by
    obtain ⟨hcleared, hx⟩ := erase_eq_some.mp hx
    exact .inl ((h.value x y hx).resolve_right fun hc => hcleared hc.1)
  assigned := h.assigned
  declared := h.declared

lemma erase (h : Step T T' assigned declared cleared assigned' declared') (xs : List YulString) :
    Step T (T'.erase xs) assigned declared cleared assigned' declared' where
  dialect := h.dialect
  used := h.used
  value x y hx := h.value x y (erase_eq_some.mp hx).2
  assigned := h.assigned
  declared := h.declared

lemma mono (h : Step T T' assigned declared cleared assigned' declared')
    (hdeclared : declared ⊆ declared₁) (hassigned' : assigned₁' ⊆ assigned')
    (hdeclared' : declared₁' ⊆ declared') :
    Step T T' assigned declared₁ cleared assigned₁' declared₁' where
  dialect := h.dialect
  used := h.used
  value := h.value
  assigned := List.Subset.trans hassigned' h.assigned
  declared x hx := (h.declared x (hdeclared' hx)).imp_left (@hdeclared x)

end Step

section

variable {T : SSATransform} {variablesToReplace : List YulString}

lemma names_copies (pairs : List (YulString × YulString)) :
    assignmentsOfStatements (declareCopies pairs) = [] ∧
      declarationsOfStatements (declareCopies pairs) = pairs.map (·.1) ∧
      assignmentsOfStatements (assignCopies pairs) = pairs.map (·.1) ∧
      declarationsOfStatements (assignCopies pairs) = [] := by
  induction pairs with
  | nil => exact ⟨rfl, rfl, rfl, rfl⟩
  | cons p pairs ih =>
    obtain ⟨h₁, h₂, h₃, h₄⟩ := ih
    exact ⟨h₁, congrArg (p.1 :: ·) h₂, congrArg (p.1 :: ·) h₃, h₄⟩

lemma declarations_declareNew (pairs : List (YulString × YulString)) (value : Option Expression) :
    (declareNew pairs value).declarations = pairs.map (·.2) := by
  simp [declareNew]

lemma step_newVariables (T : SSATransform) (xs declared assigned' declared' : List YulString)
    (hassigned : assigned' ⊆ xs) (hdeclared : ∀ x ∈ declared', x ∈ declared ∨
      x ∈ (T.newVariables xs).1.map (·.2)) :
    Step T (T.newVariables xs).2 xs declared xs assigned' declared' := by
  have hnew := T.newVariables_spec xs
  refine ⟨hnew.dialect, hnew.used, fun x y hx => ?_, hassigned, fun x hx => ?_⟩
  · rw [hnew.values] at hx
    rcases setValues_eq_some hx with ⟨hmem, hx⟩ | hmem
    · rw [hnew.old] at hmem
      exact .inl ⟨hx, hmem⟩
    · have hfresh := hnew.fresh _ hmem
      refine .inr ⟨?_, hfresh.1.notUsed, hfresh.2⟩
      rw [← hnew.old]
      exact mem_map_of_mem hmem
  · refine (hdeclared x hx).imp_right fun hx => ?_
    obtain ⟨p, hp, rfl⟩ := mem_map.mp hx
    exact ⟨(hnew.fresh p hp).1.notUsed, (hnew.fresh p hp).2⟩

variable (variablesToReplace)

mutual

lemma statement_step (s : Statement) (T : SSATransform) :
    Step T (statement variablesToReplace T s).2.1 s.assignments s.declarations
      (statement variablesToReplace T s).2.2
      (assignmentsOfStatements (statement variablesToReplace T s).1)
      (declarationsOfStatements (statement variablesToReplace T s).1) := by
  match s with
  | .expressionStatement _ | .break | .continue => exact .refl T []
  | .variableDeclaration xs value =>
    rw [statement]
    split
    · have hnames := names_copies (T.newVariables (xs.map (·.name))).1
      have hstep := step_newVariables T (xs.map (·.name)) (xs.map (·.name)) []
        ((T.newVariables (xs.map (·.name))).1.map (·.2) ++ xs.map (·.name)) (nil_subset _)
        fun x hx => (mem_append.mp hx).symm
      refine ⟨hstep.dialect, hstep.used, fun x y hx => ?_, ?_, fun x hx => hstep.declared x ?_⟩
      · exact (hstep.value x y hx).imp_left fun h => ⟨h.1, not_mem_nil⟩
      · rw [assignmentsOfStatements, hnames.1]
        exact List.Subset.refl _
      · rw [declarationsOfStatements, hnames.2.1, declarations_declareNew,
          (T.newVariables_spec _).old] at hx
        exact hx
    · exact (Step.refl T (xs.map (·.name))).mono (List.Subset.refl _) (List.Subset.refl _)
        (by simp)
  | .assignment xs e =>
    have hnames := names_copies (T.newVariables xs).1
    refine step_newVariables T xs [] _ _ ?_ fun x hx => .inr ?_
    · rw [statement, assignmentsOfStatements, hnames.2.2.1, (T.newVariables_spec xs).old]
      exact List.Subset.refl _
    · rw [statement, declarationsOfStatements, hnames.2.2.2, declarations_declareNew,
        append_nil] at hx
      exact hx
  | .functionDefinition f ps rs body =>
    have h := (statements_step body T).close
    refine ⟨h.dialect, h.used, h.value, ?_, nofun⟩
    rw [statement, assignmentsOfStatements, assignmentsOfStatements, append_nil]
    exact h.assigned
  | .if c body =>
    rw [statement, assignmentsOfStatements, assignmentsOfStatements, append_nil,
      declarationsOfStatements, declarationsOfStatements, append_nil]
    exact (statements_step body T).close
  | .switch e cs =>
    rw [statement, assignmentsOfStatements, assignmentsOfStatements, append_nil,
      declarationsOfStatements, declarationsOfStatements, append_nil]
    exact cases_step cs T
  | .forLoop pre c post body =>
    have hpre := (statements_step pre T).close.erase
      (assignmentsOfStatements body ++ assignmentsOfStatements post)
    have h := (hpre.append (statements_step body _).close).append (statements_step post _).close
    rw [statement, assignmentsOfStatements, assignmentsOfStatements, append_nil,
      declarationsOfStatements, declarationsOfStatements, append_nil,
      Statement.assignments, Statement.declarations, Statement.assignments, Statement.declarations]
    exact h
  | .block ss =>
    rw [statement, assignmentsOfStatements, assignmentsOfStatements, append_nil,
      declarationsOfStatements, declarationsOfStatements, append_nil]
    exact (statements_step ss T).close

lemma statements_step (ss : List Statement) (T : SSATransform) :
    Step T (statements variablesToReplace T ss).2.1 (assignmentsOfStatements ss)
      (declarationsOfStatements ss) (statements variablesToReplace T ss).2.2
      (assignmentsOfStatements (statements variablesToReplace T ss).1)
      (declarationsOfStatements (statements variablesToReplace T ss).1) := by
  match ss with
  | [] => exact .refl T []
  | s :: ss =>
    rw [statements, assignments_append, declarations_append,
      assignmentsOfStatements, declarationsOfStatements]
    exact (statement_step s T).append (statements_step ss _)

lemma cases_step (cs : List Case) (T : SSATransform) :
    Step T (cases variablesToReplace T cs).2 (assignmentsOfCases cs) (declarationsOfCases cs) []
      (assignmentsOfCases (cases variablesToReplace T cs).1)
      (declarationsOfCases (cases variablesToReplace T cs).1) := by
  match cs with
  | [] => exact .refl T []
  | .mk value body :: cs => exact (statements_step body T).close.append (cases_step cs _)

end

/-! ### Names -/

open NameDispenser

lemma renewed_newVariables (T : SSATransform) (xs declared : List YulString) :
    Renewed T.nameDispenser (T.newVariables xs).2.nameDispenser declared
      ((T.newVariables xs).1.map (·.2) ++ declared) := by
  have hnew := T.newVariables_spec xs
  have hfresh : ∀ x ∈ (T.newVariables xs).1.map (·.2), x ∉ T.nameDispenser.usedNames ∧
      x ∈ (T.newVariables xs).2.nameDispenser.usedNames := by
    intro x hx
    obtain ⟨p, hp, rfl⟩ := mem_map.mp hx
    exact ⟨(hnew.fresh p hp).1.notUsed, (hnew.fresh p hp).2⟩
  refine ⟨hnew.used, subset_append_right _ _, fun x hx => ?_, fun hold hnodup => ?_⟩
  · exact (mem_append.mp hx).symm.imp_right (hfresh x)
  · exact nodup_append'.mpr ⟨hnew.nodup, hnodup, fun x hx hx' => (hfresh x hx).1 (hold hx')⟩

lemma namesOf_copies (pairs : List (YulString × YulString)) :
    namesOfStatements (declareCopies pairs) = pairs.map (·.1) ∧
      namesOfStatements (assignCopies pairs) = [] := by
  induction pairs with
  | nil => exact ⟨rfl, rfl⟩
  | cons p pairs ih => exact ⟨congrArg (p.1 :: ·) ih.1, ih.2⟩

lemma names_declareNew (pairs : List (YulString × YulString)) (value : Option Expression) :
    (declareNew pairs value).names = pairs.map (·.2) := by
  simp [declareNew, Statement.names]

mutual

lemma statement_renewed (s : Statement) (T : SSATransform) :
    Renewed T.nameDispenser (statement variablesToReplace T s).2.1.nameDispenser s.names
      (namesOfStatements (statement variablesToReplace T s).1) := by
  match s with
  | .expressionStatement _ | .break | .continue => exact .refl _ _
  | .variableDeclaration xs value =>
    rw [statement, Statement.names]
    split
    · rw [namesOfStatements, names_declareNew, (namesOf_copies _).1, (T.newVariables_spec _).old]
      exact renewed_newVariables T _ _
    · rw [names_singleton]
      exact .refl _ _
  | .assignment xs e =>
    rw [statement, namesOfStatements, names_declareNew, (namesOf_copies _).2]
    exact renewed_newVariables T xs []
  | .functionDefinition f ps rs body =>
    rw [statement, names_singleton, Statement.names, Statement.names]
    exact (statements_renewed body T).append_left _
  | .if c body =>
    rw [statement, names_singleton]
    exact statements_renewed body T
  | .switch e cs =>
    rw [statement, names_singleton]
    exact cases_renewed cs T
  | .forLoop pre c post body =>
    rw [statement, names_singleton, Statement.names, Statement.names]
    let T₁ := (closeBlock (statements variablesToReplace T pre)).erase
      (assignmentsOfStatements body ++ assignmentsOfStatements post)
    have hbody := (statements_renewed pre T).append (statements_renewed body T₁)
    exact hbody.append (statements_renewed post (closeBlock (statements variablesToReplace T₁ body)))
  | .block ss =>
    rw [statement, names_singleton]
    exact statements_renewed ss T

lemma statements_renewed (ss : List Statement) (T : SSATransform) :
    Renewed T.nameDispenser (statements variablesToReplace T ss).2.1.nameDispenser
      (namesOfStatements ss) (namesOfStatements (statements variablesToReplace T ss).1) := by
  match ss with
  | [] => exact .refl _ _
  | s :: ss =>
    rw [statements, names_append, namesOfStatements]
    exact (statement_renewed s T).append (statements_renewed ss _)

lemma cases_renewed (cs : List Case) (T : SSATransform) :
    Renewed T.nameDispenser (cases variablesToReplace T cs).2.nameDispenser (namesOfCases cs)
      (namesOfCases (cases variablesToReplace T cs).1) := by
  match cs with
  | [] => exact .refl _ _
  | .mk value body :: cs =>
    exact (statements_renewed body T).append
      (cases_renewed cs (closeBlock (statements variablesToReplace T body)))

end

end

end SSATransform

end Yul
