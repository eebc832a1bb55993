import Polc.Yul.AsmAnalysis.Properties
import Polc.Yul.Optimiser.ExpressionJoiner

/-!
# What the expression joiner joins

The declarations that a visited expression takes, as a relation, and what happens to the names and
references of the program.
-/

namespace Yul

open List

namespace ExpressionJoiner

section

variable (references : YulString → Nat)

mutual

/-- `e'` is `e` with values in place of variables; `joined` are the declarations of these, the
latest one first. -/
inductive Joins : Expression → Expression → List Statement → Prop where
  | refl (e : Expression) : Joins e e []
  | identifier {x t : YulString} {v : Expression} (hx : references x = 1) :
      Joins (.identifier x) v [.variableDeclaration [⟨x, t⟩] (some v)]
  | functionalInstruction {i : Sof.Instruction} {args args' : List Expression}
      {joined : List Statement} (h : ArgumentsJoin args args' joined) :
      Joins (.functionalInstruction i args) (.functionalInstruction i args') joined
  | functionCall {f : YulString} {args args' : List Expression} {joined : List Statement}
      (h : ArgumentsJoin args args' joined) :
      Joins (.functionCall f args) (.functionCall f args') joined

/-- Arguments are visited if there are only identifiers and literals behind them. -/
inductive ArgumentsJoin : List Expression → List Expression → List Statement → Prop where
  | nil : ArgumentsJoin [] [] []
  | visited {e e' : Expression} {es es' : List Expression} {joined joined' : List Statement}
      (hes : es.all isIdentifierOrLiteral = true) (h : Joins e e' joined)
      (h' : ArgumentsJoin es es' joined') : ArgumentsJoin (e :: es) (e' :: es') (joined ++ joined')
  | later {e : Expression} {es es' : List Expression} {joined : List Statement}
      (h : ArgumentsJoin es es' joined) : ArgumentsJoin (e :: es) (e :: es') joined

end

end

section

variable {references : YulString → Nat}

lemma joinableValue_eq_some {x : YulString} {before : List Statement} {v : Expression}
    (h : joinableValue references x before = some v) :
    ∃ t rest, before = .variableDeclaration [⟨x, t⟩] (some v) :: rest ∧ references x = 1 := by
  unfold joinableValue at h
  split at h
  · rename_i y e rest
    by_cases hy : y.name = x ∧ references x = 1
    · rw [if_pos hy] at h
      cases h
      obtain ⟨rfl, hone⟩ := hy
      exact ⟨y.type, rest, rfl, hone⟩
    · rw [if_neg hy] at h
      cases h
  · cases h

variable (references) in
mutual

lemma visit_joins (before : List Statement) (e : Expression) :
    ∃ joined, before = joined ++ (visit references before e).2 ∧
      Joins references e (visit references before e).1 joined := by
  match e with
  | .functionalInstruction i args =>
    obtain ⟨joined, hbefore, h⟩ := handleArguments_joins before args
    exact ⟨joined, hbefore, .functionalInstruction h⟩
  | .functionCall f args =>
    obtain ⟨joined, hbefore, h⟩ := handleArguments_joins before args
    exact ⟨joined, hbefore, .functionCall h⟩
  | .identifier x =>
    rw [visit]
    cases hvalue : joinableValue references x before with
    | none => exact ⟨[], rfl, .refl _⟩
    | some v =>
      obtain ⟨t, rest, rfl, hone⟩ := joinableValue_eq_some hvalue
      exact ⟨[.variableDeclaration [⟨x, t⟩] (some v)], rfl, .identifier hone⟩
  | .literal l => exact ⟨[], rfl, .refl _⟩

lemma handleArguments_joins (before : List Statement) (es : List Expression) :
    ∃ joined, before = joined ++ (handleArguments references before es).2 ∧
      ArgumentsJoin references es (handleArguments references before es).1 joined := by
  match es with
  | [] => exact ⟨[], rfl, .nil⟩
  | e :: es =>
    rw [handleArguments]
    by_cases hes : es.all isIdentifierOrLiteral = true
    · rw [if_pos hes]
      obtain ⟨joined, hbefore, h⟩ := visit_joins before e
      obtain ⟨joined', hbefore', h'⟩ := handleArguments_joins (visit references before e).2 es
      refine ⟨joined ++ joined', ?_, .visited hes h h'⟩
      rw [append_assoc, ← hbefore', ← hbefore]
    · rw [if_neg hes]
      obtain ⟨joined, hbefore, h⟩ := handleArguments_joins before es
      exact ⟨joined, hbefore, .later h⟩

end

mutual

lemma Joins.eq_of_nil {e e' : Expression} {joined : List Statement}
    (h : Joins references e e' joined) (hjoined : joined = []) : e' = e := by
  match h with
  | .refl e => rfl
  | .identifier hx => cases hjoined
  | .functionalInstruction h => rw [h.eq_of_nil hjoined]
  | .functionCall h => rw [h.eq_of_nil hjoined]

lemma ArgumentsJoin.eq_of_nil {es es' : List Expression} {joined : List Statement}
    (h : ArgumentsJoin references es es' joined) (hjoined : joined = []) : es' = es := by
  match h with
  | .nil => rfl
  | .visited _ h h' =>
    obtain ⟨hjoined, hjoined'⟩ := append_eq_nil_iff.mp hjoined
    rw [h.eq_of_nil hjoined, h'.eq_of_nil hjoined']
  | .later h => rw [h.eq_of_nil hjoined]

end

lemma ArgumentsJoin.eq_of_literals {args args' : List Expression} {joined : List Statement}
    (h : ArgumentsJoin references args args' joined)
    (hargs : ∀ e ∈ args, ∃ l, e = .literal l) : args' = args ∧ joined = [] := by
  induction args generalizing args' joined with
  | nil =>
    cases h
    exact ⟨rfl, rfl⟩
  | cons e es ih =>
    rw [forall_mem_cons] at hargs
    obtain ⟨⟨l, rfl⟩, hes⟩ := hargs
    cases h with
    | visited _ h h' =>
      cases h
      obtain ⟨rfl, rfl⟩ := ih h' hes
      exact ⟨rfl, rfl⟩
    | later h =>
      obtain ⟨rfl, rfl⟩ := ih h hes
      exact ⟨rfl, rfl⟩

lemma visit_nil (e : Expression) : visit references [] e = (e, []) := by
  obtain ⟨joined, hbefore, h⟩ := visit_joins references [] e
  obtain ⟨hjoined, hleft⟩ := append_eq_nil_iff.mp hbefore.symm
  exact Prod.ext (h.eq_of_nil hjoined) hleft

/-! ### References -/

lemma references_append (ss ts : List Statement) :
    referencesOfStatements (ss ++ ts) = referencesOfStatements ss ++ referencesOfStatements ts := by
  induction ss with
  | nil => rfl
  | cons s ss ih =>
    rw [cons_append, referencesOfStatements, referencesOfStatements, ih, append_assoc]

lemma mem_argumentsReferences {e : Expression} {es : List Expression} {x : YulString} (he : e ∈ es)
    (hx : x ∈ e.references) : x ∈ argumentsReferences es := by
  induction es with
  | nil => cases he
  | cons e' es ih =>
    rw [argumentsReferences, mem_append]
    rcases mem_cons.mp he with rfl | he
    · exact .inl hx
    · exact .inr (ih he)

lemma mem_references {ss : List Statement} {xs : List TypedName} {v : Expression}
    (hs : Statement.variableDeclaration xs (some v) ∈ ss) {x : YulString} (hx : x ∈ v.references) :
    x ∈ referencesOfStatements ss := by
  induction ss with
  | nil => cases hs
  | cons s ss ih =>
    rw [referencesOfStatements, mem_append]
    rcases mem_cons.mp hs with rfl | hs
    · exact .inl hx
    · exact .inr (ih hs)

mutual

lemma Joins.count {e e' : Expression} {joined : List Statement}
    (h : Joins references e e' joined) (x : YulString) :
    e'.references.count x + (joined.flatMap (·.declares)).count x =
      e.references.count x + (referencesOfStatements joined).count x := by
  match h with
  | .refl e => rfl
  | .identifier hx =>
    simp only [Expression.references, referencesOfStatements, Statement.references,
      Statement.declares, flatMap_singleton, map_cons, map_nil, append_nil]
    exact Nat.add_comm _ _
  | .functionalInstruction h => exact h.count x
  | .functionCall h =>
    simp only [Expression.references, count_cons]
    have := h.count x
    omega

lemma ArgumentsJoin.count {es es' : List Expression} {joined : List Statement}
    (h : ArgumentsJoin references es es' joined) (x : YulString) :
    (argumentsReferences es').count x + (joined.flatMap (·.declares)).count x =
      (argumentsReferences es).count x + (referencesOfStatements joined).count x := by
  match h with
  | .nil => rfl
  | .visited _ h h' =>
    have he := h.count x
    have hes := h'.count x
    simp only [argumentsReferences, flatMap_append, references_append,
      count_append]
    omega
  | .later h =>
    have hes := h.count x
    simp only [argumentsReferences, count_append]
    omega

end

mutual

lemma Joins.declared {e e' : Expression} {joined : List Statement}
    (h : Joins references e e' joined) :
    ∀ x ∈ joined.flatMap (·.declares), x ∈ e.references ∧ references x = 1 := by
  match h with
  | .refl e => exact fun x hx => (not_mem_nil hx).elim
  | .identifier hx =>
    intro y hy
    obtain rfl := mem_singleton.mp hy
    exact ⟨mem_cons_self, hx⟩
  | .functionalInstruction h => exact h.declared
  | .functionCall h =>
    exact fun x hx => ⟨mem_cons_of_mem _ (h.declared x hx).1, (h.declared x hx).2⟩

lemma ArgumentsJoin.declared {es es' : List Expression} {joined : List Statement}
    (h : ArgumentsJoin references es es' joined) :
    ∀ x ∈ joined.flatMap (·.declares), x ∈ argumentsReferences es ∧ references x = 1 := by
  match h with
  | .nil => exact fun x hx => (not_mem_nil hx).elim
  | .visited _ h h' =>
    intro x hx
    rw [argumentsReferences, mem_append]
    rw [flatMap_append, mem_append] at hx
    rcases hx with hx | hx
    · exact ⟨.inl (h.declared x hx).1, (h.declared x hx).2⟩
    · exact ⟨.inr (h'.declared x hx).1, (h'.declared x hx).2⟩
  | .later h =>
    intro x hx
    exact ⟨mem_append_right _ (h.declared x hx).1, (h.declared x hx).2⟩

end

/-- The joined variables have one reference in the code, also counting the joined values. -/
def JoinedOnce (joined : List Statement) (rest : List YulString) : Prop :=
  ∀ x ∈ joined.flatMap (·.declares), (rest ++ referencesOfStatements joined).count x ≤ 1

section

variable {e e' : Expression} {es es' : List Expression} {joined joined' : List Statement}

lemma JoinedOnce.not_mem {rest : List YulString} (h : JoinedOnce joined rest)
    (hrest : ∀ x ∈ joined.flatMap (·.declares), x ∈ rest) :
    ∀ x ∈ joined.flatMap (·.declares), x ∉ referencesOfStatements joined := by
  intro x hx
  have hone := h x hx
  have hpos := count_pos_iff.mpr (hrest x hx)
  rw [count_append] at hone
  rw [← count_eq_zero]
  omega

/-- For arguments of which the first one is visited: it does not refer to the variables that the
others join, and the other way around. -/
lemma JoinedOnce.visited
    (hone : JoinedOnce (joined ++ joined') (argumentsReferences (e :: es)))
    (h : Joins references e e' joined) (h' : ArgumentsJoin references es es' joined') :
    (JoinedOnce joined e.references ∧ JoinedOnce joined' (argumentsReferences es)) ∧
      (∀ x ∈ joined.flatMap (·.declares), x ∉ argumentsReferences es) ∧
      ∀ x ∈ joined'.flatMap (·.declares), x ∉ e.references ∧ x ∉ e'.references := by
  simp only [JoinedOnce, argumentsReferences, references_append, flatMap_append,
    mem_append, count_append] at hone
  refine ⟨⟨fun x hx => ?_, fun x hx => ?_⟩, fun x hx => ?_, fun x hx => ?_⟩
  · have := hone x (.inl hx)
    rw [count_append]
    omega
  · have := hone x (.inr hx)
    rw [count_append]
    omega
  · have hle := hone x (.inl hx)
    have hpos := count_pos_iff.mpr (h.declared x hx).1
    rw [← count_eq_zero]
    omega
  · have hle := hone x (.inr hx)
    have hpos := count_pos_iff.mpr (h'.declared x hx).1
    have hcount := h.count x
    rw [← count_eq_zero, ← count_eq_zero]
    omega

lemma JoinedOnce.later (hone : JoinedOnce joined (argumentsReferences (e :: es)))
    (h : ArgumentsJoin references es es' joined) :
    JoinedOnce joined (argumentsReferences es) ∧
      ∀ x ∈ joined.flatMap (·.declares), x ∉ e.references := by
  simp only [JoinedOnce, argumentsReferences, count_append] at hone
  refine ⟨fun x hx => ?_, fun x hx => ?_⟩
  · have := hone x hx
    rw [count_append]
    omega
  · have hle := hone x hx
    have hpos := count_pos_iff.mpr (h.declared x hx).1
    rw [← count_eq_zero]
    omega

lemma JoinedOnce.functionCall {f : YulString}
    (hone : JoinedOnce joined (Expression.functionCall f es).references) :
    JoinedOnce joined (argumentsReferences es) :=
  fun x hx => le_trans (List.Sublist.count_le x (sublist_cons_self _ _)) (hone x hx)

end

/-- The statement declares one variable with a value. -/
def IsDeclaration (s : Statement) : Prop :=
  ∃ x t v, s = .variableDeclaration [⟨x, t⟩] (some v)

mutual

lemma Joins.isDeclaration {e e' : Expression} {joined : List Statement}
    (h : Joins references e e' joined) : ∀ s ∈ joined, IsDeclaration s := by
  match h with
  | .refl e => exact fun s hs => (not_mem_nil hs).elim
  | .identifier hx =>
    intro s hs
    exact ⟨_, _, _, mem_singleton.mp hs⟩
  | .functionalInstruction h => exact h.isDeclaration
  | .functionCall h => exact h.isDeclaration

lemma ArgumentsJoin.isDeclaration {es es' : List Expression} {joined : List Statement}
    (h : ArgumentsJoin references es es' joined) : ∀ s ∈ joined, IsDeclaration s := by
  match h with
  | .nil => exact fun s hs => (not_mem_nil hs).elim
  | .visited _ h h' => exact forall_mem_append.mpr ⟨h.isDeclaration, h'.isDeclaration⟩
  | .later h => exact h.isDeclaration

end

lemma declarations_of_isDeclaration {ss : List Statement} (h : ∀ s ∈ ss, IsDeclaration s) :
    functionDefinitions ss = [] ∧ assignmentsOfStatements ss = [] ∧
      namesOfStatements ss = ss.flatMap (·.declares) ∧
      declarationsOfStatements ss = ss.flatMap (·.declares) := by
  induction ss with
  | nil => exact ⟨rfl, rfl, rfl, rfl⟩
  | cons s ss ih =>
    rw [forall_mem_cons] at h
    obtain ⟨⟨x, t, v, rfl⟩, hss⟩ := h
    obtain ⟨hfunctions, hassignments, hnames, hdeclarations⟩ := ih hss
    refine ⟨hfunctions, hassignments, ?_, ?_⟩
    · rw [namesOfStatements, hnames]
      rfl
    · rw [declarationsOfStatements, hdeclarations]
      rfl

/-! ### Statements -/

/-- The expression that is visited in front of the blocks of a statement. -/
def headExpression : Statement → Option Expression
  | .expressionStatement e | .assignment _ e | .variableDeclaration _ (some e) | .if e _
  | .switch e _ => some e
  | _ => none

/-- Put another expression in its place. -/
def setHeadExpression (e : Expression) : Statement → Statement
  | .expressionStatement _ => .expressionStatement e
  | .assignment xs _ => .assignment xs e
  | .variableDeclaration xs (some _) => .variableDeclaration xs (some e)
  | .if _ body => .if e body
  | .switch _ cs => .switch e cs
  | s => s

/-- A statement of which the blocks are visited joins declarations to its head expression. -/
inductive StatementJoins (references : YulString → Nat) :
    Statement → Statement → List Statement → Prop where
  | refl (s : Statement) : StatementJoins references s s []
  | head {s : Statement} {e e' : Expression} {joined : List Statement}
      (hs : headExpression s = some e) (h : Joins references e e' joined) :
      StatementJoins references s (setHeadExpression e' s) joined

section

variable {s s' : Statement} {joined : List Statement}

lemma count_headExpression {e : Expression} (hs : headExpression s = some e) (x : YulString) :
    e.references.count x ≤ s.references.count x := by
  cases s with
  | variableDeclaration xs value =>
    cases value with
    | none => cases hs
    | some v =>
      cases hs
      exact Nat.le_refl _
  | expressionStatement v | assignment xs v | «if» v body | «switch» v cs =>
    cases hs
    simp [Statement.references]
  | _ => cases hs

lemma StatementJoins.declared (h : StatementJoins references s s' joined) :
    ∀ x ∈ joined.flatMap (·.declares), x ∈ s.references ∧ references x = 1 := by
  cases h with
  | refl => exact fun x hx => (not_mem_nil hx).elim
  | head hs h =>
    intro x hx
    obtain ⟨hmem, hone⟩ := h.declared x hx
    have hle := count_headExpression hs x
    have hpos := count_pos_iff.mpr hmem
    exact ⟨count_pos_iff.mp (by omega), hone⟩

lemma StatementJoins.isDeclaration (h : StatementJoins references s s' joined) :
    ∀ s ∈ joined, IsDeclaration s := by
  cases h with
  | refl => exact fun s hs => (not_mem_nil hs).elim
  | head hs h => exact h.isDeclaration

lemma JoinedOnce.head {e e' : Expression} (hone : JoinedOnce joined s.references)
    (hs : headExpression s = some e) (h : Joins references e e' joined) :
    JoinedOnce joined e.references ∧ ∀ x ∈ joined.flatMap (·.declares),
      ∀ rest, s.references = e.references ++ rest → x ∉ rest := by
  refine ⟨fun x hx => ?_, fun x hx rest hrest => ?_⟩
  · have hle := hone x hx
    have hhead := count_headExpression hs x
    rw [count_append] at hle ⊢
    omega
  · have hle := hone x hx
    have hpos := count_pos_iff.mpr (h.declared x hx).1
    rw [count_append, hrest, count_append] at hle
    rw [← count_eq_zero]
    omega

end

variable (before left : List Statement) (s : Statement)

variable (references) in
lemma statement_joins :
    ∃ joined, before = joined ++ (statement references before s).2 ∧
      StatementJoins references (statement references [] s).1 (statement references before s).1
        joined := by
  cases s with
  | expressionStatement e =>
    obtain ⟨joined, hbefore, h⟩ := visit_joins references before e
    refine ⟨joined, hbefore, ?_⟩
    rw [statement, statement, visit_nil]
    exact .head rfl h
  | assignment xs e =>
    obtain ⟨joined, hbefore, h⟩ := visit_joins references before e
    refine ⟨joined, hbefore, ?_⟩
    rw [statement, statement, visit_nil]
    exact .head rfl h
  | variableDeclaration xs value =>
    cases value with
    | none => exact ⟨[], rfl, .refl _⟩
    | some e =>
      obtain ⟨joined, hbefore, h⟩ := visit_joins references before e
      refine ⟨joined, hbefore, ?_⟩
      rw [statement, statement, visitValue, visitValue, visit_nil]
      exact .head rfl h
  | «if» c body =>
    obtain ⟨joined, hbefore, h⟩ := visit_joins references before c
    refine ⟨joined, hbefore, ?_⟩
    rw [statement, statement, visit_nil]
    exact .head rfl h
  | «switch» e cs =>
    obtain ⟨joined, hbefore, h⟩ := visit_joins references before e
    refine ⟨joined, hbefore, ?_⟩
    rw [statement, statement, visit_nil]
    exact .head rfl h
  | _ => exact ⟨[], rfl, .refl _⟩

/-! ### Names and references of the result -/

section

variable (ss : Block)

lemma definitions_removeEmptyBlocks :
    functionDefinitions (removeEmptyBlocks ss) = functionDefinitions ss := by
  induction ss with
  | nil => rfl
  | cons s ss ih =>
    rw [removeEmptyBlocks, filter_cons]
    split
    · rw [definitions_cons, definitions_cons s ss, ← ih]
      rfl
    · rename_i hs
      rw [definitions_cons s ss, ← ih]
      simp only [Bool.not_eq_true, Bool.not_eq_false'] at hs
      cases s with
      | functionDefinition f ps rs body => cases hs
      | _ => rfl

lemma names_removeEmptyBlocks :
    namesOfStatements (removeEmptyBlocks ss) = namesOfStatements ss := by
  induction ss with
  | nil => rfl
  | cons s ss ih =>
    rw [removeEmptyBlocks, filter_cons]
    split
    · rw [namesOfStatements, namesOfStatements, ← ih]
      rfl
    · rename_i hs
      rw [namesOfStatements, ← ih]
      match s, hs with
      | .block [], _ => rfl

lemma references_removeEmptyBlocks :
    referencesOfStatements (removeEmptyBlocks ss) = referencesOfStatements ss := by
  induction ss with
  | nil => rfl
  | cons s ss ih =>
    rw [removeEmptyBlocks, filter_cons]
    split
    · rw [referencesOfStatements, referencesOfStatements, ← ih]
      rfl
    · rename_i hs
      rw [referencesOfStatements, ← ih]
      match s, hs with
      | .block [], _ => rfl

end

lemma reverse_advance :
    (advance before left s).reverse =
      left.reverse ++ (List.replicate (before.length - left.length) (.block []) ++ [s]) := by
  simp [advance]

lemma references_replicate (n : Nat) :
    referencesOfStatements (List.replicate n (.block [])) = [] := by
  induction n with
  | zero => rfl
  | succ n ih => exact ih

lemma names_replicate (n : Nat) :
    namesOfStatements (List.replicate n (.block [])) = [] := by
  induction n with
  | zero => rfl
  | succ n ih => exact ih

lemma references_advance :
    referencesOfStatements (advance before left s) =
      s.references ++ referencesOfStatements left := by
  rw [advance, referencesOfStatements, references_append,
    references_replicate, nil_append]

lemma names_reverse_advance :
    namesOfStatements (advance before left s).reverse =
      namesOfStatements left.reverse ++ s.names := by
  rw [reverse_advance, names_append, names_append,
    names_replicate, nil_append]
  simp [namesOfStatements]

lemma count_references_reverse (ss : List Statement) (x : YulString) :
    (referencesOfStatements ss.reverse).count x = (referencesOfStatements ss).count x := by
  induction ss with
  | nil => rfl
  | cons s ss ih =>
    rw [reverse_cons, references_append, count_append, ih,
      referencesOfStatements, count_append, Nat.add_comm]
    simp [referencesOfStatements]

variable (references) in
lemma count_visit (x : YulString) (before : List Statement) (e : Expression) :
    (visit references before e).1.references.count x +
        (referencesOfStatements (visit references before e).2).count x ≤
      e.references.count x + (referencesOfStatements before).count x := by
  obtain ⟨joined, hbefore, h⟩ := visit_joins references before e
  have hcount := h.count x
  have hsplit := congrArg (fun ss => (referencesOfStatements ss).count x) hbefore
  simp only [references_append, count_append] at hsplit
  omega

variable (references) in
mutual

lemma count_statement (x : YulString) (before : List Statement) (s : Statement) :
    (statement references before s).1.references.count x +
        (referencesOfStatements (statement references before s).2).count x ≤
      s.references.count x + (referencesOfStatements before).count x := by
  match s with
  | .expressionStatement e => exact count_visit references x before e
  | .assignment xs e =>
    have := count_visit references x before e
    simp only [statement, Statement.references, count_append]
    omega
  | .variableDeclaration xs none => exact Nat.le_refl _
  | .variableDeclaration xs (some e) => exact count_visit references x before e
  | .functionDefinition f ps rs body =>
    have := count_statements x [] body
    simp only [statement, Statement.references, references_removeEmptyBlocks]
    simp only [referencesOfStatements, count_nil] at this
    omega
  | .if c body =>
    have hc := count_visit references x before c
    have := count_statements x [] body
    simp only [statement, Statement.references, references_removeEmptyBlocks,
      count_append]
    simp only [referencesOfStatements, count_nil] at this
    omega
  | .switch e cs =>
    have he := count_visit references x before e
    have := count_cases x cs
    simp only [statement, Statement.references, count_append]
    omega
  | .forLoop pre c post body =>
    have hpre := count_statements x [] pre
    have hpost := count_statements x [] post
    have hbody := count_statements x [] body
    simp only [statement, Statement.references, references_removeEmptyBlocks,
      count_append, visit_nil]
    simp only [referencesOfStatements, count_nil] at hpre hpost hbody
    omega
  | .break | .continue => exact Nat.le_refl _
  | .block ss =>
    have := count_statements x [] ss
    simp only [statement, Statement.references, references_removeEmptyBlocks]
    simp only [referencesOfStatements, count_nil] at this
    omega

lemma count_statements (x : YulString) (before ss : List Statement) :
    (referencesOfStatements (statements references before ss)).count x ≤
      (referencesOfStatements before).count x + (referencesOfStatements ss).count x := by
  match ss with
  | [] =>
    rw [statements, count_references_reverse]
    exact Nat.le_add_right _ _
  | s :: ss =>
    have hs := count_statement x before s
    have hss := count_statements x (advance before (statement references before s).2
      (statement references before s).1) ss
    rw [references_advance, count_append] at hss
    rw [statements, referencesOfStatements, count_append]
    omega

lemma count_cases (x : YulString) (cs : List Case) :
    (referencesOfCases (cases references cs)).count x ≤ (referencesOfCases cs).count x := by
  match cs with
  | [] => exact Nat.le_refl _
  | .mk value body :: cs =>
    have hbody := count_statements x [] body
    have hcs := count_cases x cs
    simp only [cases, referencesOfCases, references_removeEmptyBlocks,
      count_append]
    simp only [referencesOfStatements, count_nil] at hbody
    omega

end

variable (references) in
lemma left_suffix : ∃ joined, before = joined ++ (statement references before s).2 :=
  (statement_joins references before s).imp fun _ h => h.1

mutual

lemma names_statement (before : List Statement) (s : Statement) :
    (statement references before s).1.names.Sublist s.names := by
  match s with
  | .functionDefinition f ps rs body =>
    have := names_statements [] body
    simp only [statement, Statement.names, names_removeEmptyBlocks]
    exact this.append_left _
  | .if c body =>
    simp only [statement, Statement.names, names_removeEmptyBlocks]
    exact names_statements [] body
  | .switch e cs => exact names_cases cs
  | .forLoop pre c post body =>
    simp only [statement, Statement.names, names_removeEmptyBlocks]
    exact ((names_statements [] pre).append (names_statements [] body)).append
      (names_statements [] post)
  | .block ss =>
    simp only [statement, Statement.names, names_removeEmptyBlocks]
    exact names_statements [] ss
  | .expressionStatement _ | .assignment _ _ | .variableDeclaration _ _ | .break | .continue =>
    exact List.Sublist.refl _

lemma names_statements (before ss : List Statement) :
    (namesOfStatements (statements references before ss)).Sublist
      (namesOfStatements before.reverse ++ namesOfStatements ss) := by
  match ss with
  | [] => exact sublist_append_left _ _
  | s :: ss =>
    refine (names_statements (advance before (statement references before s).2
      (statement references before s).1) ss).trans ?_
    obtain ⟨joined, hbefore⟩ := left_suffix references before s
    have hleft : (namesOfStatements (statement references before s).2.reverse).Sublist
        (namesOfStatements before.reverse) := by
      have hsplit := congrArg (fun ss => namesOfStatements ss.reverse) hbefore
      simp only [reverse_append, names_append] at hsplit
      rw [hsplit]
      exact sublist_append_left _ _
    rw [names_reverse_advance, namesOfStatements, append_assoc]
    exact hleft.append ((names_statement before s).append (List.Sublist.refl _))

lemma names_cases (cs : List Case) :
    (namesOfCases (cases references cs)).Sublist (namesOfCases cs) := by
  match cs with
  | [] => exact List.Sublist.refl _
  | .mk value body :: cs =>
    simp only [cases, namesOfCases, names_removeEmptyBlocks]
    exact (names_statements [] body).append (names_cases cs)

end

variable (references) in
lemma statement_declares : (statement references before s).1.declares = s.declares := by
  cases s <;> rfl

end

end ExpressionJoiner

end Yul
