import Polc.Analysis.ViewPureChecker.Executions

/-!
# What the check of state mutability guarantees

A run of a function that is declared view does not modify the state, and a run of a function that is
declared pure does not read it either, as long as its steps are regular: no state variable is
accessed through the name of a contract, no storage object is copied as a whole in a pure function,
the modifiers are the ones that the check has seen, and values of function types keep their types.
-/

namespace Polynomial

open Ast CompilerContext Semantics Behaviour Sof List

variable {T : Type*} {p : Program T} {m : StateMutability}

/-! ### Regular and permitted steps -/

/-- The state mutability allows the effect. -/
def StateMutability.Permits (m : StateMutability) : Effect → Prop
  | .reads => m ≠ .pure
  | .modifies => .nonPayable ≤ m

instance (m : StateMutability) (e : Effect) : Decidable (m.Permits e) :=
  match e with
  | .reads => inferInstanceAs (Decidable (m ≠ .pure))
  | .modifies => inferInstanceAs (Decidable (.nonPayable ≤ m))

namespace Step

def Permitted (m : StateMutability) (s : Step T) : Prop := ∀ e, s.effect = some e → m.Permits e

/-- The step is one that the check of a function with the state mutability has seen. -/
def Regular (p : Program T) (m : StateMutability) : Step T → Prop
  | operation _ => True
  | qualifiedAccess e => m.Permits e
  | storageCopy => m ≠ .pure
  | modifier referenced resolved =>
    (resolved = referenced ∧ ViewPureChecker.inferredMutability p referenced ≠ .payable) ∨
      ∀ r ∈ ViewPureChecker.statement p (p.modifierBody resolved.id),
        ViewPureChecker.Acceptable m r
  | valueCall type f => ViewPureChecker.callMutability f.stateMutability ≤ type

end Step

namespace ViewPureChecker

/-- The code only takes permitted steps as long as its steps are regular. -/
abbrev Safe (p : Program T) (m : StateMutability) (A : Behaviour (Step T)) : Prop :=
  Respects (Step.Regular p m) (Step.Permitted m) A

lemma permits_reads (h : Acceptable m .view) : m.Permits .reads := by
  rcases h with h | ⟨h, -⟩
  · rintro rfl
    exact absurd h (by decide)
  · cases h

lemma permits_reads_of_payable (h : Acceptable m .payable) : m.Permits .reads := by
  rcases h with h | ⟨-, h⟩
  · rintro rfl
    exact absurd h (by decide)
  · exact h

lemma permits_modifies (h : Acceptable m .nonPayable) : m.Permits .modifies :=
  h.le (by decide)

variable {writes : Bool}

lemma permits_reads_of_access (h : Acceptable m (accessMutability writes)) : m.Permits .reads := by
  cases writes
  · exact permits_reads h
  · rintro rfl
    exact absurd (permits_modifies h) (by decide)

lemma safe_operations {es : List Effect} (h : ∀ e ∈ es, m.Permits e) :
    Safe p m (Execution.operations es) := by
  refine Respects.events fun s hs _ e he => ?_
  obtain ⟨e', he', rfl⟩ := mem_map.mp hs
  cases he
  exact h _ he'

lemma safe_access {e : Effect} {ps : List Execution.Place}
    (h : Execution.Place.direct ∈ ps → m.Permits e) : Safe p m (Execution.access e ps) := by
  refine Respects.events fun s hs hregular e' he' => ?_
  obtain ⟨place, hplace, rfl⟩ := mem_map.mp hs
  cases place <;> cases he'
  · exact h hplace
  · exact hregular

lemma safe_convert (s t : ExpressionType) : Safe p m (Execution.convert s t) := by
  unfold Execution.convert
  split
  · refine Respects.event fun hregular e he => ?_
    cases he
    exact hregular
  · exact Respects.done

lemma safe_conversions (es : Operands) : Safe p m (Execution.conversions es) := by
  match es with
  | .nil => exact Respects.done
  | .missing rest => exact safe_conversions rest
  | .cons e t rest => exact (safe_convert _ _).andThen (safe_conversions rest)

/-! ### Inline assembly -/

lemma permits_instruction {i : Instruction}
    (h : ∀ r ∈ AssemblyViewPureChecker.checkInstruction i, Acceptable m r) :
    ∀ e ∈ Execution.instructionEffects i, m.Permits e := by
  have hmodifies (hi : SemanticInformation.invalidInViewFunctions i = true) :
      m.Permits .modifies :=
    permits_modifies (h _ (by rw [AssemblyViewPureChecker.checkInstruction, if_pos hi]; simp))
  have hreads (hi : SemanticInformation.invalidInViewFunctions i = false)
      (hi' : SemanticInformation.invalidInPureFunctions i = true) : m.Permits .reads :=
    permits_reads (h _ (by
      rw [AssemblyViewPureChecker.checkInstruction, hi, if_neg Bool.false_ne_true, if_pos hi']
      simp))
  intro e he
  unfold Execution.instructionEffects at he
  split at he <;>
    first
      | exact mem_singleton.mp he ▸ hmodifies rfl
      | exact mem_singleton.mp he ▸ hreads rfl rfl
      | cases he

variable (dialect : Yul.Dialect) {i : Instruction} {r : StateMutability}

mutual

lemma mem_expression (hr : r ∈ AssemblyViewPureChecker.checkInstruction i) (e : Yul.Expression)
    (hi : i ∈ Execution.assemblyExpression dialect e) :
    r ∈ AssemblyViewPureChecker.expression dialect e := by
  match e with
  | .functionalInstruction j es =>
    rcases mem_cons.mp hi with rfl | hi
    · exact mem_append_left _ hr
    · exact mem_append_right _ (mem_expressions hr es hi)
  | .functionCall f es =>
    rcases mem_append.mp hi with hi | hi
    · refine mem_append_left _ ?_
      rw [Option.mem_toList.mp hi]
      exact hr
    · exact mem_append_right _ (mem_expressions hr es hi)
  | .identifier _ | .literal _ => cases hi

lemma mem_expressions (hr : r ∈ AssemblyViewPureChecker.checkInstruction i)
    (es : List Yul.Expression) (hi : i ∈ Execution.assemblyExpressions dialect es) :
    r ∈ AssemblyViewPureChecker.expressions dialect es := by
  match es with
  | [] => cases hi
  | e :: es =>
    rcases mem_append.mp hi with hi | hi
    · exact mem_append_left _ (mem_expression hr e hi)
    · exact mem_append_right _ (mem_expressions hr es hi)

end

mutual

lemma mem_statement (hr : r ∈ AssemblyViewPureChecker.checkInstruction i) (s : Yul.Statement)
    (hi : i ∈ Execution.assemblyStatement dialect s) :
    r ∈ AssemblyViewPureChecker.statement dialect s := by
  match s with
  | .expressionStatement e | .assignment _ e | .variableDeclaration _ (some e) =>
    exact mem_expression dialect hr e hi
  | .variableDeclaration _ none | .break | .continue => cases hi
  | .functionDefinition _ _ _ body => exact mem_block hr body hi
  | .if c body =>
    rcases mem_append.mp hi with hi | hi
    · exact mem_append_left _ (mem_expression dialect hr c hi)
    · exact mem_append_right _ (mem_block hr body hi)
  | .switch e cs =>
    rcases mem_append.mp hi with hi | hi
    · exact mem_append_left _ (mem_expression dialect hr e hi)
    · exact mem_append_right _ (mem_cases hr cs hi)
  | .forLoop pre c post body =>
    simp only [Execution.assemblyStatement, AssemblyViewPureChecker.statement,
      mem_append] at hi ⊢
    rcases hi with ((hi | hi) | hi) | hi
    · exact .inl (.inl (.inl (mem_block hr pre hi)))
    · exact .inl (.inl (.inr (mem_expression dialect hr c hi)))
    · exact .inr (mem_block hr post hi)
    · exact .inl (.inr (mem_block hr body hi))
  | .block ss => exact mem_block hr ss hi

lemma mem_block (hr : r ∈ AssemblyViewPureChecker.checkInstruction i) (ss : Yul.Block)
    (hi : i ∈ Execution.assemblyBlock dialect ss) :
    r ∈ AssemblyViewPureChecker.block dialect ss := by
  match ss with
  | [] => cases hi
  | s :: ss =>
    rcases mem_append.mp hi with hi | hi
    · exact mem_append_left _ (mem_statement hr s hi)
    · exact mem_append_right _ (mem_block hr ss hi)

lemma mem_cases (hr : r ∈ AssemblyViewPureChecker.checkInstruction i) (cs : List Yul.Case)
    (hi : i ∈ Execution.assemblyCases dialect cs) :
    r ∈ AssemblyViewPureChecker.cases dialect cs := by
  match cs with
  | [] => cases hi
  | .mk _ body :: cs =>
    rcases mem_append.mp hi with hi | hi
    · exact mem_append_left _ (mem_block hr body hi)
    · exact mem_append_right _ (mem_cases hr cs hi)

end

lemma safe_inlineAssembly {code : Yul.Block}
    (h : ∀ r ∈ AssemblyViewPureChecker.block dialect code, Acceptable m r) :
    Safe p m (Execution.inlineAssembly dialect code) := by
  refine (Respects.any fun i => ?_).repeated.andThen (Respects.done.orElse (.leave _))
  exact safe_operations (permits_instruction fun r hr => h r (mem_block dialect hr code i.2))

/-! ### Expressions -/

lemma accessMutability_of_memberPlace {t : ExpressionType} {member : String}
    {declaration : Option Declaration}
    (h : Execution.Place.direct ∈ (Execution.memberPlace t member declaration).toList) :
    memberMutability writes t member = accessMutability writes := by
  have hplace := Option.mem_toList.mp h
  unfold Execution.memberPlace at hplace
  split at hplace
  · split at hplace <;> cases hplace
  · rfl
  · split at hplace
    · exact if_pos ‹_›
    · cases hplace
  · cases hplace

mutual

lemma acceptable_of_places (lv : Bool) (e : Ast.Expression)
    (h : ∀ r ∈ expression p lv e, Acceptable m r)
    (hplace : Execution.Place.direct ∈ Execution.places e) :
    Acceptable m (accessMutability lv) := by
  match e with
  | .identifier _ _ d =>
    rw [Execution.places] at hplace
    split at hplace
    · rename_i hd
      cases d with
      | «variable» isStateVariable isConstant =>
        have hstored : (isStateVariable && !isConstant) = true := hd
        refine h _ ?_
        rw [expression, identifierMutability, if_pos hstored]
        exact mem_singleton_self _
      | magicVariable _ => cases hd
      | other => cases hd
    · cases hplace
  | .tuple _ _ components =>
    rw [expression] at h
    exact acceptable_of_placesOfOperands lv components h hplace
  | .memberAccess _ e member d =>
    rw [expression] at h
    refine h _ (mem_append_right _ ?_)
    rw [accessMutability_of_memberPlace hplace]
    exact mem_singleton_self _
  | .indexAccess _ base _ _ =>
    rw [Execution.places] at hplace
    rw [expression] at h
    split at hplace
    · rename_i hbase
      refine h _ (mem_append_right _ ?_)
      rw [if_pos hbase]
      exact mem_singleton_self _
    · cases hplace
  | .literal _ | .newExpression _ | .elementaryTypeName _ | .unaryOperation _ _ _
  | .binaryOperation _ _ _ _ | .conditional _ _ _ _ | .assignment _ _ _ _ _
  | .functionCall _ _ _ _ | .boundMember _ _ _ _ | .arrayTypeName _ _ => cases hplace

lemma acceptable_of_placesOfOperands (lv : Bool) (es : Operands)
    (h : ∀ r ∈ operands p lv es, Acceptable m r)
    (hplace : Execution.Place.direct ∈ Execution.placesOfOperands es) :
    Acceptable m (accessMutability lv) := by
  match es with
  | .nil => cases hplace
  | .missing rest => exact acceptable_of_placesOfOperands lv rest h hplace
  | .cons e _ rest =>
    rw [operands, forall_mem_append] at h
    rcases mem_append.mp hplace with hplace | hplace
    · exact acceptable_of_places lv e h.1 hplace
    · exact acceptable_of_placesOfOperands lv rest h.2 hplace

end

variable {e : Ast.Expression}

lemma safe_retrieve {lv : Bool} (t : ExpressionType) (h : ∀ r ∈ expression p lv e, Acceptable m r) :
    Safe p m (Execution.retrieve lv t (Execution.places e)) := by
  unfold Execution.retrieve
  split
  · exact Respects.done
  · exact safe_access fun hplace => permits_reads_of_access (acceptable_of_places lv e h hplace)

/-- The places of an expression that is evaluated as an lvalue may be read and written. -/
lemma safe_access_of_lValue (h : ∀ r ∈ expression p true e, Acceptable m r) (effect : Effect) :
    Safe p m (Execution.access effect (Execution.places e)) := by
  refine safe_access fun hplace => ?_
  have hacceptable := acceptable_of_places true e h hplace
  cases effect with
  | reads => exact permits_reads_of_access hacceptable
  | modifies => exact permits_modifies hacceptable

lemma safe_modification {op : Ast.UnaryOperator}
    (h : ∀ r ∈ expression p op.isModifying e, Acceptable m r) :
    Safe p m (Execution.modification (Execution.places e) op) := by
  cases op with
  | inc | dec => exact (safe_access_of_lValue h .reads).andThen (safe_access_of_lValue h .modifies)
  | delete => exact safe_access_of_lValue h .modifies
  | not | bitNot | add | sub => exact Respects.done

lemma permits_declaration {d : Declaration} (h : Acceptable m (identifierMutability writes d)) :
    ∀ e ∈ Execution.declarationEffects d, m.Permits e := by
  intro e he
  unfold Execution.declarationEffects at he
  split at he
  · exact mem_singleton.mp he ▸ permits_reads h
  · exact mem_singleton.mp he ▸ permits_reads h
  · cases he

lemma permits_member {t : ExpressionType} {member : String}
    (h : Acceptable m (memberMutability writes t member)) :
    ∀ e ∈ Execution.memberEffects t member, m.Permits e := by
  intro e he
  unfold Execution.memberEffects at he
  split at he
  · split_ifs at he with hmember
    · rw [memberMutability, if_pos hmember] at h
      exact mem_singleton.mp he ▸ permits_reads h
    · cases he
  · rename_i kind
    split_ifs at he with hmember
    · refine mem_singleton.mp he ▸ ?_
      have hpure : (kind, member) ∉ pureMembers := by
        intro hmem
        have hnames : ∀ x ∈ pureMembers, x.2 ∉ Execution.environmentMembers := by decide
        exact hnames _ hmem hmember
      rw [memberMutability, if_neg hpure] at h
      split_ifs at h with hpayable
      · exact permits_reads_of_payable h
      · exact permits_reads h
    · cases he
  · cases he

lemma permits_builtin {b : BuiltinFunction}
    (h : Acceptable m (callMutability b.stateMutability)) :
    ∀ e ∈ Execution.builtinEffects b, m.Permits e := by
  intro e he
  have hmodifies (hb : callMutability b.stateMutability = .nonPayable) : m.Permits .modifies :=
    permits_modifies (hb ▸ h)
  have hreads (hb : callMutability b.stateMutability = .view) : m.Permits .reads :=
    permits_reads (hb ▸ h)
  have hcreation (isPayable : Bool) :
      callMutability (BuiltinFunction.creation isPayable).stateMutability = .nonPayable := by
    cases isPayable <;> rfl
  unfold Execution.builtinEffects at he
  split at he <;>
    first
      | exact mem_singleton.mp he ▸ hmodifies rfl
      | exact mem_singleton.mp he ▸ hmodifies (hcreation _)
      | exact mem_singleton.mp he ▸ hreads rfl
      | cases he

lemma permits_external {type : StateMutability} (h : Acceptable m (callMutability type)) :
    ∀ e ∈ Execution.externalEffects type, m.Permits e := by
  intro e he
  cases type with
  | pure => cases he
  | view => exact mem_singleton.mp he ▸ permits_reads h
  | nonPayable | payable => exact mem_singleton.mp he ▸ permits_modifies h

/-- Calls are safe if the check accepts them. -/
def SafeCalls (p : Program T) (m : StateMutability) (calls : Callee → Behaviour (Step T)) : Prop :=
  ∀ callee, (∀ r ∈ callReports p (.functionCall callee), Acceptable m r) →
    Safe p m (calls callee)

variable {calls : Callee → Behaviour (Step T)}

mutual

lemma safe_expression (hcalls : SafeCalls p m calls) (lv : Bool) (e : Ast.Expression)
    (h : ∀ r ∈ expression p lv e, Acceptable m r) :
    Safe p m (Execution.expression calls lv e) := by
  match e with
  | .literal _ | .newExpression _ | .elementaryTypeName _ => exact Respects.done
  | .identifier t _ _ =>
    exact (safe_operations (permits_declaration (h _ (mem_singleton_self _)))).andThen
      (safe_retrieve t h)
  | .tuple _ isInlineArray es =>
    rw [expression] at h
    exact safe_operands hcalls lv isInlineArray es h
  | .unaryOperation _ op e =>
    rw [expression] at h
    exact (safe_expression hcalls op.isModifying e h).andThen (safe_modification h)
  | .binaryOperation _ isShortCircuit l r =>
    rw [expression, forall_mem_append] at h
    have hl := safe_expression hcalls false l h.1
    have hr := safe_expression hcalls false r h.2
    rw [Execution.expression]
    split
    · exact hl.andThen (Respects.done.orElse hr)
    · exact hr.andThen hl
  | .conditional _ c e₁ e₂ =>
    rw [expression, forall_mem_append, forall_mem_append] at h
    exact (safe_expression hcalls false c h.1.1).andThen
      (((safe_expression hcalls false e₁ h.1.2).andThen (safe_convert _ _)).orElse
        ((safe_expression hcalls false e₂ h.2).andThen (safe_convert _ _)))
  | .assignment _ isCompound l r _ =>
    rw [expression, forall_mem_append] at h
    have hread : Safe p m (if isCompound then Execution.access .reads (Execution.places l)
        else done) := by
      split
      · exact safe_access_of_lValue h.1 .reads
      · exact Respects.done
    exact (safe_expression hcalls false r h.2).andThen ((safe_convert _ _).andThen
      ((safe_expression hcalls true l h.1).andThen
        (hread.andThen (safe_access_of_lValue h.1 .modifies))))
  | .functionCall _ kind e es =>
    rw [expression, forall_mem_append, forall_mem_append] at h
    have he := safe_expression hcalls false e h.1.1
    have hes (converted : Bool) := safe_operands hcalls false converted es h.1.2
    cases kind with
    | typeConversion | structConstructorCall => exact hes true
    | functionCall callee =>
      have hcall := hcalls callee h.2
      cases callee with
      | virtual _ => exact (hes true).andThen hcall
      | super _ _ | exact _ | value _ => exact (hes true).andThen (he.andThen hcall)
      | delegateCall _ => exact he.andThen ((hes true).andThen hcall)
      | external type =>
        exact he.andThen ((hes true).andThen
          (safe_operations (permits_external (h.2 _ (mem_singleton_self _)))))
      | builtin b =>
        have heffects : Safe p m (Execution.operations (Execution.builtinEffects b)) :=
          safe_operations (permits_builtin (h.2 _ (mem_singleton_self _)))
        have hend : Safe p m (if b = .revert ∨ b = .selfdestruct then leave .halt else done) := by
          split
          · exact Respects.leave _
          · exact Respects.done
        cases b with
        | assert | require =>
          exact he.andThen ((hes false).andThen
            (Respects.done.orElse ((safe_conversions es).andThen (Respects.leave _))))
        | _ => exact he.andThen ((hes true).andThen (heffects.andThen hend))
  | .memberAccess t e member d =>
    have hplaces := safe_retrieve t h
    rw [expression, forall_mem_append] at h
    rw [Execution.expression]
    split_ifs with htype hselector
    · exact hplaces
    · exact Respects.done
    · rw [if_neg hselector] at h
      exact (safe_expression hcalls false e h.1).andThen
        ((safe_operations (permits_member (h.2 _ (mem_singleton_self _)))).andThen hplaces)
  | .boundMember _ e _ _ =>
    rw [expression, forall_mem_append] at h
    exact (safe_expression hcalls false e h.1).andThen (safe_convert _ _)
  | .indexAccess t base index target =>
    have hplaces := safe_retrieve t h
    rw [expression, forall_mem_append, forall_mem_append] at h
    have hlength : Safe p m (if base.type = .array true .storage
        then Execution.operations [.reads] else done) := by
      split
      · rename_i hbase
        have hacceptable : Acceptable m (accessMutability lv) :=
          h.2 _ (by rw [hbase]; exact mem_singleton_self _)
        exact safe_operations fun e he =>
          mem_singleton.mp he ▸ permits_reads_of_access hacceptable
      · exact Respects.done
    exact (safe_expression hcalls false base h.1.1).andThen
      ((safe_expression hcalls false index h.1.2).andThen
        ((safe_convert _ _).andThen (hlength.andThen hplaces)))
  | .arrayTypeName _ base =>
    rw [expression] at h
    exact safe_expression hcalls false base h

lemma safe_operands (hcalls : SafeCalls p m calls) (lv converted : Bool) (es : Operands)
    (h : ∀ r ∈ operands p lv es, Acceptable m r) :
    Safe p m (Execution.operands calls lv converted es) := by
  match es with
  | .nil => exact Respects.done
  | .missing rest => exact safe_operands hcalls lv converted rest h
  | .cons e t rest =>
    rw [operands, forall_mem_append] at h
    have hconvert : Safe p m (if converted then Execution.convert e.type t else done) := by
      split
      · exact safe_convert _ _
      · exact Respects.done
    exact (safe_expression hcalls lv e h.1).andThen
      (hconvert.andThen (safe_operands hcalls lv converted rest h.2))

end

lemma safe_arguments (hcalls : SafeCalls p m calls) (es : List Argument)
    (h : ∀ r ∈ arguments p es, Acceptable m r) :
    Safe p m (Execution.arguments calls es) := by
  induction es with
  | nil => exact Respects.done
  | cons e es ih =>
    rw [arguments, flatMap_cons, forall_mem_append] at h
    exact (safe_expression hcalls false e.1 h.1).andThen ((safe_convert _ _).andThen (ih h.2))

variable {inner : Behaviour (Step T)}

mutual

lemma safe_statement (hcalls : SafeCalls p m calls) (hinner : Safe p m inner) (s : Statement)
    (h : ∀ r ∈ statement p s, Acceptable m r) :
    Safe p m (Execution.statement calls inner s) := by
  match s with
  | .block ss =>
    rw [statement] at h
    exact safe_statements hcalls hinner ss h
  | .placeholder => exact hinner
  | .inlineAssembly dialect code =>
    rw [statement] at h
    exact safe_inlineAssembly dialect h
  | .ifStatement c s₁ s₂ =>
    rw [statement, forall_mem_append, forall_mem_append] at h
    exact (safe_expression hcalls false c h.1.1).andThen
      ((safe_statement hcalls hinner s₁ h.1.2).orElse (safe_statement hcalls hinner s₂ h.2))
  | .whileStatement c body isDoWhile =>
    rw [statement, forall_mem_append] at h
    have hc := safe_expression hcalls false c h.1
    have hbody := safe_statement hcalls hinner body h.2
    rw [Execution.statement]
    split
    · exact hbody.doLoop hc
    · exact hc.loop hbody Respects.done
  | .forStatement init c next body =>
    rw [statement, forall_mem_append, forall_mem_append, forall_mem_append] at h
    exact (safe_statement hcalls hinner init h.1.1.1).andThen
      ((safe_expression hcalls false c h.1.1.2).loop (safe_statement hcalls hinner body h.2)
        (safe_statement hcalls hinner next h.1.2))
  | .continue | .break => exact Respects.leave _
  | .return e =>
    rw [statement] at h
    exact (safe_arguments hcalls e.toList h).andThen (Respects.leave _)
  | .variableDeclarationStatement e =>
    rw [statement] at h
    exact safe_arguments hcalls e.toList h
  | .emitStatement e | .expressionStatement e =>
    rw [statement] at h
    exact safe_expression hcalls false e h

lemma safe_statements (hcalls : SafeCalls p m calls) (hinner : Safe p m inner) (ss : Statements)
    (h : ∀ r ∈ statements p ss, Acceptable m r) :
    Safe p m (Execution.statements calls inner ss) := by
  match ss with
  | .nil => exact Respects.done
  | .cons s rest =>
    rw [statements, forall_mem_append] at h
    exact (safe_statement hcalls hinner s h.1).andThen (safe_statements hcalls hinner rest h.2)

end

lemma le_foldl_max (rs : List StateMutability) (m₀ : StateMutability) :
    m₀ ≤ rs.foldl max m₀ ∧ ∀ r ∈ rs, r ≤ rs.foldl max m₀ := by
  induction rs generalizing m₀ with
  | nil => exact ⟨le_rfl, nofun⟩
  | cons r rs ih =>
    obtain ⟨hmax, hrest⟩ := ih (max m₀ r)
    refine ⟨(le_max_left _ _).trans hmax, ?_⟩
    rw [forall_mem_cons]
    exact ⟨(le_max_right _ _).trans hmax, hrest⟩

lemma le_inferredMutability {md : ModifierDefinition T} :
    ∀ r ∈ statement p (p.modifierBody md.id), r ≤ inferredMutability p md :=
  (le_foldl_max _ _).2

variable {hierarchy : List (ContractDefinition T Argument)} {c : ContractDefinition T Argument}

lemma safe_modifierInvocation (hcalls : SafeCalls p m calls) (hinner : Safe p m inner)
    {invocation : ModifierInvocation Argument}
    (h : ∀ r ∈ modifierInvocation p c invocation, Acceptable m r.mutability) :
    Safe p m (Execution.modifierInvocation p hierarchy calls c invocation inner) := by
  cases invocation with
  | baseConstructor _ _ => exact hinner
  | modifier name es =>
    rw [modifierInvocation, forall_mem_append, forall_mem_map] at h
    rw [Execution.modifierInvocation]
    cases hreferenced : p.referencedModifier c name with
    | none => exact Respects.leave _
    | some s =>
      obtain ⟨scope, md⟩ := s
      have hinferred : Acceptable m (inferredMutability p md) :=
        h.2 ⟨_, true⟩ (by rw [hreferenced]; exact mem_singleton_self _)
      dsimp only
      cases hresolved : resolveVirtualFunctionModifier hierarchy scope md with
      | none => exact Respects.leave _
      | some resolved =>
        refine (safe_arguments hcalls _ h.1).andThen (Respects.event_andThen fun hregular => ?_)
        refine ⟨nofun, (safe_statement hcalls hinner _ ?_).resume⟩
        rcases hregular with ⟨rfl, hpayable⟩ | hseen
        · exact fun r hr => .inl ((le_inferredMutability r hr).trans (hinferred.le hpayable))
        · exact hseen

lemma safe_modifiers (hcalls : SafeCalls p m calls) (hinner : Safe p m inner)
    {invocations : List (ModifierInvocation Argument)}
    (h : ∀ r ∈ invocations.flatMap (modifierInvocation p c), Acceptable m r.mutability) :
    Safe p m (invocations.foldr (Execution.modifierInvocation p hierarchy calls c) inner) := by
  induction invocations with
  | nil => exact hinner
  | cons invocation invocations ih =>
    rw [flatMap_cons, forall_mem_append] at h
    exact safe_modifierInvocation hcalls (ih h.2) h.1

variable {f g : FunctionDefinition T Argument}

lemma safe_function (hcalls : SafeCalls p m calls)
    (h : ∀ r ∈ functionDefinition p c f, Acceptable m r.mutability) :
    Safe p m (Execution.functionDefinition p hierarchy calls c f) := by
  rw [functionDefinition, forall_mem_append, forall_mem_map] at h
  refine safe_modifiers hcalls ?_ h.1
  cases hbody : p.body f.id with
  | none => exact Respects.leave _
  | some body =>
    rw [hbody] at h
    exact (safe_statement hcalls Respects.done body h.2).resume

/-! ### Calls -/

variable [DecidableEq T]

variable {contracts : List (ContractDefinition T Argument)}

lemma mem_of_findFunction (h : findFunction contracts f = some g) :
    g ∈ contracts.flatMap (·.definedFunctions) ∧ hasSignatureOf g f := by
  obtain ⟨derived, contract, bases, rfl, hg, hsignature, -⟩ := findFunction_eq_some h
  exact ⟨mem_flatMap.mpr ⟨contract, by simp, hg⟩, hsignature⟩

omit [DecidableEq T] in
lemma mem_of_inHierarchy (hcontracts : ∀ c ∈ hierarchy, c ∈ p.contracts) {id : ℕ}
    (hf : p.function id = some (c, f)) (h : Execution.inHierarchy hierarchy id) :
    f ∈ hierarchy.flatMap (·.definedFunctions) := by
  obtain ⟨d, hd, hany⟩ := any_eq_true.mp h
  obtain ⟨g, hg, hid⟩ := any_eq_true.mp hany
  obtain rfl : g.id = id := by simpa using hid
  obtain ⟨d', hd'⟩ := p.function_eq (hcontracts d hd) hg
  rw [hf] at hd'
  cases hd'
  exact mem_flatMap.mpr ⟨d, hd, hg⟩

lemma stateMutability_of_findFunction (hcontracts : ∀ c ∈ hierarchy, c ∈ p.contracts)
    (haccepted : AcceptedHierarchy hierarchy) (hvisible : f.isVisibleInContract)
    (hf : f ∈ hierarchy.flatMap (·.definedFunctions)) (hsub : ∀ c ∈ contracts, c ∈ hierarchy)
    (h : findFunction contracts f = some g) :
    ∃ d, p.function g.id = some (d, g) ∧ g.stateMutability = f.stateMutability := by
  obtain ⟨hg, hsignature⟩ := mem_of_findFunction h
  obtain ⟨d, hd, hg⟩ := mem_flatMap.mp hg
  obtain ⟨d', hd'⟩ := p.function_eq (hcontracts d (hsub d hd)) hg
  exact ⟨d', hd', stateMutability_eq haccepted (mem_flatMap.mpr ⟨d, hsub d hd, hg⟩) hf
    hvisible hsignature⟩

/-- The function that runs is one of the program, with the state mutability of the named one. -/
lemma stateMutability_of_resolve (hcontracts : ∀ c ∈ hierarchy, c ∈ p.contracts)
    (haccepted : AcceptedHierarchy hierarchy) {callee : Callee}
    (h : Execution.resolve p hierarchy callee = some g) :
    ∃ d, p.function g.id = some (d, g) ∧ p.calleeMutability callee = some g.stateMutability := by
  cases callee with
  | virtual id =>
    obtain ⟨⟨c, f⟩, hf, hg⟩ := Option.bind_eq_some_iff.mp h
    split_ifs at hg with hguard
    rw [Bool.and_eq_true, Bool.or_eq_true] at hguard
    rw [resolveVirtualFunction] at hg
    split_ifs at hg with hlibrary
    · cases hg
      obtain ⟨-, -, rfl⟩ := p.mem_of_function hf
      exact ⟨c, hf, by rw [Program.calleeMutability, hf]; rfl⟩
    · have hmem := mem_of_inHierarchy hcontracts hf (hguard.2.resolve_left hlibrary)
      obtain ⟨d, hd, heq⟩ := stateMutability_of_findFunction hcontracts haccepted hguard.1 hmem
        (fun _ hc => hc) hg
      exact ⟨d, hd, by rw [Program.calleeMutability, hf, heq]; rfl⟩
  | super contract id =>
    obtain ⟨⟨c, f⟩, hf, hg⟩ := Option.bind_eq_some_iff.mp h
    split_ifs at hg with hguard
    rw [Bool.and_eq_true] at hguard
    obtain ⟨c', -, hfind⟩ := Option.bind_eq_some_iff.mp hg
    have hsub : ∀ c ∈ superContract hierarchy c', c ∈ hierarchy := fun c hc =>
      (dropWhile_sublist _).subset (mem_of_mem_tail hc)
    obtain ⟨d, hd, heq⟩ := stateMutability_of_findFunction hcontracts haccepted hguard.1
      (mem_of_inHierarchy hcontracts hf hguard.2) hsub hfind
    exact ⟨d, hd, by rw [Program.calleeMutability, hf, heq]; rfl⟩
  | exact id =>
    obtain ⟨⟨c, f⟩, hf, rfl⟩ := Option.map_eq_some_iff.mp h
    obtain ⟨-, -, rfl⟩ := p.mem_of_function hf
    exact ⟨c, hf, by rw [Program.calleeMutability, hf]; rfl⟩
  | delegateCall _ | value _ | external _ | builtin _ => cases h

/-- The hierarchies of all contracts have been accepted. -/
def HierarchiesAccepted (p : Program T) : Prop :=
  ∀ c ∈ p.contracts, AcceptedHierarchy (p.linearizedBaseContracts c)

/-- The runs of functions that declare enough are safe. -/
def SafeRuns (p : Program T) (m : StateMutability)
    (run : List (ContractDefinition T Argument) → ℕ → Behaviour (Step T)) : Prop :=
  ∀ c ∈ p.contracts, ∀ id scope f, p.function id = some (scope, f) → f.stateMutability ≤ m →
    Safe p m (run (p.linearizedBaseContracts c) id)

lemma stateMutability_le (hm : m ≤ .view) {type : StateMutability}
    (h : Acceptable m (callMutability type)) : type ≤ m := by
  have hle := h.le (by cases type <;> decide)
  cases type with
  | payable => exact absurd (hle.trans hm) (by decide)
  | pure | view | nonPayable => exact hle

lemma safe_resolved (haccepted : HierarchiesAccepted p)
    {run : List (ContractDefinition T Argument) → ℕ → Behaviour (Step T)}
    (hrun : SafeRuns p m run) (hc : c ∈ p.contracts) {callee : Callee}
    (hle : ∀ {type}, p.calleeMutability callee = some type → type ≤ m) :
    Safe p m (match Execution.resolve p (p.linearizedBaseContracts c) callee with
      | none => leave .halt
      | some f => run (p.linearizedBaseContracts c) f.id) := by
  cases hg : Execution.resolve p (p.linearizedBaseContracts c) callee with
  | none => exact Respects.leave _
  | some g =>
    obtain ⟨d, hd, htype⟩ := stateMutability_of_resolve (p.linearized c hc) (haccepted c hc) hg
    exact hrun c hc g.id d g hd (hle htype)

lemma safe_call (hm : m ≤ .view) (haccepted : HierarchiesAccepted p)
    {run : List (ContractDefinition T Argument) → ℕ → Behaviour (Step T)}
    (hrun : SafeRuns p m run) (hc : c ∈ p.contracts) :
    SafeCalls p m (Execution.call p (p.linearizedBaseContracts c) run) := by
  intro callee h
  have hle {type : StateMutability} (htype : p.calleeMutability callee = some type) : type ≤ m :=
    stateMutability_le hm (h _ (by rw [callReports, htype]; exact mem_singleton_self _))
  cases callee with
  | virtual _ | super _ _ | exact _ | external _ | builtin _ =>
    exact safe_resolved haccepted hrun hc hle
  | delegateCall id =>
    rw [Execution.call]
    cases hf : p.function id with
    | none => exact Respects.leave _
    | some s =>
      exact hrun s.1 (p.mem_of_function hf).1 id s.1 s.2 hf
        (hle (by rw [Program.calleeMutability, hf]; rfl))
  | value type =>
    refine Respects.any fun id => ?_
    cases hf : p.function id with
    | none => exact Respects.leave _
    | some s =>
      refine Respects.event_andThen fun hregular => ⟨by rintro _ ⟨⟩, hrun c hc id s.1 s.2 hf ?_⟩
      exact stateMutability_le hm (.inl (hregular.trans (hle rfl)))

lemma safe_run (hcheck : check p = []) (haccepted : HierarchiesAccepted p) (hm : m ≤ .view)
    (n : ℕ) : SafeRuns p m (Execution.run p n) := by
  induction n with
  | zero => exact fun _ _ _ _ _ _ _ => Respects.leave _
  | succ n ih =>
    intro c hc id scope f hf hle
    obtain ⟨hscope, hmem, -⟩ := p.mem_of_function hf
    rw [Execution.run, hf]
    exact safe_function (safe_call hm haccepted ih hc)
      fun r hr => (acceptable_of_check hcheck hscope hmem hr).mono hle

/-- In a program without errors, what a view function does up to any point of a run with regular
steps does not modify the state, and what a pure function does neither reads nor modifies it. -/
theorem run_effects {p : Program T} (hcheck : check p = []) (haccepted : HierarchiesAccepted p)
    {c scope : ContractDefinition T Argument} {f : FunctionDefinition T Argument} {id n : ℕ}
    (hc : c ∈ p.contracts) (hf : p.function id = some (scope, f)) {t u : List (Step T)}
    {x : Exit} (hrun : (t ++ u, x) ∈ Execution.run p n (p.linearizedBaseContracts c) id)
    (hregular : ∀ s ∈ t, s.Regular p f.stateMutability) :
    (f.stateMutability = .view → ∀ s ∈ t, s.effect ≠ some .modifies) ∧
      (f.stateMutability = .pure → ∀ s ∈ t, s.effect = none) := by
  have hpermitted (hm : f.stateMutability ≤ .view) :
      ∀ s ∈ t, s.Permitted f.stateMutability :=
    (safe_run hcheck haccepted hm n c hc id scope f hf le_rfl _ hrun).permitted_of_regular hregular
  constructor
  · intro hview s hs heffect
    have hmodifies := hpermitted hview.le s hs _ heffect
    rw [hview] at hmodifies
    exact absurd hmodifies (by decide)
  · intro hpure s hs
    by_contra hne
    obtain ⟨e, he⟩ := Option.ne_none_iff_exists'.mp hne
    have hpermits := hpermitted (hpure.trans_le (StateMutability.pure_le _)) s hs e he
    rw [hpure] at hpermits
    cases e <;> exact absurd hpermits (by decide)

/-- `function g() internal view returns (uint) { return x; }` -/
def gettingFunction : FunctionDefinition String Argument :=
  ⟨1, "g", false, .internal, .view, [], [.value "uint256"], [], by decide⟩

/-- `function f() public view m returns (uint) { return g(); }` -/
def readingFunction : FunctionDefinition String Argument :=
  ⟨2, "f", false, .public, .view, [], [.value "uint256"], [.modifier "m" none],
    allowedDataLocations_nil⟩

/-- `modifier m { _; }` -/
def plainModifier : ModifierDefinition String := ⟨3, "m", []⟩

/-- `contract A { uint x; … }` -/
def readingContract : ContractDefinition String Argument :=
  ⟨0, .contract, [], [gettingFunction, readingFunction], [plainModifier]⟩

def readingProgram : Program String where
  contracts := [readingContract]
  linearizedBaseContracts _ := [readingContract]
  body id :=
    if id = 1 then some (.return (some (.identifier .value "x" (.variable true false), .value)))
    else some (.return (some
      (.functionCall .value (.functionCall (.virtual 1)) (.identifier .function "g" .other) .nil,
        .value)))
  modifierBody _ := .placeholder
  nodup := by decide
  linearized := by decide

lemma accepted_readingProgram : HierarchiesAccepted readingProgram := by
  intro c hc
  obtain rfl := mem_singleton.mp hc
  exact ⟨by decide +kernel, by decide, by decide +kernel, by decide +kernel⟩

lemma run_readingProgram :
    ([.modifier plainModifier plainModifier, .operation .reads], .normal) ∈
      Execution.run readingProgram 2 [readingContract] 2 := by
  have hget : ([.operation .reads], .normal) ∈
      Execution.run readingProgram 1 [readingContract] 1 := by
    have hfunction : readingProgram.function 1 = some (readingContract, gettingFunction) := rfl
    rw [Execution.run, hfunction]
    show _ ∈ resume .return (andThen (Execution.arguments _ _) (leave .return))
    refine mem_resume _ (mem_andThen (t := [Step.operation .reads]) ?_ rfl)
    simp [Execution.arguments, Execution.expression, Execution.retrieve, Execution.access,
      Execution.places, Declaration.isStored, Execution.convert, ExpressionType.copiesStorage,
      ExpressionType.dataStoredInStorage, Execution.operations, Execution.declarationEffects,
      Execution.Place.step, events, Ast.Expression.type]
  have hfunction : readingProgram.function 2 = some (readingContract, readingFunction) := rfl
  rw [Execution.run, hfunction]
  show _ ∈ andThen done (andThen (event _) (resume .return (resume .return
    (andThen (Execution.arguments _ _) (leave .return)))))
  rw [done_andThen]
  refine mem_andThen (mem_event.mpr rfl) ?_
  refine .inl ⟨mem_resume _ (mem_andThen (t := [Step.operation .reads]) ?_ rfl), by decide⟩
  simp [Execution.arguments, Execution.expression, Execution.operands, Execution.convert,
    ExpressionType.copiesStorage, ExpressionType.dataStoredInStorage, Ast.Expression.type]
  exact hget

theorem run_effects_readingProgram :
    (readingFunction.stateMutability = .view → ∀ s ∈
        ([.modifier plainModifier plainModifier, .operation .reads] : List (Step String)),
        s.effect ≠ some .modifies) ∧
      (readingFunction.stateMutability = .pure → ∀ s ∈
        ([.modifier plainModifier plainModifier, .operation .reads] : List (Step String)),
        s.effect = none) :=
  run_effects (by decide) accepted_readingProgram (mem_singleton_self _)
    (show readingProgram.function 2 = some (readingContract, readingFunction) from rfl)
    (u := []) run_readingProgram (by
      intro s hs
      simp only [mem_cons, not_mem_nil, or_false] at hs
      rcases hs with rfl | rfl
      · exact .inl ⟨rfl, by decide⟩
      · trivial)

/-- `contract A { uint x; }` -/
def storingContract : ContractDefinition String Argument := ⟨0, .contract, [], [], []⟩

/-- `function f() public view { A.x = 1; }` -/
def writingFunction : FunctionDefinition String Argument :=
  ⟨1, "f", false, .public, .view, [], [], [], allowedDataLocations_nil⟩

/-- `contract B is A { … }` -/
def writingContract : ContractDefinition String Argument :=
  ⟨2, .contract, [⟨0, none⟩], [writingFunction], []⟩

/-- `A.x = 1` -/
def qualifiedAssignment : Ast.Expression :=
  .assignment .value false
    (.memberAccess .value (.identifier (.typeType true) "A" .other) "x"
      (some (.variable true false)))
    (.literal .value) .value

def writingProgram : Program String where
  contracts := [storingContract, writingContract]
  linearizedBaseContracts c :=
    if c.id = 0 then [storingContract] else [writingContract, storingContract]
  body id := if id = 1 then
    some (.block (.cons (.expressionStatement qualifiedAssignment) .nil)) else none
  modifierBody _ := .placeholder
  nodup := by decide
  linearized := by decide

lemma check_writingProgram : check writingProgram = [] := by decide

lemma accepted_writingProgram : HierarchiesAccepted writingProgram := by
  intro c hc
  simp only [writingProgram, mem_cons, not_mem_nil, or_false] at hc
  rcases hc with rfl | rfl
  · exact ⟨by decide +kernel, by decide, by decide +kernel, by decide +kernel⟩
  · exact ⟨by decide +kernel, by decide, by decide +kernel, by decide +kernel⟩

lemma qualifiedAssignment_modifies (calls : Callee → Behaviour (Step String)) :
    Execution.expression calls false qualifiedAssignment = event (.qualifiedAccess .modifies) := by
  simp [qualifiedAssignment, Execution.expression, Ast.Expression.type, Execution.retrieve,
    Execution.access, Execution.places, Execution.memberPlace, Declaration.isStored,
    Execution.convert, ExpressionType.copiesStorage, ExpressionType.dataStoredInStorage,
    Execution.Place.step, events]

lemma run_writingProgram :
    ([.qualifiedAccess .modifies], .normal) ∈
      Execution.run writingProgram 1 [writingContract, storingContract] 1 := by
  have hfunction : writingProgram.function 1 = some (writingContract, writingFunction) := rfl
  rw [Execution.run, hfunction]
  refine .inl ⟨?_, by decide⟩
  show _ ∈ andThen (Execution.expression _ false qualifiedAssignment) done
  rw [qualifiedAssignment_modifies, andThen_done]
  rfl

/-- The check accepts a view function that writes to a state variable of a base contract. -/
theorem check_accepts_qualifiedAssignment :
    ∃ p : Program String, check p = [] ∧ HierarchiesAccepted p ∧
      ∃ c ∈ p.contracts, ∃ id n scope f t x, p.function id = some (scope, f) ∧
        f.stateMutability = .view ∧ (t, x) ∈ Execution.run p n (p.linearizedBaseContracts c) id ∧
        ∃ s ∈ t, s.effect = some .modifies :=
  ⟨writingProgram, check_writingProgram, accepted_writingProgram, writingContract, by decide, 1, 1,
    writingContract, writingFunction, _, _, rfl, rfl, run_writingProgram, _,
    mem_singleton_self _, rfl⟩

end ViewPureChecker

end Polynomial
