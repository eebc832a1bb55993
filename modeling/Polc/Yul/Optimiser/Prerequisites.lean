import Polc.Yul.AsmAnalysis.Properties

/-!
# What passes rely on

Properties of the form of programs that the parser, the analyser or the passes in front of a pass
guarantee, as predicates on all statements of a program.
-/

namespace Yul

open Statement

namespace Case

def value : Case → Option Literal
  | mk value _ => value

def body : Case → Block
  | mk _ body => body

end Case

mutual

/-- `p` holds of the statement and of all statements in it. -/
def Statement.every (p : Statement → Bool) : Statement → Bool
  | .functionDefinition f ps rs body =>
    p (.functionDefinition f ps rs body) && everyStatement p body
  | .if c body => p (.if c body) && everyStatement p body
  | .switch e cases => p (.switch e cases) && everyCase p cases
  | .forLoop pre c post body =>
    p (.forLoop pre c post body) && everyStatement p pre && everyStatement p post &&
      everyStatement p body
  | .block ss => p (.block ss) && everyStatement p ss
  | s => p s

def everyStatement (p : Statement → Bool) : List Statement → Bool
  | [] => true
  | s :: ss => s.every p && everyStatement p ss

def everyCase (p : Statement → Bool) : List Case → Bool
  | [] => true
  | .mk _ body :: cs => everyStatement p body && everyCase p cs

end

/-- The parser accepts a default case only as the last one, the analyser accepts no value twice. -/
def Statement.switchValid : Statement → Bool
  | .switch _ cases =>
    cases.dropLast.all (·.value.isSome) &&
      (cases.filterMap fun c => c.value.map Literal.word).Nodup
  | _ => true

/-- No loop has an init part (`ForLoopInitRewriter`). -/
def Statement.initEmpty : Statement → Bool
  | .forLoop (_ :: _) _ _ _ => false
  | _ => true

def Statement.isFunctionDefinition : Statement → Bool
  | .functionDefinition _ _ _ _ => true
  | _ => false

/-- Identifiers and literals. -/
def Expression.isElementary : Expression → Bool
  | .identifier _ | .literal _ => true
  | _ => false

/-- Calls with elementary arguments, and elementary expressions. -/
def Expression.isSplit : Expression → Bool
  | .functionalInstruction _ args | .functionCall _ args => args.all (·.isElementary)
  | _ => true

/-- No expression is nested (`ExpressionSplitter`), conditions of loops apart. -/
def Statement.isSplit : Statement → Bool
  | .expressionStatement e | .assignment _ e | .variableDeclaration _ (some e) => e.isSplit
  | .if e _ | .switch e _ => e.isElementary
  | _ => true

def Statement.isSwitch : Statement → Bool
  | .switch _ _ => true
  | _ => false

section

variable {p : Statement → Bool} {s : Statement} {ss ts body pre post : List Statement}
  {e : Expression} {cs : List Case} {value : Option Literal}

lemma everyStatement_cons :
    everyStatement p (s :: ss) ↔ s.every p ∧ everyStatement p ss := by
  rw [everyStatement, Bool.and_eq_true]

lemma everyCase_cons :
    everyCase p (.mk value body :: cs) ↔
      everyStatement p body ∧ everyCase p cs := by
  rw [everyCase, Bool.and_eq_true]

lemma Statement.every_if :
    (Statement.if e body).every p ↔ p (.if e body) ∧ everyStatement p body := by
  rw [every, Bool.and_eq_true]

lemma Statement.every_switch :
    (Statement.switch e cs).every p ↔ p (.switch e cs) ∧ everyCase p cs := by
  rw [every, Bool.and_eq_true]

lemma Statement.every_forLoop :
    (Statement.forLoop pre e post body).every p ↔ p (.forLoop pre e post body) ∧
      everyStatement p pre ∧ everyStatement p post ∧
        everyStatement p body := by
  rw [every, Bool.and_eq_true, Bool.and_eq_true, Bool.and_eq_true, and_assoc, and_assoc]

lemma Statement.every_block :
    (Statement.block ss).every p ↔ p (.block ss) ∧ everyStatement p ss := by
  rw [every, Bool.and_eq_true]

lemma Statement.every_function {f : YulString} {ps rs : List TypedName} :
    (Statement.functionDefinition f ps rs body).every p ↔
      p (.functionDefinition f ps rs body) ∧ everyStatement p body := by
  rw [every, Bool.and_eq_true]

mutual

lemma Statement.every_and {q : Statement → Bool} (s : Statement) (hp : s.every p)
    (hq : s.every q) : s.every (fun s => p s && q s) := by
  match s with
  | .expressionStatement _ | .assignment _ _ | .variableDeclaration _ _ | .break | .continue =>
    exact Bool.and_eq_true_iff.mpr ⟨hp, hq⟩
  | .functionDefinition f ps rs body =>
    rw [every_function] at hp hq ⊢
    exact ⟨Bool.and_eq_true_iff.mpr ⟨hp.1, hq.1⟩, everyStatement_and body hp.2 hq.2⟩
  | .if c body =>
    rw [every_if] at hp hq ⊢
    exact ⟨Bool.and_eq_true_iff.mpr ⟨hp.1, hq.1⟩, everyStatement_and body hp.2 hq.2⟩
  | .switch e cases =>
    rw [every_switch] at hp hq ⊢
    exact ⟨Bool.and_eq_true_iff.mpr ⟨hp.1, hq.1⟩, everyCase_and cases hp.2 hq.2⟩
  | .forLoop pre c post body =>
    rw [every_forLoop] at hp hq ⊢
    exact ⟨Bool.and_eq_true_iff.mpr ⟨hp.1, hq.1⟩, everyStatement_and pre hp.2.1 hq.2.1,
      everyStatement_and post hp.2.2.1 hq.2.2.1, everyStatement_and body hp.2.2.2 hq.2.2.2⟩
  | .block ss =>
    rw [every_block] at hp hq ⊢
    exact ⟨Bool.and_eq_true_iff.mpr ⟨hp.1, hq.1⟩, everyStatement_and ss hp.2 hq.2⟩

lemma everyStatement_and {q : Statement → Bool} (ss : List Statement)
    (hp : everyStatement p ss) (hq : everyStatement q ss) :
    everyStatement (fun s => p s && q s) ss := by
  match ss with
  | [] => rfl
  | s :: ss =>
    rw [everyStatement_cons] at hp hq ⊢
    exact ⟨s.every_and hp.1 hq.1, everyStatement_and ss hp.2 hq.2⟩

lemma everyCase_and {q : Statement → Bool} (cs : List Case) (hp : everyCase p cs)
    (hq : everyCase q cs) : everyCase (fun s => p s && q s) cs := by
  match cs with
  | [] => rfl
  | .mk value body :: cs =>
    rw [everyCase_cons] at hp hq ⊢
    exact ⟨everyStatement_and body hp.1 hq.1, everyCase_and cs hp.2 hq.2⟩

end

end

lemma valid_of_isFunctionDefinition {dialect : Dialect} {s : Statement}
    (hs : s.isFunctionDefinition) {Γ Γ' : Scope} (hfunctions : Γ'.functions = Γ.functions)
    (hcomponent : Γ'.component = .forLoopPre → Γ.component = .forLoopPre)
    (h : s.valid dialect Γ) : s.valid dialect Γ' := by
  cases s with
  | functionDefinition f ps rs body =>
    rw [valid_function, Bool.and_eq_true, Bool.and_eq_true, decide_eq_true_eq] at h ⊢
    rw [hfunctions]
    exact ⟨⟨fun hc => h.1.1 (hcomponent hc), h.1.2⟩, h.2⟩
  | _ => cases hs

lemma definitions_filter (ss : List Statement) :
    functionDefinitions (ss.filter (·.isFunctionDefinition)) = functionDefinitions ss := by
  induction ss with
  | nil => rfl
  | cons s ss ih =>
    cases s with
    | functionDefinition f ps rs body => exact congrArg ((f, FunctionDefinition.mk ps rs body) :: ·) ih
    | _ => exact ih

lemma statementsValid_filter {dialect : Dialect} {ss : List Statement} {Γ Γ' : Scope}
    (hfunctions : Γ'.functions = Γ.functions)
    (hcomponent : Γ'.component = Γ.component) (h : statementsValid dialect Γ ss) :
    statementsValid dialect Γ' (ss.filter (·.isFunctionDefinition)) := by
  induction ss generalizing Γ Γ' with
  | nil => rfl
  | cons s ss ih =>
    rw [statementsValid, Bool.and_eq_true] at h
    by_cases hs : s.isFunctionDefinition = true
    · rw [List.filter_cons_of_pos hs, statementsValid, Bool.and_eq_true]
      refine ⟨valid_of_isFunctionDefinition hs hfunctions (fun hc => hcomponent ▸ hc) h.1,
        ih ?_ ?_ h.2⟩
      · exact hfunctions
      · exact hcomponent
    · rw [List.filter_cons_of_neg hs]
      refine ih ?_ ?_ h.2
      · exact hfunctions
      · exact hcomponent

end Yul
