import Polc.Analysis.ContractLevelChecker
import Polc.Ast.Expressions

/-!
# The check of state mutability

`libpolynomial/analysis/ViewPureChecker.cpp`: every node of a body reports the state mutability that
it needs, and a function is rejected if a report exceeds what it declares. The warnings about
functions that could declare more are left out.
-/

namespace Polynomial

open Langutil Ast Sof

namespace AssemblyViewPureChecker

def checkInstruction (i : Instruction) : List StateMutability :=
  if SemanticInformation.invalidInViewFunctions i then [.nonPayable]
  else if SemanticInformation.invalidInPureFunctions i then [.view]
  else []

mutual

def expression (dialect : Yul.Dialect) : Yul.Expression → List StateMutability
  | .functionalInstruction i arguments => checkInstruction i ++ expressions dialect arguments
  | .functionCall f arguments =>
    (((dialect.builtin f).bind (·.instruction)).elim [] checkInstruction) ++
      expressions dialect arguments
  | .identifier _ | .literal _ => []

def expressions (dialect : Yul.Dialect) : List Yul.Expression → List StateMutability
  | [] => []
  | e :: es => expression dialect e ++ expressions dialect es

end

mutual

def statement (dialect : Yul.Dialect) : Yul.Statement → List StateMutability
  | .expressionStatement e | .assignment _ e | .variableDeclaration _ (some e) =>
    expression dialect e
  | .variableDeclaration _ none | .break | .continue => []
  | .functionDefinition _ _ _ body => block dialect body
  | .if condition body => expression dialect condition ++ block dialect body
  | .switch e cs => expression dialect e ++ cases dialect cs
  | .forLoop pre condition post body =>
    block dialect pre ++ expression dialect condition ++ block dialect body ++ block dialect post
  | .block ss => block dialect ss

def block (dialect : Yul.Dialect) : Yul.Block → List StateMutability
  | [] => []
  | s :: ss => statement dialect s ++ block dialect ss

def cases (dialect : Yul.Dialect) : List Yul.Case → List StateMutability
  | [] => []
  | .mk _ body :: cs => block dialect body ++ cases dialect cs

end

end AssemblyViewPureChecker

namespace ViewPureChecker

variable {T : Type*}

/-! ### Reports of nodes -/

/-- The state mutability for an access to storage. -/
def accessMutability (writes : Bool) : StateMutability := if writes then .nonPayable else .view

def identifierMutability (writes : Bool) : Declaration → StateMutability
  | .variable isStateVariable isConstant =>
    if isStateVariable && !isConstant then accessMutability writes else .pure
  -- reads the address
  | .magicVariable (.contract false) => .view
  | .magicVariable .integer => .view
  | .magicVariable _ | .other => .pure

def pureMembers : List (MagicKind × String) :=
  [(.abi, "decode"), (.abi, "encode"), (.abi, "encodePacked"), (.abi, "encodeWithSelector"),
    (.abi, "encodeWithSignature"), (.block, "blockhash"), (.message, "data"), (.message, "sig"),
    (.metaType, "creationCode"), (.metaType, "runtimeCode"), (.metaType, "name")]

def payableMembers : List (MagicKind × String) := [(.message, "value")]

def memberMutability (writes : Bool) (type : ExpressionType) (member : String) : StateMutability :=
  match type with
  | .address => if member = "balance" then .view else .pure
  | .magic kind =>
    if (kind, member) ∈ payableMembers then .payable
    else if (kind, member) ∈ pureMembers then .pure
    else .view
  | .struct .storage => accessMutability writes
  | .array true .storage => if member = "length" then accessMutability writes else .pure
  | _ => .pure

/-- The special case of `this.f.selector`, which is a pure expression. -/
def isSelectorOfThis (e : Ast.Expression) (member : String) : Bool :=
  e.type = .function && member = "selector" &&
    match e with
    | .memberAccess _ (.identifier _ name _) _ _ => name = "this"
    | _ => false

/-- We only require "nonpayable" to call a payable function. -/
def callMutability (m : StateMutability) : StateMutability :=
  if m = .payable then .nonPayable else m

variable (p : Program T)

def callReports : FunctionCallKind → List StateMutability
  | .functionCall callee => ((p.calleeMutability callee).map callMutability).toList
  | .typeConversion | .structConstructorCall => []

mutual

/-- The reports in an expression, in which `lValueRequested` holds where the type checker has noted
it. -/
def expression (lValueRequested : Bool) : Ast.Expression → List StateMutability
  | .literal _ | .newExpression _ | .elementaryTypeName _ => []
  | .identifier _ _ declaration => [identifierMutability lValueRequested declaration]
  | .tuple _ _ components => operands lValueRequested components
  | .unaryOperation _ op e => expression op.isModifying e
  | .binaryOperation _ _ l r => expression false l ++ expression false r
  | .conditional _ c t f => expression false c ++ expression false t ++ expression false f
  | .assignment _ _ l r _ => expression true l ++ expression false r
  | .functionCall _ kind e arguments =>
    expression false e ++ operands false arguments ++ callReports p kind
  | .memberAccess _ e member _ =>
    (if isSelectorOfThis e member then [] else expression false e) ++
      [memberMutability lValueRequested e.type member]
  | .boundMember _ e member _ =>
    expression false e ++ [memberMutability lValueRequested e.type member]
  | .indexAccess _ base index _ =>
    expression false base ++ expression false index ++
      if base.type.dataStoredInStorage then [accessMutability lValueRequested] else []
  | .arrayTypeName _ base => expression false base

def operands (lValueRequested : Bool) : Operands → List StateMutability
  | .nil => []
  | .missing rest => operands lValueRequested rest
  | .cons e _ rest => expression lValueRequested e ++ operands lValueRequested rest

end

def arguments (es : List Argument) : List StateMutability :=
  es.flatMap fun e => expression p false e.1

mutual

def statement : Statement → List StateMutability
  | .block ss => statements ss
  | .placeholder | .continue | .break => []
  | .inlineAssembly dialect operations => AssemblyViewPureChecker.block dialect operations
  | .ifStatement c t f => expression p false c ++ statement t ++ statement f
  | .whileStatement c body _ => expression p false c ++ statement body
  | .forStatement init c loop body =>
    statement init ++ expression p false c ++ statement loop ++ statement body
  | .return e | .variableDeclarationStatement e => arguments p e.toList
  | .emitStatement e | .expressionStatement e => expression p false e

def statements : Statements → List StateMutability
  | .nil => []
  | .cons s rest => statement s ++ statements rest

end

/-- The state mutability of the modifier (`m_inferredMutability`). -/
def inferredMutability (m : ModifierDefinition T) : StateMutability :=
  (statement p (p.modifierBody m.id)).foldl max .pure

/-- A report, and whether it comes from inside a modifier. -/
structure Report where
  mutability : StateMutability
  isNested : Bool

def modifierInvocation (c : ContractDefinition T Argument) :
    ModifierInvocation Argument → List Report
  | .modifier name es =>
    ((arguments p (es.getD [])).map (⟨·, false⟩)) ++
      ((p.referencedModifier c name).map fun m => ⟨inferredMutability p m.2, true⟩).toList
  | .baseConstructor _ es => (arguments p (es.getD [])).map (⟨·, false⟩)

def functionDefinition (c : ContractDefinition T Argument) (f : FunctionDefinition T Argument) :
    List Report :=
  f.modifiers.flatMap (modifierInvocation p c) ++
    ((p.body f.id).elim [] (statement p)).map (⟨·, false⟩)

end ViewPureChecker

/-- The function can be called from outside. -/
def FunctionDefinition.isPublic {T E : Type*} (f : FunctionDefinition T E) : Bool :=
  f.visibility = .public || f.visibility = .external

namespace ViewPureChecker

variable {T : Type*}

def reportMutability (kind : ContractKind) (f : FunctionDefinition T Argument) (r : Report) :
    List Error :=
  if r.mutability ≤ f.stateMutability then []
  -- Check for payable here, because any occurrence of `msg.value` will set mutability to payable.
  else if r.mutability = .view || (r.mutability = .payable && f.stateMutability = .pure) then
    [⟨.typeError, "Function declared as pure, but this expression (potentially) reads from the " ++
      "environment or state and thus requires \"view\"."⟩]
  else if r.mutability = .nonPayable then
    [⟨.typeError, "Function declared as " ++ f.stateMutability.toString ++
      ", but this expression (potentially) modifies the state and thus " ++
      "requires non-payable (the default) or payable."⟩]
  -- We do not warn for library functions because they cannot be payable anyway. Also internal
  -- functions should be allowed to use `msg.value`.
  else if f.isPublic && kind ≠ .library then
    if r.isNested then
      [⟨.typeError, "This modifier uses \"msg.value\" or \"callvalue()\" and thus the function " ++
        "has to be payable or internal."⟩]
    else
      [⟨.typeError, "\"msg.value\" and \"callvalue()\" can only be used in payable public " ++
        "functions. Make the function \"payable\" or use an internal function to avoid this " ++
        "error."⟩]
  else []

/-- The errors for all contracts. -/
def check (p : Program T) : List Error :=
  p.contracts.flatMap fun c => c.definedFunctions.flatMap fun f =>
    (functionDefinition p c f).flatMap (reportMutability c.kind f)

/-- The report is within the state mutability; `msg.value` may be read by functions that may read
the environment. -/
def Acceptable (m r : StateMutability) : Prop := r ≤ m ∨ (r = .payable ∧ m ≠ .pure)

instance (m r : StateMutability) : Decidable (Acceptable m r) :=
  inferInstanceAs (Decidable (_ ∨ _))

lemma acceptable_of_reportMutability {kind : ContractKind} {f : FunctionDefinition T Argument}
    {r : Report} (h : reportMutability kind f r = []) :
    Acceptable f.stateMutability r.mutability := by
  unfold reportMutability at h
  split_ifs at h with hle hpure hnonPayable
  · exact .inl hle
  · refine .inr ?_
    obtain ⟨m, nested⟩ := r
    cases m with
    | pure => exact absurd (StateMutability.pure_le _) hle
    | view => simp at hpure
    | nonPayable => simp at hnonPayable
    | payable => simpa using hpure

lemma acceptable_of_check {p : Program T} (h : check p = []) {c : ContractDefinition T Argument}
    {f : FunctionDefinition T Argument} (hc : c ∈ p.contracts) (hf : f ∈ c.definedFunctions)
    {r : Report} (hr : r ∈ functionDefinition p c f) :
    Acceptable f.stateMutability r.mutability := by
  rw [check, List.flatMap_eq_nil_iff] at h
  have hfunction := List.flatMap_eq_nil_iff.mp (h c hc) f hf
  exact acceptable_of_reportMutability (List.flatMap_eq_nil_iff.mp hfunction r hr)

lemma Acceptable.mono {m n r : StateMutability} (h : Acceptable m r) (hle : m ≤ n) :
    Acceptable n r := by
  rcases h with h | ⟨hr, hm⟩
  · exact .inl (h.trans hle)
  · exact .inr ⟨hr, fun hn => hm (StateMutability.le_pure_iff.mp (hn ▸ hle))⟩

lemma Acceptable.le {m r : StateMutability} (h : Acceptable m r) (hr : r ≠ .payable) : r ≤ m :=
  h.resolve_right fun hpayable => hr hpayable.1

end ViewPureChecker

end Polynomial
