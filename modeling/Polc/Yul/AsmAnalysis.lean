import Polc.Yul.Dialect
import Polc.Yul.Utilities

/-!
# Programs that pass the analysis

What `libyul/AsmAnalysis.cpp` and `libyul/AsmScopeFiller.cpp` check about names and numbers of
values, and `libyul/AsmParser.cpp` about the place of statements in loops, as a predicate.
`Disambiguated` is the input form of the optimiser: programs that pass the analysis, with
distinct names everywhere.
-/

namespace Yul

/-- The part of a loop that is being read. -/
inductive ForLoopComponent where
  | none | forLoopPre | forLoopPost | forLoopBody
  deriving DecidableEq, Repr

/-- The names that are visible: variables, and functions with the numbers of their parameters and
return variables; and the part of the innermost loop. -/
structure Scope where
  locals : List YulString
  functions : List (YulString × Nat × Nat)
  component : ForLoopComponent

namespace Scope

def empty : Scope := ⟨[], [], .none⟩

def enter (Γ : Scope) (component : ForLoopComponent) : Scope := { Γ with component }

/-- Numbers of arguments and values of a function. -/
def arity (dialect : Dialect) (Γ : Scope) (f : YulString) : Option (Nat × Nat) :=
  match dialect.builtin f with
  | some b => some (b.parameters, b.returns)
  | none => Γ.functions.lookup f

def declare (Γ : Scope) (xs : List YulString) : Scope :=
  { Γ with locals := xs ++ Γ.locals }

/-- Add the functions that a block defines. -/
def register (Γ : Scope) : Block → Scope
  | [] => Γ
  | .functionDefinition f ps rs _ :: ss =>
    { Γ with functions := (f, ps.length, rs.length) :: (Γ.register ss).functions }
  | _ :: ss => Γ.register ss

end Scope

section

variable (dialect : Dialect)

/-- How many values an expression has. -/
def Expression.returns (Γ : Scope) : Expression → Nat
  | .functionalInstruction i _ => (Sof.instructionInfo i).ret
  | .functionCall f _ => ((Γ.arity dialect f).getD (0, 0)).2
  | .identifier _ | .literal _ => 1

/-- The function only takes literals, and the arguments are literals. -/
def literalArgumentsValid (f : YulString) (args : List Expression) : Bool :=
  match dialect.builtin f with
  | some b => !b.literalArguments || args.all fun e => match e with | .literal _ => true | _ => false
  | none => true

mutual

/-- All names are visible and all functions are applied to as many values as they take. -/
def Expression.valid (Γ : Scope) : Expression → Bool
  | .functionalInstruction i args =>
    args.length = (Sof.instructionInfo i).args && argumentsValid Γ args
  | .functionCall f args =>
    (match Γ.arity dialect f with
    | some (n, _) => args.length = n
    | none => false) && literalArgumentsValid dialect f args && argumentsValid Γ args
  | .identifier x => x ∈ Γ.locals
  | .literal l => (valueOfLiteral l).isSome

/-- The arguments are valid and have one value each. -/
def argumentsValid (Γ : Scope) : List Expression → Bool
  | [] => true
  | e :: es => argumentsValid Γ es && e.valid Γ && e.returns dialect Γ = 1

end

/-- The variables a statement declares in the scope around it. -/
def Statement.declares : Statement → List YulString
  | .variableDeclaration xs _ => xs.map (·.name)
  | _ => []

/-- The value of a declaration is valid and has as many values as there are names. -/
def valueValid (Γ : Scope) (n : Nat) : Option Expression → Bool
  | some e => e.valid dialect Γ && e.returns dialect Γ = n
  | none => true

mutual

def Statement.valid (Γ : Scope) : Statement → Bool
  | .expressionStatement e => e.valid dialect Γ && e.returns dialect Γ = 0
  | .assignment xs e =>
    xs.all (· ∈ Γ.locals) && e.valid dialect Γ && e.returns dialect Γ = xs.length
  | .variableDeclaration xs e =>
    (xs.map (·.name)).Nodup && xs.all (·.name ∉ Γ.locals) && valueValid dialect Γ xs.length e
  | .functionDefinition _ ps rs body =>
    let Γ' : Scope := ⟨(ps ++ rs).map (·.name), Γ.functions, .none⟩
    Γ.component ≠ .forLoopPre && ((ps ++ rs).map (·.name)).Nodup &&
      statementsValid (Γ'.register body) body
  | .if c body =>
    c.valid dialect Γ && c.returns dialect Γ = 1 && statementsValid (Γ.register body) body
  | .switch e cases => e.valid dialect Γ && e.returns dialect Γ = 1 && casesValid Γ cases
  | .forLoop pre c post body =>
    let Γ' := Γ.declare (pre.flatMap (·.declares))
    statementsValid (Γ.enter .forLoopPre) pre &&
      c.valid dialect Γ' && c.returns dialect Γ' = 1 &&
      statementsValid ((Γ'.enter .forLoopPost).register post) post &&
      statementsValid ((Γ'.enter .forLoopBody).register body) body
  | .break | .continue => Γ.component = .forLoopBody
  | .block ss => statementsValid (Γ.register ss) ss

def statementsValid (Γ : Scope) : List Statement → Bool
  | [] => true
  | s :: ss => s.valid Γ && statementsValid (Γ.declare s.declares) ss

def casesValid (Γ : Scope) : List Case → Bool
  | [] => true
  | .mk value body :: cs =>
    value.all (fun l => (valueOfLiteral l).isSome) &&
      statementsValid (Γ.register body) body && casesValid Γ cs

end

end

mutual

/-- All names a statement declares, at any depth (`NameCollector`). -/
def Statement.names : Statement → List YulString
  | .variableDeclaration xs _ => xs.map (·.name)
  | .functionDefinition f ps rs body =>
    f :: ps.map (·.name) ++ rs.map (·.name) ++ namesOfStatements body
  | .if _ body => namesOfStatements body
  | .switch _ cases => namesOfCases cases
  | .forLoop pre _ post body =>
    namesOfStatements pre ++ namesOfStatements body ++ namesOfStatements post
  | .block ss => namesOfStatements ss
  | _ => []

def namesOfStatements : List Statement → List YulString
  | [] => []
  | s :: ss => s.names ++ namesOfStatements ss

def namesOfCases : List Case → List YulString
  | [] => []
  | .mk _ body :: cs => namesOfStatements body ++ namesOfCases cs

end

/-- The block passes the analysis as a program. -/
def Block.valid (dialect : Dialect) (ss : Block) : Bool :=
  statementsValid dialect (Scope.empty.register ss) ss

/-- The block passes the analysis and no name is declared twice. -/
structure Block.Disambiguated (dialect : Dialect) (ss : Block) : Prop where
  valid : Block.valid dialect ss = true
  nodup : (namesOfStatements ss).Nodup

instance (dialect : Dialect) (ss : Block) : Decidable (Block.Disambiguated dialect ss) :=
  decidable_of_iff (Block.valid dialect ss = true ∧ (namesOfStatements ss).Nodup)
    ⟨fun ⟨h₁, h₂⟩ => ⟨h₁, h₂⟩, fun ⟨h₁, h₂⟩ => ⟨h₁, h₂⟩⟩

/-! ### Equations -/

section

variable {dialect : Dialect} {Γ : Scope} {e : Expression} {es : List Expression}
  {s : Statement} {ss body : List Statement}

@[simp] lemma Expression.valid_instruction {i : Sof.Instruction} :
    (functionalInstruction i es).valid dialect Γ =
      (decide (es.length = (Sof.instructionInfo i).args) && argumentsValid dialect Γ es) := rfl

lemma Expression.valid_functionCall {f : YulString} :
    (functionCall f es).valid dialect Γ =
      ((match Γ.arity dialect f with
        | some (n, _) => es.length = n
        | none => false) && literalArgumentsValid dialect f es && argumentsValid dialect Γ es) :=
  rfl

@[simp] lemma Expression.valid_identifier {x : YulString} :
    (identifier x).valid dialect Γ = decide (x ∈ Γ.locals) := rfl

attribute [simp] argumentsValid

lemma valid_expression :
    (Statement.expressionStatement e).valid dialect Γ =
      (e.valid dialect Γ && e.returns dialect Γ = 0) := rfl

lemma valid_assignment {xs : List YulString} :
    (Statement.assignment xs e).valid dialect Γ =
      (xs.all (· ∈ Γ.locals) && e.valid dialect Γ && e.returns dialect Γ = xs.length) := rfl

lemma valid_declaration {xs : List TypedName} {e : Option Expression} :
    (Statement.variableDeclaration xs e).valid dialect Γ =
      (decide (xs.map (·.name)).Nodup && xs.all (·.name ∉ Γ.locals) &&
        valueValid dialect Γ xs.length e) := rfl

lemma valid_function {f : YulString} {ps rs : List TypedName} :
    (Statement.functionDefinition f ps rs body).valid dialect Γ =
      (decide (Γ.component ≠ .forLoopPre) && decide ((ps ++ rs).map (·.name)).Nodup &&
        statementsValid dialect
          ((⟨(ps ++ rs).map (·.name), Γ.functions, .none⟩ : Scope).register body) body) := rfl

lemma valid_if :
    (Statement.if e body).valid dialect Γ =
      (e.valid dialect Γ && e.returns dialect Γ = 1 &&
        statementsValid dialect (Γ.register body) body) := rfl

lemma valid_switch {cases : List Case} :
    (Statement.switch e cases).valid dialect Γ =
      (e.valid dialect Γ && e.returns dialect Γ = 1 && casesValid dialect Γ cases) := rfl

lemma valid_forLoop {pre post : List Statement} :
    (Statement.forLoop pre e post body).valid dialect Γ =
      (statementsValid dialect (Γ.enter .forLoopPre) pre &&
        e.valid dialect (Γ.declare (pre.flatMap (·.declares))) &&
        e.returns dialect (Γ.declare (pre.flatMap (·.declares))) = 1 &&
        statementsValid dialect
          (((Γ.declare (pre.flatMap (·.declares))).enter .forLoopPost).register post) post &&
        statementsValid dialect
          (((Γ.declare (pre.flatMap (·.declares))).enter .forLoopBody).register body) body) := rfl

lemma valid_forLoop_nil {post : List Statement} :
    (Statement.forLoop [] e post body).valid dialect Γ =
      (e.valid dialect Γ && e.returns dialect Γ = 1 &&
        statementsValid dialect ((Γ.enter .forLoopPost).register post) post &&
        statementsValid dialect ((Γ.enter .forLoopBody).register body) body) := rfl

lemma valid_block :
    (Statement.block ss).valid dialect Γ = statementsValid dialect (Γ.register ss) ss := rfl

attribute [simp] statementsValid

attribute [simp] casesValid

@[simp] lemma Scope.locals_enter {c : ForLoopComponent} : (Γ.enter c).locals = Γ.locals := rfl

@[simp] lemma Scope.locals_declare {xs : List YulString} :
    (Γ.declare xs).locals = xs ++ Γ.locals := rfl

@[simp] lemma Scope.locals_register : (Γ.register ss).locals = Γ.locals := by
  induction ss with
  | nil => rfl
  | cons s ss ih => cases s <;> first | exact ih | rfl

end

end Yul
