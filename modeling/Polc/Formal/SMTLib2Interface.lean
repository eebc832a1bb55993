import Polc.Semantics.Declarations

/-!
# Expressions for solvers

`libpolynomial/formal/SolverInterface.h`: the sorts and expressions of SMT-LIB2.
-/

namespace Polynomial.Smt

/-- `Sort` of the source. -/
inductive SmtSort where
  | int
  | bool
  | function (domain : List SmtSort) (codomain : SmtSort)
  | array (domain range : SmtSort)

/-- An expression has a name, arguments and a sort. The constructors tell where the source makes it. -/
inductive Expression where
  /-- `newVariable` -/
  | symbol (name : String) (sort : SmtSort)
  /-- The constructors for truth values and numbers. -/
  | literal (name : String) (sort : SmtSort)
  /-- The operators, `ite`, `select` and `store`. -/
  | operation (name : String) (arguments : List Expression) (sort : SmtSort)
  /-- `operator()` on a variable whose sort is that of a function. -/
  | application (name : String) (arguments : List Expression) (sort : SmtSort)

namespace Expression

def name : Expression → String
  | symbol name _ | literal name _ | operation name _ _ | application name _ _ => name

def arguments : Expression → List Expression
  | symbol _ _ | literal _ _ => []
  | operation _ arguments _ | application _ arguments _ => arguments

def sort : Expression → SmtSort
  | symbol _ sort | literal _ sort | operation _ _ sort | application _ _ sort => sort

mutual
/-- The variables that occur, functions included. -/
def symbols : Expression → List String
  | symbol name _ => [name]
  | literal _ _ => []
  | operation _ arguments _ => symbolsOf arguments
  | application name arguments _ => name :: symbolsOf arguments

def symbolsOf : List Expression → List String
  | [] => []
  | e :: es => e.symbols ++ symbolsOf es
end

end Expression

end Polynomial.Smt

/-!
## The SMT-LIB2 interface

`libpolynomial/formal/SMTLib2Interface.cpp`: the text for a solver is written into a stack of frames,
of which `pop` drops the last one. The names that were declared are kept beside it.
-/

namespace Polynomial.Smt

open Semantics

mutual
def toSExpr : Expression → String
  | .symbol name _ | .literal name _ => name
  | .operation name arguments _ | .application name arguments _ =>
    if arguments.isEmpty then name else "(" ++ name ++ argumentsText arguments ++ ")"

def argumentsText : List Expression → String
  | [] => ""
  | arg :: args => " " ++ toSExpr arg ++ argumentsText args
end

/-- There is none for functions. -/
def toSmtLibSort : SmtSort → Option String
  | .int => some "Int"
  | .bool => some "Bool"
  | .array domain range => do
    return "(Array " ++ (← toSmtLibSort domain) ++ " " ++ (← toSmtLibSort range) ++ ")"
  | .function _ _ => none

def toSmtLibSorts (sorts : List SmtSort) : Option String := do
  let texts ← sorts.mapM toSmtLibSort
  return "(" ++ String.join (texts.map (· ++ " ")) ++ ")"

/-- The name of the constant for the value of an expression. -/
def evaluationName (i : ℕ) : String := "EVALEXPR_" ++ toString i

/-- A command of a script. -/
inductive Command where
  | setting (text : String)
  | declareFun (name domain codomain : String)
  | assert (e : Expression)
  | declareConst (i : ℕ) (sort : String)
  | assertEvaluation (i : ℕ) (e : Expression)
  | checkSat
  | getValue (count : ℕ)

namespace Command

def text : Command → String
  | setting text => text
  | declareFun name domain codomain =>
    "(declare-fun |" ++ name ++ "| " ++ domain ++ " " ++ codomain ++ ")"
  | assert e => "(assert " ++ toSExpr e ++ ")"
  | declareConst i sort => "(declare-const |" ++ evaluationName i ++ "| " ++ sort ++ ")"
  | assertEvaluation i e => "(assert (= |" ++ evaluationName i ++ "| " ++ toSExpr e ++ "))"
  | checkSat => "(check-sat)"
  | getValue count => "(get-value (" ++
      String.join ((List.range count).map fun i => "|" ++ evaluationName i ++ "| ") ++ "))"

/-- The names that a command declares. -/
def declares : Command → List String
  | declareFun name _ _ => [name]
  | declareConst i _ => [evaluationName i]
  | _ => []

/-- The names that a command uses. -/
def uses : Command → List String
  | assert e => e.symbols
  | assertEvaluation i e => evaluationName i :: e.symbols
  | getValue count => (List.range count).map evaluationName
  | _ => []

end Command

/-- Every command is on a line of its own. -/
def linesOf (commands : List Command) : String :=
  String.join (commands.map fun c => c.text ++ "\n")

/-! ### The interface -/

inductive CheckResult where
  | satisfiable
  | unsatisfiable
  | unknown
  | conflicting
  | error
  deriving DecidableEq

/-- The last frame comes first. -/
structure SMTLib2Interface where
  accumulatedOutput : List (List Command)
  declaredVariables : List String
  unhandledQueries : List String

namespace SMTLib2Interface

variable (st : SMTLib2Interface)

/-- Fails without a frame. -/
def write (c : Command) : Option SMTLib2Interface :=
  match st.accumulatedOutput with
  | [] => none
  | frame :: frames => some { st with accumulatedOutput := (frame ++ [c]) :: frames }

def reset : SMTLib2Interface :=
  { st with
    accumulatedOutput :=
      [[.setting "(set-option :produce-models true)", .setting "(set-logic QF_UFLIA)"]]
    declaredVariables := [] }

/-- The interface after its construction. -/
def initial : SMTLib2Interface := reset ⟨[], [], []⟩

def push : SMTLib2Interface := { st with accumulatedOutput := [] :: st.accumulatedOutput }

def pop : Option SMTLib2Interface :=
  match st.accumulatedOutput with
  | [] => none
  | _ :: frames => some { st with accumulatedOutput := frames }

/-- The domain and the codomain in a declaration. -/
def declarationSorts : SmtSort → Option (String × String)
  | .function domain codomain => do return (← toSmtLibSorts domain, ← toSmtLibSort codomain)
  | sort => do return ("()", ← toSmtLibSort sort)

/-- `declareVariable` and `declareFunction`. -/
def declareVariable (name : String) (sort : SmtSort) : Option SMTLib2Interface :=
  if name ∈ st.declaredVariables then some st
  else do
    let (domain, codomain) ← declarationSorts sort
    { st with declaredVariables := name :: st.declaredVariables }.write (.declareFun name domain codomain)

def addAssertion (e : Expression) : Option SMTLib2Interface := st.write (.assert e)

/-- Only numbers and truth values are evaluated. -/
def evaluationSort : SmtSort → Option String
  | .int => some "Int"
  | .bool => some "Bool"
  | _ => none

/-- The declarations and assertions for the values of expressions. -/
def evaluations : ℕ → List Expression → Option (List Command)
  | _, [] => some []
  | i, e :: es => do
    let sort ← evaluationSort e.sort
    return .declareConst i sort :: .assertEvaluation i e :: (← evaluations (i + 1) es)

def checkSatAndGetValuesCommand (expressionsToEvaluate : List Expression) :
    Option (List Command) :=
  if expressionsToEvaluate.isEmpty then some [.checkSat]
  else do
    return (← evaluations 0 expressionsToEvaluate) ++
      [.checkSat, .getValue expressionsToEvaluate.length]

/-- The frames in the order in which they were opened. -/
def output : List Command := st.accumulatedOutput.reverse.flatten

/-- The script that `check` passes to `querySolver`. -/
def script (expressionsToEvaluate : List Expression) : Option (List Command) := do
  return st.output ++ (← checkSatAndGetValuesCommand expressionsToEvaluate)

/-- Its text. The frames are separated by an additional line break. -/
def queryText (commands : List Command) : String :=
  String.intercalate "\n" (st.accumulatedOutput.reverse.map linesOf) ++ linesOf commands

/-- `queryResponses` gives the response to a query, if there is one for its hash. -/
def querySolver (queryResponses : String → Option String) (input : String) :
    String × SMTLib2Interface :=
  match queryResponses input with
  | some response => (response, st)
  | none => ("unknown\n", { st with unhandledQueries := st.unhandledQueries ++ [input] })

/-- The parts between a blank and a closing parenthesis. -/
def parseValues (response : List Char) : List String :=
  if response = [] then []
  else
    let value := (response.dropWhile (· ≠ ' ')).drop 1
    String.ofList (value.takeWhile (· ≠ ')')) ::
      parseValues ((value.dropWhile (· ≠ ')')).dropWhile (· ≠ '('))
termination_by response.length
decreasing_by
  have hpos := List.length_pos_iff.mpr ‹response ≠ []›
  have hvalue := (List.dropWhile_suffix (l := response) (· ≠ ' ')).length_le
  have hrest := (List.dropWhile_suffix (l := (response.dropWhile (· ≠ ' ')).drop 1)
    (· ≠ ')')).length_le
  have hnext := (List.dropWhile_suffix (l := ((response.dropWhile (· ≠ ' ')).drop 1).dropWhile
    (· ≠ ')')) (· ≠ '(')).length_le
  rw [List.length_drop] at hrest
  omega

def check (queryResponses : String → Option String) (expressionsToEvaluate : List Expression) :
    Option ((CheckResult × List String) × SMTLib2Interface) := do
  let commands ← checkSatAndGetValuesCommand expressionsToEvaluate
  let (response, st') := st.querySolver queryResponses (st.queryText commands)
  let result :=
    if response.startsWith "sat\n" then CheckResult.satisfiable
    else if response.startsWith "unsat\n" then .unsatisfiable
    else if response.startsWith "unknown\n" then .unknown
    else .error
  let values :=
    if result = .satisfiable then parseValues (response.toList.dropWhile (· ≠ '\n')) else []
  return ((result, values), st')

end SMTLib2Interface

end Polynomial.Smt
