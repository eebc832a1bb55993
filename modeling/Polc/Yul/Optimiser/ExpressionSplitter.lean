import Polc.Yul.Interpreter.Trace
import Polc.Yul.Optimiser.NameDispenser

/-!
# Splitting expressions

`libyul/optimiser/ExpressionSplitter.cpp`: the arguments of functions, the conditions of `if` and
the expressions of `switch` become variables that are declared in front of the statement.
-/

namespace Yul

open Sof Semantics List

namespace ExpressionSplitter

/-- Visited code, with the declarations to put in front of the statement around it
(`m_statementsToPrefix`). -/
structure Outlined (α : Type) where
  statementsToPrefix : List Statement
  code : α
  nameDispenser : NameDispenser

/-- `outlineExpression`, from the visited expression. -/
def outline (D : NameDispenser) (e : Expression) (visited : Outlined Expression) :
    Outlined Expression :=
  match e with
  | .identifier x => ⟨[], .identifier x, D⟩
  | _ =>
    let var := visited.nameDispenser.newName ""
    ⟨visited.statementsToPrefix ++ [.variableDeclaration [⟨var.1, ""⟩] (some visited.code)],
      .identifier var.1, var.2⟩

section

variable (dialect : Dialect)

mutual

def visit (D : NameDispenser) : Expression → Outlined Expression
  | .functionalInstruction i args =>
    let r := outlineArguments D args
    ⟨r.statementsToPrefix, .functionalInstruction i r.code, r.nameDispenser⟩
  | .functionCall f args =>
    -- Arguments that have to be literals stay.
    if dialect.requiresLiterals f then ⟨[], .functionCall f args, D⟩
    else
      let r := outlineArguments D args
      ⟨r.statementsToPrefix, .functionCall f r.code, r.nameDispenser⟩
  | .identifier x => ⟨[], .identifier x, D⟩
  | .literal l => ⟨[], .literal l, D⟩

/-- Outline the arguments from right to left. -/
def outlineArguments (D : NameDispenser) : List Expression → Outlined (List Expression)
  | [] => ⟨[], [], D⟩
  | e :: es =>
    let r := outlineArguments D es
    let q := outline r.nameDispenser e (visit r.nameDispenser e)
    ⟨r.statementsToPrefix ++ q.statementsToPrefix, q.code :: r.code, q.nameDispenser⟩

end

def outlineExpression (D : NameDispenser) (e : Expression) : Outlined Expression :=
  outline D e (visit dialect D e)

/-- The value of a declaration. -/
def visitValue (D : NameDispenser) : Option Expression → Outlined (Option Expression)
  | none => ⟨[], none, D⟩
  | some e =>
    let r := visit dialect D e
    ⟨r.statementsToPrefix, some r.code, r.nameDispenser⟩

mutual

def statement (D : NameDispenser) : Statement → Outlined Statement
  | .expressionStatement e =>
    let r := visit dialect D e
    ⟨r.statementsToPrefix, .expressionStatement r.code, r.nameDispenser⟩
  | .assignment xs e =>
    let r := visit dialect D e
    ⟨r.statementsToPrefix, .assignment xs r.code, r.nameDispenser⟩
  | .variableDeclaration xs value =>
    let r := visitValue dialect D value
    ⟨r.statementsToPrefix, .variableDeclaration xs r.code, r.nameDispenser⟩
  | .functionDefinition f ps rs body =>
    let r := statements D body
    ⟨[], .functionDefinition f ps rs r.1, r.2⟩
  | .if c body =>
    let q := outlineExpression dialect D c
    let r := statements q.nameDispenser body
    ⟨q.statementsToPrefix, .if q.code r.1, r.2⟩
  | .switch e cs =>
    let q := outlineExpression dialect D e
    let r := cases q.nameDispenser cs
    ⟨q.statementsToPrefix, .switch q.code r.1, r.2⟩
  | .forLoop pre c post body =>
    -- The condition is evaluated in every iteration and stays.
    let r := statements D pre
    let q := statements r.2 post
    let t := statements q.2 body
    ⟨[], .forLoop r.1 c q.1 t.1, t.2⟩
  | .break => ⟨[], .break, D⟩
  | .continue => ⟨[], .continue, D⟩
  | .block ss =>
    let r := statements D ss
    ⟨[], .block r.1, r.2⟩

def statements (D : NameDispenser) : List Statement → List Statement × NameDispenser
  | [] => ([], D)
  | s :: ss =>
    let r := statement D s
    let q := statements r.nameDispenser ss
    (r.statementsToPrefix ++ r.code :: q.1, q.2)

def cases (D : NameDispenser) : List Case → List Case × NameDispenser
  | [] => ([], D)
  | .mk value body :: cs =>
    let r := statements D body
    let q := cases r.2 cs
    (.mk value r.1 :: q.1, q.2)

end

/-- Run the step on a program, with the state of the name dispenser. -/
def run (nameDispenser : NameDispenser) (ss : Block) : Block :=
  (statements dialect nameDispenser ss).1

end

end ExpressionSplitter

end Yul

/-!
## What the expression splitter declares

The declarations in front of a statement declare new variables, and nothing is declared twice.
-/

namespace Yul

open NameDispenser List

namespace ExpressionSplitter

/-- The statements in front of a statement declare one new variable each. -/
structure Declarations (D D' : NameDispenser) (pre : List Statement) : Prop where
  renewed : Renewed D D' [] (namesOfStatements pre)
  declares : namesOfStatements pre = pre.flatMap (·.declares)
  functions : functionDefinitions pre = []

section

variable {D D' D'' : NameDispenser} {pre pre' : List Statement}

lemma Declarations.nil (D : NameDispenser) : Declarations D D [] := ⟨.refl D [], rfl, rfl⟩

lemma Declarations.append (h : Declarations D D' pre) (h' : Declarations D' D'' pre') :
    Declarations D D'' (pre ++ pre') where
  renewed := by
    rw [names_append]
    exact h.renewed.append h'.renewed
  declares := by
    rw [names_append, flatMap_append, h.declares, h'.declares]
  functions := by
    rw [definitions_append, h.functions, h'.functions]
    rfl

lemma Declarations.newName (D : NameDispenser) (e : Expression) :
    Declarations D (D.newName "").2 [.variableDeclaration [⟨(D.newName "").1, ""⟩] (some e)] where
  renewed := by
    refine ⟨subset_cons_self _ _, nil_subset _, fun x hx => .inr ?_,
      fun _ _ => nodup_singleton _⟩
    obtain rfl : x = (D.newName "").1 := List.mem_singleton.mp hx
    exact ⟨(D.fresh_newName "").notUsed, mem_cons_self⟩
  declares := rfl
  functions := rfl

lemma declarations_outline {e : Expression} {visited : Outlined Expression}
    (h : Declarations D visited.nameDispenser visited.statementsToPrefix) :
    Declarations D (outline D e visited).nameDispenser (outline D e visited).statementsToPrefix := by
  cases e with
  | identifier x => exact .nil D
  | _ => exact h.append (.newName _ _)

lemma Declarations.cons {old new : List YulString} (h : Declarations D D' pre)
    (h' : Renewed D' D'' old new) : Renewed D D'' old (namesOfStatements pre ++ new) :=
  h.renewed.append h'

variable (dialect : Dialect)

mutual

lemma declarations_visit (e : Expression) (D : NameDispenser) :
    Declarations D (visit dialect D e).nameDispenser (visit dialect D e).statementsToPrefix := by
  match e with
  | .functionalInstruction i args => exact declarations_outlineArguments args D
  | .functionCall f args =>
    rw [visit]
    by_cases hf : dialect.requiresLiterals f = true
    · rw [if_pos hf]
      exact .nil D
    · rw [if_neg hf]
      exact declarations_outlineArguments args D
  | .identifier x | .literal l => exact .nil D

lemma declarations_outlineArguments (es : List Expression) (D : NameDispenser) :
    Declarations D (outlineArguments dialect D es).nameDispenser
      (outlineArguments dialect D es).statementsToPrefix := by
  match es with
  | [] => exact .nil D
  | e :: es =>
    exact (declarations_outlineArguments es D).append
      (declarations_outline (declarations_visit e _))

end

lemma declarations_outlineExpression (e : Expression) (D : NameDispenser) :
    Declarations D (outlineExpression dialect D e).nameDispenser
      (outlineExpression dialect D e).statementsToPrefix :=
  declarations_outline (declarations_visit dialect e D)

lemma declarations_visitValue (value : Option Expression) (D : NameDispenser) :
    Declarations D (visitValue dialect D value).nameDispenser
      (visitValue dialect D value).statementsToPrefix := by
  cases value with
  | none => exact .nil D
  | some e => exact declarations_visit dialect e D

lemma declarations_statement (s : Statement) (D : NameDispenser) :
    ∃ D', Declarations D D' (statement dialect D s).statementsToPrefix := by
  cases s with
  | expressionStatement e | assignment xs e => exact ⟨_, declarations_visit dialect e D⟩
  | variableDeclaration xs value => exact ⟨_, declarations_visitValue dialect value D⟩
  | «if» c body => exact ⟨_, declarations_outlineExpression dialect c D⟩
  | «switch» e cs => exact ⟨_, declarations_outlineExpression dialect e D⟩
  | _ => exact ⟨_, .nil D⟩

mutual

lemma statement_renewed (s : Statement) (D : NameDispenser) :
    Renewed D (statement dialect D s).nameDispenser s.names
      (namesOfStatements (statement dialect D s).statementsToPrefix ++
        (statement dialect D s).code.names) := by
  match s with
  | .expressionStatement e | .assignment xs e => exact (declarations_visit dialect e D).cons (.refl _ _)
  | .variableDeclaration xs value => exact (declarations_visitValue dialect value D).cons (.refl _ _)
  | .functionDefinition f ps rs body => exact (statements_renewed body D).append_left _
  | .if c body => exact (declarations_outlineExpression dialect c D).cons (statements_renewed body _)
  | .switch e cs => exact (declarations_outlineExpression dialect e D).cons (cases_renewed cs _)
  | .forLoop pre c post body =>
    have h := ((statements_renewed pre D).append (statements_renewed post _)).append
      (statements_renewed body _)
    have hperm (xs ys zs : List YulString) : (xs ++ ys ++ zs).Perm (xs ++ zs ++ ys) := by
      rw [append_assoc, append_assoc]
      exact List.perm_append_comm.append_left _
    exact h.of_perm (hperm _ _ _) (hperm _ _ _)
  | .break | .continue => exact .refl _ _
  | .block ss => exact statements_renewed ss D

lemma statements_renewed (ss : List Statement) (D : NameDispenser) :
    Renewed D (statements dialect D ss).2 (namesOfStatements ss)
      (namesOfStatements (statements dialect D ss).1) := by
  match ss with
  | [] => exact .refl _ _
  | s :: ss =>
    have h := (statement_renewed s D).append (statements_renewed ss _)
    rw [statements, names_append]
    simpa only [namesOfStatements, append_assoc] using h

lemma cases_renewed (cs : List Case) (D : NameDispenser) :
    Renewed D (cases dialect D cs).2 (namesOfCases cs) (namesOfCases (cases dialect D cs).1) := by
  match cs with
  | [] => exact .refl _ _
  | .mk value body :: cs => exact (statements_renewed body D).append (cases_renewed cs _)

end

end

end ExpressionSplitter

end Yul
