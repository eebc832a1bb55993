import Polc.Sof.SimplificationRules

/-!
# Classes of expressions

`libsvmasm/ExpressionClasses.cpp`: a new expression is looked up, simplified by the rules, and gets
a class of its own if neither helps. What a rule makes of an expression is looked up and simplified
in its turn, part by part.
-/

namespace Sof

namespace ExpressionClasses

/-- The classes, and all expressions ever encountered (`m_expressions`). -/
structure State extends ExpressionClasses where
  expressions : List Expression

/-- Reasons for which no class is found. -/
inductive Stop where
  | exception (e : OptimizerException)
  | unmatchedGroup
  /-- The model ran out of fuel. -/
  | timeout
  deriving DecidableEq, Repr

/-- Neither is less than the other: expressions are compared as tuples of their item, arguments
and sequence number. -/
def Expression.equivalent (e e' : Expression) : Bool :=
  e.item = e'.item && e.arguments = e'.arguments && e.sequenceNumber = e'.sequenceNumber

/-- The expression of an item and its arguments, the class of which is to be found. -/
def toExpression (item : AssemblyItem) (arguments : List Id) (sequenceNumber : Nat) : Expression where
  id := 2 ^ 32 - 1
  item := some item
  arguments :=
    if item.instruction.any SemanticInformation.isCommutativeOperation then
      arguments.insertionSort (· ≤ ·)
    else arguments
  sequenceNumber := sequenceNumber

namespace State

/-- The number of classes. -/
def size (s : State) : Nat := s.representatives.length

def lookup (s : State) (e : Expression) : Option Expression := s.expressions.find? e.equivalent

/-- Nothing changes where there is such an expression. -/
def insert (s : State) (e : Expression) : State :=
  if (s.lookup e).isSome then s else { s with expressions := e :: s.expressions }

/-- The expression becomes the representative of a class of its own. -/
def pushRepresentative (s : State) (e : Expression) : Id × State :=
  let e := { e with id := s.size }
  (s.size, State.insert { s with representatives := s.representatives ++ [e] } e)

/-- The expression is put into the given class, or into a new one if there is none. -/
def register (s : State) (e : Expression) (id : Option Id) : Id × State :=
  match id with
  | some id => if id < s.size then (id, s.insert { e with id }) else s.pushRepresentative e
  | none => s.pushRepresentative e

/-- A new class, different from all others. -/
def newClass (s : State) : Id × State :=
  s.pushRepresentative
    ⟨s.size, some (.undefinedItem (BitVec.ofNat 256 (2 ^ 255 + s.size))), [], 0⟩

/-- Forces the item with the arguments to the class. -/
def forceEqual (s : State) (id : Id) (item : AssemblyItem) (arguments : List Id) : State :=
  s.insert { toExpression item arguments 0 with id }

end State

section

variable (find : State → AssemblyItem → List Id → Except Stop (Id × State)) (groups : MatchGroups)

mutual

/-- Rebuilds an expression from a matched pattern. -/
def rebuildExpression (s : State) : Pattern → Except Stop (Id × State)
  | .group g =>
    match groups g with
    | some e => .ok (e.id, s)
    | none => .error .unmatchedGroup
  | .constant w => find s (.push w) []
  | .operation i ps =>
    (rebuildArguments s ps).bind fun (arguments, s) => find s (.operation i) arguments

def rebuildArguments (s : State) : List Pattern → Except Stop (List Id × State)
  | [] => .ok ([], s)
  | p :: ps =>
    (rebuildExpression s p).bind fun (id, s) =>
      (rebuildArguments s ps).bind fun (ids, s) => .ok (id :: ids, s)

end

end

/-- Tries to simplify the expression, and returns its class if that is possible. -/
def tryToSimplify (find : State → AssemblyItem → List Id → Except Stop (Id × State)) (s : State)
    (e : Expression) : Except Stop (Option Id × State) :=
  match e.item with
  | some (.operation i) =>
    if SemanticInformation.isDeterministic i then
      match Rules.findFirstMatch s.toExpressionClasses e with
      | .error x => .error (.exception x)
      | .ok none => .ok (none, s)
      | .ok (some (rule, groups)) =>
        (rebuildExpression find groups s (rule.action groups.d)).bind fun (id, s) =>
          .ok (some id, s)
    else .ok (none, s)
  | _ => .ok (none, s)

/-- The expression is known already. -/
def known (s : State) (item : AssemblyItem) (e : Expression) : Option Expression :=
  if item.instruction.all SemanticInformation.isDeterministic then s.lookup e else none

/-- Retrieves the class of the item applied to the given classes. -/
def find (fuel : Nat) (s : State) (item : AssemblyItem) (arguments : List Id)
    (sequenceNumber : Nat) : Except Stop (Id × State) :=
  match fuel with
  | 0 => .error .timeout
  | fuel + 1 =>
    let e := toExpression item arguments sequenceNumber
    match known s item e with
    | some e' => .ok (e'.id, s)
    | none =>
      (tryToSimplify (fun s item arguments => find fuel s item arguments 0) s e).bind
        fun (id, s) => .ok (s.register e id)

/-- The states in which classes are asked for. Items are forced to classes of constants only. -/
inductive Reachable : State → Prop
  | empty : Reachable ⟨⟨[]⟩, []⟩
  | find {s s' : State} {fuel : Nat} {item : AssemblyItem} {arguments : List Id}
      {sequenceNumber : Nat} {id : Id} (hs : Reachable s) (harguments : ∀ a ∈ arguments, a < s.size)
      (h : find fuel s item arguments sequenceNumber = .ok (id, s')) : Reachable s'
  | newClass {s : State} (hs : Reachable s) : Reachable s.newClass.2
  | forceEqual {s : State} {id : Id} {e : Expression} {w : Word} {item : AssemblyItem}
      {arguments : List Id} (hs : Reachable s) (hid : s.representative id = some e)
      (he : e.item = some (.push w)) (harguments : ∀ a ∈ arguments, a < s.size) :
      Reachable (s.forceEqual id item arguments)

end ExpressionClasses

end Sof
