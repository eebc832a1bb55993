import Polc.Sof.Machine

/-!
# The list of simplification rules

`libsvmasm/RuleList.h`, a template over the pattern type in the source: both optimisers
instantiate it, each with its own way to match a pattern. Here one type of patterns serves
both and the two ways to match are functions on it.
-/

namespace Sof

/-- The placeholders of the rules: `A`, `B` and `C` stand for constants, `X` and `Y` for
arbitrary expressions. -/
inductive MatchGroup where
  | A | B | C | X | Y
  deriving DecidableEq, Repr

/-- The placeholder matches constants only. -/
def MatchGroup.isConstant : MatchGroup → Bool
  | A | B | C => true
  | X | Y => false

/-- What is matched against an expression, and what a rule replaces it by. -/
inductive Pattern where
  | constant (value : Word)
  | group (g : MatchGroup)
  | operation (instruction : Instruction) (arguments : List Pattern)

namespace Pattern

instance : Coe MatchGroup Pattern := ⟨group⟩

instance : Coe Word Pattern := ⟨constant⟩

instance (n : Nat) : OfNat Pattern n := ⟨constant (.ofNat 256 n)⟩

mutual

/-- The placeholders that occur in a pattern. -/
def groups : Pattern → List MatchGroup
  | constant _ => []
  | group g => [g]
  | operation _ ps => groupsOfArguments ps

def groupsOfArguments : List Pattern → List MatchGroup
  | [] => []
  | p :: ps => p.groups ++ groupsOfArguments ps

end

attribute [simp] groups groupsOfArguments

@[simp] lemma groups_ofNat (n : Nat) : groups (no_index (OfNat.ofNat n)) = [] := rfl

end Pattern

/-- Rule that contains a pattern, an action that can be applied after the pattern has matched
and a flag that indicates whether the action would remove something from the expression that
is not a constant literal. Action and feasibility test read the matched constants. -/
structure SimplificationRule where
  pattern : Pattern
  action : (MatchGroup → Word) → Pattern
  removesNonConstants : Bool
  feasible : (MatchGroup → Word) → Bool

/-- `u256` to `s256`. -/
def u2s (u : Word) : Int :=
  if u.getLsbD 255 then -(2 ^ 256 - u.toNat) else u.toNat

/-- `s256` to `u256`. -/
def s2u (i : Int) : Word :=
  if 0 ≤ i then .ofNat 256 i.toNat else .ofNat 256 (2 ^ 256 + i).toNat

def divWorkaround (a b : Word) : Word := .ofNat 256 (a.toNat / b.toNat)

def modWorkaround (a b : Word) : Word := .ofNat 256 (a.toNat % b.toNat)

def shlWorkaround (x : Word) (amount : Nat) : Word := .ofNat 256 (x.toNat <<< amount)

/-! ### The rules -/

namespace RuleList

open Instruction MatchGroup Pattern

/-- A rule, by default without a feasibility test. -/
abbrev rule (pattern : Pattern) (action : (MatchGroup → Word) → Pattern)
    (removesNonConstants : Bool) (feasible : (MatchGroup → Word) → Bool := fun _ => true) :
    SimplificationRule :=
  ⟨pattern, action, removesNonConstants, feasible⟩

/-- Arithmetic on constants. -/
def simplificationRuleListPart1 : List SimplificationRule := [
  rule (operation add [A, B]) (fun d => ↑(d A + d B)) false,
  rule (operation mul [A, B]) (fun d => ↑(d A * d B)) false,
  rule (operation sub [A, B]) (fun d => ↑(d A - d B)) false,
  rule (operation div [A, B]) (fun d => ↑(if d B = 0 then 0 else divWorkaround (d A) (d B))) false,
  rule (operation sdiv [A, B])
    (fun d => ↑(if d B = 0 then 0 else s2u ((u2s (d A)).tdiv (u2s (d B))))) false,
  rule (operation mod [A, B]) (fun d => ↑(if d B = 0 then 0 else modWorkaround (d A) (d B))) false,
  rule (operation smod [A, B])
    (fun d => ↑(if d B = 0 then 0 else s2u ((u2s (d A)).tmod (u2s (d B))))) false,
  rule (operation exp [A, B]) (fun d => ↑(BitVec.ofNat 256 ((d A).toNat ^ (d B).toNat % 2 ^ 256)))
    false,
  rule (operation not [A]) (fun d => ↑(~~~d A)) false,
  rule (operation lt [A, B]) (fun d => ↑(if d A < d B then 1 else 0 : Word)) false,
  rule (operation gt [A, B]) (fun d => ↑(if d A > d B then 1 else 0 : Word)) false,
  rule (operation slt [A, B]) (fun d => ↑(if u2s (d A) < u2s (d B) then 1 else 0 : Word)) false,
  rule (operation sgt [A, B]) (fun d => ↑(if u2s (d A) > u2s (d B) then 1 else 0 : Word)) false,
  rule (operation eq [A, B]) (fun d => ↑(if d A = d B then 1 else 0 : Word)) false,
  rule (operation iszero [A]) (fun d => ↑(if d A = 0 then 1 else 0 : Word)) false,
  rule (operation and [A, B]) (fun d => ↑(d A &&& d B)) false,
  rule (operation or [A, B]) (fun d => ↑(d A ||| d B)) false,
  rule (operation xor [A, B]) (fun d => ↑(d A ^^^ d B)) false,
  rule (operation byte [A, B])
    (fun d => ↑(if d A ≥ 32 then 0 else d B >>> (8 * (31 - (d A).toNat)) &&& 0xff : Word)) false,
  rule (operation addmod [A, B, C])
    (fun d => ↑(if d C = 0 then 0
      else BitVec.ofNat 256 (((d A).toNat + (d B).toNat) % (d C).toNat)))
    false,
  rule (operation mulmod [A, B, C])
    (fun d => ↑(if d C = 0 then 0
      else BitVec.ofNat 256 (((d A).toNat * (d B).toNat) % (d C).toNat)))
    false,
  rule (operation mulmod [A, B, C]) (fun d => ↑(d A * d B)) false,
  rule (operation signextend [A, B])
    (fun d =>
      let testBit := (d A).toNat * 8 + 7
      let mask := (1 : Word) <<< testBit - 1
      ↑(if d A ≥ 31 then d B
        else if (d B).getLsbD testBit then d B ||| ~~~mask else d B &&& mask))
    false,
  rule (operation shl [A, B])
    (fun d => ↑(if d A > 255 then 0 else shlWorkaround (d B) (d A).toNat)) false,
  rule (operation shr [A, B]) (fun d => ↑(if d A > 255 then 0 else d B >>> (d A).toNat)) false]

/-- Invariants involving known constants. -/
def simplificationRuleListPart2 : List SimplificationRule := [
  rule (operation add [X, 0]) (fun _ => X) false,
  rule (operation add [0, X]) (fun _ => X) false,
  rule (operation sub [X, 0]) (fun _ => X) false,
  rule (operation mul [X, 0]) (fun _ => 0) true,
  rule (operation mul [0, X]) (fun _ => 0) true,
  rule (operation mul [X, 1]) (fun _ => X) false,
  rule (operation mul [1, X]) (fun _ => X) false,
  rule (operation mul [X, ↑(-1 : Word)]) (fun _ => operation sub [0, X]) false,
  rule (operation mul [↑(-1 : Word), X]) (fun _ => operation sub [0, X]) false,
  rule (operation div [X, 0]) (fun _ => 0) true,
  rule (operation div [0, X]) (fun _ => 0) true,
  rule (operation div [X, 1]) (fun _ => X) false,
  rule (operation sdiv [X, 0]) (fun _ => 0) true,
  rule (operation sdiv [0, X]) (fun _ => 0) true,
  rule (operation sdiv [X, 1]) (fun _ => X) false,
  rule (operation and [X, ↑(~~~0 : Word)]) (fun _ => X) false,
  rule (operation and [↑(~~~0 : Word), X]) (fun _ => X) false,
  rule (operation and [X, 0]) (fun _ => 0) true,
  rule (operation and [0, X]) (fun _ => 0) true,
  rule (operation or [X, 0]) (fun _ => X) false,
  rule (operation or [0, X]) (fun _ => X) false,
  rule (operation or [X, ↑(~~~0 : Word)]) (fun _ => ↑(~~~0 : Word)) true,
  rule (operation or [↑(~~~0 : Word), X]) (fun _ => ↑(~~~0 : Word)) true,
  rule (operation xor [X, 0]) (fun _ => X) false,
  rule (operation xor [0, X]) (fun _ => X) false,
  rule (operation mod [X, 0]) (fun _ => 0) true,
  rule (operation mod [0, X]) (fun _ => 0) true,
  rule (operation eq [X, 0]) (fun _ => operation iszero [X]) false,
  rule (operation eq [0, X]) (fun _ => operation iszero [X]) false,
  rule (operation shl [0, X]) (fun _ => X) false,
  rule (operation shr [0, X]) (fun _ => X) false,
  rule (operation shl [X, 0]) (fun _ => 0) true,
  rule (operation shr [X, 0]) (fun _ => 0) true,
  rule (operation gt [X, 0]) (fun _ => operation iszero [operation iszero [X]]) false,
  rule (operation lt [0, X]) (fun _ => operation iszero [operation iszero [X]]) false,
  rule (operation gt [X, ↑(~~~0 : Word)]) (fun _ => 0) true,
  rule (operation lt [↑(~~~0 : Word), X]) (fun _ => 0) true,
  rule (operation gt [0, X]) (fun _ => 0) true,
  rule (operation lt [X, 0]) (fun _ => 0) true,
  rule (operation and [operation byte [X, Y], 0xff]) (fun _ => operation byte [X, Y]) false,
  rule (operation byte [31, X]) (fun _ => operation and [X, 0xff]) false]

/-- Operations involving an expression and itself. -/
def simplificationRuleListPart3 : List SimplificationRule := [
  rule (operation and [X, X]) (fun _ => X) true,
  rule (operation or [X, X]) (fun _ => X) true,
  rule (operation xor [X, X]) (fun _ => 0) true,
  rule (operation sub [X, X]) (fun _ => 0) true,
  rule (operation eq [X, X]) (fun _ => 1) true,
  rule (operation lt [X, X]) (fun _ => 0) true,
  rule (operation slt [X, X]) (fun _ => 0) true,
  rule (operation gt [X, X]) (fun _ => 0) true,
  rule (operation sgt [X, X]) (fun _ => 0) true,
  rule (operation mod [X, X]) (fun _ => 0) true]

/-- Logical instruction combinations. -/
def simplificationRuleListPart4 : List SimplificationRule := [
  rule (operation not [operation not [X]]) (fun _ => X) false,
  rule (operation xor [X, operation xor [X, Y]]) (fun _ => Y) true,
  rule (operation xor [X, operation xor [Y, X]]) (fun _ => Y) true,
  rule (operation xor [operation xor [X, Y], X]) (fun _ => Y) true,
  rule (operation xor [operation xor [Y, X], X]) (fun _ => Y) true,
  rule (operation or [X, operation and [X, Y]]) (fun _ => X) true,
  rule (operation or [X, operation and [Y, X]]) (fun _ => X) true,
  rule (operation or [operation and [X, Y], X]) (fun _ => X) true,
  rule (operation or [operation and [Y, X], X]) (fun _ => X) true,
  rule (operation and [X, operation or [X, Y]]) (fun _ => X) true,
  rule (operation and [X, operation or [Y, X]]) (fun _ => X) true,
  rule (operation and [operation or [X, Y], X]) (fun _ => X) true,
  rule (operation and [operation or [Y, X], X]) (fun _ => X) true,
  rule (operation and [X, operation not [X]]) (fun _ => 0) true,
  rule (operation and [operation not [X], X]) (fun _ => 0) true,
  rule (operation or [X, operation not [X]]) (fun _ => ↑(~~~0 : Word)) true,
  rule (operation or [operation not [X], X]) (fun _ => ↑(~~~0 : Word)) true]

/-- Replace `MOD X, 2^i` with `AND X, 2^i - 1`. -/
def modPowerOfTwo (i : Nat) : SimplificationRule :=
  let value := (1 : Word) <<< i
  rule (operation mod [X, value]) (fun _ => operation and [X, ↑(value - 1)]) false

/-- Replace a shift by at least 256 with 0. -/
def shiftOut (shiftOp : Instruction) : SimplificationRule :=
  rule (operation shiftOp [A, X]) (fun _ => 0) true (fun d => d A ≥ 256)

/-- The 160 low bits. -/
def addressMask : Word := (1 : Word) <<< 160 - 1

/-- Remove the mask from opcodes that return an address. The arguments of `CREATE` and `CREATE2`
are left out, as in the source. -/
def addressMaskRules (op : Instruction) : List SimplificationRule := [
  rule (operation and [operation op [], addressMask]) (fun _ => operation op []) false,
  rule (operation and [addressMask, operation op []]) (fun _ => operation op []) false]

def simplificationRuleListPart5 : List SimplificationRule :=
  (List.range 256).map modPowerOfTwo ++ [shiftOut shl, shiftOut shr] ++
    [address, caller, origin, coinbase, create, create2].flatMap addressMaskRules

/-- Double negation of an opcode with boolean result. -/
def doubleNegation (op : Instruction) : SimplificationRule :=
  rule (operation iszero [operation iszero [operation op [X, Y]]]) (fun _ => operation op [X, Y])
    false

def simplificationRuleListPart6 : List SimplificationRule :=
  [eq, lt, slt, gt, sgt].map doubleNegation ++ [
    rule (operation iszero [operation iszero [operation iszero [X]]]) (fun _ => operation iszero [X])
      false,
    rule (operation iszero [operation xor [X, Y]]) (fun _ => operation eq [X, Y]) false]

/-- Move constants to the outside of an associative operation; `xa` is `X, A` or `A, X`. -/
def moveConstantOut (op : Instruction) (f : Word → Word → Word) (xa : List Pattern) :
    List SimplificationRule := [
  -- (X+A)+B -> X+(A+B)
  rule (operation op [operation op xa, B]) (fun d => operation op [X, ↑(f (d A) (d B))]) false,
  -- (X+A)+Y -> (X+Y)+A
  rule (operation op [operation op xa, Y]) (fun _ => operation op [operation op [X, Y], A]) false,
  -- B+(X+A) -> X+(A+B)
  rule (operation op [B, operation op xa]) (fun d => operation op [X, ↑(f (d A) (d B))]) false,
  -- Y+(X+A) -> (Y+X)+A
  rule (operation op [Y, operation op xa]) (fun _ => operation op [operation op [Y, X], A]) false]

def associativeOperation (opFun : Instruction × (Word → Word → Word)) :
    List SimplificationRule :=
  moveConstantOut opFun.1 opFun.2 [X, A] ++ moveConstantOut opFun.1 opFun.2 [A, X]

/-- Combine two shifts by constants in the same direction. -/
def combineShifts (shiftOp : Instruction) : SimplificationRule :=
  rule (operation shiftOp [B, operation shiftOp [A, X]])
    (fun d =>
      let sum := (d A).toNat + (d B).toNat
      if sum ≥ 256 then operation and [X, 0]
      else operation shiftOp [↑(BitVec.ofNat 256 sum), X])
    false

/-- `SHR(B, SHL(A, X)) -> AND(SH[L/R]([B - A / A - B], X), Mask)` -/
def combineShlShr : SimplificationRule :=
  rule (operation shr [B, operation shl [A, X]])
    (fun d =>
      let mask := shlWorkaround (-1) (d A).toNat >>> (d B).toNat
      if d A > d B then operation and [operation shl [↑(d A - d B), X], mask]
      else if d B > d A then operation and [operation shr [↑(d B - d A), X], mask]
      else operation and [X, mask])
    false (fun d => d A < 256 && d B < 256)

/-- `SHL(B, SHR(A, X)) -> AND(SH[L/R]([B - A / A - B], X), Mask)` -/
def combineShrShl : SimplificationRule :=
  rule (operation shl [B, operation shr [A, X]])
    (fun d =>
      let mask := shlWorkaround ((-1 : Word) >>> (d A).toNat) (d B).toNat
      if d A > d B then operation and [operation shr [↑(d A - d B), X], mask]
      else if d B > d A then operation and [operation shl [↑(d B - d A), X], mask]
      else operation and [X, mask])
    false (fun d => d A < 256 && d B < 256)

/-- Move `AND` with a constant across a shift by a constant; `xa` is `X, A` or `A, X`. -/
def moveMaskOut (shiftOp : Instruction) (xa : List Pattern) : SimplificationRule :=
  rule (operation shiftOp [B, operation and xa])
    (fun d =>
      let mask :=
        if shiftOp = shl then shlWorkaround (d A) (d B).toNat else d A >>> (d B).toNat
      operation and [operation shiftOp [B, X], mask])
    false (fun d => d B < 256)

/-- The constant `A` masks nothing that a right shift by `B` leaves. -/
def feasibilityFunction (d : MatchGroup → Word) : Bool :=
  if d B > 256 then false
  else d A &&& ((-1 : Word) >>> (d B).toNat) == (-1 : Word) >>> (d B).toNat

def simplificationRuleListPart7 : List SimplificationRule :=
  [(add, (· + ·)), (mul, (· * ·)), (and, (· &&& ·)), (or, (· ||| ·)),
    (xor, (· ^^^ ·))].flatMap associativeOperation ++
  [combineShifts shl, combineShifts shr, combineShlShr, combineShrShl] ++
  [shl, shr].flatMap (fun shiftOp => [moveMaskOut shiftOp [X, A], moveMaskOut shiftOp [A, X]]) ++ [
    -- MUL(X, SHL(Y, 1)) -> SHL(Y, X)
    rule (operation mul [X, operation shl [Y, 1]]) (fun _ => operation shl [Y, X]) false,
    -- MUL(SHL(X, 1), Y) -> SHL(X, Y)
    rule (operation mul [operation shl [X, 1], Y]) (fun _ => operation shl [X, Y]) false,
    -- DIV(X, SHL(Y, 1)) -> SHR(Y, X)
    rule (operation div [X, operation shl [Y, 1]]) (fun _ => operation shr [Y, X]) false,
    -- AND(A, SHR(B, X)) -> A & ((2^256-1) >> B) == ((2^256-1) >> B)
    rule (operation and [A, operation shr [B, X]]) (fun _ => operation shr [B, X]) false
      feasibilityFunction,
    -- AND(SHR(B, X), A) -> ((2^256-1) >> B) & A == ((2^256-1) >> B)
    rule (operation and [operation shr [B, X], A]) (fun _ => operation shr [B, X]) false
      feasibilityFunction]

/-- Move constants across subtractions. -/
def simplificationRuleListPart8 : List SimplificationRule := [
  -- X - A -> X + (-A)
  rule (operation sub [X, A]) (fun d => operation add [X, ↑(0 - d A)]) false,
  -- (X + A) - Y -> (X - Y) + A
  rule (operation sub [operation add [X, A], Y]) (fun _ => operation add [operation sub [X, Y], A])
    false,
  -- (A + X) - Y -> (X - Y) + A
  rule (operation sub [operation add [A, X], Y]) (fun _ => operation add [operation sub [X, Y], A])
    false,
  -- X - (Y + A) -> (X - Y) + (-A)
  rule (operation sub [X, operation add [Y, A]])
    (fun d => operation add [operation sub [X, Y], ↑(0 - d A)]) false,
  -- X - (A + Y) -> (X - Y) + (-A)
  rule (operation sub [X, operation add [A, Y]])
    (fun d => operation add [operation sub [X, Y], ↑(0 - d A)]) false]

end RuleList

/-- The simplification rules, in the order in which they are tried. -/
def simplificationRuleList : List SimplificationRule :=
  RuleList.simplificationRuleListPart1 ++ RuleList.simplificationRuleListPart2 ++
  RuleList.simplificationRuleListPart3 ++ RuleList.simplificationRuleListPart4 ++
  RuleList.simplificationRuleListPart5 ++ RuleList.simplificationRuleListPart6 ++
  RuleList.simplificationRuleListPart7 ++ RuleList.simplificationRuleListPart8

end Sof
