import Polc.Parsing.Parser
import Mathlib.Logic.Function.Iterate
import Mathlib.Tactic.Common

/-!
# Precedences of operators

A tree of identifiers and operators is printed with the parentheses that it needs. The parser
takes the tokens back to the tree, unless it nests too deep.
-/

namespace Polynomial

namespace Parser

variable {TypeName : Type}

/-! ### Trees -/

inductive Tree where
  | identifier (name : String)
  | prefixOperation (op : {op : Token // op.isUnaryOp}) (subTree : Tree)
  | postfixOperation (subTree : Tree) (op : {op : Token // op.isCountOp})
  | binaryOperation (left : Tree) (op : BinaryOperator) (right : Tree)
  | conditional (condition trueTree falseTree : Tree)
  | assignment (leftHandSide : Tree) (op : AssignmentOperator) (rightHandSide : Tree)

namespace Tree

def level : Tree → ℕ
  | assignment .. => 2
  | conditional .. => 3
  | binaryOperation _ op _ => (Token.binary op).precedence
  | prefixOperation .. | postfixOperation .. => 16
  | identifier _ => 17

/-- What holds an operand, in parentheses where its level is below its place. -/
def operand {α : Type} (parentheses : α → α) (level place : ℕ) (a : α) : α :=
  if level < place then parentheses a else a

def parenthesise (ts : List Token) : List Token := .lParen :: (ts ++ [.rParen])

/-- The right operand of an operator stands one place above the left one. -/
def tokens : Tree → List Token
  | identifier name => [.identifier name]
  | prefixOperation op t => op.1 :: operand parenthesise t.level 16 t.tokens
  | postfixOperation t op => operand parenthesise t.level 17 t.tokens ++ [op.1]
  | binaryOperation l op r =>
    operand parenthesise l.level (Token.binary op).precedence l.tokens ++ .binary op ::
      operand parenthesise r.level ((Token.binary op).precedence + 1) r.tokens
  | conditional c t f =>
    operand parenthesise c.level 4 c.tokens ++ .conditional :: (t.tokens ++ .colon :: f.tokens)
  | assignment l op r => operand parenthesise l.level 4 l.tokens ++ .assignment op :: r.tokens

/-- The expression with its parentheses, as tuples of one element. -/
def toExpression : Tree → Expression TypeName
  | identifier name => .identifier name
  | prefixOperation op t => .unaryOperation op.1 (operand tuple t.level 16 t.toExpression) true
  | postfixOperation t op => .unaryOperation op.1 (operand tuple t.level 17 t.toExpression) false
  | binaryOperation l op r =>
    .binaryOperation (operand tuple l.level (Token.binary op).precedence l.toExpression)
      (.binary op) (operand tuple r.level ((Token.binary op).precedence + 1) r.toExpression)
  | conditional c t f =>
    .conditional (operand tuple c.level 4 c.toExpression) t.toExpression f.toExpression
  | assignment l op r =>
    .assignment (operand tuple l.level 4 l.toExpression) (.assignment op) r.toExpression
where
  tuple (expression : Expression TypeName) := .tupleExpression [some expression] false

/-- How many calls of the parser nest. Parentheses nest the five below `parseExpression`. -/
def recursionDepth : Tree → ℕ
  | identifier _ => 5
  | prefixOperation _ t => operand (· + 5) t.level 16 t.recursionDepth + 1
  | postfixOperation t _ => operand (· + 5) t.level 17 t.recursionDepth
  | binaryOperation l op r =>
    max (operand (· + 5) l.level (Token.binary op).precedence l.recursionDepth)
      (operand (· + 5) r.level ((Token.binary op).precedence + 1) r.recursionDepth + 1)
  | conditional c t f =>
    max (operand (· + 5) c.level 4 c.recursionDepth) (max t.recursionDepth f.recursionDepth + 1)
  | assignment l _ r => max (operand (· + 5) l.level 4 l.recursionDepth) (r.recursionDepth + 1)

end Tree

open Tree

lemma le_operand {m n level place : ℕ} (h : m ≤ n) : m ≤ operand (· + 5) level place n := by
  unfold operand
  split
  · exact Nat.le_add_right_of_le h
  · exact h

lemma five_le_recursionDepth (t : Tree) : 5 ≤ t.recursionDepth := by
  induction t with
  | identifier => exact Nat.le_refl 5
  | prefixOperation op t ih => exact Nat.le_add_right_of_le (le_operand ih)
  | postfixOperation t op ih => exact le_operand ih
  | binaryOperation l op r ihl => exact Nat.le_trans (le_operand ihl) (Nat.le_max_left _ _)
  | conditional c t f ihc => exact Nat.le_trans (le_operand ihc) (Nat.le_max_left _ _)
  | assignment l op r ihl => exact Nat.le_trans (le_operand ihl) (Nat.le_max_left _ _)

def Token.startsExpression : Token → Bool
  | lParen | identifier _ => true
  | token => token.isUnaryOp

lemma startsExpression_tokens (t : Tree) (rest : List Token) :
    (currentToken (t.tokens ++ rest)).startsExpression := by
  have at_place {t : Tree} {place : ℕ} {ts : List Token}
      (h : ∀ rest, (currentToken (t.tokens ++ rest)).startsExpression) :
      (currentToken (operand parenthesise t.level place t.tokens ++ ts)).startsExpression := by
    unfold operand
    split
    · rfl
    · exact h ts
  induction t generalizing rest with
  | identifier => rfl
  | prefixOperation op t =>
    obtain ⟨op, h⟩ := op
    simp only [tokens, currentToken, List.cons_append, List.headD_cons]
    cases op <;> first | rfl | exact h
  | postfixOperation t op ih
  | binaryOperation l op r ih
  | conditional c t f ih
  | assignment l op r ih =>
    rw [tokens, List.append_assoc]
    exact at_place ih

/-- Tokens that go on with an operand in front of them, apart from counting up or down. -/
def Token.isAccess : Token → Bool
  | lBrack | period | lParen => true
  | _ => false

def EndsOperand (ts : List Token) : Prop :=
  (currentToken ts).isAccess = false ∧ (currentToken ts).isCountOp = false

/-! ### What the functions read -/

section

variable (parseTypeName : ℕ → Parse TypeName)

/-- A function takes an expression off the tokens if it can nest the calls, of which some run. -/
def Reads (running : ℕ) (parse : ℕ → Parse (Expression TypeName)) (ts rest : List Token)
    (expression : Expression TypeName) (depth : ℕ) : Prop :=
  ∀ n, parse n ts = if depth ≤ n + running then some (expression, rest) else none

abbrev ReadsExpression : List Token → List Token → Expression TypeName → ℕ → Prop :=
  Reads 0 (parseExpression parseTypeName · none)

abbrev ReadsBinary (minPrecedence : ℕ) :
    List Token → List Token → Expression TypeName → ℕ → Prop :=
  Reads 1 (parseBinaryExpression parseTypeName · minPrecedence none)

abbrev ReadsUnary : List Token → List Token → Expression TypeName → ℕ → Prop :=
  Reads 2 (parseUnaryExpression parseTypeName · none)

abbrev ReadsLeftHandSide : List Token → List Token → Expression TypeName → ℕ → Prop :=
  Reads 3 (parseLeftHandSideExpression parseTypeName · none)

abbrev ReadsPrimary : List Token → List Token → Expression TypeName → ℕ → Prop :=
  Reads 4 (parsePrimaryExpression parseTypeName)

/-- `parseBinaryExpression` comes to its loops behind an expression. -/
def ReadsOperators (minPrecedence : ℕ) (ts rest : List Token) (expression : Expression TypeName)
    (depth : ℕ) : Prop :=
  ∀ n, ∃ k precedence, rest.length + precedence < k ∧ (currentToken rest).precedence ≤ precedence ∧
    parseBinaryExpression parseTypeName (n + 1) minPrecedence none ts =
      if depth ≤ n + 2 then
        parseOperators (fun m => parseBinaryExpression parseTypeName n m none) minPrecedence k
          precedence expression rest
      else none

end

variable {parseTypeName : ℕ → Parse TypeName} {ts ts' rest rest' : List Token}
  {e e' e'' : Expression TypeName} {d d' d'' : ℕ}

lemma parsePostfixes_of_isAccess_eq_false {f : Parse (Expression TypeName)}
    {g : Parse (List (Expression TypeName) × List String)} {k : ℕ}
    (h : (currentToken rest).isAccess = false) :
    parsePostfixes f g (k + 1) e rest = some (e, rest) := by
  cases rest with
  | nil => rfl
  | cons token rest => cases token <;> first | rfl | cases h

lemma Reads.of_succ {running : ℕ} {parse : ℕ → Parse (Expression TypeName)}
    (h0 : parse 0 ts = none) (hd : running < d)
    (h : ∀ n, parse (n + 1) ts = if d ≤ n + 1 + running then some (e, rest) else none) :
    Reads running parse ts rest e d := by
  intro n
  cases n with
  | zero => rw [h0, if_neg (by omega)]
  | succ n => exact h n

lemma Reads.parenthesised (hs : (currentToken (ts ++ .rParen :: rest)).startsExpression)
    (h : ReadsExpression parseTypeName (ts ++ .rParen :: rest) (.rParen :: rest)
      e d) :
    ReadsPrimary parseTypeName (parenthesise ts ++ rest) rest
      (.tupleExpression [some e] false) (d + 5) := by
  refine .of_succ rfl (by omega) fun n => ?_
  have hE : parseExpression parseTypeName n none _ = _ := h n
  rw [show parenthesise ts ++ rest = .lParen :: (ts ++ .rParen :: rest) by simp [parenthesise]]
  generalize ts ++ .rParen :: rest = ts at hs hE
  have hc : currentToken ts ≠ .comma ∧ currentToken ts ≠ .rParen :=
    ⟨fun h => by simp [h, Token.startsExpression, Token.isUnaryOp] at hs,
      fun h => by simp [h, Token.startsExpression, Token.isUnaryOp] at hs⟩
  have hp : parsePrimaryExpression parseTypeName (n + 1) (.lParen :: ts) =
      (parseComponents (parseExpression parseTypeName n none) .rParen (ts.length + 1) [] ts).bind
        fun r => some (.tupleExpression r.1 false, r.2) := by
    cases ts with
    | nil => rfl
    | cons token ts => cases token <;> first | rfl | exact absurd rfl hc.2
  rw [hp, parseComponents, if_pos hc, hE]
  by_cases hd : d ≤ n
  · rw [if_pos (by omega), if_pos (by omega)]; rfl
  · rw [if_neg (by omega), if_neg (by omega)]; rfl

lemma Reads.identifier {name : String} :
    ReadsPrimary parseTypeName (.identifier name :: rest) rest
      (.identifier name) 5
  | 0 => rfl
  | n + 1 => by rw [if_pos (by omega)]; rfl

lemma Reads.leftHandSide (h : ReadsPrimary parseTypeName ts rest e d)
    (hn : currentToken ts ≠ .new) (hr : (currentToken rest).isAccess = false) (hd : 5 ≤ d) :
    ReadsLeftHandSide parseTypeName ts rest e d := by
  refine .of_succ rfl (by omega) fun n => ?_
  simp only [parseLeftHandSideExpression, if_neg hn, h n]
  by_cases hd : d ≤ n + 4
  · rw [if_pos hd]
    exact parsePostfixes_of_isAccess_eq_false hr
  · rw [if_neg hd]; rfl

lemma parseUnaryExpression_of_isUnaryOp_eq_false (h : (currentToken ts).isUnaryOp = false) (n : ℕ) :
    parseUnaryExpression parseTypeName (n + 1) none ts =
      (parseLeftHandSideExpression parseTypeName n none ts).bind fun (subExpression, ts) =>
        if (currentToken ts).isCountOp then
          some (.unaryOperation (currentToken ts) subExpression false, ts.tail)
        else some (subExpression, ts) := by
  have hc : (currentToken ts).isCountOp = false := by
    cases hts : currentToken ts <;> simp [hts, Token.isUnaryOp] at h ⊢ <;> rfl
  rw [parseUnaryExpression, if_neg (by simp [h, hc])]
  rfl

lemma Reads.unary (h : ReadsLeftHandSide parseTypeName ts rest e d)
    (hs : (currentToken ts).isUnaryOp = false) (hr : (currentToken rest).isCountOp = false)
    (hd : 5 ≤ d) : ReadsUnary parseTypeName ts rest e d := by
  refine .of_succ rfl (by omega) fun n => ?_
  have hl : parseLeftHandSideExpression parseTypeName n none ts = _ := h n
  rw [parseUnaryExpression_of_isUnaryOp_eq_false hs, hl]
  split_ifs <;> first | omega | simp [hr]

lemma Reads.postfixOperation {op : Token}
    (h : ReadsLeftHandSide parseTypeName ts (op :: rest) e d)
    (hs : (currentToken ts).isUnaryOp = false) (ho : op.isCountOp) (hd : 5 ≤ d) :
    ReadsUnary parseTypeName ts rest (.unaryOperation op e false) d := by
  refine .of_succ rfl (by omega) fun n => ?_
  have hl : parseLeftHandSideExpression parseTypeName n none ts = _ := h n
  rw [parseUnaryExpression_of_isUnaryOp_eq_false hs, hl]
  split_ifs <;> first | omega | simp [currentToken, ho]

lemma Reads.operators (h : ReadsUnary parseTypeName ts rest e d)
    (minPrecedence : ℕ) : ReadsOperators parseTypeName minPrecedence ts rest e d := by
  intro n
  refine ⟨_, _, Nat.lt_succ_self _, Nat.le_refl _, ?_⟩
  simp only [parseBinaryExpression, h n]
  by_cases hd : d ≤ n + 2
  · rw [if_pos hd, if_pos hd]; rfl
  · rw [if_neg hd, if_neg hd]; rfl

lemma binary_precedence (op : BinaryOperator) :
    4 ≤ (Token.binary op).precedence ∧ (Token.binary op).precedence ≤ 14 := by
  cases op <;> decide

lemma exists_parseOperators_precedence {f : ℕ → Parse (Expression TypeName)}
    {minPrecedence k precedence : ℕ} (hk : rest.length + precedence < k)
    (hp : (currentToken rest).precedence ≤ precedence)
    (hm : minPrecedence ≤ (currentToken rest).precedence) :
    ∃ k', rest.length + (currentToken rest).precedence < k' ∧
      parseOperators f minPrecedence k precedence e rest =
        parseOperators f minPrecedence k' (currentToken rest).precedence e rest := by
  induction k generalizing precedence with
  | zero => omega
  | succ k ih =>
    by_cases h : (currentToken rest).precedence = precedence
    · exact ⟨k + 1, by omega, by rw [h]⟩
    · rw [parseOperators, if_neg (by omega), if_neg h]
      exact ih (by omega) (by omega)

lemma parseOperators_of_precedence_lt {f : ℕ → Parse (Expression TypeName)}
    {minPrecedence k precedence : ℕ} (hk : rest.length + precedence < k)
    (hm : (currentToken rest).precedence < minPrecedence) :
    parseOperators f minPrecedence k precedence e rest = some (e, rest) := by
  induction k generalizing precedence with
  | zero => omega
  | succ k ih =>
    rw [parseOperators]
    by_cases h : precedence < minPrecedence
    · rw [if_pos h]
    · rw [if_neg h, if_neg (by omega)]
      exact ih (by omega)

lemma ReadsOperators.binary {minPrecedence : ℕ}
    (h : ReadsOperators parseTypeName minPrecedence ts rest e d)
    (hr : (currentToken rest).precedence < minPrecedence) (hd : 5 ≤ d) :
    ReadsBinary parseTypeName minPrecedence ts rest e d := by
  refine .of_succ rfl (by omega) fun n => ?_
  obtain ⟨k, precedence, hk, -, hb⟩ := h n
  refine hb.trans ?_
  rw [parseOperators_of_precedence_lt hk hr]

lemma ReadsOperators.step {minPrecedence : ℕ} {op : BinaryOperator}
    (hl : ReadsOperators parseTypeName minPrecedence ts (.binary op :: ts') e d)
    (hr : ReadsBinary parseTypeName ((Token.binary op).precedence + 1) ts' rest e' d')
    (hm : minPrecedence ≤ (Token.binary op).precedence) (hts : rest.length ≤ ts'.length)
    (hp : (currentToken rest).precedence ≤ (Token.binary op).precedence) :
    ReadsOperators parseTypeName minPrecedence ts rest (.binaryOperation e (.binary op) e')
      (max d (d' + 1)) := by
  intro n
  obtain ⟨k, precedence, hk, hle, hb⟩ := hl n
  obtain ⟨k, hk, ho⟩ := exists_parseOperators_precedence
    (e := e) (f := fun m => parseBinaryExpression parseTypeName n m none) hk hle hm
  cases k with
  | zero => omega
  | succ k =>
    refine ⟨k, (Token.binary op).precedence, ?_, hp, ?_⟩
    · simp only [List.length_cons, currentToken_cons] at hk
      omega
    · have hright : parseBinaryExpression parseTypeName n _ none ts' = _ := hr n
      have hlt : ¬ (currentToken (.binary op :: ts')).precedence < minPrecedence :=
        Nat.not_lt.mpr hm
      rw [hb, ho, parseOperators, if_neg hlt, if_pos rfl]
      simp only [currentToken_cons, List.tail_cons, hright]
      split_ifs <;> first | omega | rfl

lemma Reads.expression (h : ReadsBinary parseTypeName 4 ts rest e d)
    (hr : (currentToken rest).precedence < 2) (hd : 5 ≤ d) :
    ReadsExpression parseTypeName ts rest e d := by
  refine .of_succ rfl (by omega) fun n => ?_
  have ha : (currentToken rest).isAssignmentOp = false := by
    cases ht : currentToken rest <;> first | rfl | (rw [ht] at hr; simp [Token.precedence] at hr)
  have hc : currentToken rest ≠ .conditional := fun h => by simp [h, Token.precedence] at hr
  have hb : parseBinaryExpression parseTypeName n 4 none ts = _ := h n
  rw [parseExpression, hb]
  split_ifs <;> first | omega | simp [ha, hc]

lemma Reads.assignment {op : AssignmentOperator}
    (hl : ReadsBinary parseTypeName 4 ts (.assignment op :: ts') e d)
    (hr : ReadsExpression parseTypeName ts' rest e' d') (hd : 5 ≤ d) :
    ReadsExpression parseTypeName ts rest (.assignment e (.assignment op) e')
      (max d (d' + 1)) := by
  refine .of_succ rfl (by omega) fun n => ?_
  have hb : parseBinaryExpression parseTypeName n 4 none ts = _ := hl n
  have hright : parseExpression parseTypeName n none ts' = _ := hr n
  rw [parseExpression, hb]
  by_cases hd : d ≤ n + 1
  · have ha : (currentToken (.assignment op :: ts')).isAssignmentOp := rfl
    simp only [if_pos hd, Option.bind_eq_bind, Option.bind_some, if_pos ha, List.tail_cons, hright]
    split_ifs <;> first | omega | rfl
  · rw [if_neg hd, if_neg (by omega)]; rfl

lemma Reads.conditional
    (hc : ReadsBinary parseTypeName 4 ts (.conditional :: ts') e d)
    (ht : ReadsExpression parseTypeName ts' (.colon :: rest') e' d')
    (hf : ReadsExpression parseTypeName rest' rest e'' d'') (hd : 5 ≤ d) :
    ReadsExpression parseTypeName ts rest (.conditional e e' e'')
      (max d (max d' d'' + 1)) := by
  refine .of_succ rfl (by omega) fun n => ?_
  have hb : parseBinaryExpression parseTypeName n 4 none ts = _ := hc n
  have htrue : parseExpression parseTypeName n none ts' = _ := ht n
  have hfalse : parseExpression parseTypeName n none rest' = _ := hf n
  rw [parseExpression, hb]
  by_cases hd : d ≤ n + 1 <;> by_cases hd' : d' ≤ n <;> by_cases hd'' : d'' ≤ n <;>
    simp [hd, hd', hd'', htrue, hfalse, Token.isAssignmentOp] <;> omega

lemma Reads.prefixOperation {op : Token}
    (h : ReadsUnary parseTypeName ts rest e d) (ho : op.isUnaryOp)
    (hd : 5 ≤ d) :
    ReadsUnary parseTypeName (op :: ts) rest
      (.unaryOperation op e true) (d + 1) := by
  refine .of_succ rfl (by omega) fun n => ?_
  have hu : parseUnaryExpression parseTypeName n none ts = _ := h n
  rw [parseUnaryExpression, if_pos ⟨rfl, .inl ho⟩, List.tail_cons, hu]
  split_ifs <;> first | omega | rfl

/-! ### Trees are read back -/

/-- The tokens of a tree are read as its expression. -/
abbrev Tree.Taken (t : Tree)
    (reads : List Token → List Token → Expression TypeName → ℕ → Prop) (rest : List Token) : Prop :=
  reads (t.tokens ++ rest) rest t.toExpression t.recursionDepth

abbrev Tree.TakenAt (place : ℕ) (t : Tree)
    (reads : List Token → List Token → Expression TypeName → ℕ → Prop) (rest : List Token) : Prop :=
  reads (operand parenthesise t.level place t.tokens ++ rest) rest
    (operand toExpression.tuple t.level place t.toExpression)
    (operand (· + 5) t.level place t.recursionDepth)

/-- What the functions read of the tokens of a tree, each for the levels that it parses. -/
structure Tree.Parses (parseTypeName : ℕ → Parse TypeName) (t : Tree) : Prop where
  expression (rest : List Token) (hr : EndsOperand rest) (hp : (currentToken rest).precedence < 2) :
    t.Taken (ReadsExpression parseTypeName) rest
  operators {rest : List Token} {minPrecedence : ℕ} (hl : 4 ≤ t.level)
    (hm : minPrecedence ≤ t.level) (hr : EndsOperand rest)
    (hp : (currentToken rest).precedence ≤ t.level) :
    t.Taken (ReadsOperators parseTypeName minPrecedence) rest
  unary {rest : List Token} (hl : 16 ≤ t.level) (hr : EndsOperand rest) :
    t.Taken (ReadsUnary parseTypeName) rest
  leftHandSide {rest : List Token} (hl : 17 ≤ t.level) (hr : (currentToken rest).isAccess = false) :
    t.Taken (ReadsLeftHandSide parseTypeName) rest

namespace Tree.Parses

variable {t : Tree} {place minPrecedence : ℕ}

lemma parenthesised (h : t.Parses parseTypeName) (hr : (currentToken rest).isAccess = false) :
    ReadsLeftHandSide parseTypeName (parenthesise t.tokens ++ rest) rest
      (toExpression.tuple t.toExpression) (t.recursionDepth + 5) :=
  (Reads.parenthesised (startsExpression_tokens t _)
    (h.expression _ ⟨rfl, rfl⟩ Nat.two_pos)).leftHandSide (by simp [parenthesise, currentToken]) hr
      (by omega)

lemma leftHandSideAt (h : t.Parses parseTypeName) (hr : (currentToken rest).isAccess = false) :
    t.TakenAt 17 (ReadsLeftHandSide parseTypeName) rest := by
  unfold TakenAt operand
  split
  · exact h.parenthesised hr
  · exact h.leftHandSide (by omega) hr

lemma unaryAt (h : t.Parses parseTypeName) (hr : EndsOperand rest) :
    t.TakenAt 16 (ReadsUnary parseTypeName) rest := by
  unfold TakenAt operand
  split
  · exact (h.parenthesised hr.1).unary rfl hr.2 (by omega)
  · exact h.unary (by omega) hr

lemma operatorsAt (h : t.Parses parseTypeName) (h4 : 4 ≤ place) (hm : minPrecedence ≤ place)
    (hr : EndsOperand rest) (hp : (currentToken rest).precedence ≤ place) :
    t.TakenAt place (ReadsOperators parseTypeName minPrecedence) rest := by
  unfold TakenAt operand
  split
  · exact ((h.parenthesised hr.1).unary rfl hr.2 (by omega)).operators minPrecedence
  · exact h.operators (by omega) (by omega) hr (by omega)

lemma binaryAt (h : t.Parses parseTypeName) (h4 : 4 ≤ place) (hr : EndsOperand rest)
    (hp : (currentToken rest).precedence < place) :
    t.TakenAt place (ReadsBinary parseTypeName place) rest :=
  (h.operatorsAt h4 (Nat.le_refl _) hr (Nat.le_of_lt hp)).binary hp
    (le_operand (five_le_recursionDepth t))

/-- A level that `parseUnaryExpression` reaches is read by the functions around it as well. -/
lemma of_unary
    (h : ∀ {rest : List Token}, EndsOperand rest → t.Taken (ReadsUnary parseTypeName) rest)
    (h' : ∀ {rest : List Token}, 17 ≤ t.level → (currentToken rest).isAccess = false →
      t.Taken (ReadsLeftHandSide parseTypeName) rest) : t.Parses parseTypeName where
  expression _ hr hp :=
    (((h hr).operators 4).binary (by omega) (five_le_recursionDepth t)).expression hp
      (five_le_recursionDepth t)
  operators _ _ hr _ := (h hr).operators _
  unary _ := h
  leftHandSide := h'

lemma of_expression (hl : t.level < 4)
    (h : ∀ rest, EndsOperand rest → (currentToken rest).precedence < 2 →
      t.Taken (ReadsExpression parseTypeName) rest) : t.Parses parseTypeName where
  expression := h
  operators h4 := absurd h4 (by omega)
  unary h16 := absurd h16 (by omega)
  leftHandSide h17 := absurd h17 (by omega)

lemma isUnaryOp_at_eq_false :
    (currentToken (operand parenthesise t.level 17 t.tokens ++ rest)).isUnaryOp = false := by
  unfold operand
  split
  · rfl
  · cases t with
    | identifier => rfl
    | binaryOperation l op r =>
      have := (binary_precedence op).2
      rename_i h
      simp only [level] at h
      omega
    | _ => rename_i h; simp [level] at h

end Tree.Parses

lemma Tree.parses (parseTypeName : ℕ → Parse TypeName) (t : Tree) : t.Parses parseTypeName := by
  induction t with
  | identifier name =>
    have hl {rest : List Token} (hr : (currentToken rest).isAccess = false) :
        ReadsLeftHandSide parseTypeName (.identifier name :: rest) rest (.identifier name) 5 :=
      Reads.identifier.leftHandSide (by simp [currentToken]) hr (Nat.le_refl 5)
    exact .of_unary (fun hr => (hl hr.1).unary rfl hr.2 (Nat.le_refl 5)) fun _ => hl
  | prefixOperation op t ih =>
    exact .of_unary
      (fun hr => (ih.unaryAt hr).prefixOperation op.2 (le_operand (five_le_recursionDepth t)))
      fun h => absurd h (by simp [level])
  | postfixOperation t op ih =>
    refine .of_unary (fun hr => ?_) fun h => absurd h (by simp [level])
    unfold Taken
    rw [tokens, List.append_assoc]
    refine (ih.leftHandSideAt ?_).postfixOperation Parses.isUnaryOp_at_eq_false op.2
      (le_operand (five_le_recursionDepth t))
    obtain ⟨op, h⟩ := op
    cases op <;> first | rfl | cases h
  | binaryOperation l op r ihl ihr =>
    obtain ⟨h4, h14⟩ := binary_precedence op
    have ho {rest : List Token} {m : ℕ} (hm : m ≤ (Token.binary op).precedence)
        (hr : EndsOperand rest)
        (hp : (currentToken rest).precedence ≤ (Token.binary op).precedence) :
        (binaryOperation l op r).Taken (ReadsOperators parseTypeName m) rest := by
      unfold Taken
      rw [tokens, List.append_assoc]
      exact (ihl.operatorsAt h4 hm ⟨rfl, rfl⟩ (Nat.le_refl _)).step
        (ihr.binaryAt (by omega) hr (Nat.lt_succ_of_le hp)) hm (by simp) hp
    exact {
      expression := fun _ hr hp => ((ho h4 hr (by omega)).binary (by omega)
        (five_le_recursionDepth _)).expression hp (five_le_recursionDepth _)
      operators := fun _ => ho
      unary := fun h => absurd h (by simp only [level]; omega)
      leftHandSide := fun h => absurd h (by simp only [level]; omega) }
  | conditional c t f ihc iht ihf =>
    refine .of_expression (by simp [level]) fun rest hr hp => ?_
    simp only [Taken, tokens, List.append_assoc, List.cons_append]
    refine (ihc.binaryAt (Nat.le_refl 4) ⟨rfl, rfl⟩ ?_).conditional (iht.expression _ ⟨rfl, rfl⟩ ?_)
      (ihf.expression rest hr hp) (le_operand (five_le_recursionDepth c))
    · exact Nat.lt_succ_self 3
    · exact Nat.two_pos
  | assignment l op r ihl ihr =>
    refine .of_expression (by simp [level]) fun rest hr hp => ?_
    unfold Taken
    rw [tokens, List.append_assoc]
    refine (ihl.binaryAt (Nat.le_refl 4) ⟨rfl, rfl⟩ ?_).assignment (ihr.expression rest hr hp)
      (le_operand (five_le_recursionDepth l))
    simp [currentToken, Token.precedence]

/-- The tokens of a tree give the tree and are used up, unless the calls for it nest too deep. -/
theorem parseExpressionAt_tokens (parseTypeName : ℕ → Parse TypeName) (recursionDepth : ℕ)
    (t : Tree) :
    parseExpressionAt parseTypeName recursionDepth t.tokens =
      if recursionDepth + t.recursionDepth < 2560 then some (t.toExpression, []) else none := by
  have h := (t.parses parseTypeName).expression [] ⟨rfl, rfl⟩ (by decide)
    (2560 - 1 - recursionDepth)
  have h5 := five_le_recursionDepth t
  rw [List.append_nil] at h
  refine h.trans (if_congr ?_ rfl rfl)
  omega

/-- Negations of a variable. -/
def negations : ℕ → Tree
  | 0 => .identifier "a"
  | n + 1 => .prefixOperation ⟨.not, rfl⟩ (negations n)

lemma recursionDepth_negations (n : ℕ) :
    16 ≤ (negations n).level ∧ (negations n).recursionDepth = n + 5 := by
  induction n with
  | zero => exact ⟨by decide, rfl⟩
  | succ n ih =>
    obtain ⟨hl, hd⟩ := ih
    refine ⟨Nat.le_refl 16, ?_⟩
    rw [negations, recursionDepth, operand, if_neg (Nat.not_lt.mpr hl), hd]

/-- The `RecursionGuard` stops the parser in the middle of an expression. -/
theorem parseExpressionAt_negations :
    parseExpressionAt (fun _ _ => none : ℕ → Parse Unit) 0 (negations 2555).tokens ≠
      some ((negations 2555).toExpression, []) := by
  have h := ((negations 2555).parses (fun _ _ => none : ℕ → Parse Unit)).expression []
    ⟨rfl, rfl⟩ Nat.two_pos 2559
  rw [List.append_nil, (recursionDepth_negations 2555).2] at h
  intro h'
  cases h.symm.trans h'

end Parser

end Polynomial
