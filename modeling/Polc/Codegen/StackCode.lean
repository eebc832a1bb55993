import Polc.Sof.Machine

/-!
# Straight-line code on the stack

What the code generator appends for expressions: pushes and instructions that only work on the
stack, and the conditional stops of `CompilerContext::appendConditionalInvalid`, which jump over an
invalid instruction.
-/

namespace Polynomial

open List
open Sof (Word Instruction)

inductive Item where
  | push (value : Word)
  | operation (i : Instruction)
  | conditionalInvalid
  deriving DecidableEq, Repr

abbrev Code := List Item

/-- How code ends: with a stack, at an invalid instruction, or in a way the model leaves open. -/
inductive Outcome where
  | stack (values : List Word)
  | invalid
  | fault
  deriving DecidableEq, Repr

namespace Item

/-- The effect of an instruction that takes words from the stack and leaves one. -/
def compute (i : Instruction) (stack : List Word) : Outcome :=
  let args := (Sof.instructionInfo i).args
  if stack.length < args then .fault
  else
    match Sof.arithmetic i (stack.take args) with
    | some w => .stack (w :: stack.drop args)
    | none => .fault

def step (item : Item) (stack : List Word) : Outcome :=
  match item, stack with
  | push w, stack => .stack (w :: stack)
  | operation (.dup n), stack =>
    match stack[n.val]? with
    | some w => .stack (w :: stack)
    | none => .fault
  | operation (.swap n), top :: stack =>
    match stack[n.val]? with
    | some w => .stack (w :: stack.set n top)
    | none => .fault
  | operation .pop, _ :: stack => .stack stack
  | operation i, stack => compute i stack
  | conditionalInvalid, condition :: stack => if condition = 0 then .stack stack else .invalid
  | conditionalInvalid, [] => .fault

end Item

def exec : Code → List Word → Outcome
  | [], stack => .stack stack
  | item :: code, stack =>
    match item.step stack with
    | .stack stack => exec code stack
    | o => o

/-- Continue with the stack that an outcome leaves. -/
def Outcome.bind (o : Outcome) (f : List Word → Outcome) : Outcome :=
  match o with
  | stack values => f values
  | o => o

@[simp] lemma Outcome.stack_bind (s : List Word) (f : List Word → Outcome) :
    (Outcome.stack s).bind f = f s := rfl

@[simp] lemma Outcome.invalid_bind (f : List Word → Outcome) : Outcome.invalid.bind f = .invalid :=
  rfl

@[simp] lemma exec_nil (s : List Word) : exec [] s = .stack s := rfl

lemma exec_cons (item : Item) (code : Code) (s : List Word) :
    exec (item :: code) s = (item.step s).bind (exec code) := by
  rw [exec]
  cases item.step s with
  | stack s => rfl
  | invalid => rfl
  | fault => rfl

lemma exec_append (c c' : Code) (s : List Word) :
    exec (c ++ c') s = (exec c s).bind (exec c') := by
  induction c generalizing s with
  | nil => rfl
  | cons item c ih =>
    rw [cons_append, exec_cons, exec_cons]
    cases item.step s with
    | stack s => exact ih s
    | invalid => rfl
    | fault => rfl

lemma exec_append_of_stack {c : Code} {s s' : List Word} (h : exec c s = .stack s') (c' : Code) :
    exec (c ++ c') s = exec c' s' := by
  rw [exec_append, h, Outcome.stack_bind]

lemma exec_append_of_invalid {c : Code} {s : List Word} (h : exec c s = .invalid) (c' : Code) :
    exec (c ++ c') s = .invalid := by
  rw [exec_append, h, Outcome.invalid_bind]

/-! ### Single items -/

section

variable (c : Code) (s : List Word) (a b w : Word)

@[simp] lemma exec_push : exec (.push w :: c) s = exec c (w :: s) := rfl

@[simp] lemma exec_pop : exec (.operation .pop :: c) (a :: s) = exec c s := rfl

@[simp] lemma exec_dup_zero : exec (.operation (.dup 0) :: c) (a :: s) = exec c (a :: a :: s) :=
  rfl

@[simp] lemma exec_dup_one :
    exec (.operation (.dup 1) :: c) (a :: b :: s) = exec c (b :: a :: b :: s) := rfl

@[simp] lemma exec_swap_zero :
    exec (.operation (.swap 0) :: c) (a :: b :: s) = exec c (b :: a :: s) := rfl

lemma exec_dup {n : Fin 16} (h : s[n.val]? = some w) :
    exec (.operation (.dup n) :: c) s = exec c (w :: s) := by
  rw [exec_cons, Item.step, h, Outcome.stack_bind]

lemma exec_swap {n : Fin 16} (h : s[n.val]? = some w) :
    exec (.operation (.swap n) :: c) (a :: s) = exec c (w :: s.set n a) := by
  rw [exec_cons, Item.step, h, Outcome.stack_bind]

lemma exec_conditionalInvalid :
    exec (.conditionalInvalid :: c) (a :: s) = if a = 0 then exec c s else .invalid := by
  rw [exec_cons, Item.step]
  split_ifs
  · rfl
  · rfl

@[simp] lemma exec_conditionalInvalid_ofBool (p : Bool) :
    exec (.conditionalInvalid :: c) (.ofBool p :: s) = if p then .invalid else exec c s := by
  rw [exec_conditionalInvalid]
  cases p
  · rfl
  · rfl

lemma exec_unary {i : Instruction} {a w : Word} (hinfo : (Sof.instructionInfo i).args = 1)
    (hi : Sof.arithmetic i [a] = some w) : exec (.operation i :: c) (a :: s) = exec c (w :: s) := by
  have hstep : (Item.operation i).step (a :: s) = Item.compute i (a :: s) := by
    cases i <;> first | rfl | exact absurd hi nofun
  rw [exec_cons, hstep, Item.compute, hinfo, if_neg (by simp)]
  simp only [take_succ_cons, take_zero, hi]
  rfl

lemma exec_binary {i : Instruction} {a b w : Word} (hinfo : (Sof.instructionInfo i).args = 2)
    (hi : Sof.arithmetic i [a, b] = some w) :
    exec (.operation i :: c) (a :: b :: s) = exec c (w :: s) := by
  have hstep : (Item.operation i).step (a :: b :: s) = Item.compute i (a :: b :: s) := by
    cases i <;> first | rfl | exact absurd hi nofun
  rw [exec_cons, hstep, Item.compute, hinfo, if_neg (by simp)]
  simp only [take_succ_cons, take_zero, hi]
  rfl

@[simp] lemma exec_iszero :
    exec (.operation .iszero :: c) (a :: s) = exec c (.ofBool (a = 0) :: s) :=
  exec_unary c s rfl rfl

@[simp] lemma exec_not :
    exec (.operation .not :: c) (a :: s) = exec c (~~~a :: s) :=
  exec_unary c s rfl rfl

@[simp] lemma exec_add :
    exec (.operation .add :: c) (a :: b :: s) = exec c ((a + b) :: s) :=
  exec_binary c s rfl rfl

@[simp] lemma exec_sub :
    exec (.operation .sub :: c) (a :: b :: s) = exec c ((a - b) :: s) :=
  exec_binary c s rfl rfl

@[simp] lemma exec_mul :
    exec (.operation .mul :: c) (a :: b :: s) = exec c ((a * b) :: s) :=
  exec_binary c s rfl rfl

@[simp] lemma exec_div :
    exec (.operation .div :: c) (a :: b :: s) = exec c ((a / b) :: s) :=
  exec_binary c s rfl rfl

@[simp] lemma exec_sdiv :
    exec (.operation .sdiv :: c) (a :: b :: s) = exec c (a.sdiv b :: s) :=
  exec_binary c s rfl rfl

@[simp] lemma exec_mod :
    exec (.operation .mod :: c) (a :: b :: s) = exec c ((if b = 0 then 0 else a % b) :: s) :=
  exec_binary c s rfl rfl

@[simp] lemma exec_smod :
    exec (.operation .smod :: c) (a :: b :: s) = exec c ((if b = 0 then 0 else a.srem b) :: s) :=
  exec_binary c s rfl rfl

@[simp] lemma exec_exp :
    exec (.operation .exp :: c) (a :: b :: s) = exec c (.ofNat 256 (a.toNat ^ b.toNat) :: s) :=
  exec_binary c s rfl rfl

@[simp] lemma exec_signextend :
    exec (.operation .signextend :: c) (a :: b :: s) = exec c (.signextend a b :: s) :=
  exec_binary c s rfl rfl

@[simp] lemma exec_lt :
    exec (.operation .lt :: c) (a :: b :: s) = exec c (.ofBool (a.ult b) :: s) :=
  exec_binary c s rfl rfl

@[simp] lemma exec_gt :
    exec (.operation .gt :: c) (a :: b :: s) = exec c (.ofBool (b.ult a) :: s) :=
  exec_binary c s rfl rfl

@[simp] lemma exec_slt :
    exec (.operation .slt :: c) (a :: b :: s) = exec c (.ofBool (a.slt b) :: s) :=
  exec_binary c s rfl rfl

@[simp] lemma exec_sgt :
    exec (.operation .sgt :: c) (a :: b :: s) = exec c (.ofBool (b.slt a) :: s) :=
  exec_binary c s rfl rfl

@[simp] lemma exec_eq :
    exec (.operation .eq :: c) (a :: b :: s) = exec c (.ofBool (a = b) :: s) :=
  exec_binary c s rfl rfl

@[simp] lemma exec_and :
    exec (.operation .and :: c) (a :: b :: s) = exec c ((a &&& b) :: s) :=
  exec_binary c s rfl rfl

@[simp] lemma exec_or :
    exec (.operation .or :: c) (a :: b :: s) = exec c ((a ||| b) :: s) :=
  exec_binary c s rfl rfl

@[simp] lemma exec_xor :
    exec (.operation .xor :: c) (a :: b :: s) = exec c ((a ^^^ b) :: s) :=
  exec_binary c s rfl rfl

@[simp] lemma exec_shl :
    exec (.operation .shl :: c) (a :: b :: s) = exec c (.shl a b :: s) :=
  exec_binary c s rfl rfl

@[simp] lemma exec_shr :
    exec (.operation .shr :: c) (a :: b :: s) = exec c (.shr a b :: s) :=
  exec_binary c s rfl rfl

@[simp] lemma exec_sar :
    exec (.operation .sar :: c) (a :: b :: s) = exec c (.sar a b :: s) :=
  exec_binary c s rfl rfl

end

/-- Started on `words`, whatever is below them, the code replaces them by words that satisfy `P`
with the value of the result, or stops if that is a failure. -/
def Yields {ε α : Type} (code : Code) (words : List Word) (P : α → List Word → Prop) :
    Except ε α → Prop
  | .ok v => ∃ words', P v words' ∧ ∀ s, exec code (words ++ s) = .stack (words' ++ s)
  | .error _ => ∀ s, exec code (words ++ s) = .invalid

namespace Yields

variable {ε α β : Type} {code code' : Code} {words : List Word} {P : α → List Word → Prop}
  {Q : β → List Word → Prop}

lemma ok {v : α} {words' : List Word} (hP : P v words')
    (h : ∀ s, exec code (words ++ s) = .stack (words' ++ s)) :
    Yields code words P (.ok v : Except ε α) := ⟨words', hP, h⟩

lemma append {r : Except ε α} {f : α → Except ε β} (h : Yields code words P r)
    (h' : ∀ v words', P v words' → Yields code' words' Q (f v)) :
    Yields (code ++ code') words Q (r.bind f) := by
  cases r with
  | error e => exact fun s => exec_append_of_invalid (h s) code'
  | ok v =>
    obtain ⟨words', hP, hexec⟩ := h
    have hnext := h' v words' hP
    change Yields _ _ _ (f v)
    cases hf : f v with
    | error e =>
      rw [hf] at hnext
      intro s
      rw [exec_append_of_stack (hexec s)]
      exact hnext s
    | ok u =>
      rw [hf] at hnext
      obtain ⟨words'', hQ, hexec'⟩ := hnext
      refine ⟨words'', hQ, fun s => ?_⟩
      rw [exec_append_of_stack (hexec s)]
      exact hexec' s

lemma map {r : Except ε α} {f : α → β} (h : Yields code words P r)
    (hP : ∀ v words', P v words' → Q (f v) words') : Yields code words Q (r.map f) := by
  cases r with
  | error e => exact h
  | ok v =>
    obtain ⟨words', hv, hexec⟩ := h
    exact ⟨words', hP v words' hv, hexec⟩

lemma mono {P' : α → List Word → Prop} {r : Except ε α} (h : Yields code words P r)
    (hP : ∀ v words, P v words → P' v words) : Yields code words P' r := by
  cases r with
  | error e => exact h
  | ok v =>
    obtain ⟨words', hv, hexec⟩ := h
    exact ⟨words', hP v words' hv, hexec⟩

end Yields

end Polynomial
