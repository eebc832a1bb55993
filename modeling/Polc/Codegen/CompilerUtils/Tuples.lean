import Polc.Semantics.Stack
import Polc.Sof.Machine

/-!
# Conversion of tuples

The part of `CompilerUtils::convertType` of `libpolynomial/codegen/CompilerUtils.cpp` that converts
the components of a tuple in place, and the functions that move words on the stack for it. The
conversions of the components, which may also access memory, are parameters. Where an assertion of
the source fails there is no code.
-/

namespace Polynomial

open List
open Sof (Word)
open Semantics

/-- What the conversion of tuples asks of the types of their components. -/
structure StackTypes (τ : Type) where
  sizeOnStack : τ → ℕ
  /-- `operator==` of the types. -/
  equal : τ → τ → Bool
  sizeOnStack_eq : ∀ s t, equal s t = true → sizeOnStack s = sizeOnStack t

/-- An item of the code for a tuple moves words or belongs to the conversion of a component. -/
inductive TupleItem (ι : Type) where
  | move (o : StackOperation)
  | component (i : ι)

abbrev TupleCode (ι : Type) := List (TupleItem ι)

namespace TupleCode

variable {ι World : Type}

/-- Run code on the stack and the rest of the world. There is no result if the execution stops. -/
def run (step : ι → World × List Word → Option (World × List Word)) :
    List ι → World × List Word → Option (World × List Word)
  | [], σ => some σ
  | i :: is, σ => (step i σ).bind (run step is)

def stepItem (step : ι → World × List Word → Option (World × List Word)) :
    TupleItem ι → World × List Word → Option (World × List Word)
  | .move o, (w, stack) => (o.apply stack).map (w, ·)
  | .component i, σ => step i σ

abbrev runItems (step : ι → World × List Word → Option (World × List Word)) (code : TupleCode ι) :
    World × List Word → Option (World × List Word) :=
  run (stepItem step) code

end TupleCode

/-- The conversions of single components: their code replaces the words of a component by those
of the converted one, or stops, whatever is below them on the stack. -/
structure Conversions {τ : Type} (T : StackTypes τ) (ι World : Type) where
  convertType : τ → τ → Bool → Option (List ι)
  step : ι → World × List Word → Option (World × List Word)
  run_append : ∀ {s t cleanupNeeded code}, convertType s t cleanupNeeded = some code →
    ∀ w words below, words.length = T.sizeOnStack s →
      TupleCode.run step code (w, words ++ below) =
        (TupleCode.run step code (w, words)).map fun σ => (σ.1, σ.2 ++ below)
  length_run : ∀ {s t cleanupNeeded code}, convertType s t cleanupNeeded = some code →
    ∀ w words σ, words.length = T.sizeOnStack s →
      TupleCode.run step code (w, words) = some σ → σ.2.length = T.sizeOnStack t

namespace CompilerUtils

def dupInstruction (n : ℕ) : Option (List StackOperation) :=
  if 1 ≤ n ∧ n ≤ 16 then some [.dup (n - 1)] else none

def swapInstruction (n : ℕ) : Option (List StackOperation) :=
  if 1 ≤ n ∧ n ≤ 16 then some [.swap (n - 1)] else none

def popInstruction : List StackOperation := [.pop]

/-- Code that is appended a number of times. -/
def repeated (code : Option (List StackOperation)) : ℕ → Option (List StackOperation)
  | 0 => some []
  | n + 1 => do
    let c ← code
    let rest ← repeated code n
    return c ++ rest

/-- One after the other, code that is appended for each number. -/
def appended (code : ℕ → Option (List StackOperation)) (ns : List ℕ) : Option (List StackOperation) :=
  (ns.mapM code).map List.flatten

def copyToStackTop (stackDepth itemSize : ℕ) : Option (List StackOperation) :=
  if stackDepth ≤ 16 then repeated (dupInstruction stackDepth) itemSize else none

def rotateStackUp (items : ℕ) : Option (List StackOperation) :=
  if items - 1 ≤ 16 then
    appended (fun i => swapInstruction (items - (i + 1))) (List.range (items - 1))
  else none

def rotateStackDown (items : ℕ) : Option (List StackOperation) :=
  if items - 1 ≤ 16 then
    appended (fun i => swapInstruction (i + 1)) (List.range (items - 1))
  else none

def moveIntoStack (stackDepth itemSize : ℕ) : Option (List StackOperation) :=
  if stackDepth ≤ itemSize then repeated (rotateStackDown (stackDepth + itemSize)) stackDepth
  else repeated (rotateStackUp (stackDepth + itemSize)) itemSize

def moveToStackTop (stackDepth itemSize : ℕ) : Option (List StackOperation) :=
  moveIntoStack itemSize stackDepth

/-! ### Tuples -/

section

variable {τ ι : Type} (T : StackTypes τ) (convertType : τ → τ → Bool → Option (List ι))

/-- The size on the stack of a component, which may be absent. -/
def componentSize (t : Option τ) : ℕ := t.elim 0 T.sizeOnStack

/-- `TupleType::sizeOnStack` -/
def tupleSize (components : List (Option τ)) : ℕ := (components.map (componentSize T)).sum

/-- The condition under which a component is not left as it is. -/
def isConverted (s : τ) (t : Option τ) (cleanupNeeded : Bool) : Bool :=
  match t with
  | none => true
  | some t => !T.equal s t || cleanupNeeded

/-- Convert a copy of the component on top of the stack. -/
def convertCopy (depth : ℕ) (s : τ) (t : Option τ) (cleanupNeeded : Bool) :
    Option (TupleCode ι) :=
  match t with
  | none => some []
  | some t => do
    let copy ← (if 0 < T.sizeOnStack s then copyToStackTop depth (T.sizeOnStack s) else some [])
    let code ← convertType s t cleanupNeeded
    return copy.map .move ++ code.map .component

/-- Move the converted component back into its place. -/
def moveBack (depth sourceSize targetSize : ℕ) : Option (List StackOperation) := do
  let moves ← repeated
    ((swapInstruction (depth + targetSize - sourceSize)).map (· ++ popInstruction))
    (min sourceSize targetSize)
  let shrinks ← repeated ((moveToStackTop (depth - 1) 1).map (· ++ popInstruction))
    (sourceSize - targetSize)
  let grows ←
    (if sourceSize < targetSize then
      moveIntoStack (depth + targetSize - sourceSize - 1) (targetSize - sourceSize)
    else some [])
  return moves ++ shrinks ++ grows

def convertComponent (depth : ℕ) (s : τ) (t : Option τ) (cleanupNeeded : Bool) :
    Option (TupleCode ι) :=
  if isConverted T s t cleanupNeeded then do
    let converted ← convertCopy T convertType depth s t cleanupNeeded
    let moved ←
      (if 0 < T.sizeOnStack s ∨ 0 < componentSize T t then
        moveBack depth (T.sizeOnStack s) (componentSize T t)
      else some [])
    return converted ++ moved.map .move
  else some []

/-- The words of the remaining source components are the topmost `depth` ones. -/
def convertComponents (depth : ℕ) (cleanupNeeded : Bool) :
    List (Option τ) → List (Option τ) → Option (TupleCode ι)
  | [], [] => some []
  | none :: ss, none :: ts => convertComponents depth cleanupNeeded ss ts
  | some s :: ss, t :: ts => do
    let code ← convertComponent T convertType depth s t cleanupNeeded
    let rest ← convertComponents (depth - T.sizeOnStack s) cleanupNeeded ss ts
    return code ++ rest
  | _, _ => none

/-- `convertType` for tuples. -/
def convertTuple (source target : List (Option τ)) (cleanupNeeded : Bool) :
    Option (TupleCode ι) :=
  convertComponents T convertType (tupleSize T source) cleanupNeeded source target

end

end CompilerUtils

end Polynomial

/-!
## What the conversion of a component does to the stack

A component is replaced in place if its size changes by at most one slot. Otherwise slots below
it are lost, or moved above a part of it.
-/

namespace Polynomial

open List
open Sof (Word)
open Semantics StackOperation

namespace TupleCode

variable {ι World : Type} {step : ι → World × List Word → Option (World × List Word)}

lemma run_append_code (c c' : List ι) (σ : World × List Word) :
    run step (c ++ c') σ = (run step c σ).bind (run step c') := by
  induction c generalizing σ with
  | nil => rfl
  | cons i c ih =>
    rw [cons_append, run, run, Option.bind_assoc]
    congr 1
    funext σ'
    exact ih σ'

lemma runItems_append (c c' : TupleCode ι) (σ : World × List Word) :
    runItems step (c ++ c') σ = (runItems step c σ).bind (runItems step c') :=
  run_append_code c c' σ

lemma runItems_append_of_some {c : TupleCode ι} {σ σ' : World × List Word}
    (h : runItems step c σ = some σ') (c' : TupleCode ι) :
    runItems step (c ++ c') σ = runItems step c' σ' := by
  rw [runItems_append, h, Option.bind_some]

lemma runItems_moves (os : List StackOperation) (w : World) (stack : List Word) :
    runItems step (os.map .move) (w, stack) = (applyAll os stack).map (w, ·) := by
  induction os generalizing stack with
  | nil => rfl
  | cons o os ih =>
    rw [map_cons, runItems, run, stepItem, applyAll_cons, Option.map_bind, Option.bind_map]
    congr 1
    funext stack'
    exact ih stack'

lemma runItems_moves_of_some {os : List StackOperation} {stack stack' : List Word}
    (h : applyAll os stack = some stack') (w : World) :
    runItems step (os.map .move) (w, stack) = some (w, stack') := by
  rw [runItems_moves, h, Option.map_some]

lemma runItems_component (code : List ι) (σ : World × List Word) :
    runItems step (code.map .component) σ = run step code σ := by
  induction code generalizing σ with
  | nil => rfl
  | cons i code ih =>
    rw [map_cons, runItems, run, run]
    congr 1
    funext σ'
    exact ih σ'

end TupleCode

namespace CompilerUtils

variable {α : Type*}

variable {c code : List StackOperation} {n : ℕ}

lemma repeated_succ {code : Option (List StackOperation)} (h : repeated code (n + 1) = some c) :
    ∃ c₁ c₂, code = some c₁ ∧ repeated code n = some c₂ ∧ c = c₁ ++ c₂ := by
  simp only [repeated, Option.bind_eq_bind, Option.bind_eq_some_iff, Option.pure_def,
    Option.some.injEq] at h
  obtain ⟨c₁, hcode, c₂, hrest, rfl⟩ := h
  exact ⟨c₁, c₂, hcode, hrest, rfl⟩

lemma repeated_eq_replicate {o : StackOperation} (h : repeated (some [o]) n = some c) :
    c = List.replicate n o := by
  induction n generalizing c with
  | zero => exact (Option.some.inj h).symm
  | succ n ih =>
    obtain ⟨c₁, c₂, hcode, hrest, rfl⟩ := repeated_succ h
    rw [← Option.some.inj hcode, ih hrest]
    rfl

lemma swapInstruction_eq (h : n < 16) :
    (swapInstruction (n + 1) : Option (List StackOperation)) = some [.swap n] :=
  if_pos ⟨Nat.le_add_left 1 n, h⟩

lemma swapInstruction_eq_some (h : swapInstruction n = some c) : c = [.swap (n - 1)] := by
  rw [swapInstruction] at h
  split_ifs at h with hn
  exact (Option.some.inj h).symm

lemma appended_eq {code : ℕ → Option (List StackOperation)} {f : ℕ → StackOperation}
    {ns : List ℕ} (h : ∀ n ∈ ns, code n = some [f n]) : appended code ns = some (ns.map f) := by
  induction ns with
  | nil => rfl
  | cons n ns ih =>
    have hrest := ih fun m hm => h m (mem_cons_of_mem n hm)
    rw [appended, Option.map_eq_some_iff] at hrest
    obtain ⟨cs, hcs, hflat⟩ := hrest
    simp only [appended, mapM_cons, h n (mem_cons_self ..), hcs, Option.pure_def,
      Option.bind_eq_bind, Option.bind_some, Option.map_some, flatten_cons, hflat]
    rfl

lemma rotateStackDown_eq_some (h : rotateStackDown (n + 1) = some c) : c = rotateDown n := by
  rw [rotateStackDown] at h
  split_ifs at h with hn
  rw [appended_eq (f := fun i => .swap i)
    fun i hi => swapInstruction_eq (by have := List.mem_range.mp hi; omega)] at h
  exact (Option.some.inj h).symm

lemma rotateStackUp_eq_some (h : rotateStackUp (n + 1) = some c) : c = rotateUp n := by
  rw [rotateStackUp] at h
  split_ifs at h with hn
  rw [appended_eq (f := fun i => .swap (n - 1 - i)) fun i hi => by
    have hlt := List.mem_range.mp hi
    rw [show n + 1 - (i + 1) = n - 1 - i + 1 by omega]
    exact swapInstruction_eq (by omega)] at h
  have hreverse : (List.range n).reverse = (List.range n).map fun i => n - 1 - i := by
    rw [range_eq_range', reverse_range', ← range_eq_range', Nat.zero_add]
  rw [← Option.some.inj h, rotateUp, hreverse, List.map_map]
  rfl

lemma applyAll_repeated_rotateStackUp (u v s : List α) (hn : n = v.length + u.length)
    (h : repeated (rotateStackUp n) u.length = some c) :
    applyAll c (u ++ (v ++ s)) = some (v ++ (u ++ s)) := by
  induction u generalizing v c n with
  | nil =>
    obtain rfl := Option.some.inj h
    rfl
  | cons a u ih =>
    obtain ⟨c₁, c₂, hrotate, hrest, rfl⟩ := repeated_succ h
    have hlen : (u ++ v).length = v.length + u.length := by
      rw [length_append, Nat.add_comm]
    have hstep := applyAll_rotateUp a (u ++ v) s hlen
    rw [hn, length_cons, ← Nat.add_assoc] at hrotate
    rw [← rotateStackUp_eq_some hrotate] at hstep
    rw [applyAll_append_of_some _ (by simpa using hstep)]
    have hnext := ih (v ++ [a])
      (by rw [hn, length_append, length_singleton, length_cons]; omega) hrest
    simpa using hnext

lemma applyAll_repeated_rotateStackDown (u v s : List α) (hn : n = v.length + u.length)
    (h : repeated (rotateStackDown n) v.length = some c) :
    applyAll c (u ++ (v ++ s)) = some (v ++ (u ++ s)) := by
  induction v using List.reverseRecOn generalizing u s c n with
  | nil =>
    obtain rfl := Option.some.inj h
    rfl
  | append_singleton v b ih =>
    rw [length_append, length_singleton] at h hn
    obtain ⟨c₁, c₂, hrotate, hrest, rfl⟩ := repeated_succ h
    have hlen : (u ++ v).length = v.length + u.length := by
      rw [length_append, Nat.add_comm]
    have hstep := applyAll_rotateDown b (u ++ v) s hlen
    rw [hn, Nat.add_right_comm] at hrotate
    rw [← rotateStackDown_eq_some hrotate] at hstep
    rw [applyAll_append_of_some _ (by simpa using hstep)]
    have hnext := ih (b :: u) s (by rw [hn, length_cons, Nat.add_right_comm]; rfl) hrest
    simpa using hnext

lemma applyAll_moveIntoStack {u v : List α} (h : moveIntoStack v.length u.length = some c)
    (s : List α) : applyAll c (u ++ (v ++ s)) = some (v ++ (u ++ s)) := by
  rw [moveIntoStack] at h
  split_ifs at h with hle
  · exact applyAll_repeated_rotateStackDown u v s rfl h
  · exact applyAll_repeated_rotateStackUp u v s rfl h

lemma applyAll_moveToStackTop {xs : List α} (h : moveToStackTop xs.length 1 = some c) (x : α)
    (s : List α) : applyAll c (xs ++ x :: s) = some (x :: (xs ++ s)) :=
  applyAll_moveIntoStack (u := xs) (v := [x]) h s

variable {c' rest below : List α}

lemma applyAll_copyToStackTop {c : List α}
    (h : copyToStackTop (rest.length + c.length) c.length = some code) (s : List α) :
    applyAll code (rest ++ (c ++ s)) = some (c ++ (rest ++ (c ++ s))) := by
  rw [copyToStackTop] at h
  split_ifs at h with hle
  cases hc : c.length with
  | zero =>
    rw [hc] at h
    rw [eq_nil_of_length_eq_zero hc, ← Option.some.inj h]
    rfl
  | succ n =>
    rw [hc] at h
    have hdup : dupInstruction (rest.length + (n + 1)) =
        (some [.dup (rest.length + n)] : Option (List StackOperation)) :=
      if_pos ⟨by omega, by omega⟩
    rw [hdup, ← hc] at h
    rw [repeated_eq_replicate h]
    exact applyAll_dup rest s c (by omega)

lemma applyAll_replacements (rest : List α) {p y : List α} (q v z : List α)
    (hlen : y.length = p.length) (hn : n = p.length + q.length + rest.length + v.length)
    (h : repeated ((swapInstruction n).map (· ++ popInstruction)) p.length = some c) :
    applyAll c (p ++ q ++ (rest ++ (v ++ (y ++ z)))) =
      some (q ++ (rest ++ (v ++ (p ++ z)))) := by
  induction p generalizing y v c with
  | nil =>
    obtain rfl := Option.some.inj h
    rw [eq_nil_of_length_eq_zero hlen]
    rfl
  | cons a p ih =>
    obtain ⟨b, y, rfl⟩ := exists_cons_of_length_eq_add_one hlen
    obtain ⟨c₁, c₂, hstep, hrest, rfl⟩ := repeated_succ h
    obtain ⟨swap, hswap, rfl⟩ := Option.map_eq_some_iff.mp hstep
    obtain rfl := swapInstruction_eq_some hswap
    have happly : applyAll [.swap (n - 1), .pop]
        (a :: (p ++ q ++ (rest ++ v)) ++ b :: (y ++ z)) =
          some (p ++ q ++ (rest ++ v) ++ a :: (y ++ z)) := by
      have hidx : (p ++ q ++ (rest ++ v)).length = n - 1 := by
        simp only [hn, length_append, length_cons]
        omega
      rw [cons_append, applyAll_cons, apply_swap a b _ _ hidx]
      rfl
    rw [applyAll_append_of_some _ (by simpa [popInstruction] using happly)]
    have hnext := ih (v ++ [a]) (Nat.succ.inj hlen)
      (by simp only [hn, length_append, length_cons, length_nil]; omega) hrest
    simpa using hnext

lemma applyAll_removals (xs : List α)
    (h : repeated ((moveToStackTop xs.length 1).map (· ++ popInstruction)) n = some c)
    {s : List α} (hn : n ≤ s.length) : applyAll c (xs ++ s) = some (xs ++ s.drop n) := by
  induction n generalizing s c with
  | zero =>
    obtain rfl := Option.some.inj h
    rfl
  | succ n ih =>
    obtain ⟨x, s, rfl⟩ := exists_cons_of_length_pos (Nat.lt_of_lt_of_le n.succ_pos hn)
    obtain ⟨c₁, c₂, hstep, hrest, rfl⟩ := repeated_succ h
    obtain ⟨move, hmove, rfl⟩ := Option.map_eq_some_iff.mp hstep
    have hexec : applyAll (move ++ popInstruction) (xs ++ x :: s) = some (xs ++ s) := by
      rw [applyAll_append_of_some _ (applyAll_moveToStackTop hmove x s)]
      rfl
    rw [applyAll_append_of_some _ hexec]
    exact ih hrest (Nat.le_of_succ_le_succ hn)

/-! ### Components -/

/-- What is on the stack from the place of a component on after its words `c` have been replaced
by the words `c'`, with `below` below them. -/
def replaced (c c' below : List α) : List α :=
  c'.take c.length ++ below.take (c'.length - c.length - 1) ++ c'.drop c.length ++
    (c.drop c'.length).take (c.length - c'.length - 1) ++
    below.drop (c.length - c'.length - 1 + (c'.length - c.length - 1))

lemma replaced_of_le {c : List α} (h : c.length ≤ c'.length + 1) (h' : c'.length ≤ c.length + 1)
    (below : List α) : replaced c c' below = c' ++ below := by
  have hzero : c.length - c'.length - 1 = 0 := by omega
  have hzero' : c'.length - c.length - 1 = 0 := by omega
  simp [replaced, hzero, hzero']

lemma replaced_of_ge {c : List α} (h : c'.length ≤ c.length) (below : List α) :
    replaced c c' below = c' ++ ((c.drop c'.length).take (c.length - c'.length - 1) ++
      below.drop (c.length - c'.length - 1)) := by
  simp [replaced, h]

lemma replaced_of_lt {c : List α} (h : c.length < c'.length) (below : List α) :
    replaced c c' below = c'.take c.length ++ (below.take (c'.length - c.length - 1) ++
      (c'.drop c.length ++ below.drop (c'.length - c.length - 1))) := by
  have hzero : c.length - c'.length - 1 = 0 := by omega
  simp [replaced, hzero]

lemma applyAll_shrinks {c : List α} (hle : c'.length ≤ c.length)
    (h : repeated ((moveToStackTop (rest.length + c.length - 1) 1).map (· ++ popInstruction))
      (c.length - c'.length) = some code) (hbelow : c.length - c'.length - 1 ≤ below.length) :
    applyAll code (rest ++ (c' ++ (c.drop c'.length ++ below))) =
      some (rest ++ replaced c c' below) := by
  rw [replaced_of_ge hle]
  rcases Nat.eq_zero_or_pos (c.length - c'.length) with hzero | hpos
  · rw [hzero] at h ⊢
    obtain rfl := Option.some.inj h
    rw [drop_eq_nil_of_le (Nat.le_of_sub_eq_zero hzero)]
    rfl
  · obtain ⟨e, x, he⟩ : ∃ e x, c.drop c'.length = e ++ [x] :=
      ⟨_, _, (dropLast_concat_getLast
        (ne_nil_of_length_pos (by rwa [length_drop]))).symm⟩
    have hlen : c.length - c'.length = e.length + 1 := by
      rw [← length_drop, he, length_append, length_singleton]
    have hdepth : rest.length + c.length - 1 = (rest ++ (c' ++ e)).length := by
      simp only [length_append]
      omega
    rw [hdepth, hlen] at h
    rw [hlen] at hbelow
    have hexec := applyAll_removals (rest ++ (c' ++ e)) h (s := x :: below)
      (Nat.succ_le_succ hbelow)
    rw [he, hlen, Nat.add_sub_cancel, take_left]
    simpa using hexec

lemma applyAll_grows {c : List α} (hlt : c.length < c'.length)
    (h : moveIntoStack (rest.length + c.length + c'.length - c.length - 1)
      (c'.length - c.length) = some code) (hbelow : c'.length - c.length - 1 ≤ below.length) :
    applyAll code (c'.drop c.length ++ (rest ++ (c'.take c.length ++ below))) =
      some (rest ++ replaced c c' below) := by
  have htop : (c'.drop c.length).length = c'.length - c.length := length_drop
  have hmiddle : (rest ++ (c'.take c.length ++ below.take (c'.length - c.length - 1))).length =
      rest.length + c.length + c'.length - c.length - 1 := by
    simp only [length_append, length_take]
    omega
  rw [← htop, ← hmiddle] at h
  have hexec := applyAll_moveIntoStack h (below.drop (c'.length - c.length - 1))
  rw [replaced_of_lt hlt]
  simpa using hexec

lemma applyAll_moveBack {c : List α}
    (h : moveBack (rest.length + c.length) c.length c'.length = some code)
    (hbelow : c.length - c'.length - 1 + (c'.length - c.length - 1) ≤ below.length) :
    applyAll code (c' ++ (rest ++ (c ++ below))) =
      some (rest ++ replaced c c' below) := by
  simp only [moveBack, Option.bind_eq_bind, Option.bind_eq_some_iff, Option.pure_def,
    Option.some.injEq] at h
  obtain ⟨moves, hmoves, shrinks, hshrinks, grows, hgrows, rfl⟩ := h
  rcases Nat.lt_or_ge c.length c'.length with hlt | hge
  · rw [Nat.sub_eq_zero_of_le hlt.le] at hshrinks
    obtain rfl := Option.some.inj hshrinks
    rw [if_pos hlt] at hgrows
    have htake : (c'.take c.length).length = c.length := length_take_of_le hlt.le
    rw [Nat.min_eq_left hlt.le, ← htake] at hmoves
    have hexec := applyAll_replacements rest (c'.drop c.length) [] below htake.symm
      (by rw [htake, length_drop, length_nil]; omega) hmoves
    rw [take_append_drop, nil_append, nil_append] at hexec
    rw [append_nil, applyAll_append_of_some _ hexec]
    exact applyAll_grows hlt hgrows (Nat.le_of_add_left_le hbelow)
  · rw [if_neg hge.not_gt] at hgrows
    obtain rfl := Option.some.inj hgrows
    rw [Nat.min_eq_right hge] at hmoves
    have hexec := applyAll_replacements (y := c.take c'.length) rest [] []
      (c.drop c'.length ++ below) (length_take_of_le hge)
      (by rw [length_nil]; omega) hmoves
    rw [append_nil, nil_append, nil_append, nil_append, ← append_assoc
      (c.take _), take_append_drop] at hexec
    rw [append_nil, applyAll_append_of_some _ hexec]
    exact applyAll_shrinks hge hshrinks (Nat.le_of_add_right_le hbelow)

end CompilerUtils

end Polynomial
