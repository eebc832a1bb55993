import Polc.Yul.Machine

/-!
# WebAssembly

`libyul/backends/wasm/EWasmAST.h`: a representation of functions for WebAssembly, and their meaning.
Values have 64 bits. Branches leave the blocks around them up to the one with the label, and start
loops with the label again; `break` and `continue` are branches.
-/

namespace Yul

open Semantics List

namespace Wasm

inductive Expression where
  | literal (value : Word64)
  | localVariable (name : String)
  | globalVariable (name : String)
  | label (name : String)
  | functionCall (functionName : String) (arguments : List Expression)
  | builtinCall (functionName : String) (arguments : List Expression)
  | localAssignment (variableName : String) (value : Expression)
  | globalAssignment (variableName : String) (value : Expression)
  | block (labelName : String) (statements : List Expression)
  | if (condition : Expression) (statements : List Expression)
    (elseStatements : Option (List Expression))
  | loop (labelName : String) (statements : List Expression)
  | break (label : String)
  | continue (label : String)

structure FunctionDefinition where
  name : String
  parameterNames : List String
  returns : Bool
  locals : List String
  body : List Expression

/-- What is printed: the names of the global variables, and the functions. -/
structure Module where
  globals : List String
  functions : List FunctionDefinition

/-- The values of the variables. -/
structure Store where
  locals : Valuation Word64
  globals : Valuation Word64

/-- The values that an expression leaves on the stack, or the label it branches to. -/
inductive Outcome where
  | values (vs : List Word64)
  | branch (label : String)
  deriving DecidableEq

/-- The machine, the bound on the iterations of loops, and what calls do. -/
structure Evaluator (η σ : Type) where
  machine : Machine η σ Word64
  fuel : Nat
  call : String → List Word64 → Valuation Word64 → σ → Result η σ (List Word64 × Valuation Word64)

abbrev Run (η σ : Type) := Result η σ (Outcome × Store)

variable {η σ : Type}

/-- Go on with the values, unless there is a branch. -/
def Outcome.resume (f : List Word64 → Store → σ → Run η σ) : Outcome → Store → σ → Run η σ
  | .values vs, S, m => f vs S m
  | .branch l, S, m => .ok (.branch l, S) m

def andThen (r : Run η σ) (f : List Word64 → Store → σ → Run η σ) : Run η σ :=
  r.bind fun r m => r.1.resume f r.2 m

/-- Branches to the label of a block leave it. -/
def Outcome.leave (label : String) (o : Outcome) : Outcome :=
  if o = .branch label ∧ label ≠ "" then .values [] else o

/-- Branches to the label of a loop start it again. -/
def iterate (label : String) (body : Store → σ → Run η σ) : Nat → Store → σ → Run η σ
  | 0, _, _ => .timeout
  | n + 1, S, m =>
    (body S m).bind fun r m =>
      if r.1 = .branch label ∧ label ≠ "" then iterate label body n r.2 m else .ok r m

/-- The label among the arguments of a branch. -/
def labelOf : List Expression → String
  | .label l :: _ => l
  | _ => ""

namespace Evaluator

variable (J : Evaluator η σ)

mutual

def exec : Expression → Store → σ → Run η σ
  | .literal v, S, m => .ok (.values [v], S) m
  | .localVariable x, S, m =>
    match S.locals x with
    | some v => .ok (.values [v], S) m
    | none => .halt J.machine.invalid m
  | .globalVariable x, S, m =>
    match S.globals x with
    | some v => .ok (.values [v], S) m
    | none => .halt J.machine.invalid m
  | .label _, S, m => .ok (.values [], S) m
  | .functionCall f es, S, m =>
    andThen (execAll es S m) fun vs S m =>
      (J.call f vs S.globals m).map fun r => (.values r.1, { S with globals := r.2 })
  | .builtinCall f es, S, m =>
    andThen (execAll es S m) fun vs S m =>
      if f = "nop" then .ok (.values [], S) m
      else if f = "br_if" then
        .ok (if vs.headD 0 = 0 then .values [] else .branch (labelOf es), S) m
      else
        match J.machine.builtin f with
        | some b => (b vs m).map fun vs => (.values vs, S)
        | none => .halt J.machine.invalid m
  | .localAssignment x e, S, m =>
    andThen (exec e S m) fun vs S m =>
      if (S.locals x).isSome then
        .ok (.values [], { S with locals := S.locals.set x (vs.headD 0) }) m
      else .halt J.machine.invalid m
  | .globalAssignment x e, S, m =>
    andThen (exec e S m) fun vs S m =>
      if (S.globals x).isSome then
        .ok (.values [], { S with globals := S.globals.set x (vs.headD 0) }) m
      else .halt J.machine.invalid m
  | .block l ss, S, m => (execAll ss S m).map fun r => (r.1.leave l, r.2)
  | .if c ss es, S, m =>
    andThen (exec c S m) fun vs S m =>
      if vs.headD 0 = 0 then execElse es S m else execAll ss S m
  | .loop l ss, S, m => iterate l (fun S m => execAll ss S m) J.fuel S m
  | .break l, S, m | .continue l, S, m => .ok (.branch l, S) m

/-- Execute expressions one after the other; their values stay on the stack. -/
def execAll : List Expression → Store → σ → Run η σ
  | [], S, m => .ok (.values [], S) m
  | e :: es, S, m =>
    andThen (exec e S m) fun vs S m =>
      andThen (execAll es S m) fun ws S m => .ok (.values (vs ++ ws), S) m

def execElse : Option (List Expression) → Store → σ → Run η σ
  | none, S, m => .ok (.values [], S) m
  | some es, S, m => execAll es S m

end

end Evaluator

/-- The local variables a function starts with. -/
def FunctionDefinition.start (d : FunctionDefinition) (vs : List Word64) : Valuation Word64 :=
  (Valuation.assign (fun _ => none) d.parameterNames vs).assign d.locals []

/-- The values that a function leaves on the stack, and the global variables. -/
def FunctionDefinition.finish (M : Machine η σ Word64) (d : FunctionDefinition)
    (r : Outcome × Store) (m : σ) : Result η σ (List Word64 × Valuation Word64) :=
  match r.1 with
  | .values vs =>
    if vs.length = d.returns.toNat then .ok (vs, r.2.globals) m else .halt M.invalid m
  | .branch _ => .halt M.invalid m

/-- Call a function, with a bound on the depth of calls and the iterations of each loop. -/
def callFunction (M : Machine η σ Word64) (ds : List FunctionDefinition) :
    Nat → String → List Word64 → Valuation Word64 → σ →
      Result η σ (List Word64 × Valuation Word64)
  | 0, _, _, _, _ => .timeout
  | n + 1, f, vs, G, m =>
    match ds.find? (·.name = f) with
    | none => .halt M.invalid m
    | some d =>
      if vs.length = d.parameterNames.length then
        (Evaluator.execAll ⟨M, n + 1, callFunction M ds n⟩ d.body ⟨d.start vs, G⟩ m).bind
          (d.finish M)
      else .halt M.invalid m

/-- The global variables before the first call. -/
def Module.start (module : Module) : Valuation Word64 :=
  Valuation.assign (fun _ => none) module.globals []

/-- Call a function of the module, with given values of the global variables. -/
def Module.call (M : Machine η σ Word64) (module : Module) (n : Nat) (f : String)
    (vs : List Word64) (G : Valuation Word64) (m : σ) :
    Result η σ (List Word64 × Valuation Word64) :=
  callFunction M module.functions n f vs G m

/-! ### Equations -/

section

variable {J : Evaluator η σ} {S : Store} {m : σ} {e : Expression} {es ss : List Expression}

@[simp] lemma Outcome.resume_values (f : List Word64 → Store → σ → Run η σ) (vs : List Word64)
    (S : Store) (m : σ) : (Outcome.values vs).resume f S m = f vs S m := rfl

@[simp] lemma Outcome.resume_branch (f : List Word64 → Store → σ → Run η σ) (l : String)
    (S : Store) (m : σ) : (Outcome.branch l).resume f S m = .ok (.branch l, S) m := rfl

@[simp] lemma andThen_ok_values (vs : List Word64) (S : Store) (m : σ)
    (f : List Word64 → Store → σ → Run η σ) :
    andThen (.ok (.values vs, S) m) f = f vs S m := rfl

@[simp] lemma andThen_ok_branch (l : String) (S : Store) (m : σ)
    (f : List Word64 → Store → σ → Run η σ) :
    andThen (.ok (.branch l, S) m) f = .ok (.branch l, S) m := rfl

lemma andThen_assoc (r : Run η σ) (f g : List Word64 → Store → σ → Run η σ) :
    andThen (andThen r f) g = andThen r fun vs S m => andThen (f vs S m) g := by
  cases r with
  | ok r m =>
    obtain ⟨o, S⟩ := r
    cases o <;> rfl
  | halt h m => rfl
  | timeout => rfl

lemma andThen_ok (r : Run η σ) :
    andThen r (fun vs S m => .ok (.values ([] ++ vs), S) m) = r := by
  cases r with
  | ok r m =>
    obtain ⟨o, S⟩ := r
    cases o <;> rfl
  | halt h m => rfl
  | timeout => rfl

lemma execAll_cons :
    J.execAll (e :: es) S m =
      andThen (J.exec e S m) fun vs S m =>
        andThen (J.execAll es S m) fun ws S m => .ok (.values (vs ++ ws), S) m := rfl

lemma execAll_singleton (e : Expression) (S : Store) (m : σ) :
    J.execAll [e] S m = J.exec e S m := by
  rw [execAll_cons]
  cases J.exec e S m with
  | ok r m =>
    obtain ⟨o, S⟩ := r
    cases o with
    | values vs =>
      rw [andThen_ok_values, Evaluator.execAll, andThen_ok_values, append_nil]
    | branch l => rfl
  | halt h m => rfl
  | timeout => rfl

lemma execAll_append (es es' : List Expression) (S : Store) (m : σ) :
    J.execAll (es ++ es') S m =
      andThen (J.execAll es S m) fun vs S m =>
        andThen (J.execAll es' S m) fun ws S m => .ok (.values (vs ++ ws), S) m := by
  induction es generalizing S m with
  | nil =>
    rw [nil_append, Evaluator.execAll, andThen_ok_values]
    cases J.execAll es' S m with
    | ok r m =>
      obtain ⟨o, S⟩ := r
      cases o <;> rfl
    | halt h m => rfl
    | timeout => rfl
  | cons e es ih =>
    rw [cons_append, execAll_cons, execAll_cons, andThen_assoc]
    congr 1
    funext vs S m
    rw [ih, andThen_assoc, andThen_assoc]
    congr 1
    funext vs' S m
    rw [andThen_assoc, andThen_ok_values]
    congr 1
    funext ws S m
    rw [andThen_ok_values, append_assoc]

lemma iterate_noLabel (body : Store → σ → Run η σ) (n : Nat) (S : Store) (m : σ) :
    iterate "" body (n + 1) S m = body S m := by
  rw [iterate]
  cases body S m with
  | ok r m => exact if_neg fun h => h.2 rfl
  | halt h m => rfl
  | timeout => rfl

@[simp] lemma Outcome.leave_values (l : String) (vs : List Word64) :
    (Outcome.values vs).leave l = .values vs :=
  if_neg fun h => nomatch h.1

lemma Outcome.leave_self {l : String} (h : l ≠ "") : (Outcome.branch l).leave l = .values [] :=
  if_pos ⟨rfl, h⟩

lemma Outcome.leave_of_ne {l l' : String} (h : l' ≠ l) :
    (Outcome.branch l').leave l = .branch l' :=
  if_neg fun heq => h (Outcome.branch.inj heq.1)

@[simp] lemma Outcome.leave_empty (o : Outcome) : o.leave "" = o :=
  if_neg fun h => h.2 rfl

end

end Wasm

end Yul
