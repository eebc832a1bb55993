import Polc.Yul.Backends.Wasm.EWasmCodeTransform.Properties
import Polc.Yul.Machine.Fuel

/-!
# The translation to WebAssembly keeps the meaning of programs

Local variables have the values of the variables in scope, variables that have not been declared yet
are zero, and the global variables have the values of a function apart from the first one.
-/

namespace Yul

open Semantics List Statement Evaluator
open Bool (and_eq_true)
open Option (bind_eq_some_iff isSome_iff_exists map_eq_some_iff not_isSome_iff_eq_none)

/-- The machine has the builtin functions of WebAssembly, with as many values as they have, and
words of 64 bits have their usual meaning. -/
structure Machine.IsWasm {η σ : Type} (M : Machine η σ Word64) : Prop where
  literal : ∀ l, l.word.toNat < 2 ^ 64 → M.literal l = l.word.setWidth 64
  isTrue : ∀ v, M.isTrue v = decide (v ≠ 0)
  eq : ∃ b, M.builtin "i64.eq" = some b ∧
    ∀ v w m, b [v, w] m = .ok [if v = w then 1 else 0] m
  eqz : ∃ b, M.builtin "i64.eqz" = some b ∧ ∀ v m, b [v] m = .ok [if v = 0 then 1 else 0] m
  builtin : ∀ f, (M.builtin f).isSome = (WasmDialect.builtin f).isSome
  results : ∀ f k b, WasmDialect.builtin f = some k → M.builtin f = some b →
    ∀ vs m, (b vs m).Returns fun ws _ => ws.length = k.2

namespace EWasmCodeTransform

/-- The local variables have the values of the variables in scope. -/
def Agree (V L : Valuation Word64) : Prop := ∀ x w, V x = some w → L x = some w

/-- The global variables have been declared. -/
def Declared (gs : List YulString) (G : Valuation Word64) : Prop := ∀ g ∈ gs, (G g).isSome = true

/-- The global variables have the values apart from the first one. -/
def ReturnsIn (gs : List YulString) (vs : List Word64) (G : Valuation Word64) : Prop :=
  ∀ i v, vs[i + 1]? = some v → ∃ g, gs[i]? = some g ∧ G g = some v

section

variable {V L G : Valuation Word64} {gs xs : List YulString} {vs : List Word64}

lemma Agree.assign (h : Agree V L) (xs : List YulString) (vs : List Word64) :
    Agree (V.assign xs vs) (L.assign xs vs) := by
  induction xs generalizing V L vs with
  | nil => exact h
  | cons x xs ih =>
    refine ih (fun y w hy => ?_) _
    unfold Valuation.set at hy ⊢
    split_ifs at hy ⊢
    · exact hy
    · exact h y w hy

lemma returnsIn_of_length_le (h : vs.length ≤ 1) : ReturnsIn gs vs G := by
  intro i v hv
  rw [getElem?_eq_none (by omega)] at hv
  cases hv

lemma Declared.set (h : Declared gs G) (x : YulString) (v : Word64) : Declared gs (G.set x v) := by
  intro g hg
  unfold Valuation.set
  split_ifs
  · rfl
  · exact h g hg

end

section

variable {η σ α β : Type} {p : Prop} {A : α → Wasm.Outcome × Wasm.Store → Prop}
  {B : β → Wasm.Outcome × Wasm.Store → Prop}

variable {g : List Word64 → Wasm.Store → σ → Wasm.Run η σ}

lemma sim_andThen {r : Result η σ α} {r' : Wasm.Run η σ} {f : α → σ → Result η σ β}
    (h : Result.Sim p False Eq A r r')
    (hf : ∀ a o S m, A a (o, S) → Result.Sim p False Eq B (f a m) (o.resume g S m)) :
    Result.Sim p False Eq B (r.bind f) (Wasm.andThen r' g) := by
  refine h.bind ?_
  rintro a ⟨o, S⟩ m _ - - ha rfl
  exact hf a o S m ha

lemma sim_andThen_right {C : α → Wasm.Outcome × Wasm.Store → Prop} {r : Result η σ α}
    {r' : Wasm.Run η σ} (h : Result.Sim p False Eq A r r')
    (hg : ∀ a o S m, A a (o, S) → Result.Sim p False Eq C (.ok a m) (o.resume g S m)) :
    Result.Sim p False Eq C r (Wasm.andThen r' g) := by
  have hbind : r.bind .ok = r := by
    cases r <;> rfl
  rw [← hbind]
  exact sim_andThen h hg

lemma sim_map_left {γ δ : Type} {C : α → γ → Prop} {D : δ → γ → Prop} {f : α → δ}
    {r : Result η σ α} {r' : Result η σ γ} (h : Result.Sim p False Eq C r r')
    (hf : ∀ a c, C a c → D (f a) c) : Result.Sim p False Eq D (r.map f) r' := by
  cases h with
  | rel h =>
    cases h with
    | ok ha hs => exact .ok (hf _ _ ha) hs
    | halt h hs => exact .halt h hs
    | timeout => exact .timeout
  | left hp => exact .left hp
  | right hq => exact hq.elim

lemma sim_map_right {γ δ : Type} {C : α → γ → Prop} {D : α → δ → Prop} {f : γ → δ}
    {r : Result η σ α} {r' : Result η σ γ} (h : Result.Sim p False Eq C r r')
    (hf : ∀ a c, C a c → D a (f c)) : Result.Sim p False Eq D r (r'.map f) := by
  cases h with
  | rel h =>
    cases h with
    | ok ha hs => exact .ok (hf _ _ ha) hs
    | halt h hs => exact .halt h hs
    | timeout => exact .timeout
  | left hp => exact .left hp
  | right hq => exact hq.elim

end

/-! ### Expressions -/

/-- An expression with `n` values: the first one is on the stack, the others are in global
variables. -/
def Evaluated (gs : List YulString) (L : Valuation Word64) (n : Nat) (vs : List Word64)
    (r : Wasm.Outcome × Wasm.Store) : Prop :=
  vs.length = n ∧ ∃ G, r = (.values (vs.take 1), ⟨L, G⟩) ∧ ReturnsIn gs vs G ∧ Declared gs G

/-- The functions of WebAssembly do what the functions of the program do. -/
structure Matches {η σ : Type} (p : Prop) (gs : List YulString) (F : Functions)
    (I : Evaluator η σ Word64) (J : Wasm.Evaluator η σ) : Prop where
  machine : J.machine = I.machine
  wasm : I.machine.IsWasm
  fuel : ∃ n, J.fuel = n + 1
  call : ∀ f d vs G m, F f = some d → vs.length = d.parameters.length → Declared gs G →
    Result.Sim p False Eq
      (fun ws r => ws.length = d.returnVariables.length ∧ r.1 = ws.take 1 ∧
        ReturnsIn gs ws r.2 ∧ Declared gs r.2) (I.call F f vs m) (J.call f vs G m)

variable {e' : Wasm.Expression} {es es' : List Wasm.Expression}

section

variable {η σ : Type} {p : Prop} {gs xs : List YulString} {F : Functions}
  {I : Evaluator η σ Word64} {J : Wasm.Evaluator η σ} {V L : Valuation Word64}

lemma exec_elementary (hJ : Matches p gs F I J) (hV : ∀ x ∈ xs, (V x).isSome)
    (hL : Agree V L) {e : Expression} (he : analyzed F xs e)
    (helementary : e.isElementary) (hvisit : visit e = some e') :
    ∃ v, (∀ m, I.eval F V e m = .ok [v] m) ∧
      ∀ G m, J.exec e' ⟨L, G⟩ m = .ok (.values [v], ⟨L, G⟩) m := by
  cases e with
  | identifier x =>
    cases hvisit
    obtain ⟨w, hw⟩ := isSome_iff_exists.mp (hV x (of_decide_eq_true he))
    refine ⟨w, fun m => ?_, fun G m => ?_⟩
    · rw [Evaluator.eval, hw]
      rfl
    · rw [Wasm.Evaluator.exec]
      dsimp only
      rw [hL x w hw]
  | literal l =>
    obtain ⟨hl, hlt⟩ := visit_literal he
    cases hvisit.symm.trans hl
    refine ⟨l.word.setWidth 64, fun m => ?_, fun G m => rfl⟩
    rw [Evaluator.eval, hJ.wasm.literal l hlt]
  | _ => cases helementary

lemma execAll_elementary (hJ : Matches p gs F I J) (hV : ∀ x ∈ xs, (V x).isSome)
    (hL : Agree V L) {es : List Expression} (hes : argumentsAnalyzed F xs es)
    (helementary : es.countP (!·.isElementary) = 0) (hvisit : visitAll es = some es') :
    ∃ vs, vs.length = es.length ∧ (∀ m, I.evaluateArgs F V es m = .ok vs m) ∧
      ∀ G m, J.execAll es' ⟨L, G⟩ m = .ok (.values vs, ⟨L, G⟩) m := by
  induction es generalizing es' with
  | nil =>
    cases hvisit
    exact ⟨[], rfl, fun _ => rfl, fun _ _ => rfl⟩
  | cons e es ih =>
    rw [argumentsAnalyzed, and_eq_true, and_eq_true] at hes
    obtain ⟨e', he', hvisit⟩ := bind_eq_some_iff.mp hvisit
    obtain ⟨es', hes', rfl⟩ := map_eq_some_iff.mp hvisit
    rw [countP_cons] at helementary
    obtain ⟨hcount, he⟩ := Nat.add_eq_zero_iff.mp helementary
    have he : e.isElementary = true := by
      by_contra hne
      simp [hne] at he
    obtain ⟨v, hv, hv'⟩ := exec_elementary hJ hV hL hes.1.1 he he'
    obtain ⟨vs, hlength, hvs, hvs'⟩ := ih hes.2 hcount hes'
    refine ⟨v :: vs, congrArg (· + 1) hlength, fun m => ?_, fun G m => ?_⟩
    · rw [Evaluator.args_cons, hvs, Result.bind_ok, hv]
      rfl
    · rw [Wasm.execAll_cons, hv', Wasm.andThen_ok_values, hvs']
      rfl

/-- The values of arguments. -/
def ArgumentsEvaluated (gs : List YulString) (L : Valuation Word64) (n : Nat) (vs : List Word64)
    (r : Wasm.Outcome × Wasm.Store) : Prop :=
  vs.length = n ∧ ∃ G, r = (.values vs, ⟨L, G⟩) ∧ Declared gs G

variable {f : YulString}

lemma wasmDialect_results_le {k : Nat × Nat} (h : WasmDialect.builtin f = some k) : k.2 ≤ 1 := by
  have hall : ∀ p ∈ WasmDialect.functions, p.2.2 ≤ 1 := by decide
  obtain ⟨l₁, l₂, heq, -⟩ := lookup_eq_some_iff.mp h
  exact hall (f, k) (heq ▸ mem_append_right _ mem_cons_self)

lemma exec_builtinCall (hJ : Matches p gs F I J) (hf : (WasmDialect.builtin f).isSome)
    {n : Nat} {es : List Expression} {S : Wasm.Store} {m : σ}
    (h : Result.Sim p False Eq (ArgumentsEvaluated gs L n) (I.evaluateArgs F V es m)
      (J.execAll es' S m)) :
    Result.Sim p False Eq (Evaluated gs L (results F (.functionCall f es)))
      (I.eval F V (.functionCall f es) m) (J.exec (.builtinCall f es') S m) := by
  obtain ⟨k, hk⟩ := isSome_iff_exists.mp hf
  obtain ⟨b, hb⟩ := isSome_iff_exists.mp ((hJ.wasm.builtin f).trans hf)
  have hnop : f ≠ "nop" := by
    rintro rfl
    cases hk
  have hbrif : f ≠ "br_if" := by
    rintro rfl
    cases hk
  have hresults : results F (.functionCall f es) = k.2 := by
    rw [results, arity, hk]
    rfl
  rw [eval_functionCall, Wasm.Evaluator.exec]
  refine sim_andThen h ?_
  rintro vs o S₁ m₁ ⟨-, G₁, ⟨⟩, hG₁⟩
  rw [Wasm.Outcome.resume_values]
  rw [hb, if_neg hnop, if_neg hbrif, hJ.machine, hb]
  dsimp only
  have hvalues := hJ.wasm.results f k b hk hb vs m₁
  cases hr : b vs m₁ with
  | ok ws m₂ =>
    have hlength := hvalues ws m₂ hr
    have hle := wasmDialect_results_le hk
    refine .ok ⟨hlength.trans hresults.symm, G₁, ?_, returnsIn_of_length_le ?_, hG₁⟩ rfl
    · rw [take_of_length_le (by omega)]
    · omega
  | halt h m₂ => exact .halt h rfl
  | timeout => exact .timeout

lemma exec_functionCall (hJ : Matches p gs F I J) (hf : WasmDialect.builtin f = none) {n : Nat}
    {es : List Expression} (hn : (arity F f).map (·.1) = some n) {S : Wasm.Store} {m : σ}
    (h : Result.Sim p False Eq (ArgumentsEvaluated gs L n) (I.evaluateArgs F V es m)
      (J.execAll es' S m)) :
    Result.Sim p False Eq (Evaluated gs L (results F (.functionCall f es)))
      (I.eval F V (.functionCall f es) m) (J.exec (.functionCall f es') S m) := by
  have hb : I.machine.builtin f = none := by
    rw [← not_isSome_iff_eq_none, hJ.wasm.builtin, hf]
    exact nofun
  have harity : arity F f = (F f).map (·.arity) := by
    rw [arity, hf]
  rw [harity] at hn
  obtain ⟨d, hd, hn⟩ := map_eq_some_iff.mp ((Option.map_map ..).symm.trans hn)
  have hresults : results F (.functionCall f es) = d.returnVariables.length := by
    rw [results, harity, hd]
    rfl
  rw [eval_functionCall, Wasm.Evaluator.exec]
  refine sim_andThen h ?_
  rintro vs o S₁ m₁ ⟨hlength, G₁, ⟨⟩, hG₁⟩
  rw [Wasm.Outcome.resume_values]
  rw [hb]
  refine sim_map_right (hJ.call f d vs G₁ m₁ hd (hlength.trans hn.symm) hG₁) ?_
  rintro ws ⟨us, G₂⟩ ⟨hws, rfl, hreturns, hG₂⟩
  exact ⟨hws.trans hresults.symm, G₂, rfl, hreturns, hG₂⟩

mutual

/-- The order in which arguments are evaluated does not matter if only one of them is a call. -/
lemma exec_visit (hJ : Matches p gs F I J) (hV : ∀ x ∈ xs, (V x).isSome) (hL : Agree V L)
    (e : Expression) {e' : Wasm.Expression} (he : analyzed F xs e)
    (hone : oneCall e) (hvisit : visit e = some e') (G : Valuation Word64)
    (hG : Declared gs G) (m : σ) :
    Result.Sim p False Eq (Evaluated gs L (results F e)) (I.eval F V e m)
      (J.exec e' ⟨L, G⟩ m) := by
  match e with
  | .functionalInstruction i args => cases he
  | .identifier x | .literal l =>
    obtain ⟨v, hv, hv'⟩ := exec_elementary hJ hV hL he rfl hvisit
    rw [hv, hv']
    exact .ok ⟨rfl, G, rfl, returnsIn_of_length_le le_rfl, hG⟩ rfl
  | .functionCall f args =>
    obtain ⟨args', hargs, hvisit⟩ := map_eq_some_iff.mp hvisit
    rw [analyzed, and_eq_true, decide_eq_true_eq] at he
    rw [oneCall, and_eq_true, decide_eq_true_eq] at hone
    have hsim := execAll_visitAll hJ hV hL args he.2 hone.1 hone.2 hargs G hG m
    by_cases hb : (WasmDialect.builtin f).isSome = true
    · rw [if_pos hb] at hvisit
      subst hvisit
      exact exec_builtinCall hJ hb hsim
    · rw [if_neg hb] at hvisit
      subst hvisit
      exact exec_functionCall hJ (not_isSome_iff_eq_none.mp hb) he.1 hsim

lemma execAll_visitAll (hJ : Matches p gs F I J) (hV : ∀ x ∈ xs, (V x).isSome)
    (hL : Agree V L) (es : List Expression) {es' : List Wasm.Expression}
    (hes : argumentsAnalyzed F xs es) (hcount : es.countP (!·.isElementary) ≤ 1)
    (hone : oneCallAll es) (hvisit : visitAll es = some es') (G : Valuation Word64)
    (hG : Declared gs G) (m : σ) :
    Result.Sim p False Eq (ArgumentsEvaluated gs L es.length) (I.evaluateArgs F V es m)
      (J.execAll es' ⟨L, G⟩ m) := by
  match es with
  | [] =>
    cases hvisit
    exact .ok ⟨rfl, G, rfl, hG⟩ rfl
  | e :: es =>
    rw [argumentsAnalyzed, and_eq_true, and_eq_true] at hes
    rw [oneCallAll, and_eq_true] at hone
    rw [countP_cons] at hcount
    obtain ⟨e', he', hvisit⟩ := bind_eq_some_iff.mp hvisit
    obtain ⟨es', hes', rfl⟩ := map_eq_some_iff.mp hvisit
    by_cases he : e.isElementary = true
    · obtain ⟨v, hv, hv'⟩ := exec_elementary hJ hV hL hes.1.1 he he'
      have hsim := execAll_visitAll hJ hV hL es hes.2
        (le_trans (Nat.le_add_right _ _) hcount) hone.2 hes' G hG m
      rw [Evaluator.args_cons, Wasm.execAll_cons, hv', Wasm.andThen_ok_values]
      refine sim_andThen hsim ?_
      rintro vs o S m₁ ⟨hlength, G₁, ⟨⟩, hG₁⟩
      rw [hv]
      exact .ok ⟨congrArg (· + 1) hlength, G₁, rfl, hG₁⟩ rfl
    · have hcount' : es.countP (!·.isElementary) = 0 := by
        rw [if_pos (by simpa using he)] at hcount
        omega
      obtain ⟨vs, hlength, hvs, hvs'⟩ := execAll_elementary hJ hV hL hes.2 hcount' hes'
      have hsim := exec_visit hJ hV hL e hes.1.1 hone.1 he' G hG m
      rw [Evaluator.args_cons, hvs, Result.bind_ok, Wasm.execAll_cons]
      refine sim_andThen hsim ?_
      rintro ws o S m₁ ⟨hws, G₁, ⟨⟩, -, hG₁⟩
      rw [of_decide_eq_true hes.1.2] at hws
      obtain ⟨w, rfl⟩ := length_eq_one_iff.mp hws
      rw [Wasm.Outcome.resume_values]
      rw [hvs', Wasm.andThen_ok_values]
      exact .ok ⟨congrArg (· + 1) hlength, G₁, rfl, hG₁⟩ rfl

end

end

/-! ### Assignments -/

section

variable {η σ : Type} {p : Prop} {gs globals xs : List YulString} {J : Wasm.Evaluator η σ}
  {L G : Valuation Word64}

lemma execAll_globalVariables {vs : List Word64} (hlength : xs.length = vs.length)
    (hvs : ∀ (i : Nat) v, vs[i]? = some v → ∃ g, globals[i]? = some g ∧ G g = some v)
    (hL : ∀ x ∈ xs, (L x).isSome) (m : σ) :
    J.execAll (List.zipWith (fun x g => .localAssignment x (.globalVariable g)) xs globals)
      ⟨L, G⟩ m = .ok (.values [], ⟨L.assign xs vs, G⟩) m := by
  induction xs generalizing L vs globals with
  | nil => rfl
  | cons x xs ih =>
    obtain ⟨v, vs, rfl⟩ := exists_cons_of_length_eq_add_one hlength.symm
    obtain ⟨g, hg, hv⟩ := hvs 0 v rfl
    rw [← head?_eq_getElem?] at hg
    obtain ⟨globals, rfl⟩ := head?_eq_some_iff.mp hg
    obtain ⟨hx, hL⟩ := forall_mem_cons.mp hL
    have hset : J.exec (.localAssignment x (.globalVariable g)) ⟨L, G⟩ m =
        .ok (.values [], ⟨L.set x v, G⟩) m := by
      rw [Wasm.Evaluator.exec, Wasm.Evaluator.exec]
      dsimp only
      rw [hv, Wasm.andThen_ok_values, if_pos hx]
      rfl
    have hvs' : ∀ (i : Nat) v, vs[i]? = some v → ∃ g, globals[i]? = some g ∧ G g = some v :=
      fun i v hi => hvs (i + 1) v hi
    have hrest := ih (L := L.set x v) (Nat.succ.inj hlength) hvs' fun y hy => by
      unfold Valuation.set
      split_ifs
      · rfl
      · exact hL y hy
    rw [zipWith_cons_cons, Wasm.execAll_cons, hset, Wasm.andThen_ok_values, hrest]
    rfl

lemma exec_generateMultiAssignment (hglobals : globals <+: gs) {e : Wasm.Expression}
    (h : generateMultiAssignment globals e xs = some e') (hL : ∀ x ∈ xs, (L x).isSome)
    {r : Result η σ (List Word64)} {m : σ}
    (hsim : Result.Sim p False Eq (Evaluated gs L xs.length) r (J.exec e ⟨L, G⟩ m)) :
    Result.Sim p False Eq
      (fun vs r => ∃ G, r = (.values [], ⟨L.assign xs vs, G⟩) ∧ Declared gs G) r
      (J.exec e' ⟨L, G⟩ m) := by
  have hfirst {x : YulString} (hx : (L x).isSome = true) {n : Nat}
      (hsim : Result.Sim p False Eq (Evaluated gs L (n + 1)) r (J.exec e ⟨L, G⟩ m)) :
      Result.Sim p False Eq (fun vs r => vs.length = n + 1 ∧ ∃ G,
        r = (.values [], ⟨L.set x (vs.headD 0), G⟩) ∧ ReturnsIn gs vs G ∧ Declared gs G) r
        (J.exec (.localAssignment x e) ⟨L, G⟩ m) := by
    rw [Wasm.Evaluator.exec]
    refine sim_andThen_right hsim ?_
    rintro vs o S m₁ ⟨hlength, G₁, ⟨⟩, hreturns, hG₁⟩
    obtain ⟨v, vs, rfl⟩ := exists_cons_of_length_eq_add_one hlength
    rw [Wasm.Outcome.resume_values]
    rw [if_pos hx]
    exact .ok ⟨hlength, G₁, rfl, hreturns, hG₁⟩ rfl
  match xs with
  | [] => cases h
  | [x] =>
    cases h
    refine (hfirst (hL x mem_cons_self) hsim).mono ?_
    rintro vs _ ⟨hlength, G₁, rfl, -, hG₁⟩
    exact ⟨G₁, rfl, hG₁⟩
  | x :: y :: xs =>
    rw [generateMultiAssignment] at h
    · split_ifs at h with hle
      cases h
      obtain ⟨hx, hL⟩ := forall_mem_cons.mp hL
      have hfirst := hfirst hx hsim
      rw [Wasm.Evaluator.exec, Wasm.execAll_cons]
      refine sim_map_right (sim_andThen_right hfirst (C := fun vs r => ∃ G,
        r = (.values [], ⟨L.assign (x :: y :: xs) vs, G⟩) ∧ Declared gs G) ?_) ?_
      · rintro vs o S m₁ ⟨hlength, G₁, ⟨⟩, hreturns, hG₁⟩
        obtain ⟨v, vs, rfl⟩ := exists_cons_of_length_eq_add_one hlength
        have hvs : ∀ (i : Nat) w, vs[i]? = some w → ∃ g, globals[i]? = some g ∧ G₁ g = some w := by
          intro i w hw
          obtain ⟨g, hg, hgw⟩ := hreturns i w hw
          refine ⟨g, ?_, hgw⟩
          have hi := (List.getElem?_eq_some_iff.mp hw).1
          have hlt : i < globals.length := by
            rw [← Nat.succ.inj hlength] at hle
            exact hi.trans_le hle
          obtain ⟨rest, rfl⟩ := hglobals
          rw [← hg, getElem?_append_left hlt]
        rw [Wasm.Outcome.resume_values,
          execAll_globalVariables (Nat.succ.inj hlength).symm hvs ?_, Wasm.andThen_ok_values]
        · exact .ok ⟨G₁, rfl, hG₁⟩ rfl
        · intro z hz
          unfold Valuation.set
          split_ifs
          · rfl
          · exact hL z hz
      · rintro vs _ ⟨G₁, rfl, hG₁⟩
        exact ⟨G₁, rfl, hG₁⟩
    · rintro ⟨⟩

end

/-! ### Statements -/

/-- What leaving or continuing a loop becomes, if one may still do so. -/
def Leaves (b : Bool) (labels : YulString × YulString) : LoopState → Wasm.Outcome → Prop
  | .default, o => o = .values []
  | .break, o => b = true ∧ o = .branch labels.1
  | .continue, o => b = true ∧ o = .branch labels.2

/-- Where statements begin that declare the given names, with `xs` in scope: the local variables
have the values of the variables in scope, and those that are declared later are zero. -/
structure Ready (gs : List YulString) (T T' : State) (names xs : List YulString) (b : Bool)
    (labels : YulString × YulString) (V : Valuation Word64) (S : Wasm.Store) : Prop where
  agree : Agree V S.locals
  scope : ∀ x ∈ xs, (V x).isSome = true
  known : ∀ x, (V x).isSome = true → x ∈ T.nameDispenser.usedNames
  used : names ⊆ T.nameDispenser.usedNames
  undeclared : ∀ x ∈ names, V x = none
  fresh : ∀ x ∈ names, S.locals x = some 0
  locals : ∀ x ∈ T'.localVariables, (S.locals x).isSome = true
  globals : Declared gs S.globals
  labels : b = true → T.breakContinueLabelNames.head? = some labels

/-- Where statements that declare the given names end, of which `declares` are in scope. Other local
variables have not changed. -/
structure Follows (gs : List YulString) (T : State) (names declares : List YulString) (b : Bool)
    (labels : YulString × YulString) (V : Valuation Word64) (S : Wasm.Store)
    (r : LoopState × Valuation Word64) (r' : Wasm.Outcome × Wasm.Store) : Prop where
  leaves : Leaves b labels r.1 r'.1
  agree : Agree r.2 r'.2.locals
  kept : ∀ x, (V x).isSome = true → (r.2 x).isSome = true
  declared : r.1 = .default → ∀ x ∈ declares, (r.2 x).isSome = true
  domain : ∀ x, (r.2 x).isSome = true → (V x).isSome = true ∨ x ∈ names
  frame : ∀ x ∈ T.nameDispenser.usedNames, V x = none → x ∉ names → r'.2.locals x = S.locals x
  locals : ∀ x, (S.locals x).isSome = true → (r'.2.locals x).isSome = true
  globals : Declared gs r'.2.globals

section

variable {gs names names' declares declares' xs : List YulString} {T T₁ T' : State} {b loop : Bool}
  {labels : YulString × YulString} {V : Valuation Word64} {S S' : Wasm.Store}
  {r r₁ : LoopState × Valuation Word64} {r' r₁' : Wasm.Outcome × Wasm.Store}

lemma Leaves.mono {b' : Bool} {l : LoopState} {o : Wasm.Outcome} (h : Leaves b labels l o)
    (hb : b → b') : Leaves b' labels l o := by
  cases l with
  | default => exact h
  | «break» => exact ⟨hb h.1, h.2⟩
  | «continue» => exact ⟨hb h.1, h.2⟩

namespace Ready

lemma setGlobals (h : Ready gs T T' names xs b labels V S) {G : Valuation Word64}
    (hG : Declared gs G) : Ready gs T T' names xs b labels V ⟨S.locals, G⟩ :=
  { h with globals := hG }

lemma setLocal (h : Ready gs T T' names xs b labels V S) {x : YulString}
    (hx : x ∉ T.nameDispenser.usedNames)
    (hused : T.nameDispenser.usedNames ⊆ T₁.nameDispenser.usedNames)
    (hlabels : T₁.breakContinueLabelNames = T.breakContinueLabelNames) (v : Word64)
    {G : Valuation Word64} (hG : Declared gs G) :
    Ready gs T₁ T' names xs b labels V ⟨S.locals.set x v, G⟩ where
  agree y w hy := by
    have hne : y ≠ x := by
      rintro rfl
      exact hx (h.known y (Option.isSome_of_mem hy))
    exact (if_neg hne).trans (h.agree y w hy)
  scope := h.scope
  known y hy := hused (h.known y hy)
  used := List.Subset.trans h.used hused
  undeclared := h.undeclared
  fresh y hy := by
    have hne : y ≠ x := by
      rintro rfl
      exact hx (h.used hy)
    exact (if_neg hne).trans (h.fresh y hy)
  locals y hy := by
    show (S.locals.set x v y).isSome = true
    unfold Valuation.set
    split_ifs
    · rfl
    · exact h.locals y hy
  globals := hG
  labels hb := hlabels ▸ h.labels hb

lemma noJumps (h : Ready gs T T' names xs b labels V S) :
    Ready gs T T' names xs false labels V S :=
  { h with labels := (absurd · Bool.false_ne_true) }

lemma left (h : Ready gs T T' (names ++ names') xs b labels V S)
    (hkept : T₁.localVariables ⊆ T'.localVariables) :
    Ready gs T T₁ names xs b labels V S where
  agree := h.agree
  scope := h.scope
  known := h.known
  used := (append_subset.mp h.used).1
  undeclared x hx := h.undeclared x (mem_append_left _ hx)
  fresh x hx := h.fresh x (mem_append_left _ hx)
  locals x hx := h.locals x (hkept hx)
  globals := h.globals
  labels := h.labels

lemma skip (h : Ready gs T T' (names ++ names') xs b labels V S) (hstep : Step T T₁ names loop) :
    Ready gs T₁ T' names' xs (b && !loop) labels V S where
  agree := h.agree
  scope := h.scope
  known x hx := hstep.used (h.known x hx)
  used := List.Subset.trans (append_subset.mp h.used).2 hstep.used
  undeclared x hx := h.undeclared x (mem_append_right _ hx)
  fresh x hx := h.fresh x (mem_append_right _ hx)
  locals := h.locals
  globals := h.globals
  labels hb := by
    obtain ⟨hb, hloop⟩ := Bool.and_eq_true_iff.mp hb
    rw [hstep.labels ((Bool.not_eq_true' _).mp hloop)]
    exact h.labels hb

lemma right (h : Ready gs T T' (names ++ names') xs b labels V S) (hstep : Step T T₁ names loop)
    (hnodup : (names ++ names').Nodup) {b' : Bool}
    {labels' : YulString × YulString} (hr : Follows gs T names declares b' labels' V S r r')
    (hdeclared : ∀ x ∈ declares, (r.2 x).isSome) :
    Ready gs T₁ T' names' (declares ++ xs) (b && !loop) labels r.2 r'.2 where
  agree := hr.agree
  scope x hx := by
    rcases mem_append.mp hx with hx | hx
    · exact hdeclared x hx
    · exact hr.kept x (h.scope x hx)
  known x hx := by
    rcases hr.domain x hx with hx | hx
    · exact hstep.used (h.known x hx)
    · exact hstep.used (h.used (mem_append_left _ hx))
  used := List.Subset.trans (append_subset.mp h.used).2 hstep.used
  undeclared x hx := by
    rw [← not_isSome_iff_eq_none]
    intro hsome
    rcases hr.domain x hsome with hV | hmem
    · rw [h.undeclared x (mem_append_right _ hx)] at hV
      cases hV
    · exact (nodup_append'.mp hnodup).2.2 hmem hx
  fresh x hx := by
    have hmem := mem_append_right names hx
    rw [hr.frame x (h.used hmem) (h.undeclared x hmem) fun hx' =>
      (nodup_append'.mp hnodup).2.2 hx' hx]
    exact h.fresh x hmem
  locals x hx := hr.locals x (h.locals x hx)
  globals := hr.globals
  labels := (h.skip hstep).labels

end Ready

namespace Follows

lemma refl (h : Ready gs T T' names xs b labels V S) :
    Follows gs T names [] b labels V S (.default, V) (.values [], S) where
  leaves := rfl
  agree := h.agree
  kept _ hx := hx
  declared _ := nofun
  domain _ hx := .inl hx
  frame _ _ _ _ := rfl
  locals _ hx := hx
  globals := h.globals

lemma left (h : Follows gs T names declares b labels V S r r')
    (ds : List YulString) (hdeclares : r.1 = .default → ds ⊆ declares) :
    Follows gs T (names ++ names') ds b labels V S r r' where
  leaves := h.leaves
  agree := h.agree
  kept := h.kept
  declared hr x hx := h.declared hr x (hdeclares hr hx)
  domain x hx := (h.domain x hx).imp_right (mem_append_left _)
  frame x hused hx hnames := h.frame x hused hx fun hmem => hnames (mem_append_left _ hmem)
  locals := h.locals
  globals := h.globals

lemma skip (h : Follows gs T₁ names' declares (b && !loop) labels V S r r')
    (hstep : Step T T₁ names loop) :
    Follows gs T (names ++ names') declares b labels V S r r' where
  leaves := h.leaves.mono fun hb => (Bool.and_eq_true_iff.mp hb).1
  agree := h.agree
  kept := h.kept
  declared := h.declared
  domain x hx := (h.domain x hx).imp_right (mem_append_right _)
  frame x hused hx hnames := h.frame x (hstep.used hused) hx fun hmem =>
    hnames (mem_append_right _ hmem)
  locals := h.locals
  globals := h.globals

lemma trans {b' : Bool} {labels' : YulString × YulString}
    (h : Follows gs T names declares b' labels' V S r r') (hstep : Step T T₁ names loop)
    (h' : Follows gs T₁ names' declares' (b && !loop) labels r.2 r'.2 r₁ r₁')
    (hdeclared : ∀ x ∈ declares, (r.2 x).isSome) :
    Follows gs T (names ++ names') (declares ++ declares') b labels V S r₁ r₁' where
  leaves := h'.leaves.mono fun hb => (Bool.and_eq_true_iff.mp hb).1
  agree := h'.agree
  kept x hx := h'.kept x (h.kept x hx)
  declared hr x hx := by
    rcases mem_append.mp hx with hx | hx
    · exact h'.kept x (hdeclared x hx)
    · exact h'.declared hr x hx
  domain x hx := by
    rw [mem_append]
    rcases h'.domain x hx with hx | hx
    · exact (h.domain x hx).imp_right .inl
    · exact .inr (.inr hx)
  frame x hused hx hnames := by
    rw [mem_append, not_or] at hnames
    have hnone : r.2 x = none := by
      rw [← not_isSome_iff_eq_none]
      intro hsome
      rcases h.domain x hsome with hV | hmem
      · rw [hx] at hV
        cases hV
      · exact hnames.1 hmem
    exact (h'.frame x (hstep.used hused) hnone hnames.2).trans (h.frame x hused hx hnames.1)
  locals x hx := h'.locals x (h.locals x hx)
  globals := h'.globals

variable {G : Valuation Word64}

lemma setGlobals {o : Wasm.Outcome} (h : Follows gs T names declares b labels V S r (o, S'))
    (hG : Declared gs G) : Follows gs T names declares b labels V S r (o, ⟨S'.locals, G⟩) :=
  { h with globals := hG }

lemma ofSetLocal {x : YulString} {v : Word64}
    (h : Follows gs T₁ names declares b labels V ⟨S.locals.set x v, G⟩ r r')
    (hx : x ∉ T.nameDispenser.usedNames)
    (hused : T.nameDispenser.usedNames ⊆ T₁.nameDispenser.usedNames) :
    Follows gs T names declares b labels V S r r' where
  leaves := h.leaves
  agree := h.agree
  kept := h.kept
  declared := h.declared
  domain := h.domain
  frame y hy hV hnames := by
    have hne : y ≠ x := by
      rintro rfl
      exact hx hy
    exact (h.frame y (hused hy) hV hnames).trans (if_neg hne)
  locals y hy := by
    refine h.locals y ?_
    show (S.locals.set x v y).isSome = true
    unfold Valuation.set
    split_ifs
    · rfl
    · exact hy
  globals := h.globals

lemma ofGlobals (h : Follows gs T names declares b labels V ⟨S.locals, G⟩ r r') :
    Follows gs T names declares b labels V S r r' :=
  ⟨h.leaves, h.agree, h.kept, h.declared, h.domain, h.frame, h.locals, h.globals⟩

lemma close (h : Follows gs T names declares b labels V S r r') :
    Follows gs T names [] b labels V S (r.1, V.restrict r.2) r' where
  leaves := h.leaves
  agree x w hx := by
    change (if (V x).isSome = true then r.2 x else none) = some w at hx
    split_ifs at hx
    exact h.agree x w hx
  kept x hx := by
    show (V.restrict r.2 x).isSome = true
    rw [Valuation.restrict, if_pos hx]
    exact h.kept x hx
  declared _ := nofun
  domain x hx := by
    refine .inl ?_
    by_contra hV
    simp only [Valuation.restrict, hV] at hx
    cases hx
  frame := h.frame
  locals := h.locals
  globals := h.globals

lemma leaveLoop {b' : Bool} {labels' : YulString × YulString}
    (h : Follows gs T₁ names declares b' labels' V S r r')
    (hused : T.nameDispenser.usedNames ⊆ T₁.nameDispenser.usedNames) :
    Follows gs T names [] b labels V S (.default, V.restrict r.2) (.values [], r'.2) :=
  { h.close with
    leaves := rfl
    declared := fun _ => nofun
    frame := fun x hx => h.frame x (hused hx) }

end Follows

end

/-! ### Execution -/

/-- A statement without functions in it, in which the order of evaluation does not matter. -/
def isPlain (s : Statement) : Bool := !s.isFunctionDefinition && ordered s

lemma ordered_of_isPlain {s : Statement} (h : isPlain s) : ordered s :=
  (Bool.and_eq_true_iff.mp h).2

lemma definitions_of_isPlain {ss : List Statement}
    (h : everyStatement isPlain ss) : functionDefinitions ss = [] := by
  induction ss with
  | nil => rfl
  | cons s ss ih =>
    obtain ⟨hs, hrest⟩ := everyStatement_cons.mp h
    cases s with
    | functionDefinition f ps rs body =>
      cases (Bool.and_eq_true_iff.mp (every_function.mp hs).1).1
    | _ => exact ih hrest

lemma register_of_isPlain {ss : List Statement} (h : everyStatement isPlain ss)
    (F : Functions) : F.register ss = F := by
  rw [Functions.register_eq_foldl, definitions_of_isPlain h]
  rfl

section

variable {η σ : Type} {p : Prop} {gs names declares xs ys : List YulString} {F : Functions}
  {I : Evaluator η σ Word64} {J : Wasm.Evaluator η σ} {T T' : State} {b : Bool}
  {labels : YulString × YulString} {V G : Valuation Word64} {S : Wasm.Store}

lemma Follows.assign (h : Ready gs T T' names xs b labels V S)
    (hys : ∀ y ∈ ys, (V y).isSome ∨ y ∈ names) (hdeclares : declares ⊆ ys)
    (vs : List Word64) (hG : Declared gs G) :
    Follows gs T names declares b labels V S (.default, V.assign ys vs)
      (.values [], ⟨S.locals.assign ys vs, G⟩) where
  leaves := rfl
  agree := h.agree.assign ys vs
  kept x hx := (Valuation.isSome_assign V ys vs x).mpr (.inr hx)
  declared _ x hx := (Valuation.isSome_assign V ys vs x).mpr (.inl (hdeclares hx))
  domain x hx := by
    rcases (Valuation.isSome_assign V ys vs x).mp hx with hx | hx
    · exact hys x hx
    · exact .inl hx
  frame x _ hx hnames := by
    refine Valuation.assign_of_notMem fun hmem => ?_
    rcases hys x hmem with hV | hmem
    · rw [hx] at hV
      cases hV
    · exact hnames hmem
  locals x hx := (Valuation.isSome_assign S.locals ys vs x).mpr (.inr hx)
  globals := hG

lemma Follows.declare (h : Ready gs T T' names xs b labels V S) :
    Follows gs T names names b labels V S (.default, V.assign names []) (.values [], S) where
  leaves := rfl
  agree x w hx := by
    change V.assign names [] x = some w at hx
    rw [Valuation.assign_nil_eq] at hx
    split_ifs at hx with hmem
    · cases hx
      exact h.fresh x hmem
    · exact h.agree x w hx
  kept x hx := (Valuation.isSome_assign V names [] x).mpr (.inr hx)
  declared _ x hx := (Valuation.isSome_assign V names [] x).mpr (.inl hx)
  domain x hx := ((Valuation.isSome_assign V names [] x).mp hx).symm
  frame _ _ _ _ := rfl
  locals _ hx := hx
  globals := h.globals

lemma evaluate_visit (hJ : Matches p gs F I J) (h : Ready gs T T' names xs b labels V S)
    {e : Expression} (he : analyzed F xs e) (hone : oneCall e)
    (hresults : results F e = 1) (hvisit : visit e = some e') (m : σ) :
    Result.Sim p False Eq
      (fun v r => ∃ G, r = (.values [v], ⟨S.locals, G⟩) ∧ Declared gs G)
      (I.evaluate F V e m) (J.exec e' S m) := by
  refine sim_map_left (exec_visit hJ h.scope h.agree e he hone hvisit S.globals h.globals m) ?_
  rintro vs _ ⟨hlength, G, rfl, -, hG⟩
  obtain ⟨v, rfl⟩ := length_eq_one_iff.mp (hlength.trans hresults)
  exact ⟨G, rfl, hG⟩

lemma execBlock_visit {ss : Block} (hss : everyStatement isPlain ss) {m : σ}
    (h : Result.Sim p False Eq (Follows gs T names declares b labels V S)
      (I.execStatements F V ss m) (J.execAll es S m)) :
    Result.Sim p False Eq (Follows gs T names [] b labels V S) (I.execBlock F V ss m)
      (J.execAll es S m) := by
  rw [Evaluator.execBlock, register_of_isPlain hss]
  exact sim_map_left h fun _ _ hr => hr.close

lemma exec_block_empty {α : Type} {A : α → Wasm.Outcome × Wasm.Store → Prop} {r : Result η σ α}
    {m : σ} (h : Result.Sim p False Eq A r (J.execAll es S m)) :
    Result.Sim p False Eq A r (J.exec (.block "" es) S m) := by
  refine sim_map_right h ?_
  rintro a ⟨o, S⟩ ha
  rw [Wasm.Outcome.leave_empty]
  exact ha

lemma exec_comparison (hJ : Matches p gs F I J) {condition : YulString} {v w : Word64}
    (hS : S.locals condition = some v) (m : σ) :
    J.exec (comparison condition (.literal w)) S m =
      .ok (.values [if v = w then 1 else 0], S) m := by
  obtain ⟨b, hb, hvalue⟩ := hJ.wasm.eq
  have hargs : J.execAll [.localVariable condition, .literal w] S m =
      .ok (.values [v, w], S) m := by
    rw [Wasm.execAll_cons, Wasm.Evaluator.exec, hS]
    rfl
  rw [comparison, Wasm.Evaluator.exec, hargs, Wasm.andThen_ok_values, if_neg (by decide),
    if_neg (by decide), hJ.machine, hb]
  dsimp only
  rw [hvalue]
  rfl

lemma exec_leaveUnless (hJ : Matches p gs F I J) (breakLabel : YulString)
    {r : Result η σ Word64} {e : Wasm.Expression} {m : σ}
    (h : Result.Sim p False Eq
      (fun v r => ∃ G, r = (.values [v], ⟨S.locals, G⟩) ∧ Declared gs G) r (J.exec e S m)) :
    Result.Sim p False Eq
      (fun v r => ∃ G, r = (if v = 0 then .branch breakLabel else .values [], ⟨S.locals, G⟩) ∧
        Declared gs G) r (J.exec (leaveUnless breakLabel e) S m) := by
  obtain ⟨b, hb, hvalue⟩ := hJ.wasm.eqz
  have heqz : Result.Sim p False Eq
      (fun v r => ∃ G, r = (.values [if v = 0 then 1 else 0], ⟨S.locals, G⟩) ∧ Declared gs G) r
      (J.exec (.builtinCall "i64.eqz" [e]) S m) := by
    rw [Wasm.Evaluator.exec, Wasm.execAll_singleton]
    refine sim_andThen_right h ?_
    rintro v o S₁ m₁ ⟨G, ⟨⟩, hG⟩
    rw [Wasm.Outcome.resume_values, if_neg (by decide), if_neg (by decide), hJ.machine, hb]
    dsimp only
    rw [hvalue]
    exact .ok ⟨G, rfl, hG⟩ rfl
  have hlabel : J.exec (.label breakLabel) S m = .ok (.values [], S) m := rfl
  rw [leaveUnless, Wasm.Evaluator.exec, Wasm.execAll_cons, hlabel, Wasm.andThen_ok_values,
    Wasm.execAll_singleton, Wasm.andThen_assoc]
  refine sim_andThen_right heqz ?_
  rintro v o S₁ m₁ ⟨G, ⟨⟩, hG⟩
  rw [Wasm.Outcome.resume_values, Wasm.andThen_ok_values, if_neg (by decide), if_pos rfl]
  refine .ok ⟨G, ?_, hG⟩ rfl
  by_cases hv : v = 0
  · rw [if_pos hv, if_pos hv]
    rfl
  · rw [if_neg hv, if_neg hv]
    rfl

lemma exec_case (hJ : Matches p gs F I J) {condition : YulString} {l : Literal} {v : Word64}
    (hl : (valueOfLiteral l).any (·.toNat < 2 ^ 64)) (hS : S.locals condition = some v)
    {body : Block} {cs : List Case} {m : σ}
    (hbody : v = l.word.setWidth 64 → Result.Sim p False Eq (Follows gs T names [] b labels V S)
      (I.execBlock F V body m) (J.execAll es S m))
    (hcs : v ≠ l.word.setWidth 64 → Result.Sim p False Eq (Follows gs T names [] b labels V S)
      (I.execCases F V v cs m) (J.execAll es' S m)) (hnil : cs = [] → es' = []) :
    Result.Sim p False Eq (Follows gs T names [] b labels V S)
      (I.execCases F V v (.mk (some l) body :: cs) m)
      (J.execAll [.if (comparison condition (.literal (l.word.setWidth 64))) es
        (if cs = [] then none else some es')] S m) := by
  have hvalue := hJ.wasm.literal l (visit_literal hl).2
  rw [Evaluator.execCases_cons, Wasm.execAll_singleton, Wasm.Evaluator.exec,
    exec_comparison hJ hS, Wasm.andThen_ok_values]
  by_cases hv : v = l.word.setWidth 64
  · rw [if_pos (by simp [hvalue, hv]), if_pos hv, if_neg (by simp)]
    exact hbody hv
  · rw [if_neg (by simp [hvalue, Ne.symm hv]), if_neg hv, if_pos (by simp)]
    have helse : J.execElse (if cs = [] then none else some es') S m = J.execAll es' S m := by
      split_ifs with hcs
      · rw [hnil hcs]
        rfl
      · rfl
    rw [helse]
    exact hcs hv

/-- A loop that ends before its condition is checked for the second time, if its parts do the
same. -/
lemma exec_loop {pre post body : List Statement} {c : Expression} {T₁ T₂ T₃ : State}
    (hJ : Matches p gs F I J) (hp : p) (hfuel : I.fuel = 1)
    {breakLabel continueLabel : YulString} (hbreak : breakLabel ≠ "")
    (hcontinue : continueLabel ≠ "") (hne : breakLabel ≠ continueLabel)
    {c' : Wasm.Expression} {pre' post' body' : List Wasm.Expression} {m : σ}
    (hused : T.nameDispenser.usedNames ⊆ T₁.nameDispenser.usedNames)
    (hsteppre : Step T₁ T₂ (namesOfStatements pre) (containLoop pre))
    (hstepbody : Step T₂ T₃ (namesOfStatements body) (containLoop body))
    (hnodup : (namesOfStatements pre ++ namesOfStatements body ++ namesOfStatements post).Nodup)
    (h : Ready gs T₁ T' (namesOfStatements pre ++ namesOfStatements body ++ namesOfStatements post)
      xs true (breakLabel, continueLabel) V S)
    (hpre : Result.Sim p False Eq (Follows gs T₁ (namesOfStatements pre)
      (pre.flatMap (·.declares)) false (breakLabel, continueLabel) V S)
      (I.execStatements F V pre m) (J.execAll pre' S m))
    (hc : ∀ V₁ S₁ m, Ready gs T₂ T' (namesOfStatements body ++ namesOfStatements post)
      (pre.flatMap (·.declares) ++ xs) (!containLoop pre) (breakLabel, continueLabel) V₁ S₁ →
      Result.Sim p False Eq (fun v r => ∃ G, r = (.values [v], ⟨S₁.locals, G⟩) ∧ Declared gs G)
        (I.evaluate F V₁ c m) (J.exec c' S₁ m))
    (hbody : ∀ V₁ S₁ m, Ready gs T₂ T' (namesOfStatements body ++ namesOfStatements post)
      (pre.flatMap (·.declares) ++ xs) (!containLoop pre) (breakLabel, continueLabel) V₁ S₁ →
      Result.Sim p False Eq (Follows gs T₂ (namesOfStatements body) [] (!containLoop pre)
        (breakLabel, continueLabel) V₁ S₁) (I.execBlock F V₁ body m) (J.execAll body' S₁ m))
    (hpost : ∀ V₁ S₁ m, Ready gs T₃ T' (namesOfStatements post)
      (pre.flatMap (·.declares) ++ xs) (!containLoop pre && !containLoop body)
      (breakLabel, continueLabel) V₁ S₁ →
      Result.Sim p False Eq (Follows gs T₃ (namesOfStatements post) [] false
        (breakLabel, continueLabel) V₁ S₁) (I.execBlock F V₁ post m) (J.execAll post' S₁ m)) :
    Result.Sim p False Eq
      (Follows gs T (namesOfStatements pre ++ namesOfStatements body ++ namesOfStatements post) []
        b labels V S)
      (I.exec F V (.forLoop pre c post body) m)
      (J.exec (.block breakLabel [.loop ""
        (pre' ++ leaveUnless breakLabel c' :: .block continueLabel body' :: post')]) S m) := by
  obtain ⟨n, hn⟩ := hJ.fuel
  rw [exec_forLoop_once hfuel, Wasm.Evaluator.exec, Wasm.execAll_singleton,
    Wasm.Evaluator.exec, hn, Wasm.iterate_noLabel, Wasm.execAll_append]
  refine sim_map_right (C := fun r r' => Follows gs T _ [] b labels V S r
    (r'.1.leave breakLabel, r'.2)) (sim_map_left (C := fun r r' => Follows gs T _ [] b labels V S
      (r.1, V.restrict r.2) (r'.1.leave breakLabel, r'.2)) ?_ fun _ _ => id) fun _ _ => id
  refine sim_andThen hpre ?_
  rintro ⟨l₁, V₁⟩ o S₁ m₁ hr₁
  obtain ⟨rfl, rfl⟩ : l₁ = .default ∧ o = .values [] := by
    have hleaves := hr₁.leaves
    cases l₁ with
    | default => exact ⟨rfl, hleaves⟩
    | «break» => cases hleaves.1
    | «continue» => cases hleaves.1
  rw [append_assoc] at h hnodup
  have hdeclared := hr₁.declared rfl
  have hready₁ := h.right hsteppre hnodup hr₁ hdeclared
  rw [Bool.true_and] at hready₁
  rw [Wasm.Outcome.resume_values, Wasm.andThen_ok, Wasm.execAll_cons]
  refine sim_andThen (exec_leaveUnless hJ breakLabel (hc V₁ S₁ m₁ hready₁)) ?_
  rintro v o S₂ m₂ ⟨G, heq, hG⟩
  obtain ⟨rfl, rfl⟩ := Prod.mk.inj heq
  have hr₁' := hr₁.setGlobals hG
  have hisTrue : I.machine.isTrue v = decide (v ≠ 0) := hJ.wasm.isTrue v
  by_cases hv : v = 0
  · rw [hisTrue, if_neg (by simpa using hv), if_pos hv, Wasm.Outcome.resume_branch]
    refine .ok ?_ rfl
    show Follows gs T _ [] b labels V S _ ((Wasm.Outcome.branch breakLabel).leave breakLabel, _)
    rw [Wasm.Outcome.leave_self hbreak, append_assoc]
    exact (hr₁'.left [] fun _ => nofun).leaveLoop hused
  · rw [hisTrue, if_pos (by simpa using hv), if_neg hv, Wasm.Outcome.resume_values,
      Wasm.andThen_ok, Wasm.execAll_cons]
    have hready₂ := hready₁.setGlobals hG
    have hblock : Result.Sim p False Eq (fun r r' => ∃ o, r'.1 = o.leave continueLabel ∧
        Follows gs T₂ (namesOfStatements body) [] (!containLoop pre) (breakLabel, continueLabel)
          V₁ ⟨S₁.locals, G⟩ r (o, r'.2)) (I.execBlock F V₁ body m₂)
        (J.exec (.block continueLabel body') ⟨S₁.locals, G⟩ m₂) :=
      sim_map_right (hbody V₁ _ m₂ hready₂) fun r r' hr => ⟨r'.1, rfl, hr⟩
    refine sim_andThen hblock ?_
    rintro ⟨l₂, V₂⟩ _ S₃ m₃ ⟨o, rfl, hr₂⟩
    have hready₃ := hready₂.right hstepbody (nodup_append'.mp hnodup).2.1 hr₂ nofun
    -- without a jump the loop goes on, where the second check would be
    have hgoes (l : LoopState) (hl : l ≠ .break) (ho : o.leave continueLabel = .values []) :
        Result.Sim p False Eq (fun r r' => Follows gs T
          (namesOfStatements pre ++ namesOfStatements body ++ namesOfStatements post) [] b labels V
          S (r.1, V.restrict r.2) (r'.1.leave breakLabel, r'.2))
          (if l = .break then Result.ok (LoopState.default, V₂) m₃
            else (I.execBlock F V₂ post m₃).bind fun _ _ => .timeout)
          ((o.leave continueLabel).resume (fun vs S m =>
            Wasm.andThen (J.execAll post' S m) fun ws S m => .ok (.values (vs ++ ws), S) m)
            S₃ m₃) := by
      rw [if_neg hl, ho, Wasm.Outcome.resume_values]
      exact sim_andThen (hpost V₂ S₃ m₃ hready₃) fun _ _ _ _ _ => .left hp
    have hleaves := hr₂.leaves
    cases l₂ with
    | default =>
      refine hgoes .default nofun ?_
      rw [show o = .values [] from hleaves, Wasm.Outcome.leave_values]
    | «continue» =>
      refine hgoes .continue nofun ?_
      rw [show o = .branch continueLabel from hleaves.2, Wasm.Outcome.leave_self hcontinue]
    | «break» =>
      rw [show o = .branch breakLabel from hleaves.2, Wasm.Outcome.leave_of_ne hne, if_pos rfl,
        Wasm.Outcome.resume_branch]
      refine .ok ?_ rfl
      show Follows gs T _ [] b labels V S _ ((Wasm.Outcome.branch breakLabel).leave breakLabel, _)
      rw [Wasm.Outcome.leave_self hbreak]
      have htrans := hr₁'.trans (b := true) hsteppre (by exact hr₂) hdeclared
      exact (htrans.left [] fun _ => nofun).leaveLoop hused

end

/-- What has to hold of evaluators where there is a loop: no loop comes to a second iteration. -/
def LoopsOnce {η σ : Type} (p : Prop) (I : Evaluator η σ Word64) (loop : Bool) : Prop :=
  loop = true → p ∧ I.fuel = 1

section

variable {η σ : Type} {p : Prop} {I : Evaluator η σ Word64} {loop loop' : Bool}

lemma LoopsOnce.left (h : LoopsOnce p I (loop || loop')) : LoopsOnce p I loop :=
  fun hloop => h (Bool.or_eq_true_iff.mpr (.inl hloop))

lemma LoopsOnce.right (h : LoopsOnce p I (loop || loop')) : LoopsOnce p I loop' :=
  fun hloop => h (Bool.or_eq_true_iff.mpr (.inr hloop))

end

section

variable {η σ : Type} {p : Prop} {gs : List YulString} {F : Functions}
  {I : Evaluator η σ Word64} {J : Wasm.Evaluator η σ}

lemma LoopsOnce.of_forLoop {pre post body : List Statement} {c : Expression}
    (h : LoopsOnce p I (containsLoop (.forLoop pre c post body))) (loop : Bool) :
    LoopsOnce p I loop := fun _ => h rfl

mutual

lemma exec_visitStatement (hJ : Matches p gs F I J) (s : Statement) {T T' : State}
    {e : Wasm.Expression} {xs : List YulString} {b b' : Bool} {labels : YulString × YulString}
    {V : Valuation Word64} {S : Wasm.Store} (hvisit : visitStatement T s = some (e, T'))
    (hs : statementAnalyzed F b' xs s) (hplain : s.every isPlain)
    (hjumps : jumpsFirst b s) (hnodup : s.names.Nodup)
    (hloop : LoopsOnce p I (containsLoop s)) (hglobals : T.globalVariables <+: gs)
    (h : Ready gs T T' s.names xs b labels V S) (m : σ) :
    Result.Sim p False Eq (Follows gs T s.names s.declares b labels V S) (I.exec F V s m)
      (J.exec e S m) := by
  match s with
  | .expressionStatement e =>
    obtain ⟨e', he, hvisit⟩ := map_eq_some_iff.mp hvisit
    cases hvisit
    rw [statementAnalyzed, and_eq_true, decide_eq_true_eq] at hs
    refine sim_map_left (exec_visit hJ h.scope h.agree e hs.1
      (ordered_of_isPlain (s := .expressionStatement e) hplain) he S.globals h.globals m) ?_
    rintro vs _ ⟨hlength, G, rfl, -, hG⟩
    rw [hs.2, length_eq_zero_iff] at hlength
    subst hlength
    exact (Follows.refl (h.setGlobals hG)).ofGlobals
  | .assignment ys e =>
    obtain ⟨e', he, hvisit⟩ := bind_eq_some_iff.mp hvisit
    obtain ⟨e'', he', hvisit⟩ := map_eq_some_iff.mp hvisit
    cases hvisit
    simp only [statementAnalyzed, and_eq_true, decide_eq_true_eq, all_eq_true] at hs
    have hys : ∀ y ∈ ys, (V y).isSome = true := fun y hy => h.scope y (hs.1.1.2 y hy)
    have hsim := exec_visit hJ h.scope h.agree e hs.1.2
      (ordered_of_isPlain (s := .assignment ys e) hplain) he S.globals h.globals m
    rw [hs.2] at hsim
    refine sim_map_left (exec_generateMultiAssignment hglobals he' (fun y hy => ?_) hsim) ?_
    · obtain ⟨w, hw⟩ := isSome_iff_exists.mp (hys y hy)
      rw [h.agree y w hw]
      rfl
    · rintro vs _ ⟨G, rfl, hG⟩
      exact .assign h (fun y hy => .inl (hys y hy)) (nil_subset _) vs hG
  | .variableDeclaration ys none =>
    cases hvisit
    exact .ok (.declare h) rfl
  | .variableDeclaration ys (some e) =>
    have hstep := visitStatement_step _ hvisit
    obtain ⟨e', he, hvisit⟩ := bind_eq_some_iff.mp hvisit
    obtain ⟨e'', he', hvisit⟩ := map_eq_some_iff.mp hvisit
    cases hvisit
    simp only [statementAnalyzed, and_eq_true, decide_eq_true_eq] at hs
    have hsim := exec_visit hJ h.scope h.agree e hs.1.2
      (ordered_of_isPlain (s := .variableDeclaration ys (some e)) hplain) he S.globals h.globals m
    rw [hs.2, ← length_map (f := fun y : TypedName => y.name)] at hsim
    refine sim_map_left (exec_generateMultiAssignment hglobals he' (fun y hy => ?_) hsim) ?_
    · exact h.locals y (hstep.declared hy)
    · rintro vs _ ⟨G, rfl, hG⟩
      exact .assign h (fun y hy => .inr hy) (List.Subset.refl _) vs hG
  | .functionDefinition f ps rs body => cases hvisit
  | .if c body =>
    obtain ⟨c', hc, hvisit⟩ := bind_eq_some_iff.mp hvisit
    obtain ⟨⟨es, T'⟩, hes, hvisit⟩ := map_eq_some_iff.mp hvisit
    cases hvisit
    simp only [statementAnalyzed, and_eq_true, decide_eq_true_eq] at hs
    obtain ⟨hpc, hpbody⟩ := every_if.mp hplain
    rw [containsLoop_if] at hloop
    rw [Evaluator.exec_if, Wasm.Evaluator.exec]
    refine sim_andThen (evaluate_visit hJ h hs.1.1 (ordered_of_isPlain hpc) hs.1.2 hc m) ?_
    rintro v o S₁ m₁ ⟨G, heq, hG⟩
    obtain ⟨rfl, rfl⟩ := Prod.mk.inj heq
    have hready := h.setGlobals hG
    rw [hJ.wasm.isTrue, Wasm.Outcome.resume_values]
    by_cases hv : v = 0
    · subst hv
      exact .ok (Follows.refl hready).ofGlobals rfl
    · rw [if_pos (by simpa using hv), if_neg (by exact hv)]
      exact (execBlock_visit hpbody (execAll_visitStatements hJ body hes hs.2 hpbody hjumps hnodup
        hloop hglobals hready m₁)).mono fun _ _ hr => hr.ofGlobals
  | .switch e cases =>
    have hstep := visitStatement_step _ hvisit
    obtain ⟨e', he, hvisit⟩ := bind_eq_some_iff.mp hvisit
    obtain ⟨⟨es, T'⟩, hes, hvisit⟩ := map_eq_some_iff.mp hvisit
    cases hvisit
    simp only [statementAnalyzed, and_eq_true, decide_eq_true_eq] at hs
    obtain ⟨hpe, hpcases⟩ := every_switch.mp hplain
    rw [containsLoop_switch] at hloop
    have hnew : (T.newLocal "condition").1 ∉ T.nameDispenser.usedNames :=
      newName_notMem T "condition"
    have hlocal : (S.locals (T.newLocal "condition").1).isSome = true := h.locals _ ((visitCases_step cases hes).kept
      (mem_append_right _ mem_cons_self))
    have hset : Result.Sim p False Eq (fun v r => ∃ G, r = (.values [],
          ⟨S.locals.set (T.newLocal "condition").1 v, G⟩) ∧ Declared gs G) (I.evaluate F V e m)
        (J.exec (.localAssignment (T.newLocal "condition").1 e') S m) := by
      rw [Wasm.Evaluator.exec]
      refine sim_andThen_right (evaluate_visit hJ h hs.1.1 (ordered_of_isPlain hpe) hs.1.2 he m) ?_
      rintro v o S₁ m₁ ⟨G, heq, hG⟩
      cases heq
      rw [Wasm.Outcome.resume_values, if_pos hlocal]
      exact .ok ⟨G, rfl, hG⟩ rfl
    refine exec_block_empty ?_
    rw [Wasm.execAll_cons]
    refine sim_andThen hset ?_
    rintro v o S₁ m₁ ⟨G, heq, hG⟩
    cases heq
    rw [Wasm.Outcome.resume_values, Wasm.andThen_ok]
    have hused := (Step.newLocal T "condition").used
    exact (execAll_visitCases hJ cases hes hs.2 hpcases hjumps hnodup hloop hglobals
      (h.setLocal hnew hused rfl v hG) (if_pos rfl) m₁).mono
        fun _ _ hr => hr.ofSetLocal hnew hused
  | .forLoop pre c post body =>
    obtain ⟨⟨pre', T₂⟩, hpre, hvisit⟩ := bind_eq_some_iff.mp hvisit
    obtain ⟨c', hc, hvisit⟩ := bind_eq_some_iff.mp hvisit
    obtain ⟨⟨body', T₃⟩, hbody, hvisit⟩ := bind_eq_some_iff.mp hvisit
    obtain ⟨⟨post', T'⟩, hpost, hvisit⟩ := map_eq_some_iff.mp hvisit
    cases hvisit
    simp only [statementAnalyzed, and_eq_true, decide_eq_true_eq] at hs
    obtain ⟨⟨⟨⟨hspre, hsc⟩, hresults⟩, hspost⟩, hsbody⟩ := hs
    obtain ⟨hpc, hppre, hppost, hpbody⟩ := every_forLoop.mp hplain
    simp only [jumpsFirst, and_eq_true] at hjumps
    obtain ⟨⟨hjpre, hjbody⟩, hjpost⟩ := hjumps
    obtain ⟨hp, hfuel⟩ := hloop rfl
    have hsteppre := visitAll_step pre hpre
    have hstepbody := visitAll_step body hbody
    have hsteppost := visitAll_step post hpost
    obtain ⟨hnodup', hnpost, -⟩ := nodup_append'.mp hnodup
    obtain ⟨hnpre, hnbody, -⟩ := nodup_append'.mp hnodup'
    have hready : Ready gs T.pushLabels.2 T' (namesOfStatements pre ++ namesOfStatements body ++
        namesOfStatements post) xs true T.pushLabels.1 V S :=
      { h with
        known := fun x hx => (Step.pushLabels T).used (h.known x hx)
        used := List.Subset.trans h.used (Step.pushLabels T).used
        labels := fun _ => rfl }
    have hne : T.pushLabels.1.1 ≠ T.pushLabels.1.2 := by
      intro heq
      have hnot : T.pushLabels.1.2 ∉ T.newLabel.2.nameDispenser.usedNames :=
        newName_notMem T.newLabel.2 "label_"
      rw [← heq] at hnot
      exact hnot (newName_mem T "label_")
    refine exec_loop hJ hp hfuel (newName_ne_empty T "label_")
      (newName_ne_empty T.newLabel.2 "label_") hne (Step.pushLabels T).used hsteppre hstepbody
      hnodup hready ?_ ?_ ?_ ?_
    · have hleft := hready
      rw [append_assoc] at hleft
      exact execAll_visitStatements hJ pre hpre hspre hppre hjpre hnpre (hloop.of_forLoop _) hglobals
        (hleft.left (List.Subset.trans hstepbody.kept hsteppost.kept)).noJumps m
    · intro V₁ S₁ m₁ h₁
      exact evaluate_visit hJ h₁ hsc (ordered_of_isPlain hpc) hresults hc m₁
    · intro V₁ S₁ m₁ h₁
      exact execBlock_visit hpbody (execAll_visitStatements hJ body hbody hsbody hpbody hjbody
        hnbody (hloop.of_forLoop _) (hsteppre.globals ▸ hglobals) (h₁.left hsteppost.kept) m₁)
    · intro V₁ S₁ m₁ h₁
      exact execBlock_visit hppost (execAll_visitStatements hJ post hpost hspost hppost hjpost
        hnpost (hloop.of_forLoop _) (hstepbody.globals ▸ hsteppre.globals ▸ hglobals) h₁.noJumps m₁)
  | .break | .continue =>
    obtain ⟨labels', hlabels, hvisit⟩ := map_eq_some_iff.mp hvisit
    cases hvisit
    have hb : b = true := hjumps
    obtain rfl := Option.some.inj (hlabels.symm.trans (h.labels hb))
    exact .ok { Follows.refl h with leaves := ⟨hb, rfl⟩, declared := fun _ => forall_mem_nil _ } rfl
  | .block ss =>
    obtain ⟨⟨es, T'⟩, hes, hvisit⟩ := map_eq_some_iff.mp hvisit
    cases hvisit
    rw [containsLoop_block] at hloop
    have hpss := (every_block.mp hplain).2
    exact exec_block_empty (execBlock_visit hpss
      (execAll_visitStatements hJ ss hes hs hpss hjumps hnodup hloop hglobals h m))

lemma execAll_visitStatements (hJ : Matches p gs F I J) (ss : List Statement) {T T' : State}
    {es : List Wasm.Expression} {xs : List YulString} {b b' : Bool}
    {labels : YulString × YulString} {V : Valuation Word64} {S : Wasm.Store}
    (hvisit : visitStatements T ss = some (es, T'))
    (hss : statementsAnalyzed F b' xs ss) (hplain : everyStatement isPlain ss)
    (hjumps : jumpsFirstAll b ss) (hnodup : (namesOfStatements ss).Nodup)
    (hloop : LoopsOnce p I (containLoop ss)) (hglobals : T.globalVariables <+: gs)
    (h : Ready gs T T' (namesOfStatements ss) xs b labels V S) (m : σ) :
    Result.Sim p False Eq
      (Follows gs T (namesOfStatements ss) (ss.flatMap (·.declares)) b labels V S)
      (I.execStatements F V ss m) (J.execAll es S m) := by
  match ss with
  | [] =>
    cases hvisit
    exact .ok (.refl h) rfl
  | s :: ss =>
    obtain ⟨⟨e, T₁⟩, he, hvisit⟩ := bind_eq_some_iff.mp hvisit
    obtain ⟨⟨es, T'⟩, hes, hvisit⟩ := map_eq_some_iff.mp hvisit
    cases hvisit
    rw [statementsAnalyzed, and_eq_true] at hss
    rw [everyStatement_cons] at hplain
    rw [jumpsFirstAll, and_eq_true] at hjumps
    rw [containLoop_cons] at hloop
    have hstep := visitStatement_step s he
    have hstep' := visitAll_step ss hes
    have hs := exec_visitStatement hJ s he hss.1 hplain.1 hjumps.1
      (nodup_append'.mp hnodup).1 hloop.left hglobals (h.left hstep'.kept) m
    rw [Evaluator.execStatements_cons, Wasm.execAll_cons]
    refine sim_andThen hs ?_
    rintro ⟨l, V₁⟩ o S₁ m₁ hr
    by_cases hl : l = .default
    · subst hl
      have hdeclared := hr.declared rfl
      have hrest := execAll_visitStatements hJ ss hes hss.2 hplain.2 hjumps.2
        (nodup_append'.mp hnodup).2.1 hloop.right (hstep.globals ▸ hglobals)
        (h.right hstep hnodup hr hdeclared) m₁
      obtain rfl : o = .values [] := hr.leaves
      rw [if_pos rfl, Wasm.Outcome.resume_values, Wasm.andThen_ok]
      exact hrest.mono fun _ _ hr' => hr.trans hstep hr' hdeclared
    · obtain ⟨label, rfl⟩ : ∃ label, o = .branch label := by
        have hleaves := hr.leaves
        cases l with
        | default => exact absurd rfl hl
        | «break» => exact ⟨_, hleaves.2⟩
        | «continue» => exact ⟨_, hleaves.2⟩
      rw [if_neg hl, Wasm.Outcome.resume_branch]
      exact .ok (hr.left _ fun hdefault => absurd hdefault hl) rfl

lemma execAll_visitCases (hJ : Matches p gs F I J) (cs : List Case) {condition : YulString}
    {T T' : State} {es : List Wasm.Expression} {xs : List YulString} {b b' : Bool}
    {labels : YulString × YulString} {V : Valuation Word64} {S : Wasm.Store} {v : Word64}
    (hvisit : visitCases condition T cs = some (es, T'))
    (hcs : casesAnalyzed F b' xs cs) (hplain : everyCase isPlain cs)
    (hjumps : jumpsFirstCases b cs) (hnodup : (namesOfCases cs).Nodup)
    (hloop : LoopsOnce p I (caseContainsLoop cs)) (hglobals : T.globalVariables <+: gs)
    (h : Ready gs T T' (namesOfCases cs) xs b labels V S) (hv : S.locals condition = some v)
    (m : σ) :
    Result.Sim p False Eq (Follows gs T (namesOfCases cs) [] b labels V S)
      (I.execCases F V v cs m) (J.execAll es S m) := by
  match cs with
  | [] =>
    cases hvisit
    exact .ok (.refl h) rfl
  | .mk value body :: cs =>
    simp only [casesAnalyzed, and_eq_true] at hcs
    obtain ⟨⟨⟨hvalue, hlast⟩, hbody⟩, hcs⟩ := hcs
    rw [everyCase_cons] at hplain
    rw [jumpsFirstCases, and_eq_true] at hjumps
    rw [caseContainsLoop_cons] at hloop
    obtain ⟨hnbody, hncs, -⟩ := nodup_append'.mp hnodup
    cases value with
    | none =>
      obtain rfl : cs = [] := of_decide_eq_true hlast
      rw [visitCases, if_pos rfl] at hvisit
      have hbody := execBlock_visit hplain.1 (execAll_visitStatements hJ body hvisit hbody hplain.1
        hjumps.1 hnbody hloop.left hglobals (h.left (List.Subset.refl _)) m)
      exact hbody.mono fun _ _ hr => hr.left _ fun _ => forall_mem_nil _
    | some l =>
      rw [visitCases, (visit_literal hvalue).1, Option.bind_some] at hvisit
      obtain ⟨⟨body', T₁⟩, hbody', hvisit⟩ := bind_eq_some_iff.mp hvisit
      obtain ⟨⟨es, T'⟩, hes, hvisit⟩ := map_eq_some_iff.mp hvisit
      cases hvisit
      have hstep := visitAll_step body hbody'
      have hstep' := visitCases_step cs hes
      refine exec_case hJ hvalue hv (fun _ => ?_) (fun _ => ?_) ?_
      · have hbody := execBlock_visit hplain.1 (execAll_visitStatements hJ body hbody' hbody
          hplain.1 hjumps.1 hnbody hloop.left hglobals (h.left hstep'.kept) m)
        exact hbody.mono fun _ _ hr => hr.left _ fun _ => forall_mem_nil _
      · have hcs' := execAll_visitCases hJ cs hes hcs hplain.2 hjumps.2 hncs hloop.right
          (hstep.globals ▸ hglobals) (h.skip hstep) hv m
        exact hcs'.mono fun _ _ hr => hr.skip hstep
      · rintro rfl
        cases hes
        rfl

end

end

end EWasmCodeTransform

end Yul
