import Polc.Yul.Optimiser.DataFlowAnalyzer.Simulation
import Polc.Yul.Optimiser.DataFlowAnalyzer.Totality

/-!
# Code metrics

The cost of expressions in `libyul/optimiser/Metrics.cpp`, by which the optimiser decides whether
it is worthwhile to compute a value again.
-/

namespace Yul

open Sof List Expression Bool

namespace CodeCost

/-- Cost of an instruction, the one of its syntax node included. -/
def instructionCost (i : Instruction) : Nat :=
  let gasPriceTier := (instructionInfo i).gasPriceTier
  if gasPriceTier.toNat < Tier.veryLow.toNat then 0
  else if gasPriceTier.toNat < Tier.high.toNat then 2
  else 50

/-- How many bytes a number has after its lowest one; words are used up after 32 steps. -/
def higherBytes : Nat → Nat → Nat
  | 0, _ => 0
  | k + 1, n => if 0x100 ≤ n then higherBytes k (n / 0x100) + 1 else 0

def literalCost (l : Literal) : Nat :=
  match l.kind with
  | .boolean => 0
  | .number => higherBytes 32 l.word.toNat
  | .string => l.value.utf8ByteSize

mutual

/-- The cost of an expression, each node counting one. -/
def codeCost (dialect : Dialect) : Expression → Nat
  | .functionalInstruction i args => argumentsCost dialect args + instructionCost i
  | .functionCall f args =>
    argumentsCost dialect args +
      match (dialect.builtin f).bind (·.instruction) with
      | some i => instructionCost i
      | none => 50
  | .identifier _ => 1
  | .literal l => literalCost l + 1

def argumentsCost (dialect : Dialect) : List Expression → Nat
  | [] => 0
  | e :: es => argumentsCost dialect es + codeCost dialect e

end

end CodeCost

end Yul

/-!
## The rematerialiser

`libyul/optimiser/Rematerialiser.cpp`: variables are replaced by their most recently assigned
expressions, if these are cheap, if there are few references or if the caller asks for it. The
step counts references as it goes.
-/

namespace Yul

open Sof Semantics DataFlowAnalyzer List Expression Bool

section

variable {ξ : Type} (g : YulString → ξ → Option (Expression × ξ))

mutual

/-- Replace the identifiers in an expression, arguments from right to left. -/
def Expression.replaceIdentifiers (e : Expression) (t : ξ) : Option (Expression × ξ) :=
  match e with
  | .functionalInstruction i args =>
    (argumentsReplaceIdentifiers args t).map fun r => (.functionalInstruction i r.1, r.2)
  | .functionCall f args =>
    (argumentsReplaceIdentifiers args t).map fun r => (.functionCall f r.1, r.2)
  | .identifier x => g x t
  | .literal l => some (.literal l, t)

def argumentsReplaceIdentifiers (es : List Expression) (t : ξ) :
    Option (List Expression × ξ) :=
  match es with
  | [] => some ([], t)
  | e :: es =>
    (argumentsReplaceIdentifiers es t).bind fun r =>
      (e.replaceIdentifiers r.2).map fun r' => (r'.1 :: r.1, r'.2)

end

/-- Replace the identifiers inside an expression, but not the expression itself. -/
def Expression.replaceInner : Expression → ξ → Option (Expression × ξ)
  | .identifier x, t => some (.identifier x, t)
  | e, t => e.replaceIdentifiers g t

end

namespace Rematerialiser

/-- How often each name is referenced. -/
abbrev ReferenceCounts := YulString → Nat

section

variable (dialect : Dialect) (varsToAlwaysRematerialize : List YulString) (S : DataFlowAnalyzer)

/-- Whether a variable with the given value is to be replaced. -/
def worthwhile (t : ReferenceCounts) (x : YulString) (value : Expression) : Bool :=
  let refs := t x
  let cost := CodeCost.codeCost dialect value
  refs ≤ 1 || cost = 0 || (refs ≤ 5 && cost ≤ 1) || x ∈ varsToAlwaysRematerialize

/-- The counts after a reference to `x` is replaced by `value`. -/
def updateCounts (t : ReferenceCounts) (x : YulString) (value : Expression) : ReferenceCounts :=
  fun y => (if y = x then t y - 1 else t y) + countReferences value.references y

/-- Visit an identifier. It is asserted that references to it are left, and that the variables
which its value references are in scope. If it is replaced, its value is visited with
`visitValue`. -/
def visitWith (visitValue : Expression → ReferenceCounts → Option (Expression × ReferenceCounts))
    (x : YulString) (t : ReferenceCounts) : Option (Expression × ReferenceCounts) :=
  match S.value x with
  | none => some (.identifier x, t)
  | some value =>
    if worthwhile dialect varsToAlwaysRematerialize t x value then
      if 0 < t x && (S.references.filter (·.1 = x)).all fun p => S.inScope p.2 then
        visitValue value (updateCounts t x value)
      else none
    else some (.identifier x, t)

/-- Visit an identifier and the values it leads to, with a bound on how far. -/
def visitIdentifier : Nat → YulString → ReferenceCounts → Option (Expression × ReferenceCounts)
  | 0 => visitWith dialect varsToAlwaysRematerialize S fun _ _ => none
  | n + 1 =>
    visitWith dialect varsToAlwaysRematerialize S fun value =>
      value.replaceInner (visitIdentifier n)

/-- Visit an expression. No value leads further than there are known variables. -/
def visit (t : ReferenceCounts) (e : Expression) : Option (Expression × ReferenceCounts) :=
  e.replaceIdentifiers
    (visitIdentifier dialect varsToAlwaysRematerialize S S.knownVariables.length) t

end

/-- Run the step on a program. -/
def run (dialect : Dialect) (varsToAlwaysRematerialize : List YulString) (ss : Block) :
    Option Block :=
  (analyzeStatements (visit dialect varsToAlwaysRematerialize) dialect (init.pushScope false)
    (countReferences (referencesOfStatements ss)) ss).map (·.1)

end Rematerialiser

/-! ### Properties of the replacement -/

section

variable {ξ : Type} {g : YulString → ξ → Option (Expression × ξ)} {dialect : Dialect}
  {Γ : Scope} {t t' : ξ} {e' : Expression} {es es' : List Expression}

lemma Expression.replace_functionalInstruction {i : Sof.Instruction}
    (h : (functionalInstruction i es).replaceIdentifiers g t = some (e', t')) :
    ∃ es', argumentsReplaceIdentifiers g es t = some (es', t') ∧
      e' = .functionalInstruction i es' := by
  obtain ⟨⟨es', t₁⟩, hes, heq⟩ := Option.map_eq_some_iff.mp h
  cases heq
  exact ⟨es', hes, rfl⟩

lemma Expression.replace_functionCall {f : YulString}
    (h : (functionCall f es).replaceIdentifiers g t = some (e', t')) :
    ∃ es', argumentsReplaceIdentifiers g es t = some (es', t') ∧ e' = .functionCall f es' := by
  obtain ⟨⟨es', t₁⟩, hes, heq⟩ := Option.map_eq_some_iff.mp h
  cases heq
  exact ⟨es', hes, rfl⟩

lemma argumentsReplace_cons {e : Expression}
    (h : argumentsReplaceIdentifiers g (e :: es) t = some (es', t')) :
    ∃ es₁ t₁ e₁, argumentsReplaceIdentifiers g es t = some (es₁, t₁) ∧
      e.replaceIdentifiers g t₁ = some (e₁, t') ∧ es' = e₁ :: es₁ := by
  obtain ⟨⟨es₁, t₁⟩, hes, h⟩ := Option.bind_eq_some_iff.mp h
  obtain ⟨⟨e₁, t₂⟩, he, heq⟩ := Option.map_eq_some_iff.mp h
  cases heq
  exact ⟨es₁, t₁, e₁, hes, he, rfl⟩

lemma argumentsReplace_of_literals {f : YulString}
    (hf : dialect.requiresLiterals f) (hes : literalArgumentsValid dialect f es) :
    argumentsReplaceIdentifiers g es t = some (es, t) := by
  obtain ⟨b, hb, hlit⟩ := (Option.any_eq_true _ _).mp hf
  simp only [literalArgumentsValid, hb, hlit, Bool.not_true, Bool.false_or] at hes
  induction es with
  | nil => rfl
  | cons e es ih =>
    rw [all_cons, Bool.and_eq_true] at hes
    obtain ⟨l, rfl⟩ : ∃ l, e = .literal l := by
      cases e with
      | literal l => exact ⟨l, rfl⟩
      | _ => cases hes.1
    rw [argumentsReplaceIdentifiers, ih hes.2]
    rfl

/-- Identifiers are replaced by valid expressions with one value. -/
def IdentifiersValid (dialect : Dialect) (Γ : Scope)
    (g : YulString → ξ → Option (Expression × ξ)) : Prop :=
  ∀ x t e' t', g x t = some (e', t') → x ∈ Γ.locals →
    e'.valid dialect Γ = true ∧ e'.returns dialect Γ = 1

mutual

lemma Expression.valid_of_replace (hg : IdentifiersValid dialect Γ g) (e : Expression)
    {t t' : ξ} {e' : Expression} (h : e.replaceIdentifiers g t = some (e', t'))
    (hvalid : e.valid dialect Γ) :
    e'.valid dialect Γ ∧ e'.returns dialect Γ = e.returns dialect Γ := by
  match e with
  | .functionalInstruction i args =>
    obtain ⟨args', hargs, rfl⟩ := replace_functionalInstruction h
    exact ⟨valid_instruction_congr hvalid
      (argumentsValid_of_argumentsReplace hg args hargs
        (and_eq_true _ _ ▸ hvalid).2), rfl⟩
  | .functionCall f args =>
    obtain ⟨args', hargs, rfl⟩ := replace_functionCall h
    refine ⟨?_, rfl⟩
    cases hf : dialect.requiresLiterals f with
    | true =>
      rw [argumentsReplace_of_literals hf (literalArgumentsValid_of_valid hvalid)]
        at hargs
      cases hargs
      exact hvalid
    | false =>
      exact valid_functionCall_congr hvalid hf
        (argumentsValid_of_argumentsReplace hg args hargs
          (argumentsValid_of_valid hvalid))
  | .identifier x => exact hg x t e' t' h (of_decide_eq_true hvalid)
  | .literal l =>
    cases h
    exact ⟨hvalid, rfl⟩

lemma argumentsValid_of_argumentsReplace (hg : IdentifiersValid dialect Γ g)
    (es : List Expression) {t t' : ξ} {es' : List Expression}
    (h : argumentsReplaceIdentifiers g es t = some (es', t'))
    (hvalid : argumentsValid dialect Γ es) :
    argumentsValid dialect Γ es' ∧ es'.length = es.length := by
  match es with
  | [] =>
    cases h
    exact ⟨rfl, rfl⟩
  | e :: es =>
    obtain ⟨es₁, t₁, e₁, hes, he, rfl⟩ := argumentsReplace_cons h
    simp only [argumentsValid, and_eq_true, decide_eq_true_eq] at hvalid ⊢
    obtain ⟨hesValid, hlength⟩ := argumentsValid_of_argumentsReplace hg es hes
      hvalid.1.1
    obtain ⟨heValid, hreturns⟩ := e.valid_of_replace hg he hvalid.1.2
    exact ⟨⟨⟨hesValid, heValid⟩, hreturns.trans hvalid.2⟩, by simp [hlength]⟩

end

mutual

lemma Expression.eval_of_replace {World : Type} {I : Interpreter World}
    {F : Functions} {V : Variables}
    (hg : ∀ x t e' t', g x t = some (e', t') → x ∈ Γ.locals →
      ∀ m, e'.eval I F V m = (Expression.identifier x).eval I F V m)
    (e : Expression) {t t' : ξ} {e' : Expression}
    (h : e.replaceIdentifiers g t = some (e', t')) (hvalid : e.valid I.dialect Γ)
    (m : SvmState World) : e'.eval I F V m = e.eval I F V m := by
  match e with
  | .functionalInstruction i args =>
    obtain ⟨args', hargs, rfl⟩ := replace_functionalInstruction h
    rw [eval_instruction, eval_instruction,
      evaluateArgs_of_argumentsReplace hg args hargs
        (and_eq_true _ _ ▸ hvalid).2]
  | .functionCall f args =>
    obtain ⟨args', hargs, rfl⟩ := replace_functionCall h
    rw [eval_functionCall, eval_functionCall,
      evaluateArgs_of_argumentsReplace hg args hargs (argumentsValid_of_valid hvalid)]
    apply Result.bind_congr
    intro vs m' _
    cases hb : I.dialect.builtin f with
    | none => rfl
    | some b =>
      refine evalBuiltin_of_literalText hb (fun hf => ?_) I.env vs m'
      rw [argumentsReplace_of_literals hf (literalArgumentsValid_of_valid hvalid)]
        at hargs
      cases hargs
      rfl
  | .identifier x => exact hg x t e' t' h (of_decide_eq_true hvalid) m
  | .literal l =>
    cases h
    rfl

lemma evaluateArgs_of_argumentsReplace {World : Type} {I : Interpreter World}
    {F : Functions} {V : Variables}
    (hg : ∀ x t e' t', g x t = some (e', t') → x ∈ Γ.locals →
      ∀ m, e'.eval I F V m = (Expression.identifier x).eval I F V m)
    (es : List Expression) {t t' : ξ} {es' : List Expression}
    (h : argumentsReplaceIdentifiers g es t = some (es', t'))
    (hvalid : argumentsValid I.dialect Γ es) (m : SvmState World) :
    evaluateArgs I F V es' m = evaluateArgs I F V es m := by
  match es with
  | [] =>
    cases h
    rfl
  | e :: es =>
    obtain ⟨es₁, t₁, e₁, hes, he, rfl⟩ := argumentsReplace_cons h
    simp only [argumentsValid, and_eq_true] at hvalid
    rw [args_cons, args_cons,
      evaluateArgs_of_argumentsReplace hg es hes hvalid.1.1]
    apply Result.bind_congr
    intro vs m' _
    rw [e.eval_of_replace hg he hvalid.1.2]

end

/-- The identifier is replaced, and the state counts references. -/
def IdentifierTotal [AddCommMonoid ξ] (φ : List YulString → ξ)
    (g : YulString → ξ → Option (Expression × ξ)) (x : YulString) : Prop :=
  ∀ t r, t = φ [x] + r → ∃ e' t', g x t = some (e', t') ∧ t' = φ e'.references + r

mutual

lemma Expression.replace_total [AddCommMonoid ξ] {φ : List YulString → ξ}
    (hφ : CountsReferences φ) (e : Expression)
    (hg : ∀ x ∈ e.referencedVariables, IdentifierTotal φ g x) {t r : ξ}
    (ht : t = φ e.references + r) :
    ∃ e' t', e.replaceIdentifiers g t = some (e', t') ∧ t' = φ e'.references + r := by
  match e with
  | .functionalInstruction i args =>
    obtain ⟨args', t', hargs, ht'⟩ := argumentsReplace_total hφ args hg ht
    exact ⟨.functionalInstruction i args', t', Option.map_eq_some_iff.mpr ⟨_, hargs, rfl⟩, ht'⟩
  | .functionCall f args =>
    have ht : t = φ ([f] ++ argumentsReferences args) + r := ht
    obtain ⟨args', t', hargs, ht'⟩ := argumentsReplace_total hφ args hg
      (count_swap (hφ.split.mp ht))
    have ht' : t' = φ ([f] ++ argumentsReferences args') + r := hφ.split.mpr (count_swap ht')
    exact ⟨.functionCall f args', t', Option.map_eq_some_iff.mpr ⟨_, hargs, rfl⟩, ht'⟩
  | .identifier x => exact hg x mem_cons_self t r ht
  | .literal l => exact ⟨.literal l, t, rfl, ht⟩

lemma argumentsReplace_total [AddCommMonoid ξ] {φ : List YulString → ξ}
    (hφ : CountsReferences φ) (es : List Expression)
    (hg : ∀ x ∈ argumentsReferencedVariables es, IdentifierTotal φ g x) {t r : ξ}
    (ht : t = φ (argumentsReferences es) + r) :
    ∃ es' t', argumentsReplaceIdentifiers g es t = some (es', t') ∧
      t' = φ (argumentsReferences es') + r := by
  match es with
  | [] => exact ⟨[], t, rfl, ht⟩
  | e :: es =>
    rw [argumentsReferencedVariables, forall_mem_append] at hg
    have ht : t = φ (e.references ++ argumentsReferences es) + r := ht
    obtain ⟨es', t₁, hes, ht₁⟩ := argumentsReplace_total hφ es hg.2
      (count_swap (hφ.split.mp ht))
    obtain ⟨e', t', he, ht'⟩ := e.replace_total hφ hg.1 (count_swap ht₁)
    have ht' : t' = φ (e'.references ++ argumentsReferences es') + r := hφ.split.mpr ht'
    exact ⟨e' :: es', t', Option.bind_eq_some_iff.mpr ⟨_, hes,
      Option.map_eq_some_iff.mpr ⟨_, he, rfl⟩⟩, ht'⟩

end

lemma Expression.replaceInner_eq_some {v : Expression} (h : v.replaceInner g t = some (e', t')) :
    e' = v ∨ v.replaceIdentifiers g t = some (e', t') := by
  cases v with
  | identifier x =>
    cases h
    exact .inl rfl
  | _ => exact .inr h

lemma Expression.replaceInner_total [AddCommMonoid ξ] {φ : List YulString → ξ}
    (hφ : CountsReferences φ) (e : Expression)
    (hg : ∀ x ∈ e.referencedVariables, IdentifierTotal φ g x) {t r : ξ}
    (ht : t = φ e.references + r) :
    ∃ e' t', e.replaceInner g t = some (e', t') ∧ t' = φ e'.references + r := by
  cases e with
  | identifier x => exact ⟨.identifier x, t, rfl, ht⟩
  | _ => exact replace_total hφ _ hg ht

end

/-! ### What the rematerialiser replaces -/

namespace Rematerialiser

section

variable {dialect : Dialect} {vars : List YulString} {Γ : Scope} {S : DataFlowAnalyzer}
  {x : YulString} {t t' : ReferenceCounts} {e' : Expression}

lemma visitWith_eq_some
    {visitValue : Expression → ReferenceCounts → Option (Expression × ReferenceCounts)}
    (h : visitWith dialect vars S visitValue x t = some (e', t')) :
    e' = .identifier x ∨ ∃ value, S.value x = some value ∧
      visitValue value (updateCounts t x value) = some (e', t') := by
  unfold visitWith at h
  split at h
  · cases h
    exact .inl rfl
  · rename_i value hvalue
    split at h
    · split at h
      · exact .inr ⟨value, hvalue, h⟩
      · cases h
    · cases h
      exact .inl rfl

lemma visitIdentifier_eq_some {n : Nat} (h : visitIdentifier dialect vars S n x t = some (e', t')) :
    e' = .identifier x ∨ ∃ value, S.value x = some value ∧ (e' = value ∨ ∃ k, n = k + 1 ∧
      value.replaceIdentifiers (visitIdentifier dialect vars S k) (updateCounts t x value) =
        some (e', t')) := by
  cases n with
  | zero =>
    rcases visitWith_eq_some h with rfl | ⟨value, hvalue, h⟩
    · exact .inl rfl
    · cases h
  | succ n =>
    rcases visitWith_eq_some h with rfl | ⟨value, hvalue, h⟩
    · exact .inl rfl
    · rcases replaceInner_eq_some h with rfl | h
      · exact .inr ⟨e', hvalue, .inl rfl⟩
      · exact .inr ⟨value, hvalue, .inr ⟨n, rfl, h⟩⟩

lemma identifiersValid_visitIdentifier (hS : S.WellFormed dialect Γ) (n : Nat) :
    IdentifiersValid dialect Γ (visitIdentifier dialect vars S n) := by
  induction n using Nat.strongRecOn with
  | ind n ih =>
    intro x t e' t' h hx
    rcases visitIdentifier_eq_some h with rfl | ⟨value, hvalue, rfl | ⟨k, rfl, hinner⟩⟩
    · exact ⟨decide_eq_true hx, rfl⟩
    · exact ⟨(hS x _ hvalue).valid, (hS x _ hvalue).returns⟩
    · have hk := hS x value hvalue
      obtain ⟨hvalid, hreturns⟩ :=
        value.valid_of_replace (ih k k.lt_succ_self) hinner hk.valid
      exact ⟨hvalid, hreturns.trans hk.returns⟩

lemma eval_visitIdentifier {World : Type} {I : Interpreter World} {F : Functions}
    {V : Variables} (hS : S.WellFormed I.dialect Γ) (hold : S.Holds I.env I.dialect V) (n : Nat) :
    ∀ x t e' t', visitIdentifier I.dialect vars S n x t = some (e', t') → x ∈ Γ.locals →
      ∀ m, e'.eval I F V m = (Expression.identifier x).eval I F V m := by
  induction n using Nat.strongRecOn with
  | ind n ih =>
    intro x t e' t' h hx m
    rcases visitIdentifier_eq_some h with rfl | ⟨value, hvalue, rfl | ⟨k, rfl, hinner⟩⟩
    · rfl
    · exact (hold.eval_identifier hS hvalue m).symm
    · rw [value.eval_of_replace (ih k k.lt_succ_self) hinner (hS x value hvalue).valid,
        hold.eval_identifier hS hvalue]

/-- The known variables that come before `x`. -/
def before (S : DataFlowAnalyzer) (rank : YulString → Nat) (x : YulString) : List YulString :=
  S.knownVariables.filter (rank · < rank x)

lemma length_before_lt {rank : YulString → Nat} {y : YulString} (hy : y ∈ S.knownVariables)
    (hlt : rank y < rank x) : (before S rank y).length < (before S rank x).length := by
  have heq : before S rank y = (before S rank x).filter (rank · < rank y) := by
    rw [before, before, filter_filter]
    refine filter_congr fun z _ => ?_
    rw [Bool.eq_iff_iff, Bool.and_eq_true, decide_eq_true_eq, decide_eq_true_eq]
    exact ⟨fun h => ⟨h, h.trans hlt⟩, And.left⟩
  rw [heq, length_filter_lt_length_iff_exists]
  exact ⟨y, List.mem_filter.mpr ⟨hy, by simpa using hlt⟩, by simp⟩

lemma countsReferences_countReferences : CountsReferences countReferences where
  nil := rfl
  append _ _ := funext fun _ => count_append

lemma updateCounts_eq {value : Expression} {r : ReferenceCounts} :
    updateCounts (countReferences [x] + r) x value = countReferences value.references + r := by
  funext y
  by_cases hy : y = x
  · simp [updateCounts, countReferences, hy, add_comm]
  · have hcount : countReferences [x] y = 0 := List.count_eq_zero.mpr (by simpa using hy)
    simp only [updateCounts, if_neg hy, Pi.add_apply, hcount, zero_add]
    exact add_comm _ _

/-- No assertion fails, and values lead at most as far as there are known variables before the
identifier. -/
lemma identifierTotal_visitIdentifier (h : S.Ready dialect Γ) {rank : YulString → Nat}
    (hrank : ∀ x e, S.value x = some e → ∀ y ∈ e.referencedVariables, rank y < rank x)
    (n : Nat) (x : YulString) (hn : x ∈ S.knownVariables → (before S rank x).length < n) :
    IdentifierTotal countReferences (visitIdentifier dialect vars S n) x := by
  induction n generalizing x with
  | zero =>
    intro t r ht
    have hvalue : S.value x = none := by
      rw [← Option.not_isSome_iff_eq_none, ← h.inScope.mem_knownVariables h.wellFormed]
      exact fun hx => absurd (hn hx) (Nat.not_lt_zero _)
    refine ⟨.identifier x, t, ?_, ht⟩
    simp only [visitIdentifier, visitWith, hvalue]
  | succ n ih =>
    intro t r ht
    simp only [visitIdentifier, visitWith]
    cases hvalue : S.value x with
    | none => exact ⟨.identifier x, t, rfl, ht⟩
    | some value =>
      have hx : x ∈ S.knownVariables := by
        rw [h.inScope.mem_knownVariables h.wellFormed, hvalue]
        rfl
      have hasserts : (decide (0 < t x) &&
          (S.references.filter (·.1 = x)).all fun p => S.inScope p.2) = true := by
        simp only [and_eq_true, decide_eq_true_eq, all_eq_true, mem_filter]
        refine ⟨?_, ?_⟩
        · rw [ht, Pi.add_apply, countReferences, count_singleton_self]
          exact Nat.add_pos_left Nat.one_pos _
        · rintro ⟨_, y⟩ ⟨hp, rfl⟩
          have hy := h.consistent.exact_references _ value hvalue y hp
          exact h.inScope.inScope y ((h.wellFormed _ value hvalue).referenced_mem_locals y hy)
      simp only [hasserts, if_true]
      split
      · rw [ht, updateCounts_eq]
        refine replaceInner_total countsReferences_countReferences value
          (fun y hy => ih y fun hyk => ?_) rfl
        have hlt := length_before_lt hyk (hrank x value hvalue y hy)
        exact lt_of_lt_of_le hlt (Nat.le_of_lt_succ (hn hx))
      · exact ⟨.identifier x, t, rfl, ht⟩

end

lemma visitValid_visit (dialect : Dialect) (vars : List YulString) :
    VisitValid dialect (visit dialect vars) :=
  fun _ _ _ e _ _ h hS hvalid =>
    e.valid_of_replace (identifiersValid_visitIdentifier hS _) h hvalid

lemma soundVisit_visit {World : Type} (I : Interpreter World) (vars : List YulString) :
    SoundVisit I (visit I.dialect vars) where
  valid := visitValid_visit I.dialect vars
  eval_eq _ _ _ e _ _ h hS hvalid _ hold _ m :=
    e.eval_of_replace (eval_visitIdentifier hS hold _) h hvalid m

lemma totalVisit_visit (dialect : Dialect) (vars : List YulString) :
    TotalVisit dialect countReferences (visit dialect vars) := by
  intro Γ S e t r h _ ht
  obtain ⟨rank, hrank⟩ := h.consistent.acyclic
  refine e.replace_total countsReferences_countReferences (fun x _ => ?_) ht
  refine identifierTotal_visitIdentifier h hrank _ x fun hx => ?_
  rw [before, length_filter_lt_length_iff_exists]
  exact ⟨x, hx, by simp⟩

/-- `let a := 7  let b := add(a, a)  sstore(b, a)` -/
def sumOfSevens : Block :=
  [.variableDeclaration [⟨"a", ""⟩] (some (.literal (.number "7"))),
    .variableDeclaration [⟨"b", ""⟩]
      (some (.functionCall "add" [.identifier "a", .identifier "a"])),
    .expressionStatement (.functionCall "sstore" [.identifier "b", .identifier "a"])]

end Rematerialiser

end Yul
