import Polc.Yul.Backends.Wasm.WordSizeTransform.Meaning

/-!
# The word size transform succeeds

On programs whose expressions are split the step does not run into an assertion. It does to each
statement what it does with all names known, and the names in the new program are declared.
-/

namespace Yul

open Sof List Expression Statement Scope
open Option (bind_some map_some)
open Bool (and_eq_true)
open Option (bind_eq_some_iff isSome_iff_exists map_eq_some_iff)

/-! ### Declared identifiers -/

mutual

/-- All variables in the statement are declared in it before or are among `xs`. -/
def Statement.identifiersDeclared (xs : List YulString) : Statement → Bool
  | .expressionStatement e => e.referencedVariables ⊆ xs
  | .assignment ys e => ys ⊆ xs && e.referencedVariables ⊆ xs
  | .variableDeclaration _ none => true
  | .variableDeclaration _ (some e) => e.referencedVariables ⊆ xs
  | .functionDefinition _ ps rs body =>
    identifiersDeclared (ps.map (·.name) ++ rs.map (·.name)) body
  | .if c body => c.referencedVariables ⊆ xs && identifiersDeclared xs body
  | .switch e cases => e.referencedVariables ⊆ xs && identifiersDeclaredInCases xs cases
  | .forLoop pre c post body =>
    identifiersDeclared xs pre && c.referencedVariables ⊆ pre.flatMap (·.declares) ++ xs &&
      identifiersDeclared (pre.flatMap (·.declares) ++ xs) post &&
      identifiersDeclared (pre.flatMap (·.declares) ++ xs) body
  | .break | .continue => true
  | .block ss => identifiersDeclared xs ss

def identifiersDeclared (xs : List YulString) : List Statement → Bool
  | [] => true
  | s :: ss => s.identifiersDeclared xs && identifiersDeclared (s.declares ++ xs) ss

def identifiersDeclaredInCases (xs : List YulString) : List Case → Bool
  | [] => true
  | .mk _ body :: cs => identifiersDeclared xs body && identifiersDeclaredInCases xs cs

end

section

variable {xs ys : List YulString}

lemma append_subset_append_left (zs : List YulString) (h : xs ⊆ ys) : zs ++ xs ⊆ zs ++ ys :=
  append_subset.mpr ⟨subset_append_left _ _, subset_append_of_subset_right _ h⟩

mutual

lemma Statement.identifiersDeclared_mono (s : Statement) {xs ys : List YulString} (h : xs ⊆ ys)
    (hs : s.identifiersDeclared xs) : s.identifiersDeclared ys := by
  match s with
  | .expressionStatement e | .variableDeclaration _ (some e) =>
    exact decide_eq_true (List.Subset.trans (of_decide_eq_true hs) h)
  | .assignment zs e =>
    obtain ⟨hzs, he⟩ := Bool.and_eq_true_iff.mp hs
    exact Bool.and_eq_true_iff.mpr ⟨decide_eq_true (List.Subset.trans (of_decide_eq_true hzs) h),
      decide_eq_true (List.Subset.trans (of_decide_eq_true he) h)⟩
  | .variableDeclaration _ none | .break | .continue => rfl
  | .functionDefinition f ps rs body => exact hs
  | .if c body =>
    obtain ⟨hc, hbody⟩ := Bool.and_eq_true_iff.mp hs
    exact Bool.and_eq_true_iff.mpr ⟨decide_eq_true (List.Subset.trans (of_decide_eq_true hc) h),
      identifiersDeclared_mono body h hbody⟩
  | .switch e cases =>
    obtain ⟨he, hcases⟩ := Bool.and_eq_true_iff.mp hs
    exact Bool.and_eq_true_iff.mpr ⟨decide_eq_true (List.Subset.trans (of_decide_eq_true he) h),
      identifiersDeclaredInCases_mono cases h hcases⟩
  | .forLoop pre c post body =>
    simp only [Statement.identifiersDeclared, and_eq_true, decide_eq_true_eq] at hs ⊢
    obtain ⟨⟨⟨hpre, hc⟩, hpost⟩, hbody⟩ := hs
    have h' := append_subset_append_left (pre.flatMap (·.declares)) h
    exact ⟨⟨⟨identifiersDeclared_mono pre h hpre, List.Subset.trans hc h'⟩,
      identifiersDeclared_mono post h' hpost⟩, identifiersDeclared_mono body h' hbody⟩
  | .block ss => exact identifiersDeclared_mono ss h hs

lemma identifiersDeclared_mono (ss : List Statement) {xs ys : List YulString} (h : xs ⊆ ys)
    (hss : identifiersDeclared xs ss) : identifiersDeclared ys ss := by
  match ss with
  | [] => rfl
  | s :: ss =>
    obtain ⟨hs, hss⟩ := Bool.and_eq_true_iff.mp hss
    exact Bool.and_eq_true_iff.mpr ⟨s.identifiersDeclared_mono h hs,
      identifiersDeclared_mono ss (append_subset_append_left _ h) hss⟩

lemma identifiersDeclaredInCases_mono (cs : List Case) {xs ys : List YulString} (h : xs ⊆ ys)
    (hcs : identifiersDeclaredInCases xs cs) : identifiersDeclaredInCases ys cs := by
  match cs with
  | [] => rfl
  | .mk value body :: cs =>
    obtain ⟨hbody, hcs⟩ := Bool.and_eq_true_iff.mp hcs
    exact Bool.and_eq_true_iff.mpr ⟨identifiersDeclared_mono body h hbody,
      identifiersDeclaredInCases_mono cs h hcs⟩

end

lemma identifiersDeclared_append {ss ts : List Statement} (hss : identifiersDeclared xs ss)
    (hts : identifiersDeclared (ss.flatMap (·.declares) ++ xs) ts) :
    identifiersDeclared xs (ss ++ ts) := by
  induction ss generalizing xs with
  | nil => exact hts
  | cons s ss ih =>
    obtain ⟨hs, hss⟩ := Bool.and_eq_true_iff.mp hss
    refine Bool.and_eq_true_iff.mpr ⟨hs, ih hss (identifiersDeclared_mono ts ?_ hts)⟩
    intro x
    simp only [flatMap_cons, mem_append]
    tauto

end

namespace NameDispenser

variable {D : NameDispenser}

lemma newNames_spec (D : NameDispenser) (hints : List YulString) :
    (D.newNames hints).1.length = hints.length ∧ (D.newNames hints).1.Nodup ∧
      (∀ x ∈ (D.newNames hints).1, x ∉ D.usedNames) ∧
      (D.newNames hints).1 ⊆ (D.newNames hints).2.usedNames ∧
      D.usedNames ⊆ (D.newNames hints).2.usedNames := by
  induction hints generalizing D with
  | nil => exact ⟨rfl, nodup_nil, nofun, nofun, List.Subset.refl _⟩
  | cons x hints ih =>
    obtain ⟨hlength, hnodup, hnew, hused, hsubset⟩ := ih (D.newName x).2
    have hfresh := (D.fresh_newName x).notUsed
    rw [usedNames_newName] at hnew hsubset
    obtain ⟨hname, hsubset⟩ := cons_subset.mp hsubset
    refine ⟨congrArg (· + 1) hlength, ?_, ?_, cons_subset.mpr ⟨hname, hused⟩, hsubset⟩
    · exact nodup_cons.mpr ⟨fun hmem => hnew _ hmem mem_cons_self, hnodup⟩
    · intro y hy
      rcases mem_cons.mp hy with rfl | hy
      · exact hfresh
      · exact fun hmem => hnew y hy (mem_cons_of_mem _ hmem)

end NameDispenser

namespace WordSizeTransform

/-! ### The state -/

def Mapping.Le (μ μ' : Mapping) : Prop := ∀ x xs, μ x = some xs → μ' x = some xs

/-- The new names in the state are proper, and the dispenser knows them. -/
structure State.Proper (S : State) : Prop where
  mapping : S.variableMapping.Proper
  used : ∀ x xs, S.variableMapping x = some xs → xs ⊆ S.nameDispenser.usedNames

/-- The variables in `declared` have got names, and no others than those in `names`. -/
structure Step (S S' : State) (names declared : List YulString) : Prop where
  le : S.variableMapping.Le S'.variableMapping
  declared : ∀ x ∈ declared, (S'.variableMapping x).isSome
  new : ∀ x, (S'.variableMapping x).isSome → (S.variableMapping x).isSome ∨ x ∈ names
  proper : S.Proper → S'.Proper

section

variable {S S' S'' : State} {μ μ' : Mapping} {names names' declared declared' : List YulString}

lemma Mapping.Le.trans {μ'' : Mapping} (h : μ.Le μ') (h' : μ'.Le μ'') : μ.Le μ'' :=
  fun x xs hx => h' x xs (h x xs hx)

lemma Mapping.Le.isSome (h : μ.Le μ') {x : YulString} (hx : (μ x).isSome) : (μ' x).isSome := by
  obtain ⟨xs, hx⟩ := isSome_iff_exists.mp hx
  rw [h x xs hx]
  rfl

namespace Step

lemma refl (S : State) : Step S S [] [] :=
  ⟨fun _ _ => id, nofun, fun _ => .inl, id⟩

lemma trans (h : Step S S' names declared) (h' : Step S' S'' names' declared') :
    Step S S'' (names ++ names') (declared ++ declared') where
  le := h.le.trans h'.le
  declared x hx := by
    rcases mem_append.mp hx with hx | hx
    · exact h'.le.isSome (h.declared x hx)
    · exact h'.declared x hx
  new x hx := by
    rw [mem_append]
    rcases h'.new x hx with hx | hx
    · exact (h.new x hx).imp_right .inl
    · exact .inr (.inr hx)
  proper hS := h'.proper (h.proper hS)

lemma mono (h : Step S S' names declared) (hnames : names ⊆ names')
    (hdeclared : declared' ⊆ declared) : Step S S' names' declared' where
  le := h.le
  declared x hx := h.declared x (hdeclared hx)
  new x hx := (h.new x hx).imp_right fun hx => hnames hx
  proper := h.proper

lemma eq_none (h : Step S S' names declared) {x : YulString} (hx : S.variableMapping x = none)
    (hnames : x ∉ names) : S'.variableMapping x = none := by
  rw [← Option.not_isSome_iff_eq_none]
  intro hsome
  rcases h.new x hsome with hsome | hmem
  · rw [hx] at hsome
    cases hsome
  · exact hnames hmem

end Step

lemma generateU64IdentifierNames_spec {x : YulString} (hx : S.variableMapping x = none) :
    ∃ xs S', generateU64IdentifierNames S x = some (xs, S') ∧ Step S S' [x] [x] ∧
      S'.variableMapping x = some xs := by
  have hisSome : ¬ (S.variableMapping x).isSome = true := by
    rw [hx]
    exact nofun
  obtain ⟨hlength, hnodup, hnew, hused, hsubset⟩ := NameDispenser.newNames_spec S.nameDispenser
    ((List.range 4).map fun i => x ++ "_" ++ toString i)
  rw [generateU64IdentifierNames, if_neg hisSome]
  refine ⟨_, _, rfl, ?_, if_pos rfl⟩
  generalize S.nameDispenser.newNames _ = r at *
  refine ⟨fun y ys hy => ?_, fun y hy => ?_, fun y hy => ?_, fun hS => ⟨⟨?_, ?_, ?_⟩, ?_⟩⟩
  · have hyx : y ≠ x := by
      rintro rfl
      cases hx.symm.trans hy
    exact (if_neg hyx).trans hy
  · obtain rfl := mem_singleton.mp hy
    dsimp only
    rw [if_pos rfl]
    rfl
  · dsimp only at hy
    split_ifs at hy with hyx
    · exact .inr (mem_singleton.mpr hyx)
    · exact .inl hy
  · intro y ys hy
    dsimp only at hy
    split_ifs at hy with hyx
    · cases hy
      exact hlength
    · exact hS.mapping.length y ys hy
  · intro y ys hy
    dsimp only at hy
    split_ifs at hy with hyx
    · cases hy
      exact hnodup
    · exact hS.mapping.nodup y ys hy
  · intro y ys z zs u hy hz huy huz
    dsimp only at hy hz
    split_ifs at hy hz with hyx hzx hzx
    · rw [hyx, hzx]
    · cases hy
      exact absurd (hS.used z zs hz huz) (hnew u huy)
    · cases hz
      exact absurd (hS.used y ys hy huy) (hnew u huz)
    · exact hS.mapping.disjoint y ys z zs u hy hz huy huz
  · intro y ys hy
    dsimp only at hy
    split_ifs at hy with hyx
    · cases hy
      exact hused
    · exact List.Subset.trans (hS.used y ys hy) hsubset

lemma rewriteVarDeclList_spec {xs : List TypedName}
    (hxs : ∀ x ∈ xs, S.variableMapping x.name = none) (hnodup : (xs.map (·.name)).Nodup) :
    ∃ ys S', rewriteVarDeclList S xs = some (ys, S') ∧
      Step S S' (xs.map (·.name)) (xs.map (·.name)) ∧
      ∀ μ, S'.variableMapping.Le μ → widenNames μ xs = some ys := by
  induction xs generalizing S with
  | nil => exact ⟨[], S, rfl, .refl S, fun _ _ => rfl⟩
  | cons x xs ih =>
    rw [map_cons, nodup_cons] at hnodup
    obtain ⟨ys, S₁, hys, hstep, hx⟩ := generateU64IdentifierNames_spec (hxs x mem_cons_self)
    have hxs' : ∀ y ∈ xs, S₁.variableMapping y.name = none := by
      intro y hy
      refine hstep.eq_none (hxs y (mem_cons_of_mem _ hy)) fun hmem => hnodup.1 ?_
      exact mem_singleton.mp hmem ▸ mem_map_of_mem hy
    obtain ⟨zs, S₂, hzs, hstep', hwiden⟩ := ih hxs' hnodup.2
    refine ⟨ys.map typed ++ zs, S₂, ?_, hstep.trans hstep', fun μ hμ => ?_⟩
    · rw [rewriteVarDeclList, hys, bind_some, hzs]
      rfl
    · obtain ⟨us, hus, rfl⟩ := map_eq_some_iff.mp (hwiden μ hμ)
      rw [widenNames, map_cons, rewriteIdentifierList, hμ _ _ (hstep'.le _ _ hx),
        bind_some, hus, map_some, map_some, map_append]

end

/-! ### Expressions -/

variable {xs ys zs : List YulString} {es : List Expression} {value : Option Expression}

section

variable {dialect : Dialect} {Γ : Scope} {μ : Mapping} {e : Expression}

/-- All variables of the scope have names. -/
def Mapping.Covers (μ : Mapping) (xs : List YulString) : Prop := ∀ x ∈ xs, (μ x).isSome

lemma Mapping.Covers.le {μ' : Mapping} (h : μ.Covers xs) (hle : μ.Le μ') : μ'.Covers xs :=
  fun x hx => hle.isSome (h x hx)

lemma expandValue_spec (hμ : μ.Covers Γ.locals) (he : e.isElementary)
    (hvalid : e.valid dialect Γ) :
    ∃ es, expandValue μ e = some es ∧ ∀ μ', μ.Le μ' → expandValue μ' e = some es := by
  cases e with
  | identifier x =>
    have hx : x ∈ Γ.locals := of_decide_eq_true hvalid
    obtain ⟨xs, hxs⟩ := isSome_iff_exists.mp (hμ x hx)
    refine ⟨xs.map .identifier, ?_, fun μ' hle => ?_⟩
    · rw [expandValue, hxs]
      rfl
    · rw [expandValue, hle x xs hxs]
      rfl
  | literal l =>
    obtain ⟨w, hw⟩ := isSome_iff_exists.mp (show (valueOfLiteral l).isSome from hvalid)
    refine ⟨(splitWord w).map fun v => .literal ⟨.number, formatDecimal v.toNat, "u64"⟩, ?_,
      fun μ' _ => ?_⟩ <;> rw [expandValue, hw] <;> rfl
  | _ => cases he

lemma rewriteArguments_spec (hμ : μ.Covers Γ.locals)
    (hes : es.all (·.isElementary)) (hvalid : argumentsValid dialect Γ es) :
    ∃ es', rewriteFunctionCallArguments μ es = some es' ∧
      ∀ μ', μ.Le μ' → rewriteFunctionCallArguments μ' es = some es' := by
  induction es with
  | nil => exact ⟨[], rfl, fun _ _ => rfl⟩
  | cons e es ih =>
    rw [all_cons, and_eq_true] at hes
    rw [argumentsValid, and_eq_true, and_eq_true] at hvalid
    obtain ⟨us, hus, hus'⟩ := expandValue_spec hμ hes.1 hvalid.1.2
    obtain ⟨vs, hvs, hvs'⟩ := ih hes.2 hvalid.1.1
    refine ⟨us ++ vs, ?_, fun μ' hle => ?_⟩
    · rw [rewriteFunctionCallArguments, hus, bind_some, hvs, map_some]
    · rw [rewriteFunctionCallArguments, hus' μ' hle, bind_some, hvs' μ' hle,
        map_some]

lemma visit_spec (hμ : μ.Covers Γ.locals) (he : e.isSplit)
    (hvalid : e.valid dialect Γ) :
    ∃ e', visit μ e = some e' ∧ ∀ μ', μ.Le μ' → visit μ' e = some e' := by
  cases e with
  | identifier x => exact ⟨_, rfl, fun _ _ => rfl⟩
  | literal l => exact ⟨_, rfl, fun _ _ => rfl⟩
  | functionalInstruction i es =>
    rw [valid_instruction, and_eq_true] at hvalid
    obtain ⟨es', hes, hes'⟩ := rewriteArguments_spec hμ he hvalid.2
    refine ⟨.functionalInstruction i es', ?_, fun μ' hle => ?_⟩
    · rw [visit, hes, map_some]
    · rw [visit, hes' μ' hle, map_some]
  | functionCall f es =>
    rw [valid_functionCall, and_eq_true] at hvalid
    obtain ⟨es', hes, hes'⟩ := rewriteArguments_spec hμ he hvalid.2
    refine ⟨.functionCall f es', ?_, fun μ' hle => ?_⟩
    · rw [visit, hes, map_some]
    · rw [visit, hes' μ' hle, map_some]

lemma rewriteIdentifierList_spec (hμ : μ.Covers xs) :
    ∃ ys, rewriteIdentifierList μ xs = some ys ∧
      ∀ μ', μ.Le μ' → rewriteIdentifierList μ' xs = some ys := by
  induction xs with
  | nil => exact ⟨[], rfl, fun _ _ => rfl⟩
  | cons x xs ih =>
    obtain ⟨ys, hys⟩ := isSome_iff_exists.mp (hμ x mem_cons_self)
    obtain ⟨zs, hzs, hzs'⟩ := ih fun y hy => hμ y (mem_cons_of_mem _ hy)
    refine ⟨ys ++ zs, ?_, fun μ' hle => ?_⟩
    · rw [rewriteIdentifierList, hys, bind_some, hzs, map_some]
    · rw [rewriteIdentifierList, hle x ys hys, bind_some, hzs' μ' hle, map_some]

lemma returns_of_isElementary (he : e.isElementary) : e.returns dialect Γ = 1 := by
  cases e with
  | identifier x => rfl
  | literal l => rfl
  | _ => cases he

lemma transformAssignment_spec (hμ : μ.Covers Γ.locals) (he : e.isSplit)
    (hvalid : (Statement.assignment xs e).valid dialect Γ) :
    ∃ ts, transformAssignment μ xs e = some ts ∧
      ∀ μ', μ.Le μ' → transformAssignment μ' xs e = some ts := by
  rw [valid_assignment, and_eq_true, and_eq_true, all_eq_true] at hvalid
  obtain ⟨⟨hxs, hvalid⟩, hreturns⟩ := hvalid
  have hcovers : μ.Covers xs := fun x hx => hμ x (of_decide_eq_true (hxs x hx))
  obtain ⟨ys, hys, hys'⟩ := rewriteIdentifierList_spec hcovers
  obtain ⟨e', he', hle'⟩ := visit_spec hμ he hvalid
  by_cases helementary : e.isElementary = true
  · rw [returns_of_isElementary helementary, decide_eq_true_eq] at hreturns
    obtain ⟨x, rfl⟩ := length_eq_one_iff.mp hreturns.symm
    obtain ⟨es, hes, hes'⟩ := expandValue_spec hμ helementary hvalid
    obtain ⟨zs, hzs⟩ := isSome_iff_exists.mp (hcovers x mem_cons_self)
    have hassign (μ' : Mapping) (he : expandValue μ' e = some es) (hx : μ' x = some zs) :
        transformAssignment μ' [x] e = some (assignEach zs es) := by
      cases e with
      | identifier y => rw [transformAssignment, he, bind_some, hx, map_some]
      | literal l => rw [transformAssignment, he, bind_some, hx, map_some]
      | _ => cases helementary
    exact ⟨_, hassign μ hes hzs, fun μ' hle => hassign μ' (hes' μ' hle) (hle x zs hzs)⟩
  · have hassign (μ' : Mapping) (he : visit μ' e = some e')
        (hxs : rewriteIdentifierList μ' xs = some ys) :
        transformAssignment μ' xs e = some [.assignment ys e'] := by
      cases e with
      | identifier y => exact absurd rfl helementary
      | literal l => exact absurd rfl helementary
      | _ => rw [transformAssignment, he, bind_some, hxs, map_some]
    exact ⟨_, hassign μ he' hys, fun μ' hle => hassign μ' (hle' μ' hle) (hys' μ' hle)⟩

lemma transformDeclaration_spec {S : State} {xs : List TypedName}
    (hS : S.variableMapping.Covers Γ.locals)
    (hvalue : (Statement.variableDeclaration xs value).isSplit)
    (hvalid : (Statement.variableDeclaration xs value).valid dialect Γ)
    (hxs : ∀ x ∈ xs.map (·.name), S.variableMapping x = none) :
    ∃ ts S', transformDeclaration S xs value = some (ts, S') ∧
      Step S S' (xs.map (·.name)) (xs.map (·.name)) ∧
      ∀ μ, S'.variableMapping.Le μ → widenDeclaration μ xs value = some ts := by
  rw [valid_declaration, and_eq_true, and_eq_true, decide_eq_true_eq] at hvalid
  obtain ⟨⟨hnodup, -⟩, hvalid⟩ := hvalid
  have hnone : ∀ x ∈ xs, S.variableMapping x.name = none :=
    fun x hx => hxs x.name (mem_map_of_mem hx)
  obtain ⟨ys, S', hys, hstep, hwiden⟩ := rewriteVarDeclList_spec hnone hnodup
  cases value with
  | none =>
    refine ⟨_, S', by rw [transformDeclaration, hys, map_some], hstep, fun μ hμ => ?_⟩
    rw [widenDeclaration, hwiden μ hμ, map_some]
  | some e =>
    rw [valueValid, and_eq_true] at hvalid
    obtain ⟨hvalid, hreturns⟩ := hvalid
    obtain ⟨e', he', hle'⟩ := visit_spec hS hvalue hvalid
    by_cases helementary : e.isElementary = true
    · rw [returns_of_isElementary helementary, decide_eq_true_eq] at hreturns
      obtain ⟨x, rfl⟩ := length_eq_one_iff.mp hreturns.symm
      obtain ⟨es, hes, hes'⟩ := expandValue_spec hS helementary hvalid
      obtain ⟨zs, S', hzs, hstep, hx⟩ := generateU64IdentifierNames_spec
        (hnone x mem_cons_self)
      refine ⟨declareEach zs es, S', ?_, hstep, fun μ hμ => ?_⟩
      · cases e with
        | identifier y => rw [transformDeclaration, hes, bind_some, hzs, map_some]
        | literal l => rw [transformDeclaration, hes, bind_some, hzs, map_some]
        | _ => cases helementary
      · have he := hes' μ (hstep.le.trans hμ)
        cases e with
        | identifier y => rw [widenDeclaration, he, bind_some, hμ _ _ hx, map_some]
        | literal l => rw [widenDeclaration, he, bind_some, hμ _ _ hx, map_some]
        | _ => cases helementary
    · refine ⟨[.variableDeclaration ys (some e')], S', ?_, hstep, fun μ hμ => ?_⟩
      · cases e with
        | identifier y => exact absurd rfl helementary
        | literal l => exact absurd rfl helementary
        | _ => rw [transformDeclaration, he', bind_some, hys, map_some]
      · have he := hle' μ (hstep.le.trans hμ)
        cases e with
        | identifier y => exact absurd rfl helementary
        | literal l => exact absurd rfl helementary
        | _ => rw [widenDeclaration, he, bind_some, hwiden μ hμ, map_some]

end

/-! ### Declared identifiers -/

section

variable {dialect : Dialect} {Γ : Scope} {μ : Mapping} {e : Expression} {xs : List YulString}

/-- The new names of the variables of the scope are among `xs`. -/
def Mapping.NamesIn (μ : Mapping) (locals xs : List YulString) : Prop :=
  ∀ x ∈ locals, ∀ ys, μ x = some ys → ys ⊆ xs

lemma referenced_expandValue (hμ : μ.NamesIn Γ.locals xs)
    (hvalid : e.valid dialect Γ) (h : expandValue μ e = some es) :
    argumentsReferencedVariables es ⊆ xs := by
  cases e with
  | identifier x =>
    obtain ⟨ys, hys, rfl⟩ := map_eq_some_iff.mp h
    have hsubset := hμ x (of_decide_eq_true hvalid) ys hys
    clear hys h
    induction ys with
    | nil => exact nofun
    | cons y ys ih =>
      obtain ⟨hy, hsubset⟩ := cons_subset.mp hsubset
      exact cons_subset.mpr ⟨hy, ih hsubset⟩
  | literal l =>
    obtain ⟨w, -, rfl⟩ := map_eq_some_iff.mp h
    exact nil_subset _
  | _ => cases h

lemma argumentsReferenced_append (es es' : List Expression) :
    argumentsReferencedVariables (es ++ es') =
      argumentsReferencedVariables es ++ argumentsReferencedVariables es' := by
  induction es with
  | nil => rfl
  | cons e es ih =>
    rw [cons_append, argumentsReferencedVariables, ih, argumentsReferencedVariables,
      append_assoc]

lemma referencedVariables_rewriteArguments (hμ : μ.NamesIn Γ.locals xs)
    {es' : List Expression} (hvalid : argumentsValid dialect Γ es)
    (h : rewriteFunctionCallArguments μ es = some es') : argumentsReferencedVariables es' ⊆ xs := by
  induction es generalizing es' with
  | nil =>
    cases h
    exact nil_subset _
  | cons e es ih =>
    rw [argumentsValid, and_eq_true, and_eq_true] at hvalid
    obtain ⟨us, hus, h⟩ := bind_eq_some_iff.mp h
    obtain ⟨vs, hvs, rfl⟩ := map_eq_some_iff.mp h
    rw [argumentsReferenced_append]
    exact append_subset.mpr
      ⟨referenced_expandValue hμ hvalid.1.2 hus, ih hvalid.1.1 hvs⟩

lemma referenced_visit (hμ : μ.NamesIn Γ.locals xs) (hidentifier : ∀ x, e ≠ .identifier x)
    (hvalid : e.valid dialect Γ) {e' : Expression} (h : visit μ e = some e') :
    e'.referencedVariables ⊆ xs := by
  cases e with
  | identifier x => exact absurd rfl (hidentifier x)
  | literal l =>
    cases h
    exact nil_subset _
  | functionalInstruction i es =>
    rw [valid_instruction, and_eq_true] at hvalid
    obtain ⟨es', hes, rfl⟩ := map_eq_some_iff.mp h
    exact referencedVariables_rewriteArguments hμ hvalid.2 hes
  | functionCall f es =>
    rw [valid_functionCall, and_eq_true] at hvalid
    obtain ⟨es', hes, rfl⟩ := map_eq_some_iff.mp h
    exact referencedVariables_rewriteArguments hμ hvalid.2 hes

lemma rewriteIdentifierList_subset (hμ : μ.NamesIn ys xs)
    (h : rewriteIdentifierList μ ys = some zs) : zs ⊆ xs := by
  induction ys generalizing zs with
  | nil =>
    cases h
    exact nil_subset _
  | cons y ys ih =>
    obtain ⟨us, hus, h⟩ := bind_eq_some_iff.mp h
    obtain ⟨vs, hvs, rfl⟩ := map_eq_some_iff.mp h
    exact append_subset.mpr ⟨hμ y mem_cons_self us hus,
      ih (fun x hx => hμ x (mem_cons_of_mem _ hx)) hvs⟩

lemma namesIn_rewriteIdentifierList (h : rewriteIdentifierList μ ys = some zs) :
    μ.NamesIn ys zs := by
  induction ys generalizing zs with
  | nil => exact nofun
  | cons y ys ih =>
    obtain ⟨us, hus, h⟩ := bind_eq_some_iff.mp h
    obtain ⟨vs, hvs, rfl⟩ := map_eq_some_iff.mp h
    intro x hx ws hws
    rcases mem_cons.mp hx with rfl | hx
    · obtain rfl := Option.some.inj (hus.symm.trans hws)
      exact subset_append_left _ _
    · exact subset_append_of_subset_right _ (ih hvs x hx ws hws)

lemma identifiersDeclared_assignEach (hys : ys ⊆ xs) (hes : argumentsReferencedVariables es ⊆ xs) :
    identifiersDeclared xs (assignEach ys es) := by
  induction ys generalizing es with
  | nil => rfl
  | cons y ys ih =>
    cases es with
    | nil => rfl
    | cons e es =>
      obtain ⟨hy, hys⟩ := cons_subset.mp hys
      obtain ⟨he, hes⟩ := append_subset.mp hes
      refine Bool.and_eq_true_iff.mpr ⟨Bool.and_eq_true_iff.mpr ⟨?_, ?_⟩, ih hys hes⟩
      · exact decide_eq_true (cons_subset.mpr ⟨hy, nil_subset _⟩)
      · exact decide_eq_true he

lemma identifiersDeclared_declareEach (hes : argumentsReferencedVariables es ⊆ xs)
    (hlength : ys.length = es.length) :
    identifiersDeclared xs (declareEach ys es) ∧
      (declareEach ys es).flatMap (·.declares) = ys := by
  induction ys generalizing es xs with
  | nil => exact ⟨rfl, rfl⟩
  | cons y ys ih =>
    cases es with
    | nil => cases hlength
    | cons e es =>
      obtain ⟨he, hes⟩ := append_subset.mp hes
      obtain ⟨hdeclared, hdeclares⟩ := ih
        (subset_cons_of_subset _ hes) (Nat.succ.inj hlength)
      refine ⟨Bool.and_eq_true_iff.mpr ⟨decide_eq_true he, hdeclared⟩, ?_⟩
      exact congrArg (y :: ·) hdeclares

end

/-! ### Declared identifiers of statements -/

section

variable {dialect : Dialect} {μ : Mapping}

variable {e : Expression}

lemma length_expandValue (hμ : μ.Proper) (h : expandValue μ e = some es) : es.length = 4 := by
  cases e with
  | identifier x =>
    obtain ⟨xs, hxs, rfl⟩ := map_eq_some_iff.mp h
    rw [length_map, hμ.length x xs hxs]
  | literal l =>
    obtain ⟨w, -, rfl⟩ := map_eq_some_iff.mp h
    rfl
  | _ => cases h

variable {Γ : Scope}

lemma ne_identifier_of_returns (h : e.returns dialect Γ = 0) : ∀ x, e ≠ .identifier x := by
  rintro x rfl
  cases h

lemma identifiersDeclared_transformAssignment {ts : List Statement} (hΓ : μ.NamesIn Γ.locals xs)
    (hvalid : (Statement.assignment ys e).valid dialect Γ)
    (h : transformAssignment μ ys e = some ts) : identifiersDeclared xs ts := by
  rw [valid_assignment, and_eq_true, and_eq_true, all_eq_true] at hvalid
  obtain ⟨⟨hys, hvalid⟩, -⟩ := hvalid
  have hΓ' : μ.NamesIn ys xs := fun x hx => hΓ x (of_decide_eq_true (hys x hx))
  have hcall (hidentifier : ∀ x, e ≠ .identifier x) (h : ((visit μ e).bind fun e =>
      (rewriteIdentifierList μ ys).map fun xs => [Statement.assignment xs e]) = some ts) :
      identifiersDeclared xs ts = true := by
    obtain ⟨e', he, h⟩ := bind_eq_some_iff.mp h
    obtain ⟨zs, hzs, rfl⟩ := map_eq_some_iff.mp h
    refine Bool.and_eq_true_iff.mpr ⟨Bool.and_eq_true_iff.mpr ⟨?_, ?_⟩, rfl⟩
    · exact decide_eq_true (rewriteIdentifierList_subset hΓ' hzs)
    · exact decide_eq_true (referenced_visit hΓ hidentifier hvalid he)
  unfold transformAssignment at h
  split at h
  · exact hcall (by rintro _ ⟨⟩) h
  · exact hcall (by rintro _ ⟨⟩) h
  all_goals
    split at h
    · obtain ⟨es, hes, h⟩ := bind_eq_some_iff.mp h
      obtain ⟨zs, hzs, rfl⟩ := map_eq_some_iff.mp h
      exact identifiersDeclared_assignEach (hΓ' _ mem_cons_self zs hzs)
        (referenced_expandValue hΓ hvalid hes)
    · cases h

lemma identifiersDeclared_widenDeclaration {ys : List TypedName} {ts : List Statement}
    (hμ : μ.Proper) (hΓ : μ.NamesIn Γ.locals xs)
    (hvalid : (Statement.variableDeclaration ys value).valid dialect Γ)
    (h : widenDeclaration μ ys value = some ts) :
    identifiersDeclared xs ts ∧
      μ.NamesIn (ys.map (·.name)) (ts.flatMap (·.declares)) := by
  have hnames {zs : List TypedName} (hzs : widenNames μ ys = some zs) (value : Option Expression) :
      μ.NamesIn (ys.map (·.name)) ([Statement.variableDeclaration zs value].flatMap
        (·.declares)) := by
    rw [flatMap_singleton]
    exact namesIn_rewriteIdentifierList (widenNames_eq_some hzs)
  rw [valid_declaration, and_eq_true] at hvalid
  unfold widenDeclaration at h
  split at h
  · obtain ⟨zs, hzs, rfl⟩ := map_eq_some_iff.mp h
    exact ⟨rfl, hnames hzs _⟩
  · next e =>
    have hvalue := (Bool.and_eq_true_iff.mp hvalid.2).1
    have hcall (hidentifier : ∀ x, e ≠ .identifier x) (h : ((visit μ e).bind fun e =>
        (widenNames μ ys).map fun xs => [Statement.variableDeclaration xs (some e)]) = some ts) :
        identifiersDeclared xs ts = true ∧
          μ.NamesIn (ys.map (·.name)) (ts.flatMap (·.declares)) := by
      obtain ⟨e', he, h⟩ := bind_eq_some_iff.mp h
      obtain ⟨zs, hzs, rfl⟩ := map_eq_some_iff.mp h
      refine ⟨Bool.and_eq_true_iff.mpr ⟨?_, rfl⟩, hnames hzs _⟩
      exact decide_eq_true (referenced_visit hΓ hidentifier hvalue he)
    split at h
    · exact hcall (by rintro _ ⟨⟩) h
    · exact hcall (by rintro _ ⟨⟩) h
    all_goals
      split at h
      · next y =>
        obtain ⟨es, hes, h⟩ := bind_eq_some_iff.mp h
        obtain ⟨zs, hzs, rfl⟩ := map_eq_some_iff.mp h
        have hlength : zs.length = es.length :=
          (hμ.length _ zs hzs).trans (length_expandValue hμ hes).symm
        obtain ⟨hdeclared, hdeclares⟩ := identifiersDeclared_declareEach
          (referenced_expandValue hΓ (Bool.and_eq_true_iff.mp hvalid.2).1 hes) hlength
        refine ⟨hdeclared, fun x hx us hus => ?_⟩
        obtain rfl := mem_singleton.mp hx
        obtain rfl := Option.some.inj (hzs.symm.trans hus)
        rw [hdeclares]
        exact List.Subset.refl _
      · cases h

lemma Mapping.NamesIn.append {ys' zs' : List YulString} (h : μ.NamesIn ys zs)
    (h' : μ.NamesIn ys' zs') : μ.NamesIn (ys ++ ys') (zs ++ zs') := by
  intro x hx us hus
  rcases mem_append.mp hx with hx | hx
  · exact subset_append_of_subset_left _ (h x hx us hus)
  · exact subset_append_of_subset_right _ (h' x hx us hus)

lemma namesIn_widenNames {ys zs : List TypedName} (h : widenNames μ ys = some zs) :
    μ.NamesIn (ys.map (·.name)) (zs.map (·.name)) :=
  namesIn_rewriteIdentifierList (widenNames_eq_some h)

mutual

lemma identifiersDeclared_widenStatement (hμ : μ.Proper) (s : Statement) {Γ : Scope}
    {xs : List YulString} {ts : List Statement} (hΓ : μ.NamesIn Γ.locals xs)
    (hvalid : s.valid dialect Γ) (hs : s.every loopConditionFits)
    (h : widenStatement μ s = some ts) :
    identifiersDeclared xs ts ∧ μ.NamesIn s.declares (ts.flatMap (·.declares)) := by
  match s with
  | .expressionStatement e =>
    rw [valid_expression, and_eq_true, decide_eq_true_eq] at hvalid
    obtain ⟨e', he, rfl⟩ := map_eq_some_iff.mp h
    refine ⟨Bool.and_eq_true_iff.mpr ⟨decide_eq_true ?_, rfl⟩, nofun⟩
    exact referenced_visit hΓ (ne_identifier_of_returns hvalid.2) hvalid.1 he
  | .assignment ys e => exact ⟨identifiersDeclared_transformAssignment hΓ hvalid h, nofun⟩
  | .variableDeclaration ys value => exact identifiersDeclared_widenDeclaration hμ hΓ hvalid h
  | .functionDefinition f ps rs body =>
    rw [valid_function, and_eq_true] at hvalid
    obtain ⟨ps', hps, h⟩ := bind_eq_some_iff.mp h
    obtain ⟨rs', hrs, h⟩ := bind_eq_some_iff.mp h
    obtain ⟨body', hbody, rfl⟩ := map_eq_some_iff.mp h
    have hparams := (namesIn_widenNames hps).append (namesIn_widenNames hrs)
    refine ⟨Bool.and_eq_true_iff.mpr ⟨?_, rfl⟩, nofun⟩
    exact (identifiersDeclared_widen hμ body
      (by rwa [locals_register, map_append]) hvalid.2
      (every_function.mp hs).2 hbody).1
  | .if c body =>
    rw [valid_if, and_eq_true, and_eq_true] at hvalid
    obtain ⟨c', hc, h⟩ := bind_eq_some_iff.mp h
    obtain ⟨body', hbody, rfl⟩ := map_eq_some_iff.mp h
    obtain ⟨es, hes, rfl⟩ := map_eq_some_iff.mp hc
    refine ⟨Bool.and_eq_true_iff.mpr ⟨Bool.and_eq_true_iff.mpr ⟨decide_eq_true ?_, ?_⟩, rfl⟩, nofun⟩
    · exact referenced_expandValue hΓ hvalid.1.1 hes
    · exact (identifiersDeclared_widen hμ body (by rwa [locals_register]) hvalid.2
        (every_if.mp hs).2 hbody).1
  | .switch e cases => cases h
  | .forLoop pre c post body =>
    simp only [valid_forLoop, and_eq_true] at hvalid
    obtain ⟨⟨⟨⟨hvpre, hvc⟩, -⟩, hvpost⟩, hvbody⟩ := hvalid
    obtain ⟨hfits, hspre, hspost, hsbody⟩ := every_forLoop.mp hs
    obtain ⟨pre', hpre, h⟩ := bind_eq_some_iff.mp h
    obtain ⟨c', hc, h⟩ := bind_eq_some_iff.mp h
    obtain ⟨post', hpost, h⟩ := bind_eq_some_iff.mp h
    obtain ⟨body', hbody, rfl⟩ := map_eq_some_iff.mp h
    obtain ⟨hdpre, hnames⟩ := identifiersDeclared_widen hμ pre (Γ := Γ.enter .forLoopPre) hΓ hvpre
      hspre hpre
    have hΓ' : μ.NamesIn (Γ.declare (pre.flatMap (·.declares))).locals
        (pre'.flatMap (·.declares) ++ xs) := hnames.append hΓ
    have hidentifier : ∀ x, c ≠ .identifier x := by
      rintro x rfl
      cases hfits
    refine ⟨?_, nofun⟩
    simp only [identifiersDeclared, Statement.identifiersDeclared, and_eq_true,
      decide_eq_true_eq, and_true]
    refine ⟨⟨⟨hdpre, referenced_visit hΓ' hidentifier hvc hc⟩, ?_⟩, ?_⟩
    · exact (identifiersDeclared_widen hμ post (by rwa [locals_register]) hvpost hspost
        hpost).1
    · exact (identifiersDeclared_widen hμ body (by rwa [locals_register]) hvbody hsbody
        hbody).1
  | .break | .continue =>
    cases h
    exact ⟨rfl, nofun⟩
  | .block ss =>
    rw [valid_block] at hvalid
    obtain ⟨ss', hss, rfl⟩ := map_eq_some_iff.mp h
    refine ⟨Bool.and_eq_true_iff.mpr ⟨?_, rfl⟩, nofun⟩
    exact (identifiersDeclared_widen hμ ss (by rwa [locals_register]) hvalid
      (every_block.mp hs).2 hss).1

lemma identifiersDeclared_widen (hμ : μ.Proper) (ss : List Statement) {Γ : Scope}
    {xs : List YulString} {ts : List Statement} (hΓ : μ.NamesIn Γ.locals xs)
    (hvalid : statementsValid dialect Γ ss)
    (hss : everyStatement loopConditionFits ss) (h : widen μ ss = some ts) :
    identifiersDeclared xs ts ∧
      μ.NamesIn (ss.flatMap (·.declares)) (ts.flatMap (·.declares)) := by
  match ss with
  | [] =>
    cases h
    exact ⟨rfl, nofun⟩
  | s :: ss =>
    rw [statementsValid, and_eq_true] at hvalid
    rw [everyStatement_cons] at hss
    obtain ⟨us, hus, h⟩ := bind_eq_some_iff.mp h
    obtain ⟨vs, hvs, rfl⟩ := map_eq_some_iff.mp h
    obtain ⟨hdeclared, hnames⟩ := identifiersDeclared_widenStatement hμ s hΓ hvalid.1 hss.1 hus
    have hΓ' : μ.NamesIn (Γ.declare s.declares).locals (us.flatMap (·.declares) ++ xs) :=
      hnames.append hΓ
    obtain ⟨hdeclared', hnames'⟩ := identifiersDeclared_widen hμ ss hΓ' hvalid.2 hss.2 hvs
    rw [flatMap_append]
    exact ⟨identifiersDeclared_append hdeclared hdeclared', hnames.append hnames'⟩

end

end

/-! ### Statements -/

/-- Statements on which the step runs into no assertion. -/
def isTransformable (s : Statement) : Bool :=
  s.isSplit && !s.isSwitch && loopConditionFits s

section

variable {dialect : Dialect}

mutual

lemma transformStatement_spec (s : Statement) {Γ : Scope} {S : State}
    (hS : S.variableMapping.Covers Γ.locals) (hvalid : s.valid dialect Γ)
    (hs : s.every isTransformable) (hnodup : s.names.Nodup)
    (hnone : ∀ x ∈ s.names, S.variableMapping x = none) :
    ∃ ts S', transformStatement S s = some (ts, S') ∧ Step S S' s.names s.declares ∧
      ∀ μ, S'.variableMapping.Le μ → widenStatement μ s = some ts := by
  match s with
  | .expressionStatement e =>
    rw [valid_expression, and_eq_true] at hvalid
    obtain ⟨e', he, hle⟩ := visit_spec hS
      (Bool.and_eq_true_iff.mp (Bool.and_eq_true_iff.mp hs).1).1 hvalid.1
    refine ⟨[.expressionStatement e'], S, ?_, .refl S, fun μ hμ => ?_⟩
    · rw [transformStatement, he, map_some]
    · rw [widenStatement, hle μ hμ, map_some]
  | .assignment xs e =>
    obtain ⟨ts, hts, hle⟩ := transformAssignment_spec hS
      (Bool.and_eq_true_iff.mp (Bool.and_eq_true_iff.mp hs).1).1 hvalid
    refine ⟨ts, S, ?_, .refl S, hle⟩
    rw [transformStatement, hts, map_some]
  | .variableDeclaration xs value =>
    exact transformDeclaration_spec hS
      (Bool.and_eq_true_iff.mp (Bool.and_eq_true_iff.mp hs).1).1 hvalid hnone
  | .functionDefinition f ps rs body =>
    rw [valid_function, and_eq_true] at hvalid
    rw [Statement.names, cons_append, cons_append] at hnodup hnone
    obtain ⟨hnodup, hbody, hdisjoint⟩ := nodup_append'.mp hnodup.of_cons
    obtain ⟨hps, hrs, hparams⟩ := nodup_append'.mp hnodup
    have hnone' := fun x hx => hnone x (mem_cons_of_mem _ hx)
    rw [forall_mem_append, forall_mem_append] at hnone'
    obtain ⟨⟨hnps, hnrs⟩, hnbody⟩ := hnone'
    obtain ⟨ps', S₁, hps', hstep₁, hwiden₁⟩ := rewriteVarDeclList_spec
      (fun x hx => hnps x.name (mem_map_of_mem hx)) hps
    obtain ⟨rs', S₂, hrs', hstep₂, hwiden₂⟩ := rewriteVarDeclList_spec (S := S₁)
      (fun x hx => hstep₁.eq_none (hnrs x.name (mem_map_of_mem hx))
        fun hx' => hparams hx' (mem_map_of_mem hx)) hrs
    have hstep := hstep₁.trans hstep₂
    obtain ⟨body', S₃, hbody', hstep₃, hwiden₃⟩ := transform_spec body (S := S₂)
      (by rw [locals_register, map_append]; exact hstep.declared) hvalid.2
      (every_function.mp hs).2 hbody
      fun x hx => hstep.eq_none (hnbody x hx) fun hx' => hdisjoint hx' hx
    refine ⟨[.functionDefinition f ps' rs' body'], S₃, ?_,
      (hstep.trans hstep₃).mono (subset_cons_self _ _) nofun, fun μ hμ => ?_⟩
    · rw [transformStatement, hps', bind_some, hrs', bind_some, hbody',
        map_some]
    · have hμ₂ := hstep₃.le.trans hμ
      rw [widenStatement, hwiden₁ μ (hstep₂.le.trans hμ₂), bind_some, hwiden₂ μ hμ₂,
        bind_some, hwiden₃ μ hμ, map_some]
  | .if c body =>
    rw [valid_if, and_eq_true, and_eq_true] at hvalid
    obtain ⟨hc, hbody⟩ := every_if.mp hs
    obtain ⟨es, hes, hle⟩ := expandValue_spec hS
      (Bool.and_eq_true_iff.mp (Bool.and_eq_true_iff.mp hc).1).1 hvalid.1.1
    obtain ⟨ts, S', hts, hstep, hwiden⟩ := transform_spec body
      (by rwa [locals_register]) hvalid.2 hbody hnodup hnone
    refine ⟨[.if (.functionCall "or_bool" es) ts], S', ?_,
      hstep.mono (List.Subset.refl _) nofun, fun μ hμ => ?_⟩
    · rw [transformStatement, widenCondition, hes, map_some, bind_some, hts,
        map_some]
    · rw [widenStatement, widenCondition, hle μ (hstep.le.trans hμ), map_some,
        bind_some, hwiden μ hμ, map_some]
  | .switch e cases =>
    have hswitch := (Bool.and_eq_true_iff.mp (Bool.and_eq_true_iff.mp
      (every_switch.mp hs).1).1).2
    cases hswitch
  | .forLoop pre c post body =>
    simp only [valid_forLoop, and_eq_true] at hvalid
    obtain ⟨⟨⟨⟨hpre, hc⟩, -⟩, hpost⟩, hbody⟩ := hvalid
    obtain ⟨hfits, hspre, hspost, hsbody⟩ := every_forLoop.mp hs
    rw [Statement.names] at hnodup hnone
    obtain ⟨hnodup, hnpost, hdisjoint⟩ := nodup_append'.mp hnodup
    obtain ⟨hnpre, hnbody, hdisjoint'⟩ := nodup_append'.mp hnodup
    rw [forall_mem_append, forall_mem_append] at hnone
    obtain ⟨⟨hpre₀, hbody₀⟩, hpost₀⟩ := hnone
    obtain ⟨pre', S₁, hpre', hstep₁, hwiden₁⟩ := transform_spec pre (Γ := Γ.enter .forLoopPre)
      hS hpre hspre hnpre hpre₀
    have hS₁ : S₁.variableMapping.Covers (Γ.declare (pre.flatMap (·.declares))).locals := by
      intro x hx
      rcases mem_append.mp hx with hx | hx
      · exact hstep₁.declared x hx
      · exact hstep₁.le.isSome (hS x hx)
    have hcsplit : c.isSplit = true := by
      cases c with
      | literal l => rfl
      | _ => cases (Bool.and_eq_true_iff.mp hfits).2
    obtain ⟨c', hc', hle⟩ := visit_spec hS₁ hcsplit hc
    obtain ⟨post', S₂, hpost', hstep₂, hwiden₂⟩ := transform_spec post
      (by rwa [locals_register]) hpost hspost hnpost
      fun x hx => hstep₁.eq_none (hpost₀ x hx) fun hx' =>
        hdisjoint (mem_append_left _ hx') hx
    obtain ⟨body', S₃, hbody', hstep₃, hwiden₃⟩ := transform_spec body (S := S₂)
      (by rw [locals_register]; exact hS₁.le hstep₂.le) hbody hsbody hnbody
      fun x hx => hstep₂.eq_none (hstep₁.eq_none (hbody₀ x hx) fun hx' => hdisjoint' hx' hx)
        fun hx' => hdisjoint (mem_append_right _ hx) hx'
    refine ⟨[.forLoop pre' c' post' body'], S₃, ?_,
      ((hstep₁.trans hstep₂).trans hstep₃).mono ?_ nofun, fun μ hμ => ?_⟩
    · rw [transformStatement, hpre', bind_some, hc', bind_some, hpost',
        bind_some, hbody', map_some]
    · intro x
      simp only [Statement.names, mem_append]
      rintro ((hx | hx) | hx)
      · exact .inl (.inl hx)
      · exact .inr hx
      · exact .inl (.inr hx)
    · have hμ₂ := hstep₃.le.trans hμ
      have hμ₁ := hstep₂.le.trans hμ₂
      rw [widenStatement, hwiden₁ μ hμ₁, bind_some, hle μ hμ₁, bind_some,
        hwiden₂ μ hμ₂, bind_some, hwiden₃ μ hμ, map_some]
  | .break => exact ⟨[.break], S, rfl, .refl S, fun _ _ => rfl⟩
  | .continue => exact ⟨[.continue], S, rfl, .refl S, fun _ _ => rfl⟩
  | .block ss =>
    rw [valid_block] at hvalid
    obtain ⟨ts, S', hts, hstep, hwiden⟩ := transform_spec ss
      (by rwa [locals_register]) hvalid (every_block.mp hs).2 hnodup hnone
    refine ⟨[.block ts], S', ?_, hstep.mono (List.Subset.refl _) nofun, fun μ hμ => ?_⟩
    · rw [transformStatement, hts, map_some]
    · rw [widenStatement, hwiden μ hμ, map_some]

lemma transform_spec (ss : List Statement) {Γ : Scope} {S : State}
    (hS : S.variableMapping.Covers Γ.locals) (hvalid : statementsValid dialect Γ ss)
    (hss : everyStatement isTransformable ss) (hnodup : (namesOfStatements ss).Nodup)
    (hnone : ∀ x ∈ namesOfStatements ss, S.variableMapping x = none) :
    ∃ ts S', transform S ss = some (ts, S') ∧
      Step S S' (namesOfStatements ss) (ss.flatMap (·.declares)) ∧
      ∀ μ, S'.variableMapping.Le μ → widen μ ss = some ts := by
  match ss with
  | [] => exact ⟨[], S, rfl, .refl S, fun _ _ => rfl⟩
  | s :: ss =>
    rw [statementsValid, and_eq_true] at hvalid
    rw [everyStatement_cons] at hss
    rw [namesOfStatements, nodup_append'] at hnodup
    rw [namesOfStatements, forall_mem_append] at hnone
    obtain ⟨ts, S₁, hts, hstep, hwiden⟩ := transformStatement_spec s hS hvalid.1 hss.1 hnodup.1
      hnone.1
    have hS₁ : S₁.variableMapping.Covers (Γ.declare s.declares).locals := by
      intro x hx
      rcases mem_append.mp hx with hx | hx
      · exact hstep.declared x hx
      · exact hstep.le.isSome (hS x hx)
    obtain ⟨us, S₂, hus, hstep', hwiden'⟩ := transform_spec ss hS₁ hvalid.2 hss.2 hnodup.2.1
      fun x hx => hstep.eq_none (hnone.2 x hx) fun hx' => hnodup.2.2 hx' hx
    refine ⟨ts ++ us, S₂, ?_, hstep.trans hstep', fun μ hμ => ?_⟩
    · rw [transform, hts, bind_some, hus, map_some]
    · rw [widen, hwiden μ (hstep'.le.trans hμ), bind_some, hwiden' μ hμ, map_some]

end

end

end WordSizeTransform

end Yul
