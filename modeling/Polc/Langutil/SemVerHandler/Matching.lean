import Polc.Langutil.SemVerHandler
import Mathlib.Data.Fin.VecNotation

/-!
# Matching of versions

`SemVerMatchExpression::matches`, and the versions that match expressions stand for.
-/

namespace Langutil

/-- `SemVerVersion` -/
structure SemVerVersion where
  numbers : Fin 3 → Unsigned
  prerelease : List Char
  deriving DecidableEq

def SemVerVersion.isPrerelease (version : SemVerVersion) : Bool := !version.prerelease.isEmpty

namespace MatchComponent

/-- The number of a wildcard: `unsigned(-1)`. -/
def wildcard : Unsigned := -1

/-- The comparison at one more level, as long as there is no difference: the difference as a signed
number, and whether anything was compared. -/
def compareLevel (component : MatchComponent) (version : SemVerVersion) (r : ℤ × Bool) (i : Fin 3) :
    ℤ × Bool :=
  if r.1 = 0 then
    if component.numbers i ≠ wildcard then
      ((version.numbers i - component.numbers i).toInt, true)
    else r
  else r

def compareVersion (component : MatchComponent) (version : SemVerVersion) : ℤ :=
  let r := ((List.finRange 3).take component.levelsPresent).foldl
    (compareLevel component version) (0, false)
  if r.1 = 0 ∧ version.isPrerelease = true ∧ r.2 = true then -1 else r.1

/-- The prefixes of comparisons; other prefixes fail an assertion. -/
def matchesComparison (component : MatchComponent) (version : SemVerVersion) : Bool :=
  let cmp := component.compareVersion version
  match component.semVerPrefix with
  | .assign => cmp = 0
  | .lessThan => cmp < 0
  | .lessThanOrEqual => cmp ≤ 0
  | .greaterThan => 0 < cmp
  | .greaterThanOrEqual => 0 ≤ cmp
  | _ => false

def matchesVersion (component : MatchComponent) (version : SemVerVersion) : Bool :=
  match component.semVerPrefix with
  | .bitNot =>
    { component with semVerPrefix := .greaterThanOrEqual }.matchesComparison version &&
      { component with
        semVerPrefix := .lessThanOrEqual
        levelsPresent := if 2 ≤ component.levelsPresent then 2 else 1 }.matchesComparison version
  | .bitXor =>
    { component with semVerPrefix := .greaterThanOrEqual }.matchesComparison version &&
      { component with
        semVerPrefix := .lessThanOrEqual
        levelsPresent := if component.numbers 0 = 0 then 2 else 1 }.matchesComparison version
  | _ => component.matchesComparison version

end MatchComponent

def Conjunction.matchesVersion (conjunction : Conjunction) (version : SemVerVersion) : Bool :=
  conjunction.components.all (·.matchesVersion version)

def SemVerMatchExpression.isValid (expression : SemVerMatchExpression) : Bool :=
  !expression.disjunction.isEmpty

def SemVerMatchExpression.matchesVersion (expression : SemVerMatchExpression)
    (version : SemVerVersion) : Bool :=
  if !expression.isValid then false else expression.disjunction.any (·.matchesVersion version)

/-! ### Versions in order -/

/-- The numbers of a version and of a component at some levels. -/
abbrev Levels := List (Unsigned × Unsigned)

namespace Levels

/-- The first level at which the numbers differ. -/
def firstDifference (levels : Levels) : Option (Unsigned × Unsigned) :=
  levels.find? fun p => p.1 ≠ p.2

/-- The place of a version, where the first level decides at which there is a difference. A
pre-release whose levels are those of the component comes before them. -/
def position (prerelease : Bool) (levels : Levels) : Ordering :=
  match levels.firstDifference with
  | some (a, b) => if a < b then .lt else .gt
  | none => if prerelease = true ∧ levels ≠ [] then .lt else .eq

/-- The difference as the code computes it. -/
def difference (prerelease : Bool) (levels : Levels) : ℤ :=
  match levels.firstDifference with
  | some (a, b) => (a - b).toInt
  | none => if prerelease = true ∧ levels ≠ [] then -1 else 0

/-- The difference of the numbers has the wrong sign as a signed number. -/
def Wraps (a b : Unsigned) : Prop := b.toNat + 2 ^ 31 ≤ a.toNat ∨ a.toNat + 2 ^ 31 < b.toNat

instance (a b : Unsigned) : Decidable (Wraps a b) := inferInstanceAs (Decidable (_ ∨ _))

/-- The first difference wraps. -/
def Wrap (levels : Levels) : Prop := ∃ p, levels.firstDifference = some p ∧ Wraps p.1 p.2

variable {levels levels' : Levels} (prerelease : Bool)

lemma difference_false : levels.difference false =
    match levels.firstDifference with
    | some (a, b) => (a - b).toInt
    | none => 0 := by
  rw [difference]
  simp

lemma ne_of_firstDifference {a b : Unsigned} (h : levels.firstDifference = some (a, b)) :
    a ≠ b := by
  have hp := List.find?_some h
  exact of_decide_eq_true hp

lemma toInt_sub_ne_zero {a b : Unsigned} (h : a ≠ b) : (a - b).toInt ≠ 0 := by
  intro hzero
  rw [← BitVec.toInt_zero (w := 32)] at hzero
  exact h (sub_eq_zero.mp (BitVec.toInt_inj.mp hzero))

lemma difference_of_pair (levels : Levels) (prerelease : Bool) :
    (if levels.difference false = 0 ∧ prerelease ∧ (false || !levels.isEmpty) = true then -1
      else levels.difference false) = levels.difference prerelease := by
  rw [difference_false, difference]
  cases hfirst : levels.firstDifference with
  | none => simp
  | some p =>
    have hne := toInt_sub_ne_zero (ne_of_firstDifference hfirst)
    exact if_neg fun h => hne h.1

lemma toInt_sub_neg_iff {a b : Unsigned} (h : a ≠ b) :
    (a - b).toInt < 0 ↔ (a < b ↔ ¬ Wraps a b) := by
  have hne : a.toNat ≠ b.toNat := fun heq => h (BitVec.eq_of_toNat_eq heq)
  have ha := a.isLt
  have hb := b.isLt
  rw [BitVec.toInt_eq_toNat_cond, BitVec.toNat_sub, BitVec.lt_def, Wraps]
  generalize a.toNat = x at *
  generalize b.toNat = y at *
  have hmod : (2 ^ 32 - y + x) % 2 ^ 32 = if y ≤ x then x - y else 2 ^ 32 - y + x := by
    split_ifs with hle
    · rw [show 2 ^ 32 - y + x = x - y + 2 ^ 32 by omega, Nat.add_mod_right]
      exact Nat.mod_eq_of_lt (by omega)
    · exact Nat.mod_eq_of_lt (by omega)
  rw [hmod]
  split_ifs <;> omega

lemma cases_of_not_wrap (h : ¬ levels.Wrap) :
    (levels.difference prerelease < 0 ∧ levels.position prerelease = .lt) ∨
    (levels.difference prerelease = 0 ∧ levels.position prerelease = .eq) ∨
    (0 < levels.difference prerelease ∧ levels.position prerelease = .gt) := by
  rw [difference, position]
  cases hfirst : levels.firstDifference with
  | none =>
    by_cases hpre : prerelease = true ∧ levels ≠ []
    · exact .inl ⟨by simp [hpre], if_pos hpre⟩
    · exact .inr (.inl ⟨if_neg hpre, if_neg hpre⟩)
  | some p =>
    obtain ⟨a, b⟩ := p
    have hne : a ≠ b := ne_of_firstDifference hfirst
    have hwraps : ¬ Wraps a b := fun hwraps => h ⟨_, hfirst, hwraps⟩
    have hzero := toInt_sub_ne_zero hne
    have hsign := toInt_sub_neg_iff hne
    by_cases hlt : a < b
    · exact .inl ⟨hsign.mpr (iff_of_true hlt hwraps), if_pos hlt⟩
    · refine .inr (.inr ⟨?_, if_neg hlt⟩)
      have hnot : ¬ (a - b).toInt < 0 := fun hneg => hlt ((hsign.mp hneg).mpr hwraps)
      change 0 < (a - b).toInt
      omega

lemma cases_of_wrap (h : levels.Wrap) :
    (levels.difference prerelease < 0 ∧ levels.position prerelease = .gt) ∨
    (0 < levels.difference prerelease ∧ levels.position prerelease = .lt) := by
  obtain ⟨⟨a, b⟩, hfirst, hwraps⟩ := h
  change Wraps a b at hwraps
  have hne : a ≠ b := ne_of_firstDifference hfirst
  have hzero := toInt_sub_ne_zero hne
  have hsign := toInt_sub_neg_iff hne
  rw [difference, position, hfirst]
  change ((a - b).toInt < 0 ∧ (if a < b then Ordering.lt else .gt) = .gt) ∨
    (0 < (a - b).toInt ∧ (if a < b then Ordering.lt else .gt) = .lt)
  by_cases hlt : a < b
  · have hnot : ¬ (a - b).toInt < 0 := fun hneg => (hsign.mp hneg).mp hlt hwraps
    exact .inr ⟨by omega, if_pos hlt⟩
  · exact .inl ⟨hsign.mpr (iff_of_false hlt (not_not.mpr hwraps)), if_neg hlt⟩

lemma eq_iff : levels.difference prerelease = 0 ↔ levels.position prerelease = .eq := by
  by_cases h : levels.Wrap
  · rcases cases_of_wrap prerelease h with ⟨hd, hp⟩ | ⟨hd, hp⟩
    · exact iff_of_false hd.ne (by rw [hp]; decide)
    · exact iff_of_false hd.ne' (by rw [hp]; decide)
  · rcases cases_of_not_wrap prerelease h with ⟨hd, hp⟩ | ⟨hd, hp⟩ | ⟨hd, hp⟩
    · exact iff_of_false hd.ne (by rw [hp]; decide)
    · exact iff_of_true hd hp
    · exact iff_of_false hd.ne' (by rw [hp]; decide)

lemma neg_iff :
    (levels.difference prerelease < 0 ↔ levels.position prerelease = .lt) ↔ ¬ levels.Wrap := by
  by_cases h : levels.Wrap
  · rw [iff_false_right (not_not.mpr h)]
    rcases cases_of_wrap prerelease h with ⟨hd, hp⟩ | ⟨hd, hp⟩
    · exact fun hiff => absurd (hiff.mp hd) (by rw [hp]; decide)
    · exact fun hiff => absurd (hiff.mpr hp) (by omega)
  · rw [iff_true_right h]
    rcases cases_of_not_wrap prerelease h with ⟨hd, hp⟩ | ⟨hd, hp⟩ | ⟨hd, hp⟩
    · exact iff_of_true hd hp
    · exact iff_of_false (by omega) (by rw [hp]; decide)
    · exact iff_of_false (by omega) (by rw [hp]; decide)

lemma pos_iff :
    (0 < levels.difference prerelease ↔ levels.position prerelease = .gt) ↔ ¬ levels.Wrap := by
  by_cases h : levels.Wrap
  · rw [iff_false_right (not_not.mpr h)]
    rcases cases_of_wrap prerelease h with ⟨hd, hp⟩ | ⟨hd, hp⟩
    · exact fun hiff => absurd (hiff.mpr hp) (by omega)
    · exact fun hiff => absurd (hiff.mp hd) (by rw [hp]; decide)
  · rw [iff_true_right h]
    rcases cases_of_not_wrap prerelease h with ⟨hd, hp⟩ | ⟨hd, hp⟩ | ⟨hd, hp⟩
    · exact iff_of_false (by omega) (by rw [hp]; decide)
    · exact iff_of_false (by omega) (by rw [hp]; decide)
    · exact iff_of_true hd hp

lemma nonneg_iff :
    (0 ≤ levels.difference prerelease ↔ levels.position prerelease ≠ .lt) ↔ ¬ levels.Wrap := by
  rw [← neg_iff prerelease, ← not_lt, ne_eq, not_iff_not]

lemma nonpos_iff :
    (levels.difference prerelease ≤ 0 ↔ levels.position prerelease ≠ .gt) ↔ ¬ levels.Wrap := by
  rw [← pos_iff prerelease, ← not_lt, ne_eq, not_iff_not]

lemma firstDifference_cons (a b : Unsigned) (levels : Levels) :
    firstDifference ((a, b) :: levels) =
      if a = b then levels.firstDifference else some (a, b) := by
  rw [firstDifference, List.find?_cons]
  by_cases h : a = b <;> simp [h, firstDifference]

lemma firstDifference_append {p : Unsigned × Unsigned} (h : levels.firstDifference = some p)
    (rest : Levels) : firstDifference (levels ++ rest) = some p := by
  rw [firstDifference] at h ⊢
  rw [List.find?_append, h, Option.some_or]

lemma not_between {p : Unsigned × Unsigned} (h : levels.firstDifference = some p)
    (h' : levels'.firstDifference = some p) :
    ¬ (0 ≤ levels.difference prerelease ∧ levels'.difference prerelease ≤ 0) ∧
      ¬ (levels.position prerelease ≠ .lt ∧ levels'.position prerelease ≠ .gt) := by
  obtain ⟨a, b⟩ := p
  have hne := toInt_sub_ne_zero (ne_of_firstDifference h)
  rw [difference, difference, position, position, h, h']
  constructor
  · rintro ⟨hle, hge⟩
    exact hne (le_antisymm hge hle)
  · rintro ⟨hlt, hgt⟩
    by_cases hab : a < b
    · exact hlt (if_pos hab)
    · exact hgt (if_neg hab)

lemma of_firstDifference_none (h : levels.firstDifference = none) (hne : levels ≠ []) :
    levels.difference prerelease = (if prerelease = true then -1 else 0) ∧
      levels.position prerelease = if prerelease = true then .lt else .eq := by
  rw [difference, position, h]
  simp [hne]

end Levels

/-! ### What the parser returns -/

/-- One to three levels, and a prefix. -/
structure MatchComponent.WellFormed (component : MatchComponent) : Prop where
  isPrefix : component.semVerPrefix ∈ [Token.bitXor, .bitNot, .lessThan, .lessThanOrEqual,
    .greaterThan, .greaterThanOrEqual, .assign]
  pos : 1 ≤ component.levelsPresent
  le : component.levelsPresent ≤ 3
  /-- Numbers that are not given are zero. -/
  unset : ∀ i : Fin 3, component.levelsPresent ≤ i → component.numbers i = 0

def SemVerMatchExpression.WellFormed (expression : SemVerMatchExpression) : Prop :=
  ∀ conjunction ∈ expression.disjunction, ∀ component ∈ conjunction.components,
    component.WellFormed

namespace SemVerMatchExpressionParser

lemma parseLevels_spec (n : ℕ) (component : MatchComponent) (p : SemVerMatchExpressionParser)
    (hle : component.levelsPresent + n ≤ 3)
    (hunset : ∀ i : Fin 3, component.levelsPresent ≤ i → component.numbers i = 0)
    {r : MatchComponent × SemVerMatchExpressionParser} (h : parseLevels n component p = .ok r) :
    r.1.semVerPrefix = component.semVerPrefix ∧ r.1.levelsPresent ≤ 3 ∧
      component.levelsPresent + min n 1 ≤ r.1.levelsPresent ∧
      ∀ i : Fin 3, r.1.levelsPresent ≤ i → r.1.numbers i = 0 := by
  induction n generalizing component p with
  | zero =>
    cases h
    exact ⟨rfl, hle, le_rfl, hunset⟩
  | succ n ih =>
    rw [parseLevels] at h
    cases hpart : p.parseVersionPart with
    | error e =>
      rw [hpart] at h
      cases h
    | ok q =>
      obtain ⟨part, q⟩ := q
      rw [hpart] at h
      change (if q.currentChar = '.' then parseLevels n
          { component with
            numbers := Function.update component.numbers (.ofNat 3 component.levelsPresent) part
            levelsPresent := component.levelsPresent + 1 } q.nextChar else _) = _ at h
      have hunset' : ∀ i : Fin 3, component.levelsPresent + 1 ≤ i →
          Function.update component.numbers (.ofNat 3 component.levelsPresent) part i = 0 := by
        intro i hi
        have hne : i ≠ .ofNat 3 component.levelsPresent := by
          rintro rfl
          rw [Fin.val_ofNat, Nat.mod_eq_of_lt (by omega)] at hi
          exact absurd hi (by omega)
        rw [Function.update_of_ne hne]
        exact hunset i (by omega)
      split_ifs at h
      · obtain ⟨hkind, hthree, hpos, hrest⟩ := ih _ _ (by simp only; omega) hunset' h
        exact ⟨hkind, hthree, by simp only at hpos; omega, hrest⟩
      · cases h
        exact ⟨rfl, by simp only; omega, by simp only; omega, hunset'⟩

lemma parsePrefix_mem (p : SemVerMatchExpressionParser) :
    p.parsePrefix.1 ∈ [Token.bitXor, .bitNot, .lessThan, .lessThanOrEqual, .greaterThan,
      .greaterThanOrEqual, .assign] := by
  rw [parsePrefix]
  cases p.currentToken <;> simp

variable {p : SemVerMatchExpressionParser}

lemma parseMatchComponent_wellFormed {r : MatchComponent × SemVerMatchExpressionParser}
    (h : p.parseMatchComponent = .ok r) : r.1.WellFormed := by
  obtain ⟨hkind, hle, hpos, hunset⟩ := parseLevels_spec 3 _ _ le_rfl (fun _ _ => rfl) h
  exact ⟨hkind ▸ p.parsePrefix_mem, hpos, hle, hunset⟩

lemma parseComponents_wellFormed (fuel : ℕ) (p : SemVerMatchExpressionParser)
    {r : List MatchComponent × SemVerMatchExpressionParser}
    (h : parseComponents fuel p = .ok r) : ∀ component ∈ r.1, component.WellFormed := by
  induction fuel generalizing p r with
  | zero => cases h
  | succ fuel ih =>
    rw [parseComponents] at h
    split_ifs at h
    · cases hfirst : p.parseMatchComponent with
      | error e =>
        rw [hfirst] at h
        cases h
      | ok q =>
        obtain ⟨component, q⟩ := q
        cases hrest : parseComponents fuel q with
        | error e =>
          simp only [hfirst, hrest, bind, Except.bind] at h
          cases h
        | ok t =>
          simp only [hfirst, hrest, bind, Except.bind] at h
          cases h
          exact List.forall_mem_cons.mpr ⟨parseMatchComponent_wellFormed hfirst, ih q hrest⟩
    · cases h
      exact List.forall_mem_nil _

lemma parseMatchExpression_wellFormed (fuel : ℕ) {r : Conjunction × SemVerMatchExpressionParser}
    (h : p.parseMatchExpression fuel = .ok r) :
    ∀ component ∈ r.1.components, component.WellFormed := by
  rw [parseMatchExpression] at h
  cases hfirst : p.parseMatchComponent with
  | error e =>
    rw [hfirst] at h
    cases h
  | ok q =>
    obtain ⟨first, q⟩ := q
    have hwf := parseMatchComponent_wellFormed hfirst
    simp only [hfirst, bind, Except.bind] at h
    split_ifs at h
    · cases hsecond : q.nextToken.parseMatchComponent with
      | error e =>
        rw [hsecond] at h
        cases h
      | ok t =>
        have hwf' := parseMatchComponent_wellFormed hsecond
        rw [hsecond] at h
        cases h
        -- the ends of a range keep their levels
        refine List.forall_mem_cons.mpr ⟨⟨by simp, hwf.pos, hwf.le, hwf.unset⟩, ?_⟩
        exact List.forall_mem_singleton.mpr ⟨by simp, hwf'.pos, hwf'.le, hwf'.unset⟩
    · cases hrest : parseComponents fuel q with
      | error e =>
        rw [hrest] at h
        cases h
      | ok t =>
        rw [hrest] at h
        cases h
        exact List.forall_mem_cons.mpr ⟨hwf, parseComponents_wellFormed fuel q hrest⟩

lemma parseDisjunction_wellFormed (fuel : ℕ) (p : SemVerMatchExpressionParser)
    {disjunction : List Conjunction} (h : parseDisjunction fuel p = .ok disjunction) :
    ∀ conjunction ∈ disjunction, ∀ component ∈ conjunction.components, component.WellFormed := by
  induction fuel generalizing p disjunction with
  | zero => cases h
  | succ fuel ih =>
    rw [parseDisjunction] at h
    cases hfirst : p.parseMatchExpression fuel with
    | error e =>
      rw [hfirst] at h
      cases h
    | ok q =>
      obtain ⟨conjunction, q⟩ := q
      have hwf := parseMatchExpression_wellFormed fuel hfirst
      simp only [hfirst, bind, Except.bind] at h
      split_ifs at h
      · cases h
        exact List.forall_mem_singleton.mpr hwf
      · cases hrest : parseDisjunction fuel q.nextToken with
        | error e =>
          rw [hrest] at h
          cases h
        | ok rest =>
          rw [hrest] at h
          cases h
          exact List.forall_mem_cons.mpr ⟨hwf, ih _ hrest⟩

/-- Whatever the tokens are, the components are well formed. -/
theorem parse_wellFormed (fuel : ℕ) (p : SemVerMatchExpressionParser) :
    (parse fuel p).WellFormed := by
  rw [parse]
  split
  · exact parseDisjunction_wellFormed fuel _ ‹_›
  · exact fun _ hmem => absurd hmem List.not_mem_nil

end SemVerMatchExpressionParser

namespace MatchComponent

variable (component : MatchComponent) (version : SemVerVersion)

/-- The first levels, those with a wildcard left out. -/
def levels (n : ℕ) : Levels :=
  (((List.finRange 3).take n).filter (component.numbers · ≠ wildcard)).map
    fun i => (version.numbers i, component.numbers i)

def position (n : ℕ) : Ordering := (component.levels version n).position version.isPrerelease

/-- A caret keeps the levels up to the first number that is not zero, or all that are given. -/
def caretLevels : ℕ :=
  if component.numbers 0 ≠ 0 then 1
  else if component.levelsPresent = 1 then 1
  else if component.numbers 1 ≠ 0 then 2
  else component.levelsPresent

/-- The versions a component stands for. -/
def Denotes : Prop :=
  match component.semVerPrefix with
  | .assign => component.position version component.levelsPresent = .eq
  | .lessThan => component.position version component.levelsPresent = .lt
  | .lessThanOrEqual => component.position version component.levelsPresent ≠ .gt
  | .greaterThan => component.position version component.levelsPresent = .gt
  | .greaterThanOrEqual => component.position version component.levelsPresent ≠ .lt
  | .bitNot =>
    component.position version component.levelsPresent ≠ .lt ∧
      component.position version (min component.levelsPresent 2) ≠ .gt
  | .bitXor =>
    component.position version component.levelsPresent ≠ .lt ∧
      component.position version component.caretLevels ≠ .gt
  | _ => False

end MatchComponent

/-- A disjunction of conjunctions. -/
def SemVerMatchExpression.Denotes (expression : SemVerMatchExpression) (version : SemVerVersion) :
    Prop :=
  ∃ conjunction ∈ expression.disjunction, ∀ component ∈ conjunction.components,
    component.Denotes version

namespace MatchComponent

variable (component : MatchComponent) (version : SemVerVersion)

/-- There is no difference at the first levels, and the first one behind them wraps. -/
def WrapsBehind (n : ℕ) : Prop :=
  (component.levels version n).firstDifference = none ∧
    (component.levels version component.levelsPresent).Wrap

/-- The versions for which the code does not decide as the component's meaning is. -/
def Misreads : Prop :=
  match component.semVerPrefix with
  | .lessThan | .lessThanOrEqual | .greaterThan | .greaterThanOrEqual =>
    (component.levels version component.levelsPresent).Wrap
  | .bitNot => component.WrapsBehind version (min component.levelsPresent 2)
  | .bitXor =>
    if component.numbers 0 = 0 ∧ component.levelsPresent = 1 then
      -- the upper bound of a partial zero version is taken at two levels
      version.numbers 0 = 0 ∧ version.isPrerelease = false ∧
        0 < (version.numbers 1).toNat ∧ (version.numbers 1).toNat < 2 ^ 31
    else if component.numbers 0 = 0 ∧ component.numbers 1 = 0 ∧ component.levelsPresent = 3 ∧
        component.numbers 2 ≠ wildcard then
      -- the last level is left out of the upper bound
      version.numbers 0 = 0 ∧ version.numbers 1 = 0 ∧
        ((component.numbers 2).toNat < (version.numbers 2).toNat ∧
            (version.numbers 2).toNat < (component.numbers 2).toNat + 2 ^ 31 ∨
          (version.numbers 2).toNat + 2 ^ 31 < (component.numbers 2).toNat)
    else component.WrapsBehind version (if component.numbers 0 = 0 then 2 else 1)
  | _ => False

end MatchComponent

namespace MatchComponent

variable {component : MatchComponent} {version : SemVerVersion}

lemma foldl_of_ne_zero {r : ℤ × Bool} (h : r.1 ≠ 0) (is : List (Fin 3)) :
    is.foldl (compareLevel component version) r = r := by
  induction is with
  | nil => rfl
  | cons i is ih =>
    rw [List.foldl_cons, compareLevel, if_neg h]
    exact ih

/-- The levels, given by their indices. -/
def levelsAt (component : MatchComponent) (version : SemVerVersion) (is : List (Fin 3)) : Levels :=
  (is.filter (component.numbers · ≠ wildcard)).map
    fun i => (version.numbers i, component.numbers i)

lemma foldl_compareLevel (is : List (Fin 3)) (compared : Bool) :
    is.foldl (compareLevel component version) (0, compared) =
      ((component.levelsAt version is).difference false,
        compared || !(component.levelsAt version is).isEmpty) := by
  induction is generalizing compared with
  | nil => cases compared <;> rfl
  | cons i is ih =>
    rw [List.foldl_cons, compareLevel, if_pos rfl]
    by_cases hwildcard : component.numbers i = wildcard
    · have hlevels : component.levelsAt version (i :: is) = component.levelsAt version is := by
        rw [levelsAt, List.filter_cons_of_neg (by simpa using hwildcard)]
        rfl
      rw [if_neg (not_not.mpr hwildcard), ih, hlevels]
    · have hlevels : component.levelsAt version (i :: is) =
          (version.numbers i, component.numbers i) :: component.levelsAt version is := by
        rw [levelsAt, List.filter_cons_of_pos (by simpa using hwildcard)]
        rfl
      rw [if_pos hwildcard, hlevels]
      by_cases heq : version.numbers i = component.numbers i
      · have hzero : (version.numbers i - component.numbers i).toInt = 0 := by
          rw [heq, BitVec.sub_self]
          rfl
        have hskip : Levels.firstDifference ((version.numbers i, component.numbers i) ::
            component.levelsAt version is) =
            (component.levelsAt version is).firstDifference :=
          List.find?_cons_of_neg (by simpa using heq)
        rw [hzero, ih, Levels.difference_false, Levels.difference_false, hskip]
        simp
      · have hfirst : Levels.firstDifference ((version.numbers i, component.numbers i) ::
            component.levelsAt version is) = some (version.numbers i, component.numbers i) :=
          List.find?_cons_of_pos (by simpa using heq)
        rw [foldl_of_ne_zero (Levels.toInt_sub_ne_zero heq), Levels.difference_false, hfirst]
        simp

lemma compareVersion_eq : component.compareVersion version =
    (component.levels version component.levelsPresent).difference version.isPrerelease := by
  rw [compareVersion, foldl_compareLevel]
  exact Levels.difference_of_pair _ _

lemma matchesComparison_eq (component : MatchComponent) (version : SemVerVersion) (token : Token)
    (n : ℕ) :
    { component with semVerPrefix := token, levelsPresent := n }.matchesComparison version =
      let cmp := (component.levels version n).difference version.isPrerelease
      match token with
      | .assign => decide (cmp = 0)
      | .lessThan => decide (cmp < 0)
      | .lessThanOrEqual => decide (cmp ≤ 0)
      | .greaterThan => decide (0 < cmp)
      | .greaterThanOrEqual => decide (0 ≤ cmp)
      | _ => false := by
  rw [matchesComparison, compareVersion_eq]
  rfl

lemma exists_levels_append (component : MatchComponent) (version : SemVerVersion) {m n : ℕ}
    (h : m ≤ n) :
    ∃ rest, component.levels version n = component.levels version m ++ rest := by
  have hkind : component.levels version m <+: component.levels version n :=
    ((List.take_prefix_take_left h).filter _).map _
  obtain ⟨rest, hrest⟩ := hkind
  exact ⟨rest, hrest.symm⟩

lemma range_iff {n : ℕ} (hn : n ≤ component.levelsPresent) :
    ((0 ≤ (component.levels version component.levelsPresent).difference version.isPrerelease ∧
        (component.levels version n).difference version.isPrerelease ≤ 0) ↔
      (component.position version component.levelsPresent ≠ .lt ∧
        component.position version n ≠ .gt)) ↔
    ¬ component.WrapsBehind version n := by
  obtain ⟨rest, hrest⟩ := exists_levels_append component version hn
  rw [WrapsBehind, position, position]
  cases hfirst : (component.levels version n).firstDifference with
  | some p =>
    obtain ⟨a, b⟩ := p
    have hall : (component.levels version component.levelsPresent).firstDifference = some (a, b) :=
      hrest ▸ Levels.firstDifference_append hfirst rest
    obtain ⟨hcode, hmeaning⟩ := Levels.not_between version.isPrerelease hall hfirst
    exact iff_of_true (iff_of_false hcode hmeaning) nofun
  | none =>
    have hle : (component.levels version n).difference version.isPrerelease ≤ 0 := by
      rw [Levels.difference, hfirst]
      change (if _ then (-1 : ℤ) else 0) ≤ 0
      split_ifs <;> decide
    have hnot : (component.levels version n).position version.isPrerelease ≠ .gt := by
      rw [Levels.position, hfirst]
      change (if _ then Ordering.lt else .eq) ≠ .gt
      split_ifs <;> decide
    rw [and_iff_left hle, and_iff_left hnot, and_iff_right rfl]
    exact Levels.nonneg_iff _

/-! ### Carets -/

/-- The number of a level, unless it is a wildcard. -/
def level (component : MatchComponent) (version : SemVerVersion) (i : Fin 3) : Levels :=
  if component.numbers i ≠ wildcard then [(version.numbers i, component.numbers i)] else []

lemma levels_one : component.levels version 1 = component.level version 0 := by
  change component.levelsAt version [0] = _
  rw [levelsAt, level]
  split_ifs with h <;> simp [h]

lemma levelsAt_cons (i : Fin 3) (is : List (Fin 3)) :
    component.levelsAt version (i :: is) =
      component.level version i ++ component.levelsAt version is := by
  rw [level, levelsAt]
  split_ifs with h
  · rw [List.filter_cons_of_pos (by simpa using h)]
    rfl
  · rw [List.filter_cons_of_neg (by simpa using h)]
    rfl

lemma levels_two :
    component.levels version 2 = component.level version 0 ++ component.level version 1 := by
  change component.levelsAt version [0, 1] = _
  rw [levelsAt_cons, levelsAt_cons]
  simp [levelsAt]

lemma levels_three : component.levels version 3 =
    component.levels version 2 ++ component.level version 2 := by
  change component.levelsAt version [0, 1, 2] = _
  rw [levels_two, levelsAt_cons, levelsAt_cons, levelsAt_cons]
  simp [levelsAt]

lemma level_of_ne (i : Fin 3) (h : component.numbers i ≠ wildcard) :
    component.level version i = [(version.numbers i, component.numbers i)] := if_pos h

lemma level_of_eq_zero (i : Fin 3) (h : component.numbers i = 0) :
    component.level version i = [(version.numbers i, 0)] := by
  rw [level_of_ne i (h ▸ by decide), h]

lemma caret_zero (hzero : component.numbers 0 = 0) (hone : component.numbers 1 = 0) :
    ((0 ≤ (component.levels version 1).difference version.isPrerelease ∧
        (component.levels version 2).difference version.isPrerelease ≤ 0) ↔
      (component.position version 1 ≠ .lt ∧ component.position version 1 ≠ .gt)) ↔
    ¬ (version.numbers 0 = 0 ∧ version.isPrerelease = false ∧
      0 < (version.numbers 1).toNat ∧ (version.numbers 1).toNat < 2 ^ 31) := by
  rw [position, levels_one, levels_two, level_of_eq_zero 0 hzero, level_of_eq_zero 1 hone,
    List.singleton_append]
  generalize version.numbers 0 = v₀
  generalize version.numbers 1 = v₁
  generalize version.isPrerelease = prerelease
  have hone' := Levels.firstDifference_cons v₀ 0 []
  have htwo' := Levels.firstDifference_cons v₀ 0 [(v₁, 0)]
  by_cases h₀ : v₀ = 0
  · rw [if_pos h₀] at hone' htwo'
    obtain ⟨hdifference, hposition⟩ :=
      Levels.of_firstDifference_none prerelease hone' (List.cons_ne_nil _ _)
    rw [hdifference, hposition]
    cases prerelease with
    | true => simp
    | false =>
      have hbound : Levels.difference false [(v₀, 0), (v₁, 0)] ≤ 0 ↔
          ¬ (0 < v₁.toNat ∧ v₁.toNat < 2 ^ 31) := by
        rw [Levels.difference_false, htwo', Levels.firstDifference_cons]
        by_cases h₁ : v₁ = 0
        · rw [if_pos h₁]
          exact iff_of_true le_rfl fun h => absurd (h₁ ▸ h.1) (by decide)
        · have hne := Levels.toInt_sub_ne_zero h₁
          have hneg := Levels.toInt_sub_neg_iff h₁
          have hnot : ¬ v₁ < 0 := BitVec.not_lt_zero
          have hpos : v₁.toNat ≠ 0 := fun h => h₁ (BitVec.eq_of_toNat_eq h)
          rw [iff_false_left hnot, not_not, Levels.Wraps] at hneg
          change _ ↔ 0 + 2 ^ 31 ≤ v₁.toNat ∨ v₁.toNat + 2 ^ 31 < 0 at hneg
          rw [if_neg h₁]
          change (v₁ - 0).toInt ≤ 0 ↔ _
          omega
      rw [hbound]
      simp [h₀]
  · rw [if_neg h₀] at hone' htwo'
    obtain ⟨hcode, -⟩ := Levels.not_between prerelease hone' htwo'
    obtain ⟨-, hmeaning⟩ := Levels.not_between prerelease hone' hone'
    exact iff_of_true (iff_of_false hcode hmeaning) fun h => h₀ h.1

lemma caret_zero_zero (hzero : component.numbers 0 = 0) (hone : component.numbers 1 = 0)
    (htwo : component.numbers 2 ≠ wildcard) :
    ((0 ≤ (component.levels version 3).difference version.isPrerelease ∧
        (component.levels version 2).difference version.isPrerelease ≤ 0) ↔
      (component.position version 3 ≠ .lt ∧ component.position version 3 ≠ .gt)) ↔
    ¬ (version.numbers 0 = 0 ∧ version.numbers 1 = 0 ∧
      ((component.numbers 2).toNat < (version.numbers 2).toNat ∧
          (version.numbers 2).toNat < (component.numbers 2).toNat + 2 ^ 31 ∨
        (version.numbers 2).toNat + 2 ^ 31 < (component.numbers 2).toNat)) := by
  rw [position, levels_three, levels_two, level_of_eq_zero 0 hzero, level_of_eq_zero 1 hone,
    level_of_ne 2 htwo]
  generalize version.numbers 0 = v₀
  generalize version.numbers 1 = v₁
  generalize version.numbers 2 = v₂
  generalize component.numbers 2 = p
  generalize version.isPrerelease = prerelease
  by_cases h : v₀ = 0 ∧ v₁ = 0
  · obtain ⟨rfl, rfl⟩ := h
    have htwo' : Levels.firstDifference [((0 : Unsigned), (0 : Unsigned)), (0, 0)] = none := rfl
    have hthree : Levels.firstDifference
        ([((0 : Unsigned), (0 : Unsigned))] ++ [(0, 0)] ++ [(v₂, p)]) =
        if v₂ = p then none else some (v₂, p) := Levels.firstDifference_cons v₂ p []
    obtain ⟨hdifference, -⟩ :=
      Levels.of_firstDifference_none prerelease htwo' (List.cons_ne_nil _ _)
    have hle :
        Levels.difference prerelease ([((0 : Unsigned), (0 : Unsigned))] ++ [(0, 0)]) ≤ 0 := by
      change Levels.difference prerelease [((0 : Unsigned), (0 : Unsigned)), (0, 0)] ≤ 0
      rw [hdifference]
      split_ifs <;> decide
    rw [and_iff_left hle, and_iff_right rfl, and_iff_right rfl]
    by_cases heq : v₂ = p
    · rw [if_pos heq] at hthree
      obtain ⟨hdifference', hposition'⟩ :=
        Levels.of_firstDifference_none prerelease hthree (by simp)
      rw [hdifference', hposition', heq]
      cases prerelease <;> simp
    · rw [if_neg heq] at hthree
      have hne := Levels.toInt_sub_ne_zero heq
      have hneg := Levels.toInt_sub_neg_iff heq
      have htoNat : v₂.toNat ≠ p.toNat := fun h => heq (BitVec.eq_of_toNat_eq h)
      have hmeaning := (Levels.not_between prerelease hthree hthree).2
      rw [iff_false_right hmeaning, Levels.difference, hthree]
      change ¬ 0 ≤ (v₂ - p).toInt ↔ _
      rw [not_le, hneg, BitVec.lt_def, Levels.Wraps]
      omega
  · have htwo' : ∃ q, Levels.firstDifference ([(v₀, (0 : Unsigned))] ++ [(v₁, 0)]) = some q := by
      rw [List.singleton_append, Levels.firstDifference_cons, Levels.firstDifference_cons]
      by_cases h₀ : v₀ = 0
      · rw [if_pos h₀, if_neg fun h₁ => h ⟨h₀, h₁⟩]
        exact ⟨_, rfl⟩
      · rw [if_neg h₀]
        exact ⟨_, rfl⟩
    obtain ⟨q, hq⟩ := htwo'
    have hthree := Levels.firstDifference_append hq [(v₂, p)]
    obtain ⟨hcode, -⟩ := Levels.not_between prerelease hthree hq
    obtain ⟨-, hmeaning⟩ := Levels.not_between prerelease hthree hthree
    exact iff_of_true (iff_of_false hcode hmeaning) fun h' => h ⟨h'.1, h'.2.1⟩

/-! ### Components -/

lemma position_caretLevels (version : SemVerVersion) (hpos : 1 ≤ component.levelsPresent)
    (hle : component.levelsPresent ≤ 3)
    (hone : ¬ (component.numbers 0 = 0 ∧ component.levelsPresent = 1))
    (hthree : ¬ (component.numbers 0 = 0 ∧ component.numbers 1 = 0 ∧
      component.levelsPresent = 3 ∧ component.numbers 2 ≠ wildcard)) :
    (if component.numbers 0 = 0 then 2 else 1) ≤ component.levelsPresent ∧
    component.position version component.caretLevels =
      component.position version (if component.numbers 0 = 0 then 2 else 1) := by
  rw [caretLevels]
  by_cases hzero : component.numbers 0 = 0
  · have hlevels : component.levelsPresent ≠ 1 := fun h => hone ⟨hzero, h⟩
    rw [if_pos hzero, if_neg (not_not.mpr hzero), if_neg hlevels]
    refine ⟨by omega, ?_⟩
    split_ifs with hnumber
    · rfl
    · rcases (show component.levelsPresent = 2 ∨ component.levelsPresent = 3 by omega) with h | h
      · rw [h]
      · have hwildcard : component.numbers 2 = wildcard := by
          by_contra hne
          exact hthree ⟨hzero, not_not.mp hnumber, h, hne⟩
        have hlevel : component.level version 2 = [] := if_neg (not_not.mpr hwildcard)
        rw [h, position, position, levels_three, hlevel, List.append_nil]
  · rw [if_neg hzero, if_pos hzero]
    exact ⟨hpos, rfl⟩

/-- The code decides as the meaning of the component is if and only if it does not misread it. -/
lemma matchesVersion_iff (version : SemVerVersion) (hwf : component.WellFormed) :
    (component.matchesVersion version ↔ component.Denotes version) ↔
      ¬ component.Misreads version := by
  have hcomparison := matchesComparison_eq component version
    component.semVerPrefix component.levelsPresent
  change component.matchesComparison version = _ at hcomparison
  have hkind := hwf.isPrefix
  cases htoken : component.semVerPrefix with
  | assign =>
    simp only [matchesVersion, Denotes, Misreads, hcomparison, htoken, decide_eq_true_eq,
      not_false_iff, iff_true]
    exact Levels.eq_iff _
  | lessThan =>
    simp only [matchesVersion, Denotes, Misreads, hcomparison, htoken, decide_eq_true_eq]
    exact Levels.neg_iff _
  | lessThanOrEqual =>
    simp only [matchesVersion, Denotes, Misreads, hcomparison, htoken, decide_eq_true_eq]
    exact Levels.nonpos_iff _
  | greaterThan =>
    simp only [matchesVersion, Denotes, Misreads, hcomparison, htoken, decide_eq_true_eq]
    exact Levels.pos_iff _
  | greaterThanOrEqual =>
    simp only [matchesVersion, Denotes, Misreads, hcomparison, htoken, decide_eq_true_eq]
    exact Levels.nonneg_iff _
  | bitNot =>
    have hlevels :
        (if 2 ≤ component.levelsPresent then 2 else 1) = min component.levelsPresent 2 := by
      have := hwf.pos
      split_ifs <;> omega
    have hlower := matchesComparison_eq component version
      .greaterThanOrEqual component.levelsPresent
    simp only [matchesVersion, Denotes, Misreads, htoken, hlower, matchesComparison_eq, hlevels,
      Bool.and_eq_true, decide_eq_true_eq]
    exact range_iff (Nat.min_le_left _ _)
  | bitXor =>
    have hlower := matchesComparison_eq component version
      .greaterThanOrEqual component.levelsPresent
    simp only [matchesVersion, Denotes, Misreads, htoken, hlower, matchesComparison_eq,
      Bool.and_eq_true, decide_eq_true_eq]
    by_cases hone : component.numbers 0 = 0 ∧ component.levelsPresent = 1
    · have hcaret : component.caretLevels = 1 := by
        rw [caretLevels, if_neg (not_not.mpr hone.1), if_pos hone.2]
      have hunset : component.numbers 1 = 0 := hwf.unset 1 hone.2.le
      rw [if_pos hone, if_pos hone.1, hcaret, hone.2]
      exact caret_zero hone.1 hunset
    · by_cases hthree : component.numbers 0 = 0 ∧ component.numbers 1 = 0 ∧
          component.levelsPresent = 3 ∧ component.numbers 2 ≠ wildcard
      · rw [if_neg hone, if_pos hthree]
        obtain ⟨hmajor, hminor, hlevels, hpatch⟩ := hthree
        have hcaret : component.caretLevels = 3 := by
          rw [caretLevels, if_neg (not_not.mpr hmajor), if_neg fun h => hone ⟨hmajor, h⟩,
            if_neg (not_not.mpr hminor), hlevels]
        rw [if_pos hmajor, hcaret, hlevels]
        exact caret_zero_zero hmajor hminor hpatch
      · obtain ⟨hle, hposition⟩ :=
          position_caretLevels version hwf.pos hwf.le hone hthree
        rw [if_neg hone, if_neg hthree, hposition]
        exact range_iff hle
  | _ =>
    rw [htoken] at hkind
    exact absurd hkind (by decide)

end MatchComponent

/-! ### Expressions -/

/-- The code accepts a version if in some conjunction every component either stands for the version
or misreads it, but not both. -/
lemma SemVerMatchExpression.matchesVersion_eq {expression : SemVerMatchExpression}
    (hwf : expression.WellFormed) (version : SemVerVersion) :
    expression.matchesVersion version ↔
      ∃ conjunction ∈ expression.disjunction, ∀ component ∈ conjunction.components,
        (component.Denotes version ↔ ¬ component.Misreads version) := by
  have hcomponent : ∀ conjunction ∈ expression.disjunction, ∀ component ∈ conjunction.components,
      (component.matchesVersion version = true ↔
        (component.Denotes version ↔ ¬ component.Misreads version)) := by
    intro conjunction hconjunction component hmem
    have hiff := MatchComponent.matchesVersion_iff version
      (hwf conjunction hconjunction component hmem)
    tauto
  rw [matchesVersion, isValid]
  cases hdisjunction : expression.disjunction with
  | nil => simp
  | cons first rest =>
    rw [← hdisjunction]
    have hvalid : ¬ (!!expression.disjunction.isEmpty) = true := by simp [hdisjunction]
    rw [if_neg hvalid, List.any_eq_true]
    constructor
    · rintro ⟨conjunction, hmem, hall⟩
      refine ⟨conjunction, hmem, fun component hcomp => ?_⟩
      have hcode := List.all_eq_true.mp hall component hcomp
      exact (hcomponent conjunction hmem component hcomp).mp hcode
    · rintro ⟨conjunction, hmem, hall⟩
      refine ⟨conjunction, hmem, List.all_eq_true.mpr fun component hcomp => ?_⟩
      exact (hcomponent conjunction hmem component hcomp).mpr (hall component hcomp)

/-- Components match the versions they stand for if and only if they do not misread them, and
expressions if and only if misreadings, if there are any, cancel out. -/
theorem matchesVersion_iff_denotes (expression : SemVerMatchExpression) (version : SemVerVersion)
    (hwf : expression.WellFormed) :
    (∀ conjunction ∈ expression.disjunction, ∀ component ∈ conjunction.components,
      ((component.matchesVersion version = true ↔ component.Denotes version) ↔
        ¬ component.Misreads version)) ∧
    ((expression.matchesVersion version = true ↔ expression.Denotes version) ↔
      ((∃ conjunction ∈ expression.disjunction, ∀ component ∈ conjunction.components,
          (component.Denotes version ↔ ¬ component.Misreads version)) ↔
        ∃ conjunction ∈ expression.disjunction, ∀ component ∈ conjunction.components,
          component.Denotes version)) := by
  constructor
  · intro conjunction hconjunction component hmem
    exact MatchComponent.matchesVersion_iff version (hwf conjunction hconjunction component hmem)
  · rw [SemVerMatchExpression.matchesVersion_eq hwf]
    exact Iff.rfl

/-- The version 0.5.9 and the expression `^0.5.2`. -/
theorem matchesVersion_caret_minor :
    let component : MatchComponent := ⟨.bitXor, ![0, 5, 2], 3⟩
    let version : SemVerVersion := ⟨![0, 5, 9], []⟩
    SemVerMatchExpression.WellFormed ⟨[⟨[component]⟩]⟩ ∧ ¬ component.Misreads version ∧
      (component.matchesVersion version = true ↔ component.Denotes version) := by
  intro component version
  have hwf : SemVerMatchExpression.WellFormed ⟨[⟨[component]⟩]⟩ := by
    refine List.forall_mem_singleton.mpr (List.forall_mem_singleton.mpr ?_)
    exact ⟨by decide, by decide, le_rfl, fun i hi => absurd i.isLt (not_lt.mpr hi)⟩
  have hread : ¬ component.Misreads version := by
    -- the major version is zero, the minor version is the last level of the bound
    change ¬ component.WrapsBehind version 2
    rintro ⟨-, p, hfirst, hwraps⟩
    have hp : p = (9, 2) := Option.some_inj.mp (hfirst.symm.trans rfl)
    subst hp
    exact absurd hwraps (by decide)
  have hiff := (matchesVersion_iff_denotes ⟨[⟨[component]⟩]⟩ version hwf).1
  exact ⟨hwf, hread, (hiff _ (.head _) _ (.head _)).mpr hread⟩

/-- The expression `^0` stands for the version 0.1.0, which the code does not accept. -/
theorem matchesVersion_caret_zero :
    ¬ ∀ (expression : SemVerMatchExpression) (version : SemVerVersion), expression.WellFormed →
      (expression.matchesVersion version = true ↔ expression.Denotes version) := by
  intro hall
  let component : MatchComponent := ⟨.bitXor, fun _ => 0, 1⟩
  let version : SemVerVersion := ⟨![0, 1, 0], []⟩
  have hwf : SemVerMatchExpression.WellFormed ⟨[⟨[component]⟩]⟩ := by
    refine List.forall_mem_singleton.mpr (List.forall_mem_singleton.mpr ?_)
    exact ⟨by decide, le_rfl, by decide, fun _ _ => rfl⟩
  have hdenotes : component.Denotes version := by
    rw [MatchComponent.Denotes]
    exact ⟨by decide, by decide⟩
  have hmatches := (hall ⟨[⟨[component]⟩]⟩ version hwf).mpr
    ⟨_, .head _, List.forall_mem_singleton.mpr hdenotes⟩
  exact absurd hmatches (by decide)

end Langutil
