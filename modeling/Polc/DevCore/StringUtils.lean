import Polc.Semantics.EditDistance

/-!
# Distance of strings

`stringDistance` of `libdevcore/StringUtils.cpp`. The rows of its table are stored modulo three, so
that cells are overwritten. A second table that remembers for which prefixes a cell was filled shows
that no cell is read that holds anything else.
-/

namespace Dev

open Semantics List

/-- How the cell of a row and a column is read and written, unless it does not exist. -/
structure TableAccess (τ : Type) where
  read : τ → ℕ → ℕ → Option ℕ
  write : τ → ℕ → ℕ → ℕ → Option τ

section

variable (str1 str2 : List (BitVec 8))

/-- What the body of the loops computes from the cells filled before. -/
def cellValue (read : ℕ → ℕ → Option ℕ) (i1 i2 : ℕ) : Option ℕ :=
  if min i1 i2 = 0 then some (max i1 i2)
  else do
    let left ← read (i1 - 1) i2
    let up ← read i1 (i2 - 1)
    let upleft ← read (i1 - 1) (i2 - 1)
    -- deletion and insertion
    let x := min (left + 1) (up + 1)
    -- same chars, can skip; different chars so try substitution
    let x := min x (if str1[i1 - 1]? = str2[i2 - 1]? then upleft else upleft + 1)
    if 1 < i1 ∧ 1 < i2 ∧ str1[i1 - 1]? = str2[i2 - 2]? ∧ str1[i1 - 2]? = str2[i2 - 1]? then do
      let transposed ← read (i1 - 2) (i2 - 2)
      return min x (transposed + 1)
    else return x

variable {τ : Type} (access : TableAccess τ)

def fillCell (i1 : ℕ) (dp : τ) (i2 : ℕ) : Option τ := do
  let x ← cellValue str1 str2 (access.read dp) i1 i2
  access.write dp i1 i2 x

def fillRow (dp : τ) (i1 : ℕ) : Option τ :=
  (List.range (str2.length + 1)).foldlM (fillCell str1 str2 access i1) dp

/-- The distance, computed in a table that is empty at first. -/
def distanceIn (empty : τ) : Option ℕ := do
  let dp ← (List.range (str1.length + 1)).foldlM (fillRow str1 str2 access) empty
  access.read dp str1.length str2.length

/-- The table of the program: a vector with three rows. -/
def vectorAccess : TableAccess (List ℕ) where
  read dp i1 i2 := dp[i1 % 3 + i2 * 3]?
  write dp i1 i2 x :=
    if i1 % 3 + i2 * 3 < dp.length then some (dp.set (i1 % 3 + i2 * 3) x) else none

def stringDistance : Option ℕ :=
  distanceIn str1 str2 vectorAccess (List.replicate (3 * (str2.length + 1)) 0)

/-- A table that also holds for which prefixes each of its cells was filled, and fails if a cell is
read that was filled for others or not at all. -/
def checkedAccess : TableAccess (List (Option ((ℕ × ℕ) × ℕ))) where
  read dp i1 i2 :=
    (dp[i1 % 3 + i2 * 3]?.join.filter fun entry => entry.1 = (i1, i2)).map Prod.snd
  write dp i1 i2 x :=
    if i1 % 3 + i2 * 3 < dp.length then some (dp.set (i1 % 3 + i2 * 3) (some ((i1, i2), x)))
    else none

/-- The same computation, where no cell is read that was overwritten or not yet filled. -/
def checkedStringDistance : Option ℕ :=
  distanceIn str1 str2 checkedAccess (List.replicate (3 * (str2.length + 1)) none)

end

/-- In a table with columns up to `n2`, every cell can be written, and only that cell changes. -/
structure TableAccess.IsRolling {τ : Type} (access : TableAccess τ) (n2 : ℕ) (Sized : τ → Prop) :
    Prop where
  write : ∀ dp i1 i2 x, Sized dp → i2 ≤ n2 → ∃ dp', access.write dp i1 i2 x = some dp' ∧
    Sized dp' ∧ access.read dp' i1 i2 = some x ∧
    ∀ j1 j2, j1 % 3 ≠ i1 % 3 ∨ j2 ≠ i2 → access.read dp' j1 j2 = access.read dp j1 j2

variable {n2 : ℕ}

lemma isRolling_vectorAccess (n2 : ℕ) :
    vectorAccess.IsRolling n2 fun dp => dp.length = 3 * (n2 + 1) where
  write dp i1 i2 x hsized hi2 := by
    have hlt : i1 % 3 + i2 * 3 < dp.length := by omega
    refine ⟨_, if_pos hlt, by rw [length_set, hsized], ?_, fun j1 j2 hj => ?_⟩
    · exact getElem?_set_self hlt
    · exact getElem?_set_ne (by omega)

lemma isRolling_checkedAccess (n2 : ℕ) :
    checkedAccess.IsRolling n2 fun dp => dp.length = 3 * (n2 + 1) where
  write dp i1 i2 x hsized hi2 := by
    have hlt : i1 % 3 + i2 * 3 < dp.length := by omega
    refine ⟨_, if_pos hlt, by rw [length_set, hsized], ?_, fun j1 j2 hj => ?_⟩
    · simp only [checkedAccess, getElem?_set_self hlt]
      simp
    · simp only [checkedAccess]
      rw [getElem?_set_ne (by omega)]

variable {str1 str2 : List (BitVec 8)}

/-- The first `i` characters, the last one in front. -/
def lastFirst (s : List (BitVec 8)) (i : ℕ) : List (BitVec 8) := (s.take i).reverse

lemma lastFirst_succ (s : List (BitVec 8)) {i : ℕ} (h : i + 1 ≤ s.length) :
    ∃ c, s[i]? = some c ∧ lastFirst s (i + 1) = c :: lastFirst s i := by
  refine ⟨s[i], getElem?_eq_getElem h, ?_⟩
  rw [lastFirst, take_succ_eq_append_getElem h, reverse_append, lastFirst]
  rfl

lemma length_lastFirst {s : List (BitVec 8)} {i : ℕ} (h : i ≤ s.length) :
    (lastFirst s i).length = i := by
  rw [lastFirst, length_reverse, length_take, min_eq_left h]

/-- What the loops read in row `i1` and column `i2` are the distances of prefixes. -/
def Filled (str1 str2 : List (BitVec 8)) (read : ℕ → ℕ → Option ℕ) (i1 i2 : ℕ) : Prop :=
  ∀ j1 j2, j2 ≤ str2.length → j1 < i1 ∧ i1 ≤ j1 + 2 ∨ j1 = i1 ∧ j2 < i2 →
    ∃ x, read j1 j2 = some x ∧ IsDistance (lastFirst str1 j1) (lastFirst str2 j2) x

lemma cellValue_isDistance {read : ℕ → ℕ → Option ℕ} {i1 i2 : ℕ}
    (h : Filled str1 str2 read i1 i2) (hi1 : i1 ≤ str1.length) (hi2 : i2 ≤ str2.length) :
    ∃ x, cellValue str1 str2 read i1 i2 = some x ∧
      IsDistance (lastFirst str1 i1) (lastFirst str2 i2) x := by
  rcases i1 with _ | i1
  · refine ⟨i2, by simp [cellValue], ?_⟩
    have hnil := IsDistance.nil_left (lastFirst str2 i2)
    rwa [length_lastFirst hi2] at hnil
  rcases i2 with _ | i2
  · refine ⟨i1 + 1, by simp [cellValue], ?_⟩
    have hnil := IsDistance.nil_right (lastFirst str1 (i1 + 1))
    rwa [length_lastFirst hi1] at hnil
  obtain ⟨a, ha, hleft⟩ := h i1 (i2 + 1) hi2 (by omega)
  obtain ⟨b, hb, hup⟩ := h (i1 + 1) i2 (by omega) (by omega)
  obtain ⟨x, hx, hupleft⟩ := h i1 i2 (by omega) (by omega)
  obtain ⟨c, hc, hprefix1⟩ := lastFirst_succ str1 hi1
  obtain ⟨d, hd, hprefix2⟩ := lastFirst_succ str2 hi2
  rw [hprefix2] at hleft ⊢
  rw [hprefix1] at hup ⊢
  simp only [cellValue, Nat.add_sub_cancel, ha, hb, hx, hc, hd, Option.some.injEq,
    Option.bind_eq_bind, Option.bind_some]
  rw [if_neg (by omega)]
  by_cases hswap : 1 < i1 + 1 ∧ 1 < i2 + 1 ∧ some c = str2[i2 + 1 - 2]? ∧
      str1[i1 + 1 - 2]? = some d
  · rw [if_pos hswap]
    obtain ⟨h1, h2, hcd, hdc⟩ := hswap
    obtain ⟨i1, rfl⟩ := Nat.exists_eq_add_one.mpr (Nat.lt_of_succ_lt_succ h1)
    obtain ⟨i2, rfl⟩ := Nat.exists_eq_add_one.mpr (Nat.lt_of_succ_lt_succ h2)
    obtain ⟨y, hy, hshort⟩ := h i1 i2 (by omega) (by omega)
    obtain ⟨d', hd', hprefix1'⟩ := lastFirst_succ str1 (show i1 + 1 ≤ _ by omega)
    obtain ⟨c', hc', hprefix2'⟩ := lastFirst_succ str2 (show i2 + 1 ≤ _ by omega)
    obtain rfl : c' = c := Option.some.inj (hc'.symm.trans hcd.symm)
    obtain rfl : d' = d := Option.some.inj (hd'.symm.trans hdc)
    rw [hprefix1', hprefix2'] at hleft hup hupleft ⊢
    refine ⟨_, ?_, hleft.cons_cons_swap hup hupleft hshort⟩
    rw [show i1 + 1 + 1 - 2 = i1 from rfl, show i2 + 1 + 1 - 2 = i2 from rfl, hy]
    rfl
  · rw [if_neg hswap]
    refine ⟨_, rfl, hleft.cons_cons hup hupleft fun s' t' hs ht => hswap ?_⟩
    rcases i1 with _ | i1
    · cases hs
    rcases i2 with _ | i2
    · cases ht
    obtain ⟨d', hd', hprefix1'⟩ := lastFirst_succ str1 (show i1 + 1 ≤ _ by omega)
    obtain ⟨c', hc', hprefix2'⟩ := lastFirst_succ str2 (show i2 + 1 ≤ _ by omega)
    cases hprefix1'.symm.trans hs
    cases hprefix2'.symm.trans ht
    exact ⟨by omega, by omega, hc'.symm, hd'⟩

section

variable {τ : Type} {access : TableAccess τ} {Sized : τ → Prop}

lemma exists_fillCell (haccess : access.IsRolling str2.length Sized) {dp : τ} {i1 i2 : ℕ}
    (hsized : Sized dp) (h : Filled str1 str2 (access.read dp) i1 i2) (hi1 : i1 ≤ str1.length)
    (hi2 : i2 ≤ str2.length) :
    ∃ dp', fillCell str1 str2 access i1 dp i2 = some dp' ∧ Sized dp' ∧
      Filled str1 str2 (access.read dp') i1 (i2 + 1) := by
  obtain ⟨x, hx, hdistance⟩ := cellValue_isDistance h hi1 hi2
  obtain ⟨dp', hdp', hsized', hread, hother⟩ := haccess.write dp i1 i2 x hsized hi2
  refine ⟨dp', by rw [fillCell, hx]; exact hdp', hsized', fun j1 j2 hj2 hj => ?_⟩
  by_cases hnew : j1 = i1 ∧ j2 = i2
  · obtain ⟨rfl, rfl⟩ := hnew
    exact ⟨x, hread, hdistance⟩
  · rw [hother j1 j2 (by omega)]
    exact h j1 j2 hj2 (by omega)

lemma exists_fillCells (haccess : access.IsRolling str2.length Sized) {dp : τ} {i1 : ℕ}
    (hsized : Sized dp) (h : Filled str1 str2 (access.read dp) i1 0) (hi1 : i1 ≤ str1.length)
    {n : ℕ} (hn : n ≤ str2.length + 1) :
    ∃ dp', (List.range n).foldlM (fillCell str1 str2 access i1) dp = some dp' ∧ Sized dp' ∧
      Filled str1 str2 (access.read dp') i1 n := by
  induction n with
  | zero => exact ⟨dp, rfl, hsized, h⟩
  | succ n ih =>
    obtain ⟨dp₁, hdp₁, hsized₁, h₁⟩ := ih (by omega)
    obtain ⟨dp₂, hdp₂, hsized₂, h₂⟩ := exists_fillCell haccess hsized₁ h₁ hi1 (by omega)
    refine ⟨dp₂, ?_, hsized₂, h₂⟩
    rw [range_succ, foldlM_append, hdp₁]
    simp [hdp₂]

lemma exists_fillRows (str1 : List (BitVec 8)) (haccess : access.IsRolling str2.length Sized)
    {empty : τ} (hsized : Sized empty) {n : ℕ} (hn : n ≤ str1.length + 1) :
    ∃ dp, (List.range n).foldlM (fillRow str1 str2 access) empty = some dp ∧ Sized dp ∧
      Filled str1 str2 (access.read dp) n 0 := by
  induction n with
  | zero => exact ⟨empty, rfl, hsized, fun j1 j2 _ hj => by omega⟩
  | succ n ih =>
    obtain ⟨dp₁, hdp₁, hsized₁, h₁⟩ := ih (by omega)
    obtain ⟨dp₂, hdp₂, hsized₂, h₂⟩ := exists_fillCells haccess hsized₁ h₁ (by omega) le_rfl
    refine ⟨dp₂, ?_, hsized₂, fun j1 j2 hj2 hj => ?_⟩
    · rw [range_succ, foldlM_append, hdp₁]
      simp [fillRow, hdp₂]
    · exact h₂ j1 j2 hj2 (by omega)

lemma exists_distanceIn (str1 : List (BitVec 8)) (haccess : access.IsRolling str2.length Sized)
    {empty : τ} (hsized : Sized empty) :
    ∃ n, distanceIn str1 str2 access empty = some n ∧ IsDistance str1 str2 n := by
  obtain ⟨dp, hdp, -, h⟩ := exists_fillRows str1 haccess hsized le_rfl
  obtain ⟨n, hn, hdistance⟩ := h str1.length str2.length le_rfl (by omega)
  refine ⟨n, by rw [distanceIn, hdp]; exact hn, ?_⟩
  have hreverse := hdistance.reverse
  rwa [lastFirst, lastFirst, reverse_reverse, reverse_reverse, take_length,
    take_length] at hreverse

end

/-- The computed number is the least number of edits, the same in both directions, and is computed
without reading a cell that was overwritten or not yet filled. -/
theorem stringDistance_isDistance (str1 str2 : List (BitVec 8)) :
    ∃ n, stringDistance str1 str2 = some n ∧ IsDistance str1 str2 n ∧
      stringDistance str2 str1 = some n ∧ checkedStringDistance str1 str2 = some n := by
  obtain ⟨n, hn, hdistance⟩ :=
    exists_distanceIn str1 (isRolling_vectorAccess str2.length) length_replicate
  obtain ⟨m, hm, hback⟩ :=
    exists_distanceIn str2 (isRolling_vectorAccess str1.length) length_replicate
  obtain ⟨k, hk, hchecked⟩ :=
    exists_distanceIn str1 (isRolling_checkedAccess str2.length) length_replicate
  obtain rfl := hdistance.unique hback.symm
  obtain rfl := hdistance.unique hchecked
  exact ⟨n, hn, hdistance, hm, hk⟩

end Dev
