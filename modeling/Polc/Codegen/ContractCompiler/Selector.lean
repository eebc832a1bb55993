import Polc.Sof.Assembly.Append
import Polc.Sof.Execution.Continuation
import Mathlib.Tactic.Ring

/-!
# Selection of external functions

`ContractCompiler::appendInternalSelector` of `libpolynomial/codegen/ContractCompiler.cpp`: code
that jumps to the function with the identifier on top of the stack. Identifiers are hashes, ordered
by their bytes, and compared as numbers on the stack.
-/

namespace Polynomial

open Semantics Sof Sof.Assembly Sof.BlockDeduplicator

/-- Bytes in lexicographic order. -/
def bytesLess : List (BitVec 8) → List (BitVec 8) → Bool
  | a :: as, b :: bs => if a < b then true else if b < a then false else bytesLess as bs
  | _, _ => false

/-- `FixedHash<N>` -/
structure FixedHash (n : ℕ) where
  data : List (BitVec 8)
  length_eq : data.length = n
  deriving DecidableEq

namespace FixedHash

variable {n : ℕ}

def less (a b : FixedHash n) : Bool := bytesLess a.data b.data

/-- The conversion to `Arith`. -/
def arith (a : FixedHash n) : ℕ := ofBigEndian a.data

end FixedHash

lemma foldl_bytes (bs : List (BitVec 8)) (k : ℕ) :
    bs.foldl (fun n b => 256 * n + b.toNat) k = k * 256 ^ bs.length + ofBigEndian bs := by
  induction bs using List.reverseRecOn with
  | nil => rw [List.foldl_nil, List.length_nil, Nat.pow_zero, Nat.mul_one]; rfl
  | append_singleton bs b ih =>
    rw [List.foldl_append, List.foldl_cons, List.foldl_nil, ih, ofBigEndian_concat,
      List.length_append, List.length_singleton, Nat.pow_succ]
    ring

lemma ofBigEndian_cons (b : BitVec 8) (bs : List (BitVec 8)) :
    ofBigEndian (b :: bs) = b.toNat * 256 ^ bs.length + ofBigEndian bs := by
  rw [ofBigEndian, List.foldl_cons, foldl_bytes, Nat.mul_zero, Nat.zero_add]

lemma bytesLess_iff {as bs : List (BitVec 8)} (h : as.length = bs.length) :
    bytesLess as bs ↔ ofBigEndian as < ofBigEndian bs := by
  induction as generalizing bs with
  | nil =>
    obtain rfl := List.length_eq_zero_iff.mp h.symm
    exact iff_of_false nofun (Nat.lt_irrefl _)
  | cons a as ih =>
    cases bs with
    | nil => cases h
    | cons b bs =>
      have hlength : as.length = bs.length := Nat.succ.inj h
      have has := ofBigEndian_lt as
      have hbs := ofBigEndian_lt bs
      rw [bytesLess, ofBigEndian_cons, ofBigEndian_cons, hlength]
      rw [hlength] at has
      generalize 256 ^ bs.length = m at has hbs
      split_ifs with hlt hgt
      · have hle : (a.toNat + 1) * m ≤ b.toNat * m := Nat.mul_le_mul_right m hlt
        rw [Nat.succ_mul] at hle
        exact iff_of_true rfl (by omega)
      · have hle : (b.toNat + 1) * m ≤ a.toNat * m := Nat.mul_le_mul_right m hgt
        rw [Nat.succ_mul] at hle
        exact iff_of_false nofun (by omega)
      · have heq : a.toNat = b.toNat :=
          Nat.le_antisymm (Nat.not_lt.mp hgt) (Nat.not_lt.mp hlt)
        rw [ih hlength, heq]
        omega

lemma FixedHash.less_iff {n : ℕ} {a b : FixedHash n} : a.less b ↔ a.arith < b.arith :=
  bytesLess_iff (a.length_eq.trans b.length_eq.symm)

namespace ContractCompiler

/-- `GasCosts::createDataGas` -/
def createDataGas : ℕ := 200

/-- Whether the identifiers are split, computed in 64 bits. -/
def splits (runs n : ℕ) : Bool :=
  if n ≤ 4 then false
  else if 17 * createDataGas / 6 < runs then true
  else 17 * createDataGas < runs * 6 * (n - 4) % 2 ^ 64

variable {runs : ℕ}

lemma four_lt_of_splits {n : ℕ} (h : splits runs n) : 4 < n := by
  rw [splits] at h
  split_ifs at h with hn hruns
  · omega
  · omega

/-- The comparison with one identifier. -/
def appendComparison (entryPoints : FixedHash 4 → Option Word) (a : Assembly) (id : FixedHash 4) :
    Option Assembly := do
  let a ← appendItems [.operation (.dup 0), .push (.ofNat 256 id.arith), .operation .eq] a
  let tag ← entryPoints id
  appendJumpI tag a

/-- Fails if an identifier has no entry point, or there are no more tags. -/
def appendInternalSelector (entryPoints : FixedHash 4 → Option Word) (notFoundTag : Word)
    (runs : ℕ) (ids : List (FixedHash 4)) (a : Assembly) : Option Assembly :=
  if splits runs ids.length = true then do
    let pivotIndex := ids.length / 2
    let pivot ← ids[pivotIndex]?
    let a ← appendItems [.operation (.dup 0), .push (.ofNat 256 pivot.arith), .operation .gt] a
    let (lessTag, a) ← newTag a
    let a ← appendJumpI lessTag a
    let a ← appendInternalSelector entryPoints notFoundTag runs (ids.drop pivotIndex) a
    let a ← a.appendItem (.tag lessTag)
    appendInternalSelector entryPoints notFoundTag runs (ids.take pivotIndex) a
  else do
    let a ← ids.foldlM (appendComparison entryPoints) a
    appendJump notFoundTag a
termination_by ids.length
decreasing_by
  all_goals
    have := four_lt_of_splits ‹_›
    simp only [List.length_drop, List.length_take]
    omega

variable {a r : Assembly}

lemma items_appendItems {is : List AssemblyItem} (h : appendItems is a = some r) :
    r.items = a.items ++ is := by
  induction is generalizing a with
  | nil =>
    cases h
    exact (List.append_nil _).symm
  | cons i is ih =>
    obtain ⟨a', ha', hr⟩ := Option.bind_eq_some_iff.mp h
    obtain ⟨-, rfl⟩ := appendItem_eq ha'
    rw [ih hr, List.append_assoc]
    rfl

/-! ### Where the code jumps to -/

variable {World : Type} {env : Environment World} {layout : Layout} {program : List AssemblyItem}

/-- The run comes to the code behind the tag, if it is placed. -/
def ArrivesAt (env : Environment World) (layout : Layout) (program : List AssemblyItem)
    (c : Config World) (t : Word) (stack : List Value) (state : SvmState World) : Prop :=
  ∀ code, .tag t :: code <:+ program → Proceeds env layout program 0 c (.ok (code, stack) state)

/-- With a selector on top of the stack, the code comes to the entry point of the function with this
identifier, and to the tag for the case that there is none. -/
def Selects (env : Environment World) (layout : Layout) (program : List AssemblyItem)
    (entryPoints : FixedHash 4 → Option Word) (notFoundTag : Word) (ids : List (FixedHash 4))
    (selector : BitVec 32) (code : List AssemblyItem) : Prop :=
  ∀ stack state,
    (∀ id ∈ ids, id.arith = selector.toNat → ∀ t, entryPoints id = some t →
      ArrivesAt env layout program ⟨code, .word (selector.setWidth 256) :: stack, state⟩ t
        (.word (selector.setWidth 256) :: stack) state) ∧
    ((∀ id ∈ ids, id.arith ≠ selector.toNat) →
      ArrivesAt env layout program ⟨code, .word (selector.setWidth 256) :: stack, state⟩
        notFoundTag (.word (selector.setWidth 256) :: stack) state)

section

variable {code : List AssemblyItem} {stack : List Value} {state : SvmState World} {s p t : Word}
  {r : Continuation World}

lemma proceeds_eq
    (h : Proceeds env layout program 0
      ⟨code, .word (Word.ofBool (p = s)) :: .word s :: stack, state⟩ r) :
    Proceeds env layout program 0
      ⟨.operation (.dup 0) :: .push p :: .operation .eq :: code, .word s :: stack, state⟩ r :=
  .item rfl rfl (.push p (.operation .eq [p, s] rfl rfl rfl h))

lemma proceeds_gt
    (h : Proceeds env layout program 0
      ⟨code, .word (Word.ofBool (s.ult p)) :: .word s :: stack, state⟩ r) :
    Proceeds env layout program 0
      ⟨.operation (.dup 0) :: .push p :: .operation .gt :: code, .word s :: stack, state⟩ r :=
  .item rfl rfl (.push p (.operation .gt [p, s] rfl rfl rfl h))

lemma proceeds_jumpi_zero (h : Proceeds env layout program 0 ⟨code, stack, state⟩ r) :
    Proceeds env layout program 0
      ⟨.pushTag t :: .operation .jumpi :: code, .word 0 :: stack, state⟩ r :=
  .item rfl rfl (.item rfl rfl h)

lemma proceeds_jumpi_one {l : List AssemblyItem} (htags : TagsPlacedOnce program)
    (hsuffix : .tag t :: l <:+ program) (h : Proceeds env layout program 0 ⟨l, stack, state⟩ r) :
    Proceeds env layout program 0
      ⟨.pushTag t :: .operation .jumpi :: code, .word 1 :: stack, state⟩ r :=
  .jumpi htags hsuffix (fun _ => h) fun hzero => absurd hzero (by decide)

end

lemma arith_lt (id : FixedHash 4) : id.arith < 2 ^ 32 := by
  have h := ofBigEndian_lt id.data
  rw [id.length_eq] at h
  exact h

/-- Identifiers and selectors are compared as words as they are compared as numbers. -/
lemma toNat_arith (id : FixedHash 4) : (BitVec.ofNat 256 id.arith).toNat = id.arith := by
  rw [BitVec.toNat_ofNat]
  exact Nat.mod_eq_of_lt ((arith_lt id).trans (by decide))

lemma toNat_selector (selector : BitVec 32) : (selector.setWidth 256).toNat = selector.toNat := by
  rw [BitVec.toNat_setWidth]
  exact Nat.mod_eq_of_lt (selector.isLt.trans (by decide))

variable {id : FixedHash 4}

lemma arith_eq_iff {selector : BitVec 32} :
    BitVec.ofNat 256 id.arith = selector.setWidth 256 ↔ id.arith = selector.toNat := by
  rw [← BitVec.toNat_inj, toNat_arith, toNat_selector]

lemma ult_arith {selector : BitVec 32} :
    (selector.setWidth 256).ult (.ofNat 256 id.arith) = decide (selector.toNat < id.arith) := by
  rw [BitVec.ult, toNat_arith, toNat_selector]

section

variable {entryPoints : FixedHash 4 → Option Word} {notFoundTag : Word}
  {ids ids' : List (FixedHash 4)} {selector : BitVec 32} {code : List AssemblyItem}

/-- It is enough to select among the identifiers that may be equal to the selector. -/
lemma Selects.of_subset (h : Selects env layout program entryPoints notFoundTag ids' selector code)
    (hsub : ∀ id ∈ ids', id ∈ ids)
    (hids : ∀ id ∈ ids, id.arith = selector.toNat → id ∈ ids') :
    Selects env layout program entryPoints notFoundTag ids selector code := by
  intro stack state
  obtain ⟨hfound, hnot⟩ := h stack state
  exact ⟨fun id hid heq => hfound id (hids id hid heq) heq,
    fun hne => hnot fun id hid => hne id (hsub id hid)⟩

lemma Selects.of_proceeds {code' : List AssemblyItem}
    (h : Selects env layout program entryPoints notFoundTag ids selector code)
    (hcode : ∀ stack state r,
      Proceeds env layout program 0 ⟨code, .word (selector.setWidth 256) :: stack, state⟩ r →
      Proceeds env layout program 0 ⟨code', .word (selector.setWidth 256) :: stack, state⟩ r) :
    Selects env layout program entryPoints notFoundTag ids selector code' := by
  intro stack state
  obtain ⟨hfound, hnot⟩ := h stack state
  exact ⟨fun id hid heq t ht l hl => hcode _ _ _ (hfound id hid heq t ht l hl),
    fun hne l hl => hcode _ _ _ (hnot hne l hl)⟩

lemma selects_jump (htags : TagsPlacedOnce program) :
    Selects env layout program entryPoints notFoundTag [] selector
      (.pushTag notFoundTag :: .operation .jump :: code) := by
  intro stack state
  refine ⟨fun id hid => absurd hid List.not_mem_nil, fun _ l hl => ?_⟩
  exact (Proceeds.jump htags hl (.ok l _ state)).mono (Nat.zero_le 1)

lemma selects_comparison {t : Word} (htags : TagsPlacedOnce program)
    (ht : entryPoints id = some t) (hids : ∀ id' ∈ ids, id.less id')
    (h : Selects env layout program entryPoints notFoundTag ids selector code) :
    Selects env layout program entryPoints notFoundTag (id :: ids) selector
      (.operation (.dup 0) :: .push (.ofNat 256 id.arith) :: .operation .eq :: .pushTag t ::
        .operation .jumpi :: code) := by
  by_cases heq : id.arith = selector.toNat
  · have hpushed : Word.ofBool (decide (BitVec.ofNat 256 id.arith = selector.setWidth 256)) = 1 :=
      if_pos (decide_eq_true (arith_eq_iff.mpr heq))
    intro stack state
    constructor
    · intro id' hid' heq' t' ht' l hl
      rcases List.mem_cons.mp hid' with rfl | hid'
      · cases ht.symm.trans ht'
        apply proceeds_eq
        rw [hpushed]
        exact proceeds_jumpi_one htags hl (.ok l _ state)
      · have hless := FixedHash.less_iff.mp (hids id' hid')
        exact absurd (heq.trans heq'.symm) hless.ne
    · intro hne
      exact absurd heq (hne id (List.mem_cons_self ..))
  · have hpushed : Word.ofBool (decide (BitVec.ofNat 256 id.arith = selector.setWidth 256)) = 0 :=
      if_neg (fun h => heq (arith_eq_iff.mp (of_decide_eq_true h)))
    refine Selects.of_subset (h.of_proceeds fun stack state r hr => proceeds_eq ?_)
      (fun id' hid' => List.mem_cons_of_mem id hid') ?_
    · rw [hpushed]
      exact proceeds_jumpi_zero hr
    · intro id' hid' heq'
      rcases List.mem_cons.mp hid' with rfl | hid'
      · exact absurd heq' heq
      · exact hid'

lemma selects_split {pivot : FixedHash 4} {t : Word} {l : List AssemblyItem}
    (htags : TagsPlacedOnce program) (hsuffix : .tag t :: l <:+ program)
    (hsmaller : selector.toNat < pivot.arith →
      Selects env layout program entryPoints notFoundTag ids selector l)
    (hlarger : ¬ selector.toNat < pivot.arith →
      Selects env layout program entryPoints notFoundTag ids selector code) :
    Selects env layout program entryPoints notFoundTag ids selector
      (.operation (.dup 0) :: .push (.ofNat 256 pivot.arith) :: .operation .gt :: .pushTag t ::
        .operation .jumpi :: code) := by
  by_cases hlt : selector.toNat < pivot.arith
  · refine (hsmaller hlt).of_proceeds fun stack state r hr => proceeds_gt ?_
    rw [ult_arith, decide_eq_true hlt]
    exact proceeds_jumpi_one htags hsuffix hr
  · refine (hlarger hlt).of_proceeds fun stack state r hr => proceeds_gt ?_
    rw [ult_arith, decide_eq_false hlt]
    exact proceeds_jumpi_zero hr

/-- The emitted code selects wherever it stands in a program. -/
def Emits (entryPoints : FixedHash 4 → Option Word) (notFoundTag : Word)
    (ids : List (FixedHash 4)) (w : List AssemblyItem) : Prop :=
  ∀ {World : Type} (env : Environment World) (layout : Layout) (program l : List AssemblyItem),
    w ++ l <:+ program → TagsPlacedOnce program → ∀ selector,
    Selects env layout program entryPoints notFoundTag ids selector (w ++ l)

lemma emits_comparisons {r' : Assembly} (hsorted : ids.Pairwise fun id id' => id.less id')
    (h : ids.foldlM (appendComparison entryPoints) a = some r)
    (hjump : appendJump notFoundTag r = some r') :
    ∃ w, r'.items = a.items ++ w ∧ Emits entryPoints notFoundTag ids w := by
  induction ids generalizing a with
  | nil =>
    cases h
    refine ⟨_, items_appendItems hjump, ?_⟩
    intro World env layout program l _ htags selector
    exact selects_jump htags
  | cons id ids ih =>
    obtain ⟨hid, hids⟩ := List.pairwise_cons.mp hsorted
    rw [List.foldlM_cons] at h
    obtain ⟨a₁, h₁, h⟩ := Option.bind_eq_some_iff.mp h
    obtain ⟨a₂, h₂, h₁⟩ := Option.bind_eq_some_iff.mp h₁
    obtain ⟨t, ht, h₁⟩ := Option.bind_eq_some_iff.mp h₁
    obtain ⟨w, hw, hemits⟩ := ih hids h
    refine ⟨.operation (.dup 0) :: .push (.ofNat 256 id.arith) :: .operation .eq :: .pushTag t ::
      .operation .jumpi :: w, ?_, ?_⟩
    · rw [hw, items_appendItems h₁, items_appendItems h₂, List.append_assoc, List.append_assoc]
      rfl
    · intro World env layout program l hsuffix htags selector
      apply selects_comparison htags ht hid
      apply hemits env layout program l ?_ htags selector
      exact (List.suffix_append [_, _, _, _, _] (w ++ l)).trans hsuffix

lemma pivot_of_sorted {k : ℕ} {pivot : FixedHash 4} (hpivot : ids[k]? = some pivot)
    (hsorted : ids.Pairwise fun id id' => id.less id') :
    (∀ id ∈ ids.take k, id.arith < pivot.arith) ∧ ∀ id ∈ ids.drop k, pivot.arith ≤ id.arith := by
  obtain ⟨hk, rfl⟩ := List.getElem?_eq_some_iff.mp hpivot
  rw [← List.take_append_drop k ids, List.drop_eq_getElem_cons hk, List.pairwise_append,
    List.pairwise_cons] at hsorted
  obtain ⟨-, ⟨hlarger, -⟩, hsmaller⟩ := hsorted
  refine ⟨fun id hid => FixedHash.less_iff.mp (hsmaller id hid _ (List.mem_cons_self ..)), ?_⟩
  intro id hid
  rw [List.drop_eq_getElem_cons hk] at hid
  rcases List.mem_cons.mp hid with rfl | hid
  · exact le_rfl
  · exact (FixedHash.less_iff.mp (hlarger id hid)).le

lemma appendInternalSelector_of_splits (h : splits runs ids.length) :
    appendInternalSelector entryPoints notFoundTag runs ids a = (do
      let pivot ← ids[ids.length / 2]?
      let a ← appendItems [.operation (.dup 0), .push (.ofNat 256 pivot.arith), .operation .gt] a
      let (lessTag, a) ← newTag a
      let a ← appendJumpI lessTag a
      let a ← appendInternalSelector entryPoints notFoundTag runs (ids.drop (ids.length / 2)) a
      let a ← a.appendItem (.tag lessTag)
      appendInternalSelector entryPoints notFoundTag runs (ids.take (ids.length / 2)) a) := by
  rw [appendInternalSelector, if_pos h]

lemma appendInternalSelector_of_not_splits (h : ¬ splits runs ids.length) :
    appendInternalSelector entryPoints notFoundTag runs ids a = (do
      let a ← ids.foldlM (appendComparison entryPoints) a
      appendJump notFoundTag a) := by
  rw [appendInternalSelector, if_neg h]

lemma emits_appendInternalSelector (n runs : ℕ) (hn : ids.length = n)
    (hsorted : ids.Pairwise fun id id' => id.less id')
    (h : appendInternalSelector entryPoints notFoundTag runs ids a = some r) :
    ∃ w, r.items = a.items ++ w ∧ Emits entryPoints notFoundTag ids w := by
  induction n using Nat.strong_induction_on generalizing ids a r with
  | _ n ih =>
    subst hn
    by_cases hsplit : splits runs ids.length = true
    · rw [appendInternalSelector_of_splits hsplit] at h
      have hlength := four_lt_of_splits hsplit
      obtain ⟨pivot, hpivot, h⟩ := Option.bind_eq_some_iff.mp h
      obtain ⟨a₁, h₁, h⟩ := Option.bind_eq_some_iff.mp h
      obtain ⟨⟨t, a₂⟩, h₂, h⟩ := Option.bind_eq_some_iff.mp h
      obtain ⟨a₃, h₃, h⟩ := Option.bind_eq_some_iff.mp h
      obtain ⟨a₄, h₄, h⟩ := Option.bind_eq_some_iff.mp h
      obtain ⟨a₅, h₅, h⟩ := Option.bind_eq_some_iff.mp h
      obtain ⟨wl, hwl, hlarger⟩ := ih _ (by rw [List.length_drop]; omega) rfl
        (hsorted.sublist (List.drop_sublist _ _)) h₄
      obtain ⟨ws, hws, hsmaller⟩ := ih _ (by rw [List.length_take]; omega) rfl
        (hsorted.sublist (List.take_sublist _ _)) h
      obtain ⟨hbelow, habove⟩ := pivot_of_sorted hpivot hsorted
      refine ⟨.operation (.dup 0) :: .push (.ofNat 256 pivot.arith) :: .operation .gt ::
        .pushTag t :: .operation .jumpi :: (wl ++ .tag t :: ws), ?_, ?_⟩
      · obtain ⟨-, rfl⟩ := appendItem_eq h₅
        rw [hws, hwl, items_appendItems h₃, newTag_eq h₂, items_appendItems h₁]
        simp only [List.append_assoc, List.cons_append, List.nil_append]
      · intro World env layout program l hsuffix htags selector
        have hcode : wl ++ (.tag t :: (ws ++ l)) <:+ program := by
          refine List.IsSuffix.trans ?_ hsuffix
          simp only [List.cons_append, List.append_assoc]
          exact List.suffix_append [_, _, _, _, _] _
        have htag : .tag t :: (ws ++ l) <:+ program := (List.suffix_append wl _).trans hcode
        have hless : ws ++ l <:+ program := (List.suffix_cons _ _).trans htag
        simp only [List.cons_append, List.append_assoc]
        apply selects_split htags htag
        · intro hlt
          refine (hsmaller env layout program l hless htags selector).of_subset
            (fun id => List.mem_of_mem_take) fun id hid heq => ?_
          rw [← List.take_append_drop (ids.length / 2) ids] at hid
          exact (List.mem_append.mp hid).resolve_right
            fun hdrop => absurd (habove id hdrop) (Nat.not_le.mpr (heq ▸ hlt))
        · intro hlt
          refine (hlarger env layout program _ hcode htags selector).of_subset
            (fun id => List.mem_of_mem_drop) fun id hid heq => ?_
          rw [← List.take_append_drop (ids.length / 2) ids] at hid
          exact (List.mem_append.mp hid).resolve_left
            fun htake => hlt (heq ▸ hbelow id htake)
    · rw [appendInternalSelector_of_not_splits hsplit] at h
      obtain ⟨a₁, h₁, h⟩ := Option.bind_eq_some_iff.mp h
      exact emits_comparisons hsorted h₁ h

/-! ### The code is emitted -/

/-- There are enough elements on the stack for the items. -/
def Fits : ℤ → List AssemblyItem → Prop
  | _, [] => True
  | deposit, i :: is => 0 ≤ deposit ∧ Fits (deposit + i.deposit) is

lemma exists_appendItems (is : List AssemblyItem) (h : Fits a.deposit is) :
    ∃ r, appendItems is a = some r ∧ r.deposit = a.deposit + (is.map (·.deposit)).sum ∧
      r.usedTags = a.usedTags := by
  induction is generalizing a with
  | nil => exact ⟨a, rfl, (add_zero _).symm, rfl⟩
  | cons i is ih =>
    obtain ⟨hnonneg, hfits⟩ := h
    obtain ⟨r, hr, hdeposit, htags⟩ := ih (a := { a with
      deposit := a.deposit + i.deposit, items := a.items ++ [i] }) hfits
    refine ⟨r, ?_, ?_, htags⟩
    · rw [appendItems, appendItem, if_pos hnonneg, Option.bind_some, hr]
    · rw [hdeposit, List.map_cons, List.sum_cons, add_assoc]

lemma exists_compare (i : Instruction) (hi : (AssemblyItem.operation i).deposit = -1) (p : Word)
    (h : 0 ≤ a.deposit) :
    ∃ r, appendItems [.operation (.dup 0), .push p, .operation i] a = some r ∧
      r.deposit = a.deposit + 1 ∧ r.usedTags = a.usedTags := by
  have hdup : (AssemblyItem.operation (.dup 0)).deposit = 1 := rfl
  have hpush : (AssemblyItem.push p).deposit = 1 := rfl
  obtain ⟨r, hr, hdeposit, htags⟩ := exists_appendItems (a := a)
    [.operation (.dup 0), .push p, .operation i]
    ⟨h, by rw [hdup]; omega, by rw [hdup, hpush]; omega, trivial⟩
  refine ⟨r, hr, ?_, htags⟩
  rw [hdeposit]
  simp only [List.map_cons, List.map_nil, List.sum_cons, List.sum_nil, hdup, hpush, hi]
  omega

lemma exists_appendJumpI (t : Word) (h : 1 ≤ a.deposit) :
    ∃ r, appendJumpI t a = some r ∧ r.deposit = a.deposit - 1 ∧ r.usedTags = a.usedTags := by
  have hpush : (AssemblyItem.pushTag t).deposit = 1 := rfl
  have hjumpi : (AssemblyItem.operation .jumpi).deposit = -2 := rfl
  obtain ⟨r, hr, hdeposit, htags⟩ := exists_appendItems (a := a)
    [.pushTag t, .operation .jumpi] ⟨by omega, by rw [hpush]; omega, trivial⟩
  refine ⟨r, hr, ?_, htags⟩
  rw [hdeposit]
  simp only [List.map_cons, List.map_nil, List.sum_cons, List.sum_nil, hpush, hjumpi]
  omega

lemma exists_appendJump (t : Word) (h : 0 ≤ a.deposit) :
    ∃ r, appendJump t a = some r ∧ r.deposit = a.deposit ∧ r.usedTags = a.usedTags := by
  have hpush : (AssemblyItem.pushTag t).deposit = 1 := rfl
  have hjump : (AssemblyItem.operation .jump).deposit = -1 := rfl
  obtain ⟨r, hr, hdeposit, htags⟩ := exists_appendItems (a := a)
    [.pushTag t, .operation .jump] ⟨h, by rw [hpush]; omega, trivial⟩
  refine ⟨r, hr, ?_, htags⟩
  rw [hdeposit]
  simp only [List.map_cons, List.map_nil, List.sum_cons, List.sum_nil, hpush, hjump]
  omega

lemma exists_comparisons (hentries : ∀ id ∈ ids, (entryPoints id).isSome) (h : 0 ≤ a.deposit) :
    ∃ r, ids.foldlM (appendComparison entryPoints) a = some r ∧
      r.deposit = a.deposit ∧ r.usedTags = a.usedTags := by
  induction ids generalizing a with
  | nil => exact ⟨a, rfl, rfl, rfl⟩
  | cons id ids ih =>
    obtain ⟨t, ht⟩ := Option.isSome_iff_exists.mp (hentries id (List.mem_cons_self ..))
    obtain ⟨a₁, h₁, hd₁, ht₁⟩ := exists_compare (a := a) .eq rfl (.ofNat 256 id.arith) h
    obtain ⟨a₂, h₂, hd₂, ht₂⟩ := exists_appendJumpI (a := a₁) t (by omega)
    obtain ⟨r, hr, hd, htags⟩ := ih (a := a₂)
      (fun id' hid' => hentries id' (List.mem_cons_of_mem id hid')) (by omega)
    refine ⟨r, ?_, by omega, by omega⟩
    have hstep : appendComparison entryPoints a id = some a₂ := by
      simp only [appendComparison, h₁, ht, Option.bind_eq_bind, Option.bind_some, h₂]
    rw [List.foldlM_cons, hstep, Option.bind_eq_bind, Option.bind_some, hr]

lemma exists_appendInternalSelector (n runs : ℕ) (hn : ids.length = n)
    (hentries : ∀ id ∈ ids, (entryPoints id).isSome) (hdeposit : 0 ≤ a.deposit)
    (htags : a.usedTags + n < 2 ^ 32) :
    ∃ r, appendInternalSelector entryPoints notFoundTag runs ids a = some r ∧
      r.deposit = a.deposit ∧ r.usedTags + 1 ≤ a.usedTags + max n 1 := by
  induction n using Nat.strong_induction_on generalizing ids a with
  | _ n ih =>
    subst hn
    by_cases hsplit : splits runs ids.length = true
    · have hlength := four_lt_of_splits hsplit
      obtain ⟨pivot, hpivot⟩ : ∃ pivot, ids[ids.length / 2]? = some pivot :=
        ⟨_, List.getElem?_eq_getElem (by omega)⟩
      obtain ⟨a₁, h₁, hd₁, ht₁⟩ := exists_compare (a := a) .gt rfl (.ofNat 256 pivot.arith) hdeposit
      have h₂ : newTag a₁ =
          some (.ofNat 256 a₁.usedTags, { a₁ with usedTags := a₁.usedTags + 1 }) :=
        if_pos (by omega)
      generalize BitVec.ofNat 256 a₁.usedTags = t at h₂
      obtain ⟨a₃, h₃, hd₃, ht₃⟩ := exists_appendJumpI
        (a := { a₁ with usedTags := a₁.usedTags + 1 }) t (by change 1 ≤ a₁.deposit; omega)
      change a₃.deposit = a₁.deposit - 1 at hd₃
      change a₃.usedTags = a₁.usedTags + 1 at ht₃
      have hdrop : (ids.drop (ids.length / 2)).length = ids.length - ids.length / 2 :=
        List.length_drop
      have htake : (ids.take (ids.length / 2)).length = ids.length / 2 :=
        List.length_take_of_le (Nat.div_le_self _ _)
      obtain ⟨a₄, h₄, hd₄, ht₄⟩ := ih (ids.length - ids.length / 2) (by omega) hdrop (a := a₃)
        (fun id hid => hentries id (List.mem_of_mem_drop hid)) (by omega) (by omega)
      have h₅ : a₄.appendItem (.tag t) = some { a₄ with
          deposit := a₄.deposit + (AssemblyItem.tag t).deposit, items := a₄.items ++ [.tag t] } :=
        if_pos (by omega)
      have htag : (AssemblyItem.tag t).deposit = 0 := rfl
      rw [htag, add_zero] at h₅
      obtain ⟨r, hr, hd, ht⟩ := ih (ids.length / 2) (by omega) htake
        (a := { a₄ with items := a₄.items ++ [.tag t] })
        (fun id hid => hentries id (List.mem_of_mem_take hid)) (by change 0 ≤ a₄.deposit; omega)
        (by change a₄.usedTags + _ < _; omega)
      change r.deposit = a₄.deposit at hd
      change r.usedTags + 1 ≤ a₄.usedTags + _ at ht
      refine ⟨r, ?_, by omega, by omega⟩
      rw [appendInternalSelector_of_splits hsplit]
      simp only [hpivot, h₁, h₂, h₃, h₄, h₅, Option.bind_eq_bind, Option.bind_some, hr]
    · rw [appendInternalSelector_of_not_splits hsplit]
      obtain ⟨a₁, h₁, hd₁, ht₁⟩ := exists_comparisons hentries hdeposit
      obtain ⟨r, hr, hd, ht⟩ := exists_appendJump (a := a₁) notFoundTag (by omega)
      refine ⟨r, ?_, by omega, by omega⟩
      rw [h₁, Option.bind_eq_bind, Option.bind_some, hr]

end

/-- For sorted identifiers code is emitted, as long as there are enough tags, and wherever it stands
in a program it comes to the entry point of the function with the identifier on the stack. -/
theorem appendInternalSelector_selects (entryPoints : FixedHash 4 → Option Word)
    (notFoundTag : Word) (runs : ℕ) (ids : List (FixedHash 4)) (a : Assembly)
    (hsorted : ids.Pairwise fun id id' => id.less id') :
    (0 ≤ a.deposit → (∀ id ∈ ids, (entryPoints id).isSome) → a.usedTags + ids.length < 2 ^ 32 →
      ∃ r, appendInternalSelector entryPoints notFoundTag runs ids a = some r) ∧
    ∀ r, appendInternalSelector entryPoints notFoundTag runs ids a = some r →
      ∃ w, r.items = a.items ++ w ∧ Emits entryPoints notFoundTag ids w := by
  constructor
  · intro hdeposit hentries htags
    obtain ⟨r, hr, -⟩ := exists_appendInternalSelector ids.length runs rfl hentries hdeposit htags
    exact ⟨r, hr⟩
  · intro r hr
    exact emits_appendInternalSelector ids.length runs rfl hsorted hr

/-- Five identifiers, which are split. -/
theorem appendInternalSelector_selects_five :
    ∃ r w, appendInternalSelector (fun id => some (.ofNat 256 (id.arith + 10))) 9 1000
      [⟨[0, 0, 0, 1], rfl⟩, ⟨[0, 0, 0, 2], rfl⟩, ⟨[0, 0, 1, 0], rfl⟩, ⟨[0, 1, 0, 0], rfl⟩,
        ⟨[1, 0, 0, 0], rfl⟩] {} = some r ∧ r.items = w ∧
      Emits (fun id => some (.ofNat 256 (id.arith + 10))) 9
        [⟨[0, 0, 0, 1], rfl⟩, ⟨[0, 0, 0, 2], rfl⟩, ⟨[0, 0, 1, 0], rfl⟩, ⟨[0, 1, 0, 0], rfl⟩,
          ⟨[1, 0, 0, 0], rfl⟩] w := by
  obtain ⟨hemitted, hselects⟩ := appendInternalSelector_selects
    (fun id => some (.ofNat 256 (id.arith + 10))) 9 1000
    [⟨[0, 0, 0, 1], rfl⟩, ⟨[0, 0, 0, 2], rfl⟩, ⟨[0, 0, 1, 0], rfl⟩, ⟨[0, 1, 0, 0], rfl⟩,
      ⟨[1, 0, 0, 0], rfl⟩] {} (by decide)
  obtain ⟨r, hr⟩ := hemitted (by decide) (fun _ _ => rfl) (by decide)
  obtain ⟨w, hw, hemits⟩ := hselects r hr
  exact ⟨r, w, hr, hw, hemits⟩

end ContractCompiler

end Polynomial
