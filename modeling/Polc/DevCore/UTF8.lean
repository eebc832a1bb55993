import Mathlib.Data.BitVec

/-!
# Validation of UTF-8

The two nested loops of `libdevcore/UTF8.cpp`, which share an index, against the table of the
well-formed sequences of bytes (Unicode, Table 3-7).
-/

namespace Dev

open List

/-- A byte of a string. -/
abbrev Octet := BitVec 8

namespace Utf8

/-- The smallest and the largest byte at a place of a sequence. -/
abbrev Range := ℕ × ℕ

/-- The bytes that continue a sequence where its first byte does not say otherwise. -/
def tail : Range := (0x80, 0xbf)

/-- Table 3-7: one row for each kind of sequence. -/
def table : List (List Range) :=
  [[(0x00, 0x7f)],
   [(0xc2, 0xdf), tail],
   [(0xe0, 0xe0), (0xa0, 0xbf), tail],
   [(0xe1, 0xec), tail, tail],
   [(0xed, 0xed), (0x80, 0x9f), tail],
   [(0xee, 0xef), tail, tail],
   [(0xf0, 0xf0), (0x90, 0xbf), tail, tail],
   [(0xf1, 0xf3), tail, tail, tail],
   [(0xf4, 0xf4), (0x80, 0x8f), tail, tail]]

/-- The bytes encode one character. -/
def IsSequence (s : List Octet) : Prop :=
  ∃ row ∈ table, List.Forall₂ (fun (b : Octet) (r : Range) => r.1 ≤ b.toNat ∧ b.toNat ≤ r.2) s row

instance (s : List Octet) : Decidable (IsSequence s) :=
  inferInstanceAs (Decidable (∃ row ∈ table, _))

inductive WellFormed : List Octet → Prop where
  | nil : WellFormed []
  | append {q s : List Octet} : IsSequence q → WellFormed s → WellFormed (q ++ s)

/-- The first `p` bytes can be continued to well-formed ones, and no more than these can. -/
def StopsAt (s : List Octet) (p : ℕ) : Prop :=
  p ≤ s.length ∧ (∃ t, WellFormed (s.take p ++ t)) ∧
    (p < s.length → ¬ ∃ t, WellFormed (s.take (p + 1) ++ t))

end Utf8

/-- The second byte against the first one. -/
def isWellFormed (byte1 byte2 : Octet) : Bool :=
  if byte1 = 0xc0 ∨ byte1 = 0xc1 then false
  else if 0xc2 ≤ byte1 ∧ byte1 ≤ 0xdf then true
  else if byte1 = 0xe0 then (if byte2 < 0xa0 then false else true)
  else if 0xe1 ≤ byte1 ∧ byte1 ≤ 0xec then true
  else if byte1 = 0xed then (if byte2 > 0x9f then false else true)
  else if byte1 = 0xee ∨ byte1 = 0xef then true
  else if byte1 = 0xf0 then (if byte2 < 0x90 then false else true)
  else if 0xf1 ≤ byte1 ∧ byte1 ≤ 0xf3 then true
  else if byte1 = 0xf4 then (if byte2 > 0x8f then false else true)
  else false

/-- How many bytes the first byte of a sequence says that follow. -/
def continuationCount (b : Octet) : ℕ :=
  if 0xc0 ≤ b ∧ b ≤ 0xdf then 1
  else if 0xe0 ≤ b ∧ b ≤ 0xef then 2
  else if 0xf0 ≤ b ∧ b ≤ 0xf7 then 3
  else 0

section

variable (input : List Octet)

/-- The inner loop with `n` rounds left, which leaves the index behind at the byte it stops at. -/
def continuationLoop (j i : ℕ) : ℕ → Bool × ℕ
  | 0 => (true, i)
  | n + 1 =>
    if input.getD (i + 1) 0 &&& 0xc0 ≠ 0x80 then (false, i + 1)
    else if j = 0 ∧ ¬ isWellFormed (input.getD i 0) (input.getD (i + 1) 0) then (false, i + 1)
    else continuationLoop (j + 1) (i + 1) n

lemma le_continuationLoop (j i n : ℕ) : i ≤ (continuationLoop input j i n).2 := by
  induction n generalizing i j with
  | zero => exact le_rfl
  | succ n ih =>
    rw [continuationLoop]
    split_ifs
    · exact Nat.le_succ i
    · exact Nat.le_succ i
    · exact (Nat.le_succ i).trans (ih (j + 1) (i + 1))

/-- The outer loop. What the inner one finds is noted only, and the outer one goes on. -/
def sequenceLoop (valid : Bool) (i : ℕ) : Bool × ℕ :=
  if i < input.length then
    if input.getD i 0 < 0x80 then sequenceLoop valid (i + 1)
    else if continuationCount (input.getD i 0) = 0 then (false, i)
    else if input.length ≤ i + continuationCount (input.getD i 0) then (false, i)
    else
      let r := continuationLoop input 0 i (continuationCount (input.getD i 0))
      sequenceLoop (valid && r.1) (r.2 + 1)
  else (valid, i)
termination_by input.length - i
decreasing_by
  · omega
  · have hle := le_continuationLoop input 0 i (continuationCount (input.getD i 0))
    omega

/-- The reported position where the function returns false, and nothing where it returns true. -/
def validateUTF8 : Option ℕ :=
  match sequenceLoop input true 0 with
  | (true, _) => none
  | (false, i) => some i

end

/-- A byte that the mask lets pass. -/
def IsTail (b : Octet) : Prop := b &&& 0xc0 = 0x80

lemma isTail_iff (b : Octet) : IsTail b ↔ 0x80 ≤ b.toNat ∧ b.toNat ≤ 0xbf := by
  revert b
  unfold IsTail
  decide

lemma isWellFormed_iff (b x : Octet) :
    isWellFormed b x ↔
      (0xc2 ≤ b.toNat ∧ b.toNat ≤ 0xdf) ∨ (b.toNat = 0xe0 ∧ 0xa0 ≤ x.toNat) ∨
      (0xe1 ≤ b.toNat ∧ b.toNat ≤ 0xec) ∨ (b.toNat = 0xed ∧ x.toNat ≤ 0x9f) ∨
      (b.toNat = 0xee ∨ b.toNat = 0xef) ∨ (b.toNat = 0xf0 ∧ 0x90 ≤ x.toNat) ∨
      (0xf1 ≤ b.toNat ∧ b.toNat ≤ 0xf3) ∨ (b.toNat = 0xf4 ∧ x.toNat ≤ 0x8f) := by
  unfold isWellFormed
  simp only [← BitVec.toNat_inj, BitVec.le_def, BitVec.lt_def, gt_iff_lt, BitVec.reduceToNat]
  split_ifs <;> simp <;> omega

lemma continuationCount_cases (b : Octet) :
    (continuationCount b = 1 ∧ 0xc0 ≤ b.toNat ∧ b.toNat ≤ 0xdf) ∨
    (continuationCount b = 2 ∧ 0xe0 ≤ b.toNat ∧ b.toNat ≤ 0xef) ∨
    (continuationCount b = 3 ∧ 0xf0 ≤ b.toNat ∧ b.toNat ≤ 0xf7) ∨
    (continuationCount b = 0 ∧ (b.toNat < 0xc0 ∨ 0xf7 < b.toNat)) := by
  simp only [continuationCount, BitVec.le_def, BitVec.reduceToNat]
  split_ifs <;> omega

lemma isSequence_cons (b : Octet) (t : List Octet) :
    Utf8.IsSequence (b :: t) ↔
      t.length = continuationCount b ∧ (∀ x ∈ t, IsTail x) ∧
        (b.toNat < 0x80 ∨ (continuationCount b ≠ 0 ∧ isWellFormed b (t.headD 0))) := by
  rw [isWellFormed_iff]
  have hcount := continuationCount_cases b
  match t with
  | [] =>
    simp [Utf8.IsSequence, Utf8.table, Utf8.tail]
    omega
  | [x] =>
    simp [Utf8.IsSequence, Utf8.table, Utf8.tail, isTail_iff]
    omega
  | [x, y] =>
    simp [Utf8.IsSequence, Utf8.table, Utf8.tail, isTail_iff]
    omega
  | [x, y, z] =>
    simp [Utf8.IsSequence, Utf8.table, Utf8.tail, isTail_iff]
    omega
  | x :: y :: z :: w :: t =>
    simp [Utf8.IsSequence, Utf8.table, Utf8.tail]
    omega

variable {b : Octet} {r t u : List Octet}

lemma wellFormed_cons :
    Utf8.WellFormed (b :: r) ↔
      ∃ t u, r = t ++ u ∧ Utf8.IsSequence (b :: t) ∧ Utf8.WellFormed u := by
  constructor
  · intro h
    generalize hs : b :: r = s at h
    cases h with
    | nil => cases hs
    | @append q u hq hu =>
      cases q with
      | nil =>
        rw [nil_append] at hs
        obtain ⟨row, hrow, hlen⟩ := hq
        cases hlen
        simp [Utf8.table] at hrow
      | cons c t =>
        obtain ⟨rfl, rfl⟩ := List.cons.inj hs
        exact ⟨t, u, rfl, hq, hu⟩
  · rintro ⟨t, u, rfl, ht, hu⟩
    exact .append ht hu

/-! ### What the loops find -/

variable {input : List Octet}

variable {i : ℕ}

lemma getD_of_drop (h : input.drop i = b :: r) : input.getD i 0 = b := by
  have hget : input[i]? = some b := by rw [← head?_drop, h, head?_cons]
  rw [getD_eq_getElem?_getD, hget, Option.getD_some]

lemma drop_succ (h : input.drop i = b :: r) : input.drop (i + 1) = r := by
  rw [← drop_drop, h, drop_one, tail_cons]

/-- The inner loop on the bytes `t`, of which the first one is held against the byte before. -/
lemma continuationLoop_spec {j : ℕ} (h : input.drop i = b :: (t ++ u)) :
    ((continuationLoop input j i t.length).1 ↔
      (∀ x ∈ t, IsTail x) ∧ (j = 0 → t ≠ [] → isWellFormed b (t.headD 0))) ∧
    ((continuationLoop input j i t.length).1 →
      (continuationLoop input j i t.length).2 = i + t.length) := by
  induction t generalizing i j b with
  | nil => simp [continuationLoop]
  | cons x t ih =>
    have hnext := drop_succ h
    rw [length_cons, continuationLoop, getD_of_drop h, getD_of_drop hnext]
    obtain ⟨hiff, hindex⟩ := ih (j := j + 1) (i := i + 1) (b := x) hnext
    have htail : IsTail x ↔ x &&& 0xc0 = 0x80 := Iff.rfl
    split_ifs with hmask hfirst
    · exact ⟨⟨nofun, fun hall => absurd (hall.1 x (mem_cons_self ..)) hmask⟩, nofun⟩
    · exact ⟨⟨nofun, fun hall =>
        absurd (hall.2 hfirst.1 (cons_ne_nil x t)) hfirst.2⟩, nofun⟩
    · rw [hiff]
      refine ⟨?_, fun hok => ?_⟩
      · simp only [forall_mem_cons, htail, headD_cons]
        grind
      · rw [hindex (hiff.mpr hok)]
        omega

lemma lt_length_of_drop (h : input.drop i = b :: r) : input.length = i + 1 + r.length := by
  have hlength := congrArg List.length h
  rw [length_drop, length_cons] at hlength
  omega

variable {valid : Bool}

lemma sequenceLoop_sequence {q : List Octet} (hq : Utf8.IsSequence q) (h : input.drop i = q ++ u) :
    sequenceLoop input valid i = sequenceLoop input valid (i + q.length) := by
  cases q with
  | nil => rfl
  | cons b t =>
    obtain ⟨hcount, htail, hfirst⟩ := (isSequence_cons b t).mp hq
    rw [cons_append] at h
    have hlength := lt_length_of_drop h
    rw [length_append] at hlength
    rw [sequenceLoop, getD_of_drop h, if_pos (by omega)]
    by_cases hascii : b < 0x80
    · have hzero : t.length = 0 := by
        have := continuationCount_cases b
        have : b.toNat < 0x80 := hascii
        omega
      rw [if_pos hascii, length_cons, hzero]
    · obtain ⟨hpos, hwell⟩ := hfirst.resolve_left fun hb => hascii hb
      obtain ⟨hiff, hindex⟩ := continuationLoop_spec (j := 0) h
      have hok := hiff.mpr ⟨htail, fun _ _ => hwell⟩
      rw [if_neg hascii, if_neg hpos, if_neg (by omega), ← hcount]
      simp only [hok, hindex hok, Bool.and_true, length_cons]
      rfl

lemma sequenceLoop_wellFormed {s : List Octet} (hs : Utf8.WellFormed s)
    (h : input.drop i = s ++ u) :
    sequenceLoop input valid i = sequenceLoop input valid (i + s.length) := by
  induction hs generalizing i with
  | nil => rfl
  | @append q s hq _ ih =>
    rw [append_assoc] at h
    have hrest : input.drop (i + q.length) = s ++ u := by
      rw [← drop_drop, h, drop_left]
    rw [sequenceLoop_sequence hq h, ih hrest, length_append, Nat.add_assoc]

lemma wellFormed_append (ht : t.length = continuationCount b) :
    Utf8.WellFormed (b :: (t ++ u)) ↔ Utf8.IsSequence (b :: t) ∧ Utf8.WellFormed u := by
  rw [wellFormed_cons]
  constructor
  · rintro ⟨t', u', heq, ht', hu'⟩
    have hlength := ((isSequence_cons b t').mp ht').1
    obtain ⟨rfl, rfl⟩ := append_inj heq (ht.trans hlength.symm)
    exact ⟨ht', hu'⟩
  · rintro ⟨hq, hu⟩
    exact ⟨t, u, rfl, hq, hu⟩

lemma not_wellFormed_of_count (hascii : ¬ b < 0x80)
    (hcount : continuationCount b = 0 ∨ r.length < continuationCount b) :
    ¬ Utf8.WellFormed (b :: r) := by
  rw [wellFormed_cons]
  rintro ⟨t, u, rfl, ht, -⟩
  obtain ⟨hlength, -, hfirst⟩ := (isSequence_cons b t).mp ht
  have hpos := (hfirst.resolve_left fun hb => hascii hb).1
  rw [length_append] at hcount
  omega

lemma sequenceLoop_of_count (h : input.drop i = b :: r) (hascii : ¬ b < 0x80)
    (hcount : continuationCount b = 0 ∨ r.length < continuationCount b) :
    sequenceLoop input valid i = (false, i) := by
  have hlength := lt_length_of_drop h
  rw [sequenceLoop, getD_of_drop h, if_pos (by omega), if_neg hascii]
  split_ifs
  · rfl
  · rfl
  · omega

lemma sequenceLoop_not_sequence (valid : Bool) (h : input.drop i = b :: (t ++ u))
    (ht : t.length = continuationCount b) (hascii : ¬ b < 0x80) (hpos : continuationCount b ≠ 0)
    (hnot : ¬ Utf8.IsSequence (b :: t)) :
    ∃ i' > i, sequenceLoop input valid i = sequenceLoop input false i' := by
  have hlength := lt_length_of_drop h
  rw [length_append] at hlength
  obtain ⟨hiff, -⟩ := continuationLoop_spec (j := 0) h
  have hfail : (continuationLoop input 0 i t.length).1 = false := by
    rw [Bool.eq_false_iff, ne_eq, hiff]
    rintro ⟨htail, hfirst⟩
    refine hnot ((isSequence_cons b t).mpr ⟨ht, htail, .inr ⟨hpos, hfirst rfl ?_⟩⟩)
    rintro rfl
    exact hpos ht.symm
  have hle := le_continuationLoop input 0 i t.length
  refine ⟨(continuationLoop input 0 i t.length).2 + 1, by omega, ?_⟩
  rw [sequenceLoop, getD_of_drop h, if_pos (by omega), if_neg hascii, if_neg hpos,
    if_neg (by omega), ← ht]
  simp only [hfail, Bool.and_false]

lemma sequenceLoop_iff (input : List Octet) (valid : Bool) (i : ℕ) :
    (sequenceLoop input valid i).1 ↔ valid ∧ Utf8.WellFormed (input.drop i) := by
  induction hn : input.length - i using Nat.strong_induction_on generalizing valid i with
  | _ n ih =>
    by_cases hlt : i < input.length
    · have h := drop_eq_getElem_cons hlt
      set b := input[i]
      set r := input.drop (i + 1)
      by_cases hcount : ¬ b < 0x80 ∧ (continuationCount b = 0 ∨ r.length < continuationCount b)
      · rw [sequenceLoop_of_count h hcount.1 hcount.2, h]
        simp [not_wellFormed_of_count hcount.1 hcount.2]
      have hle : continuationCount b ≤ r.length := by
        by_cases hascii : b < 0x80
        · have := continuationCount_cases b
          have : b.toNat < 0x80 := hascii
          omega
        · exact not_lt.mp fun hshort => hcount ⟨hascii, .inr hshort⟩
      have ht : (r.take (continuationCount b)).length = continuationCount b :=
        length_take_of_le hle
      rw [← take_append_drop (continuationCount b) r] at h
      rw [h, wellFormed_append ht]
      by_cases hq : Utf8.IsSequence (b :: r.take (continuationCount b))
      · have hrest : input.drop (i + (b :: r.take (continuationCount b)).length) =
            r.drop (continuationCount b) := by
          rw [← drop_drop, h, ← cons_append, drop_left]
        rw [sequenceLoop_sequence hq (h.trans (cons_append).symm),
          ih _ (by simp only [length_cons]; omega) valid _ rfl, hrest]
        simp [hq]
      · have hascii : ¬ b < 0x80 := fun hb => by
          have := continuationCount_cases b
          have hlt : b.toNat < 0x80 := hb
          have hnil : r.take (continuationCount b) = [] :=
            List.length_eq_zero_iff.mp (by omega)
          rw [hnil] at hq
          have hzero : ([] : List Octet).length = continuationCount b := by
            rw [length_nil]
            omega
          exact hq ((isSequence_cons b []).mpr ⟨hzero, nofun, .inl hlt⟩)
        have hpos : continuationCount b ≠ 0 := fun hzero => hcount ⟨hascii, .inl hzero⟩
        obtain ⟨i', hi', heq⟩ := sequenceLoop_not_sequence valid h ht hascii hpos hq
        rw [heq, ih _ (by omega) false i' rfl]
        simp [hq]
    · have hnil : input.drop i = [] := drop_eq_nil_of_le (by omega)
      rw [sequenceLoop, if_neg hlt, hnil]
      simp [Utf8.WellFormed.nil]

lemma continuationLoop_le (input : List Octet) (j i n : ℕ) :
    (continuationLoop input j i n).2 ≤ i + n := by
  induction n generalizing i j with
  | zero => exact le_rfl
  | succ n ih =>
    rw [continuationLoop]
    split_ifs
    · omega
    · omega
    · exact (ih (j + 1) (i + 1)).trans (by omega)

lemma sequenceLoop_le (input : List Octet) (valid : Bool) (hi : i ≤ input.length) :
    (sequenceLoop input valid i).2 ≤ input.length := by
  induction hn : input.length - i using Nat.strong_induction_on generalizing valid i with
  | _ n ih =>
    have hle := continuationLoop_le input 0 i (continuationCount (input.getD i 0))
    have hge := le_continuationLoop input 0 i (continuationCount (input.getD i 0))
    rw [sequenceLoop]
    split_ifs with hlt
    · exact ih _ (by omega) valid (i := i + 1) hlt rfl
    · exact hi
    · exact hi
    · exact ih _ (by omega) _ (by omega) rfl
    · exact hi

lemma validateUTF8_eq_none_iff (input : List Octet) :
    validateUTF8 input = none ↔ Utf8.WellFormed input := by
  have hiff := sequenceLoop_iff input true 0
  rw [drop_zero] at hiff
  rw [← and_iff_right rfl (b := Utf8.WellFormed input), ← hiff, validateUTF8]
  split <;> simp_all

lemma validateUTF8_of_sequenceLoop (h : sequenceLoop input true 0 = (false, i)) :
    validateUTF8 input = some i := by
  rw [validateUTF8, h]

/-- The function returns true exactly for well-formed input. A first byte that announces nothing or
more than there is left is reported itself, and every reported position is one of the input or its
end. -/
theorem validateUTF8_exact (input : List Octet) :
    (validateUTF8 input = none ↔ Utf8.WellFormed input) ∧
    (∀ pre b rest, input = pre ++ b :: rest → Utf8.WellFormed pre → ¬ b < 0x80 →
      continuationCount b = 0 ∨ rest.length < continuationCount b →
      validateUTF8 input = some pre.length) ∧
    ∀ p, validateUTF8 input = some p → p ≤ input.length := by
  refine ⟨validateUTF8_eq_none_iff input, ?_, fun p hp => ?_⟩
  · rintro pre b rest rfl hpre hascii hcount
    have hdrop : (pre ++ b :: rest).drop (0 + pre.length) = b :: rest := by
      rw [Nat.zero_add, drop_left]
    refine validateUTF8_of_sequenceLoop ?_
    rw [sequenceLoop_wellFormed hpre drop_zero, sequenceLoop_of_count hdrop hascii hcount,
      Nat.zero_add]
  · have hle := sequenceLoop_le input true (Nat.zero_le _)
    rw [validateUTF8] at hp
    split at hp
    · cases hp
    · next i heq =>
      obtain rfl := Option.some.inj hp
      rwa [heq] at hle

theorem validateUTF8_exact_truncated : validateUTF8 [0x61, 0xc2] = some 1 :=
  (validateUTF8_exact _).2.1 [0x61] 0xc2 [] rfl
    (.append (q := [0x61]) (s := []) (by decide) .nil) (by decide) (.inr (by decide))

/-- A sequence that the end of the input cuts off is reported at its first byte, although it can
still be continued. -/
theorem validateUTF8_reportsFirstByte :
    ¬ ∀ (input : List Octet) (p : ℕ), validateUTF8 input = some p → Utf8.StopsAt input p := by
  intro h
  have hresult : validateUTF8 [0xc2] = some 0 :=
    validateUTF8_of_sequenceLoop
      (sequenceLoop_of_count (b := 0xc2) (r := []) rfl (by decide) (.inr (by decide)))
  obtain ⟨-, -, hstop⟩ := h [0xc2] 0 hresult
  refine hstop (by decide) ⟨[0x81], ?_⟩
  exact .append (q := [0xc2, 0x81]) (s := []) (by decide) .nil

end Dev
