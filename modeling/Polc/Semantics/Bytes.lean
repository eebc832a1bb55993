import Mathlib.Data.BitVec
import Mathlib.Data.Nat.Log

/-!
# Byte sequences

Numbers as big-endian bytes, and sequences that are filled in after they were laid out: what a
write at a position leaves everywhere.
-/

namespace Semantics

open List

/-- The number of bytes of `n`, 0 for 0. -/
def bytesRequired (n : Nat) : Nat := if n = 0 then 0 else n.log2 / 8 + 1

variable {n p : Nat}

theorem bytesRequired_le_iff {k : Nat} : bytesRequired n ≤ k ↔ n < 256 ^ k := by
  rw [bytesRequired]
  split_ifs with h
  · exact ⟨fun _ => h ▸ Nat.pow_pos (by decide), fun _ => Nat.zero_le k⟩
  · rw [Nat.add_one_le_iff, Nat.div_lt_iff_lt_mul (by decide), Nat.log2_lt h, Nat.mul_comm,
      Nat.pow_mul]

lemma lt_pow_bytesRequired (n : Nat) : n < 256 ^ bytesRequired n :=
  bytesRequired_le_iff.mp le_rfl

lemma bytesRequired_mono {m : Nat} (h : m ≤ n) : bytesRequired m ≤ bytesRequired n :=
  bytesRequired_le_iff.mpr (h.trans_lt (lt_pow_bytesRequired n))

lemma bytesRequired_pos (h : 0 < n) : 0 < bytesRequired n := by
  rw [bytesRequired, if_neg h.ne']
  exact Nat.succ_pos _

/-- The `w` low bytes of `n`, most significant byte first. -/
def toBigEndian : Nat → Nat → List (BitVec 8)
  | 0, _ => []
  | w + 1, n => toBigEndian w (n / 256) ++ [.ofNat 8 n]

/-- The number that bytes stand for, most significant byte first. -/
def ofBigEndian (bs : List (BitVec 8)) : Nat :=
  bs.foldl (fun n b => 256 * n + b.toNat) 0

@[simp] lemma length_toBigEndian (w n : Nat) : (toBigEndian w n).length = w := by
  induction w generalizing n with
  | zero => rfl
  | succ w ih => rw [toBigEndian, length_append, ih, length_singleton]

lemma ofBigEndian_concat (bs : List (BitVec 8)) (b : BitVec 8) :
    ofBigEndian (bs ++ [b]) = 256 * ofBigEndian bs + b.toNat := by
  rw [ofBigEndian, ofBigEndian, foldl_append, foldl_cons, foldl_nil]

theorem ofBigEndian_toBigEndian (w n : Nat) : ofBigEndian (toBigEndian w n) = n % 256 ^ w := by
  induction w generalizing n with
  | zero => simp [toBigEndian, ofBigEndian, Nat.mod_one]
  | succ w ih =>
    have hsplit : n % (256 * 256 ^ w) = n % 256 + 256 * (n / 256 % 256 ^ w) := Nat.mod_mul
    rw [toBigEndian, ofBigEndian_concat, ih, BitVec.toNat_ofNat, Nat.pow_succ' (n := w), hsplit,
      Nat.add_comm]

lemma ofBigEndian_lt (bs : List (BitVec 8)) : ofBigEndian bs < 256 ^ bs.length := by
  induction bs using List.reverseRecOn with
  | nil => exact Nat.one_pos
  | append_singleton bs b ih =>
    have hb : b.toNat < 256 := b.isLt
    rw [ofBigEndian_concat, length_append, length_singleton, Nat.pow_succ]
    omega

lemma ofBigEndian_toBigEndian_eq_iff {w : Nat} :
    ofBigEndian (toBigEndian w n) = n ↔ n < 256 ^ w := by
  rw [ofBigEndian_toBigEndian]
  exact Nat.mod_eq_iff_lt (Nat.pow_pos (by decide)).ne'

variable {α : Type*}

/-- `bs` stands at position `p` of `code`. -/
def HasAt (code : List α) (p : Nat) (bs : List α) : Prop := bs <+: code.drop p

/-- `code` with `bs` written over what stands at position `p`. -/
def writeAt (code : List α) (p : Nat) (bs : List α) : List α :=
  code.take p ++ bs ++ code.drop (p + bs.length)

variable {bs cs code tail : List α}

lemma hasAt_iff : HasAt code p bs ↔ ∀ i < bs.length, code[p + i]? = bs[i]? := by
  rw [HasAt, prefix_iff_getElem?]
  constructor
  · intro h i hi
    rw [← getElem?_drop, h i hi, getElem?_eq_getElem hi]
  · intro h i hi
    rw [getElem?_drop, h i hi, getElem?_eq_getElem hi]

lemma length_writeAt (h : p + bs.length ≤ code.length) :
    (writeAt code p bs).length = code.length := by
  rw [writeAt, length_append, length_append, length_take, length_drop]
  omega

lemma getElem?_writeAt (h : p + bs.length ≤ code.length) (i : Nat) :
    (writeAt code p bs)[i]? =
      if p ≤ i ∧ i < p + bs.length then bs[i - p]? else code[i]? := by
  rw [writeAt, getElem?_append, getElem?_append, length_append, length_take,
    getElem?_drop, getElem?_take]
  split_ifs with h1 h2 h3 h4 <;> first | omega | rfl | (congr 1; omega)

lemma HasAt.append (h : HasAt code p bs) (h' : HasAt code (p + bs.length) cs) :
    HasAt code p (bs ++ cs) := by
  rw [HasAt, ← drop_drop] at h'
  obtain ⟨t, ht⟩ := h
  rw [← ht, drop_left] at h'
  rw [HasAt, ← ht]
  exact prefix_append_right_inj bs |>.mpr h'

lemma HasAt.append_right (h : HasAt code p bs) (tail : List α) : HasAt (code ++ tail) p bs := by
  rw [HasAt, drop_append]
  exact h.trans (prefix_append _ _)

lemma hasAt_append_left (code bs : List α) : HasAt (code ++ bs) code.length bs := by
  rw [HasAt, drop_left]

lemma hasAt_writeAt (h : p + bs.length ≤ code.length) : HasAt (writeAt code p bs) p bs := by
  rw [hasAt_iff]
  intro i hi
  rw [getElem?_writeAt h, if_pos ⟨Nat.le_add_right _ _, by omega⟩, Nat.add_sub_cancel_left]

lemma HasAt.writeAt {q : Nat} (h : HasAt code q cs) (hp : p + bs.length ≤ code.length)
    (hdisjoint : q + cs.length ≤ p ∨ p + bs.length ≤ q) : HasAt (writeAt code p bs) q cs := by
  rw [hasAt_iff] at h ⊢
  intro i hi
  rw [getElem?_writeAt hp, if_neg (by omega), h i hi]

lemma writeAt_append (h : p + bs.length ≤ code.length) :
    writeAt (code ++ tail) p bs = writeAt code p bs ++ tail := by
  rw [Semantics.writeAt, Semantics.writeAt, take_append_of_le_length (by omega),
    drop_append_of_le_length h]
  simp only [append_assoc]

/-! ### Several writes -/

/-- The writes one after the other. -/
def writeAll (code : List α) (writes : List (Nat × List α)) : List α :=
  writes.foldl (fun code w => writeAt code w.1 w.2) code

/-- All writes lie within the first `n` places. -/
def InBounds (n : Nat) (writes : List (Nat × List α)) : Prop :=
  ∀ w ∈ writes, w.1 + w.2.length ≤ n

/-- Two writes that do the same or lie apart. -/
def Compatible (w w' : Nat × List α) : Prop :=
  w = w' ∨ w.1 + w.2.length ≤ w'.1 ∨ w'.1 + w'.2.length ≤ w.1

variable {writes : List (Nat × List α)}

lemma InBounds.mono {m : Nat} (h : InBounds m writes) (hle : m ≤ n) :
    InBounds n writes := fun w hw => (h w hw).trans hle

lemma InBounds.append {ws ws' : List (Nat × List α)} (h : InBounds n ws) (h' : InBounds n ws') :
    InBounds n (ws ++ ws') :=
  fun w hw => (List.mem_append.mp hw).elim (h w) (h' w)

lemma length_writeAll (h : InBounds code.length writes) :
    (writeAll code writes).length = code.length := by
  induction writes generalizing code with
  | nil => rfl
  | cons w writes ih =>
    have hw := length_writeAt (h w mem_cons_self)
    rw [writeAll, foldl_cons, ← writeAll, ih, hw]
    rw [hw]
    exact fun w' hw' => h w' (mem_cons_of_mem _ hw')

lemma writeAll_append_writes (code : List α) (ws ws' : List (Nat × List α)) :
    writeAll code (ws ++ ws') = writeAll (writeAll code ws) ws' := foldl_append

lemma writeAll_append (h : InBounds code.length writes) :
    writeAll (code ++ tail) writes = writeAll code writes ++ tail := by
  induction writes generalizing code with
  | nil => rfl
  | cons w writes ih =>
    have hw := h w mem_cons_self
    rw [writeAll, foldl_cons, ← writeAll, writeAt_append hw, ih]
    · rfl
    · rw [length_writeAt hw]
      exact fun w' hw' => h w' (mem_cons_of_mem _ hw')

lemma writeAll_writeAll_append {ws ws' : List (Nat × List α)} (h : InBounds code.length ws)
    (h' : InBounds code.length ws') :
    writeAll (writeAll code ws ++ tail) ws' = writeAll code (ws ++ ws') ++ tail := by
  rw [writeAll_append, writeAll_append_writes]
  rw [length_writeAll h]
  exact h'

lemma HasAt.writeAll {q : Nat} (h : HasAt code q cs) (hbounds : InBounds code.length writes)
    (hcompatible : ∀ w ∈ writes, Compatible (q, cs) w) : HasAt (writeAll code writes) q cs := by
  induction writes generalizing code with
  | nil => exact h
  | cons w writes ih =>
    have hw := hbounds w mem_cons_self
    have hlength := length_writeAt hw
    refine ih ?_ ?_ fun w' hw' => hcompatible w' (mem_cons_of_mem _ hw')
    · rcases hcompatible w mem_cons_self with rfl | hdisjoint
      · exact hasAt_writeAt hw
      · exact h.writeAt hw hdisjoint
    · rw [hlength]
      exact fun w' hw' => hbounds w' (mem_cons_of_mem _ hw')

/-- Of compatible writes, each one stands in the result. -/
theorem hasAt_writeAll (hbounds : InBounds code.length writes)
    (hcompatible : ∀ w ∈ writes, ∀ w' ∈ writes, Compatible w w') {w : Nat × List α}
    (hw : w ∈ writes) : HasAt (writeAll code writes) w.1 w.2 := by
  obtain ⟨ws, ws', rfl⟩ := append_of_mem hw
  have hbefore : InBounds code.length ws := fun w' hw' => hbounds w' (mem_append_left _ hw')
  have hafter : InBounds code.length (w :: ws') :=
    fun w' hw' => hbounds w' (mem_append_right _ hw')
  rw [writeAll_append_writes]
  have hlength := length_writeAll hbefore
  rw [← hlength] at hafter
  have hw' := hafter w mem_cons_self
  rw [writeAll, foldl_cons, ← writeAll]
  refine (hasAt_writeAt hw').writeAll ?_ fun w' hmem => ?_
  · rw [length_writeAt hw']
    exact fun w' hmem => hafter w' (mem_cons_of_mem _ hmem)
  · exact hcompatible w hw w' (mem_append_right _ (mem_cons_of_mem _ hmem))

end Semantics
