import Polc.Codegen.LValue.Values
import Polc.Ast.StorageOffsets

/-!
# Values that share a slot

A value is stored into its part of a slot and read again: for which values on the stack the value
after the conversion comes back, with the rest of storage as it was. The state variables of a
contract, at the offsets that `StorageOffsets` gives them, are then a record of values.
-/

namespace Polynomial

open Function
open Sof (Word)
open Semantics CompilerUtils ValueType StorageOffsets

/-- Of one slot only a part is different. -/
def OnlyChanges (f : Field) (key : Word) (st st' : Storage) : Prop :=
  (∀ k ≠ key, st' k = st k) ∧
    ∀ i < 256, ¬ (f.offset ≤ i ∧ i < f.offset + f.width) → (st' key).getLsbD i = (st key).getLsbD i

namespace StorageItem

/-- A value that is stored is read again after its conversion, or nothing is stored since it has
none. -/
def StoresInIsolation (m : Machine) (s t : ValueType) (v : ℤ) (ws : List Word) (key offset : Word)
    (st : Storage) : Prop :=
  match s.operand t v with
  | .ok v' => ∃ st', storeValue m t s ws key offset st = .ok () st' ∧
      OnlyChanges (t.partAt offset) key st st' ∧
      ∃ ws', retrieveValue m t key offset st' = .ok ws' st' ∧ t.Retrieved m v' ws'
  | .error _ => storeValue m t s ws key offset st = .halt .invalid st

/-- A function has the type of the variable, no negative number is widened to a type that does not
fill the slot, and a byte string has nothing but zeros behind its end that would be stored. -/
def CanStore (s t : ValueType) (v : ℤ) (ws : List Word) : Prop :=
  (∀ f, t = .function f → s = t) ∧ s.losesSign t v = false ∧
    ∀ b c w, s = .fixedBytes b → t = .fixedBytes c → ws = [w] → c.numBytes ≠ 32 →
      w.toNat / 2 ^ (256 - c.numBytes * 8) % 256 ^ (c.numBytes - b.numBytes) = 0

section

variable {m : Machine} {s t : ValueType} {v v' : ℤ} {ws : List Word} {key offset : Word}
  {st : Storage}

lemma isValue_of_onStack (hs : s.isValueType) (henum : ∀ e, s ≠ .enum e)
    (h : s.OnStack v ws) : s.IsValue v := by
  cases s with
  | integer i =>
    obtain ⟨w, -, rfl⟩ := h
    exact i.wrap_inRange _
  | fixedBytes b =>
    obtain ⟨w, -, rfl⟩ := h
    have hlt : w.toNat / 2 ^ b.padding < 2 ^ (b.numBytes * 8) := by
      rw [Nat.div_lt_iff_lt_mul (Nat.two_pow_pos _), b.two_pow_eq]
      exact w.isLt
    change 0 ≤ ((w.toNat / 2 ^ b.padding : ℕ) : ℤ) ∧ ((w.toNat / 2 ^ b.padding : ℕ) : ℤ) < _
    rw [two_pow_bytes, b.two_pow_eq_pow]
    exact ⟨Int.natCast_nonneg _, Int.ofNat_lt.mpr hlt⟩
  | bool =>
    obtain ⟨w, -, rfl⟩ := h
    rw [IsValue, valueOf]
    split_ifs <;> decide
  | enum e => exact absurd rfl (henum e)
  | address | contract =>
    obtain ⟨w, -, rfl⟩ := h
    exact ⟨Int.natCast_nonneg _, Int.ofNat_lt.mpr (Nat.mod_lt _ (Nat.two_pow_pos 160))⟩
  | function f =>
    unfold OnStack at h
    simp only [Represents] at h
    change 0 ≤ v ∧ v < _
    simp only [storageBytes]
    split_ifs at h ⊢ with hexternal
    · obtain ⟨selector, address, -, rfl⟩ := h
      exact ⟨Int.natCast_nonneg _, Int.ofNat_lt.mpr (by omega)⟩
    · obtain ⟨w, -, rfl⟩ := h
      exact ⟨Int.natCast_nonneg _, Int.ofNat_lt.mpr (by omega)⟩
  | rationalNumber | stringLiteral => cases hs

lemma onlyChanges_update {n : ℕ} (hn : n < 2 ^ (8 * t.storageBytes)) :
    OnlyChanges (t.partAt offset) key st
      (Function.update st key ((t.partAt offset).set (st key) n)) := by
  refine ⟨fun k hk => update_of_ne hk _ _, fun i hi hout => ?_⟩
  rw [update_self, Field.getLsbD_set _ _ hn hi, if_neg hout]

lemma retrieveValue_update (m : Machine) (st : Storage) (key : Word) (ht : t.isValueType)
    (hoffset : offset.toNat + t.storageBytes ≤ 32) {n : ℕ} (hn : n < 2 ^ (8 * t.storageBytes)) :
    ∃ ws', retrieveValue m t key offset
        (Function.update st key ((t.partAt offset).set (st key) n)) =
          .ok ws' (Function.update st key ((t.partAt offset).set (st key) n)) ∧
      t.Retrieved m (t.ofContent n) ws' := by
  obtain ⟨ws', hrun, hws⟩ := retrieveValue_partAt m
    (Function.update st key ((t.partAt offset).set (st key) n)) key ht hoffset
  rw [update_self, Field.get_set _ _ (show 8 * offset.toNat + 8 * t.storageBytes ≤ 256 by
    omega) hn] at hws
  exact ⟨ws', hrun, hws⟩

lemma storesInIsolation_of_store (ht : t.isValueType)
    (hoffset : offset.toNat + t.storageBytes ≤ 32) (hoperand : s.operand t v = .ok v') {n : ℕ}
    (hn : n < 2 ^ (8 * t.storageBytes))
    (hstore : storeValue m t s ws key offset st =
      .ok () (Function.update st key ((t.partAt offset).set (st key) n)))
    (hcontent : t.ofContent n = v') : StoresInIsolation m s t v ws key offset st := by
  rw [StoresInIsolation, hoperand]
  obtain ⟨ws', hrun, hws⟩ := retrieveValue_update m st key ht hoffset hn
  exact ⟨_, hstore, onlyChanges_update hn, ws', hrun, hcontent ▸ hws⟩

lemma isValue_ofContent (ht : t.isValueType) (hf : ∀ f, t ≠ .function f)
    (henum : ∀ e, t ≠ .enum e) (hbool : t ≠ .bool) {n : ℕ} (hn : n < 2 ^ (8 * t.storageBytes)) :
    t.IsValue (t.ofContent n) := by
  cases t with
  | integer i => exact i.wrap_inRange _
  | fixedBytes | address | contract => exact ⟨Int.natCast_nonneg _, Int.ofNat_lt.mpr hn⟩
  | bool => exact absurd rfl hbool
  | enum e => exact absurd rfl (henum e)
  | function f => exact absurd rfl (hf f)
  | rationalNumber | stringLiteral => cases ht

lemma storesInIsolation_iff_of_store (ht : t.isValueType) (hf : ∀ f, t ≠ .function f)
    (henum : ∀ e, t ≠ .enum e) (hbool : t ≠ .bool)
    (hoffset : offset.toNat + t.storageBytes ≤ 32) (hoperand : s.operand t v = .ok v')
    (hv' : t.IsValue v') {n : ℕ} (hn : n < 2 ^ (8 * t.storageBytes))
    (hstore : storeValue m t s ws key offset st =
      .ok () (Function.update st key ((t.partAt offset).set (st key) n))) :
    StoresInIsolation m s t v ws key offset st ↔ t.ofContent n = v' := by
  refine ⟨fun h => ?_, storesInIsolation_of_store ht hoffset hoperand hn hstore⟩
  have hretrieved : ∀ u ws', t.Retrieved m u ws' → ws' = [t.cleanWord u] := by
    intro u ws' h
    cases t with
    | function f => exact absurd rfl (hf f)
    | rationalNumber | stringLiteral => cases ht
    | _ => exact h
  rw [StoresInIsolation, hoperand] at h
  obtain ⟨st', hstore', -, ws', hrun', hws'⟩ := h
  cases hstore.symm.trans hstore'
  obtain ⟨ws'', hrun, hws⟩ := retrieveValue_update m st key ht hoffset hn
  cases hrun.symm.trans hrun'
  have hclean : t.cleanWord (t.ofContent n) = t.cleanWord v' := by
    have heq := (hretrieved _ _ hws).symm.trans (hretrieved _ _ hws')
    exact (List.cons.inj heq).1
  rw [← valueOf_cleanWord ht hf hv', ← hclean,
    valueOf_cleanWord ht hf (isValue_ofContent ht hf henum hbool hn)]

lemma storedContent_of_not_losesSign (h : s.losesSign t v = false) :
    s.storedContent t v = t.toContent (s.extend t v) := by
  rw [storedContent, h, if_neg Bool.false_ne_true]

lemma ofContent_ne_of_losesSign {i j : IntegerType} (hv : (integer i).IsValue v)
    (h : i.isImplicitlyConvertibleTo j)
    (hloses : (integer i).losesSign (integer j) v) :
    (integer i).storedContent (integer j) v < 2 ^ (8 * (integer j).storageBytes) ∧
      (integer j).ofContent ((integer i).storedContent (integer j) v) ≠ v := by
  have hbits : (i.numBits < j.numBits ∧ j.numBits < 256) ∧ v < 0 := by
    simpa [losesSign] using hloses
  have hsigned : i.isSigned = true := by
    by_contra hno
    have hnonneg := hv.1
    rw [IntegerType.minValue, if_neg hno] at hnonneg
    omega
  have hlt : (integer i).toContent v < 2 ^ i.numBits := by
    have hlt := toContent_lt (integer i) v
    rwa [integer_bits] at hlt
  have hle : 2 ^ i.numBits ≤ 2 ^ (j.numBits - 1) :=
    Nat.pow_le_pow_right Nat.two_pos (by omega)
  rw [storedContent, hloses, if_pos rfl, integer_bits]
  refine ⟨hlt.trans (Nat.pow_lt_pow_right Nat.one_lt_two hbits.1.1), ?_⟩
  have hrange : j.minValue ≤ ((integer i).toContent v : ℤ) ∧
      ((integer i).toContent v : ℤ) ≤ j.maxValue := by
    have hcast : (2 : ℤ) ^ (j.numBits - 1) = ((2 ^ (j.numBits - 1) : ℕ) : ℤ) := by push_cast; rfl
    rw [IntegerType.minValue, IntegerType.maxValue, if_pos (isSigned_of_isImplicitly h hsigned),
      if_pos (isSigned_of_isImplicitly h hsigned), hcast]
    omega
  change j.wrap _ ≠ v
  rw [j.wrap_of_inRange hrange]
  omega

lemma storeValue_fixedBytes {b c : FixedBytesType} (hc : c.numBytes ≠ 32) (w : Word) :
    storeValue m (.fixedBytes c) (.fixedBytes b) [w] key offset st =
      .ok () (Function.update st key
        (((ValueType.fixedBytes c).partAt offset).set (st key) (w.toNat / 2 ^ c.padding))) := by
  obtain ⟨w', hw', hexec⟩ := exec_rightShiftNumber m.hasBitwiseShifting c.padding_lt w
  have hrun := hexec [] []
  rw [List.append_nil, FixedBytesType.padding, Nat.mul_comm] at hrun
  have hword : w' = .ofNat 256 (w.toNat / 2 ^ c.padding) := by
    apply BitVec.eq_of_toNat_eq
    rw [toNat_ofNat_of_lt ((Nat.div_le_self _ _).trans_lt w.isLt), hw']
  rw [storeValue, if_neg (show (ValueType.fixedBytes c).storageBytes ≠ 32 from hc)]
  have hcode : storeCode m (.fixedBytes c) (.fixedBytes b) =
      some (rightShiftNumberOnStack m.hasBitwiseShifting (256 - 8 * c.numBytes)) := rfl
  rw [hcode, execute_of_exec hrun]
  simp only [Result.bind_ok]
  rw [updatedValue_eq _ offset _ hword]

/-- They are the value followed by zeros exactly if there are no other bytes behind its end. -/
lemma ofContent_eq_extend_iff {b c : FixedBytesType} (h : b.numBytes ≤ c.numBytes) (w : Word) :
    (fixedBytes c).ofContent (w.toNat / 2 ^ c.padding) =
        (fixedBytes b).extend (fixedBytes c) ((fixedBytes b).valueOf w) ↔
      w.toNat / 2 ^ (256 - c.numBytes * 8) % 256 ^ (c.numBytes - b.numBytes) = 0 := by
  have hpad := two_pow_padding_of_le h
  change ((w.toNat / 2 ^ c.padding : ℕ) : ℤ) =
    ((w.toNat / 2 ^ b.padding : ℕ) : ℤ) * 256 ^ (c.numBytes - b.numBytes) ↔ _
  rw [hpad, Nat.mul_comm, ← Nat.div_div_eq_div_mul]
  have hdiv := Nat.div_add_mod (w.toNat / 2 ^ c.padding) (256 ^ (c.numBytes - b.numBytes))
  rw [Nat.mul_comm] at hdiv
  have hcast : ((w.toNat / 2 ^ c.padding / 256 ^ (c.numBytes - b.numBytes) : ℕ) : ℤ) *
      256 ^ (c.numBytes - b.numBytes) =
      ((w.toNat / 2 ^ c.padding / 256 ^ (c.numBytes - b.numBytes) *
        256 ^ (c.numBytes - b.numBytes) : ℕ) : ℤ) := by
    push_cast
    rfl
  rw [hcast, Int.natCast_inj]
  change _ ↔ w.toNat / 2 ^ c.padding % 256 ^ (c.numBytes - b.numBytes) = 0
  omega

/-! ### All types -/

lemma storesInIsolation_of_not_losesSign (hs : s.isValueType) (ht : t.isValueType)
    (hst : s.isImplicitlyConvertibleTo t) (hv : s.IsValue v) (hws : s.OnStack v ws)
    (hoffset : offset.toNat + t.storageBytes ≤ 32) (hsame : ∀ f, t = .function f → s = t)
    (hloses : s.losesSign t v = false)
    (hclean : t.storageBytes = 32 ∨ s = t ∨ ∀ b, s = .fixedBytes b → ws = [s.cleanWord v]) :
    StoresInIsolation m s t v ws key offset st := by
  have hconverts := converts_of_isImplicitly hs hst
  have hstore := storeValue_partAt m st key hst hs hsame hv hws hclean hoffset
  have hstored := storedContent_of_not_losesSign hloses
  refine storesInIsolation_of_store ht hoffset (operand_eq hconverts hv) ?_ hstore ?_
  · rw [hstored]
    exact toContent_lt t _
  · rw [hstored]
    exact ofContent_toContent (hconverts.isValue_extend hv)

lemma canStore_of_not_fixedBytes (hsame : ∀ f, t = .function f → s = t)
    (hloses : s.losesSign t v = false) (hbytes : ∀ b, s ≠ .fixedBytes b) : CanStore s t v ws :=
  ⟨hsame, hloses, fun b _ _ h => absurd h (hbytes b)⟩

lemma not_storesInIsolation_function {f g : FunctionType} (h : f ≠ g) :
    ¬ StoresInIsolation m (.function f) (.function g) v ws key offset st := by
  have hstore : storeValue m (.function g) (.function f) ws key offset st = .halt .fault st := by
    have hbytes : (ValueType.function g).storageBytes ≠ 32 := by
      intro h
      exact not_function_of_storageBytes h g rfl
    have hcode : storeCode m (.function g) (.function f) = none :=
      if_neg fun heq => h (ValueType.function.inj heq)
    rw [storeValue, if_neg hbytes, hcode]
    rfl
  rintro ⟨st', hstore', -⟩
  rw [hstore] at hstore'
  cases hstore'

lemma storesInIsolation_enum {e : EnumType} (hws : (ValueType.enum e).OnStack v ws)
    (hoffset : offset.toNat + (ValueType.enum e).storageBytes ≤ 32) :
    StoresInIsolation m (.enum e) (.enum e) v ws key offset st := by
  by_cases hv : 0 ≤ v ∧ v < e.numberOfMembers
  · exact storesInIsolation_of_not_losesSign rfl rfl (decide_eq_true rfl) hv hws hoffset nofun rfl
      (.inr (.inl rfl))
  · have hcode : convertType m.hasBitwiseShifting (.enum e) (.enum e) true = some (checkEnum e) :=
      by simp [convertType]
    have hyields := convertType_representsClean hcode (decide_eq_true rfl) rfl hws
    have hoperand : (ValueType.enum e).operand (.enum e) v = .error .enumOutOfRange := by
      rw [operand, convert]
      exact if_neg hv
    rw [hoperand] at hyields
    have hrun : exec (checkEnum e) ws = .invalid := by
      have h := hyields []
      rwa [List.append_nil] at h
    rw [StoresInIsolation, hoperand]
    unfold storeValue storeCode
    simp [hcode, execute, chopSignBits, asInteger, hrun]

lemma storesInIsolation_iff (hs : s.isValueType)
    (hst : s.isImplicitlyConvertibleTo t) (hws : s.OnStack v ws)
    (hoffset : offset.toNat + t.storageBytes ≤ 32) :
    StoresInIsolation m s t v ws key offset st ↔ CanStore s t v ws := by
  have hconverts := converts_of_isImplicitly hs hst
  -- all other types are stored as they are
  have hplain : t.isValueType = true → s.IsValue v → (∀ f, t = .function f → s = t) →
      s.losesSign t v = false → (∀ b, s ≠ .fixedBytes b) →
      (StoresInIsolation m s t v ws key offset st ↔ CanStore s t v ws) := by
    intro ht hv hsame hloses hbytes
    exact iff_of_true (storesInIsolation_of_not_losesSign hs ht hst hv hws hoffset hsame hloses
      (.inr (.inr fun b h => absurd h (hbytes b)))) (canStore_of_not_fixedBytes hsame hloses hbytes)
  cases hconverts with
  | @integer i j h =>
    have hv := isValue_of_onStack hs nofun hws
    cases hloses : (integer i).losesSign (integer j) v with
    | false => exact hplain rfl hv nofun hloses nofun
    | true =>
      obtain ⟨hlt, hne⟩ := ofContent_ne_of_losesSign hv h hloses
      have hstore := storeValue_partAt m st key hst hs nofun hv hws (.inr (.inr nofun)) hoffset
      have hiff := storesInIsolation_iff_of_store (t := integer j) rfl nofun nofun nofun hoffset
        (operand_eq (.integer h) hv) ((Converts.integer h).isValue_extend hv) hlt hstore
      refine iff_of_false (fun hisolated => hne (hiff.mp hisolated)) fun hcan => ?_
      rw [hcan.2.1] at hloses
      cases hloses
  | @fixedBytes b c h =>
    have hv := isValue_of_onStack hs nofun hws
    by_cases hc : c.numBytes = 32
    · refine iff_of_true (storesInIsolation_of_not_losesSign hs rfl hst hv hws hoffset nofun rfl
        (.inl hc)) ⟨nofun, rfl, ?_⟩
      rintro b' c' w ⟨⟩ ⟨⟩ - hne
      exact absurd hc hne
    · obtain ⟨w, rfl, rfl⟩ := hws
      have hlt : w.toNat / 2 ^ c.padding < 2 ^ (8 * (ValueType.fixedBytes c).storageBytes) := by
        rw [two_pow_bytes, c.two_pow_eq_pow, Nat.div_lt_iff_lt_mul (Nat.two_pow_pos _),
          c.two_pow_eq]
        exact w.isLt
      rw [storesInIsolation_iff_of_store (t := fixedBytes c) rfl nofun nofun nofun hoffset
        (operand_eq (.fixedBytes h) hv) ((Converts.fixedBytes h).isValue_extend hv) hlt
        (storeValue_fixedBytes hc w), ofContent_eq_extend_iff h]
      constructor
      · intro hzero
        refine ⟨nofun, rfl, ?_⟩
        rintro b' c' w' ⟨⟩ ⟨⟩ ⟨⟩ -
        exact hzero
      · intro hcan
        exact hcan.2.2 b c w rfl rfl rfl hc
  | @function f g h =>
    have hv := isValue_of_onStack hs nofun hws
    by_cases heq : f = g
    · exact hplain rfl hv (fun _ _ => congrArg _ heq) rfl nofun
    · refine iff_of_false (not_storesInIsolation_function heq) fun hcan => heq ?_
      exact ValueType.function.inj (hcan.1 g rfl)
  | enum e =>
    exact iff_of_true (storesInIsolation_enum hws hoffset)
      (canStore_of_not_fixedBytes nofun rfl nofun)
  | bool | address | contract =>
    exact hplain rfl (isValue_of_onStack hs nofun hws) nofun rfl nofun

lemma setToZero_clears (hoffset : offset.toNat + t.storageBytes ≤ 32) :
    OnlyChanges (t.partAt offset) key st (setToZero t key offset st) ∧
      (t.partAt offset).get (setToZero t key offset st key) = 0 := by
  have hpos : 0 < 2 ^ (8 * t.storageBytes) := Nat.two_pow_pos _
  rw [setToZero_partAt key hoffset]
  refine ⟨onlyChanges_update hpos, ?_⟩
  rw [update_self]
  exact Field.get_set _ _ (show 8 * offset.toNat + 8 * t.storageBytes ≤ 256 by omega) hpos

/-- Values are stored and cleared in isolation exactly if their types and words allow the store. -/
theorem isolation_iff_canStore (m : Machine) (st : Storage) (key : Word)
    (hs : s.isValueType = true) (hst : s.isImplicitlyConvertibleTo t = true)
    (hws : s.OnStack v ws) (hoffset : offset.toNat + t.storageBytes ≤ 32) :
    (StoresInIsolation m s t v ws key offset st ∧
      OnlyChanges (t.partAt offset) key st (setToZero t key offset st) ∧
      (t.partAt offset).get (setToZero t key offset st key) = 0) ↔ CanStore s t v ws := by
  rw [and_iff_left (setToZero_clears hoffset)]
  exact storesInIsolation_iff hs hst hws hoffset

end

def blankMachine : Machine where
  keccak256 _ := 0
  memory _ := 0
  calldata _ := 0
  hasBitwiseShifting := true
  invalidFunction := 0

/-- The type `uint16`. -/
def narrowType : ValueType := .integer ⟨16, false, valid_sixteen⟩

/-- The type `uint32`. -/
def wideType : ValueType := .integer ⟨32, false, by decide⟩

/-- A value with dirty higher bits is stored between bytes that are all set. -/
theorem isolation_iff_canStore_dirty :
    StoresInIsolation blankMachine narrowType wideType 0x1234 [0xabcd1234] 0 4
      fun _ => BitVec.allOnes 256 := by
  have hws : narrowType.OnStack 0x1234 [0xabcd1234] := ⟨0xabcd1234, rfl, by decide⟩
  exact ((isolation_iff_canStore (t := wideType)  blankMachine
    (fun _ => BitVec.allOnes 256) 0 rfl rfl hws (by decide)).mpr ⟨nofun, by decide, nofun⟩).1

/-- The type `int8`. -/
def signedNarrowType : ValueType := .integer ⟨8, true, valid_eight⟩

/-- The type `int16`. -/
def signedWideType : ValueType := .integer ⟨16, true, valid_sixteen⟩

/-- Minus one is stored as 255. -/
theorem storeValue_keepsSourceWidth :
    (∃ st, storeValue blankMachine signedWideType signedNarrowType [BitVec.allOnes 256] 0 0
        (fun _ => 0) = .ok () st ∧
      retrieveValue blankMachine signedWideType 0 0 st = .ok [0xff] st) ∧
    ¬ StoresInIsolation blankMachine signedNarrowType signedWideType (-1) [BitVec.allOnes 256] 0 0
      fun _ => 0 := by
  have hws : signedNarrowType.OnStack (-1) [BitVec.allOnes 256] :=
    ⟨BitVec.allOnes 256, rfl, by decide +kernel⟩
  refine ⟨⟨_, rfl, ?_⟩, ?_⟩
  · exact congrArg (Result.ok · _) (by decide +kernel)
  · rw [storesInIsolation_iff (t := signedWideType) rfl rfl hws (by decide)]
    intro h
    exact absurd h.2.1 (by decide)

end StorageItem

/-! ### State variables -/

namespace StorageItem

variable {m : Machine} {s t : ValueType} {v v' : ℤ} {ws : List Word} {key offset : Word}
  {st : Storage}

lemma CanStore.exists_content (m : Machine) (key : Word) (st : Storage)
    (hcan : CanStore s t v ws) (hs : s.isValueType)
    (hst : s.isImplicitlyConvertibleTo t) (hws : s.OnStack v ws)
    (hoffset : offset.toNat + t.storageBytes ≤ 32) (hoperand : s.operand t v = .ok v') :
    ∃ n < 2 ^ (8 * t.storageBytes), storeValue m t s ws key offset st =
      .ok () (Function.update st key ((t.partAt offset).set (st key) n)) ∧ t.ofContent n = v' := by
  have hconverts := converts_of_isImplicitly hs hst
  have hplain (hv : s.IsValue v)
      (hclean : t.storageBytes = 32 ∨ s = t ∨ ∀ b, s = .fixedBytes b → ws = [s.cleanWord v]) :
      ∃ n < 2 ^ (8 * t.storageBytes), storeValue m t s ws key offset st =
        .ok () (Function.update st key ((t.partAt offset).set (st key) n)) ∧
          t.ofContent n = v' := by
    have hstore := storeValue_partAt m st key hst hs hcan.1 hv hws hclean hoffset
    have hvalue := ofContent_toContent (hconverts.isValue_extend hv)
    rw [storedContent_of_not_losesSign hcan.2.1] at hstore
    rw [operand_eq hconverts hv] at hoperand
    cases hoperand
    exact ⟨_, toContent_lt t _, hstore, hvalue⟩
  cases hconverts with
  | @fixedBytes b c h =>
    have hv := isValue_of_onStack hs (by rintro _ ⟨⟩) hws
    by_cases hc : c.numBytes = 32
    · exact hplain hv (.inl hc)
    · obtain ⟨w, rfl, rfl⟩ := hws
      rw [operand_eq (.fixedBytes h) hv] at hoperand
      cases hoperand
      refine ⟨_, ?_, storeValue_fixedBytes hc w,
        (ofContent_eq_extend_iff h w).mpr (hcan.2.2 b c w rfl rfl rfl hc)⟩
      rw [two_pow_bytes, c.two_pow_eq_pow, Nat.div_lt_iff_lt_mul (Nat.two_pow_pos _), c.two_pow_eq]
      exact w.isLt
  | enum e =>
    refine hplain ?_ (.inr (.inl rfl))
    by_contra hv
    rw [operand, convert] at hoperand
    cases (if_neg hv).symm.trans hoperand
  | _ => exact hplain (isValue_of_onStack hs (by rintro _ ⟨⟩) hws) (.inr (.inr (by rintro _ ⟨⟩)))

end StorageItem

/-- A variable of a value type, or of a type for which only the layout matters here. -/
inductive StateVariable where
  | value (t : ValueType) (isValueType : t.isValueType = true)
  | other (type : StorageType)

namespace StateVariable

open StorageItem

/-- What `computeOffsets` asks the type of a variable. -/
def storageType : StateVariable → StorageType
  | value t _ =>
    ⟨true, t.storageBytes, 1, t.storageBytes_bounds.1, t.storageBytes_bounds.2, storageSize_one⟩
  | other type => type

/-- The type of a variable that is a value, and its location. -/
def location (vars : List StateVariable) (o : StorageOffsets) (i : ℕ) :
    Option (ValueType × Word × Word) :=
  match vars[i]?, o.offset i with
  | some (value t _), some p => some (t, p.1, .ofNat 256 p.2)
  | _, _ => none

/-- An assignment of a value of the given type, which the words on the stack stand for, or a
`delete`. -/
inductive Update where
  | store (i : ℕ) (sourceType : ValueType) (v : ℤ) (ws : List Word)
  | delete (i : ℕ)

def Update.run (m : Machine) (vars : List StateVariable) (o : StorageOffsets) :
    Update → Storage → Result Stop Storage Unit
  | store i s _ ws, st =>
    match location vars o i with
    | some (t, key, offset) => storeValue m t s ws key offset st
    | none => .halt .fault st
  | delete i, st =>
    match location vars o i with
    | some (t, key, offset) => .ok () (setToZero t key offset st)
    | none => .halt .fault st

def runAll (m : Machine) (vars : List StateVariable) (o : StorageOffsets) :
    List Update → Storage → Result Stop Storage Unit
  | [], st => .ok () st
  | u :: us, st => (u.run m vars o st).bind fun _ st => runAll m vars o us st

/-- The values of the variables afterwards, unless the value cannot be converted. -/
def Update.apply (vars : List StateVariable) (r : ℕ → ℤ) : Update → Option (ℕ → ℤ)
  | store i s v _ =>
    match vars[i]? with
    | some (value t _) => (s.operand t v).toOption.map (Function.update r i)
    | _ => none
  | delete i =>
    match vars[i]? with
    | some (value t _) => some (Function.update r i (t.ofContent 0))
    | _ => none

/-- The variable is a value, and a value that is stored in it allows this. -/
def Update.Allowed (vars : List StateVariable) : Update → Prop
  | store i s v ws => ∃ t ht, vars[i]? = some (value t ht) ∧ s.isValueType = true ∧
      s.isImplicitlyConvertibleTo t = true ∧ s.OnStack v ws ∧ CanStore s t v ws
  | delete i => ∃ t ht, vars[i]? = some (value t ht)

/-- The parts of storage contain the values of the record. -/
def Holds (vars : List StateVariable) (o : StorageOffsets) (st : Storage) (r : ℕ → ℤ) : Prop :=
  ∀ i t key offset, location vars o i = some (t, key, offset) →
    t.ofContent ((t.partAt offset).get (st key)) = r i

/-- Bits that do not belong to a variable of a value type are the same. -/
def SameElsewhere (vars : List StateVariable) (o : StorageOffsets) (st st' : Storage) : Prop :=
  ∀ k, ∀ b < 256, (∀ i t offset, location vars o i = some (t, k, offset) →
    ¬ ((t.partAt offset).offset ≤ b ∧ b < (t.partAt offset).offset + (t.partAt offset).width)) →
      (st' k).getLsbD b = (st k).getLsbD b

section

variable {m : Machine} {vars : List StateVariable} {o : StorageOffsets} {i j n : ℕ}
  {t t' : ValueType} {key key' offset offset' : Word} {st : Storage} {r : ℕ → ℤ} {u : Update}

lemma laidOut (hvars : UseWholeSlots (vars.map storageType))
    (ho : computeOffsets (vars.map storageType) = .ok o) : LaidOut (vars.map storageType) o := by
  rw [computeOffsets_eq] at ho
  split_ifs at ho with hlarge
  cases ho
  exact laidOut_of_lt hvars (not_le.mp hlarge)

lemma exists_location (ho : LaidOut (vars.map storageType) o) {ht : t.isValueType = true}
    (h : vars[i]? = some (value t ht)) : ∃ key offset, location vars o i = some (t, key, offset) := by
  have htype : (vars.map storageType)[i]? = some (value t ht).storageType := by
    rw [List.getElem?_map, h]
    rfl
  obtain ⟨p, hp⟩ := Option.isSome_iff_exists.mp (ho.isSome_offset i _ htype)
  exact ⟨p.1, .ofNat 256 p.2, by rw [location, h, hp]⟩

lemma of_location (ho : LaidOut (vars.map storageType) o)
    (h : location vars o i = some (t, key, offset)) :
    ∃ ht, vars[i]? = some (value t ht) ∧
      (vars.map storageType)[i]? = some (value t ht).storageType ∧
      o.offset i = some (key, offset.toNat) ∧ offset.toNat + t.storageBytes ≤ 32 := by
  rw [location] at h
  split at h
  · rename_i t ht p hvar hp
    cases h
    have htype : (vars.map storageType)[i]? = some (value t ht).storageType := by
      rw [List.getElem?_map, hvar]
      rfl
    have hfits := ho.inSlot i _ p htype hp
    change p.2 + t.storageBytes ≤ 32 at hfits
    have hoffset : (BitVec.ofNat 256 p.2).toNat = p.2 := toNat_ofNat_of_lt (by omega)
    rw [hoffset]
    exact ⟨ht, hvar, htype, hp, hfits⟩
  · cases h

lemma apart_of_location (ho : LaidOut (vars.map storageType) o) (hij : i ≠ j)
    (hi : location vars o i = some (t, key, offset))
    (hj : location vars o j = some (t', key', offset')) :
    key = key' → (t.partAt offset).Apart (t'.partAt offset') := by
  rintro rfl
  obtain ⟨ht, -, htype, hp, -⟩ := of_location ho hi
  obtain ⟨ht', -, htype', hp', -⟩ := of_location ho hj
  rw [Field.Apart]
  simp only [partAt]
  rcases Nat.lt_or_gt_of_ne hij with hlt | hlt
  · have hle := ho.inOrder i j _ _ _ hlt htype hp hp'
    change 32 * key.toNat + offset.toNat + t.storageBytes ≤ 32 * key.toNat + offset'.toNat at hle
    omega
  · have hle := ho.inOrder j i _ _ _ hlt htype' hp' hp
    change 32 * key.toNat + offset'.toNat + t'.storageBytes ≤ 32 * key.toNat + offset.toNat at hle
    omega

lemma Holds.update (h : Holds vars o st r) (ho : LaidOut (vars.map storageType) o)
    (hi : location vars o i = some (t, key, offset)) (hn : n < 2 ^ (8 * t.storageBytes)) :
    Holds vars o (Function.update st key ((t.partAt offset).set (st key) n))
        (Function.update r i (t.ofContent n)) ∧
      SameElsewhere vars o st (Function.update st key ((t.partAt offset).set (st key) n)) := by
  have hwidth {t : ValueType} {offset : Word} (hfits : offset.toNat + t.storageBytes ≤ 32) :
      (t.partAt offset).offset + (t.partAt offset).width ≤ 256 :=
    show 8 * offset.toNat + 8 * t.storageBytes ≤ 256 by omega
  constructor
  · intro j t' key' offset' hj
    obtain ⟨-, -, -, -, hfits⟩ := of_location ho hj
    by_cases hij : i = j
    · subst hij
      cases hi.symm.trans hj
      rw [update_self, update_self, Field.get_set _ _ (hwidth hfits) hn]
    · rw [update_of_ne (Ne.symm hij), ← h j t' key' offset' hj]
      by_cases hkey : key' = key
      · subst hkey
        rw [update_self, Field.get_set_of_apart _ _ _ (hwidth hfits)
          (apart_of_location ho (Ne.symm hij) hj hi rfl) hn]
      · rw [update_of_ne hkey]
  · intro k b hb hout
    by_cases hk : k = key
    · subst hk
      rw [update_self, Field.getLsbD_set _ _ hn hb, if_neg (hout i t offset hi)]
    · rw [update_of_ne hk]

lemma Update.run_apply (h : Holds vars o st r) (ho : LaidOut (vars.map storageType) o)
    (hu : u.Allowed vars) :
    match u.apply vars r with
    | some r' => ∃ st', u.run m vars o st = .ok () st' ∧ Holds vars o st' r' ∧
        SameElsewhere vars o st st'
    | none => u.run m vars o st = .halt .invalid st := by
  cases u with
  | store i s v ws =>
    obtain ⟨t, ht, hvar, hs, hst, hws, hcan⟩ := hu
    obtain ⟨key, offset, hloc⟩ := exists_location ho hvar
    obtain ⟨-, -, -, -, hfits⟩ := of_location ho hloc
    simp only [apply, run, hvar, hloc]
    cases hoperand : s.operand t v with
    | ok v' =>
      obtain ⟨n, hn, hstore, rfl⟩ := hcan.exists_content m key st hs hst hws hfits hoperand
      exact ⟨_, hstore, h.update ho hloc hn⟩
    | error e =>
      have hisolated : StoresInIsolation m s t v ws key offset st :=
        (storesInIsolation_iff hs hst hws hfits).mpr hcan
      rwa [StoresInIsolation, hoperand] at hisolated
  | delete i =>
    obtain ⟨t, ht, hvar⟩ := hu
    obtain ⟨key, offset, hloc⟩ := exists_location ho hvar
    obtain ⟨-, -, -, -, hfits⟩ := of_location ho hloc
    simp only [apply, run, hvar, hloc]
    rw [setToZero_partAt key hfits]
    exact ⟨_, rfl, h.update ho hloc (Nat.two_pow_pos _)⟩

end

/-- A number of 32 bits with a Boolean behind it in the same slot. -/
def packedVariables : List StateVariable := [value wideType rfl, value .bool rfl]

end StateVariable

end Polynomial
