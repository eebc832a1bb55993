import Polc.Sof.ConstantOptimiser.Properties
import Polc.Sof.Execution.Continuation

/-!
# The bytes of words

A word that is put together from bytes has these bytes, and is the number they stand for.
-/

namespace Sof

open Semantics List Option

variable (f : ℕ → Byte)

lemma toNat_foldl_bytes {n : ℕ} (hn : n ≤ 32) :
    ((List.range n).foldl (fun (w : Word) i => w <<< 8 ||| (f i).setWidth 256) 0).toNat =
      ofBigEndian ((List.range n).map f) := by
  induction n with
  | zero => rfl
  | succ n ih =>
    have hlt : ofBigEndian ((List.range n).map f) < 256 ^ n := by
      simpa using ofBigEndian_lt ((List.range n).map f)
    have hpow : 256 * 256 ^ n ≤ 2 ^ 256 := by
      rw [← Nat.pow_succ', show 2 ^ 256 = 256 ^ 32 from rfl]
      exact Nat.pow_le_pow_right (by decide) hn
    have hbyte : ((f n).setWidth 256).toNat = (f n).toNat := by
      rw [BitVec.toNat_setWidth, Nat.mod_eq_of_lt ((f n).isLt.trans (by decide))]
    rw [range_succ, foldl_append, foldl_cons, foldl_nil, map_append,
      map_singleton, ofBigEndian_concat, BitVec.toNat_or, BitVec.toNat_shiftLeft, ih (by omega),
      hbyte, Nat.shiftLeft_eq, Nat.mod_eq_of_lt (by omega), Nat.mul_comm _ (2 ^ 8)]
    exact (Nat.two_pow_add_eq_or_of_lt (f n).isLt _).symm

lemma toNat_wordOfBytes : (wordOfBytes f).toNat = ofBigEndian ((List.range 32).map f) :=
  toNat_foldl_bytes f le_rfl

lemma ofBigEndian_div_mod {n i : ℕ} (hi : i < n) :
    ofBigEndian ((List.range n).map f) / 256 ^ (n - 1 - i) % 256 = (f i).toNat := by
  induction n with
  | zero => exact absurd hi (Nat.not_lt_zero i)
  | succ n ih =>
    have hbyte := (f n).isLt
    rw [range_succ, map_append, map_singleton, ofBigEndian_concat]
    rcases Nat.lt_succ_iff_lt_or_eq.mp hi with hlt | rfl
    · obtain ⟨k, hk⟩ : ∃ k, n + 1 - 1 - i = k + 1 ∧ n - 1 - i = k := ⟨n - 1 - i, by omega, rfl⟩
      rw [hk.1, Nat.pow_succ', ← Nat.div_div_eq_div_mul,
        show (256 * ofBigEndian ((List.range n).map f) + (f n).toNat) / 256 =
          ofBigEndian ((List.range n).map f) by omega, ← hk.2]
      exact ih hlt
    · rw [show i + 1 - 1 - i = 0 by omega, pow_zero, Nat.div_one]
      omega

lemma byte_wordOfBytes {i : ℕ} (hi : i < 32) : (wordOfBytes f).byte i = f i := by
  apply BitVec.eq_of_toNat_eq
  have hpow : 2 ^ (8 * (31 - i)) = 256 ^ (32 - 1 - i) := by
    rw [Nat.pow_mul]
  rw [Word.byte, BitVec.toNat_setWidth, BitVec.toNat_ushiftRight, Nat.shiftRight_eq_div_pow,
    toNat_wordOfBytes, hpow]
  exact ofBigEndian_div_mod f hi

lemma wordOfBytes_toBigEndian {w : Word}
    (h : ∀ i < 32, (toBigEndian 32 w.toNat)[i]? = some (f i)) : wordOfBytes f = w := by
  have hbytes : (List.range 32).map f = toBigEndian 32 w.toNat := by
    apply ext_getElem?
    intro i
    by_cases hi : i < 32
    · rw [h i hi, getElem?_map, getElem?_range hi, map_some]
    · rw [getElem?_eq_none (by simpa using hi), getElem?_eq_none (by simpa using hi)]
  apply BitVec.eq_of_toNat_eq
  rw [toNat_wordOfBytes, hbytes, ofBigEndian_toBigEndian]
  exact Nat.mod_eq_of_lt w.isLt

end Sof

/-!
## Representations leave the constant on the stack

Whatever the optimiser puts in the place of a constant leaves this constant on the stack, and
nothing else changes. A copy makes the first word of the memory active, but does not change it.
-/

namespace Sof

open Semantics Langutil ConstantOptimisationMethod List Option

variable {World : Type} {env : Environment World} {layout : Layout} {items l : List AssemblyItem}
  {n : ℕ} {stack : List Value} {state : SvmState World}

namespace ComputeMethod

variable {params : Params}

lemma not_le_toNat {a : Word} (h : a ≤ 255) : ¬ 256 ≤ a.toNat :=
  not_le.mpr ((BitVec.le_def.mp h).trans_lt (by decide))

lemma arithmetic_of_checkInstruction {i : Instruction} {ws ws' : List Word}
    (h : checkInstruction params i ws = some ws') :
    ∃ args rest w, ws = args ++ rest ∧ ws' = w :: rest ∧ performs i ∧
      args.length = (instructionInfo i).args ∧ arithmetic i args = some w ∧ i ≠ .pc ∧
        i ≠ .gas := by
  unfold checkInstruction at h
  split at h
  · cases h
    exact ⟨[_, _], _, _, rfl, rfl, rfl, rfl, rfl, nofun, nofun⟩
  · split_ifs at h
    cases h
    exact ⟨[_, _], _, _, rfl, rfl, rfl, rfl, rfl, nofun, nofun⟩
  · cases h
    exact ⟨[_, _], _, _, rfl, rfl, rfl, rfl, rfl, nofun, nofun⟩
  · cases h
    exact ⟨[_, _], _, _, rfl, rfl, rfl, rfl, rfl, nofun, nofun⟩
  · cases h
    exact ⟨[_], _, _, rfl, rfl, rfl, rfl, rfl, nofun, nofun⟩
  · split_ifs at h with hshift
    cases h
    refine ⟨[_, _], _, _, rfl, rfl, rfl, rfl, ?_, nofun, nofun⟩
    exact congrArg some (if_neg (not_le_toNat hshift.2))
  · split_ifs at h with hshift
    cases h
    refine ⟨[_, _], _, _, rfl, rfl, rfl, rfl, ?_, nofun, nofun⟩
    exact congrArg some (if_neg (not_le_toNat hshift.2))
  · cases h

lemma proceeds_checkItem {i : AssemblyItem} {ws ws' : List Word} {r : Continuation World}
    (h : checkItem params ws i = some ws')
    (hrest : Proceeds env layout items n ⟨l, ws'.map .word ++ stack, state⟩ r) :
    Proceeds env layout items n ⟨i :: l, ws.map .word ++ stack, state⟩ r := by
  cases i with
  | push w =>
    cases h
    exact .push w hrest
  | operation i =>
    obtain ⟨args, rest, w, rfl, rfl, hperforms, hargs, hvalue, hpc, hgas⟩ :=
      arithmetic_of_checkInstruction h
    have hexec : execInstruction env i args state = .ok [w] state := by
      rw [execInstruction, hvalue]
      rfl
    have hperform : perform env layout (l.length + 1) i args state = .ok [w] state := by
      rw [perform_eq hpc hgas, hexec]
    rw [map_append, append_assoc]
    exact .operation i args hperforms hargs hperform hrest
  | _ => cases h

lemma proceeds_run {routine : List AssemblyItem} {ws ws' : List Word}
    (h : routine.foldlM (checkItem params) ws = some ws') :
    Proceeds env layout items n ⟨routine ++ l, ws.map .word ++ stack, state⟩
      (.ok (l, ws'.map .word ++ stack) state) := by
  induction routine generalizing ws with
  | nil =>
    cases h
    exact .ok _ _ _
  | cons i routine ih =>
    obtain ⟨ws₁, hi, hroutine⟩ := bind_eq_some_iff.mp h
    exact proceeds_checkItem hi (ih hroutine)

end ComputeMethod

namespace CodeCopyMethod

variable {value h : Word}

lemma expand_eq (m : SvmState World) :
    m.expand 0 32 = { m with msize := max m.msize 32 } := rfl

lemma writeMemory_restore (f : ℕ → Byte) :
    (((state.expand 0 32).writeMemory 0 32 f).expand 0 32).writeMemory 0 32
      (wordOfBytes fun k => state.memory (0 + k)).byte = state.expand 0 32 := by
  have hmemory (a : ℕ) : (if 0 ≤ a ∧ a < 0 + 32
      then (wordOfBytes fun k => state.memory (0 + k)).byte (a - 0)
      else if 0 ≤ a ∧ a < 0 + 32 then f (a - 0) else state.memory a) = state.memory a := by
    split_ifs with ha
    · rw [Nat.sub_zero, byte_wordOfBytes _ (by omega), Nat.zero_add]
    · rfl
  simp only [SvmState.writeMemory, expand_eq, hmemory, max_assoc, max_self]

lemma wordOfBytes_code {o : Word} (hdata : HasAt env.code o.toNat (toBigEndian 32 value.toNat))
    (m : SvmState World) :
    (wordOfBytes fun k =>
      (m.writeMemory 0 32 fun k => env.code.getD (o.toNat + k) 0).memory (0 + k)) = value := by
  refine wordOfBytes_toBigEndian _ fun i hi => ?_
  have hlength : i < (toBigEndian 32 value.toNat).length := by rwa [length_toBigEndian]
  have hget := hasAt_iff.mp hdata i hlength
  have hbyte : (toBigEndian 32 value.toNat)[i]? = some (env.code.getD (o.toNat + i) 0) := by
    rw [getD_eq_getElem?_getD, hget, getElem?_eq_getElem hlength, getD_some]
  rw [hbyte]
  simp only [SvmState.writeMemory, Nat.zero_add, Nat.zero_le, true_and, if_pos hi, Nat.sub_zero]

section

variable (env layout) (ahead : ℕ)

lemma perform_mload (m : SvmState World) :
    perform env layout ahead .mload [0] m =
      .ok [wordOfBytes fun k => m.memory (0 + k)] (m.expand 0 32) := rfl

lemma perform_codecopy (o : Word) (m : SvmState World) :
    perform env layout ahead .codecopy [0, o, 32] m =
      .ok [] (m.writeMemory 0 32 fun k => env.code.getD (o.toNat + k) 0) := rfl

lemma perform_mstore (w : Word) (m : SvmState World) :
    perform env layout ahead .mstore [0, w] m = .ok [] (m.writeMemory 0 32 w.byte) := rfl

end

lemma proceeds_copyRoutine
    (hdata : HasAt env.code (layout.pushed (.pushData h)).toNat (toBigEndian 32 value.toNat)) :
    Proceeds env layout items n ⟨copyRoutine (.pushData h) ++ l, stack, state⟩
      (.ok (l, .word value :: stack) (state.expand 0 32)) := by
  have hload := perform_mload env layout (l.length + 3) ((state.expand 0 32).writeMemory 0 32
    fun k => env.code.getD ((layout.pushed (.pushData h)).toNat + k) 0)
  rw [wordOfBytes_code hdata] at hload
  have hstore := perform_mstore env layout (l.length + 1)
    (wordOfBytes fun k => state.memory (0 + k))
    (((state.expand 0 32).writeMemory 0 32
      fun k => env.code.getD ((layout.pushed (.pushData h)).toNat + k) 0).expand 0 32)
  rw [writeMemory_restore] at hstore
  refine .push 0 (.item rfl rfl ?_)
  refine .operation .mload [0] rfl rfl (perform_mload env layout _ state)
    (.push 32 (.item rfl rfl (.item rfl rfl ?_)))
  refine .operation .codecopy [0, _, 32] rfl rfl (perform_codecopy env layout _ _ _)
    (.item rfl rfl ?_)
  refine .operation .mload [0] rfl rfl hload (.item rfl rfl ?_)
  exact .operation .mstore [0, _] rfl rfl hstore (.ok _ _ _)

end CodeCopyMethod

namespace ConstantOptimisationMethod

lemma sum_map_le {α : Type} (f : α → ℕ) {b : ℕ} (hf : ∀ x, f x ≤ b) (xs : List α) :
    (xs.map f).sum ≤ b * xs.length := by
  induction xs with
  | nil => exact Nat.zero_le _
  | cons x xs ih =>
    rw [map_cons, sum_cons, length_cons, Nat.mul_succ, Nat.add_comm]
    exact Nat.add_le_add ih (hf x)

lemma dataGas_eq_some (params : Params) (value : Word) {k : ℕ} (hk : 0 < k) (hk' : k ≤ 32) :
    ∃ gas, dataGas params (toBigEndian k value.toNat) = some gas := by
  have hlength := length_toBigEndian k value.toNat
  have hne : toBigEndian k value.toNat ≠ [] := ne_nil_of_length_pos (by omega)
  have hsum : ((toBigEndian k value.toNat).map fun b =>
      if b ≠ 0 then GasCosts.txDataNonZeroGas else GasCosts.txDataZeroGas).sum ≤ 68 * k := by
    conv_rhs => rw [← hlength]
    refine sum_map_le _ (fun b => ?_) _
    split_ifs <;> decide
  rw [dataGas, if_neg hne, GasMeter.dataGas]
  simp only [GasCosts.createDataGas]
  have hbound : 68 * k < 2 ^ 256 - 1 := by omega
  split_ifs with hcreation hlt hlt
  · exact ⟨_, rfl⟩
  · exact absurd (hsum.trans_lt hbound) hlt
  · exact ⟨_, rfl⟩
  · omega

lemma literalGas_eq_some (params : Params) (value : Word) :
    ∃ gas, LiteralMethod.gasNeeded params value = some gas := by
  have hbound : Semantics.bytesRequired value.toNat ≤ 32 :=
    bytesRequired_le_iff.mpr (value.isLt.trans_eq rfl)
  obtain ⟨gas, hgas⟩ := dataGas_eq_some params value
    (k := max 1 (Semantics.bytesRequired value.toNat)) (by omega) (by omega)
  simp only [LiteralMethod.gasNeeded, hgas]
  exact ⟨_, rfl⟩

lemma copyGas_eq_some (params : Params) (value : Word) :
    ∃ gas, CodeCopyMethod.gasNeeded params value = some gas := by
  obtain ⟨gas, hgas⟩ := dataGas_eq_some params value (k := 32) (by decide) le_rfl
  simp only [CodeCopyMethod.gasNeeded, hgas]
  exact ⟨_, rfl⟩

/-! ### The loop over the constants -/

/-- The items leave a number on the stack, whatever is around them. At most the first word of the
memory becomes active. -/
def LeavesConstant (env : Environment World) (layout : Layout) (value : Word)
    (routine : List AssemblyItem) : Prop :=
  ∀ (items l : List AssemblyItem) (n : ℕ) (stack : List Value) (state : SvmState World),
    ∃ state', (state' = state ∨ state' = state.expand 0 32) ∧
      Proceeds env layout items n ⟨routine ++ l, stack, state⟩ (.ok (l, .word value :: stack) state')

lemma leavesConstant_push (env : Environment World) (layout : Layout) (value : Word) :
    LeavesConstant env layout value [.push value] :=
  fun _ _ _ _ state => ⟨state, .inl rfl, .push value (.ok _ _ _)⟩

lemma leavesConstant_computed (env : Environment World) (layout : Layout) {params : Params}
    {value : Word} {routine : List AssemblyItem}
    (h : ComputeMethod.Leaves params value routine) : LeavesConstant env layout value routine :=
  fun _ _ _ _ state => ⟨state, .inl rfl, ComputeMethod.proceeds_run (h []).run⟩

lemma leavesConstant_copyRoutine {value h : Word}
    (hdata : HasAt env.code (layout.pushed (.pushData h)).toNat (toBigEndian 32 value.toNat)) :
    LeavesConstant env layout value (CodeCopyMethod.copyRoutine (.pushData h)) :=
  fun _ _ _ _ _ => ⟨_, .inr rfl, CodeCopyMethod.proceeds_copyRoutine hdata⟩

/-- What a constant is replaced by: something computed, or a copy of the data of the assembly. -/
inductive Replacement (keccak256 : List Byte → Word) (data : Std.TreeMap Word (List Byte))
    (value : Word) : List AssemblyItem → Prop where
  | computed {params : Params} {routine : List AssemblyItem}
      (h : ComputeMethod.Leaves params value routine) : Replacement keccak256 data value routine
  | copied {h : Word} (hhash : h = keccak256 (toBigEndian 32 value.toNat))
      (hdata : data[h]? = some (toBigEndian 32 value.toNat)) :
      Replacement keccak256 data value (CodeCopyMethod.copyRoutine (.pushData h))

/-- The constants among the items that have the same hash are equal. -/
def CollisionFree (keccak256 : List Byte → Word) (items : List AssemblyItem) : Prop :=
  ∀ v w, .push v ∈ items → .push w ∈ items →
    keccak256 (toBigEndian 32 v.toNat) = keccak256 (toBigEndian 32 w.toNat) → v = w

/-- The invariant of the loop: what is pending replaces constants of the code. -/
structure State.Exact (keccak256 : List Byte → Word) (a : Assembly) (s : State) : Prop where
  constant : ∀ v r, s.pendingReplacements[v]? = some r → .push v ∈ a.items
  replacement : ∀ v r, s.pendingReplacements[v]? = some r →
    Replacement keccak256 s.assembly.data v r

section

variable {keccak256 : List Byte → Word} (isCreation : Bool) (runs : ℕ) (svmVersion : SVMVersion)
  {a b : Assembly} {s : State} {value v : Word} {r routine : List AssemblyItem}

lemma Replacement.newData (hvalue : .push value ∈ a.items) (hv : .push v ∈ a.items)
    (hfree : CollisionFree keccak256 a.items) (h : Replacement keccak256 b.data v r) :
    Replacement keccak256 (b.newData keccak256 (toBigEndian 32 value.toNat)).1.data v r := by
  cases h with
  | computed h => exact .computed h
  | copied hhash hdata =>
    refine .copied hhash ?_
    rw [Assembly.newData, Std.TreeMap.getElem?_insert]
    split_ifs with heq
    · rw [hfree value v hvalue hv ((Std.LawfulEqCmp.eq_of_compare heq).trans hhash)]
    · exact hdata

lemma replacement_copy (b : Assembly) (value : Word) :
    Replacement keccak256 (CodeCopyMethod.execute keccak256 value b).1.data value
      (CodeCopyMethod.execute keccak256 value b).2 := by
  refine .copied rfl ?_
  rw [CodeCopyMethod.execute, Assembly.newData, Std.TreeMap.getElem?_insert_self]

lemma State.Exact.insert (hs : s.Exact keccak256 a) (hvalue : .push value ∈ a.items)
    (hkeep : ∀ v r, .push v ∈ a.items → Replacement keccak256 s.assembly.data v r →
      Replacement keccak256 b.data v r) (hnew : Replacement keccak256 b.data value routine)
    (k : ℕ) :
    State.Exact keccak256 a ⟨b, s.pendingReplacements.insert value routine, k⟩ := by
  have hcases : ∀ v r, (s.pendingReplacements.insert value routine)[v]? = some r →
      .push v ∈ a.items ∧ Replacement keccak256 b.data v r := by
    intro v r h
    rw [Std.TreeMap.getElem?_insert] at h
    split_ifs at h with heq
    · cases h
      cases Std.LawfulEqCmp.eq_of_compare heq
      exact ⟨hvalue, hnew⟩
    · have hconstant := hs.constant v r h
      exact ⟨hconstant, hkeep v r hconstant (hs.replacement v r h)⟩
  exact ⟨fun v r h => (hcases v r h).1, fun v r h => (hcases v r h).2⟩

lemma optimiseConstant_exact (hs : s.Exact keccak256 a) (hvalue : .push value ∈ a.items)
    (hfree : CollisionFree keccak256 a.items) (multiplicity : ℕ) :
    ∃ s', optimiseConstant keccak256 isCreation runs svmVersion s (value, multiplicity) = some s' ∧
      s'.Exact keccak256 a := by
  rw [optimiseConstant]
  split_ifs with hsmall
  · exact ⟨s, rfl, hs⟩
  · generalize (⟨isCreation, runs, multiplicity, svmVersion⟩ : Params) = params
    obtain ⟨literalGas, hliteral⟩ := literalGas_eq_some params value
    obtain ⟨copyGas, hcopy⟩ := copyGas_eq_some params value
    obtain ⟨routine, hroutine, hleaves⟩ := ComputeMethod.create_eq_some params value
    obtain ⟨computeGas, hcompute⟩ :=
      ComputeMethod.gasNeeded_eq_some params (hleaves []).simple
    simp only [hliteral, hcopy, hroutine, hcompute, bind_eq_bind, bind_some]
    refine ⟨_, rfl, ?_⟩
    split_ifs with hchooseCopy hchooseCompute hempty
    · refine hs.insert hvalue (fun v r hv hr => hr.newData hvalue hv hfree) ?_ _
      exact replacement_copy s.assembly value
    · exact ⟨hs.constant, hs.replacement⟩
    · exact hs.insert hvalue (fun v r _ hr => hr) (.computed hleaves) _
    · exact hs

lemma optimiseAll_exact (hs : s.Exact keccak256 a) (hfree : CollisionFree keccak256 a.items)
    {constants : List (Word × ℕ)} (hconstants : ∀ p ∈ constants, .push p.1 ∈ a.items) :
    ∃ s', constants.foldlM (optimiseConstant keccak256 isCreation runs svmVersion) s = some s' ∧
      s'.Exact keccak256 a := by
  induction constants generalizing s with
  | nil => exact ⟨s, rfl, hs⟩
  | cons p constants ih =>
    obtain ⟨s₁, hrun, hs₁⟩ := optimiseConstant_exact isCreation runs svmVersion hs
      (hconstants p mem_cons_self) hfree p.2
    obtain ⟨s', hrest, hs'⟩ := ih hs₁ fun q hq => hconstants q (mem_cons_of_mem _ hq)
    refine ⟨s', ?_, hs'⟩
    rw [foldlM_cons, hrun]
    exact hrest

lemma mem_of_counted {items : List AssemblyItem} {m : Std.TreeMap Word ℕ} {v : Word} {k : ℕ}
    (h : (items.foldl (fun m i =>
      match i with
      | .push value => m.insert value (m.getD value 0 + 1)
      | _ => m) m)[v]? = some k) : .push v ∈ items ∨ m[v]? = some k := by
  induction items generalizing m with
  | nil => exact .inr h
  | cons i items ih =>
    rw [foldl_cons] at h
    rcases ih h with hmem | hinsert
    · exact .inl (mem_cons_of_mem _ hmem)
    · cases i with
      | push w =>
        rw [Std.TreeMap.getElem?_insert] at hinsert
        split_ifs at hinsert with heq
        · cases Std.LawfulEqCmp.eq_of_compare heq
          exact .inl mem_cons_self
        · exact .inr hinsert
      | _ => exact .inr hinsert

lemma mem_of_mem_pushes {items : List AssemblyItem} {p : Word × ℕ}
    (h : p ∈ (pushes items).toList) : .push p.1 ∈ items := by
  rcases mem_of_counted (Std.TreeMap.mem_toList_iff_getElem?_eq_some.mp h) with hmem | hempty
  · exact hmem
  · rw [Std.TreeMap.getElem?_emptyc] at hempty
    cases hempty

end

/-- The data that the items push is at the pushed positions of the code. -/
def HoldsData (env : Environment World) (layout : Layout) (items : List AssemblyItem)
    (data : Std.TreeMap Word (List Byte)) : Prop :=
  ∀ h content, .pushData h ∈ items → data[h]? = some content →
    HasAt env.code (layout.pushed (.pushData h)).toNat content

lemma Replacement.leavesConstant {keccak256 : List Byte → Word}
    {data : Std.TreeMap Word (List Byte)} {value : Word} {routine : List AssemblyItem}
    (h : Replacement keccak256 data value routine) (hmem : ∀ i ∈ routine, i ∈ items)
    (hholds : HoldsData env layout items data) : LeavesConstant env layout value routine := by
  cases h with
  | computed h => exact leavesConstant_computed env layout h
  | copied hhash hdata =>
    refine leavesConstant_copyRoutine (hholds _ _ (hmem _ ?_) hdata)
    simp [CodeCopyMethod.copyRoutine]

end ConstantOptimisationMethod

open ConstantOptimisationMethod in
/-- For all parameters the search for routines ends for every number, and the optimiser succeeds and
replaces every constant by items that leave exactly this constant on the stack, in the code with the
data of the assembly. -/
theorem optimiseConstants_exact (keccak256 : List Byte → Word) (isCreation : Bool) (runs : ℕ)
    (svmVersion : SVMVersion) (a : Assembly) (hfree : CollisionFree keccak256 a.items) :
    (∀ (params : Params) (value : Word) (maxSteps : ℕ),
      (ComputeMethod.findRepresentation params value maxSteps).isSome) ∧
    ∃ a' k, ∃ representation : Word → List AssemblyItem,
      optimiseConstants keccak256 isCreation runs svmVersion a = some (a', k) ∧
      a'.items = (a.items.flatMap fun
        | .push value => representation value
        | i => [i]) ∧
      ∀ (World : Type) (env : Environment World) (layout : Layout), HoldsData env layout a'.items a'.data →
        ∀ value, .push value ∈ a.items → LeavesConstant env layout value (representation value) := by
  constructor
  · intro params value maxSteps
    obtain ⟨routine, maxSteps', hrun, -⟩ :=
      ComputeMethod.findRepresentation_finds params value maxSteps trivial
    rw [hrun]
    rfl
  · have hinitial : State.Exact keccak256 a { assembly := a } := by
      constructor
      all_goals
        intro v r h
        rw [Std.TreeMap.getElem?_emptyc] at h
        cases h
    have hconstants (p : Word × ℕ) (hp : p ∈ (pushes a.items).toList) : .push p.1 ∈ a.items :=
      mem_of_mem_pushes hp
    obtain ⟨s, hrun, hs⟩ :=
      optimiseAll_exact isCreation runs svmVersion hinitial hfree hconstants
    refine ⟨{ s.assembly with items := replaceConstants a.items s.pendingReplacements },
      s.optimisations, fun value => (s.pendingReplacements[value]?).getD [.push value], ?_, rfl, ?_⟩
    · rw [optimiseConstants, hrun]
      rfl
    · intro World env layout hholds value hvalue
      show LeavesConstant env layout value ((s.pendingReplacements[value]?).getD [.push value])
      have hmem (r : List AssemblyItem) (hr : s.pendingReplacements[value]? = some r)
          (i : AssemblyItem) (hi : i ∈ r) : i ∈ replaceConstants a.items s.pendingReplacements := by
        refine List.mem_flatMap.mpr ⟨.push value, hvalue, ?_⟩
        simpa [hr] using hi
      rcases hr : s.pendingReplacements[value]? with _ | r
      · exact leavesConstant_push env layout value
      · exact Replacement.leavesConstant (hs.replacement value r hr) (hmem r hr) hholds

open ConstantOptimisationMethod in
/-- An assembly that pushes the same large constant twice. -/
theorem optimiseConstants_exact_twice :
    let keccak256 : List Byte → Word := fun bytes => .ofNat 256 (ofBigEndian bytes)
    let a : Assembly := { items := [.push 0xabcdef0123456789abcdef, .push 0xabcdef0123456789abcdef] }
    (∀ (params : Params) (value : Word) (maxSteps : ℕ),
      (ComputeMethod.findRepresentation params value maxSteps).isSome) ∧
    ∃ a' k, ∃ representation : Word → List AssemblyItem,
      optimiseConstants keccak256 true 200 .petersburg a = some (a', k) ∧
      a'.items = (a.items.flatMap fun
        | .push value => representation value
        | i => [i]) ∧
      ∀ (World : Type) (env : Environment World) (layout : Layout),
        HoldsData env layout a'.items a'.data → ∀ value, .push value ∈ a.items →
          LeavesConstant env layout value (representation value) := by
  refine optimiseConstants_exact _ true 200 .petersburg _ ?_
  intro v w _ _ h
  have hbytes (u : Word) : BitVec.ofNat 256 (ofBigEndian (toBigEndian 32 u.toNat)) = u := by
    rw [ofBigEndian_toBigEndian, Nat.mod_eq_of_lt (show u.toNat < 256 ^ 32 from u.isLt),
      BitVec.ofNat_toNat, BitVec.setWidth_eq]
  rw [← hbytes v, ← hbytes w]
  exact h

end Sof
