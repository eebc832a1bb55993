import Polc.Codegen.ArrayUtils.ByteArrays.Copies

/-!
# Runs on a byte array

What any sequence of operations on a byte array in storage makes of the list it stands for.
-/

namespace Polynomial

open BitVec Function
open Sof (Word Byte)
open Semantics ArrayUtils

/-- The operations on a byte array. An assignment finds the memory and the calldata at that time. -/
inductive ByteArrayOperation where
  | push (value : Word)
  | pop
  | setLength (length : Word)
  | setElement (index value : Word)
  | delete
  | assign (memory calldata : Word → Byte) (source : Reference)

namespace ByteArrayOperation

variable (m : Machine) (ref : Word) (size fuel : ℕ)

/-- What the code does. -/
def execute : ByteArrayOperation → Storage → Result Stop Storage Unit
  | push value, s => ArrayUtils.push m .bytes ref [value] s
  | pop, s => popStorageArrayElement m .bytes ref s
  | setLength length, s => .ok () (resizeDynamicArray m .bytes ref length s)
  | setElement index value, s => ArrayUtils.setElement m .bytes ref index [value] s
  | delete, s => .ok () (clearDynamicArray m .bytes ref s)
  | assign memory calldata source, s =>
    copyArrayToStorage { m with memory := memory, calldata := calldata } .bytes .bytes source ref
      fuel s

/-- What happens to the list. There is no result if the operation fails. -/
def apply (s : Storage) : ByteArrayOperation → List Byte → Option (List Byte)
  | push value, xs => some (xs ++ [firstByte value])
  | pop, xs => if xs = [] then none else some xs.dropLast
  | setLength length, xs => some (resized xs length.toNat)
  | setElement index value, xs =>
    if index.toNat < xs.length then some (xs.set index.toNat (firstByte value)) else none
  | delete, _ => some []
  | assign memory calldata source, _ =>
    some (sourceBytes { m with memory := memory, calldata := calldata } source s)

/-- The source of an assignment is an array. -/
def Valid (s : Storage) : ByteArrayOperation → Prop
  | assign memory calldata source =>
    ValidSource { m with memory := memory, calldata := calldata } source s ref size
  | _ => True

/-- The array stays in its area, and no byte beyond its end is left that is not zero. -/
def Safe (s : Storage) (xs : List Byte) : ByteArrayOperation → Prop
  | push _ => xs.length < 32 * size
  | setLength length => length.toNat ≤ 32 * size ∧ ClearedEnd xs length.toNat
  | assign memory calldata source =>
    sourceLength { m with memory := memory, calldata := calldata } source s ≤ 32 * size ∧
      ClearedPadding { m with memory := memory, calldata := calldata } source s
  | _ => True

end ByteArrayOperation

/-- Byte arrays as an implementation of lists of bytes. They start empty, in slots that are zero. Other
slots may be written in between. -/
def byteArray (m : Machine) (ref : Word) (size fuel : ℕ) :
    Implementation Stop Storage ByteArrayOperation (List Byte) where
  apply operation s xs := operation.apply m s xs
  execute operation s := operation.execute m ref fuel s
  starts xs s := xs = [] ∧ s ref = 0 ∧ ∀ j < size, area (m.keccak256 ref) s j = 0
  interferes s s' := ∃ x w, x ≠ ref ∧ Outside (m.keccak256 ref) size x ∧
    s' = Function.update s x w

/-- What can be seen of a byte array. -/
structure ShowsBytes (m : Machine) (ref : Word) (xs : List Byte) (s : Storage) : Prop where
  length_eq : (retrieveLength m .bytes ⟨.storage, ref, 0⟩ s).toNat = xs.length
  element_eq : ∀ i < xs.length, getElement m .bytes ref (.ofNat 256 i) s =
    .ok [.ofNat 256 (byteAt xs i * 2 ^ 248)] s
  short_iff : (s ref).toNat % 2 = 0 ↔ xs.length ≤ 31

variable {m : Machine} {ref x : Word} {size fuel : ℕ} {xs ys : List Byte} {s s' : Storage}

lemma HoldsBytes.shows (harea : HasArea m ref size) (h : HoldsBytes m ref size xs s) :
    ShowsBytes m ref xs s where
  length_eq := h.length_eq
  element_eq _ hi := getElement_bytes h hi harea.length_lt
  short_iff := h.even_iff

/-! ### Steps -/

lemma HoldsBytes.zeroed (harea : HasArea m ref size) (href : s ref = 0)
    (hdata : ∀ j < size, area (m.keccak256 ref) s j = 0) : HoldsBytes m ref size [] s := by
  have hupdate : Function.update s ref 0 = s := by
    rw [← href, update_eq_self]
  rw [← hupdate]
  refine HoldsBytes.nil harea 0 rfl fun i hi => ?_
  rw [item, Packing.read, hdata _ (by change i / 32 < size; omega)]
  exact Field.get_zero _

lemma HoldsBytes.elsewhere (harea : HasArea m ref size) (h : HoldsBytes m ref size xs s)
    (hx : x ≠ ref) (hout : Outside (m.keccak256 ref) size x) (w : Word) :
    HoldsBytes m ref size xs (Function.update s x w) where
  length_le := h.length_le
  short := by
    rw [update_of_ne hx.symm]
    exact h.short
  long := by
    rw [update_of_ne hx.symm]
    exact h.long
  data i hi := by
    rw [item_update_of_outside harea.fits hout (by rwa [Nat.mul_comm] at hi), h.data i hi]

lemma popStorageArrayElement_nil (h : HoldsBytes m ref size [] s) :
    popStorageArrayElement m .bytes ref s = .halt .invalid s := by
  have hlast := (h.short (Nat.zero_le _)).2
  rw [byteOf_last] at hlast
  have hmod : (s ref).toNat % 256 = 0 := hlast
  have heven : s ref &&& 1 = 0 := (and_one_eq_zero_iff _).mpr (by omega)
  have hlength : s ref / 2 &&& 0x1f = 0 := by
    apply eq_of_toNat_eq
    rw [toNat_and, toNat_udiv]
    refine (Nat.and_two_pow_sub_one_eq_mod _ 5).trans ?_
    change (s ref).toNat / 2 % 2 ^ 5 = 0
    omega
  change popByteArrayElement m ref s = _
  unfold popByteArrayElement
  simp only [heven, hlength, if_true]

lemma HasArea.with_memory (harea : HasArea m ref size) (memory calldata : Word → Byte) :
    HasArea { m with memory := memory, calldata := calldata } ref size :=
  ⟨harea.fits, harea.outside, harea.length_lt⟩

lemma HoldsBytes.with_memory (h : HoldsBytes m ref size xs s) (memory calldata : Word → Byte) :
    HoldsBytes { m with memory := memory, calldata := calldata } ref size xs s :=
  ⟨h.length_le, h.short, h.long, h.data⟩

lemma assign_bytes (harea : HasArea m ref size) (h : HoldsBytes m ref size xs s)
    {source : Reference} (hvalid : ValidSource m source s ref size)
    (hlength : sourceLength m source s ≤ 32 * size) (hpadding : ClearedPadding m source s)
    (hfuel : size < fuel) :
    ∃ s', copyArrayToStorage m .bytes .bytes source ref fuel s = .ok () s' ∧
      HoldsBytes m ref size (sourceBytes m source s) s' ∧ Unchanged m ref size s s' := by
  have hold : (retrieveStorageLength .bytes ref s).toNat ≤ 32 * size := by
    rw [h.length_eq]
    exact h.length_le
  obtain ⟨s', hcopy, hcopied⟩ := copyArrayToStorage_bytes harea hold hvalid hlength hfuel
  exact ⟨s', hcopy, hcopied.holds h hlength hpadding, hcopied.unchanged⟩

/-- The condition under which an operation does to the array what it does to the list. -/
def SafeOperation (m : Machine) (ref : Word) (size : ℕ) (operation : ByteArrayOperation)
    (xs : List Byte) (s : Storage) : Prop :=
  operation.Valid m ref size s ∧ operation.Safe m size s xs

/-- One operation. -/
theorem byteArray_simulates (harea : HasArea m ref size) (hfuel : size < fuel)
    (operation : ByteArrayOperation) (xs : List Byte) (s : Storage)
    (h : HoldsBytes m ref size xs s) (hsafe : SafeOperation m ref size operation xs s) :
    (byteArray m ref size fuel).Simulates (HoldsBytes m ref size) (Unchanged m ref size) .invalid
      operation xs s := by
  obtain ⟨hvalid, hsafe⟩ := hsafe
  unfold Implementation.Simulates byteArray
  cases operation with
  | push value => exact push_bytes harea h hsafe value
  | pop =>
    simp only [ByteArrayOperation.apply, ByteArrayOperation.execute]
    split_ifs with hxs
    · subst hxs
      exact popStorageArrayElement_nil h
    · exact popByteArrayElement_holds harea h (List.length_pos_iff.mpr hxs)
  | setLength length =>
    obtain ⟨hholds, hunchanged⟩ := resizeDynamicArray_bytes harea h hsafe.1 hsafe.2
    exact ⟨_, rfl, hholds, hunchanged⟩
  | setElement index value =>
    simp only [ByteArrayOperation.apply, ByteArrayOperation.execute]
    rw [setElement_bytes h]
    split_ifs with hindex
    · obtain ⟨hholds, hunchanged⟩ := setByte_holds harea h hindex (firstByte value)
      exact ⟨_, rfl, hholds, hunchanged⟩
    · rfl
  | delete =>
    obtain ⟨hholds, hunchanged⟩ := clearDynamicArray_bytes harea h
    exact ⟨_, rfl, hholds, hunchanged⟩
  | assign memory calldata source =>
    obtain ⟨s', hcopy, hholds, hunchanged⟩ := assign_bytes (harea.with_memory memory calldata)
      (h.with_memory memory calldata) hvalid hsafe.1 hsafe.2 hfuel
    exact ⟨s', hcopy, hholds.with_memory m.memory m.calldata, hunchanged⟩

/-- The representation is an invariant of the runs. -/
theorem byteArray_holds (harea : HasArea m ref size) (hfuel : size < fuel)
    (h : (byteArray m ref size fuel).Reaches (SafeOperation m ref size) xs s) :
    HoldsBytes m ref size xs s := by
  refine h.invariant ?_ ?_ (byteArray_simulates harea hfuel)
  · rintro xs s ⟨rfl, href, hdata⟩
    exact HoldsBytes.zeroed harea href hdata
  · rintro xs s s' hs ⟨x, w, hx, hout, rfl⟩
    exact hs.elsewhere harea hx hout w

/-- In every state that runs of such operations come to, the array shows its list, and the next
operation does to it what it does to the list and leaves the other slots alone. -/
theorem byteArray_represents (harea : HasArea m ref size) (hfuel : size < fuel)
    (h : (byteArray m ref size fuel).Reaches (SafeOperation m ref size) xs s) :
    ShowsBytes m ref xs s ∧
      ∀ operation, SafeOperation m ref size operation xs s →
        (byteArray m ref size fuel).Simulates (ShowsBytes m ref) (Unchanged m ref size) .invalid
          operation xs s := by
  have hholds := byteArray_holds harea hfuel h
  exact ⟨hholds.shows harea, fun operation hsafe =>
    (byteArray_simulates harea hfuel operation xs s hholds hsafe).mono
      fun _ _ hs => hs.shows harea⟩

/-! ### An array in the first slot -/

/-- A machine with the hash of the first slot. -/
def firstSlotMachine : Machine where
  keccak256 _ := 0x290decd9548b62a8d60345a988386fc84ba6bc95484008f6362f93160ef3e563
  memory _ := 0
  calldata _ := 0
  hasBitwiseShifting := true
  invalidFunction := 0

lemma hasArea_firstSlot : HasArea firstSlotMachine 0 4 where
  fits := by
    unfold Fits
    decide +kernel
  outside := .inl (by decide +kernel)
  length_lt := by norm_num

/-- Thirty-three bytes that are zero and another one. -/
def lastByteSet : List Byte := (resized [] 34).set 33 0xff

lemma reaches_lastByteSet (condition : ByteArrayOperation → List Byte → Storage → Prop)
    (hlength : ∀ s, condition (.setLength 34) [] s)
    (helement : ∀ s, condition (.setElement 33 (.ofNat 256 (0xff * 2 ^ 248))) (resized [] 34) s) :
    ∃ s, (byteArray firstSlotMachine 0 4 5).Reaches condition lastByteSet s ∧
      HoldsBytes firstSlotMachine 0 4 lastByteSet s := by
  have hzero : (byteArray firstSlotMachine 0 4 5).Reaches condition [] fun _ => 0 :=
    .start ⟨rfl, rfl, fun _ _ => rfl⟩
  obtain ⟨s₁, hreaches₁, hholds₁, -⟩ := hzero.next (hlength _)
    (byteArray_simulates hasArea_firstSlot (by decide) _ _ _
      (HoldsBytes.zeroed hasArea_firstSlot rfl fun _ _ => rfl)
      ⟨trivial, by decide, fun _ _ _ _ => rfl⟩) rfl
  obtain ⟨s₂, hreaches₂, hholds₂, -⟩ := hreaches₁.next (helement s₁)
    (byteArray_simulates hasArea_firstSlot (by decide) _ _ _ hholds₁ ⟨trivial, trivial⟩) rfl
  exact ⟨s₂, hreaches₂, hholds₂⟩

theorem byteArray_represents_lastByteSet :
    ∃ s, ShowsBytes firstSlotMachine 0 lastByteSet s ∧
      ∃ s', ByteArrayOperation.pop.execute firstSlotMachine 0 5 s = .ok () s' ∧
        ShowsBytes firstSlotMachine 0 (resized [] 33) s' ∧ Unchanged firstSlotMachine 0 4 s s' := by
  obtain ⟨s, hreaches, -⟩ := reaches_lastByteSet (SafeOperation firstSlotMachine 0 4)
    (fun _ => ⟨trivial, by decide, fun _ _ _ _ => rfl⟩) (fun _ => ⟨trivial, trivial⟩)
  obtain ⟨hshows, hstep⟩ := byteArray_represents hasArea_firstSlot (by decide) hreaches
  exact ⟨s, hshows, hstep .pop ⟨trivial, trivial⟩⟩

lemma resizeDynamicArray_within {n oldLength : Word}
    (hold : retrieveStorageLength .bytes ref s = oldLength) (hlong : 31 < oldLength) (hn : 31 < n)
    (hsize : convertLengthToSize .bytes n = convertLengthToSize .bytes oldLength) :
    resizeDynamicArray m .bytes ref n s = Function.update s ref (1 + (n + n)) := by
  unfold resizeDynamicArray resizeRegular
  simp only [isByteArray_bytes, hold, hlong, hn, if_true, hsize]
  split_ifs
  · rw [clearStorageLoop, if_neg (BitVec.lt_irrefl _)]
  · rfl

/-- The byte that was removed with the end of the array is there again when the array grows. -/
theorem byteArray_exposesRemoved :
    ¬ ∀ xs s, (byteArray firstSlotMachine 0 4 5).Reaches
        (fun operation _ s => operation.Valid firstSlotMachine 0 4 s) xs s →
      ShowsBytes firstSlotMachine 0 xs s := by
  intro h
  obtain ⟨s, hreaches, hholds⟩ := reaches_lastByteSet
    (fun operation _ s => operation.Valid firstSlotMachine 0 4 s) (fun _ => trivial)
    (fun _ => trivial)
  have hlength : retrieveStorageLength .bytes 0 s = 34 := eq_of_toNat_eq hholds.length_eq
  have hcut : resizeDynamicArray firstSlotMachine .bytes 0 33 s = Function.update s 0 67 :=
    resizeDynamicArray_within hlength (by decide) (by decide) (by decide)
  have hcutLength : retrieveStorageLength .bytes 0 (Function.update s 0 67) = 33 := by
    change byteArrayLength (Function.update s 0 67 0) = 33
    rw [update_self]
    decide
  have hgrown : resizeDynamicArray firstSlotMachine .bytes 0 34 (Function.update s 0 67) =
      Function.update s 0 69 :=
    (resizeDynamicArray_within hcutLength (by decide) (by decide) (by decide)).trans
      (update_idem _ _ _)
  have hreaches₁ := hreaches.step (.setLength 33) trivial rfl (congrArg (Result.ok ()) hcut)
  have hreaches₂ := hreaches₁.step (.setLength 34) trivial rfl (congrArg (Result.ok ()) hgrown)
  have hdata : HoldsBytes firstSlotMachine 0 4 lastByteSet (Function.update s 0 69) :=
    HoldsBytes.update_long hasArea_firstSlot hholds.length_le (by decide)
      (fun i hi => hholds.data i hi) rfl
  have hshown := (h _ _ hreaches₂).element_eq 33 (by decide)
  rw [(hdata.shows hasArea_firstSlot).element_eq 33 (by decide)] at hshown
  simp only [Result.ok.injEq, and_true] at hshown
  exact absurd hshown (by decide)

end Polynomial
