import Polc.Codegen.ArrayUtils.ByteArrays.Runs
import Polc.Codegen.ArrayUtils.ValueArrays

/-!
# Runs on an array of values

What any sequence of operations on a dynamic array of values in storage makes of the list it stands
for.
-/

namespace Polynomial

open ValueType Function
open Sof (Word Byte)
open Semantics ArrayUtils

/-- The operations on a dynamic array of values. Values come with the words they are on the stack, and
an assignment with the memory and the calldata at that time and the values of the source. -/
inductive ValueArrayOperation where
  | push (value : ℤ) (words : List Word)
  | pop
  | setLength (length : Word)
  | setElement (index : Word) (value : ℤ) (words : List Word)
  | delete
  | assign (memory calldata : Word → Byte) (sourceType : ArrayType) (source : Reference)
      (values : ℕ → ℤ)

namespace ValueArrayOperation

variable (m : Machine) (t : ValueType) (ht : t.isValueType = true) (ref : Word) (size fuel : ℕ)

/-- What the code does. -/
def execute : ValueArrayOperation → Storage → Result Stop Storage Unit
  | push _ words, s => ArrayUtils.push m (.dynamic t ht) ref words s
  | pop, s => popStorageArrayElement m (.dynamic t ht) ref s
  | setLength length, s => .ok () (resizeDynamicArray m (.dynamic t ht) ref length s)
  | setElement index _ words, s => ArrayUtils.setElement m (.dynamic t ht) ref index words s
  | delete, s => .ok () (clearDynamicArray m (.dynamic t ht) ref s)
  | assign memory calldata sourceType source _, s =>
    copyArrayToStorage { m with memory := memory, calldata := calldata } (.dynamic t ht) sourceType
      source ref fuel s

/-- What happens to the list. There is no result if the operation fails. -/
def apply (s : Storage) : ValueArrayOperation → List ℤ → Option (List ℤ)
  | push value _, xs => some (xs ++ [value])
  | pop, xs => if xs = [] then none else some xs.dropLast
  | setLength length, xs => some (firstValues (valueAt xs) length.toNat)
  | setElement index value _, xs =>
    if index.toNat < xs.length then some (xs.set index.toNat value) else none
  | delete, _ => some []
  | assign memory calldata sourceType source values, _ =>
    some (firstValues (fun i => sourceType.baseType.extend t (values i))
      (elementCount { m with memory := memory, calldata := calldata } sourceType source s))

/-- The values are of the type, and the source of an assignment is an array of values that can be
assigned. -/
def Valid (s : Storage) : ValueArrayOperation → Prop
  | push value words => t.IsValue value ∧ t.OnStack value words
  | setElement _ value words => t.IsValue value ∧ t.OnStack value words
  | assign memory calldata sourceType source values =>
    let m := { m with memory := memory, calldata := calldata }
    sourceType.isImplicitlyConvertibleTo (.dynamic t ht) = true ∧
      (∀ f, t = .function f → sourceType.baseType = t) ∧
      HoldsElements m sourceType source s values ∧
      (∀ i < elementCount m sourceType source s, sourceType.baseType.IsValue (values i)) ∧
      CopyPlaces m (.dynamic t ht) sourceType source ref s
  | _ => True

/-- The array stays in its area, a shorter one is followed by zeros up to the end of its last slot, and
assignments are copies. -/
def Safe (s : Storage) (xs : List ℤ) : ValueArrayOperation → Prop
  | push _ _ => xs.length < size * t.packing.count
  | setLength length => length.toNat ≤ size * t.packing.count ∧ ClearedRest t xs length.toNat
  | assign memory calldata sourceType source values =>
    let m := { m with memory := memory, calldata := calldata }
    elementCount m sourceType source s ≤ size * t.packing.count ∧
      CopiesSafely m (.dynamic t ht) sourceType source ref s values
  | _ => True

end ValueArrayOperation

/-- Arrays of values as an implementation of lists of values. They start empty, in slots that are zero.
Other slots may be written in between. -/
def valueArray (m : Machine) (t : ValueType) (ht : t.isValueType = true) (ref : Word)
    (size fuel : ℕ) : Implementation Stop Storage ValueArrayOperation (List ℤ) where
  apply operation s xs := operation.apply m t s xs
  execute operation s := operation.execute m t ht ref fuel s
  starts xs s := xs = [] ∧ s ref = 0 ∧ ∀ j < size, area (m.keccak256 ref) s j = 0
  interferes s s' := ∃ x w, x ≠ ref ∧ Outside (m.keccak256 ref) size x ∧
    s' = Function.update s x w

/-- What can be seen of an array of values. -/
structure ShowsValues (m : Machine) (t : ValueType) (ht : t.isValueType = true) (ref : Word)
    (xs : List ℤ) (s : Storage) : Prop where
  length_eq : (retrieveLength m (.dynamic t ht) ⟨.storage, ref, 0⟩ s).toNat = xs.length
  element_eq : ∀ i < xs.length, ∃ ws,
    getElement m (.dynamic t ht) ref (.ofNat 256 i) s = .ok ws s ∧ t.Retrieved m (valueAt xs i) ws
  element_invalid : ∀ index : Word, xs.length ≤ index.toNat →
    getElement m (.dynamic t ht) ref index s = .halt .invalid s

/-- The condition under which an operation does to the array what it does to the list. -/
def SafeValueOperation (m : Machine) (t : ValueType) (ht : t.isValueType = true) (ref : Word)
    (size : ℕ) (operation : ValueArrayOperation) (xs : List ℤ) (s : Storage) : Prop :=
  operation.Valid m t ht ref s ∧ operation.Safe m t ht ref size s xs

variable {m : Machine} {t : ValueType} {ht : t.isValueType = true} {ref x : Word} {size fuel : ℕ}
  {xs : List ℤ} {s s' : Storage}

lemma HoldsValues.shows (harea : HasValueArea m t ref size) (h : HoldsValues m t ref size xs s) :
    ShowsValues m t ht ref xs s where
  length_eq := h.length_eq
  element_eq _ hi := getElement_values harea h hi
  element_invalid index hi := by
    unfold getElement checkedAccessIndex
    rw [if_neg (fun hlt => absurd (BitVec.lt_def.mp hlt) (by rw [toNat_length h]; omega))]
    rfl

/-! ### Steps -/

lemma HoldsValues.zeroed (href : s ref = 0)
    (hdata : ∀ j < size, area (m.keccak256 ref) s j = 0) : HoldsValues m t ref size [] s := by
  refine ⟨Nat.zero_le _, nofun, congrArg BitVec.toNat href, fun i hi => ?_⟩
  have hnil : valueAt [] i = 0 := rfl
  rw [hnil, toContent_zero, item, Packing.read, hdata _ (t.packing.div_lt_iff.mpr hi)]
  exact Field.get_zero _

lemma HoldsValues.elsewhere (harea : HasValueArea m t ref size)
    (h : HoldsValues m t ref size xs s) (hx : x ≠ ref) (hout : Outside (m.keccak256 ref) size x)
    (w : Word) : HoldsValues m t ref size xs (Function.update s x w) where
  length_le := h.length_le
  isValue := h.isValue
  length_eq := by
    rw [update_of_ne hx.symm]
    exact h.length_eq
  item_eq i hi := by rw [item_update_of_outside harea.fits hout hi, h.item_eq i hi]

lemma HasValueArea.with_memory (harea : HasValueArea m t ref size) (memory calldata : Word → Byte) :
    HasValueArea { m with memory := memory, calldata := calldata } t ref size :=
  ⟨harea.fits, harea.outside, harea.count_lt⟩

lemma HoldsValues.with_memory (h : HoldsValues m t ref size xs s)
    (memory calldata : Word → Byte) :
    HoldsValues { m with memory := memory, calldata := calldata } t ref size xs s :=
  ⟨h.length_le, h.isValue, h.length_eq, h.item_eq⟩

lemma copiedCount_le (m : Machine) (sourceType : ArrayType) (source : Reference) (s : Storage) :
    copiedCount m sourceType source s ≤ elementCount m sourceType source s + 31 := by
  unfold copiedCount
  split_ifs
  · have hcount : sourceType.baseType.packing.count ≤ 32 := by
      rcases Nat.lt_or_ge 16 sourceType.baseType.storageBytes with h | h
      · rw [packing_count_of_lt h]
        norm_num
      · rw [packing_count_of_le h]
        exact Nat.div_le_self _ _
    have hle := Nat.div_mul_le_self
      (elementCount m sourceType source s + (sourceType.baseType.packing.count - 1))
      sourceType.baseType.packing.count
    unfold Packing.words
    omega
  · exact Nat.le_add_right _ _

lemma holdsValues_of_copies {sourceType : ArrayType} {source : Reference} {values : ℕ → ℤ}
    (hcopies : CopiesByValue m (.dynamic t ht) sourceType source ref s values s')
    (harea : HasValueArea m t ref size) (h : HoldsValues m t ref size xs s)
    (hlength : elementCount m sourceType source s ≤ size * t.packing.count)
    (hconverts : ValueType.Converts sourceType.baseType t)
    (hvalues : ∀ i < elementCount m sourceType source s,
      sourceType.baseType.IsValue (values i)) :
    HoldsValues m t ref size (firstValues (fun i => sourceType.baseType.extend t (values i))
        (elementCount m sourceType source s)) s' ∧ Unchanged m ref size s s' := by
  have htarget : (ArrayType.dynamic t ht).isByteArray = false := rfl
  have hcount : targetCount (.dynamic t ht) ref s = xs.length := h.length_eq
  have hunchanged := hcopies.unchanged
  have hcleared := hcopies.cleared
  rw [ClearedBehind, htarget, if_neg Bool.false_ne_true, dataSlots_of_not htarget] at hcleared
  rw [dataSlots_of_not htarget] at hunchanged
  have hown : ownSlots m (.dynamic t ht) sourceType source ref s ≤ size := by
    rw [ownSlots, hcount]
    exact max_le (t.packing.words_le_iff.mpr hlength) h.words_le
  have hold : xs.length ≤
      ownSlots m (.dynamic t ht) sourceType source ref s * t.packing.count := by
    rw [ownSlots, hcount]
    exact (t.packing.le_words_mul _).trans (Nat.mul_le_mul_right _ (le_max_right _ _))
  refine ⟨⟨?_, fun v hv => ?_, ?_, fun i hi => ?_⟩, fun x hx hout => ?_⟩
  · rwa [length_firstValues]
  · obtain ⟨i, hi, rfl⟩ := List.mem_map.mp hv
    exact hconverts.isValue_extend (hvalues i (List.mem_range.mp hi))
  · rw [length_firstValues]
    exact hcopies.length_eq rfl
  · rw [valueAt_firstValues]
    split_ifs with hlt
    · have helement := hcopies.element_eq i hlt
      rw [storedElement, htarget, if_neg Bool.false_ne_true] at helement
      exact (toContent_injective (hconverts.isValue_extend (hvalues i hlt))
        (item_lt _ _ _ _)).mp helement
    · rw [toContent_zero]
      rcases Nat.lt_or_ge (i / t.packing.count)
        (ownSlots m (.dynamic t ht) sourceType source ref s) with hin | hbehind
      · exact hcleared i hin (Nat.le_of_not_lt hlt)
      · have hslot := t.packing.div_lt_iff.mpr hi
        have hout : Outside (m.keccak256 ref) (ownSlots m (.dynamic t ht) sourceType source ref s)
            (m.keccak256 ref + .ofNat 256 (i / t.packing.count)) := by
          refine .inr ?_
          rw [toNat_add_ofNat harea.fits hslot.le]
          omega
        have hitem : item t.packing (m.keccak256 ref) s' i = item t.packing (m.keccak256 ref) s i :=
          item_congr (hunchanged _ (fun _ => harea.outside.ne harea.fits hslot) hout)
        have hle : xs.length ≤ i := hold.trans
          ((Nat.mul_le_mul_right _ hbehind).trans (Nat.div_mul_le_self _ _))
        rw [hitem, h.item_eq i hi, valueAt_of_length_le hle, toContent_zero]
  · refine hunchanged x (fun _ => hx) ?_
    change Outside (m.keccak256 ref) _ x
    unfold Outside at hout ⊢
    omega

lemma assign_values (harea : HasValueArea m t ref size) (h : HoldsValues m t ref size xs s)
    {sourceType : ArrayType} {source : Reference} {values : ℕ → ℤ}
    (hconvertible : sourceType.isImplicitlyConvertibleTo (.dynamic t ht))
    (hsame : ∀ f, t = .function f → sourceType.baseType = t)
    (helements : HoldsElements m sourceType source s values)
    (hvalues : ∀ i < elementCount m sourceType source s, sourceType.baseType.IsValue (values i))
    (hplaces : CopyPlaces m (.dynamic t ht) sourceType source ref s)
    (hlength : elementCount m sourceType source s ≤ size * t.packing.count)
    (hsafe : CopiesSafely m (.dynamic t ht) sourceType source ref s values)
    (hfuel : size * t.packing.count + 32 < fuel) :
    ∃ s', copyArrayToStorage m (.dynamic t ht) sourceType source ref fuel s = .ok () s' ∧
      HoldsValues m t ref size (firstValues (fun i => sourceType.baseType.extend t (values i))
        (elementCount m sourceType source s)) s' ∧ Unchanged m ref size s s' := by
  simp only [ArrayType.isImplicitlyConvertibleTo, Bool.and_eq_true, decide_eq_true_eq]
    at hconvertible
  obtain ⟨⟨hkind, hbase⟩, -⟩ := hconvertible
  have hcopied := copiedCount_le m sourceType source s
  obtain ⟨s', hcopy, hcopies⟩ := (copyArrayToStorage_elements_iff hplaces rfl hkind hbase hsame
    helements (show copiedCount m sourceType source s < fuel by omega)
    (show 32 < fuel by omega)).mpr hsafe
  exact ⟨s', hcopy, holdsValues_of_copies hcopies harea h hlength
    (converts_of_isImplicitly sourceType.isValueType hbase) hvalues⟩

/-- One operation. -/
theorem valueArray_simulates (harea : HasValueArea m t ref size)
    (hfuel : size * t.packing.count + 32 < fuel) (operation : ValueArrayOperation) (xs : List ℤ)
    (s : Storage) (h : HoldsValues m t ref size xs s)
    (hsafe : SafeValueOperation m t ht ref size operation xs s) :
    (valueArray m t ht ref size fuel).Simulates (HoldsValues m t ref size)
      (Unchanged m ref size) .invalid operation xs s := by
  obtain ⟨hvalid, hsafe⟩ := hsafe
  unfold Implementation.Simulates valueArray
  cases operation with
  | push value words => exact push_values harea h hvalid.1 hvalid.2 hsafe
  | pop =>
    simp only [ValueArrayOperation.apply, ValueArrayOperation.execute]
    split_ifs with hxs
    · subst hxs
      exact pop_values_invalid h
    · exact pop_values harea h (List.length_pos_iff.mpr hxs)
  | setLength length =>
    obtain ⟨hholds, hunchanged⟩ := resizeDynamicArray_values harea h hsafe.1 hsafe.2
    exact ⟨_, rfl, hholds, hunchanged⟩
  | setElement index value words =>
    simp only [ValueArrayOperation.apply, ValueArrayOperation.execute]
    split_ifs with hindex
    · exact setElement_values harea h hvalid.1 hvalid.2 hindex
    · exact setElement_values_invalid h (Nat.le_of_not_lt hindex)
  | delete =>
    obtain ⟨hholds, hunchanged⟩ := clearDynamicArray_values harea h
    exact ⟨_, rfl, hholds, hunchanged⟩
  | assign memory calldata sourceType source values =>
    obtain ⟨hconvertible, hsame, helements, hvalues, hplaces⟩ := hvalid
    obtain ⟨s', hcopy, hholds, hunchanged⟩ := assign_values (harea.with_memory memory calldata)
      (h.with_memory memory calldata) hconvertible hsame helements hvalues hplaces hsafe.1 hsafe.2
      hfuel
    exact ⟨s', hcopy, hholds.with_memory m.memory m.calldata, hunchanged⟩

/-- The representation is an invariant of the runs. -/
theorem valueArray_holds (harea : HasValueArea m t ref size)
    (hfuel : size * t.packing.count + 32 < fuel)
    (h : (valueArray m t ht ref size fuel).Reaches (SafeValueOperation m t ht ref size) xs s) :
    HoldsValues m t ref size xs s := by
  refine h.invariant ?_ ?_ (valueArray_simulates harea hfuel)
  · rintro xs s ⟨rfl, href, hdata⟩
    exact HoldsValues.zeroed href hdata
  · rintro xs s s' hs ⟨x, w, hx, hout, rfl⟩
    exact hs.elsewhere harea hx hout w

/-- In every state that runs of such operations come to, the array shows its list, and the next
operation does to it what it does to the list and leaves the other slots alone. -/
theorem valueArray_represents (harea : HasValueArea m t ref size)
    (hfuel : size * t.packing.count + 32 < fuel)
    (h : (valueArray m t ht ref size fuel).Reaches (SafeValueOperation m t ht ref size) xs s) :
    ShowsValues m t ht ref xs s ∧
      ∀ operation, SafeValueOperation m t ht ref size operation xs s →
        (valueArray m t ht ref size fuel).Simulates (ShowsValues m t ht ref)
          (Unchanged m ref size) .invalid operation xs s := by
  have hholds := valueArray_holds harea hfuel h
  exact ⟨hholds.shows harea, fun operation hsafe =>
    (valueArray_simulates harea hfuel operation xs s hholds hsafe).mono
      fun _ _ hs => hs.shows harea⟩

/-! ### An array in the first slot -/

/-- The type `uint8`. -/
def uint8 : ValueType := .integer ⟨8, false, valid_eight⟩

lemma hasValueArea_firstSlot : HasValueArea firstSlotMachine uint8 0 1 where
  fits := hasArea_firstSlot.fits.mono (by norm_num)
  outside := .inl (by decide +kernel)
  count_lt := by
    change 1 * 32 + 31 < 2 ^ 256
    norm_num

lemma reaches_lastElementSet
    (condition : ValueArrayOperation → List ℤ → Storage → Prop)
    (hlength : ∀ s, condition (.setLength 2) [] s)
    (helement : ∀ s, condition (.setElement 1 7 [7]) [0, 0] s) :
    ∃ s, (valueArray firstSlotMachine uint8 rfl 0 1 65).Reaches condition [0, 7] s ∧
      HoldsValues firstSlotMachine uint8 0 1 [0, 7] s := by
  have hzero : (valueArray firstSlotMachine uint8 rfl 0 1 65).Reaches condition [] fun _ => 0 :=
    .start ⟨rfl, rfl, fun _ _ => rfl⟩
  obtain ⟨s₁, hreaches₁, hholds₁, -⟩ := hzero.next (hlength _)
    (valueArray_simulates hasValueArea_firstSlot (by decide) _ _ _
      (HoldsValues.zeroed rfl fun _ _ => rfl)
      ⟨trivial, by decide, fun _ _ _ => rfl⟩) rfl
  obtain ⟨s₂, hreaches₂, hholds₂, -⟩ := hreaches₁.next (helement s₁)
    (valueArray_simulates hasValueArea_firstSlot (by decide) _ _ _ hholds₁
      ⟨⟨⟨by decide, by decide⟩, ⟨_, rfl, by decide⟩⟩, trivial⟩) rfl
  exact ⟨s₂, hreaches₂, hholds₂⟩

theorem valueArray_represents_lastElementSet :
    ∃ s, ShowsValues firstSlotMachine uint8 rfl 0 [0, 7] s ∧
      ∃ s', ValueArrayOperation.pop.execute firstSlotMachine uint8 rfl 0 65 s = .ok () s' ∧
        ShowsValues firstSlotMachine uint8 rfl 0 [0] s' ∧ Unchanged firstSlotMachine 0 1 s s' := by
  obtain ⟨s, hreaches, -⟩ := reaches_lastElementSet
    (SafeValueOperation firstSlotMachine uint8 rfl 0 1)
    (fun _ => ⟨trivial, by decide, fun _ _ _ => rfl⟩)
    (fun _ => ⟨⟨⟨by decide, by decide⟩, ⟨_, rfl, by decide⟩⟩, trivial⟩)
  obtain ⟨hshows, hstep⟩ := valueArray_represents hasValueArea_firstSlot (by decide) hreaches
  exact ⟨s, hshows, hstep .pop ⟨trivial, trivial⟩⟩

lemma resizeDynamicArray_values_within {n oldLength : Word} (hold : s ref = oldLength)
    (hsize : convertLengthToSize (.dynamic t ht) n =
      convertLengthToSize (.dynamic t ht) oldLength) :
    resizeDynamicArray m (.dynamic t ht) ref n s = Function.update s ref n := by
  rw [resizeDynamicArray_dynamic, hold, hsize, clearStorageLoop,
    if_neg (BitVec.lt_irrefl (m.keccak256 ref + convertLengthToSize (.dynamic t ht) oldLength)),
    ite_self]

/-- The element that was removed with the end of the array is there again when the array grows. -/
theorem valueArray_exposesRemoved :
    ¬ ∀ xs s, (valueArray firstSlotMachine uint8 rfl 0 1 65).Reaches
        (fun operation _ s => operation.Valid firstSlotMachine uint8 rfl 0 s) xs s →
      ShowsValues firstSlotMachine uint8 rfl 0 xs s := by
  intro h
  obtain ⟨s, hreaches, hholds⟩ := reaches_lastElementSet
    (fun operation _ s => operation.Valid firstSlotMachine uint8 rfl 0 s) (fun _ => trivial)
    (fun _ => ⟨⟨by decide, by decide⟩, ⟨_, rfl, by decide⟩⟩)
  have hlength : s 0 = 2 := BitVec.eq_of_toNat_eq hholds.length_eq
  have hcut : resizeDynamicArray firstSlotMachine (.dynamic uint8 rfl) 0 1 s =
      Function.update s 0 1 :=
    resizeDynamicArray_values_within hlength (by decide)
  have hgrown : resizeDynamicArray firstSlotMachine (.dynamic uint8 rfl) 0 2
      (Function.update s 0 1) = Function.update s 0 2 :=
    (resizeDynamicArray_values_within (update_self _ _ _) (by decide)).trans
      (update_idem _ _ _)
  have hreaches₁ := hreaches.step (.setLength 1) trivial rfl (congrArg (Result.ok ()) hcut)
  have hreaches₂ := hreaches₁.step (.setLength 2) trivial rfl (congrArg (Result.ok ()) hgrown)
  have hdata : HoldsValues firstSlotMachine uint8 0 1 [0, 7] (Function.update s 0 2) :=
    HoldsValues.update_length hasValueArea_firstSlot hholds.length_le hholds.isValue
      hholds.item_eq rfl
  obtain ⟨ws, hread, hretrieved⟩ := (h _ _ hreaches₂).element_eq 1 (by decide)
  have hshows : ShowsValues firstSlotMachine uint8 rfl 0 [0, 7] (Function.update s 0 2) :=
    hdata.shows hasValueArea_firstSlot
  obtain ⟨ws', hread', hretrieved'⟩ := hshows.element_eq 1 (by decide)
  rw [hread] at hread'
  cases hread'
  have hseven : ws = [7] := hretrieved'
  have hnone : ws = [0] := hretrieved
  rw [hseven] at hnone
  exact absurd hnone (by decide)

end Polynomial
