import Polc.Yul.AsmAnalysis.Properties
import Std.Data.String.ToNat

/-!
# New names

`libyul/optimiser/NameDispenser.cpp`: names that do not occur in the program and mean nothing in
the dialect.
-/

namespace Yul

open Sof List Option Bool

/-- The dialect is one for the virtual machine; all versions of it have `STOP`. -/
def Dialect.isSVMDialect (dialect : Dialect) : Bool :=
  dialect.objectAccess || dialect.hasOpcode .stop

structure NameDispenser where
  dialect : Dialect
  usedNames : List YulString
  counter : Nat

namespace NameDispenser

def ofNames (dialect : Dialect) (names : List YulString) : NameDispenser := ⟨dialect, names, 0⟩

def ofBlock (dialect : Dialect) (ss : Block) : NameDispenser :=
  .ofNames dialect (namesOfStatements ss)

section

variable (D : NameDispenser)

def illegalName (name : YulString) : Bool :=
  name = "" || name ∈ D.usedNames || (D.dialect.builtin name).isSome ||
    (D.dialect.isSVMDialect && (Parser.instructions.lookup name).isSome)

/-- Names that can be illegal. -/
def illegalNames : List YulString :=
  "" :: D.usedNames ++ (Parser.instructions.map (·.1) ++ objectFunctions.map (·.1))

/-- The name with a number behind it. -/
def suffixed (nameHint : YulString) (counter : Nat) : YulString :=
  nameHint ++ "_" ++ toString counter

/-- The loop of `newName`, with a bound on its iterations. -/
def search (nameHint : YulString) : Nat → YulString → Nat → YulString × Nat
  | 0, name, counter => (name, counter)
  | n + 1, name, counter =>
    if D.illegalName name then search nameHint n (suffixed nameHint (counter + 1)) (counter + 1)
    else (name, counter)

/-- A new name; there are more candidates than illegal names. -/
def newName (nameHint : YulString) : YulString × NameDispenser :=
  let r := D.search nameHint (D.illegalNames.length + 2) nameHint D.counter
  (r.1, { D with usedNames := r.1 :: D.usedNames, counter := r.2 })

/-- New names for several variables, one after the other. -/
def newNames (D : NameDispenser) : List YulString → List YulString × NameDispenser
  | [] => ([], D)
  | x :: xs => ((D.newName x).1 :: ((D.newName x).2.newNames xs).1, ((D.newName x).2.newNames xs).2)

end

section

variable {D : NameDispenser} {nameHint name : YulString}

lemma mem_illegalNames (h : D.illegalName name) : name ∈ D.illegalNames := by
  have hlookup {β : Type} {l : List (YulString × β)} {b : β} (hb : l.lookup name = some b) :
      name ∈ l.map (·.1) := by
    obtain ⟨l₁, l₂, rfl, -⟩ := lookup_eq_some_iff.mp hb
    simp
  rw [illegalNames, mem_append, mem_append, mem_cons]
  simp only [illegalName, or_eq_true, decide_eq_true_eq, and_eq_true] at h
  rcases h with ((rfl | hused) | hbuiltin) | ⟨-, hinstruction⟩
  · exact .inl (.inl rfl)
  · exact .inl (.inr hused)
  · obtain ⟨f, hf⟩ := isSome_iff_exists.mp hbuiltin
    unfold Dialect.builtin at hf
    split at hf
    · rename_i i hi
      exact .inr (.inl (hlookup (filter_eq_some_iff.mp hi).1))
    · split at hf
      · exact .inr (.inr (hlookup hf))
      · cases hf
  · obtain ⟨i, hi⟩ := isSome_iff_exists.mp hinstruction
    exact .inr (.inl (hlookup hi))

lemma suffixed_injective (nameHint : YulString) : Function.Injective (suffixed nameHint) := by
  intro k k' h
  exact Nat.repr_injective ((String.append_right_inj _).mp h)

lemma illegalName_of_search {n : Nat} {counter : Nat}
    (h : D.illegalName (D.search nameHint n name counter).1) :
    D.illegalName name ∧
      ∀ k < n, D.illegalName (suffixed nameHint (counter + 1 + k)) := by
  induction n generalizing name counter with
  | zero => exact ⟨h, nofun⟩
  | succ n ih =>
    rw [search] at h
    by_cases hname : D.illegalName name = true
    · rw [if_pos hname] at h
      obtain ⟨hfirst, hrest⟩ := ih h
      refine ⟨hname, fun k hk => ?_⟩
      cases k with
      | zero => exact hfirst
      | succ k =>
        have hk' := hrest k (Nat.lt_of_succ_lt_succ hk)
        rwa [show counter + 1 + (k + 1) = counter + 1 + 1 + k by omega]
    · rw [if_neg hname] at h
      exact absurd h hname

/-- The loop ends: the new name is legal. -/
theorem illegalName_newName (D : NameDispenser) (nameHint : YulString) :
    D.illegalName (D.newName nameHint).1 = false := by
  rw [← not_eq_true]
  intro h
  obtain ⟨-, hall⟩ := illegalName_of_search h
  have hnodup : ((List.range (D.illegalNames.length + 2)).map
      fun k => suffixed nameHint (D.counter + 1 + k)).Nodup :=
    nodup_range.map fun k k' hk => Nat.add_left_cancel (suffixed_injective nameHint hk)
  have hsubset : ((List.range (D.illegalNames.length + 2)).map
      fun k => suffixed nameHint (D.counter + 1 + k)) ⊆ D.illegalNames := by
    intro x hx
    obtain ⟨k, hk, rfl⟩ := List.mem_map.mp hx
    exact mem_illegalNames (hall k (mem_range.mp hk))
  have hlength := (subperm_of_subset hnodup hsubset).length_le
  rw [length_map, length_range] at hlength
  omega

/-- What is known about names that the dispenser made. -/
structure Fresh (D : NameDispenser) (name : YulString) : Prop where
  notUsed : name ∉ D.usedNames
  notBuiltin : D.dialect.builtin name = none
  notEmpty : name ≠ ""
  notInstruction : D.dialect.isSVMDialect = true → Parser.instructions.lookup name = none

lemma fresh_of_not_illegalName (h : D.illegalName name = false) : D.Fresh name := by
  simp only [illegalName, or_eq_false_iff, decide_eq_false_iff_not, and_eq_false_iff,
    isSome_eq_false_iff, isNone_iff_eq_none] at h
  obtain ⟨⟨⟨hempty, hused⟩, hbuiltin⟩, hinstruction⟩ := h
  refine ⟨hused, hbuiltin, hempty, fun hsvm => ?_⟩
  exact hinstruction.resolve_left (by rw [hsvm]; nofun)

lemma fresh_newName (D : NameDispenser) (nameHint : YulString) :
    D.Fresh (D.newName nameHint).1 :=
  fresh_of_not_illegalName (illegalName_newName D nameHint)

@[simp] lemma dialect_newName : (D.newName nameHint).2.dialect = D.dialect := rfl

@[simp] lemma usedNames_newName :
    (D.newName nameHint).2.usedNames = (D.newName nameHint).1 :: D.usedNames := rfl

lemma Fresh.of_newName (h : (D.newName nameHint).2.Fresh name) :
    D.Fresh name ∧ name ≠ (D.newName nameHint).1 := by
  have hused : name ∉ D.usedNames := not_mem_of_not_mem_cons h.notUsed
  exact ⟨⟨hused, h.notBuiltin, h.notEmpty, h.notInstruction⟩, ne_of_not_mem_cons h.notUsed⟩

end

/-- Whatever names are asked for and however often, one after the other, each request is answered
by another name, which neither the program nor the dialect uses, and all of them are remembered. -/
theorem newNames_distinct (D : NameDispenser) (nameHints : List YulString) :
    (D.newNames nameHints).1.length = nameHints.length ∧ (D.newNames nameHints).1.Nodup ∧
      (∀ x ∈ (D.newNames nameHints).1, D.Fresh x) ∧
        (D.newNames nameHints).2.usedNames = (D.newNames nameHints).1.reverse ++ D.usedNames := by
  induction nameHints generalizing D with
  | nil => exact ⟨rfl, nodup_nil, nofun, rfl⟩
  | cons hint hints ih =>
    obtain ⟨hlength, hnodup, hfresh, hused⟩ := ih (D.newName hint).2
    refine ⟨congrArg (· + 1) hlength, nodup_cons.mpr ⟨fun hmem => ?_, hnodup⟩, ?_, ?_⟩
    · exact (hfresh _ hmem).of_newName.2 rfl
    · exact forall_mem_cons.mpr ⟨fresh_newName D hint, fun x hx => (hfresh x hx).of_newName.1⟩
    · rw [newNames, hused, usedNames_newName, reverse_cons, append_assoc]
      rfl

end NameDispenser

end Yul

/-!
## Code with new names

What passes keep that declare variables with names from the dispenser: no name is declared twice,
and the scopes have the variables of the program and new ones.
-/

namespace Yul

open List Option Bool

namespace NameDispenser

/-- Code that declares `old` becomes code that declares `new`, with the names of the dispenser. -/
structure Renewed (D D' : NameDispenser) (old new : List YulString) : Prop where
  used : D.usedNames ⊆ D'.usedNames
  subset : old ⊆ new
  mem : ∀ x ∈ new, x ∈ old ∨ x ∉ D.usedNames ∧ x ∈ D'.usedNames
  nodup : old ⊆ D.usedNames → old.Nodup → new.Nodup

namespace Renewed

variable {D D' D'' : NameDispenser} {old new old' new' : List YulString}

lemma refl (D : NameDispenser) (old : List YulString) : Renewed D D old old :=
  ⟨List.Subset.refl _, List.Subset.refl _, fun _ h => .inl h, fun _ h => h⟩

lemma append (h : Renewed D D' old new) (h' : Renewed D' D'' old' new') :
    Renewed D D'' (old ++ old') (new ++ new') where
  used := List.Subset.trans h.used h'.used
  subset := append_subset_append h.subset h'.subset
  mem x hx := by
    rw [mem_append]
    rcases mem_append.mp hx with hx | hx
    · rcases h.mem x hx with hx | ⟨hnew, hused⟩
      · exact .inl (.inl hx)
      · exact .inr ⟨hnew, h'.used hused⟩
    · rcases h'.mem x hx with hx | ⟨hnew, hused⟩
      · exact .inl (.inr hx)
      · exact .inr ⟨fun hmem => hnew (h.used hmem), hused⟩
  nodup hold hnodup := by
    rw [append_subset] at hold
    refine nodup_append'.mpr ⟨h.nodup hold.1 hnodup.of_append_left,
      h'.nodup (List.Subset.trans hold.2 h.used) hnodup.of_append_right, fun x hx hx' => ?_⟩
    rcases h.mem x hx with hx | ⟨hnew, hused⟩
    · rcases h'.mem x hx' with hx' | ⟨hnew, -⟩
      · exact disjoint_of_nodup_append hnodup hx hx'
      · exact hnew (h.used (hold.1 hx))
    · rcases h'.mem x hx' with hx' | ⟨hnew', -⟩
      · exact hnew (hold.2 hx')
      · exact hnew' hused

lemma after (h : Renewed D D' old new) (hD : D'.usedNames ⊆ D''.usedNames) :
    Renewed D D'' old new where
  used := List.Subset.trans h.used hD
  subset := h.subset
  mem x hx := (h.mem x hx).imp_right fun hx => ⟨hx.1, hD hx.2⟩
  nodup := h.nodup

lemma append_left (h : Renewed D D' old new) (xs : List YulString) :
    Renewed D D' (xs ++ old) (xs ++ new) :=
  (refl D xs).append h

lemma of_perm (h : Renewed D D' old new) (hold : old.Perm old') (hnew : new.Perm new') :
    Renewed D D' old' new' where
  used := h.used
  subset x hx := hnew.mem_iff.mp (h.subset (hold.mem_iff.mpr hx))
  mem x hx := by
    rw [← hold.mem_iff]
    exact h.mem x (hnew.mem_iff.mpr hx)
  nodup hsubset hnodup :=
    hnew.nodup (h.nodup (fun _ hx => hsubset (hold.mem_iff.mp hx)) (hold.nodup_iff.mpr hnodup))

end Renewed

/-- The second scope is the first one with new variables; `N` are the names of the program. -/
structure Scoped (N : List YulString) (D : NameDispenser) (Γ Γ' : Scope) : Prop where
  locals : Γ.locals ⊆ Γ'.locals
  functions : Γ'.functions = Γ.functions
  component : Γ'.component = Γ.component
  new : ∀ x ∈ Γ'.locals, x ∈ Γ.locals ∨ x ∉ N
  used : Γ'.locals ⊆ D.usedNames

namespace Scoped

variable {N ds ds' : List YulString} {D D' : NameDispenser} {Γ Γ' : Scope}

lemma refl_empty (N : List YulString) (D : NameDispenser) : Scoped N D .empty .empty :=
  ⟨List.Subset.refl _, rfl, rfl, fun _ h => .inl h, nil_subset _⟩

lemma toExtends (h : Scoped N D Γ Γ') : Γ.Extends Γ' :=
  ⟨h.locals, fun f n hf => by rwa [h.functions]⟩

lemma after (h : Scoped N D Γ Γ') (hD : D.usedNames ⊆ D'.usedNames) : Scoped N D' Γ Γ' :=
  ⟨h.locals, h.functions, h.component, h.new, List.Subset.trans h.used hD⟩

lemma enter (h : Scoped N D Γ Γ') (c : ForLoopComponent) :
    Scoped N D (Γ.enter c) (Γ'.enter c) :=
  ⟨h.locals, h.functions, rfl, h.new, h.used⟩

lemma register (h : Scoped N D Γ Γ') {ss ss' : Block}
    (hss : visibleFunctions ss' = visibleFunctions ss) :
    Scoped N D (Γ.register ss) (Γ'.register ss') := by
  rw [Scope.register_eq, Scope.register_eq, hss, h.functions]
  exact ⟨h.locals, rfl, h.component, h.new, h.used⟩

lemma declare (h : Scoped N D Γ Γ') (hds : Renewed D D' ds ds') (hN : N ⊆ D.usedNames)
    (hsubset : ds ⊆ N) : Scoped N D' (Γ.declare ds) (Γ'.declare ds') where
  locals := append_subset_append hds.subset h.locals
  functions := h.functions
  component := h.component
  new x hx := by
    rw [Scope.locals_declare, mem_append]
    rcases mem_append.mp hx with hx | hx
    · rcases hds.mem x hx with hx | ⟨hnew, -⟩
      · exact .inl (.inl hx)
      · exact .inr fun hxN => hnew (hN hxN)
    · exact (h.new x hx).imp_left .inr
  used x hx := by
    rcases mem_append.mp hx with hx | hx
    · rcases hds.mem x hx with hx | ⟨-, hused⟩
      · exact hds.used (hN (hsubset hx))
      · exact hused
    · exact hds.used (h.used hx)

end Scoped

end NameDispenser

end Yul
