import Polc.Interface.Remappings
import Polc.Semantics.DepthFirst

/-!
# Order of the sources

`CompilerStack::resolveImports` of `libpolynomial/interface/CompilerStack.cpp`.
-/

namespace Polynomial

open Semantics List Option

namespace CompilerStack

/-- A source with the absolute paths of its import directives. -/
structure Source where
  path : SourcePath
  imports : List SourcePath
  deriving DecidableEq, Repr

/-- The sources after parsing: those that are imported have been loaded. -/
structure ParsedSources where
  sources : List Source
  nodup : (sources.map Source.path).Nodup
  loaded : ∀ source ∈ sources, ∀ path ∈ source.imports,
    path ≠ [] ∧ path ∈ sources.map Source.path

namespace ParsedSources

variable (parsed : ParsedSources)

def paths : List SourcePath := parsed.sources.map Source.path

/-- The import directives of the source with a path. -/
def importsOf (path : SourcePath) : List SourcePath :=
  match parsed.sources.find? (fun source => source.path = path) with
  | some source => source.imports
  | none => []

/-- Fails if an assertion does. -/
def toposort : ℕ → SourcePath → Search SourcePath → Option (Search SourcePath)
  | 0, _, _ => none
  | n + 1, source, s =>
    if source ∈ s.seen then some s
    else do
      let s ← (parsed.importsOf source).foldlM (fun s path =>
        if path = [] then none
        else if path ∉ parsed.paths then none
        else toposort n path s) (s.enter source)
      some (s.leave source)

/-- The resulting `m_sourceOrder`. -/
def resolveImports (fuel : ℕ) : Option (List SourcePath) := do
  let s ← parsed.paths.foldlM (fun s source => parsed.toposort fuel source s) ⟨[], []⟩
  some s.order

lemma importsOf_loaded {source path : SourcePath} (h : path ∈ parsed.importsOf source) :
    path ≠ [] ∧ path ∈ parsed.paths := by
  rw [importsOf] at h
  cases hfind : parsed.sources.find? (fun s => s.path = source) with
  | none =>
    rw [hfind] at h
    exact absurd h not_mem_nil
  | some found =>
    rw [hfind] at h
    exact parsed.loaded found (mem_of_find?_eq_some hfind) path h

lemma importsOf_closed (source : SourcePath) (_ : source ∈ parsed.paths) (path : SourcePath)
    (h : path ∈ parsed.importsOf source) : path ∈ parsed.paths :=
  (parsed.importsOf_loaded h).2

/-- The assertions hold, and the search is a depth-first search of the import graph. -/
lemma toposort_eq_visit (n : ℕ) (source : SourcePath) (s : Search SourcePath) :
    parsed.toposort n source s = Search.visit parsed.importsOf n source s := by
  induction n generalizing source s with
  | zero => rfl
  | succ n ih =>
    have hloop (paths : List SourcePath) (hpaths : ∀ p ∈ paths, p ≠ [] ∧ p ∈ parsed.paths)
        (s : Search SourcePath) :
        paths.foldlM (fun s path =>
          if path = [] then none
          else if path ∉ parsed.paths then none
          else parsed.toposort n path s) s = Search.visitAll parsed.importsOf n paths s := by
      induction paths generalizing s with
      | nil => rfl
      | cons path paths ihpaths =>
        obtain ⟨hne, hmem⟩ := hpaths path (mem_cons_self ..)
        rw [foldlM_cons, if_neg hne, if_neg (not_not.mpr hmem), ih, Search.visitAll_cons]
        congr 1
        funext s
        exact ihpaths (fun p hp => hpaths p (mem_cons_of_mem path hp)) s
    by_cases hseen : source ∈ s.seen
    · rw [toposort, if_pos hseen, Search.visit_of_mem hseen]
    · rw [toposort, if_neg hseen, Search.visit_of_notMem hseen,
        hloop (parsed.importsOf source) (fun p hp => parsed.importsOf_loaded hp),
        map_eq_bind]
      rfl

lemma resolveImports_eq (fuel : ℕ) : parsed.resolveImports fuel =
    (Search.visitAll parsed.importsOf fuel parsed.paths ⟨[], []⟩).map Search.order := by
  simp only [resolveImports, toposort_eq_visit, map_eq_bind]
  rfl

/-- A chain of imports leads from one source to the other. -/
def ImportsTransitively : SourcePath → SourcePath → Prop :=
  Relation.ReflTransGen (fun source path => path ∈ parsed.importsOf source)

end ParsedSources

end CompilerStack

end Polynomial
