/-
Module: CaffeineLs.Proofs.SymbolIndex
Purpose: Looking a class up in the buckets of the packages that its name may start with finds what the
  index of the whole source set lists.
Trusted boundary: none
Main exports: Name.qualify, Workspace.Declares, source_symbol_resolve_agrees
-/
import CaffeineLs.Hir.SymbolIndex

namespace CaffeineLs.Hir

open HirExpand (Name FileId ItemId)

/-! ### Names and the packages they may start with -/

/-- A package joined with the path of a type in it; the unnamed package adds nothing. -/
def qualify (package path : Name) : Name :=
  if package.text = [] then path else ⟨package.text ++ '.' :: path.text⟩

theorem unnamed_mem_prefixesOfReversed (text : List Char) : ⟨[]⟩ ∈ prefixesOfReversed text := by
  induction text with
  | nil => exact List.mem_cons_self
  | cons c front ih =>
      rw [prefixesOfReversed]
      split
      · exact List.mem_cons_of_mem _ ih
      · exact ih

theorem mem_prefixesOfReversed (back front : List Char) :
    (⟨front.reverse⟩ : Name) ∈ prefixesOfReversed (back ++ '.' :: front) := by
  induction back with
  | nil =>
      rw [List.nil_append, prefixesOfReversed, if_pos rfl]
      exact List.mem_cons_self
  | cons c back ih =>
      rw [List.cons_append, prefixesOfReversed]
      split
      · exact List.mem_cons_of_mem _ ih
      · exact ih

/-- The package of a name is one of those that are tried for it, whatever dots the path has. -/
theorem package_mem_packagePrefixes (package path : Name) :
    package ∈ packagePrefixes (qualify package path) := by
  unfold packagePrefixes qualify
  by_cases unnamed : package.text = []
  · have same : package = ⟨[]⟩ := congrArg Name.mk unnamed
    rw [if_pos unnamed, same]
    exact unnamed_mem_prefixesOfReversed _
  · have member := mem_prefixesOfReversed path.text.reverse package.text.reverse
    rw [List.reverse_reverse] at member
    simpa [if_neg unnamed] using member

namespace Workspace

variable {ws : Workspace} {sourceSet : SourceSetId}

/-! ### The files of a source set -/

variable (ws sourceSet) in
/-- A file of one of the roots of the source set. -/
def Owns (file : FileId) : Prop := ∃ root ∈ ws.sourceSetRoots sourceSet, file ∈ ws.rootFiles root

variable (ws sourceSet) in
/-- Some file of the source set declares a class of that name. -/
def Declares (fqn : Name) : Prop :=
  ∃ file, ws.Owns sourceSet file ∧ ∃ symbol ∈ ws.fileSymbols file,
    symbol.name = fqn ∧ symbol.kind.declaresClass = true

variable (ws sourceSet) in
/-- The name of a symbol is the package of its file joined with a path. -/
def NamesJoined : Prop :=
  ∀ file, ws.Owns sourceSet file → ∀ symbol ∈ ws.fileSymbols file,
    ∃ path, symbol.name = qualify (ws.filePackage file) path

theorem mem_sourceSetPackageFiles {package : Name} {file : FileId} :
    file ∈ ws.sourceSetPackageFiles sourceSet package ↔
      ws.Owns sourceSet file ∧ ws.filePackage file = package := by
  have unfolded : ws.sourceSetPackageFiles sourceSet package =
      (ws.sourceSetRoots sourceSet).flatMap fun root =>
        (ws.rootFiles root).filter fun file => ws.filePackage file = package := rfl
  rw [unfolded, List.mem_flatMap]
  constructor
  · intro ⟨root, listed, kept⟩
    obtain ⟨member, same⟩ := List.mem_filter.mp kept
    exact ⟨⟨root, listed, member⟩, of_decide_eq_true same⟩
  · intro ⟨⟨root, listed, member⟩, same⟩
    exact ⟨root, listed, List.mem_filter.mpr ⟨member, decide_eq_true same⟩⟩

theorem mem_packageFqnSymbols {package fqn : Name} {reference : SourceSymbolRef} :
    reference ∈ ws.packageFqnSymbols sourceSet package fqn ↔
      ws.Owns sourceSet reference.file ∧ ws.filePackage reference.file = package ∧
        reference.symbol ∈ ws.fileSymbols reference.file ∧ reference.symbol.name = fqn := by
  rw [packageFqnSymbols, List.mem_flatMap]
  constructor
  · intro ⟨file, listed, mapped⟩
    obtain ⟨symbol, kept, rfl⟩ := List.mem_map.mp mapped
    obtain ⟨member, same⟩ := List.mem_filter.mp kept
    obtain ⟨owned, package⟩ := mem_sourceSetPackageFiles.mp listed
    exact ⟨owned, package, member, of_decide_eq_true same⟩
  · intro ⟨owned, package, member, same⟩
    refine ⟨reference.file, mem_sourceSetPackageFiles.mpr ⟨owned, package⟩, ?_⟩
    exact List.mem_map.mpr
      ⟨reference.symbol, List.mem_filter.mpr ⟨member, decide_eq_true same⟩, rfl⟩

/-- The index of the source set lists the declarations of its files. -/
theorem mem_resolveFqn {fqn : Name} {reference : SourceSymbolRef} :
    reference ∈ (ws.sourceSetSymbols sourceSet).resolveFqn fqn ↔
      ws.Owns sourceSet reference.file ∧ reference.symbol ∈ ws.fileSymbols reference.file ∧
        reference.symbol.name = fqn := by
  rw [sourceSetSymbols, SourceSymbolIndex.resolveFqn_build, List.mem_filter, List.mem_flatMap,
    decide_eq_true_eq]
  constructor
  · intro ⟨⟨root, listed, member⟩, same⟩
    obtain ⟨file, held, mapped⟩ := List.mem_flatMap.mp member
    obtain ⟨symbol, declared, rfl⟩ := List.mem_map.mp mapped
    exact ⟨⟨root, listed, held⟩, declared, same⟩
  · intro ⟨⟨root, listed, held⟩, declared, same⟩
    refine ⟨⟨root, listed, List.mem_flatMap.mpr ⟨reference.file, held, ?_⟩⟩, same⟩
    exact List.mem_map.mpr ⟨reference.symbol, declared, rfl⟩

/-! ### The two lookups -/

/-- What the buckets answer is a class declaration of that name. -/
theorem sourceSymbolResolve_sound {fqn : Name} {resolved : Resolved}
    (found : ws.sourceSymbolResolve sourceSet fqn = some resolved) :
    ∃ reference ∈ (ws.sourceSetSymbols sourceSet).resolveFqn fqn,
      reference.symbol.kind.declaresClass = true ∧
        resolved = .source ⟨reference.file, reference.symbol.item⟩ := by
  obtain ⟨package, -, inPackage⟩ := List.exists_of_findSome?_eq_some found
  obtain ⟨reference, listed, here⟩ := List.exists_of_findSome?_eq_some inPackage
  obtain ⟨owned, -, declared, same⟩ := mem_packageFqnSymbols.mp listed
  obtain ⟨class_, answer⟩ := Option.ite_none_right_eq_some.mp here
  exact ⟨reference, mem_resolveFqn.mpr ⟨owned, declared, same⟩, class_, (Option.some.inj answer).symm⟩

/-- A class that a file declares is found, since its package is one of those that are tried. -/
theorem sourceSymbolResolve_complete (joined : ws.NamesJoined sourceSet) {fqn : Name}
    (declares : ws.Declares sourceSet fqn) : (ws.sourceSymbolResolve sourceSet fqn).isSome := by
  obtain ⟨file, owned, symbol, declared, rfl, class_⟩ := declares
  obtain ⟨path, name⟩ := joined file owned symbol declared
  rw [sourceSymbolResolve, List.findSome?_isSome_iff]
  refine ⟨ws.filePackage file, ?_, ?_⟩
  · rw [name]
    exact package_mem_packagePrefixes _ path
  · rw [List.findSome?_isSome_iff]
    refine ⟨⟨file, symbol⟩, mem_packageFqnSymbols.mpr ⟨owned, rfl, declared, rfl⟩, ?_⟩
    rw [if_pos class_]
    rfl

/-- The buckets of the prefix packages answer just if some file of the source set declares the class,
and with a declaration that the index of the source set lists for the name. -/
theorem source_symbol_resolve_agrees (ws : Workspace) (sourceSet : SourceSetId)
    (joined : ws.NamesJoined sourceSet) (fqn : Name) :
    ((ws.sourceSymbolResolve sourceSet fqn).isSome ↔ ws.Declares sourceSet fqn) ∧
      ∀ resolved, ws.sourceSymbolResolve sourceSet fqn = some resolved →
        ∃ reference ∈ (ws.sourceSetSymbols sourceSet).resolveFqn fqn,
          reference.symbol.kind.declaresClass = true ∧
            resolved = .source ⟨reference.file, reference.symbol.item⟩ := by
  refine ⟨⟨?_, sourceSymbolResolve_complete joined⟩, fun _ => sourceSymbolResolve_sound⟩
  intro found
  obtain ⟨resolved, here⟩ := Option.isSome_iff_exists.mp found
  obtain ⟨reference, listed, class_, -⟩ := sourceSymbolResolve_sound here
  obtain ⟨owned, declared, same⟩ := mem_resolveFqn.mp listed
  exact ⟨reference.file, owned, reference.symbol, declared, same, class_⟩

/-! ### A package and a class of one name -/

/-- One file declares `B` with `C` nested in it in the package `a`, the other one `C` in the package
`a.B`: both are `a.B.C`. -/
def nestedAndPackaged : Workspace where
  sourceSets := fun _ => none
  sourceRoots := [(0, ⟨0, .main⟩), (1, ⟨0, .main⟩)]
  rootFiles := fun root => [⟨root⟩]
  forFile := fun file =>
    if file = ⟨0⟩ then some ⟨some ⟨['a']⟩, none, [⟨⟨['a', '.', 'B', '.', 'C']⟩, ⟨1⟩, .class_⟩]⟩
    else some ⟨some ⟨['a', '.', 'B']⟩, none, [⟨⟨['a', '.', 'B', '.', 'C']⟩, ⟨0⟩, .interface⟩]⟩
  libraryNameIndex := fun _ => ⟨[], []⟩

theorem nestedAndPackaged_joined : nestedAndPackaged.NamesJoined ⟨0, .main⟩ := by
  intro file _ symbol declared
  by_cases first : file = ⟨0⟩
  · refine ⟨⟨['B', '.', 'C']⟩, ?_⟩
    simp only [fileSymbols, filePackage, nestedAndPackaged, if_pos first, Option.elim_some,
      List.mem_singleton] at declared ⊢
    subst declared
    rfl
  · refine ⟨⟨['C']⟩, ?_⟩
    simp only [fileSymbols, filePackage, nestedAndPackaged, if_neg first, Option.elim_some,
      List.mem_singleton] at declared ⊢
    subst declared
    rfl

theorem nestedAndPackaged_owns : nestedAndPackaged.Owns ⟨0, .main⟩ ⟨0⟩ := by
  refine ⟨0, ?_, List.mem_cons_self⟩
  rw [sourceSetRoots, List.mem_mergeSort]
  exact List.mem_cons_self

/-- A name that is a nested class for one file and a class of a package for the other is found. -/
theorem nestedAndPackaged_found :
    (nestedAndPackaged.sourceSymbolResolve ⟨0, .main⟩ ⟨['a', '.', 'B', '.', 'C']⟩).isSome :=
  (source_symbol_resolve_agrees nestedAndPackaged ⟨0, .main⟩ nestedAndPackaged_joined
    ⟨['a', '.', 'B', '.', 'C']⟩).1.mpr
      ⟨⟨0⟩, nestedAndPackaged_owns, _, List.mem_cons_self, rfl, rfl⟩

end Workspace

end CaffeineLs.Hir
