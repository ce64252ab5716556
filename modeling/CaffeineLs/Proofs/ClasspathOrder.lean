/-
Module: CaffeineLs.Proofs.ClasspathOrder
Purpose: When a class name is resolved alike in a source set and in an explicit list of libraries: the
  one looks for every spelling in a library before the next library, the other for a spelling in
  every library before the next spelling.
Trusted boundary: none
Main exports: Explicit, resolve_explicit, shadowsByOrder_iff
-/
import CaffeineLs.Hir.ClassResolution
import CaffeineLs.Lib.GridSearch

namespace CaffeineLs.Hir

open HirExpand (Name)
open GridSearch

inductive ResolutionScope where
  | sourceSet (id : SourceSetId)
  | classpath (libraries : List LibraryId)

namespace Workspace

variable (ws : Workspace)

/-- `fqn_resolve`. -/
def fqnResolveIn : ResolutionScope → Name → Option Resolved
  | .sourceSet id, fqn => ws.fqnResolve id fqn
  | .classpath libraries, fqn => (ws.resolveInLibraries libraries fqn).map .library

/-- The class of a library under one spelling. -/
def spelled (library : LibraryId) (candidate : Name) : Option ResolvedClass :=
  ((ws.libraryNameIndex library).lookup candidate).map fun found => ⟨library, found.1, found.2⟩

/-- A source set without sources whose classpath is a list of libraries. -/
structure Explicit (id : SourceSetId) (libraries : List LibraryId) : Prop where
  classpath : ws.sourceSets id = some ⟨libraries.map .library⟩
  sourceless : ∀ root, (root, id) ∈ ws.sourceRoots → ws.rootFiles root = []

/-- The first library in order that holds any spelling of the name. -/
def firstHolder (libraries : List LibraryId) (fqn : Name) : Option LibraryId :=
  firstRow ws.spelled libraries (foldings fqn)

/-- The first spelling of the name that any of the libraries holds. -/
def firstSpelling (libraries : List LibraryId) (fqn : Name) : Option Name :=
  firstColumn ws.spelled libraries (foldings fqn)

/-- Both scopes give the same class, and it is one of the first library that holds any spelling. -/
def ShadowsByOrder (id : SourceSetId) (libraries : List LibraryId) (fqn : Name) : Prop :=
  ws.fqnResolveIn (.sourceSet id) fqn = ws.fqnResolveIn (.classpath libraries) fqn ∧
    ∀ scope ∈ [ResolutionScope.sourceSet id, .classpath libraries],
      ∃ found : Option ResolvedClass, ws.fqnResolveIn scope fqn = found.map .library ∧
        found.map ResolvedClass.library = ws.firstHolder libraries fqn

variable {ws}

/-! ### The two searches -/

theorem resolveInLibraries_eq (libraries : List LibraryId) (fqn : Name) :
    ws.resolveInLibraries libraries fqn = byColumns ws.spelled libraries (foldings fqn) := rfl

theorem resolveInLibraries_one (library : LibraryId) (fqn : Name) :
    ws.resolveInLibraries [library] fqn = (foldings fqn).findSome? (ws.spelled library) := by
  rw [resolveInLibraries_eq, byColumns]
  congr 1
  funext candidate
  cases found : ws.spelled library candidate <;> simp [found]

theorem resolveInEntries_libraries (libraries : List LibraryId) (fqn : Name) :
    ws.resolveInEntries fqn (libraries.map .library) =
      (byRows ws.spelled libraries (foldings fqn)).map .library := by
  induction libraries with
  | nil => rfl
  | cons library rest ih =>
      rw [List.map_cons, resolveInEntries, resolveInLibraries_one, byRows, List.findSome?_cons]
      cases (foldings fqn).findSome? (ws.spelled library) with
      | none => exact ih
      | some found => rfl

/-- Without sources no file declares anything. -/
theorem sourceResolve_sourceless {id : SourceSetId} {libraries : List LibraryId}
    (explicit : ws.Explicit id libraries) (fqn : Name) : ws.sourceResolve id fqn = none := by
  have noFiles (package : Name) : ws.sourceSetPackageFiles id package = [] := by
    rw [sourceSetPackageFiles, List.flatMap_eq_nil_iff]
    intro root listed
    rw [List.mem_mergeSort, List.mem_map] at listed
    obtain ⟨⟨root', id'⟩, owned, rfl⟩ := listed
    obtain ⟨member, same⟩ := List.mem_filter.mp owned
    have own : id' = id := of_decide_eq_true same
    rw [explicit.sourceless root' (own ▸ member), List.filter_nil]
  have noFacade : ws.fileFacadeSource id fqn = none := by
    rw [fileFacadeSource, List.findSome?_eq_none_iff]
    intro package _
    rw [noFiles, List.find?_nil]
  rw [sourceResolve, noFacade]
  show ws.sourceSymbolResolve id fqn = none
  rw [sourceSymbolResolve, List.findSome?_eq_none_iff]
  intro package _
  rw [packageFqnSymbols, noFiles, List.flatMap_nil, List.findSome?_nil]

theorem resolve_explicit {id : SourceSetId} {libraries : List LibraryId}
    (explicit : ws.Explicit id libraries) (fqn : Name) :
    ws.fqnResolveIn (.sourceSet id) fqn =
      (byRows ws.spelled libraries (foldings fqn)).map .library := by
  rw [fqnResolveIn, fqnResolve, sourceResolve_sourceless explicit, explicit.classpath]
  exact resolveInEntries_libraries libraries fqn

/-! ### When they agree -/

theorem spelled_library {library : LibraryId} {candidate : Name} {found : ResolvedClass}
    (held : ws.spelled library candidate = some found) : found.library = library := by
  obtain ⟨_, _, rfl⟩ := Option.map_eq_some_iff.mp held
  rfl

theorem map_library_byRows (ws : Workspace) (libraries : List LibraryId) (fqn : Name) :
    (byRows ws.spelled libraries (foldings fqn)).map ResolvedClass.library =
      ws.firstHolder libraries fqn := by
  cases first : ws.firstHolder libraries fqn with
  | none => rw [byRows_none first, Option.map_none]
  | some library =>
      obtain ⟨same, found⟩ := byRows_eq first
      obtain ⟨answer, here⟩ := Option.isSome_iff_exists.mp found
      obtain ⟨_, -, held⟩ := List.exists_of_findSome?_eq_some here
      rw [same, here, Option.map_some, spelled_library held]

/-- The scopes agree, on the first library that holds any spelling, exactly where that library holds
the first spelling that any of them holds. -/
theorem shadowsByOrder_iff (ws : Workspace) (id : SourceSetId) (libraries : List LibraryId)
    (fqn : Name) (explicit : ws.Explicit id libraries) :
    ws.ShadowsByOrder id libraries fqn ↔
      ∀ library, ws.firstHolder libraries fqn = some library →
        ∀ candidate, ws.firstSpelling libraries fqn = some candidate →
          (ws.spelled library candidate).isSome := by
  have named (r : LibraryId) (c : Name) (a : ResolvedClass) (held : ws.spelled r c = some a) :
      a.library = r := spelled_library held
  have searches : byRows ws.spelled libraries (foldings fqn) =
      byColumns ws.spelled libraries (foldings fqn) ↔
        ∀ library, ws.firstHolder libraries fqn = some library →
          ∀ candidate, ws.firstSpelling libraries fqn = some candidate →
            (ws.spelled library candidate).isSome := agree_iff named
  refine Iff.trans ?_ searches
  have inOrder := map_library_byRows ws libraries fqn
  rw [ShadowsByOrder, resolve_explicit explicit]
  constructor
  · intro ⟨same, _⟩
    exact Option.map_injective (fun _ _ => Resolved.library.inj) same
  · intro same
    have listed : ws.fqnResolveIn (.classpath libraries) fqn =
        (byRows ws.spelled libraries (foldings fqn)).map .library := by
      rw [same]
      rfl
    refine ⟨listed.symm, ?_⟩
    simp only [List.mem_cons, List.not_mem_nil, or_false, forall_eq_or_imp, forall_eq]
    exact ⟨⟨_, resolve_explicit explicit fqn, inOrder⟩, ⟨_, listed, inOrder⟩⟩

/-! ### Two archives -/

/-- A class entry of that binary name. -/
def entryNamed (fqn package : String) : ClassEntry Name :=
  ⟨⟨fqn.toList⟩, ⟨package.toList⟩, .class_, 1, none, [], none⟩

/-- A source set without sources over two libraries, each with one class. -/
def twoArchives (first second : ClassEntry Name) : Workspace where
  sourceSets := fun _ => some ⟨[.library 1, .library 2]⟩
  sourceRoots := []
  rootFiles := fun _ => []
  forFile := fun _ => none
  libraryNameIndex := fun library => if library = 1 then ⟨[first], []⟩ else ⟨[second], []⟩

theorem twoArchives_explicit {first second : ClassEntry Name} :
    (twoArchives first second).Explicit ⟨0, .main⟩ [1, 2] :=
  { classpath := rfl, sourceless := by intro root listed; cases listed }

/-- Where both hold the nested class `B.C` the first is found in both scopes. -/
theorem nested_twice_shadows :
    (twoArchives (entryNamed "B$C" "") (entryNamed "B$C" "")).ShadowsByOrder ⟨0, .main⟩ [1, 2]
      ⟨"B.C".toList⟩ := by
  refine (shadowsByOrder_iff _ _ _ _ twoArchives_explicit).mpr ?_
  intro library holder candidate spelling
  obtain rfl : (1 : LibraryId) = library := Option.some.inj holder
  obtain rfl : (⟨"B$C".toList⟩ : Name) = candidate := Option.some.inj spelling
  rfl

/-- The first library holds `C` nested in `B`, the second a class `C` of the package `B`. The source
set finds the one, the list of libraries the other. -/
theorem nested_and_packaged_differ :
    ¬(twoArchives (entryNamed "B$C" "") (entryNamed "B.C" "B")).ShadowsByOrder ⟨0, .main⟩ [1, 2]
      ⟨"B.C".toList⟩ := by
  intro ⟨same, _⟩
  rw [resolve_explicit twoArchives_explicit] at same
  exact absurd same (by decide)

end Workspace

end CaffeineLs.Hir
