/-
Module: CaffeineLs.Proofs.ClassResolution
Purpose: When the two resolutions of a class name agree: the walk through the classpaths of the internal
  source sets, and the loop over the source set's own classpath.
Trusted boundary: none
Main exports: Place, resolveDeclarations_search, declaration_resolve_agrees_iff
-/
import CaffeineLs.Hir.ClassResolution
import CaffeineLs.Lib.TreeSearch

namespace CaffeineLs.Hir

open HirExpand (Name FileId ItemId SourceClass)
open TreeSearch

/-- Where classes are declared: in a source set or in a library. -/
abbrev Place := ClasspathEntry

namespace Workspace

variable (ws : Workspace) (fqn : Name)

/-- What the place's own classpath lists. -/
def listed : Place → List Place
  | .library _ => []
  | .sourceSet id => ((ws.sourceSets id).map Classpath.entries).getD []

/-- The class of that name that the place itself declares. -/
def declared : Place → Option Resolved
  | .library id => (ws.resolveInLibraries [id] fqn).map .library
  | .sourceSet id => ws.sourceSymbolResolve id fqn

/-- The class is the first that the source set or an entry of its own classpath declares. -/
def OwnFirst (sourceSet : SourceSetId) (resolved : Resolved) : Prop :=
  ∃ ahead place rest, .sourceSet sourceSet :: ws.listed (.sourceSet sourceSet) =
      ahead ++ place :: rest ∧
    ws.declared fqn place = some resolved ∧ ∀ other ∈ ahead, ws.declared fqn other = none

/-- As far as the name goes, the build tool has flattened the classpath of the source set: following
the classpaths of its internal source sets in turn, the first class of that name is the first on its
own classpath, or there is none anywhere; and only boundedly long paths lead ahead of it. -/
def Flattened (sourceSet : SourceSetId) : Prop :=
  Silent ws.listed (ws.declared fqn) (.sourceSet sourceSet) ∨
    ∃ path resolved, First ws.listed (ws.declared fqn) (.sourceSet sourceSet) path resolved ∧
      ws.OwnFirst fqn sourceSet resolved

variable {ws fqn}

/-! ### The walk is the search of the unfolded classpaths -/

variable (ws fqn) in
/-- What the walk asks an entry. -/
def asked (walk : SourceSetId → Option (Option Resolved)) : Place → Option (Option Resolved)
  | .sourceSet id => walk id
  | .library id => some (ws.declared fqn (.library id))

theorem walkEntries_eq_firstOf (walk : SourceSetId → Option (Option Resolved))
    (entries : List ClasspathEntry) :
    ws.walkEntries walk fqn entries = firstOf (ws.asked fqn walk) entries := by
  induction entries with
  | nil => rfl
  | cons entry rest ih =>
      cases entry with
      | sourceSet id =>
          have here : ws.asked fqn walk (.sourceSet id) = walk id := rfl
          rw [walkEntries, firstOf, here]
          rcases walk id with _ | _ | resolved
          · rfl
          · exact ih
          · rfl
      | library id =>
          have here : ws.asked fqn walk (.library id) =
              some ((ws.resolveInLibraries [id] fqn).map .library) := rfl
          rw [walkEntries, firstOf, here]
          cases ws.resolveInLibraries [id] fqn with
          | none => exact ih
          | some resolved => rfl

theorem search_library {fuel : Nat} {id : LibraryId} :
    search ws.listed (ws.declared fqn) (fuel + 1) (.library id) =
      some (ws.declared fqn (.library id)) := by
  unfold search
  cases ws.declared fqn (.library id) with
  | none => rfl
  | some resolved => rfl

/-- A walk that returns does so with the answer of the search. -/
theorem resolveDeclarations_search {fuel : Nat} {sourceSet : SourceSetId}
    {result : Option Resolved}
    (walked : ws.resolveDeclarations fqn fuel sourceSet = some result) :
    search ws.listed (ws.declared fqn) (fuel + 1) (.sourceSet sourceSet) = some result := by
  induction fuel generalizing sourceSet result with
  | zero => cases walked
  | succ fuel ih =>
      unfold resolveDeclarations at walked
      unfold search
      cases own : ws.sourceSymbolResolve sourceSet fqn with
      | some resolved => simpa [own, declared] using walked
      | none =>
          simp only [declared, own]
          cases classpath : ws.sourceSets sourceSet with
          | none => simpa [own, classpath, listed, firstOf] using walked
          | some entries =>
              have through : ws.walkEntries (ws.resolveDeclarations fqn fuel) fqn
                  entries.entries = some result := by simpa [own, classpath] using walked
              simp only [listed, classpath, Option.map_some, Option.getD_some]
              rw [walkEntries_eq_firstOf] at through
              refine firstOf_mono ?_ through
              rintro (id | id) - answer below
              · exact search_library.trans below
              · exact ih below

theorem search_resolveDeclarations {fuel : Nat} {sourceSet : SourceSetId}
    {result : Option Resolved}
    (found : search ws.listed (ws.declared fqn) fuel (.sourceSet sourceSet) = some result) :
    ws.resolveDeclarations fqn fuel sourceSet = some result := by
  induction fuel generalizing sourceSet result with
  | zero => cases found
  | succ fuel ih =>
      unfold search at found
      unfold resolveDeclarations
      cases own : ws.sourceSymbolResolve sourceSet fqn with
      | some resolved => simpa [own, declared] using found
      | none =>
          simp only [declared, own] at found
          cases classpath : ws.sourceSets sourceSet with
          | none => simpa [classpath, listed, firstOf] using found
          | some entries =>
              simp only [listed, classpath, Option.map_some, Option.getD_some] at found
              refine (walkEntries_eq_firstOf _ _).trans (firstOf_mono ?_ found)
              rintro (id | id) - answer below
              · cases fuel with
                | zero => cases below
                | succ fuel => exact search_library.symm.trans below
              · exact ih below

/-- The walk returns an answer exactly when the search finds it. -/
theorem resolveDeclarations_iff {sourceSet : SourceSetId} {result : Option Resolved} :
    (∃ fuel, ws.resolveDeclarations fqn fuel sourceSet = some result) ↔
      ∃ fuel, search ws.listed (ws.declared fqn) fuel (.sourceSet sourceSet) = some result := by
  constructor
  · intro ⟨fuel, walked⟩
    exact ⟨fuel + 1, resolveDeclarations_search walked⟩
  · intro ⟨fuel, found⟩
    exact ⟨fuel, search_resolveDeclarations found⟩

/-! ### The loop over the own classpath -/

theorem sourceResolve_of_no_facade {sourceSet : SourceSetId}
    (noFacade : ws.fileFacadeSource sourceSet fqn = none) :
    ws.sourceResolve sourceSet fqn = ws.declared fqn (.sourceSet sourceSet) := by
  simp [sourceResolve, noFacade, declared]

theorem resolveInEntries_of_no_facade
    (noFacade : ∀ sourceSet, ws.fileFacadeSource sourceSet fqn = none)
    (entries : List ClasspathEntry) :
    ws.resolveInEntries fqn entries = entries.findSome? (ws.declared fqn) := by
  induction entries with
  | nil => rfl
  | cons entry rest ih =>
      cases entry with
      | sourceSet id =>
          unfold resolveInEntries
          rw [sourceResolve_of_no_facade (noFacade id), List.findSome?_cons, ih]
          cases ws.declared fqn (.sourceSet id) <;> rfl
      | library id =>
          unfold resolveInEntries
          rw [List.findSome?_cons, ih]
          cases found : ws.resolveInLibraries [id] fqn <;> simp [declared, found]

/-- For a name that is no facade, the loop finds the first class of the own classpath. -/
theorem fqnResolve_of_no_facade
    (noFacade : ∀ sourceSet, ws.fileFacadeSource sourceSet fqn = none)
    (sourceSet : SourceSetId) :
    ws.fqnResolve sourceSet fqn =
      (.sourceSet sourceSet :: ws.listed (.sourceSet sourceSet)).findSome? (ws.declared fqn) := by
  unfold fqnResolve
  rw [sourceResolve_of_no_facade (noFacade sourceSet), List.findSome?_cons]
  cases ws.declared fqn (.sourceSet sourceSet) with
  | some resolved => rfl
  | none =>
      cases classpath : ws.sourceSets sourceSet with
      | none => simp [listed, classpath]
      | some entries =>
          simp only [listed, classpath, Option.map_some, Option.getD_some]
          exact resolveInEntries_of_no_facade noFacade entries.entries

theorem fqnResolve_eq_some_iff
    (noFacade : ∀ sourceSet, ws.fileFacadeSource sourceSet fqn = none)
    {sourceSet : SourceSetId} {resolved : Resolved} :
    ws.fqnResolve sourceSet fqn = some resolved ↔ ws.OwnFirst fqn sourceSet resolved := by
  rw [fqnResolve_of_no_facade noFacade]
  exact List.findSome?_eq_some_iff

/-- What is silent all the way down is silent on the own classpath. -/
theorem fqnResolve_eq_none_of_silent
    (noFacade : ∀ sourceSet, ws.fileFacadeSource sourceSet fqn = none)
    {sourceSet : SourceSetId}
    (silent : Silent ws.listed (ws.declared fqn) (.sourceSet sourceSet)) :
    ws.fqnResolve sourceSet fqn = none := by
  rw [fqnResolve_of_no_facade noFacade, List.findSome?_eq_none_iff]
  intro place member
  rcases List.mem_cons.mp member with rfl | entry
  · exact silent.here
  · exact (silent.child entry).here

/-- The two resolutions agree, and the walk ends, exactly where the classpath is flattened. -/
theorem declaration_resolve_agrees_iff (ws : Workspace) (fqn : Name) (sourceSet : SourceSetId)
    (noFacade : ∀ sourceSet, ws.fileFacadeSource sourceSet fqn = none) :
    (∃ fuel, ws.resolveDeclarations fqn fuel sourceSet = some (ws.fqnResolve sourceSet fqn)) ↔
      ws.Flattened fqn sourceSet := by
  rw [resolveDeclarations_iff]
  constructor
  · intro found
    cases own : ws.fqnResolve sourceSet fqn with
    | none => exact .inl (search_none_iff.mp (own ▸ found))
    | some resolved =>
        obtain ⟨path, first⟩ := search_some_iff.mp (own ▸ found)
        exact .inr ⟨path, resolved, first, (fqnResolve_eq_some_iff noFacade).mp own⟩
  · intro flattened
    rcases flattened with silent | ⟨path, resolved, first, own⟩
    · rw [fqnResolve_eq_none_of_silent noFacade silent]
      exact search_none_iff.mpr silent
    · rw [(fqnResolve_eq_some_iff noFacade).mpr own]
      exact search_some_iff.mpr ⟨path, first⟩

/-! ### Internal source sets with classpaths of their own -/

/-- No file has a facade, no name is one. -/
theorem fileFacadeSource_eq_none (none : ∀ file, (ws.forFile file).bind facadeName = none)
    (sourceSet : SourceSetId) (fqn : Name) : ws.fileFacadeSource sourceSet fqn = Option.none := by
  unfold fileFacadeSource
  rw [List.findSome?_eq_none_iff]
  intro package _
  rw [List.find?_eq_none]
  intro file _
  simp [none file]

def classX : ClassEntry Name :=
  ⟨⟨['X']⟩, ⟨[]⟩, .class_, 0, none, [], none⟩

def app : SourceSetId := ⟨0, .main⟩

def util : SourceSetId := ⟨1, .main⟩

/-- A workspace without source files: its source sets have these classpaths, and every library
declares the class `X`. -/
def jarsOnly (appEntries utilEntries : List ClasspathEntry) (libraryClasses : List (ClassEntry Name)) :
    Workspace where
  sourceSets id := if id = app then some ⟨appEntries⟩ else if id = util then some ⟨utilEntries⟩ else none
  sourceRoots := []
  rootFiles _ := []
  forFile _ := none
  libraryNameIndex _ := ⟨libraryClasses, []⟩

theorem jarsOnly_no_facade {appEntries utilEntries : List ClasspathEntry}
    {libraryClasses : List (ClassEntry Name)} (sourceSet : SourceSetId) (fqn : Name) :
    (jarsOnly appEntries utilEntries libraryClasses).fileFacadeSource sourceSet fqn = none :=
  fileFacadeSource_eq_none (fun _ => rfl) sourceSet fqn

/-- A walk that goes on without end in the first entry of a classpath goes on without end. -/
theorem resolveDeclarations_into {fuel : Nat} {sourceSet internal : SourceSetId}
    {rest : List ClasspathEntry} (undeclared : ws.sourceSymbolResolve sourceSet fqn = none)
    (classpath : ws.sourceSets sourceSet = some ⟨.sourceSet internal :: rest⟩)
    (unending : ws.resolveDeclarations fqn fuel internal = none) :
    ws.resolveDeclarations fqn (fuel + 1) sourceSet = none := by
  unfold resolveDeclarations
  simp [undeclared, classpath, walkEntries, unending]

/-- A flattened classpath: `util` needs the library that `app` lists too. -/
theorem flattened_classpath_agrees :
    ∃ fuel, (jarsOnly [.sourceSet util, .library 1] [.library 1] [classX]).resolveDeclarations
      ⟨['X']⟩ fuel app =
      some ((jarsOnly [.sourceSet util, .library 1] [.library 1] [classX]).fqnResolve app
        ⟨['X']⟩) := by
  apply (declaration_resolve_agrees_iff _ _ _ fun id => jarsOnly_no_facade id _).mpr
  obtain ⟨path, first⟩ := search_some_iff.mp
    ⟨3, (by decide +kernel :
      search (jarsOnly [.sourceSet util, .library 1] [.library 1] [classX]).listed
        ((jarsOnly [.sourceSet util, .library 1] [.library 1] [classX]).declared ⟨['X']⟩) 3
        (.sourceSet app) = some (some (.library ⟨1, 0, classX⟩)))⟩
  apply Or.inr
  refine ⟨path, _, first, [.sourceSet app, .sourceSet util], .library 1, [], rfl, ?_, ?_⟩
  · rfl
  · decide +kernel

/-- `util` brings another library of that class: the loop resolves `X` in the library that `app`
lists, the walk in the one that `util` does. And where the two name each other, the walk for a name
that nobody declares does not end. -/
theorem nested_classpath_resolves_otherwise :
    (∀ sourceSet, (jarsOnly [.sourceSet util, .library 1] [.library 2] [classX]).fileFacadeSource
      sourceSet ⟨['X']⟩ = none) ∧
    (∀ fuel, (jarsOnly [.sourceSet util, .library 1] [.library 2] [classX]).resolveDeclarations
      ⟨['X']⟩ fuel app ≠
      some ((jarsOnly [.sourceSet util, .library 1] [.library 2] [classX]).fqnResolve app
        ⟨['X']⟩)) ∧
    (∀ sourceSet, (jarsOnly [.sourceSet util] [.sourceSet app] []).fileFacadeSource
      sourceSet ⟨['X']⟩ = none) ∧
    ∀ fuel, (jarsOnly [.sourceSet util] [.sourceSet app] []).resolveDeclarations ⟨['X']⟩ fuel app =
      none := by
  have loop : (jarsOnly [.sourceSet util, .library 1] [.library 2] [classX]).fqnResolve app ⟨['X']⟩ =
      some (.library ⟨1, 0, classX⟩) := by decide +kernel
  have walk : (jarsOnly [.sourceSet util, .library 1] [.library 2] [classX]).resolveDeclarations
      ⟨['X']⟩ 2 app = some (some (.library ⟨2, 0, classX⟩)) := by decide +kernel
  have around (fuel : Nat) :
      (jarsOnly [.sourceSet util] [.sourceSet app] []).resolveDeclarations ⟨['X']⟩ fuel app = none ∧
      (jarsOnly [.sourceSet util] [.sourceSet app] []).resolveDeclarations ⟨['X']⟩ fuel util =
        none := by
    induction fuel with
    | zero => exact ⟨rfl, rfl⟩
    | succ fuel ih =>
        have undeclared (id : SourceSetId) :
            (jarsOnly [.sourceSet util] [.sourceSet app] []).sourceSymbolResolve id ⟨['X']⟩ =
              none := by
          simp [sourceSymbolResolve, packageFqnSymbols, sourceSetPackageFiles, jarsOnly]
        exact ⟨resolveDeclarations_into (undeclared app) rfl ih.2,
          resolveDeclarations_into (undeclared util) rfl ih.1⟩
  refine ⟨fun id => jarsOnly_no_facade id _, ?_, fun id => jarsOnly_no_facade id _, ?_⟩
  · intro fuel same
    rw [loop] at same
    have apart := search_unique (resolveDeclarations_search same) (resolveDeclarations_search walk)
    revert apart
    decide
  · exact fun fuel => (around fuel).1

end Workspace

end CaffeineLs.Hir
