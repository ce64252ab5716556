/-
Module: CaffeineLs.Proofs.ModulePath
Purpose: What the module path of a list of libraries holds, and when a later declaration of a module
  leaves no trace in it. The modules are those declared first; the packages are gathered from the
  later declarations too.
Trusted boundary: none
Main exports: declaration, attributed, firstWins_iff
-/
import CaffeineLs.Hir.Modules

namespace CaffeineLs.Hir

open HashTable

variable {N : Type} [DecidableEq N]

namespace WorkspaceModuleGraph

/-- The same modules, and the same owners of each package in the same order. -/
def Same (g g' : WorkspaceModuleGraph N) : Prop :=
  g.modules.Same g'.modules ∧ g.packageToModules.Same g'.packageToModules

/-- The names of the owners of a package. -/
def ownerNames (g : WorkspaceModuleGraph N) (package : N) : List N :=
  (g.modulesForPackage package).map fun d => d.stub.name

/-- Every owner of a package is a module of the path. -/
structure Closed (g : WorkspaceModuleGraph N) : Prop where
  named : ∀ name d, g.modules.get name = some d → d.stub.name = name
  owned : ∀ package, ∀ d ∈ g.modulesForPackage package, g.modules.get d.stub.name = some d

end WorkspaceModuleGraph

open WorkspaceModuleGraph

/-! ### Libraries -/

/-- The descriptor that the library declares for a name. -/
def declaration (content : LibraryId → LibraryModules N) (library : LibraryId) (name : N) :
    Option (ModuleDescriptor N) :=
  match (content library).graph.modules.get name, (content library).moduleIndex name with
  | some stub, some idx => some ⟨library, idx, stub⟩
  | _, _ => none

/-- The descriptor that is declared first. -/
def firstDeclaration (content : LibraryId → LibraryModules N) (libraries : List LibraryId)
    (name : N) : Option (ModuleDescriptor N) :=
  libraries.findSome? fun library => declaration content library name

/-- One of the libraries declares the module. -/
def declaredBy (content : LibraryId → LibraryModules N) (libraries : List LibraryId) (name : N) :
    Bool :=
  (firstDeclaration content libraries name).isSome

/-- The owners that a library gives a package. -/
def ownersIn (content : LibraryId → LibraryModules N) (library : LibraryId) (package : N) : List N :=
  ((content library).graph.packageToModules.get package).getD []

/-! ### The modules after a library -/

theorem get_addModule {library : LibraryId} {index : N → Option UInt32}
    {modules : Table N (ModuleDescriptor N)} {declared : N × ModuleStub N} {name : N} :
    (addModule library index modules declared).get name =
      (modules.get name).or
        (if declared.1 = name then (index name).map fun idx => ⟨library, idx, declared.2⟩
         else none) := by
  unfold addModule
  by_cases here : declared.1 = name
  · subst here
    cases held : modules.get declared.1 with
    | some d => simp [held]
    | none => cases index declared.1 <;> simp [held, Table.get_insert]
  · cases held : modules.get declared.1 with
    | some d => simp [here]
    | none => cases index declared.1 <;> simp [here, Table.get_insert]

theorem get_addModules {library : LibraryId} {index : N → Option UInt32}
    {entries : List (N × ModuleStub N)} {modules : Table N (ModuleDescriptor N)} {name : N} :
    (entries.foldl (addModule library index) modules).get name =
      (modules.get name).or
        (((entries.find? fun entry => entry.1 = name).map Prod.snd).bind fun stub =>
          (index name).map fun idx => ⟨library, idx, stub⟩) := by
  induction entries generalizing modules with
  | nil => simp
  | cons entry entries ih =>
      rw [List.foldl_cons, ih, get_addModule, List.find?_cons]
      by_cases here : entry.1 = name
      · cases modules.get name <;> cases index name <;> simp [here]
      · simp [here]

theorem get_addLibrary_modules (content : LibraryId → LibraryModules N) (library : LibraryId)
    (g : WorkspaceModuleGraph N) (name : N) :
    (g.addLibrary library (content library)).modules.get name =
      (g.modules.get name).or (declaration content library name) := by
  have held : ((content library).graph.modules.entries.find? fun entry => entry.1 = name).map
      Prod.snd = (content library).graph.modules.get name := rfl
  rw [addLibrary, get_addModules, held, declaration]
  cases (content library).graph.modules.get name with
  | none => rfl
  | some stub => cases (content library).moduleIndex name <;> rfl

/-! ### The packages after a library -/

/-- The owners that are modules of the path are pushed where they are new. -/
theorem names_addOwners {modules : Table N (ModuleDescriptor N)}
    (named : ∀ name d, modules.get name = some d → d.stub.name = name) (owners : List N)
    (before : List (ModuleDescriptor N)) :
    (owners.foldl (addOwner modules) before).map (fun d => d.stub.name) =
      firsts (before.map fun d => d.stub.name)
        (owners.filter fun owner => (modules.get owner).isSome) := by
  induction owners generalizing before with
  | nil => rfl
  | cons owner owners ih =>
      rw [List.foldl_cons, ih, addOwner]
      cases held : modules.get owner with
      | none => simp [held]
      | some d =>
          rw [List.filter_cons_of_pos (by simp [held]), firsts_cons, pushNew]
          have listed : (before.any fun d => d.stub.name = owner) = true ↔
              owner ∈ before.map fun d => d.stub.name := by
            simp
          by_cases old : owner ∈ before.map fun d => d.stub.name
          · simp only [listed.mpr old, if_true, old]
          · have fresh : (before.any fun d => d.stub.name = owner) = false := by
              rw [Bool.eq_false_iff]
              exact fun yes => old (listed.mp yes)
            simp only [fresh, Bool.false_eq_true, if_false, old, List.map_append, List.map_cons,
              List.map_nil, named owner d held]

theorem get_addPackages {modules : Table N (ModuleDescriptor N)} {entries : List (N × List N)}
    (nodup : (entries.map Prod.fst).Nodup) {packages : Table N (List (ModuleDescriptor N))}
    {package : N} :
    (entries.foldl (addPackage modules) packages).get package =
      match (entries.find? fun entry => entry.1 = package).map Prod.snd with
      | none => packages.get package
      | some owners => some (owners.foldl (addOwner modules) ((packages.get package).getD [])) := by
  induction entries generalizing packages with
  | nil => rfl
  | cons entry entries ih =>
      rw [List.map_cons, List.nodup_cons] at nodup
      rw [List.foldl_cons, ih nodup.2, List.find?_cons, addPackage, Table.get_insert]
      by_cases here : entry.1 = package
      · have gone : (entries.find? fun entry => entry.1 = package) = none := by
          rw [List.find?_eq_none]
          intro other listed same
          have there : other.1 = entry.1 := (of_decide_eq_true same).trans here.symm
          exact nodup.1 (there ▸ List.mem_map_of_mem listed)
        simp [here, gone]
      · simp [here]

theorem get_addLibrary_packages (content : LibraryId → LibraryModules N) (library : LibraryId)
    (g : WorkspaceModuleGraph N) (package : N) :
    (g.addLibrary library (content library)).packageToModules.get package =
      match (content library).graph.packageToModules.get package with
      | none => g.packageToModules.get package
      | some owners => some (owners.foldl
          (addOwner (g.addLibrary library (content library)).modules) (g.modulesForPackage package)) :=
  get_addPackages (content library).graph.packageToModules.nodup

/-- Owners are modules of the path before and after a library. -/
theorem closed_addLibrary {g : WorkspaceModuleGraph N} (closed : g.Closed)
    (content : LibraryId → LibraryModules N) (library : LibraryId) :
    (g.addLibrary library (content library)).Closed := by
  have kept {name : N} {d : ModuleDescriptor N} (held : g.modules.get name = some d) :
      (g.addLibrary library (content library)).modules.get name = some d := by
    rw [get_addLibrary_modules, held, Option.some_or]
  have named (name : N) (d : ModuleDescriptor N)
      (held : (g.addLibrary library (content library)).modules.get name = some d) :
      d.stub.name = name := by
    rw [get_addLibrary_modules] at held
    cases before : g.modules.get name with
    | some d' =>
        rw [before, Option.some_or] at held
        cases held
        exact closed.named name d before
    | none =>
        rw [before, Option.none_or, declaration] at held
        split at held
        · cases held
          exact (content library).graph.named name _ ‹_›
        · cases held
  refine ⟨named, ?_⟩
  intro package d owner
  rw [modulesForPackage, get_addLibrary_packages] at owner
  have before (d : ModuleDescriptor N) (owner : d ∈ g.modulesForPackage package) :
      (g.addLibrary library (content library)).modules.get d.stub.name = some d :=
    kept (closed.owned package d owner)
  cases given : (content library).graph.packageToModules.get package with
  | none =>
      rw [given] at owner
      exact before d owner
  | some owners =>
      rw [given, Option.getD_some] at owner
      -- Each owner pushed is looked up in the modules of the path.
      generalize g.modulesForPackage package = owned at owner before
      clear given
      induction owners generalizing owned with
      | nil => exact before d owner
      | cons first owners ih =>
          rw [List.foldl_cons] at owner
          refine ih _ owner ?_
          intro other member
          unfold addOwner at member
          split at member
          · rename_i pushed held
            split at member
            · exact before other member
            · rcases List.mem_append.mp member with old | new
              · exact before other old
              · rw [List.mem_singleton.mp new, named first pushed held, held]
          · exact before other member

/-- A library pushes the owners it gives a package, as far as they are modules of the path by then. -/
theorem ownerNames_addLibrary {g : WorkspaceModuleGraph N} (closed : g.Closed)
    (content : LibraryId → LibraryModules N) (library : LibraryId) (package : N) :
    (g.addLibrary library (content library)).ownerNames package =
      firsts (g.ownerNames package) ((ownersIn content library package).filter fun owner =>
        ((g.addLibrary library (content library)).modules.get owner).isSome) := by
  have named := (closed_addLibrary closed content library).named
  rw [ownerNames, modulesForPackage, get_addLibrary_packages, ownersIn]
  cases (content library).graph.packageToModules.get package with
  | none => rfl
  | some owners => exact names_addOwners named owners (g.modulesForPackage package)

/-! ### The module path -/

/-- The owners that the libraries give a package, each as far as it is a module of the path by then:
the libraries `done` come before. -/
def attributed (content : LibraryId → LibraryModules N) (package : N) :
    List LibraryId → List LibraryId → List N
  | _, [] => []
  | done, library :: rest =>
      (ownersIn content library package).filter (declaredBy content (done ++ [library])) ++
        attributed content package (done ++ [library]) rest

/-- The path holds the modules that the libraries declare first. -/
structure Describes (content : LibraryId → LibraryModules N) (done : List LibraryId)
    (g : WorkspaceModuleGraph N) : Prop where
  modules : ∀ name, g.modules.get name = firstDeclaration content done name
  closed : g.Closed

theorem describes_empty (content : LibraryId → LibraryModules N) : Describes content [] .empty :=
  { modules := fun _ => rfl
    closed :=
      { named := by intro name d held; cases held
        owned := by intro package d owner; cases owner } }

theorem describes_addLibrary {content : LibraryId → LibraryModules N} {done : List LibraryId}
    {g : WorkspaceModuleGraph N} (describes : Describes content done g) (library : LibraryId) :
    Describes content (done ++ [library]) (g.addLibrary library (content library)) where
  modules name := by
    rw [get_addLibrary_modules, describes.modules, firstDeclaration, firstDeclaration,
      List.findSome?_append]
    simp
  closed := closed_addLibrary describes.closed content library

/-- The libraries one after another. -/
def addLibraries (content : LibraryId → LibraryModules N) (g : WorkspaceModuleGraph N)
    (libraries : List LibraryId) : WorkspaceModuleGraph N :=
  libraries.foldl (fun workspace library => workspace.addLibrary library (content library)) g

theorem describes_addLibraries {content : LibraryId → LibraryModules N} {done : List LibraryId}
    {g : WorkspaceModuleGraph N} (describes : Describes content done g) (rest : List LibraryId) :
    Describes content (done ++ rest) (addLibraries content g rest) := by
  induction rest generalizing done g with
  | nil =>
      rw [List.append_nil]
      exact describes
  | cons library rest ih =>
      rw [List.append_cons]
      exact ih (describes_addLibrary describes library)

theorem ownerNames_addLibraries {content : LibraryId → LibraryModules N} {done : List LibraryId}
    {g : WorkspaceModuleGraph N} (describes : Describes content done g) (rest : List LibraryId)
    (package : N) :
    (addLibraries content g rest).ownerNames package =
      firsts (g.ownerNames package) (attributed content package done rest) := by
  induction rest generalizing done g with
  | nil => rfl
  | cons library rest ih =>
      have next := describes_addLibrary describes library
      have known : (fun owner => ((g.addLibrary library (content library)).modules.get owner).isSome) =
          declaredBy content (done ++ [library]) := by
        funext owner
        rw [next.modules, declaredBy]
      have folded : addLibraries content g (library :: rest) =
          addLibraries content (g.addLibrary library (content library)) rest := rfl
      rw [folded, ih next, ownerNames_addLibrary describes.closed, known, attributed, firsts_append]

/-- A package has an entry where one of the libraries has one. -/
theorem isSome_addLibraries (content : LibraryId → LibraryModules N) (g : WorkspaceModuleGraph N)
    (rest : List LibraryId) (package : N) :
    ((addLibraries content g rest).packageToModules.get package).isSome =
      ((g.packageToModules.get package).isSome || rest.any fun library =>
        ((content library).graph.packageToModules.get package).isSome) := by
  induction rest generalizing g with
  | nil => simp [addLibraries]
  | cons library rest ih =>
      have folded : addLibraries content g (library :: rest) =
          addLibraries content (g.addLibrary library (content library)) rest := rfl
      rw [folded, ih, get_addLibrary_packages, List.any_cons]
      cases (content library).graph.packageToModules.get package <;> simp

/-- Two closed paths with the same modules are the same where their packages have the same entries and
the same names of owners. -/
theorem same_iff {g g' : WorkspaceModuleGraph N} (closed : g.Closed) (closed' : g'.Closed)
    (modules : g.modules.Same g'.modules)
    (entries : ∀ package, (g.packageToModules.get package).isSome =
      (g'.packageToModules.get package).isSome) :
    g.Same g' ↔ ∀ package, g.ownerNames package = g'.ownerNames package := by
  have looked {g : WorkspaceModuleGraph N} (closed : g.Closed) (package : N) :
      (g.modulesForPackage package).map some =
        (g.ownerNames package).map fun name => g.modules.get name := by
    rw [ownerNames, List.map_map]
    exact List.map_congr_left fun d owner => (closed.owned package d owner).symm
  constructor
  · intro same package
    rw [ownerNames, ownerNames, modulesForPackage, modulesForPackage, same.2 package]
  · intro names
    refine ⟨modules, fun package => ?_⟩
    have owners : g.modulesForPackage package = g'.modulesForPackage package := by
      apply (List.map_injective_iff.mpr (Option.some_injective _))
      rw [looked closed, looked closed', names package]
      exact List.map_congr_left fun name _ => modules name
    have sized := entries package
    rw [modulesForPackage, modulesForPackage] at owners
    cases here : g.packageToModules.get package with
    | none =>
        cases there : g'.packageToModules.get package with
        | none => rfl
        | some _ => simp [here, there] at sized
    | some held =>
        cases there : g'.packageToModules.get package with
        | none => simp [here, there] at sized
        | some held' =>
            rw [here, there, Option.getD_some, Option.getD_some] at owners
            rw [owners]

/-! ### Later declarations dropped -/

/-- The libraries that come before one of them. -/
def librariesBefore (libraries : List LibraryId) (library : LibraryId) : List LibraryId :=
  (firstLibraries libraries).takeWhile (· ≠ library)

/-- The library without the modules that are gone and without what it attributes to them. A package
whose owners are all gone keeps its entry, without owners. -/
def without (content : LibraryModules N) (gone : N → Bool) : LibraryModules N where
  graph :=
    { modules := content.graph.modules.retain fun name => !gone name
      packageToModules := content.graph.packageToModules.mapValues
        (List.filter fun owner => !(gone owner && (content.graph.modules.get owner).isSome))
      named := by
        intro name stub held
        rw [Table.get_retain] at held
        split at held
        · exact content.graph.named name stub held
        · cases held }
  moduleIndex := content.moduleIndex

/-- The libraries, each without the modules that an earlier one declares. -/
def withoutLater (content : LibraryId → LibraryModules N) (libraries : List LibraryId)
    (library : LibraryId) : LibraryModules N :=
  without (content library) (declaredBy content (librariesBefore libraries library))

/-- The same library, iterated in another order. -/
structure Reordered (content content' : LibraryModules N) : Prop where
  modules : content.graph.modules.Same content'.graph.modules
  packages : content.graph.packageToModules.Same content'.graph.packageToModules
  indices : content.moduleIndex = content'.moduleIndex

/-- The first declaration of a module wins: dropping the later ones leaves the module path as it is,
and so does iterating the tables of the libraries in another order. -/
structure FirstWins (content : LibraryId → LibraryModules N) (libraries : List LibraryId) :
    Prop where
  dropped : (workspaceModuleGraphForLibraries content libraries).Same
    (workspaceModuleGraphForLibraries (withoutLater content libraries) libraries)
  reordered : ∀ content', (∀ library, Reordered (content library) (content' library)) →
    (workspaceModuleGraphForLibraries content libraries).Same
      (workspaceModuleGraphForLibraries content' libraries)

/-- The owners that the libraries give a package, each marked to stay unless a library attributes the
package to its own later declaration of the module. -/
def attributions (content : LibraryId → LibraryModules N) (package : N) :
    List LibraryId → List LibraryId → List (N × Bool)
  | _, [] => []
  | done, library :: rest =>
      (((ownersIn content library package).filter (declaredBy content (done ++ [library]))).map
        fun owner => (owner,
          !(declaredBy content done owner && ((content library).graph.modules.get owner).isSome))) ++
        attributions content package (done ++ [library]) rest

theorem attributions_owners (content : LibraryId → LibraryModules N) (package : N)
    (done rest : List LibraryId) :
    (attributions content package done rest).map Prod.fst = attributed content package done rest := by
  induction rest generalizing done with
  | nil => rfl
  | cons library rest ih =>
      rw [attributions, attributed, List.map_append, List.map_map, ih]
      congr 1
      exact List.map_id _

theorem before_of_split {libraries done rest : List LibraryId} {library : LibraryId}
    (split : firstLibraries libraries = done ++ library :: rest) :
    librariesBefore libraries library = done := by
  have once : (done ++ library :: rest).Nodup := split ▸ nodup_firsts List.nodup_nil libraries
  have apart : ∀ earlier ∈ done, decide (earlier ≠ library) = true := by
    intro earlier listed
    have fresh := (List.nodup_append.mp once).2.2 earlier listed library List.mem_cons_self
    exact decide_eq_true fresh
  rw [librariesBefore, split, List.takeWhile_append_of_pos apart]
  simp

section Dropped

variable {content : LibraryId → LibraryModules N} {libraries : List LibraryId}

theorem declaration_withoutLater {done rest : List LibraryId} {library : LibraryId}
    (split : firstLibraries libraries = done ++ library :: rest) (name : N) :
    declaration (withoutLater content libraries) library name =
      if declaredBy content done name then none else declaration content library name := by
  unfold declaration withoutLater without
  simp only [before_of_split split, Table.get_retain]
  cases declaredBy content done name <;> simp

/-- The modules declared first are those of the libraries without later declarations. -/
theorem firstDeclaration_withoutLater {done rest : List LibraryId}
    (split : firstLibraries libraries = done ++ rest) (name : N) :
    firstDeclaration (withoutLater content libraries) done name =
      firstDeclaration content done name := by
  induction done using List.reverseRecOn generalizing rest with
  | nil => rfl
  | append_singleton done library ih =>
      have here : firstLibraries libraries = done ++ library :: rest := by
        rw [split, List.append_assoc, List.singleton_append]
      have earlier := ih here
      unfold firstDeclaration at earlier ⊢
      rw [List.findSome?_append, List.findSome?_append, earlier]
      cases held : done.findSome? fun library => declaration content library name with
      | some d => rfl
      | none =>
          have undeclared : declaredBy content done name = false := by
            rw [declaredBy, firstDeclaration, held]
            rfl
          simp [declaration_withoutLater here, undeclared]

theorem ownersIn_withoutLater {done rest : List LibraryId} {library : LibraryId}
    (split : firstLibraries libraries = done ++ library :: rest) (package : N) :
    ownersIn (withoutLater content libraries) library package =
      (ownersIn content library package).filter fun owner =>
        !(declaredBy content done owner && ((content library).graph.modules.get owner).isSome) := by
  unfold ownersIn withoutLater without
  simp only [before_of_split split, Table.get_mapValues]
  cases (content library).graph.packageToModules.get package <;> rfl

theorem attributed_withoutLater {done rest : List LibraryId}
    (split : firstLibraries libraries = done ++ rest) (package : N) :
    attributed (withoutLater content libraries) package done rest =
      kept (attributions content package done rest) := by
  induction rest generalizing done with
  | nil => rfl
  | cons library rest ih =>
      have next : firstLibraries libraries = (done ++ [library]) ++ rest := by
        rw [split, List.append_assoc, List.singleton_append]
      have known : declaredBy (withoutLater content libraries) (done ++ [library]) =
          declaredBy content (done ++ [library]) := by
        funext name
        rw [declaredBy, declaredBy, firstDeclaration_withoutLater next]
      rw [attributed, attributions, kept_append, kept_mark, ih next, known,
        ownersIn_withoutLater split, List.filter_filter, List.filter_filter]
      congr 2
      funext owner
      exact Bool.and_comm _ _

end Dropped

theorem describes_path (content : LibraryId → LibraryModules N) (libraries : List LibraryId) :
    Describes content (firstLibraries libraries)
      (workspaceModuleGraphForLibraries content libraries) :=
  describes_addLibraries (describes_empty content) (firstLibraries libraries)

theorem ownerNames_path (content : LibraryId → LibraryModules N) (libraries : List LibraryId)
    (package : N) :
    (workspaceModuleGraphForLibraries content libraries).ownerNames package =
      firsts [] (attributed content package [] (firstLibraries libraries)) :=
  ownerNames_addLibraries (describes_empty content) (firstLibraries libraries) package

/-- Two contents of the libraries give the same path where they declare the same modules first, have
entries for the same packages and give them owners with the same first occurrences. -/
theorem same_path_iff {content content' : LibraryId → LibraryModules N} {libraries : List LibraryId}
    (modules : ∀ name, firstDeclaration content (firstLibraries libraries) name =
      firstDeclaration content' (firstLibraries libraries) name)
    (entries : ∀ library package, ((content library).graph.packageToModules.get package).isSome =
      ((content' library).graph.packageToModules.get package).isSome) :
    (workspaceModuleGraphForLibraries content libraries).Same
        (workspaceModuleGraphForLibraries content' libraries) ↔
      ∀ package, firsts [] (attributed content package [] (firstLibraries libraries)) =
        firsts [] (attributed content' package [] (firstLibraries libraries)) := by
  have here := describes_path content libraries
  have there := describes_path content' libraries
  rw [same_iff here.closed there.closed]
  · simp only [ownerNames_path]
  · intro name
    rw [here.modules, there.modules, modules]
  · intro package
    have counted (content : LibraryId → LibraryModules N) :=
      isSome_addLibraries content .empty (firstLibraries libraries) package
    refine (counted content).trans (Eq.trans ?_ (counted content').symm)
    simp only [entries]

theorem firstDeclaration_reordered {content content' : LibraryId → LibraryModules N}
    (reordered : ∀ library, Reordered (content library) (content' library))
    (libraries : List LibraryId) (name : N) :
    firstDeclaration content libraries name = firstDeclaration content' libraries name := by
  have same : (fun library => declaration content library name) =
      fun library => declaration content' library name := by
    funext library
    rw [declaration, declaration, (reordered library).modules name, (reordered library).indices]
  rw [firstDeclaration, same, firstDeclaration]

theorem attributed_reordered {content content' : LibraryId → LibraryModules N}
    (reordered : ∀ library, Reordered (content library) (content' library)) (package : N)
    (done rest : List LibraryId) :
    attributed content package done rest = attributed content' package done rest := by
  induction rest generalizing done with
  | nil => rfl
  | cons library rest ih =>
      have known : declaredBy content (done ++ [library]) =
          declaredBy content' (done ++ [library]) := by
        funext name
        rw [declaredBy, declaredBy, firstDeclaration_reordered reordered]
      rw [attributed, attributed, ih, known, ownersIn, ownersIn, (reordered library).packages package]

/-- The order of iteration says nothing about the module path. -/
theorem same_of_reordered {content content' : LibraryId → LibraryModules N}
    (reordered : ∀ library, Reordered (content library) (content' library))
    (libraries : List LibraryId) :
    (workspaceModuleGraphForLibraries content libraries).Same
      (workspaceModuleGraphForLibraries content' libraries) := by
  rw [same_path_iff]
  · intro package
    rw [attributed_reordered reordered]
  · exact firstDeclaration_reordered reordered _
  · intro library package
    rw [(reordered library).packages package]

/-- Dropping the later declarations leaves the path as it is exactly where each package that a library
attributes to a later declaration is one the module owns by then, or the next attribution left gives
it to the module all the same. -/
theorem firstWins_iff (content : LibraryId → LibraryModules N) (libraries : List LibraryId) :
    FirstWins content libraries ↔
      ∀ package, Absorbed [] (attributions content package [] (firstLibraries libraries)) := by
  have dropped : (workspaceModuleGraphForLibraries content libraries).Same
      (workspaceModuleGraphForLibraries (withoutLater content libraries) libraries) ↔
        ∀ package, Absorbed [] (attributions content package [] (firstLibraries libraries)) := by
    rw [same_path_iff]
    · apply forall_congr'
      intro package
      rw [attributed_withoutLater (List.nil_append _).symm, ← attributions_owners, firsts_kept_iff]
    · intro name
      exact (firstDeclaration_withoutLater (List.append_nil _).symm name).symm
    · intro library package
      rw [withoutLater, without, Table.get_mapValues, Option.isSome_map]
  constructor
  · intro wins
    exact dropped.mp wins.dropped
  · intro absorbed
    exact { dropped := dropped.mpr absorbed
            reordered := fun _ reordered => same_of_reordered reordered libraries }

/-! ### A package of a duplicate -/

/-- An archive of the module `m` with a class in the package. -/
def archiveOf (package : String) : NameIndex String :=
  ⟨[⟨package ++ ".C", package, .class_, 1, none, [], some "m"⟩], [⟨"m", 0, none⟩]⟩

/-- Two archives of the module `m`: library 1 holds the package `p`, library 2 the package `q`. -/
def duplicatePath (library : LibraryId) : LibraryModules String where
  graph := moduleGraphQuery (archiveOf (if library = 1 then "p" else "q"))
    fun _ => some (.module_ ⟨"m", 0, none, [], [], [], [], []⟩)
  moduleIndex name := if name = "m" then some 0 else none

/-- The duplicate is ignored, but its package is given to the module that was declared first. -/
theorem duplicate_gives_package : ¬FirstWins duplicatePath [1, 2] := by
  intro wins
  have names := congrArg (fun owners => (owners.getD []).map fun d => d.stub.name) (wins.dropped.2 "q")
  exact absurd names (by decide)

end CaffeineLs.Hir
