/-
Module: CaffeineLs.Hir.Modules
Purpose: The module graph of a library, the module path of an ordered list of libraries, and what a
  module reads and sees of it.
Trusted boundary: a symbol is the string it stands for, and the interned name of `java.base` is a
  parameter; warnings are left out
Main exports: ModuleGraph, moduleGraphQuery, LibraryModules
-/
import CaffeineLs.Hir.LibraryIndex
import CaffeineLs.Hir.LmdbStore
import CaffeineLs.Lib.HashTable
import CaffeineLs.Lib.Worklist

namespace CaffeineLs.Hir

open HashTable

def accTransitive : UInt16 := 0x0020

variable {N : Type} [DecidableEq N]

/-- A module descriptor resolved to a library and an index. -/
structure ModuleDescriptor (N : Type) where
  library : LibraryId
  moduleIdx : UInt32
  stub : ModuleStub N

/-! ### The module graph of a library -/

/-- The module descriptors of a library under their names, and the owners of its packages. -/
structure ModuleGraph (N : Type) [DecidableEq N] where
  modules : Table N (ModuleStub N)
  packageToModules : Table N (List N)
  named : ∀ name stub, modules.get name = some stub → stub.name = name

/-- A later descriptor of a name replaces an earlier one. -/
def moduleTable : List (ClassOrModuleStub N) → Table N (ModuleStub N) → Table N (ModuleStub N)
  | [], table => table
  | .module_ stub :: rest, table => moduleTable rest (table.insert stub.name stub)
  | .class_ _ :: rest, table => moduleTable rest table

theorem moduleTable_named {records : List (ClassOrModuleStub N)} {table : Table N (ModuleStub N)}
    (named : ∀ name stub, table.get name = some stub → stub.name = name) :
    ∀ name stub, (moduleTable records table).get name = some stub → stub.name = name := by
  induction records generalizing table with
  | nil => exact named
  | cons record rest ih =>
      cases record with
      | class_ _ => exact ih named
      | module_ first =>
          apply ih
          intro name stub held
          rw [Table.get_insert] at held
          split at held
          · cases held
            assumption
          · exact named name stub held

/-- The owners of packages, from the class entries. -/
def packageTable : List (ClassEntry N) → Table N (List N) → Table N (List N)
  | [], table => table
  | entry :: rest, table =>
      match entry.module_ with
      | none => packageTable rest table
      | some owner =>
          let owners := (table.get entry.package).getD []
          packageTable rest (table.insert entry.package (pushNew owners owner))

/-- `module_graph_query`, of the entries of a library and the records of its modules. -/
def moduleGraphQuery (names : NameIndex N) (moduleRecord : Nat → Option (ClassOrModuleStub N)) :
    ModuleGraph N where
  modules := moduleTable ((List.range names.modules.length).filterMap moduleRecord) Table.empty
  packageToModules := packageTable names.entries Table.empty
  named := moduleTable_named (by simp)

/-- What the module path reads of a library. -/
structure LibraryModules (N : Type) [DecidableEq N] where
  graph : ModuleGraph N
  moduleIndex : N → Option UInt32

/-! ### The module path of a list of libraries -/

/-- The module path: the descriptor of each module, and the owners of each package. -/
structure WorkspaceModuleGraph (N : Type) where
  modules : Table N (ModuleDescriptor N)
  packageToModules : Table N (List (ModuleDescriptor N))

namespace WorkspaceModuleGraph

def empty : WorkspaceModuleGraph N := ⟨Table.empty, Table.empty⟩

/-- The modules owning `package`. -/
def modulesForPackage (workspace : WorkspaceModuleGraph N) (package : N) :
    List (ModuleDescriptor N) :=
  (workspace.packageToModules.get package).getD []

/-- The first declaration of a name is kept. -/
def addModule (library : LibraryId) (moduleIndex : N → Option UInt32)
    (modules : Table N (ModuleDescriptor N)) (declared : N × ModuleStub N) :
    Table N (ModuleDescriptor N) :=
  if (modules.get declared.1).isSome then modules
  else
    match moduleIndex declared.1 with
    | none => modules
    | some idx => modules.insert declared.1 ⟨library, idx, declared.2⟩

def addOwner (modules : Table N (ModuleDescriptor N)) (owners : List (ModuleDescriptor N))
    (owner : N) : List (ModuleDescriptor N) :=
  match modules.get owner with
  | some descriptor =>
      if owners.any fun d => d.stub.name = owner then owners else owners ++ [descriptor]
  | none => owners

def addPackage (modules : Table N (ModuleDescriptor N))
    (packages : Table N (List (ModuleDescriptor N))) (package : N × List N) :
    Table N (List (ModuleDescriptor N)) :=
  packages.insert package.1
    (package.2.foldl (addOwner modules) ((packages.get package.1).getD []))

/-- A round over the libraries: its modules, then the packages of all modules known by now. -/
def addLibrary (library : LibraryId) (content : LibraryModules N)
    (workspace : WorkspaceModuleGraph N) : WorkspaceModuleGraph N :=
  let modules := content.graph.modules.entries.foldl (addModule library content.moduleIndex)
    workspace.modules
  { modules := modules
    packageToModules := content.graph.packageToModules.entries.foldl (addPackage modules)
      workspace.packageToModules }

end WorkspaceModuleGraph

/-- The libraries without later occurrences: `if !seen.insert(library) { continue; }` -/
def firstLibraries (libraries : List LibraryId) : List LibraryId := firsts [] libraries

def workspaceModuleGraphForLibraries (content : LibraryId → LibraryModules N)
    (libraries : List LibraryId) : WorkspaceModuleGraph N :=
  (firstLibraries libraries).foldl
    (fun workspace library => workspace.addLibrary library (content library)) .empty

/-! ### Readability and visibility -/

/-- Whether `module` exports `package` to everyone or, if a module is given, to that one. -/
def isPackageExported (stub : ModuleStub N) (package : N) (toModule : Option N) : Bool :=
  stub.exports.any fun exported =>
    if exported.packageName ≠ package then false
    else if exported.toModules = [] then true
    else toModule.any exported.toModules.contains

/-- The modules found readable, and those that wait. -/
structure Readability (N : Type) where
  readable : List N
  queue : List N

section Reads

variable (workspace : WorkspaceModuleGraph N) (javaBase : N) (start : N)

/-- The modules that the requirements of `current` push: all of them for the module at the start, the
transitive ones for another. -/
def pushedBy (current : N) : List N :=
  match workspace.modules.get current with
  | none => []
  | some descriptor =>
      ((descriptor.stub.requires.filter fun require =>
        current = start || require.flags &&& accTransitive ≠ 0).map
          ModuleRequires.moduleName).reverse

def popModule (s : Readability N) : Option (N × Readability N) :=
  match s.queue with
  | [] => none
  | current :: rest => some (current, { s with queue := rest })

/-- A round of `while let Some(current) = queue.pop()`. -/
def readRound (current : N) (s : Readability N) : Readability N :=
  if current ∈ s.readable then s
  else { readable := current :: s.readable, queue := pushedBy workspace start current ++ s.queue }

/-- Rounds enough for every requirement of every module. -/
def readFuel : Nat :=
  ((workspace.modules.entries.map fun entry => entry.2.stub.requires.length).sum) + 3

/-- `readable_modules`. The start and `java.base` wait at first, and the last pushed is read next. -/
def readableModules : Option (List N) :=
  (Worklist.drain popModule (readRound workspace start) (readFuel workspace)
    ⟨[], [javaBase, start]⟩).map Readability.readable

end Reads

/-- `is_package_visible`, once the readable modules are found. -/
def isPackageVisible (workspace : WorkspaceModuleGraph N) (javaBase start package : N) :
    Option Bool :=
  (readableModules workspace javaBase start).map fun readable =>
    (workspace.modulesForPackage package).any fun owner =>
      owner.stub.name = start ||
        (readable.contains owner.stub.name && isPackageExported owner.stub package (some start))

def isPackageVisibleFromUnnamed (workspace : WorkspaceModuleGraph N) (package : N) : Bool :=
  let owners := workspace.modulesForPackage package
  if owners.isEmpty then true
  else owners.any fun owner => isPackageExported owner.stub package none

end CaffeineLs.Hir
