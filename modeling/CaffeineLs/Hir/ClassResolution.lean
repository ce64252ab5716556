/-
Module: CaffeineLs.Hir.ClassResolution
Purpose: Resolving a fully qualified class name within a source set, with and without the
  synthesized file facades.
Trusted boundary: what the languages index of a file and the name index of a registered library are
  functions of one state of the database; a symbol is the string it stands for
Main exports: Workspace, packagePrefixes, sourceSymbolResolve
-/
import CaffeineLs.Hir.LibraryIndex
import CaffeineLs.Hir.LmdbStore
import CaffeineLs.HirExpand.Name

namespace CaffeineLs.Hir

open HirExpand (Name FileId ItemId SourceClass)

inductive SourceSetKind where
  | main
  | test
  | custom (name : Name)
deriving DecidableEq, Repr

/-- A compilation unit: one project's one source set. -/
structure SourceSetId where
  project : Nat
  kind : SourceSetKind
deriving DecidableEq, Repr

inductive ClasspathEntry where
  | library (id : LibraryId)
  | sourceSet (id : SourceSetId)
deriving DecidableEq, Repr

/-- An ordered classpath: earlier entries shadow later ones. -/
structure Classpath where
  entries : List ClasspathEntry
deriving DecidableEq, Repr

inductive SourceSymbolKind where
  | class_ | interface | enum | record | annotation_ | module_ | method | field | enumConstant
  | package | object | function | property | constructor | typeAlias
deriving DecidableEq, Repr

structure SourceSymbol where
  name : Name
  item : ItemId
  kind : SourceSymbolKind
deriving DecidableEq, Repr

structure SourceSymbolRef where
  file : FileId
  symbol : SourceSymbol
deriving DecidableEq, Repr

/-- A class resolved to a library entry. -/
structure ResolvedClass where
  library : LibraryId
  entryIdx : UInt32
  entry : ClassEntry Name
deriving DecidableEq, Repr

inductive Resolved where
  | library (resolved : ResolvedClass)
  | source (resolved : SourceClass)
  | facade (file : FileId) (fqn : Name)
deriving DecidableEq, Repr

/-- What the language of a file indexes of it. -/
structure LanguageFileIndex where
  filePackage : Option Name
  fileFacadeClass : Option Name
  fileSymbols : List SourceSymbol
deriving DecidableEq, Repr

/-- What resolution reads: the project graph, the files of the source roots, and the indexes. -/
structure Workspace where
  sourceSets : SourceSetId → Option Classpath
  /-- `source_root_to_source_set`, the roots by id. -/
  sourceRoots : List (Nat × SourceSetId)
  rootFiles : Nat → List FileId
  /-- `for_file`: `none` is a file of no language. -/
  forFile : FileId → Option LanguageFileIndex
  libraryNameIndex : LibraryId → NameIndex Name

namespace Workspace

variable (ws : Workspace)

def fileSymbols (file : FileId) : List SourceSymbol :=
  (ws.forFile file).elim [] LanguageFileIndex.fileSymbols

/-- The declared package of a file, the empty name for the unnamed package. -/
def filePackage (file : FileId) : Name :=
  ((ws.forFile file).bind LanguageFileIndex.filePackage).getD ⟨[]⟩

/-- The files of the source set that declare the package, the roots sorted by id. -/
def sourceSetPackageFiles (sourceSet : SourceSetId) (package : Name) : List FileId :=
  let owned := ws.sourceRoots.filter fun root => root.2 = sourceSet
  let roots := (owned.map Prod.fst).mergeSort (· ≤ ·)
  roots.flatMap fun root => (ws.rootFiles root).filter fun file => ws.filePackage file = package

/-- The declarations of the source set's package whose fully qualified name is `fqn`. -/
def packageFqnSymbols (sourceSet : SourceSetId) (package fqn : Name) : List SourceSymbolRef :=
  (ws.sourceSetPackageFiles sourceSet package).flatMap fun file =>
    ((ws.fileSymbols file).filter fun symbol => symbol.name = fqn).map fun symbol =>
      ⟨file, symbol⟩

end Workspace

/-- The prefixes that end before a `.` of the reversed text, the longest first, then the unnamed
package. -/
def prefixesOfReversed : List Char → List Name
  | [] => [⟨[]⟩]
  | c :: front =>
      if c = '.' then ⟨front.reverse⟩ :: prefixesOfReversed front else prefixesOfReversed front

/-- The `.`-prefix packages of a fully qualified name, most specific first. -/
def packagePrefixes (fqn : Name) : List Name :=
  prefixesOfReversed fqn.text.reverse

/-- The kinds whose symbols declare a class. -/
def SourceSymbolKind.declaresClass : SourceSymbolKind → Bool
  | .class_ | .interface | .enum | .record | .annotation_ | .module_ | .object => true
  | _ => false

/-- The text is the reversed front and then `back`; each `.` of the front is folded into `$`, from the
right, and stays folded. -/
def foldingsOfReversed : List Char → List Char → List Name
  | [], _ => []
  | c :: front, back =>
      if c = '.' then ⟨front.reverse ++ '$' :: back⟩ :: foldingsOfReversed front ('$' :: back)
      else foldingsOfReversed front (c :: back)

/-- The binary names that a source name may stand for: the rightmost dots folded into `$`, one more
at a time. -/
def foldings (fqn : Name) : List Name :=
  fqn :: foldingsOfReversed fqn.text.reverse []

namespace Workspace

variable (ws : Workspace)

/-- The class `fqn` denotes without the synthesized-facade rule, among the source set's own
declarations. -/
def sourceSymbolResolve (sourceSet : SourceSetId) (fqn : Name) : Option Resolved :=
  (packagePrefixes fqn).findSome? fun package =>
    (ws.packageFqnSymbols sourceSet package fqn).findSome? fun reference =>
      if reference.symbol.kind.declaresClass then
        some (.source ⟨reference.file, reference.symbol.item⟩)
      else none

/-- The name of the facade class of a file, with the package the file declares. -/
def facadeName (index : LanguageFileIndex) : Option Name := do
  let facade ← index.fileFacadeClass
  return match index.filePackage with
  | some package => ⟨package.text ++ '.' :: facade.text⟩
  | none => facade

/-- The file whose synthesized facade class is `fqn`. -/
def fileFacadeSource (sourceSet : SourceSetId) (fqn : Name) : Option FileId :=
  (packagePrefixes fqn).findSome? fun package =>
    (ws.sourceSetPackageFiles sourceSet package).find? fun file =>
      (ws.forFile file).bind facadeName = some fqn

/-- A facade shadows a declaration. -/
def sourceResolve (sourceSet : SourceSetId) (fqn : Name) : Option Resolved :=
  match ws.fileFacadeSource sourceSet fqn with
  | some file => some (.facade file fqn)
  | none => ws.sourceSymbolResolve sourceSet fqn

/-- A class name against an ordered library list. -/
def resolveInLibraries (libraries : List LibraryId) (fqn : Name) : Option ResolvedClass :=
  (foldings fqn).findSome? fun candidate =>
    libraries.findSome? fun library =>
      ((ws.libraryNameIndex library).lookup candidate).map fun found =>
        ⟨library, found.1, found.2⟩

/-- The loop of `fqn_resolve_query`: an internal source set answers with its own classes only. -/
def resolveInEntries (fqn : Name) : List ClasspathEntry → Option Resolved
  | [] => none
  | .sourceSet internal :: rest =>
      match ws.sourceResolve internal fqn with
      | some resolved => some resolved
      | none => resolveInEntries fqn rest
  | .library library :: rest =>
      match ws.resolveInLibraries [library] fqn with
      | some resolved => some (.library resolved)
      | none => resolveInEntries fqn rest

/-- `fqn_resolve_query`: `fqn_resolve` in the scope of a source set. -/
def fqnResolve (sourceSet : SourceSetId) (fqn : Name) : Option Resolved :=
  match ws.sourceResolve sourceSet fqn with
  | some resolved => some resolved
  | none =>
      match ws.sourceSets sourceSet with
      | none => none
      | some classpath => ws.resolveInEntries fqn classpath.entries

/-- The loop of `resolve_declarations`: `walk` is the call at an internal source set. -/
def walkEntries (walk : SourceSetId → Option (Option Resolved)) (fqn : Name) :
    List ClasspathEntry → Option (Option Resolved)
  | [] => some none
  | .sourceSet internal :: rest =>
      match walk internal with
      | none => none
      | some (some resolved) => some (some resolved)
      | some none => walkEntries walk fqn rest
  | .library library :: rest =>
      match ws.resolveInLibraries [library] fqn with
      | some resolved => some (some (.library resolved))
      | none => walkEntries walk fqn rest

/-- `declaration_resolve`: the walk through the classpaths of the internal source sets, with at most
`fuel` calls on the stack. `none` is a walk that has not returned. -/
def resolveDeclarations (fqn : Name) : Nat → SourceSetId → Option (Option Resolved)
  | 0, _ => none
  | fuel + 1, sourceSet =>
      match ws.sourceSymbolResolve sourceSet fqn with
      | some resolved => some (some resolved)
      | none =>
          match ws.sourceSets sourceSet with
          | none => some none
          | some classpath =>
              ws.walkEntries (resolveDeclarations fqn fuel) fqn classpath.entries

end Workspace

end CaffeineLs.Hir
