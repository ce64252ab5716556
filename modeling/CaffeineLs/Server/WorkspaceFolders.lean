/-
Module: CaffeineLs.Server.WorkspaceFolders
Purpose: What loading a workspace folder leaves: the source roots, the source set of each root, the
  classpaths and the libraries.
Trusted boundary: the partition of paths into file sets is a parameter, described by
  `Partition.Documented`; what `sdk_class_archive` finds on disk is a field of the SDK; the order of a
  hash map's entries is that of its list
Main exports: WorkspaceGraph, LoadedWorkspace, RootEntry
-/
import CaffeineLs.Lib.DeepestPrefix
import Mathlib.Data.Char
import Mathlib.Data.List.Lex

namespace CaffeineLs.Server.Workspace

open DeepestPrefix

/-- A path as its components. -/
abbrev Path := List (List Char)

structure ProjectId where
  raw : UInt32
deriving DecidableEq, Repr

structure SdkId where
  raw : UInt32
deriving DecidableEq, Repr

structure LibraryId where
  raw : UInt64
deriving DecidableEq, Repr

inductive SourceSetKind where
  | main
  | test
  | custom (name : List Char)
deriving DecidableEq, Repr

structure SourceSetId where
  project : ProjectId
  kind : SourceSetKind
deriving DecidableEq, Repr

inductive ClasspathEntry where
  | internal (project : ProjectId) (sourceSet : SourceSetKind)
  | external (library : LibraryId)
  | sdk (sdk : SdkId)
deriving DecidableEq, Repr

structure SourceSetData where
  sourceRoots : List Path
  generatedSourceRoots : List Path
  compileClasspath : List ClasspathEntry

structure ProjectData where
  id : ProjectId
  sourceSets : List (SourceSetKind × SourceSetData)

inductive LibraryKind where
  | jimage | jar
deriving DecidableEq, Repr

structure LibraryInfo where
  kind : LibraryKind
  path : Path
deriving DecidableEq, Repr

/-- An SDK, with the class archive that `sdk_class_archive` finds for it. -/
structure SdkData where
  id : SdkId
  classArchive : Option (LibraryId × LibraryInfo)

structure WorkspaceGraph where
  projects : List (ProjectId × ProjectData)
  sdks : List SdkData
  libraryPaths : List (LibraryId × Path)

/-- What `WorkspaceLoaded` carries: the build model, and the roots of the libraries' sources and of their
decompiled output. -/
structure LoadedWorkspace where
  graph : WorkspaceGraph
  sources : List (LibraryId × Path)
  decompiled : List (LibraryId × Path)

inductive RootEntry where
  | workspace (path : Path) (sourceSet : SourceSetId) (generated : Bool)
  | library (path : Path) (library : LibraryId)
  | decompiledLibrary (path : Path) (library : LibraryId)
deriving DecidableEq, Repr

def RootEntry.path : RootEntry → Path
  | .workspace path _ _ => path
  | .library path _ => path
  | .decompiledLibrary path _ => path

/-- The elements whose key was not seen before; the loop over `seen.insert`. -/
def firsts {A K : Type} [DecidableEq K] (key : A → K) : List K → List A → List A
  | _, [] => []
  | seen, a :: rest =>
      if key a ∈ seen then firsts key seen rest else a :: firsts key (key a :: seen) rest

/-- The source sets of all projects, the first one of each id. -/
def sourceSets (graph : WorkspaceGraph) : List (SourceSetId × SourceSetData) :=
  firsts Prod.fst [] <| graph.projects.flatMap fun (_, project) =>
    project.sourceSets.map fun (kind, sourceSet) => (⟨project.id, kind⟩, sourceSet)

/-- The source roots with their source sets, each root once, sorted by path. -/
def workspaceEntries (graph : WorkspaceGraph) : List (Path × SourceSetId × Bool) :=
  let roots := (sourceSets graph).flatMap fun (id, sourceSet) =>
    sourceSet.sourceRoots.map (fun root => (root, id, false)) ++
      sourceSet.generatedSourceRoots.map fun root => (root, id, true)
  (firsts Prod.fst [] roots).mergeSort fun one two => one.1 ≤ two.1

/-- Sorted by the id's text, which has as many digits for every id. -/
def libraryEntries (roots : List (LibraryId × Path)) : List (LibraryId × Path) :=
  roots.mergeSort fun one two => one.1.raw ≤ two.1.raw

/-- Every root, in the order of the source root ids. -/
def entries (loaded : LoadedWorkspace) : List RootEntry :=
  (workspaceEntries loaded.graph).map (fun (path, id, generated) => .workspace path id generated) ++
    (libraryEntries loaded.sources).map (fun (library, path) => .library path library) ++
    (libraryEntries loaded.decompiled).map fun (library, path) => .decompiledLibrary path library

/-- `GraphClasspathEntry`. -/
inductive GraphEntry where
  | sourceSet (id : SourceSetId)
  | library (id : LibraryId)
deriving DecidableEq, Repr

structure ProjectGraphData where
  libraries : List (LibraryId × LibraryInfo)
  jdkLibraries : List LibraryId
  sourceSets : SourceSetId → Option (List GraphEntry)
  sourceRootToSourceSet : Nat → Option SourceSetId
  sourceRootDirs : Nat → Option Path

/-- The source set of the files that no root contains. -/
def detachedSourceSet : SourceSetId := ⟨⟨4294967295⟩, .main⟩

section Build

variable (graph : WorkspaceGraph)

/-- The class archives of the SDKs, then the jars on the classpaths; an id that is there already keeps its
entry. -/
def libraries : List (LibraryId × LibraryInfo) :=
  graph.sdks.filterMap SdkData.classArchive ++
    graph.projects.flatMap fun (_, project) =>
      project.sourceSets.flatMap fun (_, sourceSet) =>
        sourceSet.compileClasspath.filterMap fun
          | .external library =>
              (graph.libraryPaths.lookup library).map fun path => (library, ⟨.jar, path⟩)
          | _ => none

def jdkLibraries : List LibraryId :=
  firsts id [] ((graph.sdks.filterMap SdkData.classArchive).map Prod.fst)

/-- The library of an SDK; of several SDKs of one id the last one's. -/
def sdkLibrary (sdk : SdkId) : Option LibraryId :=
  graph.sdks.reverse.findSome? fun data =>
    if data.id = sdk then data.classArchive.map Prod.fst else none

/-- The classpath in the order of the build tool, then the platform, where it is not on it. -/
def classpath (sourceSet : SourceSetData) : List GraphEntry :=
  let written := sourceSet.compileClasspath.filterMap fun
    | .internal project kind => some (.sourceSet ⟨project, kind⟩)
    | .external library => some (.library library)
    | .sdk sdk => (sdkLibrary graph sdk).map .library
  written ++ ((jdkLibraries graph).map .library).filter (· ∉ written)

/-- The classpath of a source set, looked up by the keys of the two maps. -/
def classpathOf (id : SourceSetId) : Option (List GraphEntry) := do
  let project ← graph.projects.lookup id.project
  let sourceSet ← project.sourceSets.lookup id.kind
  return classpath graph sourceSet

/-- `build_project_graph`, with the maps that `apply_loaded_graph` adds to it. -/
def buildProjectGraph (roots : List RootEntry) : ProjectGraphData where
  libraries := libraries graph
  jdkLibraries := jdkLibraries graph
  sourceSets id :=
    if id = detachedSourceSet then some ((jdkLibraries graph).map .library)
    else if id ∈ (sourceSets graph).map Prod.fst then classpathOf graph id
    else none
  sourceRootToSourceSet i :=
    if i = roots.length then some detachedSourceSet
    else match roots[i]? with
      | some (.workspace _ id _) => some id
      | _ => none
  sourceRootDirs i :=
    match roots[i]? with
    | some (.workspace path _ _) => some path
    | _ => none

end Build

structure ServerState where
  vfsConfigVersion : UInt32
  /-- The directories that the loader loads and watches. -/
  loaderRoots : List Path
  fileSetConfig : Option (List Path)
  projectGraph : ProjectGraphData
  libraryArchives : List (LibraryId × LibraryInfo)

def initial : ServerState :=
  ⟨0, [], none, ⟨[], [], fun _ => none, fun _ => none, fun _ => none⟩, []⟩

def applyLoadedGraph (s : ServerState) (loaded : LoadedWorkspace) : ServerState where
  vfsConfigVersion := s.vfsConfigVersion + 1
  loaderRoots := (entries loaded).filterMap fun
    | .workspace path _ _ => some path
    | _ => none
  fileSetConfig := some ((entries loaded).map RootEntry.path)
  projectGraph := buildProjectGraph loaded.graph (entries loaded)
  libraryArchives := libraries loaded.graph

/-- `FileSetConfig`: the number of the set that a path is in, by the roots of the sets. -/
structure Partition where
  classify : List Path → Path → Nat

/-- A path is in the set of the most specific root that contains it, the first one of equal roots, and in
the set after all others if none does. -/
def Partition.Documented (partition : Partition) : Prop :=
  ∀ roots path, partition.classify roots path =
    ((deepest Prod.fst roots.zipIdx path).map Prod.snd).getD roots.length

namespace ServerState

variable (partition : Partition) (s : ServerState)

/-- The source set of a file: its source root, then that root's source set. -/
def sourceSetFor (path : Path) : Option SourceSetId :=
  s.fileSetConfig.bind fun roots =>
    s.projectGraph.sourceRootToSourceSet (partition.classify roots path)

/-- The classpath of a source set, each library with what is registered for it. -/
def classpathFor (id : SourceSetId) : Option (List (GraphEntry × Option LibraryInfo)) :=
  (s.projectGraph.sourceSets id).map fun classpath =>
    classpath.map fun entry => (entry, match entry with
      | .library library => s.projectGraph.libraries.lookup library
      | .sourceSet _ => none)

end ServerState

end CaffeineLs.Server.Workspace
