/-
Module: CaffeineLs.Server.OpenDocuments
Purpose: The contents of the virtual file system: what the client opens, changes and closes, what the
  file loader reads, and the library files that are read from archives or decompiled.
Trusted boundary: the virtual file system is a parameter, a store of the contents of each path; how a
  uri names a path, and what an archive entry holds, are parameters too
Main exports: Places, DocumentData, LibraryFileRef
-/
import CaffeineLs.Lib.KeyedStore
import CaffeineLs.Lib.ByteStore
import CaffeineLs.Lib.Reactive
import CaffeineLs.Server.DocumentChanges

namespace CaffeineLs.Server.OpenDocuments

open SourceText KeyedStore Document

/-- The paths that uris name, and how paths are made up. -/
structure Places (Uri Path : Type) where
  /-- The path of the library file that the uri is a view of. -/
  viewVfsPath : Uri → Option Path
  /-- `from_proto::vfs_path`, where the uri is one of a file. -/
  vfsPath : Uri → Option Path
  stripPrefix : Path → Path → Option Path
  components : Path → Nat

/-- The text is kept as its UTF-8 bytes. -/
structure DocumentData where
  version : Int
  data : Text
deriving DecidableEq, Repr

/-- A library file of a deferred request: the source with the bytes of its archive entry, `none` where
reading or materializing it fails, or a file to decompile. -/
inductive LibraryFileRef (Path : Type) where
  | source (path : Path) (entry : Option Bytes)
  | decompile (path : Path)

inductive Input (Uri Path : Type) where
  | didOpen (uri : Uri) (version : Int) (text : Text)
  | didChange (uri : Uri) (version : Int) (changes : List ContentChange)
  | didClose (uri : Uri)
  | loaded (files : List (Path × Option Bytes))
  | changed (files : List (Path × Option Bytes))
  | loadLibraryFiles (files : List (LibraryFileRef Path))
  | libraryDecompiled (files : List (Path × Bytes))
  | workspaceLoaded (matchers : List (Path × (Path → Bool)))

/-- What the server asks for: the loader to read a path again, files to be decompiled, and the deferred
request to run again. -/
inductive Output (Path : Type) where
  | invalidate (path : Path)
  | decompile (paths : List Path)
  | retry
deriving DecidableEq, Repr

/-- `String::into_bytes`. -/
def intoBytes (text : Text) : Bytes :=
  text.flatMap String.utf8EncodeChar

/-- The virtual file system: the contents of each path that exists. -/
abbrev Vfs (Path : Type) := Store Path (Option Bytes)

structure DocumentServer (Path : Type) (vfs : Vfs Path) where
  memDocs : Path → Option DocumentData
  files : vfs.State
  /-- The source roots, each with the rules for the paths below it. -/
  sourceRootMatchers : List (Path × (Path → Bool))

variable {Uri Path : Type}

def initial (vfs : Vfs Path) : DocumentServer Path vfs :=
  ⟨fun _ => none, vfs.empty, []⟩

/-- `max_by_key`: the last one of those with the greatest key. -/
def deepest : List (Nat × Bool) → Option (Nat × Bool)
  | [] => none
  | one :: rest =>
      match deepest rest with
      | none => some one
      | some other => if other.1 < one.1 then some one else some other

def ignoredByOwningRoot (places : Places Uri Path) (matchers : List (Path × (Path → Bool)))
    (path : Path) : Bool :=
  (deepest (matchers.filterMap fun (root, isIgnore) =>
    (places.stripPrefix root path).map fun rel => (places.components root, isIgnore rel))).any (·.2)

namespace DocumentServer

variable [DecidableEq Path] {vfs : Vfs Path}

/-- `mem_docs.insert` and `mem_docs.remove`. -/
def setDocument (s : DocumentServer Path vfs) (path : Path) (data : Option DocumentData) :
    DocumentServer Path vfs :=
  { s with memDocs := fun other => if other = path then data else s.memDocs other }

def setFileContents (s : DocumentServer Path vfs) (path : Path) (contents : Option Bytes) :
    DocumentServer Path vfs :=
  { s with files := vfs.write s.files path contents }

/-- `file_id(path).is_some()`. -/
def exists_ (s : DocumentServer Path vfs) (path : Path) : Bool :=
  (vfs.read s.files path).isSome

section Handlers

variable (places : Places Uri Path) (indexer : LineIndexer) (encoding : PositionEncoding)

def onDidOpen (s : DocumentServer Path vfs) (uri : Uri) (version : Int) (text : Text) :
    DocumentServer Path vfs :=
  match places.viewVfsPath uri with
  | some path => if s.exists_ path then s.setDocument path (some ⟨version, text⟩) else s
  | none =>
      match places.vfsPath uri with
      | some path =>
          (s.setDocument path (some ⟨version, text⟩)).setFileContents path (some (intoBytes text))
      | none => s

def onDidChange (s : DocumentServer Path vfs) (uri : Uri) (version : Int)
    (changes : List ContentChange) : DocumentServer Path vfs :=
  match places.viewVfsPath uri with
  | some _ => s
  | none =>
      match places.vfsPath uri with
      | none => s
      | some path =>
          match s.memDocs path with
          | none => s
          | some document =>
              match applyDocumentChanges indexer encoding document.data changes with
              -- A panic: the server does not get past the version.
              | none => s.setDocument path (some { document with version := version })
              | some newContents =>
                  if document.data = newContents then
                    s.setDocument path (some { document with version := version })
                  else
                    (s.setDocument path (some ⟨version, newContents⟩)).setFileContents path
                      (some (intoBytes newContents))

def onDidClose (s : DocumentServer Path vfs) (uri : Uri) :
    DocumentServer Path vfs × List (Output Path) :=
  match places.viewVfsPath uri with
  | some path => (s.setDocument path none, [])
  | none =>
      match places.vfsPath uri with
      | some path => (s.setDocument path none, [.invalidate path])
      | none => (s, [])

/-- A file of the loader is left out while a document is open there, and where the rules of its root
ignore it. -/
def takesFromLoader (s : DocumentServer Path vfs) (path : Path) : Bool :=
  ! (s.memDocs path).isSome && ! ignoredByOwningRoot places s.sourceRootMatchers path

/-- `handle_vfs_task`, for `Loaded` and for `Changed`. -/
def handleVfsTask (s : DocumentServer Path vfs) (files : List (Path × Option Bytes)) :
    DocumentServer Path vfs :=
  { s with files := vfs.writeWhere (s.takesFromLoader places) s.files files }

/-- A source that is there already is left alone. -/
def loadSources (s : DocumentServer Path vfs) : List (LibraryFileRef Path) → DocumentServer Path vfs
  | [] => s
  | .decompile _ :: rest => s.loadSources rest
  | .source path entry :: rest =>
      if s.exists_ path then s.loadSources rest
      else
        match entry with
        | none => s.loadSources rest
        | some bytes => (s.setFileContents path (some bytes)).loadSources rest

/-- What is left to decompile is decompiled in the background, and the request waits for it. -/
def loadLibraryFiles (s : DocumentServer Path vfs) (files : List (LibraryFileRef Path)) :
    DocumentServer Path vfs × List (Output Path) :=
  let pendingDecompiles := files.filterMap fun
    | .source _ _ => none
    | .decompile path => some path
  (s.loadSources files, if pendingDecompiles = [] then [.retry] else [.decompile pendingDecompiles])

def libraryDecompiled (s : DocumentServer Path vfs) :
    List (Path × Bytes) → DocumentServer Path vfs
  | [] => s
  | (path, contents) :: rest => (s.setFileContents path (some contents)).libraryDecompiled rest

def react (s : DocumentServer Path vfs) : Input Uri Path →
    DocumentServer Path vfs × List (Output Path)
  | .didOpen uri version text => (s.onDidOpen places uri version text, [])
  | .didChange uri version changes => (s.onDidChange places indexer encoding uri version changes, [])
  | .didClose uri => s.onDidClose places uri
  | .loaded files => (s.handleVfsTask places files, [])
  | .changed files => (s.handleVfsTask places files, [])
  | .loadLibraryFiles files => s.loadLibraryFiles files
  | .libraryDecompiled files => (s.libraryDecompiled files, [.retry])
  | .workspaceLoaded matchers => ({ s with sourceRootMatchers := matchers }, [])

end Handlers

end DocumentServer

end CaffeineLs.Server.OpenDocuments
