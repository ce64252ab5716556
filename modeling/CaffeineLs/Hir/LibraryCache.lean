/-
Module: CaffeineLs.Hir.LibraryCache
Purpose: The two caches of a library in a session: the memoized query of its name index, and the index
  kept with its registration, under reloads of the project graph, warm-ups and queries.
Trusted boundary: a memoized query that reads no input is not executed again; `load_or_build` is a
  function of the id, the kind and the archive, so the persistent cache gives back what was parsed
Main exports: LibraryIndex, LibraryState, ProjectGraphData
-/
import CaffeineLs.Lib.Reactive
import CaffeineLs.Hir.LibraryIndex
import CaffeineLs.Hir.LmdbStore
import CaffeineLs.Hir.StubTable

namespace CaffeineLs.Hir

inductive LibraryKind where
  | jar | jimage
deriving DecidableEq, Repr

/-- What `with_record_bytes` finds of a library and decodes. -/
abbrev RecordStore := LibraryId → UInt32 → Option (ClassOrModuleStub UInt32)

/-- The index of one library. The records of one that was read from the persistent cache stay
there. -/
structure LibraryIndex (Symbol : Type) where
  id : LibraryId
  kind : LibraryKind
  archive : String
  names : NameIndex Symbol
  strings : List String
  records : List (ClassOrModuleStub UInt32)
  store : RecordStore

namespace LibraryIndex

variable {Symbol : Type}

/-- What stands for an archive that fails to load. -/
def empty (id : LibraryId) (kind : LibraryKind) (archive : String) : LibraryIndex Symbol :=
  ⟨id, kind, archive, NameIndex.empty, [], [], fun _ _ => none⟩

variable (interner : ThreadedRodeo Symbol) (index : LibraryIndex Symbol)

/-- The outer `none` is the panic of an index outside the strings. -/
def record (recordIdx : UInt32) : Option (Option (ClassOrModuleStub Symbol)) :=
  match index.records[recordIdx.toNat]?.or (index.store index.id recordIdx) with
  | none => some none
  | some diskRecord => (DiskResolver.classOrModule ⟨index.strings, interner⟩ diskRecord).map some

def classRecord (entryIdx : UInt32) : Option (Option (ClassOrModuleStub Symbol)) :=
  index.record interner entryIdx

/-- The records of the modules follow those of the classes. -/
def moduleRecord (moduleIdx : UInt32) : Option (Option (ClassOrModuleStub Symbol)) :=
  index.record interner (UInt32.ofNat index.names.entries.length + moduleIdx)

end LibraryIndex

/-- The registration of a library, and its index once it is loaded. -/
structure LibraryState (Symbol : Type) where
  kind : LibraryKind
  archive : String
  index : Option (LibraryIndex Symbol)
  sources : Option String
  decompiles : Bool

structure LibraryInfo where
  kind : LibraryKind
  path : String
deriving DecidableEq, Repr

/-- What a reload says about libraries. -/
structure ProjectGraphData where
  libraries : LibraryId → Option LibraryInfo
  librarySources : LibraryId → Option String
  libraryDecompiled : LibraryId → Option String

inductive Caller where
  | warmup | query
deriving DecidableEq, Repr

/-- A load under way: `ensure_loaded` has found no index and reads the archive. -/
structure Load where
  caller : Caller
  id : LibraryId
  kind : LibraryKind
  archive : String
deriving DecidableEq, Repr

structure Session (Symbol : Type) where
  graph : Option ProjectGraphData
  libraries : LibraryId → Option (LibraryState Symbol)
  /-- The memos of `library_name_index_query`. -/
  nameIndexes : LibraryId → Option (NameIndex Symbol)
  loads : List Load

namespace Session

variable {Symbol : Type}

def initial : Session Symbol :=
  ⟨none, fun _ => none, fun _ => none, []⟩

/-- A library that stays keeps its kind, its archive and its index. -/
def register (info : LibraryInfo) (sources : Option String) (decompiles : Bool)
    (known : Option (LibraryState Symbol)) : LibraryState Symbol :=
  let library := known.getD ⟨info.kind, info.path, none, none, false⟩
  { library with sources := sources, decompiles := decompiles }

def setProjectGraph (s : Session Symbol) (data : ProjectGraphData) : Session Symbol :=
  { s with
    graph := some data
    libraries := fun id =>
      (data.libraries id).map fun info =>
        register info (data.librarySources id) (data.libraryDecompiled id).isSome
          (s.libraries id) }

def registeredLibrary (s : Session Symbol) (id : LibraryId) : Option (LibraryKind × String) :=
  (s.libraries id).map fun library => (library.kind, library.archive)

def cachedIndex (s : Session Symbol) (id : LibraryId) : Option (LibraryIndex Symbol) :=
  (s.libraries id).bind LibraryState.index

/-- The end of `ensure_loaded`: the index of a library that was dropped meanwhile is not stored. -/
def storeIndex (s : Session Symbol) (id : LibraryId) (index : LibraryIndex Symbol) :
    Session Symbol :=
  { s with
    libraries := fun other =>
      if other = id then (s.libraries id).map fun library => { library with index := some index }
      else s.libraries other }

/-- The query is memoized with what it returned. -/
def remember (s : Session Symbol) (id : LibraryId) (names : NameIndex Symbol) : Session Symbol :=
  { s with nameIndexes := fun other => if other = id then some names else s.nameIndexes other }

section Loading

variable (loadOrBuild : LibraryId → LibraryKind → String → Option (LibraryIndex Symbol))

/-- The index that is loaded, empty where that fails. -/
def loadIndex (id : LibraryId) (kind : LibraryKind) (archive : String) : LibraryIndex Symbol :=
  (loadOrBuild id kind archive).getD (LibraryIndex.empty id kind archive)

def ensureLoaded (s : Session Symbol) (id : LibraryId) (kind : LibraryKind) (archive : String) :
    Session Symbol × LibraryIndex Symbol :=
  match s.cachedIndex id with
  | some index => (s, index)
  | none =>
      let index := loadIndex loadOrBuild id kind archive
      (s.storeIndex id index, index)

/-- The query with its memo, with nothing in between. `none` is the panic of a library that is not
registered. -/
def libraryNameIndexQuery (s : Session Symbol) (id : LibraryId) :
    Option (Session Symbol × NameIndex Symbol) :=
  match s.nameIndexes id with
  | some names => some (s, names)
  | none =>
      (s.registeredLibrary id).map fun (kind, archive) =>
        let (s, index) := s.ensureLoaded loadOrBuild id kind archive
        (s.remember id index.names, index.names)

/-- `none` is also the panic without a project graph. -/
def libraryNameIndex (s : Session Symbol) (id : LibraryId) :
    Option (Session Symbol × NameIndex Symbol) :=
  s.graph.bind fun _ => s.libraryNameIndexQuery loadOrBuild id

def libraryIndex (s : Session Symbol) (id : LibraryId) :
    Option (Session Symbol × Option (LibraryIndex Symbol)) :=
  (s.libraryNameIndex loadOrBuild id).map fun (s, _) => (s, s.cachedIndex id)

/-- The outer `none` is a panic. -/
def classRecord (interner : ThreadedRodeo Symbol) (s : Session Symbol) (library : LibraryId)
    (entryIdx : UInt32) : Option (Option (ClassOrModuleStub Symbol)) :=
  (s.libraryIndex loadOrBuild library).bind fun (_, index) =>
    match index with
    | none => some none
    | some index => index.classRecord interner entryIdx

end Loading

end Session

/-- What happens to a session. A load is begun by a warm-up or a query and ends later; only that of a
query is cancelled. -/
inductive LibraryInput where
  | setProjectGraph (data : ProjectGraphData)
  | warmup (id : LibraryId)
  | query (id : LibraryId)
  | loaded (position : Nat)
  | cancel (position : Nat)

/-- What a query comes to. -/
inductive LibraryOutput (Symbol : Type) where
  | answer (id : LibraryId) (index : Option (LibraryIndex Symbol))
  | panicked (id : LibraryId)

namespace Session

variable {Symbol : Type}

def beginLoad (s : Session Symbol) (load : Load) : Session Symbol :=
  { s with loads := s.loads ++ [load] }

def endLoad (s : Session Symbol) (position : Nat) : Session Symbol :=
  { s with loads := s.loads.eraseIdx position }

/-- `library_index`, once the query has its result. -/
def answer (s : Session Symbol) (id : LibraryId) (names : NameIndex Symbol) :
    Session Symbol × List (LibraryOutput Symbol) :=
  (s.remember id names, [.answer id (s.cachedIndex id)])

/-- `warmup_library` up to its load. -/
def warmupLibrary (s : Session Symbol) (id : LibraryId) : Session Symbol :=
  match s.registeredLibrary id, s.cachedIndex id with
  | some (kind, archive), none => s.beginLoad ⟨.warmup, id, kind, archive⟩
  | _, _ => s

/-- `library_index` up to its load, if it needs one. -/
def query (s : Session Symbol) (id : LibraryId) : Session Symbol × List (LibraryOutput Symbol) :=
  match s.graph, s.nameIndexes id with
  | none, _ => (s, [.panicked id])
  | some _, some names => s.answer id names
  | some _, none =>
      match s.registeredLibrary id, s.cachedIndex id with
      | none, _ => (s, [.panicked id])
      | some _, some index => s.answer id index.names
      | some (kind, archive), none => (s.beginLoad ⟨.query, id, kind, archive⟩, [])

variable (loadOrBuild : LibraryId → LibraryKind → String → Option (LibraryIndex Symbol))

def finish (s : Session Symbol) (load : Load) :
    Session Symbol × List (LibraryOutput Symbol) :=
  let index := loadIndex loadOrBuild load.id load.kind load.archive
  let s := s.storeIndex load.id index
  match load.caller with
  | .warmup => (s, [])
  | .query => s.answer load.id index.names

def react (s : Session Symbol) : LibraryInput → Session Symbol × List (LibraryOutput Symbol)
  | .setProjectGraph data => (s.setProjectGraph data, [])
  | .warmup id => (s.warmupLibrary id, [])
  | .query id => s.query id
  | .loaded position =>
      match s.loads[position]? with
      | none => (s, [])
      | some load => (s.endLoad position).finish loadOrBuild load
  | .cancel position =>
      match s.loads[position]? with
      | some ⟨.query, _, _, _⟩ => (s.endLoad position, [])
      | _ => (s, [])

end Session

end CaffeineLs.Hir
