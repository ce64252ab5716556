/-
Module: CaffeineLs.Hir.LibraryBuild
Purpose: Building the index of a library from its parsed stubs, with what the stub cache keeps of it,
  and loading the index from that.
Trusted boundary: the interner is a parameter; an archive is the list of the stubs parsed from it
Main exports: StubRecord, NameIndex.module_, build
-/
import CaffeineLs.Hir.LibraryCache

namespace CaffeineLs.Hir

def accInterface : UInt16 := 0x0200
def accAnnotation : UInt16 := 0x2000
def accEnum : UInt16 := 0x4000

/-- A record has no access flag of its own. -/
def ClassKind.fromFlags (flags : UInt16) (isRecord : Bool) : ClassKind :=
  if flags &&& accInterface ≠ 0 then
    if flags &&& accAnnotation ≠ 0 then .annotation_ else .interface
  else if flags &&& accEnum ≠ 0 then .enum
  else if isRecord then .record
  else .class_

/-- A parsed declaration. `module_` is the module that owns a class. -/
structure StubRecord (Symbol : Type) where
  fqn : String
  package : String
  module_ : Option Symbol
  stub : ClassOrModuleStub Symbol

namespace NameIndex

variable {S : Type} [DecidableEq S]

/-- The index of the last module of that name, as for classes. -/
def modulePosition (name : S) : List (ModuleEntry S) → Option Nat
  | [] => none
  | entry :: rest =>
      match modulePosition name rest with
      | some i => some (i + 1)
      | none => if entry.name = name then some 0 else none

def module_ (index : NameIndex S) (name : S) : Option (UInt32 × ModuleEntry S) := do
  let i := UInt32.ofNat (← modulePosition name index.modules)
  let entry ← index.modules[i.toNat]?
  return (i, entry)

end NameIndex

/-- The order of strings: that of their bytes. -/
def atMost (one two : String) : Bool :=
  !Bytes.before two.toUTF8.data.toList one.toUTF8.data.toList

/-- The name of a class type. -/
def TypeRef.named {N : Type} : TypeRef N → Option N
  | .reference name _ => some name
  | _ => none

section Building

variable {Symbol : Type} [BEq Symbol] (interner : ThreadedRodeo Symbol)

/-- What `build` pushes to while it goes through the records. -/
structure Shelves (Symbol : Type) where
  entries : List (ClassEntry Symbol) := []
  modules : List (ModuleEntry Symbol) := []
  diskClassRecords : List (ClassOrModuleStub UInt32) := []
  diskModuleRecords : List (ClassOrModuleStub UInt32) := []
  diskEntries : List DiskClassEntry := []

def classEntry (record : StubRecord Symbol) (stub : ClassStub Symbol) : ClassEntry Symbol where
  fqn := interner.getOrIntern record.fqn
  package := interner.getOrIntern record.package
  kind := ClassKind.fromFlags stub.flags stub.isRecord
  flags := stub.flags
  superClass := stub.superClass.bind TypeRef.named
  interfaces := stub.interfaces.filterMap TypeRef.named
  module_ := record.module_

def moduleEntry (record : StubRecord Symbol) (stub : ModuleStub Symbol) : ModuleEntry Symbol where
  name := interner.getOrIntern record.fqn
  flags := stub.flags
  version := stub.version

def diskEntry (entry : ClassEntry Symbol) : StateM (StubStringTable Symbol) DiskClassEntry := do
  let name ← StubStringTable.symbol interner entry.fqn
  let package ← StubStringTable.symbol interner entry.package
  let superClass ← entry.superClass.mapM (StubStringTable.symbol interner)
  let interfaces ← entry.interfaces.mapM (StubStringTable.symbol interner)
  let owner ← entry.module_.mapM (StubStringTable.symbol interner)
  pure { name := name, package := package, kind := entry.kind, flags := entry.flags,
         superClass := superClass, interfaces := interfaces, module_ := owner }

def diskModule (entry : ModuleEntry Symbol) :
    StateM (StubStringTable Symbol) DiskModuleEntry := do
  let name ← StubStringTable.symbol interner entry.name
  let version ← entry.version.mapM (StubStringTable.symbol interner)
  pure { name := name, flags := entry.flags, version := version }

/-- One round of the loop over the records. -/
def shelve (shelves : Shelves Symbol) (record : StubRecord Symbol) :
    StateM (StubStringTable Symbol) (Shelves Symbol) :=
  match record.stub with
  | .class_ stub => do
      let entry := classEntry interner record stub
      let disk ← StubStringTable.class_ interner stub
      let diskEntry ← diskEntry interner entry
      pure { shelves with
        entries := shelves.entries ++ [entry]
        diskEntries := shelves.diskEntries ++ [diskEntry]
        diskClassRecords := shelves.diskClassRecords ++ [.class_ disk] }
  | .module_ stub => do
      let disk ← StubStringTable.module_ interner stub
      pure { shelves with
        modules := shelves.modules ++ [moduleEntry interner record stub]
        diskModuleRecords := shelves.diskModuleRecords ++ [.module_ disk] }

/-- `records.sort_by(|a, b| a.fqn.cmp(&b.fqn))`, which is stable. -/
def sortedRecords (records : List (StubRecord Symbol)) : List (StubRecord Symbol) :=
  records.mergeSort fun a b => atMost a.fqn b.fqn

/-- The name index, the meta blob with the time `now` on it, and the records in the order of their
keys: all classes, then all modules. -/
def build (now : UInt64) (records : List (StubRecord Symbol)) :
    NameIndex Symbol × MetaBlob × List (ClassOrModuleStub UInt32) :=
  let (shelves, table) :=
    ((sortedRecords records).foldlM (shelve interner) {}).run StubStringTable.new
  let (diskModules, table) := (shelves.modules.mapM (diskModule interner)).run table
  (⟨shelves.entries, shelves.modules⟩,
    ⟨cacheFormatVersion, table.strings, shelves.diskEntries, diskModules, now⟩,
    shelves.diskClassRecords ++ shelves.diskModuleRecords)

/-- What `load_or_build` returns for an archive that is not in the cache. -/
def builtIndex (id : LibraryId) (kind : LibraryKind) (archive : String) (now : UInt64)
    (store : RecordStore) (records : List (StubRecord Symbol)) : LibraryIndex Symbol :=
  let (names, blob, diskRecords) := build interner now records
  ⟨id, kind, archive, names, blob.strings, diskRecords, store⟩

end Building

section Loading

variable {Symbol : Type} (resolver : DiskResolver Symbol)

def loadEntry (entry : DiskClassEntry) : Option (ClassEntry Symbol) := do
  let fqn ← resolver.symbol entry.name
  let package ← resolver.symbol entry.package
  let superClass ← entry.superClass.mapM resolver.symbol
  let interfaces ← entry.interfaces.mapM resolver.symbol
  let owner ← entry.module_.mapM resolver.symbol
  pure { fqn := fqn, package := package, kind := entry.kind, flags := entry.flags,
         superClass := superClass, interfaces := interfaces, module_ := owner }

def loadModule (entry : DiskModuleEntry) : Option (ModuleEntry Symbol) := do
  let name ← resolver.symbol entry.name
  let version ← entry.version.mapM resolver.symbol
  pure { name := name, flags := entry.flags, version := version }

end Loading

/-- The index of a library that is in the cache. The outer `none` is the panic of an index outside the
strings. The stamp that the load leaves in the store is that of `touchLibraries`. -/
def loadFromCache {Symbol : Type} (interner : ThreadedRodeo Symbol)
    (readMeta : LibraryId → Option MetaBlob) (id : LibraryId) (kind : LibraryKind)
    (archive : String) (store : RecordStore) : Option (Option (LibraryIndex Symbol)) :=
  match readMeta id with
  | none => some none
  | some blob => do
      let resolver : DiskResolver Symbol := ⟨blob.strings, interner⟩
      let entries ← blob.entries.mapM (loadEntry resolver)
      let modules ← blob.modules.mapM (loadModule resolver)
      pure (some ⟨id, kind, archive, ⟨entries, modules⟩, blob.strings, [], store⟩)

end CaffeineLs.Hir
