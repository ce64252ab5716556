/-
Module: CaffeineLs.Hir.LmdbStore
Purpose: The persistent stub cache: its keys, the transactions that write, clear, touch and prune
  libraries, over an open environment.
Trusted boundary: LMDB is an ordered map of byte strings whose transactions are atomic; the encodings of
  blobs and the hash of a stamp are parameters
Main exports: StoreKey, Postcard, writeLibrary
-/
import CaffeineLs.Lib.ByteStore
import CaffeineLs.Hir.Stub

namespace CaffeineLs.Hir

open Wire

abbrev LibraryId := UInt64

def cacheFormatVersion : UInt32 := 1

/-- 30 days, in seconds. -/
def staleLibraryTtl : UInt64 := 30 * 24 * 60 * 60

def kindMeta : UInt8 := 1
def kindRecord : UInt8 := 2
def kindSourceIndex : UInt8 := 3
def kindParams : UInt8 := 4

def keyLen : Nat := 13

structure DiskClassEntry where
  name : UInt32
  package : UInt32
  kind : ClassKind
  flags : UInt16
  superClass : Option UInt32
  interfaces : List UInt32
  module_ : Option UInt32
deriving DecidableEq, Repr

structure DiskModuleEntry where
  name : UInt32
  flags : UInt16
  version : Option UInt32
deriving DecidableEq, Repr

structure MetaBlob where
  formatVersion : UInt32
  strings : List String
  entries : List DiskClassEntry
  modules : List DiskModuleEntry
  lastAccessed : UInt64
deriving DecidableEq, Repr

structure SourcesStamp where
  path : Option String
  len : UInt64
  mtime : UInt64
  decompiles : Bool
deriving DecidableEq, Repr

structure SourceIndexBlob where
  formatVersion : UInt32
  stamp : SourcesStamp
  entries : List (String × String)
deriving DecidableEq, Repr

/-- The serializer of payloads: `to_allocvec` of the blobs, `from_bytes` of the meta blob, and the
hash of a stamp. -/
structure Postcard where
  encodeMeta : MetaBlob → Option Bytes
  decodeMetaBlob : Bytes → Option MetaBlob
  encodeRecord : ClassOrModuleStub UInt32 → Option Bytes
  encodeSourceIndex : SourceIndexBlob → Option Bytes
  hashStamp : SourcesStamp → UInt64

/-! ### Keys -/

def key (library : LibraryId) (kind : UInt8) (idx : UInt32) : Bytes :=
  bigEndian 8 library.toNat ++ kind :: bigEndian 4 idx.toNat

def metaKey (library : LibraryId) : Bytes := key library kindMeta 0

def recordKey (library : LibraryId) (idx : UInt32) : Bytes := key library kindRecord idx

def hashedKey (library : LibraryId) (kind : UInt8) (hash : UInt64) : Bytes :=
  bigEndian 8 library.toNat ++ kind :: bigEndian 8 hash.toNat

/-- The keys that the cache writes. A parameter entry is keyed by the hash of its member. -/
inductive StoreKey where
  | meta_ (library : LibraryId)
  | record (library : LibraryId) (idx : UInt32)
  | sourceIndex (library : LibraryId) (hash : UInt64)
  | params (library : LibraryId) (hash : UInt64)
deriving DecidableEq, Repr

namespace StoreKey

def bytes : StoreKey → Bytes
  | .meta_ library => metaKey library
  | .record library idx => recordKey library idx
  | .sourceIndex library hash => hashedKey library kindSourceIndex hash
  | .params library hash => hashedKey library kindParams hash

def library : StoreKey → LibraryId
  | .meta_ library => library
  | .record library _ => library
  | .sourceIndex library _ => library
  | .params library _ => library

end StoreKey

/-! ### Transactions -/

/-- The range from the first key of a library to the first key of the id after it, which wraps. -/
def deleteLibraryRange (store : ByteStore) (library : LibraryId) : ByteStore × Nat :=
  store.deleteRange (metaKey library) (metaKey (library + 1))

/-- The keys of one kind of a library that end in a hash. -/
def deleteHashedKind (store : ByteStore) (library : LibraryId) (kind : UInt8) : ByteStore × Nat :=
  store.deleteRange (hashedKey library kind 0) (hashedKey library (kind + 1) 0)

section Transactions

variable (postcard : Postcard)

/-- The records from `idx` on. A record that does not encode, or an index beyond 32 bits, ends the
transaction. -/
def putRecords (library : LibraryId) : Nat → List (ClassOrModuleStub UInt32) → ByteStore →
    Option ByteStore
  | _, [], store => some store
  | idx, record :: records, store =>
      if idx < 2 ^ 32 then
        match postcard.encodeRecord record with
        | none => none
        | some payload =>
            putRecords library (idx + 1) records
              (store.put (recordKey library (UInt32.ofNat idx)) payload)
      else none

/-- What is committed, if the transaction is not given up. -/
def writeLibrary (store : ByteStore) (library : LibraryId) (blob : MetaBlob)
    (records : List (ClassOrModuleStub UInt32)) : Option ByteStore :=
  match postcard.encodeMeta blob with
  | none => none
  | some payload =>
      putRecords postcard library 0 records
        ((deleteLibraryRange store library).1.put (metaKey library) payload)

def clearLibrary (store : ByteStore) (library : LibraryId) : ByteStore :=
  (deleteLibraryRange store library).1

def writeSourceIndex (store : ByteStore) (library : LibraryId) (blob : SourceIndexBlob) :
    Option ByteStore :=
  match postcard.encodeSourceIndex blob with
  | none => none
  | some payload =>
      some ((deleteHashedKind store library kindSourceIndex).1.put
        (hashedKey library kindSourceIndex (postcard.hashStamp blob.stamp)) payload)

def decodeMeta (bytes : Bytes) : Option MetaBlob :=
  match postcard.decodeMetaBlob bytes with
  | none => none
  | some blob => if blob.formatVersion ≠ cacheFormatVersion then none else some blob

def readMeta (store : ByteStore) (library : LibraryId) : Option MetaBlob :=
  (store.get (metaKey library)).bind (decodeMeta postcard)

/-- One library of `touch_libraries`: a meta blob that decodes gets the new stamp. -/
def touchLibrary (now : UInt64) (store : ByteStore) (library : LibraryId) : ByteStore :=
  match store.get (metaKey library) with
  | none => store
  | some bytes =>
      match decodeMeta postcard bytes with
      | none => store
      | some blob =>
          match postcard.encodeMeta { blob with lastAccessed := now } with
          | none => store
          | some payload => store.put (metaKey library) payload

def touchLibraries (store : ByteStore) (now : UInt64) (libraries : List LibraryId) : ByteStore :=
  libraries.foldl (touchLibrary postcard now) store

/-! ### Pruning -/

/-- `unix_now().saturating_sub(STALE_LIBRARY_TTL)`. -/
def pruneCutoff (now : UInt64) : UInt64 := if now < staleLibraryTtl then 0 else now - staleLibraryTtl

/-- Whether a library with this meta blob goes. -/
def prunes (cutoff : UInt64) (live : LibraryId → Bool) (library : LibraryId) (value : Bytes) : Bool :=
  match decodeMeta postcard value with
  | some blob => decide (blob.lastAccessed < cutoff) && !live library
  | none => !live library

/-- The loop over the entries of the snapshot, `seen` being the last library met. -/
def scanStale (cutoff : UInt64) (live : LibraryId → Bool) : Option LibraryId →
    List (Bytes × Bytes) → List LibraryId
  | _, [] => []
  | seen, (key, value) :: rest =>
      if key.length ≠ keyLen ∨ key[8]? ≠ some kindMeta then scanStale cutoff live seen rest
      else
        let library := UInt64.ofNat (ofBigEndian (key.take 8))
        if seen = some library then scanStale cutoff live seen rest
        else if prunes postcard cutoff live library value then
          library :: scanStale cutoff live (some library) rest
        else scanStale cutoff live (some library) rest

/-- The read transaction of `prune_stale`. -/
def staleLibraries (store : ByteStore) (cutoff : UInt64) (live : LibraryId → Bool) : List LibraryId :=
  scanStale postcard cutoff live none store.entries

end Transactions

/-- The write transaction of `prune_stale`: the store after it, and each library of which entries were
deleted with the store it was deleted from. -/
def pruneLibraries : List LibraryId → ByteStore → ByteStore × List (LibraryId × ByteStore)
  | [], store => (store, [])
  | library :: stale, store =>
      let (after, count) := deleteLibraryRange store library
      let (final, pruned) := pruneLibraries stale after
      (final, if 0 < count then (library, store) :: pruned else pruned)

/-! ### Sessions -/

/-- The transactions of other sessions that change meta blobs. -/
inductive Transaction where
  | write (library : LibraryId) (blob : MetaBlob) (records : List (ClassOrModuleStub UInt32))
  | touch (libraries : List LibraryId) (now : UInt64)

def Transaction.apply (postcard : Postcard) (store : ByteStore) : Transaction → ByteStore
  | .write library blob records => (writeLibrary postcard store library blob records).getD store
  | .touch libraries now => touchLibraries postcard store now libraries

def commitAll (postcard : Postcard) : List Transaction → ByteStore → ByteStore
  | [], store => store
  | first :: rest, store => commitAll postcard rest (first.apply postcard store)

/-- `prune_stale` started in `store` at the time `now`, with the transactions `between` committed
between its read transaction and its write transaction. -/
def pruneStale (postcard : Postcard) (live : LibraryId → Bool) (now : UInt64)
    (between : List Transaction) (store : ByteStore) : ByteStore × List (LibraryId × ByteStore) :=
  pruneLibraries (staleLibraries postcard store (pruneCutoff now) live)
    (commitAll postcard between store)

end CaffeineLs.Hir
