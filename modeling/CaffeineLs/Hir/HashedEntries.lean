/-
Module: CaffeineLs.Hir.HashedEntries
Purpose: The entries of the stub cache that are keyed by hashes: the source layouts of libraries and the
  parameter names of members, as they are written and read back.
Trusted boundary: as in CaffeineLs.Hir.LmdbStore; the hash of a member is a parameter too
Main exports: ParamsBlob, HashedPostcard, readSourceIndex
-/
import CaffeineLs.Hir.LmdbStore

namespace CaffeineLs.Hir

structure ParamsBlob where
  formatVersion : UInt32
  class_ : String
  method : String
  descriptor : String
  names : Option (List String)
deriving DecidableEq, Repr

/-- The serializer of the hashed entries too, and the hash of the class, the method and the descriptor
of a member. -/
structure HashedPostcard extends Postcard where
  decodeSourceIndexBlob : Bytes → Option SourceIndexBlob
  encodeParams : ParamsBlob → Option Bytes
  decodeParamsBlob : Bytes → Option ParamsBlob
  hashMember : String → String → String → UInt64

/-- `decode`: a payload of the current layout. -/
def decodeCurrent {α : Type} (formatVersion : α → UInt32) (fromBytes : Bytes → Option α)
    (bytes : Bytes) : Option α :=
  match fromBytes bytes with
  | none => none
  | some blob => if formatVersion blob = cacheFormatVersion then some blob else none

section Entries

variable (postcard : HashedPostcard)

def readSourceIndex (store : ByteStore) (library : LibraryId) (stamp : SourcesStamp) :
    Option SourceIndexBlob :=
  (store.get (hashedKey library kindSourceIndex (postcard.hashStamp stamp))).bind
    (decodeCurrent SourceIndexBlob.formatVersion postcard.decodeSourceIndexBlob)

/-- The hash in the key of a member's answer. -/
def paramsHash (stamp : SourcesStamp) (class_ method descriptor : String) : UInt64 :=
  postcard.hashStamp stamp ^^^ postcard.hashMember class_ method descriptor

def paramsKey (library : LibraryId) (stamp : SourcesStamp) (class_ method descriptor : String) :
    Bytes :=
  hashedKey library kindParams (paramsHash postcard stamp class_ method descriptor)

def readParams (store : ByteStore) (library : LibraryId) (stamp : SourcesStamp)
    (class_ method descriptor : String) : Option ParamsBlob :=
  match (store.get (paramsKey postcard library stamp class_ method descriptor)).bind
      (decodeCurrent ParamsBlob.formatVersion postcard.decodeParamsBlob) with
  | none => none
  | some blob =>
    if blob.class_ = class_ ∧ blob.method = method ∧ blob.descriptor = descriptor then some blob
    else none

/-- What is committed, if the blob encodes. -/
def writeParams (store : ByteStore) (library : LibraryId) (stamp : SourcesStamp)
    (blob : ParamsBlob) : Option ByteStore :=
  match postcard.encodeParams blob with
  | none => none
  | some payload =>
    some (store.put (paramsKey postcard library stamp blob.class_ blob.method blob.descriptor) payload)

/-- A call that writes a hashed entry. -/
inductive CacheWrite where
  | sourceIndex (library : LibraryId) (blob : SourceIndexBlob)
  | params (library : LibraryId) (stamp : SourcesStamp) (blob : ParamsBlob)

/-- A call that fails leaves the store as it was. -/
def CacheWrite.apply (store : ByteStore) : CacheWrite → ByteStore
  | .sourceIndex library blob =>
      (writeSourceIndex postcard.toPostcard store library blob).getD store
  | .params library stamp blob => (writeParams postcard store library stamp blob).getD store

/-- The store after the calls of a history, the first one first. -/
def afterWrites (history : List CacheWrite) : ByteStore :=
  history.foldl (CacheWrite.apply postcard) ByteStore.empty

end Entries

end CaffeineLs.Hir
