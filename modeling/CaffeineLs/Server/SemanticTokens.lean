/-
Module: CaffeineLs.Server.SemanticTokens
Purpose: Semantic-token streams: the cache of the streams last sent, the edit between two streams, the
  two request handlers, and a client that keeps streams by result id.
Trusted boundary: the tokens of a document are an input, as `encode_tokens` reads them off a snapshot;
  the map of the cache is a map by file id; the counter wraps as a `u64`
Main exports: SemanticToken, flatten, deltaEdits
-/
import CaffeineLs.Lib.ListDiff
import CaffeineLs.Lib.Reactive

namespace CaffeineLs.Server.SemanticTokens

open ListDiff

structure SemanticToken where
  deltaLine : UInt32
  deltaStart : UInt32
  length : UInt32
  tokenType : UInt32
  tokenModifiersBitset : UInt32
deriving DecidableEq, Repr

/-- The five numbers of a token in the flat `data` array. -/
def SemanticToken.data (token : SemanticToken) : List UInt32 :=
  [token.deltaLine, token.deltaStart, token.length, token.tokenType, token.tokenModifiersBitset]

/-- The flat array of a token stream. -/
def flatten (tokens : List SemanticToken) : List UInt32 := tokens.flatMap (·.data)

structure SemanticTokensEdit where
  start : UInt32
  deleteCount : UInt32
  data : Option (List UInt32)
deriving DecidableEq, Repr

/-- `as u32`. -/
def asU32 (n : Nat) : UInt32 := UInt32.ofNat n

/-- The one edit that turns `old` into `new`, or none when the two are equal. -/
def deltaEdits (old new : List SemanticToken) : List SemanticTokensEdit :=
  let front := sharedPrefix old new
  let back := sharedSuffix (old.drop front) (new.drop front)
  if front + back = old.length ∧ front + back = new.length then []
  else
    let data := flatten ((new.drop front).take (new.length - back - front))
    [{ start := asU32 (front * 5)
       deleteCount := asU32 ((old.length - front - back) * 5)
       data := if data.isEmpty then none else some data }]

/-- What a client does with an edit: delete from its start and put the data there. -/
def applyEdits (flat : List UInt32) (edits : List SemanticTokensEdit) : List UInt32 :=
  edits.foldl (fun flat edit =>
    splice flat edit.start.toNat edit.deleteCount.toNat (edit.data.getD [])) flat

/-! ### The cache -/

abbrev FileId := Nat

structure DocumentTokens where
  resultId : String
  tokens : List SemanticToken
deriving DecidableEq, Repr

structure DeltaCache where
  nextId : UInt64
  documents : FileId → Option DocumentTokens

namespace DeltaCache

def initial : DeltaCache := { nextId := 0, documents := fun _ => none }

/-- Records the tokens as the document's current stream under a fresh result id. -/
def store (cache : DeltaCache) (fileId : FileId) (tokens : List SemanticToken) :
    DeltaCache × String :=
  let nextId := cache.nextId + 1
  let resultId := Nat.repr nextId.toNat
  ({ nextId := nextId
     documents := fun file =>
       if file = fileId then some { resultId := resultId, tokens := tokens }
       else cache.documents file }, resultId)

/-- The stream the client's id names for the document. -/
def previous (cache : DeltaCache) (fileId : FileId) (previousResultId : String) :
    Option (List SemanticToken) :=
  match cache.documents fileId with
  | some document =>
      if document.resultId = previousResultId then some document.tokens else none
  | none => none

def forget (cache : DeltaCache) (fileId : FileId) : DeltaCache :=
  { cache with documents := fun file => if file = fileId then none else cache.documents file }

end DeltaCache

/-! ### The requests -/

/-- A stream in full, or the edits of one. -/
inductive TokensResponse where
  | full (resultId : String) (data : List SemanticToken)
  | delta (resultId : String) (edits : List SemanticTokensEdit)
deriving DecidableEq, Repr

/-- What `encode_tokens` finds: nothing for a document the server does not hold. -/
abbrev Encoded := Option (FileId × List SemanticToken)

def onSemanticTokens (cache : DeltaCache) (encoded : Encoded) : DeltaCache × Option TokensResponse :=
  match encoded with
  | none => (cache, none)
  | some (fileId, tokens) =>
      let stored := cache.store fileId tokens
      (stored.1, some (.full stored.2 tokens))

def onSemanticTokensDelta (cache : DeltaCache) (previousResultId : String) (encoded : Encoded) :
    DeltaCache × Option TokensResponse :=
  match encoded with
  | none => (cache, none)
  | some (fileId, tokens) =>
      match cache.previous fileId previousResultId with
      | none =>
          -- Nothing to diff against: a fresh stream.
          let stored := cache.store fileId tokens
          (stored.1, some (.full stored.2 tokens))
      | some old =>
          let edits := deltaEdits old tokens
          let stored := cache.store fileId tokens
          (stored.1, some (.delta stored.2 edits))

/-! ### Sessions -/

/-- A response on its way, with the result id its request named. -/
structure Sent where
  named : Option String
  response : TokensResponse
deriving DecidableEq, Repr

/-- The streams a client holds, by the result id it knows them under. -/
abbrev Streams := String → Option (List UInt32)

def Streams.set (streams : Streams) (resultId : String) (flat : List UInt32) : Streams :=
  fun id => if id = resultId then some flat else streams id

/-- A full stream is taken as it is; edits are applied to the stream the request named. -/
def Streams.receive (streams : Streams) (sent : Sent) : Streams :=
  match sent.response with
  | .full resultId data => streams.set resultId (flatten data)
  | .delta resultId edits =>
      match sent.named.bind streams with
      | some flat => streams.set resultId (applyEdits flat edits)
      | none => streams

structure Session where
  cache : DeltaCache
  inFlight : List Sent
  streams : Streams

inductive Input where
  | full (encoded : Encoded)
  | delta (previousResultId : String) (encoded : Encoded)
  | close (fileId : FileId)
  | deliver (place : Nat)
  | drop (place : Nat)

def initial : Session := { cache := .initial, inFlight := [], streams := fun _ => none }

def Session.answered (s : Session) (named : Option String)
    (handled : DeltaCache × Option TokensResponse) : Session × List TokensResponse :=
  ({ s with
      cache := handled.1
      inFlight := s.inFlight ++ handled.2.toList.map fun response => ⟨named, response⟩ },
    handled.2.toList)

/-- One step: a worker answers a request under the lock of the cache, a document is closed, or a response
comes through or is lost. -/
def react (s : Session) : Input → Session × List TokensResponse
  | .full encoded => s.answered none (onSemanticTokens s.cache encoded)
  | .delta named encoded => s.answered (some named) (onSemanticTokensDelta s.cache named encoded)
  | .close fileId => ({ s with cache := s.cache.forget fileId }, [])
  | .deliver place =>
      match s.inFlight[place]? with
      | some sent =>
          ({ s with inFlight := s.inFlight.eraseIdx place, streams := s.streams.receive sent }, [])
      | none => (s, [])
  | .drop place => ({ s with inFlight := s.inFlight.eraseIdx place }, [])

end CaffeineLs.Server.SemanticTokens
