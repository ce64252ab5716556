/-
Module: CaffeineLs.Server.Progress
Purpose: The work-done progress of the server: the tokens it asks the client to create, the events
  buffered until the client answers, and the notifications sent.
Trusted boundary: `outgoing` of the request queue is a map by request id whose ids are counted up
Main exports: ProgressEvent, ProgressTokenState, ProgressServer
-/
import CaffeineLs.Lib.Reactive

namespace CaffeineLs.Server

inductive ProgressState where
  | begin | report | end_
deriving DecidableEq, Repr

structure ProgressEvent where
  token : String
  title : String
  message : Option String
  percentage : Option UInt32
  state : ProgressState
deriving DecidableEq, Repr

/-- Lifecycle of a progress token on the client side. -/
inductive ProgressTokenState where
  /-- A create request is in flight; events are buffered until the client acknowledges it. -/
  | creating (events : List ProgressEvent)
  | active
deriving DecidableEq, Repr

/-- The value of a `$/progress` notification. -/
inductive WorkDone where
  | begin (title : String) (message : Option String) (percentage : Option UInt32)
      (cancellable : Option Bool)
  | report (message : Option String) (percentage : Option UInt32) (cancellable : Option Bool)
  | end_ (message : Option String)
deriving DecidableEq, Repr

def WorkDone.state : WorkDone → ProgressState
  | .begin .. => .begin
  | .report .. => .report
  | .end_ _ => .end_

/-- What the server sends. -/
inductive Message where
  | create (id : Nat) (token : String)
  | progress (token : String) (value : WorkDone)
  | request (id : Nat)
deriving DecidableEq, Repr

/-- `OutgoingRequest`; the kinds that concern no progress token are one. -/
inductive OutgoingRequest where
  | createProgress (token : String)
  | other
deriving DecidableEq, Repr

structure ProgressServer where
  /-- The client capability `window.workDoneProgress`. -/
  workDoneProgress : Bool
  progressTokens : String → Option ProgressTokenState
  outgoing : List (Nat × OutgoingRequest)
  nextRequestId : Nat

def initial (workDoneProgress : Bool) : ProgressServer :=
  ⟨workDoneProgress, fun _ => none, [], 0⟩

/-- What reaches the server: an event of a worker, an answer of the client, and the occasion of another
request to the client. -/
inductive Input where
  | progress (event : ProgressEvent)
  | response (id : Nat) (accepted : Bool)
  | request
deriving DecidableEq, Repr

def workDone (event : ProgressEvent) : WorkDone :=
  match event.state with
  | .begin => .begin event.title event.message event.percentage (some false)
  | .report => .report event.message event.percentage (some false)
  | .end_ => .end_ event.message

/-- `report_progress_impl`. -/
def notification (event : ProgressEvent) : Message :=
  .progress event.token (workDone event)

namespace ProgressServer

def setToken (s : ProgressServer) (token : String) (state : Option ProgressTokenState) :
    ProgressServer :=
  { s with progressTokens := fun other => if other = token then state else s.progressTokens other }

/-- `send_request`: the id under which the request is registered. -/
def register (s : ProgressServer) (request : OutgoingRequest) : ProgressServer :=
  { s with
    outgoing := s.outgoing ++ [(s.nextRequestId, request)]
    nextRequestId := s.nextRequestId + 1 }

/-- The end that closes a cycle before the token is created anew. -/
def closing (token : String) : ProgressEvent :=
  ⟨token, "", none, none, .end_⟩

def reportProgress (s : ProgressServer) (event : ProgressEvent) : ProgressServer × List Message :=
  if s.workDoneProgress = false then (s, [])
  else
    match event.state with
    | .begin =>
        let closed := match s.progressTokens event.token with
          | some .active => [notification (closing event.token)]
          | _ => []
        ((s.setToken event.token (some (.creating [event]))).register (.createProgress event.token),
          closed ++ [.create s.nextRequestId event.token])
    | state =>
        match s.progressTokens event.token with
        | some (.creating events) => (s.setToken event.token (some (.creating (events ++ [event]))), [])
        | _ => (if state = .end_ then s.setToken event.token none else s, [notification event])

def flushProgress (s : ProgressServer) (token : String) : ProgressServer × List Message :=
  match s.progressTokens token with
  | some (.creating events) => (s.setToken token (some .active), events.map notification)
  | _ => (s.setToken token none, [])

/-- `complete_request`: an answer to a request that is not in flight is ignored. -/
def completeRequest (s : ProgressServer) (id : Nat) (accepted : Bool) :
    ProgressServer × List Message :=
  match s.outgoing.find? fun entry => entry.1 = id with
  | none => (s, [])
  | some (_, request) =>
      let s := { s with outgoing := s.outgoing.filter fun entry => entry.1 ≠ id }
      match request with
      | .createProgress token =>
          if accepted = true then s.flushProgress token else (s.setToken token none, [])
      | .other => (s, [])

def react (s : ProgressServer) : Input → ProgressServer × List Message
  | .progress event => s.reportProgress event
  | .response id accepted => s.completeRequest id accepted
  | .request => (s.register .other, [.request s.nextRequestId])

end ProgressServer

end CaffeineLs.Server
