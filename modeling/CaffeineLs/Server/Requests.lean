/-
Module: CaffeineLs.Server.Requests
Purpose: The life of a client request: dispatch, the runs of its worker, retries and deferrals, the
  client's cancellation, and the response.
Trusted boundary: `incoming` of the request queue is a map by request id; a worker's result and the
  parse of parameters are inputs; background events reach the main loop in the order they are sent
Main exports: RequestServer, Input, react
-/
import CaffeineLs.Lib.Reactive

namespace CaffeineLs.Server.Requests

inductive RequestId where
  | int (n : Int)
  | str (s : String)
deriving DecidableEq, Repr

structure Request where
  id : RequestId
  method : String
  /-- What `from_value` says of the parameters, read at the type of the method; `none` is success. -/
  paramsError : Option String
deriving DecidableEq, Repr

inductive ErrorCode where
  | invalidParams | methodNotFound | internalError | requestCanceled
deriving DecidableEq, Repr

/-- The result of a response: a serialized value, or an error. -/
inductive ResponseResult where
  | ok (value : String)
  | err (code : ErrorCode) (message : String)
deriving DecidableEq, Repr

structure Response where
  id : RequestId
  result : ResponseResult
deriving DecidableEq, Repr

/-- The identity of a cancellation token: its clones share one flag. -/
abbrev Token := Nat

/-- A closure that runs the worker of a request once. -/
structure PendingRequest where
  id : RequestId
  allowDefer : Bool
deriving DecidableEq, Repr

/-- A closure on the thread pool, with the token of its snapshot. -/
structure Run where
  pending : PendingRequest
  token : Token
deriving DecidableEq, Repr

/-- What a worker returns. -/
inductive WorkerResult where
  | ok (value : String)
  | pendingWrite
  | clientCancelled
  /-- `Cancelled::PropagatedPanic`, with the serialized error that stands in for a value. -/
  | propagatedPanic (lspError : String)
  /-- `DeferForLibraryFiles`: whether some of the files must be decompiled. -/
  | deferForLibraryFiles (decompiles : Bool)
  | error (message : String)
deriving DecidableEq, Repr

/-- The background events that concern requests. -/
inductive TaskEvent where
  | asyncRequestCompleted (id : RequestId) (result : ResponseResult)
  | asyncRequestRetry (run : PendingRequest)
  | asyncRequestAborted (id : RequestId)
  | loadLibraryFiles (decompiles : Bool) (retry : PendingRequest)
  | libraryDecompiled (retry : PendingRequest)
deriving DecidableEq, Repr

def TaskEvent.id : TaskEvent → RequestId
  | .asyncRequestCompleted id _ => id
  | .asyncRequestRetry run => run.id
  | .asyncRequestAborted id => id
  | .loadLibraryFiles _ retry => retry.id
  | .libraryDecompiled retry => retry.id

/-- What `retry_closure` sends to the main loop for a worker's result. -/
def report (run : PendingRequest) : WorkerResult → TaskEvent
  | .ok value => .asyncRequestCompleted run.id (.ok value)
  | .pendingWrite => .asyncRequestRetry run
  | .clientCancelled => .asyncRequestAborted run.id
  | .propagatedPanic lspError => .asyncRequestCompleted run.id (.ok lspError)
  | .deferForLibraryFiles decompiles =>
      if run.allowDefer = true then .loadLibraryFiles decompiles ⟨run.id, false⟩
      else .asyncRequestCompleted run.id (.ok "null")
  | .error message => .asyncRequestCompleted run.id (.err .internalError message)

inductive HandlerKind where
  | on | onAsync
deriving DecidableEq, Repr

/-- The chain of `handle_request`. -/
def handlers : List (String × HandlerKind) :=
  [("shutdown", .on),
    ("textDocument/diagnostic", .onAsync),
    ("workspace/diagnostic", .onAsync),
    ("textDocument/documentSymbol", .onAsync),
    ("workspace/symbol", .onAsync),
    ("workspaceSymbol/resolve", .onAsync),
    ("textDocument/definition", .onAsync),
    ("textDocument/references", .onAsync),
    ("textDocument/hover", .onAsync),
    ("textDocument/inlayHint", .onAsync),
    ("inlayHint/resolve", .onAsync),
    ("textDocument/semanticTokens/full", .onAsync),
    ("textDocument/semanticTokens/full/delta", .onAsync),
    ("textDocument/semanticTokens/range", .onAsync),
    ("caffeine_ls/libraryFileContent", .onAsync)]

structure RequestServer where
  /-- The requests without a response, with their methods. -/
  incoming : RequestId → Option String
  inflightCancellations : RequestId → Option Token
  /-- The flags of the tokens. -/
  cancelled : Token → Bool
  nextToken : Token
  pendingRequests : List PendingRequest
  /-- The thread pool: the runs that have not reported, and the decompilations under way. -/
  running : List Run
  decompiling : List PendingRequest
  /-- The events that the main loop has not handled. -/
  tasks : List TaskEvent

def initial : RequestServer :=
  ⟨fun _ => none, fun _ => none, fun _ => false, 0, [], [], [], []⟩

/-- What happens next, in any order. -/
inductive Input where
  | request (req : Request)
  /-- `$/cancelRequest`. -/
  | cancelRequest (id : RequestId)
  /-- The run at this place on the pool reports. -/
  | worker (place : Nat) (result : WorkerResult)
  /-- The decompilation at this place on the pool is done. -/
  | decompiled (place : Nat)
  /-- The main loop takes the next background event; whether a decompiler is configured for a loaded
  workspace. -/
  | task (decompiler : Bool)
  /-- Any other message or event of the main loop. -/
  | other
deriving DecidableEq, Repr

namespace RequestServer

def setIncoming (s : RequestServer) (id : RequestId) (entry : Option String) : RequestServer :=
  { s with incoming := fun other => if other = id then entry else s.incoming other }

def setCancellation (s : RequestServer) (id : RequestId) (token : Option Token) :
    RequestServer :=
  { s with
    inflightCancellations := fun other =>
      if other = id then token else s.inflightCancellations other }

/-- `respond_ok` and `respond_err`: an entry that is gone was answered before. -/
def respond (s : RequestServer) (id : RequestId) (result : ResponseResult) :
    RequestServer × List Response :=
  match s.incoming id with
  | none => (s, [])
  | some _ => (s.setIncoming id none, [⟨id, result⟩])

def replyNotImplemented (s : RequestServer) (req : Request) : RequestServer × List Response :=
  (s, [⟨req.id, .err .methodNotFound ("Method not implemented: " ++ req.method)⟩])

/-- `on_async` after the parse: the token is registered, and the run is on the pool with it. -/
def spawn (s : RequestServer) (req : Request) : RequestServer :=
  { s.setCancellation req.id (some s.nextToken) with
    nextToken := s.nextToken + 1
    running := s.running ++ [⟨⟨req.id, true⟩, s.nextToken⟩] }

/-- The chain of dispatchers: the first of the request's method takes it, and `finish` what is left. -/
def dispatch (s : RequestServer) (req : Request) :
    List (String × HandlerKind) → RequestServer × List Response
  | [] => s.replyNotImplemented req
  | (method, kind) :: rest =>
      if req.method ≠ method then s.dispatch req rest
      else
        match req.paramsError, kind with
        | some err, _ =>
            s.respond req.id (.err .invalidParams ("Invalid params for " ++ method ++ ": " ++ err))
        | none, .on => s.respond req.id (.ok "null")
        | none, .onAsync => (s.spawn req, [])

def handleRequest (s : RequestServer) (req : Request) : RequestServer × List Response :=
  (s.setIncoming req.id (some req.method)).dispatch req handlers

/-- The closures run again, each on a fresh snapshot with a fresh token. -/
def startAll (s : RequestServer) : List PendingRequest → RequestServer
  | [] => s
  | run :: rest =>
      startAll
        { s with
          nextToken := s.nextToken + 1
          running := s.running ++ [⟨run, s.nextToken⟩] }
        rest

def runPendingRequests (s : RequestServer) : RequestServer :=
  startAll { s with pendingRequests := [] } s.pendingRequests

def queue (s : RequestServer) (run : PendingRequest) : RequestServer :=
  { s with pendingRequests := s.pendingRequests ++ [run] }

def cancel (s : RequestServer) (id : RequestId) : RequestServer × List Response :=
  let flipped : RequestServer := match s.inflightCancellations id with
    | some token =>
        { s with cancelled := fun other => if other = token then true else s.cancelled other }
    | none => s
  flipped.respond id (.err .requestCanceled "canceled by client")

def handleTask (s : RequestServer) (decompiler : Bool) :
    TaskEvent → RequestServer × List Response
  | .asyncRequestCompleted id result => (s.setCancellation id none).respond id result
  | .asyncRequestRetry run => ((s.setCancellation run.id none).queue run, [])
  | .asyncRequestAborted id => (s.setCancellation id none, [])
  | .loadLibraryFiles decompiles retry =>
      if decompiles = true ∧ decompiler = true then
        ({ s with decompiling := s.decompiling ++ [retry] }, [])
      else (s.queue retry, [])
  | .libraryDecompiled retry => (s.queue retry, [])

/-- The end of every turn of the main loop. -/
def endTurn (handled : RequestServer × List Response) : RequestServer × List Response :=
  (handled.1.runPendingRequests, handled.2)

def react (s : RequestServer) : Input → RequestServer × List Response
  | .request req => endTurn (s.handleRequest req)
  | .cancelRequest id => endTurn (s.cancel id)
  | .task decompiler =>
      match s.tasks with
      | [] => (s, [])
      | event :: rest => endTurn ({ s with tasks := rest }.handleTask decompiler event)
  | .other => endTurn (s, [])
  | .worker place result =>
      match s.running[place]? with
      | none => (s, [])
      | some run =>
          ({ s with
            running := s.running.eraseIdx place
            tasks := s.tasks ++ [report run.pending result] }, [])
  | .decompiled place =>
      match s.decompiling[place]? with
      | none => (s, [])
      | some retry =>
          ({ s with
            decompiling := s.decompiling.eraseIdx place
            tasks := s.tasks ++ [.libraryDecompiled retry] }, [])

end RequestServer

end CaffeineLs.Server.Requests
