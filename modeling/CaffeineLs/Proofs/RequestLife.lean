/-
Module: CaffeineLs.Proofs.RequestLife
Purpose: When every client request gets exactly one response, and when a cancellation reaches every run
  of the request.
Trusted boundary: none
Main exports: Possible, one_response_iff, cancelled_runs_iff
-/
import CaffeineLs.Server.Requests

namespace CaffeineLs.Server.Requests

open Reactive RequestServer

abbrev Past := History Input Response

/-! ### What happened to a request -/

def requests : Past → List Request
  | [] => []
  | step :: earlier =>
      match step.input with
      | .request req => req :: requests earlier
      | _ => requests earlier

def Requested (id : RequestId) (past : Past) : Prop :=
  ∃ req ∈ requests past, req.id = id

/-- The number of responses sent for the id. -/
def responses (id : RequestId) : Past → Nat
  | [] => 0
  | step :: earlier => step.outputs.countP (·.id = id) + responses id earlier

/-- A cancellation of the request was handled after the request. -/
def CancelHandled (id : RequestId) : Past → Prop
  | [] => False
  | step :: earlier =>
      (step.input = .cancelRequest id ∧ Requested id earlier) ∨ CancelHandled id earlier

/-- A method that the chain of dispatchers knows. -/
def Known (method : String) : Prop :=
  ∃ handler ∈ handlers, handler.1 = method

/-- The client uses no id twice, and a handler returns `ClientCancelled` only where it saw the token of
its snapshot cancelled. -/
def Possible (past : Past) (s : RequestServer) : Input → Prop
  | .request req => ¬ Requested req.id past
  | .worker place .clientCancelled =>
      ∀ run, s.running[place]? = some run → s.cancelled run.token = true
  | _ => True

/-- The runs, decompilations, events and closures that are left of a request. -/
def inFlight (s : RequestServer) (id : RequestId) : Nat :=
  s.running.countP (·.pending.id = id) + s.decompiling.countP (·.id = id) +
    s.tasks.countP (·.id = id) + s.pendingRequests.countP (·.id = id)

/-! ### The states of a request -/

/-- At most one thing is left of a request. A known one is answered once, and until then something is
left of it. An unknown one is answered at once, and again when it is cancelled. -/
structure Lives (past : Past) (s : RequestServer) : Prop where
  once : ∀ id, inFlight s id ≤ 1
  unseen : ∀ id, ¬ Requested id past →
    s.incoming id = none ∧ responses id past = 0 ∧ inFlight s id = 0
  known : ∀ req ∈ requests past, Known req.method →
    s.incoming req.id = none ∧ responses req.id past = 1 ∨
      s.incoming req.id ≠ none ∧ responses req.id past = 0 ∧ 0 < inFlight s req.id
  unknown : ∀ req ∈ requests past, ¬ Known req.method → inFlight s req.id = 0 ∧
    (s.incoming req.id ≠ none ∧ responses req.id past = 1 ∧ ¬ CancelHandled req.id past ∨
      s.incoming req.id = none ∧ responses req.id past = 2 ∧ CancelHandled req.id past)

/-- A registered token is that of no other request's run. A cancelled token is registered for the
request of its run, whose response is sent. -/
structure Tokens (s : RequestServer) : Prop where
  fresh : ∀ run ∈ s.running, run.token < s.nextToken
  issued : ∀ id token, s.inflightCancellations id = some token → token < s.nextToken
  cold : ∀ token, s.nextToken ≤ token → s.cancelled token = false
  owned : ∀ id token, s.inflightCancellations id = some token →
    ∀ run ∈ s.running, run.token = token → run.pending.id = id
  stopped : ∀ run ∈ s.running, s.cancelled run.token = true →
    s.incoming run.pending.id = none ∧
      s.inflightCancellations run.pending.id = some run.token
  aborted : ∀ id, .asyncRequestAborted id ∈ s.tasks → s.incoming id = none

theorem lives_initial : Lives [] initial where
  once _ := Nat.zero_le _
  unseen _ _ := ⟨rfl, rfl, rfl⟩
  known := nofun
  unknown := nofun

theorem tokens_initial : Tokens initial where
  fresh := nofun
  issued := nofun
  cold _ _ := rfl
  owned := nofun
  stopped := nofun
  aborted := nofun

theorem countP_eraseIdx {α : Type} (p : α → Bool) {l : List α} {i : Nat} {a : α}
    (at_i : l[i]? = some a) :
    (l.eraseIdx i).countP p + (if p a = true then 1 else 0) = l.countP p := by
  induction l generalizing i with
  | nil => simp at at_i
  | cons b rest ih =>
      cases i with
      | zero =>
          obtain rfl := Option.some.inj at_i
          simp [List.countP_cons]
      | succ i =>
          have later := ih (i := i) (by simpa using at_i)
          simp only [List.eraseIdx_cons_succ, List.countP_cons]
          omega

/-! ### Parts of a turn -/

theorem inFlight_startAll (runs : List PendingRequest) (s : RequestServer) (id : RequestId) :
    inFlight (s.startAll runs) id = inFlight s id + runs.countP (·.id = id) := by
  induction runs generalizing s with
  | nil => rfl
  | cons run rest ih =>
      unfold startAll
      rw [ih]
      simp only [inFlight, List.countP_append, List.countP_cons, List.countP_nil]
      omega

@[simp] theorem inFlight_runPendingRequests (s : RequestServer) (id : RequestId) :
    inFlight s.runPendingRequests id = inFlight s id := by
  unfold runPendingRequests
  rw [inFlight_startAll]
  simp [inFlight]

@[simp] theorem incoming_startAll (runs : List PendingRequest) (s : RequestServer) :
    (s.startAll runs).incoming = s.incoming := by
  induction runs generalizing s with
  | nil => rfl
  | cons run rest ih =>
      unfold startAll
      rw [ih]

theorem tokens_startAll (runs : List PendingRequest) {s : RequestServer} (tokens : Tokens s) :
    Tokens (s.startAll runs) := by
  induction runs generalizing s with
  | nil => exact tokens
  | cons run rest ih =>
      apply ih
      have unregistered (id : RequestId) :
          s.inflightCancellations id ≠ some s.nextToken :=
        fun registered => Nat.lt_irrefl _ (tokens.issued id s.nextToken registered)
      exact {
        fresh := by
          intro other member
          rcases List.mem_append.mp member with old | new
          · exact Nat.lt_succ_of_lt (tokens.fresh other old)
          · obtain rfl := List.mem_singleton.mp new
            exact Nat.lt_succ_self _
        issued := fun id token registered => Nat.lt_succ_of_lt (tokens.issued id token registered)
        cold := fun token above => tokens.cold token (Nat.le_of_succ_le above)
        owned := by
          intro id token registered other member same
          rcases List.mem_append.mp member with old | new
          · exact tokens.owned id token registered other old same
          · obtain rfl := List.mem_singleton.mp new
            obtain rfl : s.nextToken = token := same
            exact absurd registered (unregistered id)
        stopped := by
          intro other member cancelled
          rcases List.mem_append.mp member with old | new
          · exact tokens.stopped other old cancelled
          · obtain rfl := List.mem_singleton.mp new
            have cold : s.cancelled s.nextToken = false := tokens.cold _ (Nat.le_refl _)
            exact absurd cancelled (by simp [cold])
        aborted := tokens.aborted
      }

theorem tokens_runPendingRequests {s : RequestServer} (tokens : Tokens s) :
    Tokens s.runPendingRequests :=
  tokens_startAll s.pendingRequests
    ⟨tokens.fresh, tokens.issued, tokens.cold, tokens.owned, tokens.stopped, tokens.aborted⟩

/-- The end of a turn changes what is left of no request. -/
theorem lives_endTurn {past : Past} {handled : RequestServer × List Response} {input : Input}
    (lives : Lives (⟨input, handled.2⟩ :: past) handled.1) :
    Lives (⟨input, (endTurn handled).2⟩ :: past) (endTurn handled).1 := by
  have incoming : (endTurn handled).1.incoming = handled.1.incoming := incoming_startAll _ _
  have left (id : RequestId) : inFlight (endTurn handled).1 id = inFlight handled.1 id :=
    inFlight_runPendingRequests handled.1 id
  exact {
    once := fun id => left id ▸ lives.once id
    unseen := fun id unseen => by rw [incoming, left]; exact lives.unseen id unseen
    known := fun req member known => by rw [incoming, left]; exact lives.known req member known
    unknown := fun req member unknown => by
      rw [incoming, left]
      exact lives.unknown req member unknown
  }

/-! ### Responses -/

theorem respond_incoming (s : RequestServer) (id other : RequestId) (result : ResponseResult) :
    (s.respond id result).1.incoming other = if other = id then none else s.incoming other := by
  unfold respond
  cases entry : s.incoming id with
  | none =>
      by_cases same : other = id
      · simp [same, entry]
      · simp [same]
  | some method => rfl

theorem respond_count (s : RequestServer) (id other : RequestId) (result : ResponseResult) :
    (s.respond id result).2.countP (·.id = other) =
      if other = id ∧ s.incoming id ≠ none then 1 else 0 := by
  unfold respond
  cases entry : s.incoming id with
  | none => simp
  | some method =>
      by_cases same : other = id
      · simp [same]
      · simp [same, Ne.symm same]

@[simp] theorem inFlight_respond (s : RequestServer) (id other : RequestId)
    (result : ResponseResult) : inFlight (s.respond id result).1 other = inFlight s other := by
  unfold respond
  cases s.incoming id <;> rfl

theorem tokens_respond {s : RequestServer} (tokens : Tokens s) (id : RequestId)
    (result : ResponseResult) : Tokens (s.respond id result).1 := by
  have gone {other : RequestId} (absent : s.incoming other = none) :
      (s.respond id result).1.incoming other = none := by
    rw [respond_incoming]
    split
    · rfl
    · exact absent
  have stopped := fun run member cancelled => And.imp_left gone (tokens.stopped run member cancelled)
  have aborted := fun other member => gone (tokens.aborted other member)
  revert stopped aborted
  unfold respond
  cases s.incoming id with
  | none => exact fun _ _ => tokens
  | some method =>
      exact fun stopped aborted =>
        ⟨tokens.fresh, tokens.issued, tokens.cold, tokens.owned, stopped, aborted⟩

/-! ### Steps that answer nothing -/

theorem lives_steady {past : Past} {s s' : RequestServer} (lives : Lives past s) {input : Input}
    (asks : ∀ req, input ≠ .request req) (cancels : ∀ id, input ≠ .cancelRequest id)
    (incoming : s'.incoming = s.incoming) (left : ∀ id, inFlight s' id = inFlight s id) :
    Lives (⟨input, []⟩ :: past) s' := by
  have same : requests (⟨input, []⟩ :: past) = requests past := by
    cases input with
    | request req => exact absurd rfl (asks req)
    | _ => rfl
  have handled (id : RequestId) :
      CancelHandled id (⟨input, []⟩ :: past) ↔ CancelHandled id past := by
    simp [CancelHandled, cancels id]
  have sent (id : RequestId) : responses id (⟨input, []⟩ :: past) = responses id past := by
    simp [responses]
  exact {
    once := fun id => left id ▸ lives.once id
    unseen := by
      intro id unseen
      rw [Requested, same] at unseen
      rw [incoming, sent, left]
      exact lives.unseen id unseen
    known := by
      intro req member known
      rw [incoming, sent, left]
      exact lives.known req (same ▸ member) known
    unknown := by
      intro req member unknown
      rw [incoming, sent, left, handled]
      exact lives.unknown req (same ▸ member) unknown
  }

/-! ### The end of a run -/

/-- The last thing left of a request is gone, and the request is answered if it is not yet. -/
theorem lives_settled {past : Past} {s gone : RequestServer} (lives : Lives past s)
    {id : RequestId} (result : ResponseResult) (left : 0 < inFlight s id) (decompiler : Bool)
    (incoming : gone.incoming = s.incoming)
    (one_less : ∀ other, inFlight gone other + (if id = other then 1 else 0) = inFlight s other) :
    Lives (⟨.task decompiler, (gone.respond id result).2⟩ :: past)
      (gone.respond id result).1 := by
  have sent (other : RequestId) :
      responses other (⟨.task decompiler, (gone.respond id result).2⟩ :: past) =
        (if other = id ∧ s.incoming id ≠ none then 1 else 0) + responses other past := by
    rw [responses, respond_count, incoming]
  exact {
    once := by
      intro other
      have before := lives.once other
      have after := one_less other
      rw [inFlight_respond]
      omega
    unseen := by
      intro other unseen
      obtain ⟨absent, silent, nothing⟩ := lives.unseen other unseen
      have apart : other ≠ id := by
        rintro rfl
        omega
      have after := one_less other
      rw [respond_incoming, inFlight_respond, sent, incoming]
      simp only [apart, Ne.symm apart, if_false, false_and] at after ⊢
      exact ⟨absent, by omega, by omega⟩
    known := by
      intro req member known
      have before := lives.known req member known
      have after := one_less req.id
      rw [respond_incoming, inFlight_respond, sent, incoming]
      by_cases same : req.id = id
      · subst same
        rcases before with ⟨absent, answered⟩ | ⟨present, silent, -⟩
        · simp [absent, answered]
        · simp [present, silent]
      · simp only [same, Ne.symm same, if_false, false_and] at after ⊢
        have kept : inFlight gone req.id = inFlight s req.id := by omega
        simpa [kept] using before
    unknown := by
      intro req member unknown
      obtain ⟨nothing, before⟩ := lives.unknown req member unknown
      have apart : req.id ≠ id := by
        intro same
        rw [same] at nothing
        omega
      have after := one_less req.id
      rw [respond_incoming, inFlight_respond, sent, incoming]
      simp only [apart, Ne.symm apart, if_false, false_and] at after ⊢
      have handled : CancelHandled req.id
          (⟨.task decompiler, (gone.respond id result).2⟩ :: past) ↔
            CancelHandled req.id past := by
        simp [CancelHandled]
      rw [handled]
      refine ⟨by omega, ?_⟩
      simpa using before
  }

/-! ### Cancellation -/

/-- The token of the request is flipped, if one is registered. -/
def flip (s : RequestServer) (id : RequestId) : RequestServer :=
  { s with
    cancelled := fun token =>
      if s.inflightCancellations id = some token then true else s.cancelled token }

theorem cancel_eq (s : RequestServer) (id : RequestId) :
    s.cancel id = (flip s id).respond id (.err .requestCanceled "canceled by client") := by
  unfold cancel flip
  cases registered : s.inflightCancellations id with
  | none => simp
  | some token =>
      simp only [Option.some.injEq]
      congr 2
      funext other
      by_cases same : other = token
      · simp [same]
      · simp [same, Ne.symm same]

theorem lives_cancel {past : Past} {s : RequestServer} (lives : Lives past s) (id : RequestId) :
    Lives (⟨.cancelRequest id, (s.cancel id).2⟩ :: past) (s.cancel id).1 := by
  rw [cancel_eq]
  have left (other : RequestId) : inFlight (flip s id) other = inFlight s other := rfl
  have sent (other : RequestId) : responses other (⟨.cancelRequest id,
      ((flip s id).respond id (.err .requestCanceled "canceled by client")).2⟩ :: past) =
        (if other = id ∧ s.incoming id ≠ none then 1 else 0) + responses other past := by
    rw [responses, respond_count]
    rfl
  have incoming : (flip s id).incoming = s.incoming := rfl
  exact {
    once := by
      intro other
      rw [inFlight_respond, left]
      exact lives.once other
    unseen := by
      intro other unseen
      obtain ⟨absent, silent, nothing⟩ := lives.unseen other unseen
      rw [respond_incoming, inFlight_respond, sent, left, incoming]
      by_cases same : other = id
      · subst same
        simp [absent, silent, nothing]
      · simp [same, absent, silent, nothing]
    known := by
      intro req member known
      have before := lives.known req member known
      rw [respond_incoming, inFlight_respond, sent, left, incoming]
      by_cases same : req.id = id
      · subst same
        rcases before with ⟨absent, answered⟩ | ⟨present, silent, -⟩
        · simp [absent, answered]
        · simp [present, silent]
      · simpa [same] using before
    unknown := by
      intro req member unknown
      obtain ⟨nothing, before⟩ := lives.unknown req member unknown
      rw [respond_incoming, inFlight_respond, sent, left, incoming]
      refine ⟨nothing, ?_⟩
      have requested : Requested req.id past := ⟨req, member, rfl⟩
      by_cases same : req.id = id
      · subst same
        rcases before with ⟨present, answered, -⟩ | ⟨absent, twice, handled⟩
        · exact .inr ⟨by simp, by simp [present, answered], .inl ⟨rfl, requested⟩⟩
        · exact .inr ⟨by simp, by simp [absent, twice], .inr handled⟩
      · have apart : Input.cancelRequest id ≠ .cancelRequest req.id :=
          fun equal => same (Input.cancelRequest.inj equal).symm
        simpa [same, CancelHandled, apart] using before
  }

theorem tokens_cancel {s : RequestServer} (tokens : Tokens s) (id : RequestId) :
    Tokens (s.cancel id).1 := by
  have absent : (s.cancel id).1.incoming id = none := by
    rw [cancel_eq, respond_incoming, if_pos rfl]
  have kept {other : RequestId} (gone : s.incoming other = none) :
      (s.cancel id).1.incoming other = none := by
    rw [cancel_eq, respond_incoming]
    split
    · rfl
    · exact gone
  have same : (s.cancel id).1.running = s.running ∧ (s.cancel id).1.tasks = s.tasks ∧
      (s.cancel id).1.inflightCancellations = s.inflightCancellations ∧
      (s.cancel id).1.nextToken = s.nextToken ∧
      (s.cancel id).1.cancelled = (flip s id).cancelled := by
    rw [cancel_eq]
    unfold respond
    split <;> exact ⟨rfl, rfl, rfl, rfl, rfl⟩
  obtain ⟨running, tasks, registered, next, cancelled⟩ := same
  exact {
    fresh := by
      rw [running, next]
      exact tokens.fresh
    issued := by
      rw [registered, next]
      exact tokens.issued
    cold := by
      intro token above
      rw [next] at above
      have unregistered : s.inflightCancellations id ≠ some token :=
        fun issued => Nat.not_lt.mpr above (tokens.issued id token issued)
      rw [cancelled]
      simp only [flip, if_neg unregistered]
      exact tokens.cold token above
    owned := by
      rw [registered, running]
      exact tokens.owned
    stopped := by
      intro run member stopped
      rw [running] at member
      rw [cancelled] at stopped
      rw [registered]
      by_cases own : s.inflightCancellations id = some run.token
      · have owner : run.pending.id = id := tokens.owned id run.token own run member rfl
        rw [owner]
        exact ⟨absent, own⟩
      · simp only [flip, if_neg own] at stopped
        obtain ⟨gone, issued⟩ := tokens.stopped run member stopped
        exact ⟨kept gone, issued⟩
    aborted := by
      intro other member
      rw [tasks] at member
      exact kept (tokens.aborted other member)
  }

/-! ### Requests -/

/-- The chain of dispatchers refuses an unknown method, and answers a known one or starts its run. -/
theorem dispatch_cases (s : RequestServer) (req : Request) (chain : List (String × HandlerKind)) :
    (¬ ∃ handler ∈ chain, handler.1 = req.method) ∧
        s.dispatch req chain = s.replyNotImplemented req ∨
      (∃ handler ∈ chain, handler.1 = req.method) ∧
        ((∃ result, s.dispatch req chain = s.respond req.id result) ∨
          s.dispatch req chain = (s.spawn req, [])) := by
  induction chain with
  | nil => exact .inl ⟨by simp, rfl⟩
  | cons handler rest ih =>
      obtain ⟨method, kind⟩ := handler
      by_cases own : req.method = method
      · refine .inr ⟨⟨(method, kind), List.mem_cons_self, own.symm⟩, ?_⟩
        unfold dispatch
        rw [if_neg (by simpa using own)]
        cases req.paramsError with
        | some err => exact .inl ⟨_, rfl⟩
        | none =>
            cases kind with
            | on => exact .inl ⟨_, rfl⟩
            | onAsync => exact .inr rfl
      · unfold dispatch
        rw [if_pos own]
        simpa [Ne.symm own] using ih

theorem not_cancelHandled {past : Past} {id : RequestId} (unseen : ¬ Requested id past) :
    ¬ CancelHandled id past := by
  induction past with
  | nil => exact False.elim
  | cons step earlier ih =>
      have before : ¬ Requested id earlier := by
        intro ⟨req, member, same⟩
        apply unseen
        refine ⟨req, ?_, same⟩
        unfold requests
        split
        · exact List.mem_cons_of_mem _ member
        · exact member
      rintro (⟨-, requested⟩ | handled)
      · exact before requested
      · exact ih before handled

/-- A request under a new id, where only what concerns that id changes. -/
theorem lives_new {past : Past} {s s' : RequestServer} (lives : Lives past s) {req : Request}
    {outputs : List Response} (new : ¬ Requested req.id past)
    (others : ∀ other, other ≠ req.id → s'.incoming other = s.incoming other ∧
      inFlight s' other = inFlight s other ∧ outputs.countP (·.id = other) = 0)
    (one : inFlight s' req.id ≤ 1)
    (known : Known req.method →
      s'.incoming req.id = none ∧ outputs.countP (·.id = req.id) = 1 ∨
        s'.incoming req.id ≠ none ∧ outputs.countP (·.id = req.id) = 0 ∧ 0 < inFlight s' req.id)
    (unknown : ¬ Known req.method → inFlight s' req.id = 0 ∧
      s'.incoming req.id ≠ none ∧ outputs.countP (·.id = req.id) = 1) :
    Lives (⟨.request req, outputs⟩ :: past) s' := by
  have apart {old : Request} (member : old ∈ requests past) : old.id ≠ req.id :=
    fun same => new ⟨old, member, same⟩
  have handled (id : RequestId) :
      CancelHandled id (⟨.request req, outputs⟩ :: past) ↔ CancelHandled id past := by
    simp [CancelHandled]
  obtain ⟨-, silent, -⟩ := lives.unseen req.id new
  exact {
    once := by
      intro id
      by_cases own : id = req.id
      · exact own ▸ one
      · rw [(others id own).2.1]
        exact lives.once id
    unseen := by
      intro id unseen
      have own : id ≠ req.id := fun same => unseen ⟨req, List.mem_cons_self, same.symm⟩
      have before : ¬ Requested id past :=
        fun ⟨old, member, same⟩ => unseen ⟨old, List.mem_cons_of_mem _ member, same⟩
      obtain ⟨incoming, left, count⟩ := others id own
      rw [incoming, left, responses, count, Nat.zero_add]
      exact lives.unseen id before
    known := by
      intro old member method
      rcases List.mem_cons.mp member with rfl | earlier
      · rw [responses, silent]
        exact known method
      · obtain ⟨incoming, left, count⟩ := others old.id (apart earlier)
        rw [incoming, left, responses, count, Nat.zero_add]
        exact lives.known old earlier method
    unknown := by
      intro old member method
      rcases List.mem_cons.mp member with rfl | earlier
      · obtain ⟨left, present, count⟩ := unknown method
        rw [responses, silent, handled]
        exact ⟨left, .inl ⟨present, count, not_cancelHandled new⟩⟩
      · obtain ⟨incoming, left, count⟩ := others old.id (apart earlier)
        rw [incoming, left, responses, count, Nat.zero_add, handled]
        exact lives.unknown old earlier method
  }

theorem lives_handleRequest {past : Past} {s : RequestServer} (lives : Lives past s)
    {req : Request} (new : ¬ Requested req.id past) :
    Lives (⟨.request req, (s.handleRequest req).2⟩ :: past) (s.handleRequest req).1 := by
  obtain ⟨-, -, nothing⟩ := lives.unseen req.id new
  have entry : (s.setIncoming req.id (some req.method)).incoming req.id = some req.method := by
    simp [setIncoming]
  have elsewhere {other : RequestId} (apart : other ≠ req.id) :
      (s.setIncoming req.id (some req.method)).incoming other = s.incoming other := by
    simp [setIncoming, apart]
  have left (other : RequestId) :
      inFlight (s.setIncoming req.id (some req.method)) other = inFlight s other := rfl
  unfold handleRequest
  rcases dispatch_cases (s.setIncoming req.id (some req.method)) req handlers with
    ⟨refused, same⟩ | ⟨taken, ⟨result, same⟩ | same⟩
  · rw [same]
    apply lives_new lives new
    · intro other apart
      exact ⟨elsewhere apart, rfl, by simp [replyNotImplemented, Ne.symm apart]⟩
    · exact Nat.le_trans (Nat.le_of_eq nothing) (Nat.zero_le 1)
    · exact fun known => absurd known refused
    · intro _
      exact ⟨nothing, by simp [replyNotImplemented, entry], by simp [replyNotImplemented]⟩
  · rw [same]
    apply lives_new lives new
    · intro other apart
      rw [respond_incoming, if_neg apart, inFlight_respond, respond_count]
      exact ⟨elsewhere apart, rfl, by simp [apart]⟩
    · rw [inFlight_respond, left, nothing]
      exact Nat.zero_le 1
    · intro _
      rw [respond_incoming, respond_count]
      exact .inl (by simp [entry])
    · exact fun unknown => absurd taken unknown
  · rw [same]
    have more (other : RequestId) :
        inFlight ((s.setIncoming req.id (some req.method)).spawn req) other =
          inFlight s other + if req.id = other then 1 else 0 := by
      simp only [inFlight, spawn, setCancellation, setIncoming, List.countP_append,
        List.countP_cons, List.countP_nil]
      simp only [decide_eq_true_eq]
      omega
    apply lives_new lives new
    · intro other apart
      exact ⟨elsewhere apart, by simp [more, Ne.symm apart], rfl⟩
    · have count := more req.id
      rw [nothing, if_pos rfl] at count
      exact Nat.le_of_eq count
    · intro _
      refine .inr ⟨?_, rfl, ?_⟩
      · exact fun gone => Option.some_ne_none _ (entry.symm.trans gone)
      · rw [more, if_pos rfl]
        exact Nat.succ_pos _
    · exact fun unknown => absurd taken unknown

/-- The first run of a request, with the token that is registered for it. -/
theorem tokens_spawn {s : RequestServer} (tokens : Tokens s) {req : Request}
    (idle : ∀ run ∈ s.running, run.pending.id ≠ req.id) : Tokens (s.spawn req) := by
  have registered {id : RequestId} {token : Token}
      (issued : (s.spawn req).inflightCancellations id = some token) :
      id = req.id ∧ s.nextToken = token ∨ s.inflightCancellations id = some token := by
    by_cases own : id = req.id
    · exact .inl ⟨own, by simpa [spawn, setCancellation, own] using issued⟩
    · exact .inr (by simpa [spawn, setCancellation, own] using issued)
  exact {
    fresh := by
      intro run member
      rcases List.mem_append.mp member with old | new
      · exact Nat.lt_succ_of_lt (tokens.fresh run old)
      · obtain rfl := List.mem_singleton.mp new
        exact Nat.lt_succ_self _
    issued := by
      intro id token issued
      rcases registered issued with ⟨-, rfl⟩ | old
      · exact Nat.lt_succ_self _
      · exact Nat.lt_succ_of_lt (tokens.issued id token old)
    cold := fun token above => tokens.cold token (Nat.le_of_succ_le above)
    owned := by
      intro id token issued run member equal
      rcases registered issued with ⟨own, rfl⟩ | old
      · rcases List.mem_append.mp member with earlier | new
        · exact absurd equal (Nat.ne_of_lt (tokens.fresh run earlier))
        · obtain rfl := List.mem_singleton.mp new
          exact own.symm
      · rcases List.mem_append.mp member with earlier | new
        · exact tokens.owned id token old run earlier equal
        · obtain rfl := List.mem_singleton.mp new
          obtain rfl : s.nextToken = token := equal
          exact absurd (tokens.issued id s.nextToken old) (Nat.lt_irrefl _)
    stopped := by
      intro run member cancelled
      rcases List.mem_append.mp member with old | new
      · obtain ⟨gone, issued⟩ := tokens.stopped run old cancelled
        exact ⟨gone, by simpa [spawn, setCancellation, idle run old] using issued⟩
      · obtain rfl := List.mem_singleton.mp new
        have cold : s.cancelled s.nextToken = false := tokens.cold _ (Nat.le_refl _)
        exact absurd cancelled (by simp [spawn, setCancellation, cold])
    aborted := tokens.aborted
  }

/-- Nothing of a request that was never made is on the pool or registered. -/
theorem tokens_handleRequest {past : Past} {s : RequestServer} (lives : Lives past s)
    (tokens : Tokens s) {req : Request} (new : ¬ Requested req.id past) :
    Tokens (s.handleRequest req).1 := by
  obtain ⟨absent, -, nothing⟩ := lives.unseen req.id new
  have idle : ∀ run ∈ s.running, run.pending.id ≠ req.id := by
    intro run member same
    have counted : 0 < s.running.countP (·.pending.id = req.id) :=
      List.countP_pos_iff.mpr ⟨run, member, by simpa using same⟩
    unfold inFlight at nothing
    omega
  have quiet : ∀ id, .asyncRequestAborted id ∈ s.tasks → id ≠ req.id := by
    intro id member same
    have counted : 0 < s.tasks.countP (·.id = req.id) :=
      List.countP_pos_iff.mpr ⟨_, member, decide_eq_true same⟩
    unfold inFlight at nothing
    omega
  have entered : Tokens (s.setIncoming req.id (some req.method)) := by
    have elsewhere {other : RequestId} (apart : other ≠ req.id) :
        (s.setIncoming req.id (some req.method)).incoming other = s.incoming other := by
      simp [setIncoming, apart]
    exact {
      fresh := tokens.fresh
      issued := tokens.issued
      cold := tokens.cold
      owned := tokens.owned
      stopped := by
        intro run member cancelled
        rw [elsewhere (idle run member)]
        exact tokens.stopped run member cancelled
      aborted := by
        intro id member
        rw [elsewhere (quiet id member)]
        exact tokens.aborted id member
    }
  unfold handleRequest
  rcases dispatch_cases (s.setIncoming req.id (some req.method)) req handlers with
    ⟨-, same⟩ | ⟨-, ⟨result, same⟩ | same⟩
  · rw [same]
    exact entered
  · rw [same]
    exact tokens_respond entered req.id result
  · rw [same]
    exact tokens_spawn entered idle

/-! ### Background events -/

theorem inFlight_tasks {s : RequestServer} {event : TaskEvent} {rest : List TaskEvent}
    (queued : s.tasks = event :: rest) (id : RequestId) :
    inFlight { s with tasks := rest } id + (if event.id = id then 1 else 0) = inFlight s id := by
  simp only [inFlight, queued, List.countP_cons, decide_eq_true_eq]
  omega

@[simp] theorem inFlight_setCancellation (s : RequestServer) (id other : RequestId)
    (token : Option Token) : inFlight (s.setCancellation id token) other = inFlight s other := rfl

theorem inFlight_queue (s : RequestServer) (run : PendingRequest) (id : RequestId) :
    inFlight (s.queue run) id = inFlight s id + if run.id = id then 1 else 0 := by
  simp only [inFlight, queue, List.countP_append, List.countP_cons, List.countP_nil,
    decide_eq_true_eq]
  omega

/-- The event was the last thing left of its request: no run of it is on the pool. -/
theorem Lives.idle {past : Past} {s : RequestServer} (lives : Lives past s) {event : TaskEvent}
    (queued : event ∈ s.tasks) : ∀ run ∈ s.running, run.pending.id ≠ event.id := by
  intro run member same
  have ran : 0 < s.running.countP (·.pending.id = event.id) :=
    List.countP_pos_iff.mpr ⟨run, member, decide_eq_true same⟩
  have waits : 0 < s.tasks.countP (·.id = event.id) :=
    List.countP_pos_iff.mpr ⟨event, queued, decide_eq_true rfl⟩
  have one := lives.once event.id
  unfold inFlight at one
  omega

theorem lives_handleTask {past : Past} {s : RequestServer} (lives : Lives past s)
    (tokens : Tokens s) {event : TaskEvent} {rest : List TaskEvent}
    (queued : s.tasks = event :: rest) (decompiler : Bool) :
    Lives (⟨.task decompiler, ({ s with tasks := rest }.handleTask decompiler event).2⟩ :: past)
      ({ s with tasks := rest }.handleTask decompiler event).1 := by
  have fewer := inFlight_tasks queued
  have left : 0 < inFlight s event.id := by
    have here := fewer event.id
    rw [if_pos rfl] at here
    omega
  have requeued (run : PendingRequest) (same : event.id = run.id) (base : RequestServer)
      (incoming : base.incoming = s.incoming)
      (less : ∀ id, inFlight base id = inFlight { s with tasks := rest } id) :
      Lives (⟨.task decompiler, []⟩ :: past) (base.queue run) := by
    refine lives_steady lives (fun _ => nofun) (fun _ => nofun) incoming ?_
    intro id
    rw [inFlight_queue, less, ← same]
    exact fewer id
  cases event with
  | asyncRequestCompleted id result =>
      exact lives_settled lives result left decompiler rfl fewer
  | asyncRequestAborted id =>
      have absent : s.incoming id = none := tokens.aborted id (by simp [queued])
      have silent : ({ s with tasks := rest }.setCancellation id none).respond id (.ok "null") =
          ({ s with tasks := rest }.setCancellation id none, []) := by
        unfold respond
        simp only [setCancellation, absent]
      have settled : Lives (⟨.task decompiler,
            (({ s with tasks := rest }.setCancellation id none).respond id (.ok "null")).2⟩ :: past)
          (({ s with tasks := rest }.setCancellation id none).respond id (.ok "null")).1 :=
        lives_settled lives (.ok "null") left decompiler rfl fewer
      rw [silent] at settled
      exact settled
  | asyncRequestRetry run => exact requeued run rfl _ rfl fun _ => rfl
  | libraryDecompiled run => exact requeued run rfl _ rfl fun _ => rfl
  | loadLibraryFiles decompiles run =>
      by_cases decompiled : decompiles = true ∧ decompiler = true
      · simp only [handleTask, if_pos decompiled]
        refine lives_steady lives (fun _ => nofun) (fun _ => nofun) rfl ?_
        intro id
        have here : inFlight { s with tasks := rest } id + (if run.id = id then 1 else 0) =
            inFlight s id := fewer id
        simp only [inFlight, List.countP_append, List.countP_cons, List.countP_nil,
          decide_eq_true_eq] at here ⊢
        omega
      · simp only [handleTask, if_neg decompiled]
        exact requeued run rfl _ rfl fun _ => rfl

theorem tokens_setCancellation {s : RequestServer} (tokens : Tokens s) {id : RequestId}
    (idle : ∀ run ∈ s.running, run.pending.id ≠ id) : Tokens (s.setCancellation id none) := by
  have registered {other : RequestId} {token : Token}
      (issued : (s.setCancellation id none).inflightCancellations other = some token) :
      s.inflightCancellations other = some token := by
    by_cases own : other = id
    · simp [setCancellation, own] at issued
    · simpa [setCancellation, own] using issued
  exact {
    fresh := tokens.fresh
    issued := fun other token issued => tokens.issued other token (registered issued)
    cold := tokens.cold
    owned := fun other token issued => tokens.owned other token (registered issued)
    stopped := by
      intro run member cancelled
      obtain ⟨gone, issued⟩ := tokens.stopped run member cancelled
      exact ⟨gone, by simpa [setCancellation, idle run member] using issued⟩
    aborted := tokens.aborted
  }

theorem tokens_handleTask {past : Past} {s : RequestServer} (lives : Lives past s)
    (tokens : Tokens s) {event : TaskEvent} {rest : List TaskEvent}
    (queued : s.tasks = event :: rest) (decompiler : Bool) :
    Tokens ({ s with tasks := rest }.handleTask decompiler event).1 := by
  have member : event ∈ s.tasks := by simp [queued]
  have idle := lives.idle member
  have taken : Tokens { s with tasks := rest } :=
    ⟨tokens.fresh, tokens.issued, tokens.cold, tokens.owned, tokens.stopped,
      fun id member => tokens.aborted id (by rw [queued]; exact List.mem_cons_of_mem _ member)⟩
  have requeued {base : RequestServer} (kept : Tokens base) (run : PendingRequest) :
      Tokens (base.queue run) :=
    ⟨kept.fresh, kept.issued, kept.cold, kept.owned, kept.stopped, kept.aborted⟩
  cases event with
  | asyncRequestCompleted id result =>
      exact tokens_respond (tokens_setCancellation taken idle) id result
  | asyncRequestAborted id => exact tokens_setCancellation taken idle
  | asyncRequestRetry run => exact requeued (tokens_setCancellation taken idle) run
  | libraryDecompiled run => exact requeued taken run
  | loadLibraryFiles decompiles run =>
      by_cases decompiled : decompiles = true ∧ decompiler = true
      · simp only [handleTask, if_pos decompiled]
        exact ⟨taken.fresh, taken.issued, taken.cold, taken.owned, taken.stopped, taken.aborted⟩
      · simp only [handleTask, if_neg decompiled]
        exact requeued taken run

/-! ### The pool -/

theorem report_id (run : PendingRequest) (result : WorkerResult) :
    (report run result).id = run.id := by
  cases result with
  | deferForLibraryFiles decompiles =>
      by_cases deferred : run.allowDefer = true
      · simp only [report, if_pos deferred, TaskEvent.id]
      · simp only [report, if_neg deferred, TaskEvent.id]
  | _ => rfl

theorem report_aborted {run : PendingRequest} {result : WorkerResult} {id : RequestId}
    (aborted : report run result = .asyncRequestAborted id) :
    result = .clientCancelled ∧ run.id = id := by
  cases result with
  | clientCancelled => exact ⟨rfl, TaskEvent.asyncRequestAborted.inj aborted⟩
  | deferForLibraryFiles decompiles =>
      by_cases deferred : run.allowDefer = true
      · simp [report, if_pos deferred] at aborted
      · simp [report, if_neg deferred] at aborted
  | _ => cases aborted

/-- A run reports: its event is on the way to the main loop. -/
def reported (s : RequestServer) (place : Nat) (run : Run) (result : WorkerResult) : RequestServer :=
  { s with
    running := s.running.eraseIdx place
    tasks := s.tasks ++ [report run.pending result] }

theorem inFlight_reported {s : RequestServer} {place : Nat} {run : Run} {result : WorkerResult}
    (at_place : s.running[place]? = some run) (id : RequestId) :
    inFlight (reported s place run result) id = inFlight s id := by
  have fewer := countP_eraseIdx (fun run : Run => run.pending.id = id) at_place
  simp only [inFlight, reported, List.countP_append, List.countP_cons, List.countP_nil,
    report_id, decide_eq_true_eq] at fewer ⊢
  omega

theorem tokens_reported {s : RequestServer} (tokens : Tokens s) {place : Nat} {run : Run}
    {result : WorkerResult} (at_place : s.running[place]? = some run)
    (observed : result = .clientCancelled → s.cancelled run.token = true) :
    Tokens (reported s place run result) := by
  have old {other : Run} (member : other ∈ s.running.eraseIdx place) : other ∈ s.running :=
    List.mem_of_mem_eraseIdx member
  exact {
    fresh := fun other member => tokens.fresh other (old member)
    issued := tokens.issued
    cold := tokens.cold
    owned := fun id token issued other member => tokens.owned id token issued other (old member)
    stopped := fun other member => tokens.stopped other (old member)
    aborted := by
      intro id member
      rcases List.mem_append.mp member with before | new
      · exact tokens.aborted id before
      · obtain ⟨cancelled, rfl⟩ := report_aborted (List.mem_singleton.mp new).symm
        exact (tokens.stopped run (List.mem_of_getElem? at_place) (observed cancelled)).1
  }

theorem inFlight_decompiled {s : RequestServer} {place : Nat} {retry : PendingRequest}
    (at_place : s.decompiling[place]? = some retry) (id : RequestId) :
    inFlight { s with
      decompiling := s.decompiling.eraseIdx place
      tasks := s.tasks ++ [.libraryDecompiled retry] } id = inFlight s id := by
  have fewer := countP_eraseIdx (fun run : PendingRequest => run.id = id) at_place
  have own : (TaskEvent.libraryDecompiled retry).id = retry.id := rfl
  simp only [inFlight, List.countP_append, List.countP_cons, List.countP_nil, own,
    decide_eq_true_eq] at fewer ⊢
  omega

/-! ### Runs -/

def Sound (past : Past) (s : RequestServer) : Prop :=
  Lives past s ∧ Tokens s

/-- Every possible step keeps the states of all requests in order. -/
theorem sound_react {past : Past} {s : RequestServer} {input : Input} (sound : Sound past s)
    (possible : Possible past s input) :
    Sound (⟨input, (s.react input).2⟩ :: past) (s.react input).1 := by
  obtain ⟨lives, tokens⟩ := sound
  cases input with
  | request req =>
      exact ⟨lives_endTurn (lives_handleRequest lives possible),
        tokens_runPendingRequests (tokens_handleRequest lives tokens possible)⟩
  | cancelRequest id =>
      exact ⟨lives_endTurn (lives_cancel lives id),
        tokens_runPendingRequests (tokens_cancel tokens id)⟩
  | other =>
      have steady : Lives (⟨.other, []⟩ :: past) s := lives_steady lives (fun _ => nofun) (fun _ => nofun) rfl fun _ => rfl
      have ended : Lives (⟨.other, (endTurn (s, [])).2⟩ :: past) (endTurn (s, [])).1 :=
        lives_endTurn steady
      exact ⟨ended, tokens_runPendingRequests tokens⟩
  | task decompiler =>
      cases queued : s.tasks with
      | nil =>
          have steady : Lives (⟨.task decompiler, []⟩ :: past) s :=
            lives_steady lives (fun _ => nofun) (fun _ => nofun) rfl fun _ => rfl
          simp only [react, queued]
          exact ⟨steady, tokens⟩
      | cons event rest =>
          simp only [react, queued]
          exact ⟨lives_endTurn (lives_handleTask lives tokens queued decompiler),
            tokens_runPendingRequests (tokens_handleTask lives tokens queued decompiler)⟩
  | worker place result =>
      cases at_place : s.running[place]? with
      | none =>
          have steady : Lives (⟨.worker place result, []⟩ :: past) s :=
            lives_steady lives (fun _ => nofun) (fun _ => nofun) rfl fun _ => rfl
          simp only [react, at_place]
          exact ⟨steady, tokens⟩
      | some run =>
          have observed : result = .clientCancelled → s.cancelled run.token = true := by
            rintro rfl
            exact possible run at_place
          have steady : Lives (⟨.worker place result, []⟩ :: past) (reported s place run result) :=
            lives_steady lives (fun _ => nofun) (fun _ => nofun) rfl (inFlight_reported at_place)
          simp only [react, at_place]
          exact ⟨steady, tokens_reported tokens at_place observed⟩
  | decompiled place =>
      cases at_place : s.decompiling[place]? with
      | none =>
          have steady : Lives (⟨.decompiled place, []⟩ :: past) s :=
            lives_steady lives (fun _ => nofun) (fun _ => nofun) rfl fun _ => rfl
          simp only [react, at_place]
          exact ⟨steady, tokens⟩
      | some retry =>
          simp only [react, at_place]
          refine ⟨lives_steady lives (fun _ => nofun) (fun _ => nofun) rfl (inFlight_decompiled at_place), ?_⟩
          exact ⟨tokens.fresh, tokens.issued, tokens.cold, tokens.owned, tokens.stopped,
            fun id member => tokens.aborted id (by simpa using member)⟩

theorem sound_of_run {past : Past} {s : RequestServer}
    (ran : Reactive.Run react Possible initial past s) : Sound past s :=
  ran.invariant ⟨lives_initial, tokens_initial⟩
    fun _ _ _ sound possible => sound_react sound possible

/-! ### One response -/

/-- No request has two responses, and one of which nothing is left has one. -/
def OneResponse (past : Past) (s : RequestServer) : Prop :=
  (∀ id, responses id past ≤ 1) ∧
    ∀ req ∈ requests past, inFlight s req.id = 0 → responses req.id past = 1

/-- Requests are answered once exactly as long as no request of an unknown method is cancelled. -/
theorem one_response_iff {past : Past} {s : RequestServer}
    (ran : Reactive.Run react Possible initial past s) :
    OneResponse past s ↔
      ∀ req ∈ requests past, ¬ Known req.method → ¬ CancelHandled req.id past := by
  have lives := (sound_of_run ran).1
  constructor
  · intro one req member unknown handled
    obtain ⟨-, ⟨-, -, unhandled⟩ | ⟨-, twice, -⟩⟩ := lives.unknown req member unknown
    · exact unhandled handled
    · have most := one.1 req.id
      omega
  · intro uncancelled
    constructor
    · intro id
      by_cases requested : Requested id past
      · obtain ⟨req, member, rfl⟩ := requested
        by_cases known : Known req.method
        · rcases lives.known req member known with ⟨-, once⟩ | ⟨-, none_yet, -⟩ <;> omega
        · obtain ⟨-, ⟨-, once, -⟩ | ⟨-, -, handled⟩⟩ := lives.unknown req member known
          · omega
          · exact absurd handled (uncancelled req member known)
      · have none_sent := (lives.unseen id requested).2.1
        omega
    · intro req member nothing
      by_cases known : Known req.method
      · rcases lives.known req member known with ⟨-, once⟩ | ⟨-, -, left⟩
        · exact once
        · omega
      · obtain ⟨-, ⟨-, once, -⟩ | ⟨-, -, handled⟩⟩ := lives.unknown req member known
        · exact once
        · exact absurd handled (uncancelled req member known)

def hover : Request := ⟨.int 1, "textDocument/hover", none⟩

def unheardOf : Request := ⟨.int 1, "workspace/unheardOf", none⟩

instance {past : Past} {id : RequestId} : Decidable (Requested id past) :=
  inferInstanceAs (Decidable (∃ req ∈ requests past, req.id = id))

instance (method : String) : Decidable (Known method) :=
  inferInstanceAs (Decidable (∃ handler ∈ handlers, handler.1 = method))

theorem possible_first (s : RequestServer) (req : Request) : Possible [] s (.request req) := by
  simp [Possible, Requested, requests]

/-- A hover request that is cancelled while its worker runs, and retried for nothing. -/
theorem hover_answered_once :
    OneResponse
      (replay react [] initial
        [.request hover, .worker 0 .pendingWrite, .cancelRequest (.int 1), .task false,
          .worker 0 (.ok "null"), .task false]).1
      (replay react [] initial
        [.request hover, .worker 0 .pendingWrite, .cancelRequest (.int 1), .task false,
          .worker 0 (.ok "null"), .task false]).2 := by
  apply (one_response_iff (run_replay .start ?_)).mpr
  · intro req member unknown
    obtain rfl : req = hover := List.mem_singleton.mp member
    exact absurd (by decide) unknown
  · exact ⟨possible_first _ _, trivial, trivial, trivial, trivial, trivial, trivial⟩

/-- A request of an unknown method is answered when it comes, and again when it is cancelled. -/
theorem unknown_request_answered_twice :
    Reactive.Run react Possible initial
      (replay react [] initial [.request unheardOf, .cancelRequest (.int 1)]).1
      (replay react [] initial [.request unheardOf, .cancelRequest (.int 1)]).2 ∧
    ¬ OneResponse
      (replay react [] initial [.request unheardOf, .cancelRequest (.int 1)]).1
      (replay react [] initial [.request unheardOf, .cancelRequest (.int 1)]).2 := by
  constructor
  · apply run_replay .start
    exact ⟨possible_first _ _, trivial, trivial⟩
  · intro one
    have twice := one.1 (.int 1)
    revert twice
    decide

/-! ### Cancelled runs -/

/-- Every run of a cancelled request that is on the pool carries a cancelled token. -/
def Stops (past : Past) (s : RequestServer) : Prop :=
  ∀ run ∈ s.running, CancelHandled run.pending.id past → s.cancelled run.token = true

/-- The closure that the next background event makes run again in the same turn. -/
def restarted (s : RequestServer) (decompiler : Bool) : Option PendingRequest :=
  match s.tasks.head? with
  | some (.asyncRequestRetry run) => some run
  | some (.libraryDecompiled run) => some run
  | some (.loadLibraryFiles decompiles run) =>
      if decompiles = true ∧ decompiler = true then none else some run
  | _ => none

/-- A cancellation finds on the pool only runs with the token that is registered for their request, and
no closure of a cancelled request runs again. -/
def Reaches (past : Past) (s : RequestServer) : Input → Prop
  | .cancelRequest id => ∀ run ∈ s.running, run.pending.id = id →
      s.inflightCancellations id = some run.token
  | .task decompiler => ∀ run, restarted s decompiler = some run → ¬ CancelHandled run.id past
  | _ => True

/-- Between the turns no closure waits. -/
def Quiet (past : Past) (s : RequestServer) : Prop :=
  Sound past s ∧ s.pendingRequests = []

theorem startAll_pendingRequests (runs : List PendingRequest) (s : RequestServer) :
    (s.startAll runs).pendingRequests = s.pendingRequests := by
  induction runs generalizing s with
  | nil => rfl
  | cons run rest ih =>
      unfold startAll
      rw [ih]

theorem quiet_react {past : Past} {s : RequestServer} {input : Input} (quiet : Quiet past s)
    (possible : Possible past s input) :
    Quiet (⟨input, (s.react input).2⟩ :: past) (s.react input).1 := by
  refine ⟨sound_react quiet.1 possible, ?_⟩
  have ended (handled : RequestServer × List Response) :
      (endTurn handled).1.pendingRequests = [] := startAll_pendingRequests _ _
  cases input with
  | request req => exact ended _
  | cancelRequest id => exact ended _
  | other => exact ended _
  | task decompiler =>
      simp only [react]
      split
      · exact quiet.2
      · exact ended _
  | worker place result =>
      simp only [react]
      split <;> exact quiet.2
  | decompiled place =>
      simp only [react]
      split <;> exact quiet.2

/-- A turn that leaves at most one closure to run again: what is on the pool after it. -/
theorem endTurn_running {handled : RequestServer × List Response} {runs : List PendingRequest}
    (waiting : handled.1.pendingRequests = runs) (few : runs.length ≤ 1) :
    (endTurn handled).1.cancelled = handled.1.cancelled ∧
      (endTurn handled).1.running =
        handled.1.running ++ runs.map fun run => ⟨run, handled.1.nextToken⟩ := by
  change (startAll { handled.1 with pendingRequests := [] } handled.1.pendingRequests).cancelled =
      handled.1.cancelled ∧
    (startAll { handled.1 with pendingRequests := [] } handled.1.pendingRequests).running = _
  rw [waiting]
  match runs, few with
  | [], _ => exact ⟨rfl, (List.append_nil _).symm⟩
  | [run], _ => exact ⟨rfl, rfl⟩

theorem respond_fields (s : RequestServer) (id : RequestId) (result : ResponseResult) :
    (s.respond id result).1.cancelled = s.cancelled ∧
      (s.respond id result).1.running = s.running ∧
      (s.respond id result).1.nextToken = s.nextToken ∧
      (s.respond id result).1.pendingRequests = s.pendingRequests ∧
      (s.respond id result).1.inflightCancellations = s.inflightCancellations := by
  unfold respond
  split <;> exact ⟨rfl, rfl, rfl, rfl, rfl⟩

theorem handleTask_fields {s : RequestServer} {event : TaskEvent} {rest : List TaskEvent}
    (queued : s.tasks = event :: rest) (decompiler : Bool) (waiting : s.pendingRequests = []) :
    ({ s with tasks := rest }.handleTask decompiler event).1.cancelled = s.cancelled ∧
      ({ s with tasks := rest }.handleTask decompiler event).1.running = s.running ∧
      ({ s with tasks := rest }.handleTask decompiler event).1.nextToken = s.nextToken ∧
      ({ s with tasks := rest }.handleTask decompiler event).1.pendingRequests =
        (restarted s decompiler).toList := by
  cases event with
  | asyncRequestCompleted id result =>
      obtain ⟨cancelled, running, next, pending, -⟩ :=
        respond_fields ({ s with tasks := rest }.setCancellation id none) id result
      exact ⟨cancelled, running, next, pending.trans (by simp [restarted, queued, waiting,
        setCancellation])⟩
  | asyncRequestRetry run =>
      exact ⟨rfl, rfl, rfl, by simp [handleTask, queue, setCancellation, restarted, queued, waiting]⟩
  | asyncRequestAborted id =>
      exact ⟨rfl, rfl, rfl, by simp [handleTask, setCancellation, restarted, queued, waiting]⟩
  | libraryDecompiled run =>
      exact ⟨rfl, rfl, rfl, by simp [handleTask, queue, restarted, queued, waiting]⟩
  | loadLibraryFiles decompiles run =>
      by_cases decompiled : decompiles = true ∧ decompiler = true
      · simp only [handleTask, restarted, queued, List.head?_cons, if_pos decompiled]
        exact ⟨trivial, trivial, trivial, waiting⟩
      · simp only [handleTask, restarted, queued, List.head?_cons, if_neg decompiled, queue, waiting]
        exact ⟨trivial, trivial, trivial, rfl⟩

/-- The event of the next turn adds the closure that it makes run again, with a fresh token, and flips
no token. -/
theorem task_running {s : RequestServer} (decompiler : Bool) (waiting : s.pendingRequests = []) :
    (s.react (.task decompiler)).1.cancelled = s.cancelled ∧
      (s.react (.task decompiler)).1.running =
        s.running ++ (restarted s decompiler).toList.map fun run => ⟨run, s.nextToken⟩ := by
  simp only [react]
  cases queued : s.tasks with
  | nil =>
      have nothing : restarted s decompiler = none := by simp [restarted, queued]
      rw [nothing]
      exact ⟨rfl, (List.append_nil _).symm⟩
  | cons event rest =>
      obtain ⟨cancelled, running, next, pending⟩ := handleTask_fields queued decompiler waiting
      have few : (restarted s decompiler).toList.length ≤ 1 := by
        cases restarted s decompiler <;> simp
      obtain ⟨flips, started⟩ := endTurn_running pending few
      exact ⟨flips.trans cancelled, by rw [started, running, next]⟩

theorem handleRequest_fields (s : RequestServer) (req : Request) :
    (s.handleRequest req).1.cancelled = s.cancelled ∧
      (s.handleRequest req).1.pendingRequests = s.pendingRequests ∧
      ∀ run ∈ (s.handleRequest req).1.running, run ∈ s.running ∨ run.pending.id = req.id := by
  unfold handleRequest
  rcases dispatch_cases (s.setIncoming req.id (some req.method)) req handlers with
    ⟨-, same⟩ | ⟨-, ⟨result, same⟩ | same⟩
  · rw [same]
    exact ⟨rfl, rfl, fun _ => .inl⟩
  · rw [same]
    obtain ⟨cancelled, running, -, pending, -⟩ :=
      respond_fields (s.setIncoming req.id (some req.method)) req.id result
    exact ⟨cancelled, pending, fun run member => .inl (running ▸ member)⟩
  · rw [same]
    refine ⟨rfl, rfl, ?_⟩
    intro run member
    rcases List.mem_append.mp member with old | new
    · exact .inl old
    · obtain rfl := List.mem_singleton.mp new
      exact .inr rfl

/-- A request leaves the pool as it is, or adds its own first run. -/
theorem request_running {s : RequestServer} (req : Request) (waiting : s.pendingRequests = []) :
    (s.react (.request req)).1.cancelled = s.cancelled ∧
      ∀ run ∈ (s.react (.request req)).1.running, run ∈ s.running ∨ run.pending.id = req.id := by
  obtain ⟨cancelled, pending, running⟩ := handleRequest_fields s req
  obtain ⟨flips, started⟩ := endTurn_running (pending.trans waiting) (Nat.zero_le 1)
  refine ⟨flips.trans cancelled, ?_⟩
  intro run member
  rw [react, started, List.map_nil, List.append_nil] at member
  exact running run member

/-- A cancellation flips the token that is registered for the request. -/
theorem cancel_running {s : RequestServer} (id : RequestId) (waiting : s.pendingRequests = []) :
    (s.react (.cancelRequest id)).1.cancelled = (flip s id).cancelled ∧
      (s.react (.cancelRequest id)).1.running = s.running := by
  have fields := respond_fields (flip s id) id (.err .requestCanceled "canceled by client")
  rw [← cancel_eq] at fields
  obtain ⟨cancelled, running, -, pending, -⟩ := fields
  obtain ⟨flips, started⟩ := endTurn_running (pending.trans waiting) (Nat.zero_le 1)
  rw [List.map_nil, List.append_nil] at started
  exact ⟨flips.trans cancelled, started.trans running⟩

theorem stops_steady {past : Past} {s s' : RequestServer} (stops : Stops past s) {input : Input}
    {outputs : List Response} (cancels : ∀ id, input ≠ .cancelRequest id)
    (cancelled : s'.cancelled = s.cancelled) (running : ∀ run ∈ s'.running, run ∈ s.running) :
    Stops (⟨input, outputs⟩ :: past) s' := by
  intro run member handled
  rcases handled with ⟨cancel, -⟩ | before
  · exact absurd cancel (cancels run.pending.id)
  · rw [cancelled]
    exact stops run (running run member) before

/-- A step keeps every cancelled request's runs stopped exactly when the cancellation reaches them. -/
theorem stops_react_iff {past : Past} {s : RequestServer} {input : Input} (quiet : Quiet past s)
    (possible : Possible past s input) (stops : Stops past s) :
    Stops (⟨input, (s.react input).2⟩ :: past) (s.react input).1 ↔ Reaches past s input := by
  obtain ⟨⟨lives, tokens⟩, waiting⟩ := quiet
  cases input with
  | request req =>
      apply iff_of_true _ trivial
      obtain ⟨cancelled, running⟩ := request_running req waiting
      intro run member handled
      have before : CancelHandled run.pending.id past := by
        simpa [CancelHandled] using handled
      rw [cancelled]
      rcases running run member with old | own
      · exact stops run old before
      · exact absurd (own ▸ before) (not_cancelHandled possible)
  | other =>
      apply iff_of_true _ trivial
      have ended : (s.react .other).1.cancelled = s.cancelled ∧
          (s.react .other).1.running = s.running ++ _ :=
        endTurn_running waiting (Nat.zero_le 1)
      obtain ⟨cancelled, running⟩ := ended
      refine stops_steady stops (fun _ => nofun) cancelled ?_
      intro run member
      rw [running] at member
      simpa using member
  | worker place result =>
      apply iff_of_true _ trivial
      simp only [react]
      split
      · exact stops_steady stops (fun _ => nofun) rfl fun _ member => member
      · exact stops_steady stops (fun _ => nofun) rfl fun _ member => List.mem_of_mem_eraseIdx member
  | decompiled place =>
      apply iff_of_true _ trivial
      simp only [react]
      split <;> exact stops_steady stops (fun _ => nofun) rfl fun _ member => member
  | cancelRequest id =>
      obtain ⟨cancelled, running⟩ := cancel_running id waiting
      constructor
      · intro after run member same
        have requested : Requested id past := by
          apply Decidable.byContradiction
          intro unseen
          have counted : 0 < s.running.countP (·.pending.id = id) :=
            List.countP_pos_iff.mpr ⟨run, member, decide_eq_true same⟩
          have nothing := (lives.unseen id unseen).2.2
          unfold inFlight at nothing
          omega
        have flipped := after run (running ▸ member) (.inl ⟨by rw [same], same ▸ requested⟩)
        rw [cancelled] at flipped
        by_cases own : s.inflightCancellations id = some run.token
        · exact own
        · simp only [flip, if_neg own] at flipped
          exact same ▸ (tokens.stopped run member flipped).2
      · intro reaches run member handled
        rw [running] at member
        rw [cancelled]
        by_cases own : s.inflightCancellations id = some run.token
        · simp [flip, own]
        · simp only [flip, if_neg own]
          rcases handled with ⟨cancel, -⟩ | before
          · have same : run.pending.id = id := (Input.cancelRequest.inj cancel).symm
            exact absurd (reaches run member same) own
          · exact stops run member before
  | task decompiler =>
      obtain ⟨cancelled, running⟩ := task_running decompiler waiting
      have same (id : RequestId) : CancelHandled id
          (⟨.task decompiler, (s.react (.task decompiler)).2⟩ :: past) ↔ CancelHandled id past := by
        simp [CancelHandled]
      constructor
      · intro after run again handled
        have started : (⟨run, s.nextToken⟩ : Run) ∈ (s.react (.task decompiler)).1.running := by
          rw [running, again]
          exact List.mem_append_right _ List.mem_cons_self
        have flipped := after _ started ((same run.id).mpr handled)
        rw [cancelled, tokens.cold s.nextToken (Nat.le_refl _)] at flipped
        exact Bool.false_ne_true flipped
      · intro reaches run member handled
        have before := (same run.pending.id).mp handled
        rw [cancelled]
        rw [running] at member
        rcases List.mem_append.mp member with old | new
        · exact stops run old before
        · obtain ⟨closure, again, rfl⟩ := List.mem_map.mp new
          exact absurd before (reaches closure (Option.mem_toList.mp again))

def decidableCancelHandled (id : RequestId) : (past : Past) → Decidable (CancelHandled id past)
  | [] => isFalse nofun
  | step :: earlier =>
      have := decidableCancelHandled id earlier
      inferInstanceAs (Decidable
        ((step.input = .cancelRequest id ∧ Requested id earlier) ∨ CancelHandled id earlier))

instance {id : RequestId} {past : Past} : Decidable (CancelHandled id past) :=
  decidableCancelHandled id past

instance {past : Past} {s : RequestServer} : Decidable (Stops past s) :=
  inferInstanceAs (Decidable (∀ run ∈ s.running, CancelHandled run.pending.id past →
    s.cancelled run.token = true))

/-- The steps an event may still cause, its own among them. -/
def TaskEvent.effort : TaskEvent → Nat
  | .asyncRequestCompleted .. | .asyncRequestAborted _ => 1
  | .asyncRequestRetry _ | .libraryDecompiled _ => 4
  | .loadLibraryFiles .. => 6

def effortOfAll : List TaskEvent → Nat
  | [] => 0
  | event :: events => event.effort + effortOfAll events

theorem effortOfAll_append (events : List TaskEvent) (event : TaskEvent) :
    effortOfAll (events ++ [event]) = effortOfAll events + event.effort := by
  induction events with
  | nil => simp [effortOfAll]
  | cons first events ih =>
      simp only [List.cons_append, effortOfAll, ih]
      omega

/-- A bound of the steps that are left if every worker returns a result. -/
def effort (s : RequestServer) : Nat :=
  2 * s.running.length + 5 * s.decompiling.length + 3 * s.pendingRequests.length +
    effortOfAll s.tasks

/-- A step of the workers, which return results, or of the main loop without the client, that finds
something to do. -/
def Settles (s : RequestServer) : Input → Prop
  | .worker place (.ok _) => place < s.running.length
  | .worker place (.error _) => place < s.running.length
  | .decompiled place => place < s.decompiling.length
  | .task _ => s.tasks ≠ []
  | .other => s.pendingRequests ≠ []
  | _ => False

theorem effort_startAll (runs : List PendingRequest) (s : RequestServer) :
    effort (s.startAll runs) = effort s + 2 * runs.length := by
  induction runs generalizing s with
  | nil => rfl
  | cons run rest ih =>
      rw [startAll, ih]
      simp only [effort, List.length_append, List.length_cons, List.length_nil]
      omega

theorem effort_endTurn (handled : RequestServer × List Response) :
    effort (endTurn handled).1 + handled.1.pendingRequests.length = effort handled.1 := by
  rw [endTurn, runPendingRequests, effort_startAll]
  simp only [effort, List.length_nil]
  omega

theorem effort_respond (s : RequestServer) (id : RequestId) (result : ResponseResult) :
    effort (s.respond id result).1 = effort s := by
  unfold respond
  split <;> rfl

/-- What an event starts is less than the event. -/
theorem effort_handleTask (s : RequestServer) (decompiler : Bool) (event : TaskEvent) :
    effort (endTurn (s.handleTask decompiler event)).1 < effort s + event.effort := by
  have ended := effort_endTurn (s.handleTask decompiler event)
  cases event with
  | asyncRequestCompleted id result =>
      have same : effort (s.handleTask decompiler (.asyncRequestCompleted id result)).1 = effort s :=
        effort_respond (s.setCancellation id none) id result
      simp only [TaskEvent.effort]
      omega
  | loadLibraryFiles decompiles retry =>
      rw [handleTask] at ended ⊢
      split at ended <;> rename_i decompiled
      · rw [if_pos decompiled]
        simp [effort, TaskEvent.effort] at ended ⊢
        omega
      · rw [if_neg decompiled]
        simp [effort, queue, TaskEvent.effort] at ended ⊢
        omega
  | _ =>
      simp [effort, handleTask, queue, setCancellation, TaskEvent.effort] at ended ⊢
      omega

theorem effort_settles {s : RequestServer} {input : Input} (settles : Settles s input) :
    effort (s.react input).1 < effort s := by
  have removed {α : Type} {l : List α} {place : Nat} (inside : place < l.length) :
      (l.eraseIdx place).length + 1 = l.length := by
    rw [List.length_eraseIdx, if_pos inside]
    omega
  cases input with
  | worker place result =>
      cases result with
      | ok | error =>
          have fewer := removed settles
          simp [react, List.getElem?_eq_getElem settles, effort, report, effortOfAll_append,
            TaskEvent.effort]
          omega
      | _ => exact settles.elim
  | decompiled place =>
      have fewer := removed settles
      simp [react, List.getElem?_eq_getElem settles, effort, effortOfAll_append, TaskEvent.effort]
      omega
  | task decompiler =>
      cases queued : s.tasks with
      | nil => exact absurd queued settles
      | cons event rest =>
          have less := effort_handleTask { s with tasks := rest } decompiler event
          simp only [react, queued]
          simp only [effort, queued, effortOfAll] at less ⊢
          omega
  | other =>
      have ended : effort (endTurn (s, [])).1 + s.pendingRequests.length = effort s :=
        effort_endTurn (s, [])
      have waiting := List.length_pos_iff.mpr settles
      simp only [react]
      omega
  | _ => exact settles.elim

/-- From every state that can be reached, whatever order the workers return results and the main loop
takes events in, the work ends, and then every known request has its one response. -/
theorem settling_answers {past : Past} {s : RequestServer}
    (ran : Reactive.Run react Possible initial past s) (inputs : List Input)
    (settles : AllAllowed react (fun _ => Settles) past s inputs) :
    inputs.length ≤ effort s ∧
      ((∀ input, ¬ Settles (replay react past s inputs).2 input) →
        ∀ req ∈ requests (replay react past s inputs).1, Known req.method →
          responses req.id (replay react past s inputs).1 = 1) := by
  induction inputs generalizing past s with
  | nil =>
      refine ⟨Nat.zero_le _, fun idle req member known => ?_⟩
      change ∀ input, ¬ Settles s input at idle
      have noRun : s.running = [] := by simpa [Settles] using idle (.worker 0 (.ok ""))
      have noDecompilation : s.decompiling = [] := by simpa [Settles] using idle (.decompiled 0)
      have noEvent : s.tasks = [] := by simpa [Settles] using idle (.task false)
      have noClosure : s.pendingRequests = [] := by simpa [Settles] using idle .other
      rcases (sound_of_run ran).1.known req member known with ⟨-, once⟩ | ⟨-, -, left⟩
      · exact once
      · simp [inFlight, noRun, noDecompilation, noEvent, noClosure] at left
  | cons input rest ih =>
      obtain ⟨here, later⟩ := settles
      have possible : Possible past s input := by
        cases input with
        | request => exact here.elim
        | worker place result => cases result <;> first | trivial | exact here.elim
        | _ => trivial
      have less := effort_settles here
      obtain ⟨bounded, answered⟩ := ih (ran.next possible) later
      exact ⟨by simp only [List.length_cons]; omega, answered⟩

/-- At most one run, decompilation, event or closure is left of a request, and its cancellation flips
the token of no other request's run. -/
theorem requests_apart {past : Past} {s : RequestServer}
    (ran : Reactive.Run react Possible initial past s) (id : RequestId) :
    inFlight s id ≤ 1 ∧ ∀ run ∈ s.running, run.pending.id ≠ id →
      (s.cancel id).1.cancelled run.token = s.cancelled run.token := by
  obtain ⟨lives, tokens⟩ := sound_of_run ran
  refine ⟨lives.once id, fun run member other => ?_⟩
  have flags : (s.cancel id).1.cancelled = (flip s id).cancelled := by
    rw [cancel_eq, respond]
    split <;> rfl
  rw [flags]
  exact if_neg fun registered => other (tokens.owned id _ registered run member rfl)

/-- A hover request whose worker has returned is one step from its end. -/
theorem hover_settles :
    [Input.task false].length ≤
      effort (replay react [] initial [.request hover, .worker 0 (.ok "x")]).2 := by
  have allowed : AllAllowed react Possible [] initial [.request hover, .worker 0 (.ok "x")] :=
    ⟨possible_first _ _, trivial, trivial⟩
  refine (settling_answers (run_replay .start allowed) [.task false] ⟨?_, trivial⟩).1
  exact List.cons_ne_nil (TaskEvent.asyncRequestCompleted (.int 1) (.ok "x")) []

theorem requests_apart_first : inFlight (initial.react (.request hover)).1 (.int 1) ≤ 1 :=
  (requests_apart (.next .start (possible_first _ hover)) (.int 1)).1

end CaffeineLs.Server.Requests
