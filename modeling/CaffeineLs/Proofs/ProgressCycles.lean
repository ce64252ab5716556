/-
Module: CaffeineLs.Proofs.ProgressCycles
Purpose: When the progress notifications of every token are complete cycles that the client agreed to,
  and no buffered cycle is lost.
Trusted boundary: none
Main exports: cycles, notified, progress_protocol_of_orderly
-/
import CaffeineLs.Server.Progress
import Mathlib.Data.List.Pairwise

namespace CaffeineLs.Server

open Reactive ProgressServer

abbrev Past := History Input Message

/-! ### The protocol -/

/-- Whether a cycle is open after the notifications, from whether one was before. `none` where they are
no `Begin Report* End` cycles. -/
def cycles : Bool → List ProgressState → Option Bool
  | inside, [] => some inside
  | false, .begin :: rest => cycles true rest
  | true, .report :: rest => cycles true rest
  | true, .end_ :: rest => cycles false rest
  | _, _ :: _ => none

def valuesFor (token : String) (outputs : List Message) : List WorkDone :=
  outputs.filterMap fun
    | .progress other value => if other = token then some value else none
    | _ => none

/-- The notifications sent for a token. -/
def notified (token : String) : Past → List WorkDone
  | [] => []
  | step :: earlier => notified token earlier ++ valuesFor token step.outputs

def received (token : String) : Input → List ProgressEvent
  | .progress event => if event.token = token then [event] else []
  | _ => []

/-- The create request that was sent for the event is unanswered; `events` reached the server for its
token since, the event first. -/
inductive Pending : Past → Nat → ProgressEvent → List ProgressEvent → Prop where
  | asked {earlier : Past} {outputs : List Message} {id : Nat} {event : ProgressEvent}
      (created : .create id event.token ∈ outputs) :
      Pending (⟨.progress event, outputs⟩ :: earlier) id event [event]
  | waiting {earlier : Past} {step : Step Input Message} {id : Nat} {event : ProgressEvent}
      {events : List ProgressEvent} (pending : Pending earlier id event events)
      (unanswered : ∀ accepted, step.input ≠ .response id accepted) :
      Pending (step :: earlier) id event (events ++ received event.token step.input)

/-- A begin is sent only when the client accepts the create request of its cycle. -/
def BeginsAccepted (earlier : Past) (step : Step Input Message) : Prop :=
  ∀ token value, .progress token value ∈ step.outputs → value.state = .begin →
    ∃ id event events, Pending earlier id event events ∧ step.input = .response id true ∧
      event.token = token ∧ workDone event = value

/-- When the client accepts a create request, what reached the server of the cycle is sent. -/
def Delivers (earlier : Past) (step : Step Input Message) : Prop :=
  ∀ id event events, Pending earlier id event events → step.input = .response id true →
    step.outputs = events.map notification

/-- The notifications of each token are cycles, each accepted, and no buffered cycle is lost. -/
structure ProgressProtocol (past : Past) : Prop where
  cycles : ∀ token, (cycles false ((notified token past).map WorkDone.state)).isSome
  accepted : Everywhere BeginsAccepted past
  delivered : Everywhere Delivers past

/-! ### The steps that keep it -/

/-- A cycle of the token is open at the client: the last notification sent is no end. -/
def Running (past : Past) (token : String) : Prop :=
  ∃ value, (notified token past).getLast? = some value ∧ value.state ≠ .end_

/-- A begin finds no create request of its token unanswered, and no cycle of it that the token table
has active although its end was sent. A report or an end comes within a cycle: buffered behind no end,
or running at the client. -/
def Orderly (past : Past) (s : ProgressServer) : Input → Prop
  | .progress event => s.workDoneProgress = true →
      match s.progressTokens event.token with
      | none => event.state = .begin
      | some .active => Running past event.token
      | some (.creating events) => event.state ≠ .begin ∧ ∀ other ∈ events, other.state ≠ .end_
  | _ => True

/-! ### Cycles -/

theorem cycles_append (inside : Bool) (front back : List ProgressState) :
    cycles inside (front ++ back) = (cycles inside front).bind (cycles · back) := by
  induction front generalizing inside with
  | nil => cases inside <;> rfl
  | cons state rest ih =>
      cases inside <;> cases state <;> simp [cycles, ih]

/-- A cycle is open after an accepted list that does not end in an end. -/
theorem cycles_of_getLast {states : List ProgressState} {inside : Bool} {last : ProgressState}
    (valid : (cycles inside states).isSome) (end_ : states.getLast? = some last)
    (other : last ≠ .end_) : cycles inside states = some true := by
  obtain ⟨front, rfl⟩ : ∃ front, states = front ++ [last] := by
    obtain ⟨front, same⟩ := List.getLast?_eq_some_iff.mp end_
    exact ⟨front, same⟩
  rw [cycles_append] at valid ⊢
  cases before : cycles inside front with
  | none => simp [before] at valid
  | some open_ =>
      rw [before] at valid
      revert valid other
      cases open_ <;> cases last <;> simp [cycles]

theorem running_cycles {past : Past} {token : String}
    (valid : (cycles false ((notified token past).map WorkDone.state)).isSome)
    (running : Running past token) :
    cycles false ((notified token past).map WorkDone.state) = some true := by
  obtain ⟨value, last, other⟩ := running
  exact cycles_of_getLast valid (by rw [List.getLast?_map, last]; rfl) other

/-! ### Histories -/

theorem notified_cons (token : String) (step : Step Input Message) (earlier : Past) :
    notified token (step :: earlier) = notified token earlier ++ valuesFor token step.outputs := rfl

theorem workDone_state (event : ProgressEvent) : (workDone event).state = event.state := by
  unfold workDone
  cases event.state <;> rfl

theorem valuesFor_notifications {token : String} {events : List ProgressEvent}
    (own : ∀ event ∈ events, event.token = token) :
    valuesFor token (events.map notification) = events.map workDone := by
  induction events with
  | nil => rfl
  | cons event rest ih =>
      have here := own event List.mem_cons_self
      have later := ih fun other member => own other (List.mem_cons_of_mem event member)
      simp only [valuesFor] at later
      simp [valuesFor, notification, here, later]

theorem valuesFor_others {token : String} {events : List ProgressEvent}
    (others : ∀ event ∈ events, event.token ≠ token) :
    valuesFor token (events.map notification) = [] := by
  induction events with
  | nil => rfl
  | cons event rest ih =>
      have here := others event List.mem_cons_self
      have later := ih fun other member => others other (List.mem_cons_of_mem event member)
      simp only [valuesFor] at later
      simp [valuesFor, notification, here, later]

theorem states_workDone (events : List ProgressEvent) :
    (events.map workDone).map WorkDone.state = events.map ProgressEvent.state := by
  simp [workDone_state]

theorem pending_cons {earlier : Past} {step : Step Input Message} {id : Nat}
    {event : ProgressEvent} {events : List ProgressEvent}
    (pending : Pending (step :: earlier) id event events) :
    (step.input = .progress event ∧ .create id event.token ∈ step.outputs ∧ events = [event]) ∨
      ∃ before, Pending earlier id event before ∧
        (∀ accepted, step.input ≠ .response id accepted) ∧
        events = before ++ received event.token step.input := by
  cases pending with
  | asked created => exact .inl ⟨rfl, created, rfl⟩
  | waiting before unanswered => exact .inr ⟨_, before, unanswered, rfl⟩

theorem Pending.tokens {past : Past} {id : Nat} {event : ProgressEvent}
    {events : List ProgressEvent} (pending : Pending past id event events) :
    ∀ other ∈ events, other.token = event.token := by
  induction pending with
  | asked created => simp
  | @waiting earlier step id event events _ _ ih =>
      intro other member
      rcases List.mem_append.mp member with old | new
      · exact ih other old
      · unfold received at new
        split at new
        next fresh input =>
          split at new
          next same =>
            obtain rfl := List.mem_singleton.mp new
            exact same
          next => cases new
        next => cases new

theorem Pending.head {past : Past} {id : Nat} {event : ProgressEvent}
    {events : List ProgressEvent} (pending : Pending past id event events) :
    ∃ rest, events = event :: rest := by
  induction pending with
  | asked created => exact ⟨[], rfl⟩
  | waiting _ _ ih =>
      obtain ⟨rest, rfl⟩ := ih
      exact ⟨_, rfl⟩

/-! ### The invariant -/

/-- Where the server is with a token, and what the client has seen of it. -/
def Phase (past : Past) (s : ProgressServer) (token : String) : Prop :=
  let sent := cycles false ((notified token past).map WorkDone.state)
  match s.progressTokens token with
  | none => sent = some false ∧ ∀ id, (id, .createProgress token) ∉ s.outgoing
  | some .active => sent.isSome ∧ ∀ id, (id, .createProgress token) ∉ s.outgoing
  | some (.creating events) =>
      sent = some false ∧ (cycles false (events.map ProgressEvent.state)).isSome ∧
        (∀ event ∈ events.tail, event.state ≠ .begin) ∧
        ∃ id, (id, .createProgress token) ∈ s.outgoing

/-- The requests in flight for progress tokens are the unanswered create requests, and the buffer of a
token holds what reached the server since its request. -/
structure Tracked (past : Past) (s : ProgressServer) : Prop where
  on : s.workDoneProgress = true
  fresh : ∀ entry ∈ s.outgoing, entry.1 < s.nextRequestId
  distinct : s.outgoing.Pairwise fun one two => one.1 ≠ two.1
  single : ∀ id other token, (id, .createProgress token) ∈ s.outgoing →
    (other, .createProgress token) ∈ s.outgoing → id = other
  asked : ∀ id token, (id, .createProgress token) ∈ s.outgoing →
    ∃ event events, Pending past id event events ∧ event.token = token
  known : ∀ id event events, Pending past id event events →
    (id, .createProgress event.token) ∈ s.outgoing ∧
      s.progressTokens event.token = some (.creating events)
  phase : ∀ token, Phase past s token

theorem tracked_initial : Tracked [] (initial true) where
  on := rfl
  fresh := nofun
  distinct := .nil
  single := nofun
  asked := nofun
  known := nofun
  phase _ := ⟨rfl, nofun⟩

/-- A step that sends nothing for a token and leaves its entry and its requests alone. -/
theorem Phase.frame {past : Past} {s s' : ProgressServer} {token : String}
    {step : Step Input Message} (phase : Phase past s token)
    (entry : s'.progressTokens token = s.progressTokens token)
    (requests : ∀ id, (id, .createProgress token) ∈ s'.outgoing ↔
      (id, .createProgress token) ∈ s.outgoing)
    (silent : valuesFor token step.outputs = []) : Phase (step :: past) s' token := by
  unfold Phase at phase ⊢
  simpa only [entry, requests, notified_cons, silent, List.append_nil] using phase

@[simp] theorem setToken_same (s : ProgressServer) (token : String)
    (state : Option ProgressTokenState) :
    (s.setToken token state).progressTokens token = state := by
  simp [setToken]

theorem setToken_other (s : ProgressServer) {token other : String} (apart : other ≠ token)
    (state : Option ProgressTokenState) :
    (s.setToken token state).progressTokens other = s.progressTokens other := by
  simp [setToken, apart]

/-! ### One step -/

/-- A begin for a token that waits for no answer. -/
theorem tracked_begin {past : Past} {s : ProgressServer} (tracked : Tracked past s)
    {event : ProgressEvent} (begins : event.state = .begin) {closed : List Message}
    (closes : cycles false (((notified event.token past).map WorkDone.state) ++
      (valuesFor event.token closed).map WorkDone.state) = some false)
    (others : ∀ token, token ≠ event.token → valuesFor token closed = [])
    (creates : ∀ id token, .create id token ∉ closed)
    (idle : ∀ events, s.progressTokens event.token ≠ some (.creating events)) :
    Tracked (⟨.progress event, closed ++ [.create s.nextRequestId event.token]⟩ :: past)
      ((s.setToken event.token (some (.creating [event]))).register
        (.createProgress event.token)) := by
  have none_yet (id : Nat) : (id, .createProgress event.token) ∉ s.outgoing := by
    intro member
    obtain ⟨asker, events, pending, same⟩ := tracked.asked id event.token member
    exact idle events (same ▸ (tracked.known id asker events pending).2)
  have requests (id : Nat) (token : String) :
      (id, .createProgress token) ∈ s.outgoing ++ [(s.nextRequestId, .createProgress event.token)] ↔
        (id, .createProgress token) ∈ s.outgoing ∨ id = s.nextRequestId ∧ token = event.token := by
    simp
  exact {
    on := tracked.on
    fresh := by
      intro entry member
      rcases List.mem_append.mp member with old | new
      · exact Nat.lt_succ_of_lt (tracked.fresh entry old)
      · obtain rfl := List.mem_singleton.mp new
        exact Nat.lt_succ_self _
    distinct := by
      apply List.pairwise_append.mpr
      refine ⟨tracked.distinct, List.pairwise_singleton _ _, ?_⟩
      intro entry member new last
      obtain rfl := List.mem_singleton.mp last
      exact Nat.ne_of_lt (tracked.fresh entry member)
    single := by
      intro id other token one two
      rcases (requests id token).mp one with old | ⟨rfl, rfl⟩
      · rcases (requests other token).mp two with older | ⟨rfl, rfl⟩
        · exact tracked.single id other token old older
        · exact absurd old (none_yet id)
      · rcases (requests other _).mp two with older | ⟨rfl, -⟩
        · exact absurd older (none_yet other)
        · rfl
    asked := by
      intro id token member
      rcases (requests id token).mp member with old | ⟨rfl, rfl⟩
      · obtain ⟨asker, events, pending, same⟩ := tracked.asked id token old
        exact ⟨asker, _, .waiting pending nofun, same⟩
      · exact ⟨event, [event], .asked (List.mem_append_right _ List.mem_cons_self), rfl⟩
    known := by
      intro id asker events pending
      rcases pending_cons pending with ⟨same, created, rfl⟩ | ⟨before, old, -, rfl⟩
      · obtain rfl : event = asker := Input.progress.inj same
        rcases List.mem_append.mp created with closing | last
        · exact absurd closing (creates id event.token)
        · obtain ⟨rfl, -⟩ := Message.create.inj (List.mem_singleton.mp last)
          exact ⟨List.mem_append_right _ List.mem_cons_self, setToken_same _ _ _⟩
      · obtain ⟨member, buffered⟩ := tracked.known id asker before old
        have apart : event.token ≠ asker.token := fun same => idle before (same ▸ buffered)
        have nothing : received asker.token (.progress event) = [] := by
          simp [received, apart]
        rw [nothing, List.append_nil]
        exact ⟨List.mem_append_left _ member,
          (setToken_other s (Ne.symm apart) _).trans buffered⟩
    phase := by
      intro token
      have uncreated : valuesFor token [.create s.nextRequestId event.token] = [] := rfl
      have sent : valuesFor token (closed ++ [.create s.nextRequestId event.token]) =
          valuesFor token closed := by
        unfold valuesFor at uncreated ⊢
        rw [List.filterMap_append, uncreated, List.append_nil]
      by_cases own : token = event.token
      · subst own
        have entry : ((s.setToken event.token (some (.creating [event]))).register
            (.createProgress event.token)).progressTokens event.token =
              some (.creating [event]) := setToken_same _ _ _
        unfold Phase
        simp only [entry, notified_cons, sent, List.map_append, closes]
        refine ⟨trivial, ?_, ?_, s.nextRequestId, ?_⟩
        · simp [begins, cycles]
        · simp
        · exact List.mem_append_right _ List.mem_cons_self
      · apply (tracked.phase token).frame
        · exact setToken_other s own _
        · intro id
          refine (requests id token).trans ⟨?_, .inl⟩
          rintro (old | ⟨-, same⟩)
          · exact old
          · exact absurd same own
        · exact sent.trans (others token own)
  }

/-- A report or an end for a token that waits for the answer: it is buffered. -/
theorem tracked_buffer {past : Past} {s : ProgressServer} (tracked : Tracked past s)
    {event : ProgressEvent} {events : List ProgressEvent}
    (buffered : s.progressTokens event.token = some (.creating events))
    (within : event.state ≠ .begin) (unended : ∀ other ∈ events, other.state ≠ .end_) :
    Tracked (⟨.progress event, []⟩ :: past)
      (s.setToken event.token (some (.creating (events ++ [event])))) := by
  exact {
    on := tracked.on
    fresh := tracked.fresh
    distinct := tracked.distinct
    single := tracked.single
    asked := by
      intro id token member
      obtain ⟨asker, before, pending, same⟩ := tracked.asked id token member
      exact ⟨asker, _, .waiting pending nofun, same⟩
    known := by
      intro id asker after pending
      rcases pending_cons pending with ⟨-, created, -⟩ | ⟨before, old, -, rfl⟩
      · cases created
      · obtain ⟨member, entry⟩ := tracked.known id asker before old
        refine ⟨member, ?_⟩
        by_cases own : event.token = asker.token
        · obtain rfl : before = events := by
            rw [own, entry] at buffered
            simpa using buffered
          rw [← own]
          simp [received]
        · have nothing : received asker.token (.progress event) = [] := by
            simp [received, own]
          rw [nothing, List.append_nil]
          exact (setToken_other s (Ne.symm own) _).trans entry
    phase := by
      intro token
      by_cases own : token = event.token
      · subst own
        have phase := tracked.phase event.token
        unfold Phase at phase ⊢
        rw [buffered] at phase
        obtain ⟨closed, valid, single, id, member⟩ := phase
        have nonempty : events ≠ [] := by
          rintro rfl
          obtain ⟨asker, before, pending, same⟩ := tracked.asked id event.token member
          obtain ⟨rest, rfl⟩ := pending.head
          have entry := (tracked.known id asker _ pending).2
          rw [same, buffered] at entry
          simp at entry
        have open_ : cycles false (events.map ProgressEvent.state) = some true := by
          apply cycles_of_getLast valid
          · rw [List.getLast?_map, List.getLast?_eq_some_getLast nonempty]
            rfl
          · exact unended _ (List.getLast_mem nonempty)
        simp only [setToken_same, notified_cons, List.map_append, cycles_append, open_]
        refine ⟨by simpa [valuesFor, cycles] using closed, ?_, ?_, id, member⟩
        · cases kind : event.state with
          | begin => exact absurd kind within
          | report => simp [cycles, kind]
          | end_ => simp [cycles, kind]
        · intro other last
          rw [List.tail_append_of_ne_nil nonempty] at last
          rcases List.mem_append.mp last with old | new
          · exact single other old
          · obtain rfl := List.mem_singleton.mp new
            exact within
      · apply (tracked.phase token).frame (setToken_other s own _) (fun id => Iff.rfl) rfl
  }

/-- A report or an end for a token whose cycle runs at the client: it is sent. -/
theorem tracked_running {past : Past} {s : ProgressServer} (tracked : Tracked past s)
    {event : ProgressEvent} (active : s.progressTokens event.token = some .active)
    (running : Running past event.token) (within : event.state ≠ .begin) :
    Tracked (⟨.progress event, [notification event]⟩ :: past)
      (if event.state = .end_ then s.setToken event.token none else s) := by
  have outgoing : (if event.state = .end_ then s.setToken event.token none else s).outgoing =
      s.outgoing := by
    split <;> rfl
  have elsewhere {token : String} (apart : token ≠ event.token) :
      (if event.state = .end_ then s.setToken event.token none else s).progressTokens token =
        s.progressTokens token := by
    split
    · exact setToken_other s apart none
    · rfl
  exact {
    on := by split <;> exact tracked.on
    fresh := by split <;> exact tracked.fresh
    distinct := outgoing ▸ tracked.distinct
    single := outgoing ▸ tracked.single
    asked := by
      intro id token member
      obtain ⟨asker, before, pending, same⟩ := tracked.asked id token (outgoing ▸ member)
      exact ⟨asker, _, .waiting pending nofun, same⟩
    known := by
      intro id asker after pending
      rcases pending_cons pending with ⟨-, created, -⟩ | ⟨before, old, -, rfl⟩
      · simp [notification] at created
      · obtain ⟨member, entry⟩ := tracked.known id asker before old
        have apart : event.token ≠ asker.token := by
          intro same
          rw [same, entry] at active
          cases active
        have nothing : received asker.token (.progress event) = [] := by
          simp [received, apart]
        rw [nothing, List.append_nil, elsewhere (Ne.symm apart)]
        exact ⟨outgoing ▸ member, entry⟩
    phase := by
      intro token
      by_cases own : token = event.token
      · subst own
        have phase := tracked.phase event.token
        unfold Phase at phase ⊢
        rw [active] at phase
        obtain ⟨valid, none_asked⟩ := phase
        have open_ := running_cycles valid running
        have sent : (valuesFor event.token [notification event]).map WorkDone.state =
            [event.state] := by
          simp [valuesFor, notification, workDone_state]
        simp only [notified_cons, List.map_append, cycles_append, open_, sent]
        cases kind : event.state with
        | begin => exact absurd kind within
        | report => simp [active, cycles, none_asked]
        | end_ =>
            simp only [setToken_same, reduceIte]
            exact ⟨rfl, none_asked⟩
      · apply (tracked.phase token).frame (elsewhere own) (fun id => by rw [outgoing])
        have elsewhere : valuesFor token ([event].map notification) = [] :=
          valuesFor_others (by simpa using Ne.symm own)
        exact elsewhere
  }

/-- The request in flight under an id. -/
theorem Tracked.request_unique {past : Past} {s : ProgressServer} (tracked : Tracked past s)
    {id : Nat} {one two : OutgoingRequest} (first : (id, one) ∈ s.outgoing)
    (second : (id, two) ∈ s.outgoing) : one = two := by
  have symmetric : Std.Symm fun one two : Nat × OutgoingRequest => one.1 ≠ two.1 :=
    ⟨fun _ _ apart => apart.symm⟩
  by_cases same : (id, one) = (id, two)
  · exact (Prod.mk.inj same).2
  · have apart : id ≠ id := tracked.distinct.forall first second same
    exact absurd rfl apart

/-- The answer to a request that asks for no token, or to none in flight. -/
theorem tracked_unrelated {past : Past} {s : ProgressServer} (tracked : Tracked past s) {id : Nat}
    (accepted : Bool) (unrelated : ∀ token, (id, .createProgress token) ∉ s.outgoing) :
    Tracked (⟨.response id accepted, []⟩ :: past)
      { s with outgoing := s.outgoing.filter fun entry => entry.1 ≠ id } := by
  have requests (other : Nat) (token : String) :
      (other, .createProgress token) ∈ s.outgoing.filter (fun entry => entry.1 ≠ id) ↔
        (other, .createProgress token) ∈ s.outgoing := by
    simp only [List.mem_filter, decide_eq_true_eq, and_iff_left_iff_imp]
    rintro member rfl
    exact unrelated token member
  exact {
    on := tracked.on
    fresh := fun entry member => tracked.fresh entry (List.mem_filter.mp member).1
    distinct := tracked.distinct.filter _
    single := by
      intro one two token first second
      exact tracked.single one two token ((requests one token).mp first)
        ((requests two token).mp second)
    asked := by
      intro other token member
      have old := (requests other token).mp member
      obtain ⟨asker, before, pending, same⟩ := tracked.asked other token old
      refine ⟨asker, _, .waiting pending ?_, same⟩
      intro answer answered
      obtain ⟨rfl, -⟩ := Input.response.inj answered
      exact unrelated token old
    known := by
      intro other asker after pending
      rcases pending_cons pending with ⟨-, created, -⟩ | ⟨before, old, -, rfl⟩
      · cases created
      · obtain ⟨member, entry⟩ := tracked.known other asker before old
        refine ⟨(requests other asker.token).mpr member, ?_⟩
        simpa [received] using entry
    phase := fun token => (tracked.phase token).frame rfl (fun other => requests other token) rfl
  }

/-- The answer to the create request of a token, which settles it. -/
theorem tracked_answer {past : Past} {s : ProgressServer} (tracked : Tracked past s) {id : Nat}
    {token : String} (member : (id, .createProgress token) ∈ s.outgoing) {accepted : Bool}
    {outputs : List Message} {settled : Option ProgressTokenState}
    (creates : ∀ id token, .create id token ∉ outputs)
    (others : ∀ other, other ≠ token → valuesFor other outputs = [])
    (phase : Phase (⟨.response id accepted, outputs⟩ :: past)
      ({ s with outgoing := s.outgoing.filter fun entry => entry.1 ≠ id }.setToken token settled)
      token) :
    Tracked (⟨.response id accepted, outputs⟩ :: past)
      ({ s with outgoing := s.outgoing.filter fun entry => entry.1 ≠ id }.setToken token
        settled) := by
  have requests (other : Nat) (asked : String) :
      (other, .createProgress asked) ∈ s.outgoing.filter (fun entry => entry.1 ≠ id) ↔
        (other, .createProgress asked) ∈ s.outgoing ∧ other ≠ id := by
    simp
  have elsewhere {other : Nat} {asked : String} (apart : other ≠ id)
      (old : (other, .createProgress asked) ∈ s.outgoing) : asked ≠ token := by
    rintro rfl
    exact apart (tracked.single other id asked old member)
  exact {
    on := tracked.on
    fresh := fun entry found => tracked.fresh entry (List.mem_filter.mp found).1
    distinct := tracked.distinct.filter _
    single := by
      intro one two asked first second
      exact tracked.single one two asked ((requests one asked).mp first).1
        ((requests two asked).mp second).1
    asked := by
      intro other asked found
      obtain ⟨old, apart⟩ := (requests other asked).mp found
      obtain ⟨asker, before, pending, same⟩ := tracked.asked other asked old
      refine ⟨asker, _, .waiting pending ?_, same⟩
      intro answer answered
      exact apart (Input.response.inj answered).1.symm
    known := by
      intro other asker after pending
      rcases pending_cons pending with ⟨-, created, -⟩ | ⟨before, old, unanswered, rfl⟩
      · exact absurd created (creates other asker.token)
      · have apart : other ≠ id := fun same => unanswered accepted (same ▸ rfl)
        obtain ⟨found, entry⟩ := tracked.known other asker before old
        refine ⟨(requests other asker.token).mpr ⟨found, apart⟩, ?_⟩
        simp only [received, List.append_nil]
        exact (setToken_other _ (elsewhere apart found) settled).trans entry
    phase := by
      intro other
      by_cases own : other = token
      · exact own ▸ phase
      · refine (tracked.phase other).frame ?_ ?_ (others other own)
        · exact setToken_other _ own settled
        · intro request
          apply (requests request other).trans
          constructor
          · exact And.left
          · intro old
            refine ⟨old, ?_⟩
            rintro rfl
            exact own (OutgoingRequest.createProgress.inj (tracked.request_unique old member))
  }

/-- The client accepts: the buffer is what reached the server since the request, and it is sent. -/
theorem tracked_accepted {past : Past} {s : ProgressServer} (tracked : Tracked past s) {id : Nat}
    {token : String} (member : (id, .createProgress token) ∈ s.outgoing)
    {events : List ProgressEvent} (buffered : s.progressTokens token = some (.creating events))
    (own : ∀ event ∈ events, event.token = token) :
    Tracked (⟨.response id true, events.map notification⟩ :: past)
      ({ s with outgoing := s.outgoing.filter fun entry => entry.1 ≠ id }.setToken token
        (some .active)) := by
  apply tracked_answer tracked member
  · simp [notification]
  · intro other apart
    exact valuesFor_others fun event found same => apart (same.symm.trans (own event found))
  · have phase := tracked.phase token
    unfold Phase at phase ⊢
    rw [buffered] at phase
    obtain ⟨closed, valid, -⟩ := phase
    simp only [setToken_same, notified_cons, List.map_append, cycles_append, closed,
      valuesFor_notifications own, states_workDone]
    refine ⟨valid, ?_⟩
    intro other found
    obtain ⟨old, apart⟩ := List.mem_filter.mp found
    rw [tracked.single other id token old member] at apart
    simp at apart

/-- The client rejects: the buffered events are dropped. -/
theorem tracked_rejected {past : Past} {s : ProgressServer} (tracked : Tracked past s) {id : Nat}
    {token : String} (member : (id, .createProgress token) ∈ s.outgoing)
    {events : List ProgressEvent} (buffered : s.progressTokens token = some (.creating events)) :
    Tracked (⟨.response id false, []⟩ :: past)
      ({ s with outgoing := s.outgoing.filter fun entry => entry.1 ≠ id }.setToken token none) := by
  apply tracked_answer tracked member (by simp) (fun _ _ => rfl)
  have phase := tracked.phase token
  unfold Phase at phase ⊢
  rw [buffered] at phase
  obtain ⟨closed, -⟩ := phase
  simp only [setToken_same, notified_cons, List.map_append, cycles_append, closed]
  refine ⟨rfl, ?_⟩
  intro other found
  obtain ⟨old, apart⟩ := List.mem_filter.mp found
  rw [tracked.single other id token old member] at apart
  simp at apart

/-- Another request to the client. -/
theorem tracked_request {past : Past} {s : ProgressServer} (tracked : Tracked past s) :
    Tracked (⟨.request, [.request s.nextRequestId]⟩ :: past) (s.register .other) := by
  have requests (id : Nat) (token : String) :
      (id, .createProgress token) ∈ s.outgoing ++ [(s.nextRequestId, .other)] ↔
        (id, .createProgress token) ∈ s.outgoing := by
    simp
  exact {
    on := tracked.on
    fresh := by
      intro entry member
      rcases List.mem_append.mp member with old | new
      · exact Nat.lt_succ_of_lt (tracked.fresh entry old)
      · obtain rfl := List.mem_singleton.mp new
        exact Nat.lt_succ_self _
    distinct := by
      apply List.pairwise_append.mpr
      refine ⟨tracked.distinct, List.pairwise_singleton _ _, ?_⟩
      intro entry member new last
      obtain rfl := List.mem_singleton.mp last
      exact Nat.ne_of_lt (tracked.fresh entry member)
    single := by
      intro id other token one two
      exact tracked.single id other token ((requests id token).mp one)
        ((requests other token).mp two)
    asked := by
      intro id token member
      obtain ⟨asker, before, pending, same⟩ :=
        tracked.asked id token ((requests id token).mp member)
      exact ⟨asker, _, .waiting pending nofun, same⟩
    known := by
      intro id asker after pending
      rcases pending_cons pending with ⟨-, created, -⟩ | ⟨before, old, -, rfl⟩
      · simp at created
      · obtain ⟨member, entry⟩ := tracked.known id asker before old
        refine ⟨(requests id asker.token).mpr member, ?_⟩
        simp only [received, List.append_nil]
        exact entry
    phase := fun token => (tracked.phase token).frame rfl (fun id => requests id token) rfl
  }

/-- An orderly step keeps the invariant. -/
theorem tracked_react {past : Past} {s : ProgressServer} {input : Input}
    (tracked : Tracked past s) (orderly : Orderly past s input) :
    Tracked (⟨input, (react s input).2⟩ :: past) (react s input).1 := by
  cases input with
  | request => exact tracked_request tracked
  | response id accepted =>
      change Tracked (⟨_, (s.completeRequest id accepted).2⟩ :: past)
        (s.completeRequest id accepted).1
      unfold completeRequest
      cases found : s.outgoing.find? fun entry => entry.1 = id with
      | none =>
          have absent : ∀ entry ∈ s.outgoing, entry.1 ≠ id := by
            simpa using found
          have kept : (s.outgoing.filter fun entry => entry.1 ≠ id) = s.outgoing := by
            simpa using absent
          have unrelated := tracked_unrelated tracked accepted
            fun token member => absent _ member rfl
          rw [kept] at unrelated
          exact unrelated
      | some entry =>
          obtain ⟨other, request⟩ := entry
          obtain rfl : other = id := by simpa using List.find?_some found
          have member := List.mem_of_find?_eq_some found
          cases request with
          | other =>
              apply tracked_unrelated tracked accepted
              intro token create
              cases tracked.request_unique member create
          | createProgress token =>
              obtain ⟨event, events, pending, rfl⟩ := tracked.asked other token member
              have buffered := (tracked.known other event events pending).2
              cases accepted with
              | false => exact tracked_rejected tracked member buffered
              | true =>
                  simp only [flushProgress, buffered]
                  exact tracked_accepted tracked member buffered pending.tokens
  | progress event =>
      change Tracked (⟨_, (s.reportProgress event).2⟩ :: past) (s.reportProgress event).1
      have ordered := orderly tracked.on
      unfold reportProgress
      rw [if_neg (by simp [tracked.on])]
      cases entry : s.progressTokens event.token with
      | none =>
          simp only [entry] at ordered
          rw [ordered]
          have phase := tracked.phase event.token
          unfold Phase at phase
          rw [entry] at phase
          apply tracked_begin tracked ordered _ (fun _ _ => rfl) (by simp) (by simp [entry])
          simpa [valuesFor] using phase.1
      | some state =>
          cases state with
          | creating events =>
              simp only [entry] at ordered
              have buffer := tracked_buffer tracked entry ordered.1 ordered.2
              cases kind : event.state with
              | begin => exact absurd kind ordered.1
              | report => exact buffer
              | end_ => exact buffer
          | active =>
              simp only [entry] at ordered
              cases kind : event.state with
              | begin =>
                  have phase := tracked.phase event.token
                  unfold Phase at phase
                  rw [entry] at phase
                  have open_ := running_cycles phase.1 ordered
                  apply tracked_begin tracked kind _ _ (by simp [notification]) (by simp [entry])
                  · rw [cycles_append, open_]
                    simp [valuesFor, notification, workDone, closing, WorkDone.state, cycles]
                  · intro token apart
                    have elsewhere :
                        valuesFor token ([closing event.token].map notification) = [] :=
                      valuesFor_others (by simpa [closing] using Ne.symm apart)
                    exact elsewhere
              | report =>
                  have sent := tracked_running tracked entry ordered (by simp [kind])
                  simpa [kind] using sent
              | end_ =>
                  have sent := tracked_running tracked entry ordered (by simp [kind])
                  simpa [kind] using sent

/-! ### What each step sends -/

/-- The answer that accepts a create request sends the buffer. -/
theorem Tracked.accept_sends {past : Past} {s : ProgressServer} (tracked : Tracked past s)
    {id : Nat} {token : String} (member : (id, .createProgress token) ∈ s.outgoing)
    {events : List ProgressEvent} (buffered : s.progressTokens token = some (.creating events)) :
    (react s (.response id true)).2 = events.map notification := by
  have found : s.outgoing.find? (fun entry => entry.1 = id) = some (id, .createProgress token) := by
    cases search : s.outgoing.find? fun entry => entry.1 = id with
    | none =>
        have absent : ∀ entry ∈ s.outgoing, entry.1 ≠ id := by simpa using search
        exact absurd rfl (absent _ member)
    | some entry =>
        obtain ⟨other, request⟩ := entry
        obtain rfl : other = id := by simpa using List.find?_some search
        rw [tracked.request_unique (List.mem_of_find?_eq_some search) member]
  change (s.completeRequest id true).2 = _
  unfold completeRequest
  simp [found, flushProgress, buffered]

theorem delivers_react {past : Past} {s : ProgressServer} {input : Input}
    (tracked : Tracked past s) : Delivers past ⟨input, (react s input).2⟩ := by
  intro id event events pending answered
  obtain rfl : input = .response id true := answered
  obtain ⟨member, buffered⟩ := tracked.known id event events pending
  exact tracked.accept_sends member buffered

/-- The only begin of a buffer is the event its create request was sent for. -/
theorem Tracked.begin_unique {past : Past} {s : ProgressServer} (tracked : Tracked past s)
    {id : Nat} {event other : ProgressEvent} {events : List ProgressEvent}
    (pending : Pending past id event events) (member : other ∈ events)
    (begins : other.state = .begin) : other = event := by
  have phase := tracked.phase event.token
  unfold Phase at phase
  rw [(tracked.known id event events pending).2] at phase
  obtain ⟨-, -, single, -⟩ := phase
  obtain ⟨rest, rfl⟩ := pending.head
  rcases List.mem_cons.mp member with same | later
  · exact same
  · exact absurd begins (single other later)

/-- Only the answer that accepts a create request sends anything. -/
theorem answer_sends {s : ProgressServer} {id : Nat} {accepted : Bool} {message : Message}
    (sent : message ∈ (react s (.response id accepted)).2) :
    ∃ token, (id, .createProgress token) ∈ s.outgoing ∧ accepted = true := by
  change message ∈ (s.completeRequest id accepted).2 at sent
  unfold completeRequest at sent
  split at sent
  next => cases sent
  next other request found =>
    obtain rfl : other = id := by simpa using List.find?_some found
    cases request with
    | other => cases sent
    | createProgress token =>
        refine ⟨token, List.mem_of_find?_eq_some found, ?_⟩
        cases accepted with
        | true => rfl
        | false => cases sent

theorem begins_accepted_react {past : Past} {s : ProgressServer} {input : Input}
    (tracked : Tracked past s) (orderly : Orderly past s input) :
    BeginsAccepted past ⟨input, (react s input).2⟩ := by
  intro token value sent begins
  cases input with
  | request => simp [react] at sent
  | progress event =>
      have ordered := orderly tracked.on
      change .progress token value ∈ (s.reportProgress event).2 at sent
      unfold reportProgress at sent
      rw [if_neg (by simp [tracked.on])] at sent
      have no_begin (other : ProgressEvent) (within : other.state ≠ .begin)
          (member : .progress token value = notification other) : False := by
        obtain ⟨-, rfl⟩ := Message.progress.inj member
        exact within ((workDone_state other).symm.trans begins)
      cases kind : event.state with
      | begin =>
          simp only [kind, List.mem_append] at sent
          rcases sent with closed | create
          · split at closed
            · exact (no_begin _ (by simp [closing]) (List.mem_singleton.mp closed)).elim
            · cases closed
          · simp at create
      | report =>
          simp only [kind] at sent
          split at sent
          · cases sent
          · exact (no_begin event (by simp [kind]) (List.mem_singleton.mp sent)).elim
      | end_ =>
          simp only [kind] at sent
          split at sent
          · cases sent
          · exact (no_begin event (by simp [kind]) (List.mem_singleton.mp sent)).elim
  | response id accepted =>
      obtain ⟨asked, member, rfl⟩ := answer_sends sent
      obtain ⟨event, events, pending, rfl⟩ := tracked.asked id asked member
      rw [tracked.accept_sends member (tracked.known id event events pending).2] at sent
      obtain ⟨other, buffered, same⟩ := List.mem_map.mp sent
      obtain ⟨rfl, rfl⟩ := Message.progress.inj same
      have first := tracked.begin_unique pending buffered ((workDone_state other).symm.trans begins)
      exact ⟨id, event, events, pending, rfl, by rw [first], by rw [first]⟩

/-! ### A client without the capability -/

/-- Nothing is ever asked for or sent. -/
structure Muted (past : Past) (s : ProgressServer) : Prop where
  off : s.workDoneProgress = false
  unasked : ∀ id token, (id, .createProgress token) ∉ s.outgoing
  unsent : ∀ token, notified token past = []
  settled : ∀ id event events, ¬ Pending past id event events

theorem muted_initial : Muted [] (initial false) where
  off := rfl
  unasked := nofun
  unsent _ := rfl
  settled := nofun

theorem muted_react {past : Past} {s : ProgressServer} (muted : Muted past s) (input : Input) :
    Muted (⟨input, (react s input).2⟩ :: past) (react s input).1 ∧
      ∀ token, valuesFor token (react s input).2 = [] := by
  have quiet {outputs : List Message} (creates : ∀ id token, .create id token ∉ outputs)
      (id : Nat) (event : ProgressEvent) (events : List ProgressEvent) :
      ¬ Pending (⟨input, outputs⟩ :: past) id event events := by
    intro pending
    rcases pending_cons pending with ⟨-, created, -⟩ | ⟨before, old, -, -⟩
    · exact creates id event.token created
    · exact muted.settled id event before old
  cases input with
  | request =>
      have added : Muted (⟨.request, [.request s.nextRequestId]⟩ :: past) (s.register .other) :=
        ⟨muted.off, by simpa [register] using muted.unasked,
          fun token => by rw [notified_cons, muted.unsent]; rfl, quiet (by simp)⟩
      exact ⟨added, fun _ => rfl⟩
  | progress event =>
      change Muted (⟨_, (s.reportProgress event).2⟩ :: past) (s.reportProgress event).1 ∧
        ∀ token, valuesFor token (s.reportProgress event).2 = []
      unfold reportProgress
      rw [if_pos muted.off]
      exact ⟨⟨muted.off, muted.unasked, fun token => by rw [notified_cons, muted.unsent]; rfl,
        quiet (by simp)⟩, fun _ => rfl⟩
  | response id accepted =>
      change Muted (⟨_, (s.completeRequest id accepted).2⟩ :: past)
        (s.completeRequest id accepted).1 ∧
        ∀ token, valuesFor token (s.completeRequest id accepted).2 = []
      unfold completeRequest
      split
      next =>
        exact ⟨⟨muted.off, muted.unasked, fun token => by rw [notified_cons, muted.unsent]; rfl,
          quiet (by simp)⟩, fun _ => rfl⟩
      next other request found =>
        cases request with
        | createProgress token =>
            exact absurd (List.mem_of_find?_eq_some found) (muted.unasked other token)
        | other =>
            have unasked : ∀ id' token, (id', .createProgress token) ∉
                s.outgoing.filter fun entry => entry.1 ≠ id :=
              fun id' token member => muted.unasked id' token (List.mem_filter.mp member).1
            exact ⟨⟨muted.off, unasked, fun token => by rw [notified_cons, muted.unsent]; rfl,
              quiet (by simp)⟩, fun _ => rfl⟩

theorem not_mem_of_valuesFor {token : String} {outputs : List Message} {value : WorkDone}
    (none : valuesFor token outputs = []) : .progress token value ∉ outputs := by
  intro member
  have absent := List.filterMap_eq_nil_iff.mp none _ member
  simp at absent

/-- Every run of orderly steps leaves the protocol intact, for every token and every order of events and
answers. -/
theorem progress_protocol_of_orderly {workDoneProgress : Bool} {past : Past} {s : ProgressServer}
    (ran : Run react Orderly (initial workDoneProgress) past s) : ProgressProtocol past := by
  cases workDoneProgress with
  | true =>
      have tracked : Tracked past s :=
        ran.invariant tracked_initial fun _ _ _ tracked orderly => tracked_react tracked orderly
      exact {
        cycles := by
          intro token
          have phase := tracked.phase token
          unfold Phase at phase
          split at phase
          · simp [phase.1]
          · exact phase.1
          · simp [phase.1]
        accepted := ran.everywhere tracked_initial
          (fun _ _ _ tracked orderly => tracked_react tracked orderly)
          (fun _ _ _ tracked orderly => begins_accepted_react tracked orderly)
        delivered := ran.everywhere tracked_initial
          (fun _ _ _ tracked orderly => tracked_react tracked orderly)
          (fun _ _ _ tracked _ => delivers_react tracked)
      }
  | false =>
      have kept : ∀ past s input, Muted past s → Orderly past s input →
          Muted (⟨input, (react s input).2⟩ :: past) (react s input).1 :=
        fun _ _ input muted _ => (muted_react muted input).1
      exact {
        cycles := by
          intro token
          rw [(ran.invariant muted_initial kept).unsent token]
          rfl
        accepted := ran.everywhere muted_initial kept fun _ _ input muted _ token value sent =>
          absurd sent (not_mem_of_valuesFor ((muted_react muted input).2 token))
        delivered := ran.everywhere muted_initial kept fun _ _ _ muted _ id event events pending =>
          absurd pending (muted.settled id event events)
      }

/-- In a run of orderly steps every request to the client has an id of its own, and a token waits for
the answer to at most one. -/
theorem create_requests_single {past : Past} {s : ProgressServer}
    (ran : Run react Orderly (initial true) past s) :
    (s.outgoing.Pairwise fun one two => one.1 ≠ two.1) ∧
      ∀ id other token, (id, .createProgress token) ∈ s.outgoing →
        (other, .createProgress token) ∈ s.outgoing → id = other := by
  have tracked : Tracked past s :=
    ran.invariant tracked_initial fun _ _ _ tracked orderly => tracked_react tracked orderly
  exact ⟨tracked.distinct, tracked.single⟩

theorem create_requests_single_first :
    ((initial true).react (.progress ⟨"t", "T", none, none, .begin⟩)).1.outgoing.Pairwise
      fun one two => one.1 ≠ two.1 := by
  have orderly : Orderly [] (initial true) (.progress ⟨"t", "T", none, none, .begin⟩) := fun _ => rfl
  exact (create_requests_single (.next .start orderly)).1

/-! ### Runs that break it -/

def indexing (state : ProgressState) : ProgressEvent :=
  ⟨"indexing", "Indexing", none, none, state⟩

/-- A cycle that the client accepts before it goes on. -/
theorem accepted_cycle_protocol :
    ProgressProtocol (replay react [] (initial true)
      [.progress (indexing .begin), .response 0 true, .progress (indexing .report),
        .progress (indexing .end_)]).1 := by
  apply progress_protocol_of_orderly
  apply run_replay .start
  refine ⟨?_, trivial, ?_, ?_, trivial⟩
  · intro _
    rfl
  · intro _
    exact ⟨_, rfl, by decide⟩
  · intro _
    exact ⟨_, rfl, by decide⟩

/-- A report that comes late is sent after its cycle's end. An end in the flushed buffer leaves the
token active, and the next begin sends a second end. And a second begin replaces the buffer of the
first, whose cycle is not sent when the client accepts it. -/
theorem disorderly_runs_break_protocol :
    ¬ ProgressProtocol (replay react [] (initial true)
      [.progress (indexing .begin), .response 0 true, .progress (indexing .end_),
        .progress (indexing .report)]).1 ∧
    ¬ ProgressProtocol (replay react [] (initial true)
      [.progress (indexing .begin), .progress (indexing .end_), .response 0 true,
        .progress (indexing .begin)]).1 ∧
    ¬ ProgressProtocol (replay react [] (initial true)
      [.progress (indexing .begin), .progress (indexing .end_), .progress (indexing .begin),
        .response 0 true]).1 := by
  refine ⟨?_, ?_, ?_⟩
  · intro protocol
    have late := protocol.cycles "indexing"
    revert late
    decide
  · intro protocol
    have again := protocol.cycles "indexing"
    revert again
    decide
  · intro protocol
    have first : Pending (replay react [] (initial true)
        [.progress (indexing .begin), .progress (indexing .end_), .progress (indexing .begin)]).1 0
        (indexing .begin) ([indexing .begin] ++ received "indexing" (.progress (indexing .end_)) ++
          received "indexing" (.progress (indexing .begin))) :=
      .waiting (.waiting (.asked List.mem_cons_self) (by simp)) (by simp)
    have sent := protocol.delivered.1 0 _ _ first rfl
    revert sent
    decide

end CaffeineLs.Server
