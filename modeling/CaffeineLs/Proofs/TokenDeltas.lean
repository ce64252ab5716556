/-
Module: CaffeineLs.Proofs.TokenDeltas
Purpose: The edit between two token streams reproduces the new one, and so does every delta a client
  applies, as long as no index wraps.
Trusted boundary: none
Main exports: Narrow, applyEdits_deltaEdits, streams_reconstructed
-/
import Mathlib
import CaffeineLs.Server.SemanticTokens

namespace CaffeineLs.Server.SemanticTokens

open ListDiff
open Reactive (Step)

/-! ### The edit -/

@[simp] theorem flatten_nil : flatten [] = [] := rfl

@[simp] theorem flatten_cons (token : SemanticToken) (tokens : List SemanticToken) :
    flatten (token :: tokens) = token.data ++ flatten tokens := rfl

theorem flatten_append (front back : List SemanticToken) :
    flatten (front ++ back) = flatten front ++ flatten back := by
  simp [flatten]

theorem data_length (token : SemanticToken) : token.data.length = 5 := rfl

theorem flatten_take (tokens : List SemanticToken) (n : Nat) :
    (flatten tokens).take (n * 5) = flatten (tokens.take n) := by
  induction tokens generalizing n with
  | nil => simp
  | cons token tokens ih =>
      cases n with
      | zero => simp
      | succ n =>
          have more : (n + 1) * 5 = token.data.length + n * 5 := by
            rw [data_length]
            omega
          rw [flatten_cons, List.take_succ_cons, flatten_cons, more, List.take_length_add_append, ih]

theorem flatten_drop (tokens : List SemanticToken) (n : Nat) :
    (flatten tokens).drop (n * 5) = flatten (tokens.drop n) := by
  induction tokens generalizing n with
  | nil => simp
  | cons token tokens ih =>
      cases n with
      | zero => simp
      | succ n =>
          have more : (n + 1) * 5 = token.data.length + n * 5 := by
            rw [data_length]
            omega
          rw [flatten_cons, List.drop_succ_cons, more, List.drop_length_add_append, ih]

/-- A splice of whole tokens is a splice of the flat array. -/
theorem flatten_splice (tokens data : List SemanticToken) (start count : Nat) :
    splice (flatten tokens) (start * 5) (count * 5) (flatten data) =
      flatten (splice tokens start count data) := by
  have stop : start * 5 + count * 5 = (start + count) * 5 := by omega
  rw [splice, splice, stop, flatten_take, flatten_drop, flatten_append, flatten_append]

/-- The start and the length of the edit fit the numbers of the protocol. -/
def Narrow (old new : List SemanticToken) : Prop :=
  sharedPrefix old new * 5 < 2 ^ 32 ∧
    (old.length - sharedPrefix old new -
      sharedSuffix (old.drop (sharedPrefix old new)) (new.drop (sharedPrefix old new))) * 5 < 2 ^ 32

theorem toNat_asU32 {n : Nat} (fits : n < 2 ^ 32) : (asU32 n).toNat = n :=
  UInt32.toNat_ofNat_of_lt' fits

theorem getD_data (data : List UInt32) :
    (if data.isEmpty then none else some data).getD [] = data := by
  cases data <;> rfl

theorem applyEdits_deltaEdits {old new : List SemanticToken} (narrow : Narrow old new) :
    applyEdits (flatten old) (deltaEdits old new) = flatten new := by
  have whole := splice_shared old new rfl rfl
  unfold deltaEdits
  by_cases equal : sharedPrefix old new +
        sharedSuffix (old.drop (sharedPrefix old new)) (new.drop (sharedPrefix old new)) = old.length ∧
      sharedPrefix old new +
        sharedSuffix (old.drop (sharedPrefix old new)) (new.drop (sharedPrefix old new)) = new.length
  · -- Nothing is between the shared ends of either list.
    have kept : old.length - sharedPrefix old new -
        sharedSuffix (old.drop (sharedPrefix old new)) (new.drop (sharedPrefix old new)) = 0 := by omega
    have added : new.length - sharedPrefix old new -
        sharedSuffix (old.drop (sharedPrefix old new)) (new.drop (sharedPrefix old new)) = 0 := by omega
    rw [kept, added, splice, List.take_zero, List.append_nil, Nat.add_zero,
      List.take_append_drop] at whole
    simp only [if_pos equal]
    rw [whole]
    rfl
  · simp only [if_neg equal, applyEdits, List.foldl_cons, List.foldl_nil, getD_data]
    rw [toNat_asU32 narrow.1, toNat_asU32 narrow.2, flatten_splice, Nat.sub_right_comm new.length,
      whole]

/-! ### Runs -/

def TokensResponse.resultId : TokensResponse → String
  | .full resultId _ => resultId
  | .delta resultId _ => resultId

def Input.encoded : Input → Encoded
  | .full encoded => encoded
  | .delta _ encoded => encoded
  | _ => none

abbrev Past := Reactive.History Input TokensResponse

/-- The server computed these tokens for the result id. -/
def Computed (past : Past) (resultId : String) (tokens : List SemanticToken) : Prop :=
  ∃ step ∈ past, (∃ fileId, step.input.encoded = some (fileId, tokens)) ∧
    ∃ response ∈ step.outputs, response.resultId = resultId

/-- The counter does not wrap, and no edit's indexes do. -/
def Fits (_past : Past) (s : Session) (input : Input) : Prop :=
  input.encoded ≠ none → s.cache.nextId.toNat + 1 < 2 ^ 64 ∧
    ∀ named fileId tokens old, input = .delta named (some (fileId, tokens)) →
      s.cache.previous fileId named = some old → Narrow old tokens

/-- Every stream a client holds is the one the server computed for its result id. -/
def Reconstructed (past : Past) (s : Session) : Prop :=
  ∀ resultId flat, s.streams resultId = some flat →
    (∃ tokens, Computed past resultId tokens) ∧
      ∀ tokens, Computed past resultId tokens → flat = flatten tokens

/-- What a response on its way carries. -/
def Faithful (past : Past) (sent : Sent) : Prop :=
  match sent.response with
  | .full resultId data => Computed past resultId data
  | .delta resultId edits => ∃ named old new, sent.named = some named ∧ Computed past named old ∧
      Computed past resultId new ∧ edits = deltaEdits old new ∧ Narrow old new

structure Streamed (past : Past) (s : Session) : Prop where
  issued : ∀ resultId tokens, Computed past resultId tokens →
    ∃ n, n ≤ s.cache.nextId.toNat ∧ resultId = Nat.repr n
  once : ∀ resultId tokens tokens', Computed past resultId tokens →
    Computed past resultId tokens' → tokens = tokens'
  cached : ∀ fileId document, s.cache.documents fileId = some document →
    Computed past document.resultId document.tokens
  sent : ∀ sent ∈ s.inFlight, Faithful past sent
  held : ∀ resultId flat, s.streams resultId = some flat →
    ∃ tokens, Computed past resultId tokens ∧ flat = flatten tokens

theorem computed_cons {past : Past} {step : Step Input TokensResponse} {resultId : String}
    {tokens : List SemanticToken} :
    Computed (step :: past) resultId tokens ↔
      ((∃ fileId, step.input.encoded = some (fileId, tokens)) ∧
        ∃ response ∈ step.outputs, response.resultId = resultId) ∨ Computed past resultId tokens := by
  simp [Computed]

theorem Computed.later {past : Past} {step : Step Input TokensResponse} {resultId : String}
    {tokens : List SemanticToken} (computed : Computed past resultId tokens) :
    Computed (step :: past) resultId tokens :=
  computed_cons.mpr (.inr computed)

theorem Faithful.later {past : Past} {step : Step Input TokensResponse} {sent : Sent}
    (faithful : Faithful past sent) : Faithful (step :: past) sent := by
  unfold Faithful at faithful ⊢
  split
  · next same =>
      rw [same] at faithful
      exact faithful.later
  · next same =>
      rw [same] at faithful
      obtain ⟨named, old, new, names, before, after, edits, narrow⟩ := faithful
      exact ⟨named, old, new, names, before.later, after.later, edits, narrow⟩

/-- A step that answers nothing computes nothing. -/
theorem computed_silent {past : Past} {input : Input} {resultId : String}
    {tokens : List SemanticToken} :
    Computed (⟨input, []⟩ :: past) resultId tokens ↔ Computed past resultId tokens := by
  simp [computed_cons]

theorem computed_answer {past : Past} {input : Input} {response : TokensResponse} {fileId : FileId}
    {tokens : List SemanticToken} (encodes : input.encoded = some (fileId, tokens))
    {resultId : String} {tokens' : List SemanticToken} :
    Computed (⟨input, [response]⟩ :: past) resultId tokens' ↔
      (tokens' = tokens ∧ response.resultId = resultId) ∨ Computed past resultId tokens' := by
  rw [computed_cons]
  simp [encodes, eq_comm]

theorem streamed_initial : Streamed [] initial where
  issued := fun _ _ ⟨_, member, _⟩ => absurd member List.not_mem_nil
  once := fun _ _ _ ⟨_, member, _⟩ => absurd member List.not_mem_nil
  cached := fun _ _ stored => nomatch stored
  sent := fun _ member => absurd member List.not_mem_nil
  held := fun _ _ holds => nomatch holds

theorem toNat_next {id : UInt64} (fits : id.toNat + 1 < 2 ^ 64) : (id + 1).toNat = id.toNat + 1 := by
  rw [UInt64.toNat_add]
  exact Nat.mod_eq_of_lt fits

/-- What a worker does that stores its tokens and answers with them, or with edits that lead to them. -/
theorem Streamed.store {past : Past} {s : Session} (streamed : Streamed past s) {input : Input}
    {fileId : FileId} {tokens : List SemanticToken}
    (encodes : input.encoded = some (fileId, tokens)) (fits : s.cache.nextId.toNat + 1 < 2 ^ 64)
    {named : Option String} {response : TokensResponse}
    (labelled : response.resultId = (s.cache.store fileId tokens).2)
    (leads : (∃ resultId, response = .full resultId tokens) ∨
      ∃ resultId previous old, response = .delta resultId (deltaEdits old tokens) ∧
        named = some previous ∧ s.cache.previous fileId previous = some old ∧ Narrow old tokens) :
    Streamed (⟨input, [response]⟩ :: past)
      (s.answered named ((s.cache.store fileId tokens).1, some response)).1 := by
  have next := toNat_next fits
  have mine : Computed (⟨input, [response]⟩ :: past) response.resultId tokens :=
    (computed_answer encodes).mpr (.inl ⟨rfl, rfl⟩)
  have fresh : ∀ tokens', ¬ Computed past response.resultId tokens' := by
    intro tokens' computed
    obtain ⟨n, le, same⟩ := streamed.issued _ _ computed
    rw [labelled] at same
    have same' : (s.cache.nextId + 1).toNat = n := Nat.repr_injective same
    omega
  constructor
  · intro resultId tokens' computed
    rcases (computed_answer encodes).mp computed with ⟨-, rfl⟩ | earlier
    · exact ⟨(s.cache.nextId + 1).toNat, Nat.le_refl _, labelled⟩
    · obtain ⟨n, le, same⟩ := streamed.issued _ _ earlier
      refine ⟨n, ?_, same⟩
      change n ≤ (s.cache.nextId + 1).toNat
      omega
  · intro resultId one two computed computed'
    rcases (computed_answer encodes).mp computed with ⟨rfl, rfl⟩ | earlier
    · rcases (computed_answer encodes).mp computed' with ⟨rfl, -⟩ | earlier'
      · rfl
      · exact absurd earlier' (fresh two)
    · rcases (computed_answer encodes).mp computed' with ⟨rfl, rfl⟩ | earlier'
      · exact absurd earlier (fresh one)
      · exact streamed.once _ _ _ earlier earlier'
  · intro file document stored
    change (if file = fileId then some (DocumentTokens.mk _ tokens) else s.cache.documents file) =
      some document at stored
    by_cases here : file = fileId
    · rw [if_pos here] at stored
      cases stored
      rw [labelled] at mine
      exact mine
    · rw [if_neg here] at stored
      exact (streamed.cached _ _ stored).later
  · intro sent member
    rcases List.mem_append.mp member with earlier | here
    · exact (streamed.sent _ earlier).later
    · obtain rfl : sent = ⟨named, response⟩ := List.mem_singleton.mp here
      rcases leads with ⟨resultId, rfl⟩ | ⟨resultId, previous, old, rfl, rfl, found, narrow⟩
      · exact mine
      · refine ⟨previous, old, tokens, rfl, ?_, mine, rfl, narrow⟩
        unfold DeltaCache.previous at found
        split at found
        · next document stored =>
            split at found
            · next same =>
                cases found
                rw [← same]
                exact (streamed.cached _ _ stored).later
            · cases found
        · cases found
  · intro resultId flat holds
    obtain ⟨tokens', computed, same⟩ := streamed.held _ _ holds
    exact ⟨tokens', computed.later, same⟩

/-- A step that answers nothing and keeps the cache's entries. -/
theorem Streamed.silent {past : Past} {s s' : Session} (streamed : Streamed past s) {input : Input}
    (counter : s'.cache.nextId = s.cache.nextId)
    (fewer : ∀ fileId document, s'.cache.documents fileId = some document →
      s.cache.documents fileId = some document)
    (left : ∀ sent ∈ s'.inFlight, sent ∈ s.inFlight)
    (holds : ∀ resultId flat, s'.streams resultId = some flat →
      ∃ tokens, Computed past resultId tokens ∧ flat = flatten tokens) :
    Streamed (⟨input, []⟩ :: past) s' := by
  constructor
  · intro resultId tokens computed
    rw [counter]
    exact streamed.issued _ _ (computed_silent.mp computed)
  · intro resultId one two computed computed'
    exact streamed.once _ _ _ (computed_silent.mp computed) (computed_silent.mp computed')
  · intro fileId document stored
    exact (streamed.cached _ _ (fewer _ _ stored)).later
  · intro sent member
    exact (streamed.sent _ (left _ member)).later
  · intro resultId flat held
    obtain ⟨tokens, computed, same⟩ := holds _ _ held
    exact ⟨tokens, computed.later, same⟩

/-- What the client holds after a response that came through. -/
theorem Streamed.receive {past : Past} {s : Session} (streamed : Streamed past s) {sent : Sent}
    (member : sent ∈ s.inFlight) (resultId : String) (flat : List UInt32)
    (holds : s.streams.receive sent resultId = some flat) :
    ∃ tokens, Computed past resultId tokens ∧ flat = flatten tokens := by
  have faithful := streamed.sent sent member
  unfold Faithful at faithful
  unfold Streams.receive at holds
  cases response : sent.response with
  | full id data =>
      simp only [response] at faithful holds
      unfold Streams.set at holds
      by_cases here : resultId = id
      · rw [if_pos here] at holds
        cases holds
        exact ⟨data, here ▸ faithful, rfl⟩
      · rw [if_neg here] at holds
        exact streamed.held _ _ holds
  | delta id edits =>
      simp only [response] at faithful holds
      obtain ⟨named, old, new, names, before, after, rfl, narrow⟩ := faithful
      rw [names, Option.bind_some] at holds
      cases base : s.streams named with
      | none =>
          rw [base] at holds
          exact streamed.held _ _ holds
      | some stream =>
          rw [base] at holds
          unfold Streams.set at holds
          by_cases here : resultId = id
          · simp only [if_pos here] at holds
            cases holds
            obtain ⟨tokens, computed, rfl⟩ := streamed.held _ _ base
            obtain rfl := streamed.once _ _ _ computed before
            exact ⟨new, here ▸ after, applyEdits_deltaEdits narrow⟩
          · simp only [if_neg here] at holds
            exact streamed.held _ _ holds

theorem Streamed.keep {past : Past} {s : Session} (streamed : Streamed past s) (input : Input) :
    Streamed (⟨input, []⟩ :: past) s :=
  streamed.silent rfl (fun _ _ => id) (fun _ => id) streamed.held

theorem streamed_react {past : Past} {s : Session} (streamed : Streamed past s) {input : Input}
    (fits : Fits past s input) :
    Streamed (⟨input, (react s input).2⟩ :: past) (react s input).1 := by
  cases input with
  | full encoded =>
      cases encoded with
      | none =>
          have same : (s.answered none (s.cache, none)).1 = s := by simp [Session.answered]
          change Streamed (⟨_, []⟩ :: past) (s.answered none (s.cache, none)).1
          rw [same]
          exact streamed.keep _
      | some found =>
          obtain ⟨fileId, tokens⟩ := found
          exact streamed.store rfl (fits nofun).1 rfl (.inl ⟨_, rfl⟩)
  | delta named encoded =>
      cases encoded with
      | none =>
          have same : (s.answered (some named) (s.cache, none)).1 = s := by simp [Session.answered]
          change Streamed (⟨_, []⟩ :: past) (s.answered (some named) (s.cache, none)).1
          rw [same]
          exact streamed.keep _
      | some found =>
          obtain ⟨fileId, tokens⟩ := found
          have narrow := (fits nofun).2 named fileId tokens
          cases base : s.cache.previous fileId named with
          | none =>
              simp only [react, onSemanticTokensDelta, base]
              exact streamed.store rfl (fits nofun).1 rfl (.inl ⟨_, rfl⟩)
          | some old =>
              simp only [react, onSemanticTokensDelta, base]
              exact streamed.store rfl (fits nofun).1 rfl
                (.inr ⟨_, named, old, rfl, rfl, base, narrow old rfl base⟩)
  | close fileId =>
      have fewer : ∀ file document, (s.cache.forget fileId).documents file = some document →
          s.cache.documents file = some document := by
        intro file document stored
        change (if file = fileId then none else s.cache.documents file) = some document at stored
        by_cases here : file = fileId
        · simp [here] at stored
        · rwa [if_neg here] at stored
      exact streamed.silent rfl fewer (fun _ => id) streamed.held
  | deliver place =>
      cases at_place : s.inFlight[place]? with
      | none =>
          simp only [react, at_place]
          exact streamed.keep _
      | some sent =>
          simp only [react, at_place]
          have received := streamed.receive (List.mem_of_getElem? at_place)
          exact streamed.silent rfl (fun _ _ => id) (fun _ => List.mem_of_mem_eraseIdx) received
  | drop place =>
      exact streamed.silent rfl (fun _ _ => id) (fun _ => List.mem_of_mem_eraseIdx) streamed.held

theorem streamed_of_run {past : Past} {s : Session}
    (ran : Reactive.Run react Fits initial past s) : Streamed past s :=
  ran.invariant streamed_initial fun _ _ _ streamed fits => streamed_react streamed fits

/-- Edits reproduce the new array, and in a run whose steps all fit, every stream a client holds is the
one the server computed for its result id. -/
theorem streams_reconstructed {old new : List SemanticToken} {past : Past} {s : Session}
    (narrow : Narrow old new) (ran : Reactive.Run react Fits initial past s) :
    applyEdits (flatten old) (deltaEdits old new) = flatten new ∧ Reconstructed past s := by
  constructor
  · exact applyEdits_deltaEdits narrow
  · intro resultId flat holds
    have streamed := streamed_of_run ran
    obtain ⟨tokens, computed, rfl⟩ := streamed.held _ _ holds
    refine ⟨⟨tokens, computed⟩, fun tokens' computed' => ?_⟩
    rw [streamed.once _ _ _ computed computed']

/-- A stream, an edit of it, and both responses delivered. -/
def editSession (old new : List SemanticToken) : List Input :=
  [.full (some (0, old)), .deliver 0, .delta "1" (some (0, new)), .deliver 0]

/-- Two streams and the edit between them, in a session whose steps fit. -/
theorem short_stream_reconstructed :
    applyEdits (flatten [⟨0, 0, 1, 8, 0⟩]) (deltaEdits [⟨0, 0, 1, 8, 0⟩] [⟨0, 4, 1, 8, 0⟩]) =
        flatten [⟨0, 4, 1, 8, 0⟩] ∧
      Reconstructed (Reactive.replay react [] initial (editSession [⟨0, 0, 1, 8, 0⟩] [⟨0, 4, 1, 8, 0⟩])).1
        (Reactive.replay react [] initial
          (editSession [⟨0, 0, 1, 8, 0⟩] [⟨0, 4, 1, 8, 0⟩])).2 := by
  have narrow : Narrow [⟨0, 0, 1, 8, 0⟩] [⟨0, 4, 1, 8, 0⟩] := by
    unfold Narrow
    decide
  apply streams_reconstructed narrow
  apply Reactive.run_replay .start
  refine ⟨fun _ => ⟨by decide, nofun⟩, fun absent => absurd rfl absent, fun _ => ⟨by decide, ?_⟩,
    fun absent => absurd rfl absent, trivial⟩
  intro named fileId tokens old same found
  cases same
  have cached : Nat.repr 1 = "1" ∧ [⟨0, 0, 1, 8, 0⟩] = old := by
    simpa [editSession, react, Session.answered, onSemanticTokens, DeltaCache.store, initial,
      DeltaCache.initial, DeltaCache.previous] using found
  exact cached.2 ▸ narrow

/-- In a run whose steps fit no result id is given to two streams, and the stream a document is
compared with is one that was computed for the id it is kept under. -/
theorem result_ids_unique {past : Past} {s : Session}
    (ran : Reactive.Run react Fits initial past s) :
    (∀ resultId tokens tokens', Computed past resultId tokens → Computed past resultId tokens' →
        tokens = tokens') ∧
      ∀ fileId document, s.cache.documents fileId = some document →
        Computed past document.resultId document.tokens :=
  ⟨(streamed_of_run ran).once, (streamed_of_run ran).cached⟩

theorem result_ids_unique_first :
    Computed [⟨.full (some (0, [⟨0, 0, 1, 8, 0⟩])), [.full "1" [⟨0, 0, 1, 8, 0⟩]]⟩] "1"
      [⟨0, 0, 1, 8, 0⟩] :=
  (result_ids_unique (.next .start fun _ => ⟨by decide, nofun⟩)).2 0 ⟨"1", [⟨0, 0, 1, 8, 0⟩]⟩ rfl

theorem deltaEdits_append (old : List SemanticToken) (last : SemanticToken) :
    deltaEdits old (old ++ [last]) =
      [⟨asU32 (old.length * 5), asU32 0, some last.data⟩] := by
  have grown : ¬ (old.length + 0 = old.length ∧ old.length + 0 = old.length + 1) := by omega
  simp only [deltaEdits, sharedPrefix_self_append, List.drop_length, List.drop_left]
  simp [sharedSuffix, SemanticToken.data]

/-- A stream whose array has more numbers than a `u32` counts. -/
def longStream : List SemanticToken := List.replicate 858993460 ⟨0, 2, 1, 8, 0⟩

def lastToken : SemanticToken := ⟨1, 0, 1, 8, 0⟩

/-- The start of the edit wraps, and the added token lands in the first one. -/
theorem applyEdits_longStream :
    applyEdits (flatten longStream) (deltaEdits longStream (longStream ++ [lastToken])) ≠
      flatten (longStream ++ [lastToken]) := by
  have start : asU32 (longStream.length * 5) = 4 := by
    rw [longStream, List.length_replicate]
    decide
  obtain ⟨rest, grows⟩ : ∃ rest, longStream = ⟨0, 2, 1, 8, 0⟩ :: rest := ⟨_, rfl⟩
  intro same
  rw [deltaEdits_append, start, grows] at same
  have fifth := congrArg (fun flat => flat[4]?) same
  simp [applyEdits, splice, SemanticToken.data, lastToken, asU32] at fifth

/-- The edit does not reproduce every stream. -/
theorem long_stream_not_reconstructed :
    ¬ ((∀ old new, applyEdits (flatten old) (deltaEdits old new) = flatten new) ∧
      ∀ past s, Reactive.Run react (fun _ _ _ => True) initial past s → Reconstructed past s) := by
  intro ⟨reproduces, _⟩
  exact applyEdits_longStream (reproduces longStream (longStream ++ [lastToken]))

end CaffeineLs.Server.SemanticTokens
