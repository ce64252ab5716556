/-
Module: CaffeineLs.Lib.ByteReader
Purpose: Readers of byte sequences that may stop with an error or a panic, with a record of the
  capacities they reserve and of what they come past; the rules for what their runs satisfy.
Trusted boundary: none
Main exports: ByteReader, ByteReader.table, ByteReader.Sound
-/

namespace ByteReader

/-- Where a reader stands: the bytes taken so far are counted, the others lie ahead. -/
structure Input where
  pos : Nat
  rest : List UInt8
deriving DecidableEq, Repr

/-- A capacity reserved for the rows of a table, with the bytes that were left. -/
structure Reservation where
  capacity : Nat
  remaining : Nat
deriving DecidableEq, Repr

def Reservation.Bounded (r : Reservation) : Prop := r.capacity ≤ r.remaining

/-- Why a reader stops early. `stuck` is a loop that would not end. -/
inductive Stop (ε : Type) where
  | error (fault : ε)
  | panic
  | stuck
deriving DecidableEq, Repr

/-- How a run ends. `opened` are the tables it had begun and not completed. -/
inductive Outcome (ε α : Type) where
  | ok (value : α) (input : Input)
  | stop (reason : Stop ε) (opened : List Reservation)
deriving DecidableEq, Repr

/-- A run: how it ends, and what it reserved and came past. -/
structure Reading (ε τ α : Type) where
  outcome : Outcome ε α
  reserved : List Reservation
  passed : List τ

end ByteReader

def ByteReader (ε τ α : Type) : Type := ByteReader.Input → ByteReader.Reading ε τ α

namespace ByteReader

variable {ε τ α β : Type}

def andThen (first : ByteReader ε τ α) (next : α → ByteReader ε τ β) : ByteReader ε τ β :=
  fun input =>
    match (first input).outcome with
    | .ok value input' =>
        { outcome := (next value input').outcome
          reserved := (first input).reserved ++ (next value input').reserved
          passed := (first input).passed ++ (next value input').passed }
    | .stop reason opened =>
        { outcome := .stop reason opened
          reserved := (first input).reserved
          passed := (first input).passed }

instance : Monad (ByteReader ε τ) where
  pure value := fun input => { outcome := .ok value input, reserved := [], passed := [] }
  bind := andThen

def stop (reason : Stop ε) : ByteReader ε τ α := fun _ =>
  { outcome := .stop reason [], reserved := [], passed := [] }

def fail (fault : ε) : ByteReader ε τ α := stop (.error fault)

/-- A result that needs no bytes. -/
def ofExcept : Except ε α → ByteReader ε τ α
  | .ok value => pure value
  | .error fault => fail fault

/-- Record what the reader has come to. -/
def pass (place : τ) : ByteReader ε τ Unit := fun input =>
  { outcome := .ok () input, reserved := [], passed := [place] }

/-- The next `n` bytes, or `eof`. -/
def bytes (eof : ε) (n : Nat) : ByteReader ε τ (List UInt8) := fun input =>
  { outcome :=
      if n ≤ input.rest.length then
        .ok (input.rest.take n) { pos := input.pos + n, rest := input.rest.drop n }
      else .stop (.error eof) []
    reserved := []
    passed := [] }

/-- Does anything lie ahead, and where does the reader stand? -/
def position : ByteReader ε τ Input := fun input =>
  { outcome := .ok input input, reserved := [], passed := [] }

/-- Reserve a capacity for what `body` reads: until `body` is done, the table is open. -/
def reserving (capacity : Nat) (body : ByteReader ε τ α) : ByteReader ε τ α := fun input =>
  let table : Reservation := { capacity := capacity, remaining := input.rest.length }
  { outcome :=
      match (body input).outcome with
      | .ok value input' => .ok value input'
      | .stop reason opened => .stop reason (table :: opened)
    reserved := table :: (body input).reserved
    passed := (body input).passed }

/-- The same reader, `count` times. -/
def rows (row : ByteReader ε τ α) : Nat → ByteReader ε τ (List α)
  | 0 => pure []
  | count + 1 => do
    let value ← row
    let values ← rows row count
    pure (value :: values)

/-- A table whose capacity is reserved before its rows are read. -/
def table (count : Nat) (row : ByteReader ε τ α) : ByteReader ε τ (List α) :=
  reserving count (rows row count)

/-- A reader of its own over some bytes, and what it leaves of them. -/
def within (data : List UInt8) (inner : ByteReader ε τ α) : ByteReader ε τ (α × Input) :=
  fun input =>
    { outcome :=
        match (inner { pos := 0, rest := data }).outcome with
        | .ok value left => .ok (value, left) input
        | .stop reason opened => .stop reason opened
      reserved := (inner { pos := 0, rest := data }).reserved
      passed := (inner { pos := 0, rest := data }).passed }

/-- `step` again and again while bytes lie ahead, at most `fuel` times. -/
def untilEnd (step : ByteReader ε τ α) : Nat → ByteReader ε τ (List α)
  | 0 => stop .stuck
  | fuel + 1 => do
    let input ← position
    if input.rest.isEmpty then pure []
    else do
      let value ← step
      let values ← untilEnd step fuel
      pure (value :: values)

/-! ### Runs that end in order -/

/-- What a run from `input` that takes at least `least` bytes satisfies: it is not stuck, it panics
exactly when it has come past something bad, and all it has reserved is bounded exactly when the
tables it leaves open are; when it succeeds, all of it is bounded. -/
def Reading.Orderly (bad : τ → Prop) (least : Nat) (input : Input) (run : Reading ε τ α) : Prop :=
  match run.outcome with
  | .ok _ input' =>
      input'.rest.length + least ≤ input.rest.length ∧ (∀ r ∈ run.reserved, r.Bounded) ∧
        ∀ t ∈ run.passed, ¬ bad t
  | .stop (.error _) opened =>
      ((∀ r ∈ run.reserved, r.Bounded) ↔ ∀ r ∈ opened, r.Bounded) ∧ ∀ t ∈ run.passed, ¬ bad t
  | .stop .panic opened =>
      ((∀ r ∈ run.reserved, r.Bounded) ↔ ∀ r ∈ opened, r.Bounded) ∧ ∃ t ∈ run.passed, bad t
  | .stop .stuck _ => False

/-- The tables that a run had begun and not completed. -/
def Outcome.opened : Outcome ε α → List Reservation
  | .ok _ _ => []
  | .stop _ opened => opened

/-- A run that gives a value or an error, and reserves no more than what was left. -/
def Reading.Safe (run : Reading ε τ α) : Prop :=
  (∀ reason opened, run.outcome = .stop reason opened → ∃ fault, reason = .error fault) ∧
    ∀ r ∈ run.reserved, r.Bounded

/-- A run in order is safe exactly when it has come past nothing bad and what it leaves open is
bounded. -/
theorem Reading.Orderly.safe_iff {bad : τ → Prop} {least : Nat} {input : Input}
    {run : Reading ε τ α} (orderly : run.Orderly bad least input) :
    run.Safe ↔ (∀ t ∈ run.passed, ¬ bad t) ∧ ∀ r ∈ run.outcome.opened, r.Bounded := by
  unfold Reading.Orderly at orderly
  unfold Reading.Safe
  cases outcome : run.outcome with
  | ok value input' =>
      rw [outcome] at orderly
      exact iff_of_true ⟨nofun, orderly.2.1⟩ ⟨orderly.2.2, nofun⟩
  | stop reason opened =>
      rw [outcome] at orderly
      cases reason with
      | error fault =>
          obtain ⟨opened_iff, clean⟩ := orderly
          constructor
          · exact fun safe => ⟨clean, opened_iff.mp safe.2⟩
          · intro condition
            refine ⟨fun reason tables same => ?_, opened_iff.mpr condition.2⟩
            obtain ⟨rfl, _⟩ := Outcome.stop.inj same
            exact ⟨fault, rfl⟩
      | panic =>
          obtain ⟨_, t, member, isBad⟩ := orderly
          apply iff_of_false
          · intro safe
            obtain ⟨fault, same⟩ := safe.1 _ _ rfl
            cases same
          · exact fun condition => condition.1 t member isBad
      | stuck => exact orderly.elim

/-- Every run with fewer than `limit` bytes ahead is in order. -/
def Sound (bad : τ → Prop) (limit least : Nat) (r : ByteReader ε τ α) : Prop :=
  ∀ input : Input, input.rest.length < limit → (r input).Orderly bad least input

section Rules

variable {bad : τ → Prop} {limit least : Nat}

theorem sound_pure (value : α) : Sound bad limit 0 (pure value : ByteReader ε τ α) :=
  fun _ _ => ⟨Nat.le_refl _, nofun, nofun⟩

theorem sound_fail (fault : ε) : Sound bad limit least (fail fault : ByteReader ε τ α) :=
  fun _ _ => ⟨Iff.rfl, nofun⟩

theorem sound_ofExcept (result : Except ε α) :
    Sound bad limit 0 (ofExcept result : ByteReader ε τ α) := by
  cases result with
  | ok value => exact sound_pure value
  | error fault => exact sound_fail fault

theorem sound_position : Sound bad limit 0 (position : ByteReader ε τ Input) :=
  fun _ _ => ⟨Nat.le_refl _, nofun, nofun⟩

theorem sound_bytes (eof : ε) (n : Nat) :
    Sound bad limit n (bytes eof n : ByteReader ε τ (List UInt8)) := by
  intro input _
  unfold bytes Reading.Orderly
  by_cases enough : n ≤ input.rest.length
  · simp only [if_pos enough]
    refine ⟨?_, nofun, nofun⟩
    rw [List.length_drop]
    omega
  · simp only [if_neg enough]
    exact ⟨trivial, nofun⟩

/-- What was not found bad may be come past. -/
theorem sound_pass {place : τ} (fine : ¬ bad place) :
    Sound bad limit 0 (pass place : ByteReader ε τ Unit) := by
  intro input _
  refine ⟨Nat.le_refl _, nofun, ?_⟩
  intro t member
  rwa [List.mem_singleton.mp member]

/-- Coming past something bad and stopping there. -/
theorem sound_pass_panic {place : τ} (isBad : bad place) (next : Unit → ByteReader ε τ α)
    (stops : next () = stop .panic) : Sound bad limit least (pass place >>= next) := by
  intro input _
  change Reading.Orderly bad least input (andThen (pass place) next input)
  unfold andThen
  simp only [pass, stops, stop]
  exact ⟨Iff.rfl, place, List.mem_singleton_self place, isBad⟩

theorem Sound.mono {r : ByteReader ε τ α} (sound : Sound bad limit least r) {limit' least' : Nat}
    (narrower : limit' ≤ limit) (fewer : least' ≤ least) : Sound bad limit' least' r := by
  intro input ahead
  have run := sound input (Nat.lt_of_lt_of_le ahead narrower)
  unfold Reading.Orderly at run ⊢
  cases outcome : (r input).outcome with
  | ok value input' =>
      rw [outcome] at run
      exact ⟨Nat.le_trans (Nat.add_le_add_left fewer _) run.1, run.2⟩
  | stop reason opened =>
      rw [outcome] at run
      cases reason <;> exact run

/-- What is taken need not be counted. -/
theorem Sound.loose {r : ByteReader ε τ α} (sound : Sound bad limit least r) :
    Sound bad limit 0 r :=
  sound.mono (Nat.le_refl _) (Nat.zero_le _)

/-- What the first reader takes is gone when the second starts, which may rely on what is known of the
value. -/
theorem sound_bind_of {first : ByteReader ε τ α} {next : α → ByteReader ε τ β} {least' : Nat}
    {known : α → Prop} (one : Sound bad limit least first)
    (ensures : ∀ input value input', input.rest.length < limit →
      (first input).outcome = .ok value input' → known value)
    (two : ∀ value, known value → Sound bad (limit - least) least' (next value)) :
    Sound bad limit (least + least') (first >>= next) := by
  intro input ahead
  have run := one input ahead
  change Reading.Orderly bad (least + least') input (andThen first next input)
  unfold andThen
  unfold Reading.Orderly at run
  cases outcome : (first input).outcome with
  | stop reason opened =>
      rw [outcome] at run
      cases reason <;> exact run
  | ok value input' =>
      rw [outcome] at run
      obtain ⟨taken, bounded, clean⟩ := run
      have rest := two value (ensures input value input' ahead outcome) input' (by omega)
      unfold Reading.Orderly at rest ⊢
      have bounded_iff : (∀ r ∈ (first input).reserved ++ (next value input').reserved, r.Bounded) ↔
          ∀ r ∈ (next value input').reserved, r.Bounded := by
        constructor
        · exact fun all r member => all r (List.mem_append_right _ member)
        · intro all r member
          rcases List.mem_append.mp member with early | late
          · exact bounded r early
          · exact all r late
      have clean_both (later : ∀ t ∈ (next value input').passed, ¬ bad t) :
          ∀ t ∈ (first input).passed ++ (next value input').passed, ¬ bad t := by
        intro t member
        rcases List.mem_append.mp member with early | late
        · exact clean t early
        · exact later t late
      cases outcome' : (next value input').outcome with
      | ok value' input'' =>
          simp only [outcome'] at rest ⊢
          obtain ⟨taken', bounded', clean'⟩ := rest
          exact ⟨by omega, bounded_iff.mpr bounded', clean_both clean'⟩
      | stop reason opened =>
          cases reason with
          | error fault =>
              simp only [outcome'] at rest ⊢
              exact ⟨bounded_iff.trans rest.1, clean_both rest.2⟩
          | panic =>
              simp only [outcome'] at rest ⊢
              obtain ⟨opened_iff, t, member, isBad⟩ := rest
              exact ⟨bounded_iff.trans opened_iff, t, List.mem_append_right _ member, isBad⟩
          | stuck =>
              simp only [outcome'] at rest

theorem sound_bind {first : ByteReader ε τ α} {next : α → ByteReader ε τ β} {least' : Nat}
    (one : Sound bad limit least first) (two : ∀ value, Sound bad (limit - least) least' (next value)) :
    Sound bad limit (least + least') (first >>= next) :=
  sound_bind_of one (fun _ _ _ _ _ => trivial) fun value (_ : True) => two value

/-- After a reader that may take nothing. -/
theorem sound_then {first : ByteReader ε τ α} {next : α → ByteReader ε τ β}
    (one : Sound bad limit 0 first) (two : ∀ value, Sound bad limit least (next value)) :
    Sound bad limit least (first >>= next) :=
  (sound_bind one two).mono (Nat.le_refl _) (Nat.le_of_eq (Nat.zero_add least).symm)

/-- Only what the first reader takes is counted. -/
theorem sound_start {first : ByteReader ε τ α} {next : α → ByteReader ε τ β}
    (one : Sound bad limit least first) (two : ∀ value, Sound bad limit 0 (next value)) :
    Sound bad limit least (first >>= next) :=
  sound_bind one fun value => (two value).mono (Nat.sub_le _ _) (Nat.le_refl _)

/-- Bytes that were taken are fewer than those ahead. -/
theorem sound_bytes_bind {eof : ε} {n : Nat} {next : List UInt8 → ByteReader ε τ β} {least' : Nat}
    (two : ∀ data : List UInt8, data.length < limit → Sound bad (limit - n) least' (next data)) :
    Sound bad limit (n + least') (bytes eof n >>= next) := by
  apply sound_bind_of (sound_bytes eof n) _ two
  intro input data input' ahead taken
  unfold bytes at taken
  by_cases enough : n ≤ input.rest.length
  · rw [if_pos enough] at taken
    obtain ⟨rfl, -⟩ := Outcome.ok.inj taken
    rw [List.length_take]
    omega
  · rw [if_neg enough] at taken
    cases taken

theorem sound_map {r : ByteReader ε τ α} (sound : Sound bad limit least r) (f : α → β) :
    Sound bad limit least (r >>= fun value => pure (f value)) :=
  sound_bind sound fun value => sound_pure (f value)

/-- A table whose rows take a byte each. -/
theorem sound_reserving {body : ByteReader ε τ α} {capacity : Nat}
    (sound : Sound bad limit least body) (enough : capacity ≤ least) :
    Sound bad limit least (reserving capacity body) := by
  intro input ahead
  have run := sound input ahead
  unfold reserving
  unfold Reading.Orderly at run ⊢
  cases outcome : (body input).outcome with
  | ok value input' =>
      simp only [outcome] at run ⊢
      refine ⟨run.1, ?_, run.2.2⟩
      intro r member
      rcases List.mem_cons.mp member with rfl | member
      · unfold Reservation.Bounded
        simp only
        omega
      · exact run.2.1 r member
  | stop reason opened =>
      have cons_iff (opened_iff : (∀ r ∈ (body input).reserved, r.Bounded) ↔ ∀ r ∈ opened, r.Bounded)
          (table : Reservation) :
          (∀ r ∈ table :: (body input).reserved, r.Bounded) ↔ ∀ r ∈ table :: opened, r.Bounded := by
        rw [List.forall_mem_cons, List.forall_mem_cons, opened_iff]
      cases reason with
      | error fault =>
          simp only [outcome] at run ⊢
          exact ⟨cons_iff run.1 _, run.2⟩
      | panic =>
          simp only [outcome] at run ⊢
          exact ⟨cons_iff run.1 _, run.2⟩
      | stuck =>
          simp only [outcome] at run

theorem sound_rows {row : ByteReader ε τ α} (sound : Sound bad limit 1 row) (count : Nat) :
    Sound bad limit count (rows row count) := by
  induction count with
  | zero => exact sound_pure []
  | succ count ih =>
      have rest (value : α) : Sound bad (limit - 1) count
          (rows row count >>= fun values => pure (value :: values)) :=
        sound_map (ih.mono (Nat.sub_le _ _) (Nat.le_refl _)) _
      exact (sound_bind sound rest).mono (Nat.le_refl _) (Nat.le_of_eq (Nat.add_comm count 1))

theorem sound_table {row : ByteReader ε τ α} (sound : Sound bad limit 1 row) (count : Nat) :
    Sound bad limit count (table count row) :=
  sound_reserving (sound_rows sound count) (Nat.le_refl count)

theorem sound_within {data : List UInt8} {inner : ByteReader ε τ α}
    (sound : Sound bad (data.length + 1) least inner) :
    Sound bad limit 0 (within data inner) := by
  intro input _
  have run := sound { pos := 0, rest := data } (Nat.lt_succ_self _)
  unfold within
  unfold Reading.Orderly at run ⊢
  cases outcome : (inner { pos := 0, rest := data }).outcome with
  | ok value left =>
      simp only [outcome] at run ⊢
      exact ⟨Nat.le_refl _, run.2⟩
  | stop reason opened =>
      simp only [outcome] at run ⊢
      cases reason <;> exact run

theorem sound_untilEnd {step : ByteReader ε τ α} (sound : ∀ limit, Sound bad limit 1 step)
    (fuel : Nat) : Sound bad fuel 0 (untilEnd step fuel) := by
  induction fuel with
  | zero => exact fun input ahead => absurd ahead (Nat.not_lt_zero _)
  | succ fuel ih =>
      apply sound_then sound_position
      intro input
      cases input.rest.isEmpty with
      | true => exact sound_pure []
      | false =>
          have rest (value : α) : Sound bad fuel 0
              (untilEnd step fuel >>= fun values => pure (value :: values)) :=
            sound_then ih fun values => sound_pure _
          exact (sound_bind (sound (fuel + 1)) rest).mono (Nat.le_refl _) (Nat.zero_le _)

end Rules

/-! ### Reading what was written -/

/-- The reader takes exactly `written` and gives `value`, whatever follows. -/
def Decodes (r : ByteReader ε τ α) (written : List UInt8) (value : α) : Prop :=
  ∀ pos rest, (r { pos := pos, rest := written ++ rest }).outcome =
    .ok value { pos := pos + written.length, rest := rest }

theorem decodes_pure (value : α) : Decodes (pure value : ByteReader ε τ α) [] value :=
  fun _ _ => rfl

theorem decodes_bind {first : ByteReader ε τ α} {next : α → ByteReader ε τ β}
    {written written' : List UInt8} {value : α} {value' : β} (one : Decodes first written value)
    (two : Decodes (next value) written' value') :
    Decodes (first >>= next) (written ++ written') value' := by
  intro pos rest
  change (andThen first next _).outcome = _
  unfold andThen
  rw [List.append_assoc, one pos (written' ++ rest)]
  simp only
  rw [two, List.length_append, Nat.add_assoc]

theorem decodes_pass (place : τ) : Decodes (pass place : ByteReader ε τ Unit) [] () :=
  fun _ _ => rfl

theorem decodes_reserving {body : ByteReader ε τ α} {written : List UInt8} {value : α}
    (decodes : Decodes body written value) (capacity : Nat) :
    Decodes (reserving capacity body) written value := by
  intro pos rest
  unfold reserving
  simp only [decodes pos rest]

theorem decodes_rows {row : ByteReader ε τ α} {write : α → List UInt8} {values : List α}
    (each : ∀ value ∈ values, Decodes row (write value) value) :
    Decodes (rows row values.length) (values.flatMap write) values := by
  induction values with
  | nil => exact decodes_pure []
  | cons value values ih =>
      rw [List.flatMap_cons, List.length_cons]
      apply decodes_bind (each value List.mem_cons_self)
      rw [← List.append_nil (values.flatMap write)]
      apply decodes_bind (ih fun v member => each v (List.mem_cons_of_mem _ member))
      exact decodes_pure _

theorem decodes_table {row : ByteReader ε τ α} {write : α → List UInt8} {values : List α}
    (each : ∀ value ∈ values, Decodes row (write value) value) :
    Decodes (table values.length row) (values.flatMap write) values :=
  decodes_reserving (decodes_rows each) values.length

end ByteReader
