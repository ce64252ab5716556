/-
Module: CaffeineLs.Lib.ByteCodec
Purpose: What a reader has taken when it gives a value: the steps of an accepting run, and readers
  that accept exactly the bytes a writer writes.
Trusted boundary: none
Main exports: Accepts, accepts_bind, accepts_untilEnd_succ
-/
import CaffeineLs.Lib.ByteReader
import CaffeineLs.Lib.Wire

namespace ByteReader

variable {ε τ α β : Type}

/-- From `input` the reader gives `value` and stands at `input'`. -/
def Accepts (r : ByteReader ε τ α) (input : Input) (value : α) (input' : Input) : Prop :=
  (r input).outcome = .ok value input'

/-! ### The steps of an accepting run -/

theorem accepts_pure {value value' : α} {input input' : Input} :
    Accepts (pure value : ByteReader ε τ α) input value' input' ↔
      value = value' ∧ input = input' := by
  change Outcome.ok value input = .ok value' input' ↔ _
  rw [Outcome.ok.injEq]

theorem accepts_bind {first : ByteReader ε τ α} {next : α → ByteReader ε τ β} {input input'' : Input}
    {value' : β} :
    Accepts (first >>= next) input value' input'' ↔
      ∃ value input', Accepts first input value input' ∧ Accepts (next value) input' value' input'' := by
  unfold Accepts
  change (andThen first next input).outcome = _ ↔ _
  unfold andThen
  cases outcome : (first input).outcome with
  | ok value input' =>
      constructor
      · exact fun accepted => ⟨value, input', rfl, accepted⟩
      · intro ⟨_, _, same, accepted⟩
        obtain ⟨rfl, rfl⟩ := Outcome.ok.inj same
        exact accepted
  | stop reason opened =>
      constructor
      · intro accepted
        cases accepted
      · intro ⟨_, _, same, _⟩
        cases same

theorem not_accepts_stop {reason : Stop ε} {input input' : Input} {value : α} :
    ¬ Accepts (stop reason : ByteReader ε τ α) input value input' := by
  intro accepted
  cases accepted

theorem not_accepts_fail {fault : ε} {input input' : Input} {value : α} :
    ¬ Accepts (fail fault : ByteReader ε τ α) input value input' :=
  not_accepts_stop

theorem accepts_pass {place : τ} {input input' : Input} {value : Unit} :
    Accepts (pass place : ByteReader ε τ Unit) input value input' ↔ input = input' := by
  change Outcome.ok () input = .ok value input' ↔ _
  rw [Outcome.ok.injEq]
  exact ⟨fun both => both.2, fun same => ⟨rfl, same⟩⟩

theorem accepts_position {input input' place : Input} :
    Accepts (position : ByteReader ε τ Input) input place input' ↔ input = place ∧ input = input' := by
  change Outcome.ok input input = .ok place input' ↔ _
  rw [Outcome.ok.injEq]

theorem accepts_reserving {capacity : Nat} {body : ByteReader ε τ α} {input input' : Input}
    {value : α} :
    Accepts (reserving capacity body) input value input' ↔ Accepts body input value input' := by
  unfold Accepts reserving
  cases (body input).outcome <;> simp

/-- The bytes taken are those ahead. -/
theorem accepts_bytes {eof : ε} {n : Nat} {taken : List UInt8} {input input' : Input} :
    Accepts (bytes eof n : ByteReader ε τ (List UInt8)) input taken input' ↔
      taken.length = n ∧ input.rest = taken ++ input'.rest ∧ input'.pos = input.pos + n := by
  unfold Accepts bytes
  simp only
  constructor
  · intro accepted
    split at accepted
    · rename_i enough
      obtain ⟨rfl, rfl⟩ := Outcome.ok.inj accepted
      exact ⟨List.length_take_of_le enough, (List.take_append_drop n input.rest).symm, rfl⟩
    · cases accepted
  · intro ⟨rfl, ahead, moved⟩
    obtain ⟨pos, rest⟩ := input
    obtain ⟨pos', rest'⟩ := input'
    obtain rfl : rest = taken ++ rest' := ahead
    obtain rfl : pos' = pos + taken.length := moved
    simp

theorem accepts_within {data : List UInt8} {inner : ByteReader ε τ α} {input input' left : Input}
    {value : α} :
    Accepts (within data inner) input (value, left) input' ↔
      Accepts inner { pos := 0, rest := data } value left ∧ input = input' := by
  unfold Accepts within
  cases (inner { pos := 0, rest := data }).outcome <;> simp [and_assoc]

theorem accepts_untilEnd_succ {step : ByteReader ε τ α} {fuel : Nat} {input input' : Input}
    {values : List α} :
    Accepts (untilEnd step (fuel + 1)) input values input' ↔
      (input.rest = [] ∧ values = [] ∧ input = input') ∨
        (input.rest ≠ [] ∧ ∃ value middle others, Accepts step input value middle ∧
          Accepts (untilEnd step fuel) middle others input' ∧ values = value :: others) := by
  rw [untilEnd, accepts_bind]
  constructor
  · intro ⟨place, input₁, here, rest⟩
    obtain ⟨rfl, rfl⟩ := accepts_position.mp here
    by_cases ended : input.rest = []
    · rw [ended] at rest
      obtain ⟨rfl, rfl⟩ := accepts_pure.mp rest
      exact .inl ⟨ended, rfl, rfl⟩
    · have more : input.rest.isEmpty = false := by
        rw [List.isEmpty_eq_false_iff]
        exact ended
      rw [more] at rest
      obtain ⟨value, middle, first, later⟩ := accepts_bind.mp rest
      obtain ⟨others, last, further, ends⟩ := accepts_bind.mp later
      obtain ⟨rfl, rfl⟩ := accepts_pure.mp ends
      exact .inr ⟨ended, value, middle, others, first, further, rfl⟩
  · intro cases_
    refine ⟨input, input, accepts_position.mpr ⟨rfl, rfl⟩, ?_⟩
    rcases cases_ with ⟨ended, rfl, rfl⟩ | ⟨more, value, middle, others, first, further, rfl⟩
    · rw [ended]
      exact accepts_pure.mpr ⟨rfl, rfl⟩
    · have notEmpty : input.rest.isEmpty = false := by
        rw [List.isEmpty_eq_false_iff]
        exact more
      rw [notEmpty]
      apply accepts_bind.mpr
      refine ⟨value, middle, first, accepts_bind.mpr ⟨others, input', further, ?_⟩⟩
      exact accepts_pure.mpr ⟨rfl, rfl⟩

/-! ### What holds of every value -/

/-- Every value the reader gives has the property. -/
def Yields (r : ByteReader ε τ α) (property : α → Prop) : Prop :=
  ∀ input value input', Accepts r input value input' → property value

theorem yields_pure {value : α} {property : α → Prop} (holds : property value) :
    Yields (pure value : ByteReader ε τ α) property := by
  intro input value' input' accepted
  obtain ⟨rfl, -⟩ := accepts_pure.mp accepted
  exact holds

theorem yields_fail {fault : ε} {property : α → Prop} :
    Yields (fail fault : ByteReader ε τ α) property :=
  fun _ _ _ accepted => (not_accepts_fail accepted).elim

theorem yields_bind {first : ByteReader ε τ α} {next : α → ByteReader ε τ β}
    {before : α → Prop} {property : β → Prop} (start : Yields first before)
    (rest : ∀ value, before value → Yields (next value) property) :
    Yields (first >>= next) property := by
  intro input value' input' accepted
  obtain ⟨value, middle, one, two⟩ := accepts_bind.mp accepted
  exact rest value (start input value middle one) middle value' input' two

/-- Nothing need be known of what is read first. -/
theorem yields_then {first : ByteReader ε τ α} {next : α → ByteReader ε τ β} {property : β → Prop}
    (rest : ∀ value, Yields (next value) property) : Yields (first >>= next) property :=
  yields_bind (fun _ _ _ _ => trivial) fun value (_ : True) => rest value

/-! ### Readers of what a writer writes -/

/-- The reader gives a value exactly where the bytes of that value stand ahead, and takes them. -/
def Exact (r : ByteReader ε τ α) (write : α → List UInt8) : Prop :=
  ∀ input value input', Accepts r input value input' ↔
    input.rest = write value ++ input'.rest ∧ input'.pos = input.pos + (write value).length

theorem Exact.decodes {r : ByteReader ε τ α} {write : α → List UInt8} (exact_ : Exact r write)
    (value : α) : Decodes r (write value) value := by
  intro pos rest
  exact (exact_ _ _ _).mpr ⟨rfl, rfl⟩

/-- A bijection of what is read. -/
theorem Exact.map {r : ByteReader ε τ α} {write : α → List UInt8} (exact_ : Exact r write)
    {f : α → β} {g : β → α} (inverse : ∀ a, g (f a) = a) (inverse' : ∀ b, f (g b) = b) :
    Exact (do
      let value ← r
      pure (f value)) fun value => write (g value) := by
  intro input value input'
  rw [accepts_bind]
  constructor
  · intro ⟨value₁, input₁, first, rest⟩
    obtain ⟨rfl, rfl⟩ := accepts_pure.mp rest
    simp only [inverse]
    exact (exact_ _ _ _).mp first
  · intro taken
    exact ⟨g value, input', (exact_ _ _ _).mpr taken, accepts_pure.mpr ⟨inverse' value, rfl⟩⟩

theorem accepts_rows {row : ByteReader ε τ α} {write : α → List UInt8} (exact_ : Exact row write)
    (count : Nat) {input input' : Input} {values : List α} :
    Accepts (rows row count) input values input' ↔
      values.length = count ∧ input.rest = values.flatMap write ++ input'.rest ∧
        input'.pos = input.pos + (values.flatMap write).length := by
  induction count generalizing input values with
  | zero =>
      rw [rows, accepts_pure]
      constructor
      · intro ⟨empty, same⟩
        subst empty same
        exact ⟨rfl, rfl, rfl⟩
      · intro ⟨empty, ahead, moved⟩
        obtain rfl := List.length_eq_zero_iff.mp empty
        obtain ⟨pos, rest⟩ := input
        obtain ⟨pos', rest'⟩ := input'
        obtain rfl : rest = rest' := ahead
        obtain rfl : pos' = pos := moved
        exact ⟨rfl, rfl⟩
  | succ count ih =>
      rw [rows, accepts_bind]
      constructor
      · intro ⟨value, input₁, first, later⟩
        obtain ⟨others, input₂, further, ends⟩ := accepts_bind.mp later
        obtain ⟨rfl, rfl⟩ := accepts_pure.mp ends
        obtain ⟨ahead, moved⟩ := (exact_ _ _ _).mp first
        obtain ⟨length, ahead', moved'⟩ := ih.mp further
        refine ⟨by rw [List.length_cons, length], ?_, ?_⟩
        · rw [List.flatMap_cons, List.append_assoc, ← ahead', ahead]
        · rw [List.flatMap_cons, List.length_append, moved', moved, Nat.add_assoc]
      · intro ⟨length, ahead, moved⟩
        cases values with
        | nil => cases length
        | cons value others =>
            rw [List.flatMap_cons, List.append_assoc] at ahead
            rw [List.flatMap_cons, List.length_append, ← Nat.add_assoc] at moved
            refine ⟨value, ⟨input.pos + (write value).length, others.flatMap write ++ input'.rest⟩,
              (exact_ _ _ _).mpr ⟨ahead, rfl⟩, accepts_bind.mpr ⟨others, input', ?_, ?_⟩⟩
            · exact ih.mpr ⟨Nat.succ.inj length, rfl, moved⟩
            · exact accepts_pure.mpr ⟨rfl, rfl⟩

theorem accepts_table {row : ByteReader ε τ α} {write : α → List UInt8} (exact_ : Exact row write)
    (count : Nat) {input input' : Input} {values : List α} :
    Accepts (table count row) input values input' ↔
      values.length = count ∧ input.rest = values.flatMap write ++ input'.rest ∧
        input'.pos = input.pos + (values.flatMap write).length := by
  rw [table, accepts_reserving, accepts_rows exact_]

/-- A number of `width` bytes, for a type of numbers that are all such. -/
theorem exact_number {eof : ε} {width : Nat} {ofNat : Nat → α} {toNat : α → Nat}
    (inverse : ∀ a, ofNat (toNat a) = a) (bounded : ∀ a, toNat a < 256 ^ width)
    (inverse' : ∀ n, n < 256 ^ width → toNat (ofNat n) = n) :
    Exact (do
      let bs ← (bytes eof width : ByteReader ε τ (List UInt8))
      pure (ofNat (Wire.ofBigEndian bs))) fun value => Wire.bigEndian width (toNat value) := by
  intro input value input'
  rw [accepts_bind]
  constructor
  · intro ⟨bs, input₁, first, rest⟩
    obtain ⟨rfl, rfl⟩ := accepts_pure.mp rest
    obtain ⟨rfl, ahead, moved⟩ := accepts_bytes.mp first
    simp only [inverse' _ (Wire.ofBigEndian_lt bs), Wire.bigEndian_ofBigEndian]
    exact ⟨ahead, moved⟩
  · intro ⟨ahead, moved⟩
    rw [Wire.length_bigEndian] at moved
    refine ⟨Wire.bigEndian width (toNat value), input',
      accepts_bytes.mpr ⟨Wire.length_bigEndian _ _, ahead, moved⟩, accepts_pure.mpr ⟨?_, rfl⟩⟩
    rw [Wire.ofBigEndian_bigEndian, Nat.mod_eq_of_lt (bounded value), inverse]

/-! ### Sequences of readers -/

theorem map_id_eq (r : ByteReader ε τ α) : id <$> r = r := by
  funext input
  change andThen r pure input = r input
  unfold andThen
  generalize r input = run
  obtain ⟨outcome, reserved, passed⟩ := run
  cases outcome <;> simp [pure]

theorem andThen_assoc {γ : Type} (r : ByteReader ε τ α) (next : α → ByteReader ε τ β)
    (last : β → ByteReader ε τ γ) : r >>= next >>= last = r >>= fun a => next a >>= last := by
  funext input
  change andThen (andThen r next) last input = andThen r (fun a => andThen (next a) last) input
  unfold andThen
  cases (r input).outcome with
  | stop reason opened => rfl
  | ok value input' =>
      cases middle : (next value input').outcome <;> simp [middle]

instance : LawfulMonad (ByteReader ε τ) :=
  LawfulMonad.mk' _ map_id_eq (fun _ _ => rfl) andThen_assoc

/-! ### Readers of what is written again -/

/-- What the reader takes is as long as what `emit` writes for its value, which it reads as the same
value. -/
def Recodes (r : ByteReader ε τ α) (emit : α → List UInt8) : Prop :=
  ∀ input value input', Accepts r input value input' →
    input.rest.length = (emit value).length + input'.rest.length ∧
      input'.pos = input.pos + (emit value).length ∧ Decodes r (emit value) value

theorem Exact.recodes {r : ByteReader ε τ α} {write : α → List UInt8} (exact_ : Exact r write) :
    Recodes r write := by
  intro input value input' accepted
  obtain ⟨ahead, moved⟩ := (exact_ _ _ _).mp accepted
  exact ⟨by rw [ahead, List.length_append], moved, exact_.decodes value⟩

theorem recodes_pure (value : α) : Recodes (pure value : ByteReader ε τ α) fun _ => [] := by
  intro input value' input' accepted
  obtain ⟨rfl, rfl⟩ := accepts_pure.mp accepted
  exact ⟨(Nat.zero_add _).symm, rfl, decodes_pure value⟩

/-- A value and then one whose reader may depend on it. -/
theorem Recodes.pair {r : ByteReader ε τ α} {s : α → ByteReader ε τ β} {emit : α → List UInt8}
    {emit' : α → β → List UInt8} (first : Recodes r emit) (second : ∀ a, Recodes (s a) (emit' a)) :
    Recodes (do
      let a ← r
      let b ← s a
      pure (a, b)) fun p => emit p.1 ++ emit' p.1 p.2 := by
  intro input value input' accepted
  obtain ⟨a, input₁, one, later⟩ := accepts_bind.mp accepted
  obtain ⟨b, input₂, two, ends⟩ := accepts_bind.mp later
  obtain ⟨rfl, rfl⟩ := accepts_pure.mp ends
  obtain ⟨length₁, moved₁, decodes₁⟩ := first _ _ _ one
  obtain ⟨length₂, moved₂, decodes₂⟩ := second a _ _ _ two
  refine ⟨?_, ?_, decodes_bind decodes₁ ?_⟩
  · rw [length₁, length₂, List.length_append, Nat.add_assoc]
  · rw [moved₂, moved₁, List.length_append, Nat.add_assoc]
  · rw [← List.append_nil (emit' a b)]
    exact decodes_bind decodes₂ (decodes_pure _)

/-- A value that is dropped: another one of its length may stand for it. -/
theorem Recodes.ignore {r : ByteReader ε τ α} {emit : α → List UInt8} (recodes : Recodes r emit)
    {written : List UInt8} {value : α} (decodes : Decodes r written value)
    (fixed : ∀ input a input', Accepts r input a input' → (emit a).length = written.length) :
    Recodes (do
      let _ ← r
      pure ()) fun _ => written := by
  intro input unit_ input' accepted
  obtain ⟨a, input₁, one, ends⟩ := accepts_bind.mp accepted
  obtain ⟨-, rfl⟩ := accepts_pure.mp ends
  obtain ⟨length₁, moved₁, -⟩ := recodes _ _ _ one
  rw [fixed _ _ _ one] at length₁ moved₁
  refine ⟨length₁, moved₁, ?_⟩
  rw [← List.append_nil written]
  exact decodes_bind decodes (decodes_pure ())

/-- A reader behind one that takes no bytes and gives the same wherever it stands. -/
theorem Recodes.behind {r : ByteReader ε τ α} {s : α → ByteReader ε τ β} {emit : β → List UInt8}
    (silent : ∀ input a input', Accepts r input a input' → input = input' ∧ Decodes r [] a)
    (second : ∀ a, Recodes (s a) emit) : Recodes (r >>= s) emit := by
  intro input value input' accepted
  obtain ⟨a, input₁, one, two⟩ := accepts_bind.mp accepted
  obtain ⟨rfl, decodes₁⟩ := silent _ _ _ one
  obtain ⟨length, moved, decodes₂⟩ := second a _ _ _ two
  exact ⟨length, moved, decodes_bind decodes₁ decodes₂⟩

theorem Recodes.rows {row : ByteReader ε τ α} {write : α → List UInt8} (exact_ : Exact row write)
    (count : Nat) : Recodes (rows row count) fun values => values.flatMap write := by
  intro input values input' accepted
  obtain ⟨rfl, ahead, moved⟩ := (accepts_rows exact_ count).mp accepted
  exact ⟨by rw [ahead, List.length_append], moved, decodes_rows fun value _ => exact_.decodes value⟩

theorem Recodes.table {row : ByteReader ε τ α} {write : α → List UInt8} (exact_ : Exact row write)
    (count : Nat) : Recodes (table count row) fun values => values.flatMap write := by
  intro input values input' accepted
  obtain ⟨rfl, ahead, moved⟩ := (accepts_table exact_ count).mp accepted
  exact ⟨by rw [ahead, List.length_append], moved, decodes_table fun value _ => exact_.decodes value⟩

end ByteReader
