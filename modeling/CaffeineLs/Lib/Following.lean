/-
Module: CaffeineLs.Lib.Following
Purpose: Two readers of the same bytes: where the first gives a value, the second gives one as well and
  takes the same bytes, and the two values agree.
Trusted boundary: none
Main exports: Follows, follows_bind, follows_look
-/
import CaffeineLs.Lib.ByteCodec

namespace ByteReader

variable {ε ε' τ τ' α α' β β' : Type}

/-- Where the first reader, standing at `pos`, gives a value, the second gives one and stands where the
first does; `agree` is told how many bytes they take. -/
def Follows (pos : Nat) (r : ByteReader ε τ α) (s : ByteReader ε' τ' β) (agree : α → β → Nat → Prop) :
    Prop :=
  ∀ rest a input', Accepts r ⟨pos, rest⟩ a input' → ∃ b taken, Accepts s ⟨pos, rest⟩ b input' ∧
    input'.pos = pos + taken ∧ rest.length = taken + input'.rest.length ∧ agree a b taken

variable {pos : Nat}

theorem Follows.weaken {r : ByteReader ε τ α} {s : ByteReader ε' τ' β}
    {agree agree' : α → β → Nat → Prop} (follows : Follows pos r s agree)
    (weaker : ∀ a b taken, agree a b taken → agree' a b taken) : Follows pos r s agree' := by
  intro rest a input' accepted
  obtain ⟨b, taken, accepted', moved, length, agrees⟩ := follows rest a input' accepted
  exact ⟨b, taken, accepted', moved, length, weaker a b taken agrees⟩

theorem follows_pure {a : α} {b : β} {agree : α → β → Nat → Prop} (agrees : agree a b 0) :
    Follows pos (pure a : ByteReader ε τ α) (pure b : ByteReader ε' τ' β) agree := by
  intro rest a' input' accepted
  obtain ⟨rfl, rfl⟩ := accepts_pure.mp accepted
  exact ⟨b, 0, accepts_pure.mpr ⟨rfl, rfl⟩, rfl, (Nat.zero_add _).symm, agrees⟩

theorem follows_fail {fault : ε} {s : ByteReader ε' τ' β} {agree : α → β → Nat → Prop} :
    Follows pos (fail fault : ByteReader ε τ α) s agree :=
  fun _ _ _ accepted => (not_accepts_fail accepted).elim

theorem follows_stop {reason : Stop ε} {s : ByteReader ε' τ' β} {agree : α → β → Nat → Prop} :
    Follows pos (stop reason : ByteReader ε τ α) s agree :=
  fun _ _ _ accepted => (not_accepts_stop accepted).elim

theorem follows_bind {r : ByteReader ε τ α} {s : ByteReader ε' τ' β} {next : α → ByteReader ε τ α'}
    {next' : β → ByteReader ε' τ' β'} {before : α → β → Nat → Prop} {agree : α' → β' → Nat → Prop}
    (first : Follows pos r s before)
    (later : ∀ a b taken, before a b taken → Follows (pos + taken) (next a) (next' b)
      fun a' b' more => agree a' b' (taken + more)) :
    Follows pos (r >>= next) (s >>= next') agree := by
  intro rest a' input'' accepted
  obtain ⟨a, input', one, two⟩ := accepts_bind.mp accepted
  obtain ⟨b, taken, one', moved, length, agrees⟩ := first rest a input' one
  obtain ⟨pos', rest'⟩ := input'
  obtain rfl : pos' = pos + taken := moved
  obtain ⟨b', more, two', moved', length', agrees'⟩ := later a b taken agrees rest' a' input'' two
  refine ⟨b', taken + more, accepts_bind.mpr ⟨b, _, one', two'⟩, ?_, ?_, agrees'⟩
  · rw [moved', Nat.add_assoc]
  · rw [length, length', Nat.add_assoc]

theorem follows_pass {place : τ} {place' : τ'} :
    Follows pos (pass place : ByteReader ε τ Unit) (pass place' : ByteReader ε' τ' Unit)
      fun _ _ taken => taken = 0 := by
  intro rest a input' accepted
  obtain rfl := accepts_pass.mp accepted
  exact ⟨(), 0, accepts_pass.mpr rfl, rfl, (Nat.zero_add _).symm, rfl⟩

theorem follows_position :
    Follows pos (position : ByteReader ε τ Input) (position : ByteReader ε' τ' Input)
      fun a b taken => a = b ∧ b.pos = pos ∧ taken = 0 := by
  intro rest a input' accepted
  obtain ⟨rfl, rfl⟩ := accepts_position.mp accepted
  exact ⟨_, 0, accepts_position.mpr ⟨rfl, rfl⟩, rfl, (Nat.zero_add _).symm, rfl, rfl, rfl⟩

/-- The first reader looks where it stands. -/
theorem follows_look {next : Input → ByteReader ε τ α} {s : ByteReader ε' τ' β}
    {agree : α → β → Nat → Prop} (later : ∀ input, Follows pos (next input) s agree) :
    Follows pos (position >>= next) s agree := by
  intro rest a input' accepted
  obtain ⟨input, input₁, here, further⟩ := accepts_bind.mp accepted
  obtain ⟨-, rfl⟩ := accepts_position.mp here
  exact later input rest a input' further

/-- The same bytes, with an error of another kind where they are too few. -/
theorem follows_bytes {eof : ε} {eof' : ε'} {n : Nat} :
    Follows pos (bytes eof n : ByteReader ε τ (List UInt8))
      (bytes eof' n : ByteReader ε' τ' (List UInt8)) fun a b taken => a = b ∧ taken = n := by
  intro rest a input' accepted
  obtain ⟨length, ahead, moved⟩ := accepts_bytes.mp accepted
  refine ⟨a, n, accepts_bytes.mpr ⟨length, ahead, moved⟩, moved, ?_, rfl, rfl⟩
  have split : rest = a ++ input'.rest := ahead
  rw [split, List.length_append, length]

/-- A value computed from what is read. -/
theorem follows_map {r : ByteReader ε τ α} {s : ByteReader ε' τ' β} {before : α → β → Nat → Prop}
    {agree : α' → β' → Nat → Prop} {f : α → α'} {g : β → β'} (first : Follows pos r s before)
    (agrees : ∀ a b taken, before a b taken → agree (f a) (g b) taken) :
    Follows pos (do let a ← r; pure (f a)) (do let b ← s; pure (g b)) agree :=
  follows_bind first fun a b taken same => follows_pure (agrees a b taken same)

theorem follows_reserving {r : ByteReader ε τ α} {s : ByteReader ε' τ' β}
    {agree : α → β → Nat → Prop} {capacity capacity' : Nat} (follows : Follows pos r s agree) :
    Follows pos (reserving capacity r) (reserving capacity' s) agree := by
  intro rest a input' accepted
  obtain ⟨b, taken, accepted', others⟩ := follows rest a input' (accepts_reserving.mp accepted)
  exact ⟨b, taken, accepts_reserving.mpr accepted', others⟩

/-- Rows of a fixed size. -/
theorem follows_rows {row : ByteReader ε τ α} {row' : ByteReader ε' τ' β} {size : Nat}
    (each : ∀ pos, Follows pos row row' fun _ _ taken => taken = size) (count : Nat) :
    Follows pos (rows row count) (rows row' count)
      fun _ bs taken => bs.length = count ∧ taken = count * size := by
  induction count generalizing pos with
  | zero => exact follows_pure ⟨rfl, (Nat.zero_mul size).symm⟩
  | succ count ih =>
      apply follows_bind (each pos)
      rintro a b taken rfl
      apply follows_map ih
      intro as bs more ⟨length, sized⟩
      constructor
      · rw [List.length_cons, length]
      · rw [sized, Nat.add_mul, Nat.one_mul, Nat.add_comm]

theorem follows_table {row : ByteReader ε τ α} {row' : ByteReader ε' τ' β} {size : Nat}
    (each : ∀ pos, Follows pos row row' fun _ _ taken => taken = size) (count : Nat) :
    Follows pos (table count row) (table count row')
      fun _ bs taken => bs.length = count ∧ taken = count * size :=
  follows_reserving (follows_rows each count)

/-- What was read step by step: each pair of values agrees where it was read and on the bytes taken. -/
inductive Paired (agree : Nat → α → β → Nat → Prop) : Nat → List α → List β → Nat → Prop where
  | nil (pos : Nat) : Paired agree pos [] [] 0
  | cons {pos taken more : Nat} {a : α} {b : β} {as : List α} {bs : List β}
      (step : agree pos a b taken) (later : Paired agree (pos + taken) as bs more) :
      Paired agree pos (a :: as) (b :: bs) (taken + more)

theorem follows_untilEnd {step : ByteReader ε τ α} {step' : ByteReader ε' τ' β}
    {agree : Nat → α → β → Nat → Prop} (each : ∀ pos, Follows pos step step' (agree pos))
    (fuel : Nat) :
    Follows pos (untilEnd step fuel) (untilEnd step' fuel) (Paired agree pos) := by
  induction fuel generalizing pos with
  | zero => exact follows_stop
  | succ fuel ih =>
      apply follows_bind follows_position
      intro input _ _ ⟨same, _, none_⟩
      subst same none_
      split
      · exact follows_pure (.nil pos)
      · apply follows_bind (each _)
        intro a b taken agrees
        apply follows_map ih
        intro as bs more paired
        rw [Nat.zero_add]
        exact .cons agrees paired

/-- All bytes ahead are taken once none is left. -/
theorem untilEnd_finishes {step : ByteReader ε τ α} {fuel : Nat} {input input' : Input}
    {values : List α} (accepted : Accepts (untilEnd step fuel) input values input') :
    input'.rest = [] := by
  induction fuel generalizing input values with
  | zero => exact (not_accepts_stop accepted).elim
  | succ fuel ih =>
      rcases accepts_untilEnd_succ.mp accepted with
        ⟨finished, -, rfl⟩ | ⟨-, value, middle, others, first, later, rfl⟩
      · exact finished
      · exact ih later

end ByteReader
