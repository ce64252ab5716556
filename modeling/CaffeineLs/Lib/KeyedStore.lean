/-
Module: CaffeineLs.Lib.KeyedStore
Purpose: Stores that hold one value for each key, known by their operations only, and what a list of
  guarded writes leaves at a key.
Trusted boundary: none
Main exports: Store, Store.Lawful, writeWhere
-/

namespace KeyedStore

variable {K V : Type}

structure Store (K V : Type) where
  State : Type
  empty : State
  write : State → K → V → State
  read : State → K → V

/-- A key holds what was written to it last, and `missing` before that. -/
structure Store.Lawful (store : Store K V) (missing : V) : Prop where
  read_empty : ∀ key, store.read store.empty key = missing
  read_write_self : ∀ s key value, store.read (store.write s key value) key = value
  read_write_other : ∀ s {key other} value, other ≠ key →
    store.read (store.write s key value) other = store.read s other

variable [DecidableEq K] (store : Store K V)

/-- The writes one after another, those to a key that is not accepted left out. -/
def Store.writeWhere (accepts : K → Bool) : store.State → List (K × V) → store.State
  | s, [] => s
  | s, (key, value) :: rest =>
      Store.writeWhere accepts (if accepts key then store.write s key value else s) rest

/-- The value of the last write to the key. -/
def lastWrite (key : K) : List (K × V) → Option V
  | [] => none
  | (other, value) :: rest => (lastWrite key rest).or (if other = key then some value else none)

omit [DecidableEq K] in
theorem Store.Lawful.read_write [DecidableEq K] {store : Store K V} {missing : V}
    (lawful : store.Lawful missing) (s : store.State) (key other : K) (value : V) :
    store.read (store.write s key value) other =
      if key = other then value else store.read s other := by
  by_cases same : key = other
  · rw [if_pos same, ← same]
    exact lawful.read_write_self s key value
  · rw [if_neg same]
    exact lawful.read_write_other s value (Ne.symm same)

/-- A key that is accepted holds the last value written to it, another one what it held. -/
theorem Store.Lawful.read_writeWhere {store : Store K V} {missing : V}
    (lawful : store.Lawful missing) (accepts : K → Bool) (s : store.State)
    (writes : List (K × V)) (key : K) :
    store.read (store.writeWhere accepts s writes) key =
      if accepts key then (lastWrite key writes).getD (store.read s key) else store.read s key := by
  induction writes generalizing s with
  | nil => simp [Store.writeWhere, lastWrite]
  | cons write rest ih =>
      obtain ⟨other, value⟩ := write
      simp only [Store.writeWhere, lastWrite, ih]
      by_cases accepted : accepts key
      · by_cases same : other = key
        · subst same
          simp [accepted, lawful.read_write]
        · have kept : store.read (if accepts other then store.write s other value else s) key =
              store.read s key := by
            split
            · rw [lawful.read_write, if_neg same]
            · rfl
          simp [accepted, same, kept]
      · by_cases same : other = key
        · subst same
          simp [accepted]
        · simp only [accepted, Bool.false_eq_true, if_false]
          split
          · rw [lawful.read_write, if_neg same]
          · rfl

theorem lastWrite_eq_none_iff {key : K} {writes : List (K × V)} :
    lastWrite key writes = none ↔ ∀ write ∈ writes, write.1 ≠ key := by
  induction writes with
  | nil => simp [lastWrite]
  | cons write rest ih =>
      simp only [lastWrite, Option.or_eq_none_iff, ih, List.forall_mem_cons]
      by_cases same : write.1 = key <;> simp [same]

end KeyedStore
