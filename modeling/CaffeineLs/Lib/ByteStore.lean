/-
Module: CaffeineLs.Lib.ByteStore
Purpose: A map from byte strings to byte strings in lexicographic key order, with half-open range
  deletion, and how the order sees big-endian numbers.
Trusted boundary: none
Main exports: before, before_bigEndian, ByteStore
-/
import CaffeineLs.Lib.Wire

open Wire

abbrev Bytes := List UInt8

namespace Bytes

/-- The lexicographic order of byte strings, a proper prefix first. -/
def before : Bytes → Bytes → Bool
  | _, [] => false
  | [], _ :: _ => true
  | a :: as, b :: bs => decide (a < b) || (a == b && before as bs)

attribute [local simp] before

@[simp] theorem before_self (xs : Bytes) : before xs xs = false := by
  induction xs with
  | nil => rfl
  | cons a as ih => simp [before, ih]

theorem before_trans {xs ys zs : Bytes} (one : before xs ys) (two : before ys zs) :
    before xs zs := by
  induction zs generalizing xs ys with
  | nil => simp at two
  | cons c cs ih =>
      cases ys with
      | nil => simp at one
      | cons b bs =>
          cases xs with
          | nil => rfl
          | cons a as =>
              simp only [before, Bool.or_eq_true, decide_eq_true_eq, Bool.and_eq_true,
                beq_iff_eq] at one two ⊢
              rcases one with less | ⟨rfl, one⟩
              · rcases two with more | ⟨rfl, -⟩
                · exact .inl (UInt8.lt_trans less more)
                · exact .inl less
              · rcases two with more | ⟨rfl, two⟩
                · exact .inl more
                · exact .inr ⟨rfl, ih one two⟩

/-- Two keys that are not ordered are the same. -/
theorem eq_of_not_before {xs ys : Bytes} (one : before xs ys = false) (two : before ys xs = false) :
    xs = ys := by
  induction xs generalizing ys with
  | nil =>
      cases ys with
      | nil => rfl
      | cons b bs => simp [before] at one
  | cons a as ih =>
      cases ys with
      | nil => simp [before] at two
      | cons b bs =>
          simp only [before, Bool.or_eq_false_iff, decide_eq_false_iff_not, UInt8.not_lt,
            Bool.and_eq_false_iff, beq_eq_false_iff_ne] at one two
          have same : a = b := UInt8.le_antisymm two.1 one.1
          subst same
          simp only [ne_eq, not_true_eq_false, false_or] at one two
          rw [ih one.2 two.2]

/-- Nothing of at least their length comes before zeros. -/
theorem before_zeros {xs : Bytes} {n : Nat} (long : n ≤ xs.length) :
    before xs (List.replicate n 0) = false := by
  induction n generalizing xs with
  | zero => simp
  | succ n ih =>
      cases xs with
      | nil => simp at long
      | cons a as =>
          have rest : before as (List.replicate n 0) = false := ih (by simpa using long)
          have low : ¬ a < 0 := UInt8.not_lt_zero
          simp [List.replicate_succ, before, rest, low]

/-- Numbers of one width are ordered as their bytes are, whatever follows them. -/
theorem before_bigEndian (width a b : Nat) (xs ys : Bytes) :
    before (bigEndian width a ++ xs) (bigEndian width b ++ ys) = true ↔
      a % 256 ^ width < b % 256 ^ width ∨
        (a % 256 ^ width = b % 256 ^ width ∧ before xs ys = true) := by
  induction width with
  | zero => simp [bigEndian, Nat.mod_one]
  | succ width ih =>
      have split (n : Nat) : n % 256 ^ (width + 1) =
          256 ^ width * (n / 256 ^ width % 256) + n % 256 ^ width := by
        rw [Nat.pow_succ, Nat.mod_mul, Nat.add_comm]
      have digit (n : Nat) : (UInt8.ofNat (n / 256 ^ width)).toNat = n / 256 ^ width % 256 := by
        simp
      have low (n : Nat) : n % 256 ^ width < 256 ^ width := Nat.mod_lt _ (Nat.pow_pos (by decide))
      simp only [bigEndian, List.cons_append, before, Bool.or_eq_true, decide_eq_true_eq,
        Bool.and_eq_true, beq_iff_eq, ih, UInt8.lt_iff_toNat_lt, ← UInt8.toNat_inj, digit, split]
      have lowA := low a
      have lowB := low b
      generalize a / 256 ^ width % 256 = p at *
      generalize b / 256 ^ width % 256 = q at *
      generalize a % 256 ^ width = r at *
      generalize b % 256 ^ width = s at *
      generalize 256 ^ width = w at *
      constructor
      · rintro (less | ⟨rfl, less | ⟨rfl, rest⟩⟩)
        · have step : w * (p + 1) ≤ w * q := Nat.mul_le_mul_left w less
          rw [Nat.mul_succ] at step
          exact .inl (by omega)
        · exact .inl (by omega)
        · exact .inr ⟨rfl, rest⟩
      · rintro (less | ⟨same, rest⟩)
        · rcases Nat.lt_trichotomy p q with lower | rfl | higher
          · exact .inl lower
          · exact .inr ⟨rfl, .inl (by omega)⟩
          · have step : w * (q + 1) ≤ w * p := Nat.mul_le_mul_left w higher
            rw [Nat.mul_succ] at step
            omega
        · rcases Nat.lt_trichotomy p q with lower | rfl | higher
          · exact .inl lower
          · exact .inr ⟨rfl, .inr ⟨by omega, rest⟩⟩
          · have step : w * (q + 1) ≤ w * p := Nat.mul_le_mul_left w higher
            rw [Nat.mul_succ] at step
            omega

end Bytes

/-- A map from byte strings to byte strings, in key order. -/
structure ByteStore where
  entries : List (Bytes × Bytes)
  sorted : entries.Pairwise fun one two => Bytes.before one.1 two.1

namespace ByteStore

open Bytes

def empty : ByteStore := { entries := [], sorted := List.Pairwise.nil }

def get (store : ByteStore) (key : Bytes) : Option Bytes := store.entries.lookup key

/-- Whether a key lies in the half-open range. Nothing lies in a range that ends before it starts. -/
def inRange (start stop key : Bytes) : Bool := !before key start && before key stop

/-- The entries with the value put under the key, in its place. -/
def insertEntry (key value : Bytes) : List (Bytes × Bytes) → List (Bytes × Bytes)
  | [] => [(key, value)]
  | entry :: rest =>
      if before key entry.1 then (key, value) :: entry :: rest
      else if key = entry.1 then (key, value) :: rest
      else entry :: insertEntry key value rest

theorem mem_insertEntry {key value : Bytes} {entry : Bytes × Bytes} {entries : List (Bytes × Bytes)}
    (member : entry ∈ insertEntry key value entries) : entry = (key, value) ∨ entry ∈ entries := by
  induction entries with
  | nil => exact .inl (List.mem_singleton.mp member)
  | cons first rest ih =>
      unfold insertEntry at member
      split at member
      · exact List.mem_cons.mp member
      · split at member
        · rcases List.mem_cons.mp member with new | old
          · exact .inl new
          · exact .inr (List.mem_cons_of_mem first old)
        · rcases List.mem_cons.mp member with head | tail
          · exact .inr (head ▸ List.mem_cons_self)
          · rcases ih tail with new | old
            · exact .inl new
            · exact .inr (List.mem_cons_of_mem first old)

theorem sorted_insertEntry {key value : Bytes} {entries : List (Bytes × Bytes)}
    (sorted : entries.Pairwise fun one two => before one.1 two.1) :
    (insertEntry key value entries).Pairwise fun one two => before one.1 two.1 := by
  induction entries with
  | nil => exact List.pairwise_singleton _ _
  | cons first rest ih =>
      obtain ⟨above, sortedRest⟩ := List.pairwise_cons.mp sorted
      unfold insertEntry
      split
      next less =>
        apply List.pairwise_cons.mpr
        refine ⟨?_, sorted⟩
        intro entry member
        rcases List.mem_cons.mp member with rfl | later
        · exact less
        · exact before_trans less (above entry later)
      next notLess =>
        split
        next same =>
          apply List.pairwise_cons.mpr
          refine ⟨?_, sortedRest⟩
          intro entry member
          simp only [same]
          exact above entry member
        next differs =>
          have more : before first.1 key := by
            cases order : before first.1 key with
            | true => rfl
            | false =>
                simp only [Bool.not_eq_true] at notLess
                exact absurd (eq_of_not_before notLess order) differs
          apply List.pairwise_cons.mpr
          refine ⟨?_, ih sortedRest⟩
          intro entry member
          rcases mem_insertEntry member with rfl | old
          · exact more
          · exact above entry old

def put (store : ByteStore) (key value : Bytes) : ByteStore where
  entries := insertEntry key value store.entries
  sorted := sorted_insertEntry store.sorted

/-- The store without the entries of a range, and how many they were. -/
def deleteRange (store : ByteStore) (start stop : Bytes) : ByteStore × Nat :=
  ({ entries := store.entries.filter fun entry => !inRange start stop entry.1
     sorted := store.sorted.filter _ },
   (store.entries.filter fun entry => inRange start stop entry.1).length)

theorem lookup_cons_self {key value : Bytes} {rest : List (Bytes × Bytes)} :
    ((key, value) :: rest).lookup key = some value := by
  simp

theorem lookup_cons_of_ne {key : Bytes} {entry : Bytes × Bytes} {rest : List (Bytes × Bytes)}
    (differs : key ≠ entry.1) : (entry :: rest).lookup key = rest.lookup key := by
  have order : (key == entry.1) = false := by simpa using differs
  obtain ⟨first, value⟩ := entry
  simp [List.lookup_cons, order]

theorem lookup_insertEntry (key value other : Bytes) (entries : List (Bytes × Bytes)) :
    (insertEntry key value entries).lookup other =
      if other = key then some value else entries.lookup other := by
  induction entries with
  | nil =>
      by_cases same : other = key
      · subst same
        rw [if_pos rfl]
        exact lookup_cons_self
      · rw [if_neg same]
        exact lookup_cons_of_ne same
  | cons first rest ih =>
      unfold insertEntry
      by_cases same : other = key
      · subst same
        rw [if_pos rfl] at ih ⊢
        split
        · exact lookup_cons_self
        · split
          · exact lookup_cons_self
          · next differs => rw [lookup_cons_of_ne differs, ih]
      · rw [if_neg same] at ih ⊢
        split
        · exact lookup_cons_of_ne same
        · split
          · next first_eq =>
              have differs : other ≠ first.1 := fun eq => same (eq.trans first_eq.symm)
              rw [lookup_cons_of_ne differs, lookup_cons_of_ne same]
          · by_cases head : other = first.1
            · subst head
              obtain ⟨first, held⟩ := first
              rw [lookup_cons_self, lookup_cons_self]
            · rw [lookup_cons_of_ne head, lookup_cons_of_ne head, ih]

theorem get_put (store : ByteStore) (key value other : Bytes) :
    (store.put key value).get other = if other = key then some value else store.get other :=
  lookup_insertEntry key value other store.entries

theorem lookup_filter (keep : Bytes → Bool) (key : Bytes) (entries : List (Bytes × Bytes)) :
    (entries.filter fun entry => keep entry.1).lookup key =
      if keep key then entries.lookup key else none := by
  induction entries with
  | nil => simp
  | cons first rest ih =>
      obtain ⟨head, held⟩ := first
      by_cases same : key = head
      · subst same
        cases kept : keep key with
        | true => simp [kept]
        | false => simpa [kept] using ih
      · have skip : ((head, held) :: rest).lookup key = rest.lookup key := lookup_cons_of_ne same
        rw [skip]
        cases kept : keep head with
        | true =>
            simp only [List.filter_cons, kept, if_true]
            rw [lookup_cons_of_ne same, ih]
        | false => simpa only [List.filter_cons, kept, if_false, Bool.false_eq_true] using ih

theorem get_deleteRange (store : ByteStore) (start stop key : Bytes) :
    (store.deleteRange start stop).1.get key =
      if inRange start stop key then none else store.get key := by
  unfold get deleteRange
  rw [lookup_filter (fun key => !inRange start stop key)]
  cases inRange start stop key <;> rfl

theorem mem_iff_get (store : ByteStore) {key value : Bytes} :
    (key, value) ∈ store.entries ↔ store.get key = some value := by
  obtain ⟨entries, sorted⟩ := store
  unfold get
  induction entries with
  | nil => simp
  | cons first rest ih =>
      obtain ⟨above, sortedRest⟩ := List.pairwise_cons.mp sorted
      have rest_iff := ih sortedRest
      obtain ⟨head, held⟩ := first
      by_cases same : key = head
      · subst same
        have absent : (key, value) ∉ rest := by
          intro member
          simpa using above _ member
        simp [absent, eq_comm]
      · rw [lookup_cons_of_ne same, List.mem_cons, Prod.ext_iff]
        simp only [same, false_and, false_or]
        exact rest_iff

/-- A range is counted empty exactly when no key of it is there. -/
theorem deleteRange_count_pos (store : ByteStore) (start stop : Bytes) :
    0 < (store.deleteRange start stop).2 ↔
      ∃ key value, inRange start stop key ∧ store.get key = some value := by
  unfold deleteRange
  rw [List.length_pos_iff_exists_mem]
  constructor
  · rintro ⟨⟨key, value⟩, member⟩
    obtain ⟨there, inside⟩ := List.mem_filter.mp member
    exact ⟨key, value, inside, (mem_iff_get store).mp there⟩
  · rintro ⟨key, value, inside, found⟩
    exact ⟨(key, value), List.mem_filter.mpr ⟨(mem_iff_get store).mpr found, inside⟩⟩

end ByteStore
