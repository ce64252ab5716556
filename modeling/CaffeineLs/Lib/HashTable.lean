/-
Module: CaffeineLs.Lib.HashTable
Purpose: Hash maps: one value for each key, and an order of iteration that says nothing about the
  contents. And the first occurrences of a list, with those of a part of it.
Trusted boundary: none
Main exports: Table, Table.get, Table.insert
-/
import Mathlib.Data.List.Nodup

namespace HashTable

/-- The entries in the order of iteration, no key twice. -/
structure Table (K V : Type) where
  entries : List (K × V)
  nodup : (entries.map Prod.fst).Nodup

variable {K V : Type}

namespace Table

def empty : Table K V := ⟨[], List.nodup_nil⟩

variable [DecidableEq K]

def get (t : Table K V) (key : K) : Option V :=
  (t.entries.find? fun entry => entry.1 = key).map Prod.snd

def insert (t : Table K V) (key : K) (value : V) : Table K V where
  entries := (key, value) :: t.entries.filter fun entry => entry.1 ≠ key
  nodup := by
    rw [List.map_cons, List.nodup_cons]
    constructor
    · intro listed
      obtain ⟨entry, kept, same⟩ := List.mem_map.mp listed
      exact absurd same (of_decide_eq_true (List.mem_filter.mp kept).2)
    · exact t.nodup.sublist (List.filter_sublist.map Prod.fst)

/-- Two tables with the same contents. -/
def Same (t t' : Table K V) : Prop := ∀ key, t.get key = t'.get key

theorem Same.refl (t : Table K V) : t.Same t := fun _ => rfl

@[simp] theorem get_empty (key : K) : (empty : Table K V).get key = none := rfl

theorem get_eq_some_iff {t : Table K V} {key : K} {value : V} :
    t.get key = some value ↔ (key, value) ∈ t.entries := by
  obtain ⟨entries, nodup⟩ := t
  unfold get
  simp only
  induction entries with
  | nil => simp
  | cons entry rest ih =>
      obtain ⟨other, held⟩ := entry
      rw [List.map_cons, List.nodup_cons] at nodup
      rw [List.find?_cons]
      by_cases here : other = key
      · subst here
        have gone : (other, value) ∉ rest := fun later =>
          nodup.1 (List.mem_map.mpr ⟨(other, value), later, rfl⟩)
        simp [gone, eq_comm]
      · have apart : (key, value) ≠ (other, held) := fun same => here (congrArg Prod.fst same).symm
        simp only [here, decide_false, ih nodup.2, List.mem_cons, apart, false_or]

theorem get_insert (t : Table K V) (key other : K) (value : V) :
    (t.insert key value).get other = if key = other then some value else t.get other := by
  unfold get insert
  simp only [List.find?_cons]
  by_cases here : key = other
  · simp [here]
  · simp only [here, decide_false, if_false, List.find?_filter]
    congr 2
    funext entry
    by_cases there : entry.1 = other
    · simp [there, Ne.symm here]
    · simp [there]

/-- The entries whose keys stay: `HashMap::retain` -/
def retain (t : Table K V) (stays : K → Bool) : Table K V where
  entries := t.entries.filter fun entry => stays entry.1
  nodup := t.nodup.sublist (List.filter_sublist.map Prod.fst)

theorem get_retain (t : Table K V) (stays : K → Bool) (key : K) :
    (t.retain stays).get key = if stays key then t.get key else none := by
  unfold get retain
  rw [List.find?_filter]
  cases left : stays key with
  | true =>
      rw [if_pos rfl]
      congr 2
      funext entry
      by_cases here : entry.1 = key
      · simp [here, left]
      · simp [here]
  | false =>
      have gone : (t.entries.find? fun entry => stays entry.1 && decide (entry.1 = key)) = none := by
        rw [List.find?_eq_none]
        intro entry _ found
        have both := Bool.and_eq_true_iff.mp found
        rw [of_decide_eq_true both.2, left] at both
        cases both.1
      simpa using congrArg (Option.map Prod.snd) gone

/-- Every value replaced by one that is computed from it. -/
def mapValues {W : Type} (t : Table K V) (f : V → W) : Table K W where
  entries := t.entries.map fun entry => (entry.1, f entry.2)
  nodup := by
    rw [List.map_map]
    exact t.nodup

theorem get_mapValues {W : Type} (t : Table K V) (f : V → W) (key : K) :
    (t.mapValues f).get key = (t.get key).map f := by
  unfold get mapValues
  rw [List.find?_map, Option.map_map, Option.map_map]
  rfl

end Table

/-! ### First occurrences -/

section Firsts

variable {α : Type} [DecidableEq α]

/-- `if !known.contains(x) { known.push(x) }` -/
def pushNew (known : List α) (x : α) : List α := if x ∈ known then known else known ++ [x]

/-- What is known, and what is new after it in the order of the first occurrences. -/
def firsts (known xs : List α) : List α := xs.foldl pushNew known

@[simp] theorem firsts_nil (known : List α) : firsts known [] = known := rfl

@[simp] theorem firsts_cons (known : List α) (x : α) (xs : List α) :
    firsts known (x :: xs) = firsts (pushNew known x) xs := rfl

theorem firsts_append (known xs ys : List α) :
    firsts known (xs ++ ys) = firsts (firsts known xs) ys :=
  List.foldl_append

theorem pushNew_of_mem {known : List α} {x : α} (old : x ∈ known) : pushNew known x = known :=
  if_pos old

theorem pushNew_of_not_mem {known : List α} {x : α} (fresh : x ∉ known) :
    pushNew known x = known ++ [x] :=
  if_neg fresh

theorem prefix_pushNew (known : List α) (x : α) : known <+: pushNew known x := by
  unfold pushNew
  split
  · exact List.prefix_rfl
  · exact List.prefix_append known [x]

theorem prefix_firsts (known xs : List α) : known <+: firsts known xs := by
  induction xs generalizing known with
  | nil => exact List.prefix_rfl
  | cons x xs ih => exact (prefix_pushNew known x).trans (ih (pushNew known x))

theorem nodup_firsts {known : List α} (nodup : known.Nodup) (xs : List α) :
    (firsts known xs).Nodup := by
  induction xs generalizing known with
  | nil => exact nodup
  | cons x xs ih =>
      rw [firsts_cons]
      apply ih
      by_cases old : x ∈ known
      · rwa [pushNew_of_mem old]
      · rw [pushNew_of_not_mem old]
        exact List.nodup_append.mpr ⟨nodup, List.nodup_singleton x, fun y listed z here same =>
          old ((List.mem_singleton.mp here) ▸ same ▸ listed)⟩

/-- The first element that is not known comes right after what is. -/
theorem firsts_of_find? {known xs : List α} {x : α}
    (next : (xs.find? fun y => y ∉ known) = some x) :
    firsts known xs = firsts (known ++ [x]) xs := by
  obtain ⟨fresh, before, after, rfl, old⟩ := List.find?_eq_some_iff_append.mp next
  have unknown : x ∉ known := of_decide_eq_true fresh
  have passed (more : List α) : firsts (known ++ more) before = known ++ more := by
    clear next
    induction before with
    | nil => rfl
    | cons y before ih =>
        have listed : y ∈ known := by simpa using old y List.mem_cons_self
        rw [firsts_cons, pushNew_of_mem (List.mem_append_left more listed)]
        exact ih fun z later => old z (List.mem_cons_of_mem y later)
  have plain : firsts known before = known := by simpa using passed []
  have once : x ∈ known ++ [x] := List.mem_append_right known List.mem_cons_self
  rw [firsts_append, firsts_append, plain, passed [x], firsts_cons, firsts_cons,
    pushNew_of_not_mem unknown, pushNew_of_mem once]

theorem find?_of_firsts {known xs : List α} {x : α}
    (next : known ++ [x] <+: firsts known xs) : (xs.find? fun y => y ∉ known) = some x := by
  induction xs with
  | nil =>
      have short := next.length_le
      simp only [firsts_nil, List.length_append, List.length_singleton] at short
      omega
  | cons y xs ih =>
      rw [List.find?_cons]
      by_cases old : y ∈ known
      · rw [firsts_cons, pushNew_of_mem old] at next
        simp only [old, not_true_eq_false, decide_false]
        exact ih next
      · rw [firsts_cons, pushNew_of_not_mem old] at next
        have same : known ++ [y] = known ++ [x] := by
          apply (List.prefix_of_prefix_length_le (prefix_firsts _ xs) next (by simp)).eq_of_length
          simp
        simp only [old, not_false_eq_true, decide_true]
        exact congrArg some (by simpa using same)

/-- The elements that stay, of a list whose elements are marked to stay or to go. -/
def kept (marked : List (α × Bool)) : List α := (marked.filter Prod.snd).map Prod.fst

omit [DecidableEq α] in
@[simp] theorem kept_append (marked later : List (α × Bool)) :
    kept (marked ++ later) = kept marked ++ kept later := by
  simp [kept]

omit [DecidableEq α] in
theorem kept_mark (stays : α → Bool) (xs : List α) :
    kept (xs.map fun x => (x, stays x)) = xs.filter stays := by
  rw [kept, List.filter_map, List.map_map]
  exact List.map_id _

/-- What goes is known where it goes, or it is the first of what stays after it that is not known. -/
def Absorbed (known : List α) (marked : List (α × Bool)) : Prop :=
  ∀ before x after, marked = before ++ (x, false) :: after →
    x ∈ firsts known (before.map Prod.fst) ∨
      ((kept after).find? fun y => y ∉ firsts known (before.map Prod.fst)) = some x

theorem absorbed_cons {known : List α} {x : α} {stays : Bool} {marked : List (α × Bool)} :
    Absorbed known ((x, stays) :: marked) ↔
      (stays = false → x ∈ known ∨ ((kept marked).find? fun y => y ∉ known) = some x) ∧
        Absorbed (pushNew known x) marked := by
  constructor
  · intro absorbed
    constructor
    · intro goes
      subst goes
      exact absorbed [] x marked rfl
    · intro before y after split
      rw [split] at absorbed
      exact absorbed ((x, stays) :: before) y after rfl
  · intro ⟨here, later⟩ before y after split
    cases before with
    | nil =>
        cases split
        exact here rfl
    | cons first before =>
        cases split
        exact later before y after rfl

/-- The first occurrences are those of what stays exactly where what goes is absorbed. -/
theorem firsts_kept_iff (known : List α) (marked : List (α × Bool)) :
    firsts known (marked.map Prod.fst) = firsts known (kept marked) ↔ Absorbed known marked := by
  induction marked generalizing known with
  | nil => simp [kept, Absorbed]
  | cons entry marked ih =>
      obtain ⟨x, stays⟩ := entry
      rw [absorbed_cons, ← ih (pushNew known x), List.map_cons, firsts_cons]
      cases stays with
      | true =>
          have shape : kept ((x, true) :: marked) = x :: kept marked := rfl
          rw [shape, firsts_cons]
          simp
      | false =>
          have shape : kept ((x, false) :: marked) = kept marked := rfl
          rw [shape]
          by_cases old : x ∈ known
          · rw [pushNew_of_mem old]
            simp [old]
          · rw [pushNew_of_not_mem old]
            simp only [old, false_or, forall_const]
            constructor
            · intro same
              have ahead : known ++ [x] <+: firsts known (kept marked) := same ▸ prefix_firsts _ _
              have next := find?_of_firsts ahead
              exact ⟨next, same.trans (firsts_of_find? next)⟩
            · intro ⟨next, same⟩
              exact same.trans (firsts_of_find? next).symm

end Firsts

end HashTable
