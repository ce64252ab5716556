/-
Module: CaffeineLs.Lib.GridSearch
Purpose: The two orders in which a grid can be searched for its first answer, row by row and column by
  column, and when they come to the same answer.
Trusted boundary: none
Main exports: byRows, byColumns, firstRow
-/

namespace GridSearch

variable {R C A : Type}

/-- Each row is searched through all columns before the next row. -/
def byRows (answer : R → C → Option A) (rows : List R) (columns : List C) : Option A :=
  rows.findSome? fun r => columns.findSome? (answer r)

/-- Each column is searched through all rows before the next column. -/
def byColumns (answer : R → C → Option A) (rows : List R) (columns : List C) : Option A :=
  columns.findSome? fun c => rows.findSome? fun r => answer r c

/-- The first row with an answer in some column. -/
def firstRow (answer : R → C → Option A) (rows : List R) (columns : List C) : Option R :=
  rows.find? fun r => columns.any fun c => (answer r c).isSome

/-- The first column with an answer in some row. -/
def firstColumn (answer : R → C → Option A) (rows : List R) (columns : List C) : Option C :=
  columns.find? fun c => rows.any fun r => (answer r c).isSome

variable {answer : R → C → Option A} {rows : List R} {columns : List C}

theorem findSome?_eq_of_find? {α β : Type} {f : α → Option β} {p : α → Bool} {xs : List α} {x : α}
    (first : xs.find? p = some x) (silent : ∀ y, p y = false → f y = none) (found : (f x).isSome) :
    xs.findSome? f = f x := by
  obtain ⟨-, before, after, rfl, skipped⟩ := List.find?_eq_some_iff_append.mp first
  have nothing : before.findSome? f = none := by
    rw [List.findSome?_eq_none_iff]
    exact fun y member => silent y (by simpa using skipped y member)
  rw [List.findSome?_append, nothing, Option.none_or, List.findSome?_cons]
  cases here : f x with
  | none => simp [here] at found
  | some b => rfl

/-- Where no row answers there is no answer, by columns as by rows. -/
theorem silent_of_firstRow (none_ : firstRow answer rows columns = none) {r : R} {c : C}
    (row : r ∈ rows) (column : c ∈ columns) : answer r c = none := by
  have quiet := List.find?_eq_none.mp none_ r row
  rw [Bool.not_eq_true, List.any_eq_false] at quiet
  simpa using quiet c column

theorem byRows_none (none_ : firstRow answer rows columns = none) :
    byRows answer rows columns = none := by
  rw [byRows, List.findSome?_eq_none_iff]
  intro r row
  rw [List.findSome?_eq_none_iff]
  exact fun c column => silent_of_firstRow none_ row column

theorem byColumns_none (none_ : firstRow answer rows columns = none) :
    byColumns answer rows columns = none := by
  rw [byColumns, List.findSome?_eq_none_iff]
  intro c column
  rw [List.findSome?_eq_none_iff]
  exact fun r row => silent_of_firstRow none_ row column

/-- By rows, the answer is the first of the first row that has one. -/
theorem byRows_eq {r : R} (first : firstRow answer rows columns = some r) :
    byRows answer rows columns = columns.findSome? (answer r) ∧
      (columns.findSome? (answer r)).isSome := by
  have holds := List.find?_some first
  obtain ⟨c, column, found⟩ := List.any_eq_true.mp holds
  have some_ : (columns.findSome? (answer r)).isSome :=
    List.findSome?_isSome_iff.mpr ⟨c, column, found⟩
  refine ⟨findSome?_eq_of_find? first (fun r' quiet => ?_) some_, some_⟩
  rw [List.any_eq_false] at quiet
  rw [List.findSome?_eq_none_iff]
  exact fun c column => by simpa using quiet c column

/-- By columns, the answer is the first of the first column that has one. -/
theorem byColumns_eq {c : C} (first : firstColumn answer rows columns = some c) :
    byColumns answer rows columns = rows.findSome? (fun r => answer r c) ∧
      (rows.findSome? fun r => answer r c).isSome := by
  have holds := List.find?_some first
  obtain ⟨r, row, found⟩ := List.any_eq_true.mp holds
  have some_ : (rows.findSome? fun r => answer r c).isSome :=
    List.findSome?_isSome_iff.mpr ⟨r, row, found⟩
  refine ⟨findSome?_eq_of_find? first (fun c' quiet => ?_) some_, some_⟩
  rw [List.any_eq_false] at quiet
  rw [List.findSome?_eq_none_iff]
  exact fun r row => by simpa using quiet r row

theorem firstColumn_of_firstRow {r : R} (first : firstRow answer rows columns = some r) :
    ∃ c, firstColumn answer rows columns = some c := by
  have holds := List.find?_some first
  obtain ⟨c, column, found⟩ := List.any_eq_true.mp holds
  have some_ : (firstColumn answer rows columns).isSome := by
    rw [firstColumn, List.find?_isSome]
    exact ⟨c, column, List.any_eq_true.mpr ⟨r, List.mem_of_find?_eq_some first, found⟩⟩
  exact Option.isSome_iff_exists.mp some_

/-- Where each answer names its row, the two searches agree exactly when the first row with an answer
has one in the first column with an answer. -/
theorem agree_iff {row : A → R} (named : ∀ r c a, answer r c = some a → row a = r) :
    byRows answer rows columns = byColumns answer rows columns ↔
      ∀ r, firstRow answer rows columns = some r →
        ∀ c, firstColumn answer rows columns = some c → (answer r c).isSome := by
  cases first : firstRow answer rows columns with
  | none => simp [byRows_none first, byColumns_none first]
  | some r =>
      obtain ⟨c, leftmost⟩ := firstColumn_of_firstRow first
      obtain ⟨byRow, foundRow⟩ := byRows_eq first
      obtain ⟨byColumn, foundColumn⟩ := byColumns_eq leftmost
      rw [byRow, byColumn, leftmost]
      simp only [Option.some.injEq, forall_eq']
      constructor
      · intro same
        obtain ⟨a, inRow⟩ := Option.isSome_iff_exists.mp foundRow
        obtain ⟨c', -, here⟩ := List.exists_of_findSome?_eq_some inRow
        obtain ⟨r', -, there⟩ := List.exists_of_findSome?_eq_some (same ▸ inRow)
        have rows_same : r' = r := (named r' c a there).symm.trans (named r c' a here)
        rw [← rows_same, there]
        rfl
      · intro meets
        have left : columns.findSome? (answer r) = answer r c := by
          apply findSome?_eq_of_find? leftmost _ meets
          intro c' quiet
          rw [List.any_eq_false] at quiet
          simpa using quiet r (List.mem_of_find?_eq_some first)
        have right : (rows.findSome? fun r => answer r c) = answer r c := by
          apply findSome?_eq_of_find? first _ meets
          intro r' quiet
          rw [List.any_eq_false] at quiet
          simpa using quiet c (List.mem_of_find?_eq_some leftmost)
        rw [left, right]

end GridSearch
