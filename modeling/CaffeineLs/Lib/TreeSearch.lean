/-
Module: CaffeineLs.Lib.TreeSearch
Purpose: The depth-first search of an unfolding tree for the first answer, and when it ends: the answer
  has only finitely many paths ahead of it, all of them silent.
Trusted boundary: none
Main exports: search, follow, Ahead
-/

namespace TreeSearch

variable {α β : Type}

/-- The first answer among the nodes, by `find` at each. `none` is a search that does not end. -/
def firstOf (find : α → Option (Option β)) : List α → Option (Option β)
  | [] => some none
  | a :: rest =>
      match find a with
      | none => none
      | some (some r) => some (some r)
      | some none => firstOf find rest

section Search

variable (children : α → List α) (answer : α → Option β)

/-- The search below a node, with at most `fuel` nodes on a path. -/
def search : Nat → α → Option (Option β)
  | 0, _ => none
  | fuel + 1, a =>
      match answer a with
      | some r => some (some r)
      | none => firstOf (search fuel) (children a)

/-- The node at the end of a path of child positions. -/
def follow : α → List Nat → Option α
  | a, [] => some a
  | a, i :: path => ((children a)[i]?).bind fun child => follow child path

/-- The depth-first order of paths: a node before what lies below it. -/
def Ahead : List Nat → List Nat → Prop
  | _, [] => False
  | [], _ :: _ => True
  | i :: path, j :: other => i < j ∨ (i = j ∧ Ahead path other)

/-- Nothing at or below the node answers, and no path there is longer than some bound. -/
def Silent (a : α) : Prop :=
  ∃ bound, ∀ path node, follow children a path = some node →
    path.length ≤ bound ∧ answer node = none

/-- The path ends in the answer, and what lies ahead of it is silent and of bounded length. -/
def First (a : α) (path : List Nat) (r : β) : Prop :=
  (∃ node, follow children a path = some node ∧ answer node = some r) ∧
    ∃ bound, ∀ other node, Ahead other path → follow children a other = some node →
      other.length ≤ bound ∧ answer node = none

end Search

variable {children : α → List α} {answer : α → Option β}

/-! ### Lists of nodes -/

theorem firstOf_eq_none_iff {find : α → Option (Option β)} {nodes : List α} :
    firstOf find nodes = some none ↔ ∀ a ∈ nodes, find a = some none := by
  induction nodes with
  | nil => simp [firstOf]
  | cons a rest ih =>
      rcases found : find a with _ | _ | r <;> simp [firstOf, found, ih]

theorem firstOf_eq_some_iff {find : α → Option (Option β)} {nodes : List α} {r : β} :
    firstOf find nodes = some (some r) ↔
      ∃ i a, nodes[i]? = some a ∧ find a = some (some r) ∧
        ∀ (j : Nat) b, j < i → nodes[j]? = some b → find b = some none := by
  induction nodes with
  | nil => simp [firstOf]
  | cons a rest ih =>
      constructor
      · intro found
        unfold firstOf at found
        split at found
        · cases found
        next r' here =>
          obtain rfl := Option.some.inj (Option.some.inj found)
          exact ⟨0, a, rfl, here, fun j b before => absurd before (Nat.not_lt_zero j)⟩
        next silent =>
          obtain ⟨i, b, at_i, answers, before⟩ := ih.mp found
          refine ⟨i + 1, b, at_i, answers, ?_⟩
          intro j c below at_j
          cases j with
          | zero =>
              obtain rfl := Option.some.inj at_j
              exact silent
          | succ j => exact before j c (Nat.lt_of_succ_lt_succ below) at_j
      · rintro ⟨i, b, at_i, answers, before⟩
        cases i with
        | zero =>
            obtain rfl := Option.some.inj at_i
            simp [firstOf, answers]
        | succ i =>
            have silent := before 0 a (Nat.succ_pos i) rfl
            simp only [firstOf, silent]
            apply ih.mpr
            exact ⟨i, b, at_i, answers,
              fun j c below at_j => before (j + 1) c (Nat.succ_lt_succ below) at_j⟩

/-- An answer stays when each node that has one keeps it. -/
theorem firstOf_mono {find later : α → Option (Option β)} {nodes : List α} {result : Option β}
    (kept : ∀ a ∈ nodes, ∀ r, find a = some r → later a = some r)
    (found : firstOf find nodes = some result) : firstOf later nodes = some result := by
  induction nodes with
  | nil => exact found
  | cons a rest ih =>
      have below := ih fun b member => kept b (List.mem_cons_of_mem a member)
      unfold firstOf at found ⊢
      cases here : find a with
      | none => simp [here] at found
      | some answer =>
          rw [kept a List.mem_cons_self answer here]
          cases answer with
          | none => exact below (by simpa [here] using found)
          | some r => simpa [here] using found

/-! ### More fuel -/

theorem search_mono {fuel more : Nat} (le : fuel ≤ more) {a : α} {result : Option β}
    (found : search children answer fuel a = some result) :
    search children answer more a = some result := by
  induction fuel generalizing more a result with
  | zero => cases found
  | succ fuel ih =>
      obtain ⟨more, rfl⟩ : ∃ n, more = n + 1 := ⟨more - 1, by omega⟩
      have enough : fuel ≤ more := Nat.le_of_succ_le_succ le
      unfold search at found ⊢
      cases here : answer a with
      | some r =>
          rw [here] at found
          exact found
      | none =>
          rw [here] at found
          exact firstOf_mono (fun b _ r below => ih enough below) found

/-- Searches that end find the same. -/
theorem search_unique {fuel other : Nat} {a : α} {result again : Option β}
    (found : search children answer fuel a = some result)
    (alike : search children answer other a = some again) : result = again := by
  have one := search_mono (Nat.le_max_left fuel other) found
  have two := search_mono (Nat.le_max_right fuel other) alike
  exact Option.some.inj (one.symm.trans two)

/-- Finitely many searches that end do so with one amount of fuel. -/
theorem search_common {nodes : List α}
    (each : ∀ a ∈ nodes, ∃ fuel, search children answer fuel a = some none) :
    ∃ fuel, ∀ a ∈ nodes, search children answer fuel a = some none := by
  induction nodes with
  | nil => exact ⟨0, nofun⟩
  | cons a rest ih =>
      obtain ⟨first, found⟩ := each a List.mem_cons_self
      obtain ⟨others, all⟩ := ih fun b member => each b (List.mem_cons_of_mem a member)
      refine ⟨max first others, ?_⟩
      intro b member
      rcases List.mem_cons.mp member with rfl | later
      · exact search_mono (Nat.le_max_left first others) found
      · exact search_mono (Nat.le_max_right first others) (all b later)

/-! ### Silence -/

theorem Silent.here {a : α} (silent : Silent children answer a) : answer a = none := by
  obtain ⟨bound, all⟩ := silent
  exact (all [] a rfl).2

theorem Silent.child {a c : α} (silent : Silent children answer a) (member : c ∈ children a) :
    Silent children answer c := by
  obtain ⟨bound, all⟩ := silent
  obtain ⟨i, at_i⟩ := List.mem_iff_getElem?.mp member
  refine ⟨bound, ?_⟩
  intro path node found
  have through : follow children a (i :: path) = some node := by
    simp [follow, at_i, found]
  obtain ⟨short, none⟩ := all (i :: path) node through
  exact ⟨Nat.le_of_succ_le short, none⟩

theorem exists_common_bound {nodes : List α}
    (each : ∀ a ∈ nodes, Silent children answer a) :
    ∃ bound, ∀ a ∈ nodes, ∀ path node, follow children a path = some node →
      path.length ≤ bound ∧ answer node = none := by
  induction nodes with
  | nil => exact ⟨0, nofun⟩
  | cons a rest ih =>
      obtain ⟨first, here⟩ := each a List.mem_cons_self
      obtain ⟨others, all⟩ := ih fun b member => each b (List.mem_cons_of_mem a member)
      refine ⟨max first others, ?_⟩
      intro b member path node found
      rcases List.mem_cons.mp member with rfl | later
      · obtain ⟨short, none⟩ := here path node found
        exact ⟨Nat.le_trans short (Nat.le_max_left first others), none⟩
      · obtain ⟨short, none⟩ := all b later path node found
        exact ⟨Nat.le_trans short (Nat.le_max_right first others), none⟩

theorem silent_of_children {a : α} (none : answer a = none)
    (each : ∀ c ∈ children a, Silent children answer c) : Silent children answer a := by
  obtain ⟨bound, all⟩ := exists_common_bound each
  refine ⟨bound + 1, ?_⟩
  intro path node found
  cases path with
  | nil =>
      obtain rfl := Option.some.inj found
      exact ⟨Nat.zero_le _, none⟩
  | cons i path =>
      obtain ⟨child, at_i, below⟩ := Option.bind_eq_some_iff.mp found
      obtain ⟨short, silent⟩ := all child (List.mem_of_getElem? at_i) path node below
      exact ⟨Nat.succ_le_succ short, silent⟩

/-- The search finds nothing exactly when there is nothing and the tree is bounded. -/
theorem search_none_iff {a : α} :
    (∃ fuel, search children answer fuel a = some none) ↔ Silent children answer a := by
  constructor
  · rintro ⟨fuel, found⟩
    induction fuel generalizing a with
    | zero => cases found
    | succ fuel ih =>
        unfold search at found
        cases here : answer a with
        | some r => simp [here] at found
        | none =>
            rw [here] at found
            apply silent_of_children here
            intro c member
            exact ih (firstOf_eq_none_iff.mp found c member)
  · intro silent
    obtain ⟨bound, all⟩ := id silent
    -- by induction on the length of the longest path
    induction bound generalizing a with
    | zero =>
        have leaf : children a = [] := by
          cases below : children a with
          | nil => rfl
          | cons c rest =>
              have found : follow children a [0] = some c := by simp [follow, below]
              exact absurd (all [0] c found).1 (by simp)
        exact ⟨1, by simp [search, silent.here, leaf, firstOf]⟩
    | succ bound ih =>
        have each : ∀ c ∈ children a, ∃ fuel, search children answer fuel c = some none := by
          intro c member
          obtain ⟨i, at_i⟩ := List.mem_iff_getElem?.mp member
          apply ih (silent.child member)
          intro path node found
          have through : follow children a (i :: path) = some node := by
            simp [follow, at_i, found]
          obtain ⟨short, none⟩ := all (i :: path) node through
          exact ⟨Nat.le_of_succ_le_succ short, none⟩
        obtain ⟨fuel, found⟩ := search_common each
        refine ⟨fuel + 1, ?_⟩
        simp only [search, silent.here]
        exact firstOf_eq_none_iff.mpr found

/-! ### The first answer -/

theorem first_here {a : α} {r : β} (here : answer a = some r) : First children answer a [] r := by
  refine ⟨⟨a, rfl, here⟩, 0, ?_⟩
  intro other node ahead
  cases other <;> cases ahead

theorem first_below {a c : α} {i : Nat} {path : List Nat} {r : β} (none : answer a = none)
    (at_i : (children a)[i]? = some c)
    (before : ∀ (j : Nat) b, j < i → (children a)[j]? = some b → Silent children answer b)
    (first : First children answer c path r) : First children answer a (i :: path) r := by
  obtain ⟨⟨node, found, answers⟩, bound, ahead⟩ := first
  have silent : ∀ b ∈ (children a).take i, Silent children answer b := by
    intro b member
    obtain ⟨j, at_j⟩ := List.mem_iff_getElem?.mp member
    rw [List.getElem?_take] at at_j
    split at at_j
    next below => exact before j b below at_j
    next => cases at_j
  obtain ⟨others, all⟩ := exists_common_bound silent
  refine ⟨⟨node, by simp [follow, at_i, found], answers⟩, max bound others + 1, ?_⟩
  intro other last earlier reached
  cases other with
  | nil =>
      obtain rfl := Option.some.inj reached
      exact ⟨Nat.zero_le _, none⟩
  | cons j other =>
      obtain ⟨child, at_j, below⟩ := Option.bind_eq_some_iff.mp reached
      rcases earlier with less | ⟨rfl, earlier⟩
      · have member : child ∈ (children a).take i := by
          apply List.mem_iff_getElem?.mpr
          exact ⟨j, by rw [List.getElem?_take, if_pos less, at_j]⟩
        obtain ⟨short, silent⟩ := all child member other last below
        exact ⟨Nat.succ_le_succ (Nat.le_trans short (Nat.le_max_right bound others)), silent⟩
      · obtain rfl : child = c := Option.some.inj (at_j.symm.trans at_i)
        obtain ⟨short, silent⟩ := ahead other last earlier below
        exact ⟨Nat.succ_le_succ (Nat.le_trans short (Nat.le_max_left bound others)), silent⟩

theorem First.sibling {a : α} {i : Nat} {path : List Nat} {r : β}
    (first : First children answer a (i :: path) r) {j : Nat} {b : α} (less : j < i)
    (at_j : (children a)[j]? = some b) : Silent children answer b := by
  obtain ⟨-, bound, ahead⟩ := first
  refine ⟨bound, ?_⟩
  intro other node found
  have through : follow children a (j :: other) = some node := by simp [follow, at_j, found]
  obtain ⟨short, none⟩ := ahead (j :: other) node (.inl less) through
  exact ⟨Nat.le_of_succ_le short, none⟩

theorem First.child {a c : α} {i : Nat} {path : List Nat} {r : β}
    (first : First children answer a (i :: path) r) (at_i : (children a)[i]? = some c) :
    First children answer c path r := by
  obtain ⟨⟨node, found, answers⟩, bound, ahead⟩ := first
  have below : follow children c path = some node := by
    simpa [follow, at_i] using found
  refine ⟨⟨node, below, answers⟩, bound, ?_⟩
  intro other last earlier reached
  have through : follow children a (i :: other) = some last := by simp [follow, at_i, reached]
  obtain ⟨short, none⟩ := ahead (i :: other) last (.inr ⟨rfl, earlier⟩) through
  exact ⟨Nat.le_of_succ_le short, none⟩

/-- The search finds an answer exactly when it is the first in depth-first order and what lies ahead of
it is bounded. -/
theorem search_some_iff {a : α} {r : β} :
    (∃ fuel, search children answer fuel a = some (some r)) ↔
      ∃ path, First children answer a path r := by
  constructor
  · rintro ⟨fuel, found⟩
    induction fuel generalizing a with
    | zero => cases found
    | succ fuel ih =>
        unfold search at found
        cases here : answer a with
        | some r' =>
            rw [here] at found
            obtain rfl := Option.some.inj (Option.some.inj found)
            exact ⟨[], first_here here⟩
        | none =>
            rw [here] at found
            obtain ⟨i, c, at_i, answers, before⟩ := firstOf_eq_some_iff.mp found
            obtain ⟨path, first⟩ := ih answers
            refine ⟨i :: path, first_below here at_i ?_ first⟩
            intro j b below at_j
            exact search_none_iff.mp ⟨fuel, before j b below at_j⟩
  · rintro ⟨path, first⟩
    induction path generalizing a with
    | nil =>
        obtain ⟨⟨node, found, answers⟩, -⟩ := first
        obtain rfl := Option.some.inj found
        exact ⟨1, by simp [search, answers]⟩
    | cons i path ih =>
        obtain ⟨⟨node, found, -⟩, _, ahead⟩ := id first
        obtain ⟨c, at_i, -⟩ := Option.bind_eq_some_iff.mp found
        have unanswered := (ahead [] a trivial rfl).2
        obtain ⟨fuel, answers⟩ := ih (first.child at_i)
        have silent : ∀ b ∈ (children a).take i,
            ∃ fuel, search children answer fuel b = some none := by
          intro b member
          obtain ⟨j, at_j⟩ := List.mem_iff_getElem?.mp member
          rw [List.getElem?_take] at at_j
          split at at_j
          next below => exact search_none_iff.mpr (first.sibling below at_j)
          next => cases at_j
        obtain ⟨others, all⟩ := search_common silent
        refine ⟨max fuel others + 1, ?_⟩
        simp only [search, unanswered]
        apply firstOf_eq_some_iff.mpr
        refine ⟨i, c, at_i, search_mono (Nat.le_max_left fuel others) answers, ?_⟩
        intro j b below at_j
        apply search_mono (Nat.le_max_right fuel others)
        apply all
        apply List.mem_iff_getElem?.mpr
        exact ⟨j, by rw [List.getElem?_take, if_pos below, at_j]⟩

end TreeSearch
