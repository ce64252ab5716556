/-
Module: CaffeineLs.Lib.MemoRewrite
Purpose: The rewriting of a term with a stack and a table of the terms rewritten, bounded in depth, and
  the rule that says of what it returns what the recursion over the term says.
Trusted boundary: none
Main exports: Rules, run, Sound
-/
import Mathlib.Algebra.Order.BigOperators.Group.List
import Mathlib.Algebra.Order.Group.Nat
import Mathlib.Algebra.GroupWithZero.Nat

namespace MemoRewrite

variable {N : Type}

inductive Verdict (N : Type) where
  | done (n : N)
  | recur

inductive Frame (N : Type) where
  | visit (n : N)
  | build (n : N)

/-- What is done at a node: the verdict on it, its children, the node rebuilt from what the table has for
them, and what it becomes at the depth limit. -/
structure Rules (N : Type) where
  leaf : N → Verdict N
  children : N → List N
  rebuild : (N → Option N) → N → Option N
  limit : Nat
  giveUp : N

structure State (N : Type) where
  memo : N → Option N
  stack : List (Frame N)
  active : Nat

section Run

variable [DecidableEq N]

def insert (memo : N → Option N) (n value : N) : N → Option N :=
  fun m => if m = n then some value else memo m

/-- The loop: the table when the stack is empty; `none` is a loop out of fuel, or a lookup that fails. -/
def run (R : Rules N) : Nat → State N → Option (N → Option N)
  | 0, _ => none
  | fuel + 1, ⟨memo, stack, active⟩ =>
      match stack with
      | [] => some memo
      | .visit n :: rest =>
          if (memo n).isSome then run R fuel ⟨memo, rest, active⟩
          else if R.limit ≤ active then run R fuel ⟨insert memo n R.giveUp, rest, active⟩
          else
            match R.leaf n with
            | .done value => run R fuel ⟨insert memo n value, rest, active⟩
            | .recur =>
                run R fuel
                  ⟨insert memo n n, (R.children n).map .visit ++ .build n :: rest, active + 1⟩
      | .build n :: rest =>
          match R.rebuild memo n with
          | none => none
          | some value => run R fuel ⟨insert memo n value, rest, active - 1⟩

theorem insert_self {memo : N → Option N} {n value : N} : insert memo n value n = some value :=
  if_pos rfl

theorem insert_other {memo : N → Option N} {n m value : N} (other : m ≠ n) :
    insert memo n value m = memo m :=
  if_neg other

theorem isSome_insert {memo : N → Option N} {n m value : N} (has : (memo m).isSome) :
    (insert memo n value m).isSome := by
  by_cases same : m = n
  · rw [insert, if_pos same]
    rfl
  · rwa [insert_other same]

end Run

/-! ### The rule -/

/-- A relation of nodes to values that every way of giving a node a value establishes. `Allowed` says at
which depths a node is met. -/
structure Sound (R : Rules N) (Allowed : Nat → N → Prop) (Good : N → N → Prop) : Prop where
  child : ∀ {d n c}, Allowed d n → c ∈ R.children n → Allowed (d + 1) c
  cut : ∀ {d n}, Allowed d n → R.limit ≤ d → Good n R.giveUp
  done : ∀ {n value}, R.leaf n = .done value → Good n value
  rebuilt : ∀ {n memo}, R.leaf n = .recur →
    (∀ c ∈ R.children n, ∃ value, memo c = some value ∧ Good c value) →
    ∃ value, R.rebuild memo n = some value ∧ Good n value

/-- A weight of nodes that exceeds that of all their children together. -/
def Weighs (R : Rules N) (weight : N → Nat) : Prop :=
  ∀ n, ((R.children n).map weight).sum < weight n

theorem Weighs.child {R : Rules N} {weight : N → Nat} (weighs : Weighs R weight) {n c : N}
    (member : c ∈ R.children n) : weight c < weight n :=
  Nat.lt_of_le_of_lt (List.single_le_sum (fun _ _ => Nat.zero_le _) _ (List.mem_map_of_mem member))
    (weighs n)

/-- What the table has is good, but for the nodes whose children are being rewritten. -/
def Settled (Good : N → N → Prop) (memo : N → Option N) (path : List N) : Prop :=
  ∀ n value, memo n = some value → n ∈ path ∨ Good n value

variable [DecidableEq N] {R : Rules N} {Allowed : Nat → N → Prop} {Good : N → N → Prop}
  {weight : N → Nat}

theorem Settled.insert {memo : N → Option N} {path : List N} (settled : Settled Good memo path)
    {n value : N} (good : Good n value) : Settled Good (insert memo n value) path := by
  intro m v found
  by_cases same : m = n
  · subst same
    rw [insert_self] at found
    exact Or.inr (Option.some.inj found ▸ good)
  · rw [insert_other same] at found
    exact settled m v found

/-- The frame of a node on the path becomes that of a finished one. -/
theorem Settled.finish {memo : N → Option N} {path : List N} {n value : N}
    (settled : Settled Good memo (n :: path)) (good : Good n value) :
    Settled Good (MemoRewrite.insert memo n value) path := by
  intro m v found
  by_cases same : m = n
  · subst same
    rw [insert_self] at found
    exact Or.inr (Option.some.inj found ▸ good)
  · rw [insert_other same] at found
    rcases settled m v found with onPath | good
    · exact Or.inl ((List.mem_cons.mp onPath).resolve_left same)
    · exact Or.inr good

/-- Rounds of the loop that pop some frames and all they push: they leave a table with no fewer entries. -/
structure Pops (R : Rules N) (Good : N → N → Prop) (path : List N) (frames : List (Frame N))
    (memo : N → Option N) (d rounds : Nat) (after : N → Option N) : Prop where
  runs : ∀ fuel rest,
    run R (rounds + fuel) ⟨memo, frames ++ rest, d⟩ = run R fuel ⟨after, rest, d⟩
  settled : Settled Good after path
  grows : ∀ m, (memo m).isSome → (after m).isSome

/-- The frame of a node. -/
def Visits (R : Rules N) (Good : N → N → Prop) (weight : N → Nat) (path : List N) (d : Nat) (n : N) :
    Prop :=
  ∀ memo, Settled Good memo path →
    ∃ rounds after, rounds ≤ 2 * weight n ∧
      Pops R Good path [.visit n] memo d rounds after ∧ (after n).isSome

/-- The children of a node, one after the other. -/
theorem visit_children {path : List N} {d : Nat} (nodes : List N)
    (each : ∀ c ∈ nodes, Visits R Good weight path d c) :
    ∀ memo, Settled Good memo path →
      ∃ rounds after, rounds ≤ 2 * (nodes.map weight).sum ∧
        Pops R Good path (nodes.map .visit) memo d rounds after ∧
        ∀ c ∈ nodes, (after c).isSome := by
  induction nodes with
  | nil =>
      intro memo settled
      refine ⟨0, memo, Nat.zero_le _, ⟨fun fuel rest => ?_, settled, fun _ has => has⟩, ?_⟩
      · rw [Nat.zero_add]
        rfl
      · intro c member
        exact absurd member List.not_mem_nil
  | cons first rest ih =>
      intro memo settled
      obtain ⟨rounds, middle, short, pops, has⟩ := each first List.mem_cons_self memo settled
      obtain ⟨rounds', after, short', pops', others⟩ :=
        ih (fun c member => each c (List.mem_cons_of_mem _ member)) middle pops.settled
      refine ⟨rounds + rounds', after, ?_, ⟨?_, pops'.settled, ?_⟩, ?_⟩
      · rw [List.map_cons, List.sum_cons]
        omega
      · intro fuel frames
        rw [Nat.add_assoc]
        exact (pops.runs (rounds' + fuel) _).trans (pops'.runs fuel frames)
      · exact fun m given => pops'.grows m (pops.grows m given)
      · intro c member
        rcases List.mem_cons.mp member with rfl | member
        · exact pops'.grows _ has
        · exact others c member

/-- The rounds from the frame of a node to its entry. -/
theorem run_visit (sound : Sound R Allowed Good) (weighs : Weighs R weight) :
    ∀ (n : N) (d : Nat) (path : List N), (∀ q ∈ path, weight n < weight q) → Allowed d n →
      Visits R Good weight path d n := by
  -- A node on the path weighs more than what is visited below it, so no entry is read too early.
  intro n
  induction h : weight n using Nat.strong_induction_on generalizing n with
  | _ w ih =>
      subst h
      intro d path above allowed memo settled
      have heavy : 1 ≤ weight n := Nat.lt_of_le_of_lt (Nat.zero_le _) (weighs n)
      have offPath : n ∉ path := fun onPath => Nat.lt_irrefl _ (above n onPath)
      by_cases known : (memo n).isSome
      · refine ⟨1, memo, by omega, ⟨fun fuel rest => ?_, settled, fun _ has => has⟩, known⟩
        rw [Nat.add_comm, List.singleton_append, run, if_pos known]
      by_cases deep : R.limit ≤ d
      · refine ⟨1, insert memo n R.giveUp, by omega,
          ⟨fun fuel rest => ?_, settled.insert (sound.cut allowed deep), fun _ => isSome_insert⟩, ?_⟩
        · rw [Nat.add_comm, List.singleton_append, run, if_neg known, if_pos deep]
        · rw [insert_self]
          rfl
      cases verdict : R.leaf n with
      | done value =>
          refine ⟨1, insert memo n value, by omega,
            ⟨fun fuel rest => ?_, settled.insert (sound.done verdict), fun _ => isSome_insert⟩, ?_⟩
          · rw [Nat.add_comm, List.singleton_append, run, if_neg known, if_neg deep, verdict]
          · rw [insert_self]
            rfl
      | recur =>
          have reserved : Settled Good (insert memo n n) (n :: path) := by
            intro m v found
            by_cases same : m = n
            · exact Or.inl (same ▸ List.mem_cons_self)
            · rw [insert_other same] at found
              exact (settled m v found).imp_left (List.mem_cons_of_mem _)
          have each : ∀ c ∈ R.children n, Visits R Good weight (n :: path) (d + 1) c := by
            intro c member
            have lighter := weighs.child member
            refine ih _ lighter c rfl (d + 1) (n :: path) ?_ (sound.child allowed member)
            intro q onPath
            rcases List.mem_cons.mp onPath with rfl | onPath
            · exact lighter
            · exact lighter.trans (above q onPath)
          obtain ⟨rounds, after, short, pops, has⟩ :=
            visit_children (R.children n) each (insert memo n n) reserved
          have values : ∀ c ∈ R.children n, ∃ value, after c = some value ∧ Good c value := by
            intro c member
            obtain ⟨value, found⟩ := Option.isSome_iff_exists.mp (has c member)
            refine ⟨value, found, (pops.settled c value found).resolve_left ?_⟩
            intro onPath
            have lighter := weighs.child member
            rcases List.mem_cons.mp onPath with rfl | onPath
            · exact Nat.lt_irrefl _ lighter
            · exact Nat.lt_asymm lighter (above c onPath)
          obtain ⟨value, rebuilt, good⟩ := sound.rebuilt verdict values
          have bound := weighs n
          refine ⟨1 + rounds + 1, insert after n value, by omega,
            ⟨fun fuel rest => ?_, pops.settled.finish good, ?_⟩, ?_⟩
          · have split : 1 + rounds + 1 + fuel = rounds + (fuel + 1) + 1 := by omega
            rw [split, List.singleton_append, run, if_neg known, if_neg deep, verdict]
            refine (pops.runs (fuel + 1) _).trans ?_
            rw [run, rebuilt]
            rfl
          · exact fun m given => isSome_insert (pops.grows m (isSome_insert given))
          · rw [insert_self]
            rfl

/-- The rewriting of a node returns, with a good value for it. -/
theorem run_root (sound : Sound R Allowed Good) (weighs : Weighs R weight) {root : N}
    (allowed : Allowed 0 root) {fuel : Nat} (enough : 2 * weight root < fuel) :
    ∃ memo value, run R fuel ⟨fun _ => none, [.visit root], 0⟩ = some memo ∧
      memo root = some value ∧ Good root value := by
  obtain ⟨rounds, after, short, pops, has⟩ :=
    run_visit sound weighs root 0 [] (fun q onPath => absurd onPath List.not_mem_nil) allowed
      (fun _ => none) (fun n value found => by cases found)
  obtain ⟨value, found⟩ := Option.isSome_iff_exists.mp has
  refine ⟨after, value, ?_, found, (pops.settled root value found).resolve_left List.not_mem_nil⟩
  obtain ⟨more, split⟩ : ∃ more, fuel = rounds + (more + 1) := ⟨fuel - rounds - 1, by omega⟩
  rw [split]
  exact pops.runs (more + 1) []

end MemoRewrite
