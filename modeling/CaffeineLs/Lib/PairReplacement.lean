/-
Module: CaffeineLs.Lib.PairReplacement
Purpose: Lists in which every occurrence of a pair is replaced by the second element of the pair.
Trusted boundary: none
Main exports: replacePairs, replacePairs_eq_self_iff, pair_infix_replacePairs_iff
-/
import CaffeineLs.Lib.Splitting
import Mathlib.Data.List.Infix

namespace PairReplacement

open Splitting

variable {α β : Type} [DecidableEq α] [DecidableEq β]

/-- Every `a` with a `b` behind it is dropped. -/
def replacePairs (a b : α) : List α → List α
  | x :: y :: rest =>
      if x = a ∧ y = b then b :: replacePairs a b rest else x :: replacePairs a b (y :: rest)
  | xs => xs

attribute [local simp] replacePairs

variable {a b : α}

theorem replacePairs_pair (rest : List α) :
    replacePairs a b (a :: b :: rest) = b :: replacePairs a b rest := by
  simp

/-- What does not begin the pair stays. -/
theorem replacePairs_cons {x : α} {rest : List α} (plain : ¬ [a, b] <+: x :: rest) :
    replacePairs a b (x :: rest) = x :: replacePairs a b rest := by
  cases rest with
  | nil => rfl
  | cons y rest =>
      rw [replacePairs, if_neg]
      intro ⟨first, second⟩
      exact plain ⟨rest, by simp [first, second]⟩

/-! ### The pairs of the result -/

omit [DecidableEq α] in
theorem pair_infix_cons_iff {x : α} {rest : List α} :
    [a, b] <:+: x :: rest ↔ (x = a ∧ rest.head? = some b) ∨ [a, b] <:+: rest := by
  rw [List.infix_cons_iff]
  apply or_congr_left
  cases rest with
  | nil => simp
  | cons y rest => simp [eq_comm]

/-- Nothing changes just if there is no pair. -/
theorem replacePairs_eq_self_iff (xs : List α) : replacePairs a b xs = xs ↔ ¬ [a, b] <:+: xs := by
  have shorter (ys : List α) : (replacePairs a b ys).length ≤ ys.length := by
    fun_induction replacePairs a b ys with
    | case1 x y rest pair ih => simp only [List.length_cons] at ih ⊢; omega
    | case2 x y rest other ih => simp only [List.length_cons] at ih ⊢; omega
    | case3 ys _ => exact Nat.le_refl _
  fun_induction replacePairs a b xs with
  | case1 x y rest pair ih =>
      obtain ⟨rfl, rfl⟩ := pair
      constructor
      · intro same
        have fewer := shorter rest
        have lengths := congrArg List.length same
        simp only [List.length_cons] at lengths
        omega
      · intro free
        exact absurd ⟨[], rest, rfl⟩ free
  | case2 x y rest other ih =>
      have apart : ¬ (x = a ∧ (y :: rest).head? = some b) := by simpa using other
      rw [pair_infix_cons_iff, or_iff_right apart, List.cons.injEq]
      exact (and_iff_right rfl).trans ih
  | case3 xs short =>
      cases xs with
      | nil => simp
      | cons x xs =>
          cases xs with
          | nil => simp [pair_infix_cons_iff]
          | cons y rest => exact absurd rfl (short x y rest)

/-- The result begins with `b` just if the list begins with `b` or with the pair. -/
theorem head?_replacePairs (xs : List α) (apart : a ≠ b) :
    (replacePairs a b xs).head? = some b ↔ xs.head? = some b ∨ [a, b] <+: xs := by
  fun_cases replacePairs a b xs with
  | case1 x y rest pair =>
      obtain ⟨rfl, rfl⟩ := pair
      simp
  | case2 x y rest other =>
      have plain : ¬ [a, b] <+: x :: y :: rest := by
        simpa [eq_comm] using other
      simp [plain]
  | case3 xs short =>
      cases xs with
      | nil => simp
      | cons x xs =>
          cases xs with
          | nil => simp
          | cons y rest => exact absurd rfl (short x y rest)

/-- The result has a pair just where an `a` stood in front of a pair. -/
theorem pair_infix_replacePairs_iff (xs : List α) (apart : a ≠ b) :
    [a, b] <:+: replacePairs a b xs ↔ [a, a, b] <:+: xs := by
  induction xs using replacePairs.induct a b with
  | case1 x y rest pair ih =>
      obtain ⟨rfl, rfl⟩ := pair
      have fresh : ¬ [x, x, y] <+: x :: y :: rest := by simp [apart]
      have later : ¬ [x, x, y] <+: y :: rest := by simp [apart]
      rw [replacePairs_pair, pair_infix_cons_iff, ih, List.infix_cons_iff, List.infix_cons_iff]
      simp [fresh, later, Ne.symm apart]
  | case2 x y rest other ih =>
      rw [replacePairs, if_neg other, pair_infix_cons_iff, ih, head?_replacePairs _ apart]
      refine Iff.trans (or_congr_left ?_) List.infix_cons_iff.symm
      constructor
      · intro ⟨first, head⟩
        subst first
        rcases head with second | ⟨back, shape⟩
        · exact absurd ⟨rfl, Option.some.inj second⟩ other
        · exact ⟨back, by rw [← shape]; rfl⟩
      · intro ⟨back, shape⟩
        obtain ⟨rfl, tail⟩ := List.cons.inj shape
        exact ⟨rfl, .inr ⟨back, tail⟩⟩
  | case3 xs short =>
      cases xs with
      | nil => simp
      | cons x xs =>
          cases xs with
          | nil => simp [List.infix_cons_iff]
          | cons y rest => exact absurd rfl (short x y rest)

/-! ### The first pair -/

/-- Without a pair nothing is found. -/
theorem findInfix_pair_eq_none_iff (xs : List α) :
    findInfix [a, b] xs = none ↔ ¬ [a, b] <:+: xs := by
  induction xs with
  | nil => simp [findInfix]
  | cons x rest ih =>
      rw [findInfix, List.infix_cons_iff, ← List.isPrefixOf_iff_prefix]
      by_cases here : [a, b].isPrefixOf (x :: rest)
      · simp [here]
      · simp [here, ih]

/-- What is found is the first pair: the rest of the replacement goes on behind it. -/
theorem replacePairs_of_find {xs : List α} {i : Nat} (found : findInfix [a, b] xs = some i) :
    ∃ front back, xs = front ++ a :: b :: back ∧ front.length = i ∧
      replacePairs a b xs = front ++ b :: replacePairs a b back := by
  induction xs generalizing i with
  | nil => simp [findInfix] at found
  | cons x rest ih =>
      rw [findInfix] at found
      by_cases here : [a, b].isPrefixOf (x :: rest)
      · rw [if_pos here] at found
        obtain rfl := Option.some.inj found
        obtain ⟨back, shape⟩ := List.isPrefixOf_iff_prefix.mp here
        refine ⟨[], back, shape.symm, rfl, ?_⟩
        rw [← shape]
        exact replacePairs_pair back
      · rw [if_neg here] at found
        obtain ⟨j, below, rfl⟩ := Option.map_eq_some_iff.mp found
        obtain ⟨front, back, shape, length, replaced⟩ := ih below
        refine ⟨x :: front, back, by rw [shape]; rfl, by rw [List.length_cons, length], ?_⟩
        rw [replacePairs_cons fun is_prefix => here (List.isPrefixOf_iff_prefix.mpr is_prefix), replaced]
        rfl

/-! ### Encodings that keep the pair apart -/

/-- The codes of `a` and `b` are single, and stand in no other code. -/
structure Marks (encode : α → List β) (a b : α) (x y : β) : Prop where
  first : encode a = [x]
  second : encode b = [y]
  onlyFirst : ∀ c, x ∈ encode c → c = a
  onlySecond : ∀ c, y ∈ encode c → c = b
  some_ : ∀ c, encode c ≠ []

variable {encode : α → List β} {x y : β}

/-- A code with neither of the two in it stays. -/
theorem replacePairs_append {code : List β} (without : x ∉ code) (rest : List β) :
    replacePairs x y (code ++ rest) = code ++ replacePairs x y rest := by
  induction code with
  | nil => rfl
  | cons z code ih =>
      have other : z ≠ x := fun same => without (same ▸ List.mem_cons_self)
      rw [List.cons_append, replacePairs_cons, ih fun later => without (List.mem_cons_of_mem z later)]
      · rfl
      · intro ⟨_, shape⟩
        exact other (List.cons.inj shape).1.symm

omit [DecidableEq α] [DecidableEq β] in
theorem Marks.head?_flatMap (marks : Marks encode a b x y) (cs : List α) :
    (cs.flatMap encode).head? = some y ↔ cs.head? = some b := by
  cases cs with
  | nil => simp
  | cons c cs =>
      rw [List.flatMap_cons, List.head?_append_of_ne_nil _ (marks.some_ c), List.head?_cons,
        Option.some.injEq]
      constructor
      · exact fun head => marks.onlySecond c (List.mem_of_mem_head? head)
      · intro same
        rw [same, marks.second]
        rfl

omit [DecidableEq β] in
/-- A pair does not begin in such a code. -/
theorem pair_infix_append_iff {code : List β} (without : x ∉ code) (rest : List β) :
    [x, y] <:+: code ++ rest ↔ [x, y] <:+: rest := by
  induction code with
  | nil => rfl
  | cons z code ih =>
      have other : z ≠ x := fun same => without (same ▸ List.mem_cons_self)
      rw [List.cons_append, pair_infix_cons_iff, ih fun later => without (List.mem_cons_of_mem z later)]
      simp [other]

/-- Replacing the pair of codes is replacing the pair. -/
theorem replacePairs_flatMap (marks : Marks encode a b x y) (cs : List α) :
    replacePairs x y (cs.flatMap encode) = (replacePairs a b cs).flatMap encode := by
  induction cs using replacePairs.induct a b with
  | case1 c d rest pair ih =>
      obtain ⟨rfl, rfl⟩ := pair
      rw [replacePairs_pair, List.flatMap_cons, List.flatMap_cons, List.flatMap_cons, marks.first,
        marks.second, ← ih]
      exact replacePairs_pair _
  | case2 c d rest other ih =>
      rw [replacePairs, if_neg other, List.flatMap_cons (x := c), List.flatMap_cons (x := c), ← ih]
      by_cases first : c = a
      · subst first
        rw [marks.first]
        apply replacePairs_cons
        intro ⟨back, shape⟩
        have head : ((d :: rest).flatMap encode).head? = some y := by
          have behind : y :: back = (d :: rest).flatMap encode := (List.cons.inj shape).2
          rw [← behind]
          rfl
        have second := Option.some.inj ((marks.head?_flatMap _).mp head)
        exact other ⟨rfl, second⟩
      · exact replacePairs_append (fun member => first (marks.onlyFirst c member)) _
  | case3 cs short =>
      cases cs with
      | nil => rfl
      | cons c cs =>
          cases cs with
          | cons d rest => exact absurd rfl (short c d rest)
          | nil =>
              rw [List.flatMap_cons, List.flatMap_nil]
              by_cases first : c = a
              · simp [first, marks.first]
              · rw [replacePairs_append fun member => first (marks.onlyFirst c member)]
                simp

omit [DecidableEq β] in
/-- There is a pair of codes just if there is a pair. -/
theorem pair_infix_flatMap_iff (marks : Marks encode a b x y) (cs : List α) :
    [x, y] <:+: cs.flatMap encode ↔ [a, b] <:+: cs := by
  induction cs with
  | nil => simp
  | cons c cs ih =>
      rw [List.flatMap_cons, pair_infix_cons_iff, ← ih]
      by_cases first : c = a
      · rw [first, marks.first, List.singleton_append, pair_infix_cons_iff, marks.head?_flatMap]
        simp
      · rw [pair_infix_append_iff fun member => first (marks.onlyFirst c member)]
        simp [first]

end PairReplacement
