/-
Module: CaffeineLs.Lib.ListDiff
Purpose: The shared ends of two lists, splices of a list, and the splice that turns one list into another.
Trusted boundary: none
Main exports: sharedPrefix, sharedSuffix, splice
-/
import Mathlib.Data.List.Basic

namespace ListDiff

variable {α β : Type} [DecidableEq α]

/-- How many elements two lists share at their front. -/
def sharedPrefix (old new : List α) : Nat :=
  ((old.zip new).takeWhile fun pair => pair.1 = pair.2).length

/-- How many elements two lists share at their end. -/
def sharedSuffix (old new : List α) : Nat := sharedPrefix old.reverse new.reverse

omit [DecidableEq α] in
/-- Delete `count` elements from `start` on and put others in their place. -/
def splice (list : List α) (start count : Nat) (data : List α) : List α :=
  list.take start ++ data ++ list.drop (start + count)

theorem sharedPrefix_cons (a b : α) (old new : List α) :
    sharedPrefix (a :: old) (b :: new) = if a = b then sharedPrefix old new + 1 else 0 := by
  by_cases same : a = b
  · simp [sharedPrefix, same]
  · simp [sharedPrefix, same]

@[simp] theorem sharedPrefix_nil_left (new : List α) : sharedPrefix [] new = 0 := rfl

@[simp] theorem sharedPrefix_nil_right (old : List α) : sharedPrefix old [] = 0 := by
  simp [sharedPrefix]

theorem take_sharedPrefix (old new : List α) :
    old.take (sharedPrefix old new) = new.take (sharedPrefix old new) := by
  induction old generalizing new with
  | nil => simp
  | cons a old ih =>
      cases new with
      | nil => simp
      | cons b new =>
          rw [sharedPrefix_cons]
          by_cases same : a = b
          · rw [if_pos same, List.take_succ_cons, List.take_succ_cons, ih new, same]
          · rw [if_neg same, List.take_zero, List.take_zero]

theorem drop_sharedSuffix (old new : List α) :
    old.drop (old.length - sharedSuffix old new) = new.drop (new.length - sharedSuffix old new) := by
  have front := take_sharedPrefix old.reverse new.reverse
  rw [List.take_reverse, List.take_reverse] at front
  exact List.reverse_injective front

theorem sharedPrefix_self_append (old rest : List α) : sharedPrefix old (old ++ rest) = old.length := by
  induction old with
  | nil => rfl
  | cons a old ih => rw [List.cons_append, sharedPrefix_cons, if_pos rfl, ih, List.length_cons]

/-- What is between the shared ends replaces what was between them. -/
theorem splice_shared (old new : List α) {front back : Nat} (isFront : front = sharedPrefix old new)
    (isBack : back = sharedSuffix (old.drop front) (new.drop front)) :
    splice old front (old.length - front - back)
      ((new.drop front).take (new.length - front - back)) = new := by
  subst isFront
  have heads := take_sharedPrefix old new
  have tails := drop_sharedSuffix (old.drop (sharedPrefix old new)) (new.drop (sharedPrefix old new))
  rw [← isBack, List.length_drop, List.length_drop, List.drop_drop] at tails
  rw [splice, tails, heads, List.append_assoc, List.take_append_drop, List.take_append_drop]

end ListDiff
