/-
Module: CaffeineLs.Lib.DeepestPrefix
Purpose: The entry of a list whose path is the longest one that contains a given path.
Trusted boundary: none
Main exports: deepest, deepest_spec, deepest_isSome_iff
-/

namespace DeepestPrefix

variable {E F C : Type} [DecidableEq C]

/-- The first one of the entries with the longest path among those that contain the target. -/
def deepest (path : E → List C) : List E → List C → Option E
  | [], _ => none
  | entry :: rest, target =>
      match deepest path rest target with
      | none => if path entry <+: target then some entry else none
      | some other =>
          if path entry <+: target ∧ (path other).length ≤ (path entry).length then some entry
          else some other

attribute [local simp] deepest

variable {path : E → List C} {entries : List E} {target : List C}

theorem deepest_eq_none_iff :
    deepest path entries target = none ↔ ∀ entry ∈ entries, ¬ path entry <+: target := by
  induction entries with
  | nil => simp
  | cons entry rest ih =>
      simp only [deepest, List.forall_mem_cons]
      cases found : deepest path rest target with
      | none =>
          have none_below := ih.mp found
          by_cases contains : path entry <+: target
          · simp [contains]
          · simpa [contains] using none_below
      | some other =>
          have someone : ¬ ∀ entry ∈ rest, ¬ path entry <+: target := by
            rw [← ih, found]
            exact nofun
          constructor
          · intro absent
            by_cases better : path entry <+: target ∧ (path other).length ≤ (path entry).length
            · simp [better] at absent
            · simp [if_neg better] at absent
          · intro ⟨_, none_below⟩
            exact absurd none_below someone

/-- The entry contains the target, and no entry that does is longer. -/
theorem deepest_spec {entry : E} (found : deepest path entries target = some entry) :
    entry ∈ entries ∧ path entry <+: target ∧
      ∀ other ∈ entries, path other <+: target → (path other).length ≤ (path entry).length := by
  induction entries generalizing entry with
  | nil => cases found
  | cons head rest ih =>
      simp only [deepest] at found
      cases below : deepest path rest target with
      | none =>
          rw [below] at found
          have none_below := deepest_eq_none_iff.mp below
          by_cases contains : path head <+: target
          · simp only [if_pos contains, Option.some.injEq] at found
            subst found
            refine ⟨List.mem_cons_self, contains, ?_⟩
            intro other member contained
            rcases List.mem_cons.mp member with rfl | member
            · exact Nat.le_refl _
            · exact absurd contained (none_below other member)
          · simp only [if_neg contains] at found
            cases found
      | some other =>
          rw [below] at found
          obtain ⟨member, contained, longest⟩ := ih below
          by_cases better : path head <+: target ∧ (path other).length ≤ (path head).length
          · simp only [if_pos better, Option.some.injEq] at found
            subst found
            refine ⟨List.mem_cons_self, better.1, ?_⟩
            intro third inside also
            rcases List.mem_cons.mp inside with rfl | inside
            · exact Nat.le_refl _
            · exact Nat.le_trans (longest third inside also) better.2
          · simp only [if_neg better, Option.some.injEq] at found
            subst found
            refine ⟨List.mem_cons_of_mem _ member, contained, ?_⟩
            intro third inside also
            rcases List.mem_cons.mp inside with rfl | inside
            · exact Nat.le_of_lt (Nat.lt_of_not_le fun le => better ⟨also, le⟩)
            · exact longest third inside also

/-- Only which entries contain the target matters. -/
theorem deepest_congr {other : List C}
    (same : ∀ entry ∈ entries, (path entry <+: target ↔ path entry <+: other)) :
    deepest path entries target = deepest path entries other := by
  induction entries with
  | nil => rfl
  | cons entry rest ih =>
      obtain ⟨here, later⟩ := List.forall_mem_cons.mp same
      simp only [deepest, ih later, here]

theorem deepest_map (f : F → E) (xs : List F) :
    deepest path (xs.map f) target = (deepest (fun x => path (f x)) xs target).map f := by
  induction xs with
  | nil => rfl
  | cons x rest ih =>
      simp only [List.map_cons, deepest, ih]
      cases deepest (fun x => path (f x)) rest target with
      | none =>
          simp only [Option.map_none]
          split <;> rfl
      | some other =>
          simp only [Option.map_some]
          split <;> rfl

end DeepestPrefix
