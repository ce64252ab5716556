/-
Module: CaffeineLs.Lib.Interning
Purpose: Computations that thread a table which only grows, and what their values mean in every table
  grown from the one they leave.
Trusted boundary: none
Main exports: Growth, Means, means_pure
-/

namespace Interning

/-- The tables that may occur, and how one may become another. -/
structure Growth (κ : Type) where
  standing : κ → Prop
  grows : κ → κ → Prop
  refl : ∀ table, grows table table
  trans : ∀ {one two three}, grows one two → grows two three → grows one three

variable {κ α β : Type}

/-- Every run from a standing table leaves a standing table grown from it, and a value that has its
meaning in this table and in all tables grown from it. -/
def Means (g : Growth κ) (m : StateM κ β) (meaning : κ → β → Prop) : Prop :=
  ∀ table, g.standing table →
    g.standing (m.run table).2 ∧ g.grows table (m.run table).2 ∧
      ∀ later, g.grows (m.run table).2 later → meaning later (m.run table).1

section Rules

variable {g : Growth κ}

theorem means_pure {value : β} {meaning : κ → β → Prop} (holds : ∀ later, meaning later value) :
    Means g (pure value) meaning := by
  intro table standing
  exact ⟨standing, g.refl table, fun later _ => holds later⟩

/-- What follows may rely on the meaning of the first value, in any later table. -/
theorem means_bind {m : StateM κ α} {next : α → StateM κ β} {first : κ → α → Prop}
    {meaning : κ → β → Prop} (one : Means g m first)
    (two : ∀ value, Means g (next value) fun later out => first later value → meaning later out) :
    Means g (m >>= next) meaning := by
  intro table standing
  obtain ⟨standingFirst, grewFirst, meansFirst⟩ := one table standing
  obtain ⟨standingNext, grewNext, meansNext⟩ :=
    two (m.run table).1 (m.run table).2 standingFirst
  have meant : ∀ later, g.grows ((next (m.run table).1).run (m.run table).2).2 later →
      meaning later ((next (m.run table).1).run (m.run table).2).1 := by
    intro later grown
    apply meansNext later grown
    exact meansFirst later (g.trans grewNext grown)
  exact ⟨standingNext, g.trans grewFirst grewNext, meant⟩

/-- The elements of a list one after another: if each is read back, the list is. -/
theorem means_list {encode : α → StateM κ β} {decode : κ → β → Option α} (items : List α)
    (each : ∀ item ∈ items,
      Means g (encode item) fun later code => decode later code = some item) :
    Means g (items.mapM encode) fun later codes => codes.mapM (decode later) = some items := by
  induction items with
  | nil => exact means_pure fun later => rfl
  | cons item items ih =>
      rw [List.mapM_cons]
      apply means_bind (each item List.mem_cons_self)
      intro code
      apply means_bind (ih fun other member => each other (List.mem_cons_of_mem item member))
      intro codes
      apply means_pure
      intro later rest this
      simp [List.mapM_cons, this, rest]

theorem Means.imp {m : StateM κ β} {one two : κ → β → Prop} (means : Means g m one)
    (weaker : ∀ later value, one later value → two later value) : Means g m two := by
  intro table standing
  obtain ⟨stands, grew, meant⟩ := means table standing
  exact ⟨stands, grew, fun later grown => weaker later _ (meant later grown)⟩

/-- A loop over a list, from what each round adds to what holds of the items done. -/
theorem means_fold {γ : Type} {step : γ → α → StateM κ γ} {holds : κ → γ → List α → Prop}
    (each : ∀ state done item, Means g (step state item) fun later state' =>
      holds later state done → holds later state' (done ++ [item]))
    (state : γ) (done items : List α) :
    Means g (items.foldlM step state) fun later state' =>
      holds later state done → holds later state' (done ++ items) := by
  induction items generalizing state done with
  | nil =>
      apply means_pure
      intro later before
      rw [List.append_nil]
      exact before
  | cons item items ih =>
      rw [List.foldlM_cons]
      apply means_bind (each state done item)
      intro state'
      apply (ih state' (done ++ [item])).imp
      intro later out rest first before
      rw [List.append_assoc, List.singleton_append] at rest
      exact rest (first before)

theorem means_option {encode : α → StateM κ β} {decode : κ → β → Option α} (item : Option α)
    (each : ∀ value ∈ item, Means g (encode value) fun later code => decode later code = some value) :
    Means g (item.mapM encode) fun later code => code.mapM (decode later) = some item := by
  cases item with
  | none => exact means_pure fun later => rfl
  | some value =>
      rw [Option.mapM_some, map_eq_pure_bind]
      apply means_bind (each value rfl)
      intro code
      apply means_pure
      intro later this
      simp [this]

end Rules

end Interning
