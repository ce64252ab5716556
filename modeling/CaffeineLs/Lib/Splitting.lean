/-
Module: CaffeineLs.Lib.Splitting
Purpose: Lists split at a separator: at its first occurrence, at its last one, and behind it.
Trusted boundary: none
Main exports: splitOnce, rsplitOnce, lastSegment
-/

namespace Splitting

variable {α : Type} [DecidableEq α]

/-- `str::split_once` -/
def splitOnce (sep : α) : List α → Option (List α × List α)
  | [] => none
  | a :: as => if a = sep then some ([], as) else (splitOnce sep as).map fun p => (a :: p.1, p.2)

/-- `str::rsplit_once` -/
def rsplitOnce (sep : α) : List α → Option (List α × List α)
  | [] => none
  | a :: as =>
    match rsplitOnce sep as with
    | some (front, back) => some (a :: front, back)
    | none => if a = sep then some ([], as) else none

/-- `str::rsplit` as far as the first part: what is behind the last separator. -/
def lastSegment (sep : α) (as : List α) : List α :=
  match rsplitOnce sep as with
  | some (_, back) => back
  | none => as

/-- `str::strip_suffix` -/
def stripSuffix (suffix as : List α) : Option (List α) :=
  if suffix.isSuffixOf as then some (as.take (as.length - suffix.length)) else none

/-- `str::contains`, of a part -/
def holdsInfix (part : List α) : List α → Bool
  | [] => part.isEmpty
  | a :: as => part.isPrefixOf (a :: as) || holdsInfix part as

/-- `memmem::find`: the index of the first occurrence of a part. -/
def findInfix (part : List α) : List α → Option Nat
  | [] => if part.isEmpty then some 0 else none
  | a :: as => if part.isPrefixOf (a :: as) then some 0 else (findInfix part as).map (· + 1)

variable {sep : α}

theorem splitOnce_eq_none_iff {as : List α} : splitOnce sep as = none ↔ sep ∉ as := by
  induction as with
  | nil => simp [splitOnce]
  | cons a as ih =>
      rw [splitOnce, List.mem_cons]
      by_cases here : a = sep
      · simp [here]
      · simp [here, ih, Ne.symm here]

theorem splitOnce_eq_some_iff {as front back : List α} :
    splitOnce sep as = some (front, back) ↔ as = front ++ sep :: back ∧ sep ∉ front := by
  induction as generalizing front with
  | nil => simp [splitOnce]
  | cons a as ih =>
      rw [splitOnce]
      by_cases here : a = sep
      · subst here
        rw [if_pos rfl]
        constructor
        · intro same
          obtain ⟨rfl, rfl⟩ := Prod.mk.inj (Option.some.inj same)
          exact ⟨rfl, List.not_mem_nil⟩
        · intro ⟨shape, fresh⟩
          cases front with
          | nil =>
              obtain rfl := (List.cons.inj shape).2
              rfl
          | cons b front =>
              obtain rfl := (List.cons.inj shape).1
              exact absurd List.mem_cons_self fresh
      · rw [if_neg here, Option.map_eq_some_iff]
        constructor
        · intro ⟨⟨front', back'⟩, found, same⟩
          obtain ⟨rfl, rfl⟩ := Prod.mk.inj same
          obtain ⟨rfl, fresh⟩ := ih.mp found
          refine ⟨rfl, fun member => ?_⟩
          rcases List.mem_cons.mp member with first | later
          · exact here first.symm
          · exact fresh later
        · intro ⟨shape, fresh⟩
          cases front with
          | nil => exact absurd (List.cons.inj shape).1 here
          | cons b front =>
              obtain ⟨rfl, rest⟩ := List.cons.inj shape
              exact ⟨(front, back), ih.mpr ⟨rest, fun later => fresh (List.mem_cons_of_mem a later)⟩, rfl⟩

theorem rsplitOnce_eq_none_iff {as : List α} : rsplitOnce sep as = none ↔ sep ∉ as := by
  induction as with
  | nil => simp [rsplitOnce]
  | cons a as ih =>
      rw [rsplitOnce, List.mem_cons, not_or, ← ih]
      cases rsplitOnce sep as with
      | some p => simp
      | none =>
          by_cases here : a = sep
          · simp [here]
          · simp [here, Ne.symm here]

theorem rsplitOnce_eq_some_iff {as front back : List α} :
    rsplitOnce sep as = some (front, back) ↔ as = front ++ sep :: back ∧ sep ∉ back := by
  induction as generalizing front back with
  | nil => simp [rsplitOnce]
  | cons a as ih =>
      rw [rsplitOnce]
      cases found : rsplitOnce sep as with
      | some p =>
          obtain ⟨front', back'⟩ := p
          have inside := ih.mp found
          constructor
          · intro same
            obtain ⟨rfl, rfl⟩ := Prod.mk.inj (Option.some.inj same)
            exact ⟨by rw [inside.1, List.cons_append], inside.2⟩
          · intro ⟨shape, fresh⟩
            cases front with
            | nil =>
                obtain ⟨rfl, rfl⟩ := List.cons.inj shape
                refine absurd ?_ fresh
                rw [inside.1]
                exact List.mem_append_right _ List.mem_cons_self
            | cons b front =>
                obtain ⟨rfl, rest⟩ := List.cons.inj shape
                have again := ih.mpr ⟨rest, fresh⟩
                rw [found] at again
                obtain ⟨rfl, rfl⟩ := Prod.mk.inj (Option.some.inj again)
                rfl
      | none =>
          have absent := rsplitOnce_eq_none_iff.mp found
          constructor
          · intro same
            by_cases here : a = sep
            · simp only [if_pos here, Option.some.injEq, Prod.mk.injEq] at same
              obtain ⟨rfl, rfl⟩ := same
              exact ⟨by rw [here]; rfl, absent⟩
            · simp only [if_neg here] at same
              cases same
          · intro ⟨shape, fresh⟩
            cases front with
            | nil =>
                obtain ⟨rfl, rfl⟩ := List.cons.inj shape
                simp
            | cons b front =>
                obtain ⟨-, rest⟩ := List.cons.inj shape
                rw [rest] at absent
                exact absurd (List.mem_append_right _ List.mem_cons_self) absent

/-- What is in front of the last segment: nothing, or it ends with the separator. -/
theorem lastSegment_spec (sep : α) (as : List α) :
    ∃ parent, as = parent ++ lastSegment sep as ∧ sep ∉ lastSegment sep as ∧
      (parent = [] ∨ ∃ front, parent = front ++ [sep]) := by
  unfold lastSegment
  cases found : rsplitOnce sep as with
  | none => exact ⟨[], rfl, rsplitOnce_eq_none_iff.mp found, .inl rfl⟩
  | some p =>
      obtain ⟨front, back⟩ := p
      obtain ⟨shape, fresh⟩ := rsplitOnce_eq_some_iff.mp found
      exact ⟨front ++ [sep], by rw [shape]; simp, fresh, .inr ⟨front, rfl⟩⟩

theorem stripSuffix_eq_some_iff {suffix as front : List α} :
    stripSuffix suffix as = some front ↔ as = front ++ suffix := by
  unfold stripSuffix
  constructor
  · intro stripped
    by_cases ends : suffix.isSuffixOf as
    · rw [if_pos ends] at stripped
      obtain ⟨rest, rfl⟩ := List.isSuffixOf_iff_suffix.mp ends
      obtain rfl := Option.some.inj stripped
      simp
    · rw [if_neg ends] at stripped
      cases stripped
  · intro shape
    subst shape
    rw [if_pos (List.isSuffixOf_iff_suffix.mpr (List.suffix_append front suffix))]
    simp

theorem holdsInfix_iff {part as : List α} : holdsInfix part as = true ↔ part <:+: as := by
  induction as with
  | nil => rw [holdsInfix, List.isEmpty_iff, List.infix_nil]
  | cons a as ih =>
      rw [holdsInfix, Bool.or_eq_true, List.isPrefixOf_iff_prefix, ih, List.infix_cons_iff]

end Splitting
