/-
Module: CaffeineLs.Lib.SourceText
Purpose: UTF-8 text as a list of scalar values addressed by byte offsets: slices at character
  boundaries, where an offset inside a character or past the end has no slice.
Trusted boundary: none
Main exports: Text, byteLen, sliceFrom?
-/
import Mathlib.Tactic.Common
import Mathlib.Algebra.GroupWithZero.Nat

namespace SourceText

/-- A valid UTF-8 string, as its scalar values. -/
abbrev Text := List Char

/-- The number of bytes of the UTF-8 encoding. -/
def byteLen : Text → Nat
  | [] => 0
  | c :: cs => c.utf8Size + byteLen cs

@[simp] theorem byteLen_nil : byteLen [] = 0 := rfl

@[simp] theorem byteLen_cons (c : Char) (cs : Text) :
    byteLen (c :: cs) = c.utf8Size + byteLen cs := rfl

@[simp] theorem byteLen_append (xs ys : Text) :
    byteLen (xs ++ ys) = byteLen xs + byteLen ys := by
  induction xs with
  | nil => simp
  | cons c cs ih => simp [ih, Nat.add_assoc]

theorem byteLen_pos_of_ne_nil {xs : Text} (nonempty : xs ≠ []) : 0 < byteLen xs := by
  cases xs with
  | nil => exact absurd rfl nonempty
  | cons c cs =>
      have := c.utf8Size_pos
      simp only [byteLen_cons]
      omega

theorem byteLen_eq_zero {xs : Text} : byteLen xs = 0 ↔ xs = [] := by
  constructor
  · intro zero
    by_contra nonempty
    have := byteLen_pos_of_ne_nil nonempty
    omega
  · rintro rfl
    rfl

/-- `&text[offset..]`: nothing when the offset is past the end or inside a character. -/
def sliceFrom? : Text → Nat → Option Text
  | cs, 0 => some cs
  | [], _ + 1 => none
  | c :: cs, n + 1 => if c.utf8Size ≤ n + 1 then sliceFrom? cs (n + 1 - c.utf8Size) else none

/-- `&text[..offset]`. -/
def sliceTo? : Text → Nat → Option Text
  | _, 0 => some []
  | [], _ + 1 => none
  | c :: cs, n + 1 =>
      if c.utf8Size ≤ n + 1 then (sliceTo? cs (n + 1 - c.utf8Size)).map (c :: ·) else none

/-- `&text[first..last]`: nothing also when `last` is before `first`. -/
def slice? (text : Text) (first last : Nat) : Option Text :=
  if first ≤ last then
    (sliceFrom? text first).bind (sliceTo? · (last - first))
  else
    none

/-- `offset as u32`. -/
def u32 (offset : Nat) : Nat := offset % 2 ^ 32

@[simp] theorem sliceFrom?_zero (text : Text) : sliceFrom? text 0 = some text := by
  cases text <;> rfl

@[simp] theorem sliceTo?_zero (text : Text) : sliceTo? text 0 = some [] := by
  cases text <;> rfl

theorem sliceFrom?_cons (c : Char) (cs : Text) (n : Nat) :
    sliceFrom? (c :: cs) (c.utf8Size + n) = sliceFrom? cs n := by
  have positive := c.utf8Size_pos
  obtain ⟨m, size⟩ : ∃ m, c.utf8Size + n = m + 1 := ⟨c.utf8Size + n - 1, by omega⟩
  rw [size, sliceFrom?, if_pos (by omega)]
  congr 1
  omega

theorem sliceTo?_cons (c : Char) (cs : Text) (n : Nat) :
    sliceTo? (c :: cs) (c.utf8Size + n) = (sliceTo? cs n).map (c :: ·) := by
  have positive := c.utf8Size_pos
  obtain ⟨m, size⟩ : ∃ m, c.utf8Size + n = m + 1 := ⟨c.utf8Size + n - 1, by omega⟩
  rw [size, sliceTo?, if_pos (by omega)]
  congr 2
  omega

/-- Slicing after a prefix gives the rest. -/
@[simp] theorem sliceFrom?_append (before rest : Text) :
    sliceFrom? (before ++ rest) (byteLen before) = some rest := by
  induction before with
  | nil => simp
  | cons c cs ih => simpa [sliceFrom?_cons] using ih

/-- Slicing up to the end of a prefix gives the prefix. -/
@[simp] theorem sliceTo?_append (taken rest : Text) :
    sliceTo? (taken ++ rest) (byteLen taken) = some taken := by
  induction taken with
  | nil => simp
  | cons c cs ih => simp [sliceTo?_cons, ih]

/-- The middle of three parts is the slice between their boundaries. -/
theorem slice?_append (before taken rest : Text) :
    slice? (before ++ (taken ++ rest)) (byteLen before) (byteLen before + byteLen taken) =
      some taken := by
  simp [slice?]

/-- A slice that exists splits the text at its offset. -/
theorem sliceFrom?_eq_some {text rest : Text} {n : Nat} (sliced : sliceFrom? text n = some rest) :
    ∃ before, text = before ++ rest ∧ n = byteLen before := by
  induction text generalizing n with
  | nil =>
      cases n with
      | zero => exact ⟨[], by simpa using sliced, rfl⟩
      | succ n => simp [sliceFrom?] at sliced
  | cons c cs ih =>
      cases n with
      | zero => exact ⟨[], by simpa using sliced, rfl⟩
      | succ n =>
          rw [sliceFrom?] at sliced
          split at sliced
          · rename_i fits
            obtain ⟨before, rfl, size⟩ := ih sliced
            refine ⟨c :: before, rfl, ?_⟩
            simp only [byteLen_cons]
            omega
          · simp at sliced

/-- A slice up to an offset splits the text there. -/
theorem sliceTo?_eq_some {text taken : Text} {n : Nat} (sliced : sliceTo? text n = some taken) :
    ∃ rest, text = taken ++ rest ∧ n = byteLen taken := by
  induction text generalizing n taken with
  | nil =>
      cases n with
      | zero =>
          rw [sliceTo?_zero] at sliced
          cases sliced
          exact ⟨[], rfl, rfl⟩
      | succ n => simp [sliceTo?] at sliced
  | cons c cs ih =>
      cases n with
      | zero =>
          rw [sliceTo?_zero] at sliced
          cases sliced
          exact ⟨c :: cs, rfl, rfl⟩
      | succ n =>
          rw [sliceTo?] at sliced
          split at sliced
          · rename_i fits
            rcases Option.map_eq_some_iff.mp sliced with ⟨inner, cut, rfl⟩
            rcases ih cut with ⟨rest, rfl, size⟩
            refine ⟨rest, rfl, ?_⟩
            simp only [byteLen_cons]
            omega
          · simp at sliced

/-- There is no slice up to an offset that no prefix ends at. -/
theorem sliceTo?_eq_none {text : Text} {n : Nat} :
    sliceTo? text n = none ↔ ∀ taken after, text = taken ++ after → byteLen taken ≠ n := by
  constructor
  · rintro none taken after rfl rfl
    simp at none
  · intro never
    cases cut : sliceTo? text n with
    | none => rfl
    | some taken =>
        rcases sliceTo?_eq_some cut with ⟨after, split, size⟩
        exact absurd size.symm (never taken after split)

end SourceText
