/-
Module: CaffeineLs.Lib.Tiling
Purpose: Lists of pieces that carry a text and an offset: their concatenation, and the law that
  every offset is the byte length of the text before it.
Trusted boundary: none
Main exports: textOf, OffsetsFrom, Tiles
-/
import CaffeineLs.Lib.SourceText

namespace SourceText

variable {τ : Type} (text : τ → Text) (offset : τ → Nat)

/-- The concatenation of the pieces' texts. -/
def textOf (pieces : List τ) : Text := pieces.flatMap text

@[simp] theorem textOf_nil : textOf text [] = [] := rfl

@[simp] theorem textOf_cons (t : τ) (ts : List τ) :
    textOf text (t :: ts) = text t ++ textOf text ts := rfl

@[simp] theorem textOf_append (xs ys : List τ) :
    textOf text (xs ++ ys) = textOf text xs ++ textOf text ys := by
  simp [textOf]

/-- Every piece's offset is `place` of the byte position it has when the first one stands at
`first`. -/
def OffsetsFrom (place : Nat → Nat) (first : Nat) (pieces : List τ) : Prop :=
  ∀ before t after, pieces = before ++ t :: after →
    offset t = place (first + byteLen (textOf text before))

variable {text offset} {place : Nat → Nat} {first : Nat}

theorem offsetsFrom_nil : OffsetsFrom text offset place first [] := by
  intro before t after split
  simp at split

theorem offsetsFrom_singleton {t : τ} :
    OffsetsFrom text offset place first [t] ↔ offset t = place first := by
  constructor
  · intro offsets
    simpa using offsets [] t [] rfl
  · intro here before t' after split
    obtain ⟨rfl, same⟩ : before = [] ∧ [t] = t' :: after := by
      cases before with
      | nil => exact ⟨rfl, split⟩
      | cons b bs => simp at split
    obtain ⟨rfl, -⟩ := List.cons.inj same
    simpa using here

theorem offsetsFrom_append {xs ys : List τ} :
    OffsetsFrom text offset place first (xs ++ ys) ↔
      OffsetsFrom text offset place first xs ∧
        OffsetsFrom text offset place (first + byteLen (textOf text xs)) ys := by
  constructor
  · intro offsets
    constructor
    · rintro before t after rfl
      exact offsets before t (after ++ ys) (by simp)
    · rintro before t after rfl
      have here := offsets (xs ++ before) t after (by simp)
      simpa [Nat.add_assoc] using here
  · rintro ⟨left, right⟩ before t after split
    rcases List.append_eq_append_iff.mp split with ⟨mid, rfl, later⟩ | ⟨mid, rfl, earlier⟩
    · have here := right mid t after later
      simpa [Nat.add_assoc] using here
    · cases mid with
      | nil =>
          have here := right [] t after (by simpa using earlier.symm)
          simpa using here
      | cons m ms =>
          obtain ⟨rfl, rfl⟩ : t = m ∧ after = ms ++ ys := by simpa using earlier
          exact left before t ms rfl

variable (text offset)

/-- The pieces are `source`, cut up, each at its own place. -/
def Tiles (pieces : List τ) (source : Text) : Prop :=
  textOf text pieces = source ∧ OffsetsFrom text offset id 0 pieces

variable {text offset}

/-- Places that wrap around at `bound` are the true ones exactly when no piece stands past it. -/
theorem tiles_iff_of_last {bound : Nat} {pieces : List τ} {last : τ} {source : Text}
    (places : OffsetsFrom text offset (· % bound) 0 (pieces ++ [last]))
    (empty : text last = []) (covered : textOf text pieces = source) (positive : 0 < bound) :
    Tiles text offset (pieces ++ [last]) source ↔ byteLen source < bound := by
  have whole : textOf text (pieces ++ [last]) = source := by simp [empty, covered]
  constructor
  · rintro ⟨-, offsets⟩
    have exact_ := offsets pieces last [] rfl
    have wrapped := places pieces last [] rfl
    rw [covered] at exact_ wrapped
    simp only [Nat.zero_add, id] at exact_ wrapped
    rw [← exact_, wrapped]
    exact Nat.mod_lt _ positive
  · intro small
    refine ⟨whole, fun before t after split => ?_⟩
    have here := places before t after split
    have within : byteLen (textOf text before) ≤ byteLen source := by
      rw [← whole, split]
      simp only [textOf_append, byteLen_append]
      omega
    have unwrapped : byteLen (textOf text before) % bound = byteLen (textOf text before) :=
      Nat.mod_eq_of_lt (by omega)
    simpa [unwrapped] using here

end SourceText
