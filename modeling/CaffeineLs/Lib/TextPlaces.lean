/-
Module: CaffeineLs.Lib.TextPlaces
Purpose: Places of a text as lines and columns in a unit of one's own, and the parts of a text on its
  lines.
Trusted boundary: none
Main exports: Place, width, walk
-/
import CaffeineLs.Lib.SourceText

namespace TextPlaces

open SourceText

/-- A line and a column of it. -/
structure Place where
  line : Nat
  column : Nat
deriving DecidableEq, Repr

namespace Place

/-- Where a text begins. -/
def origin : Place := ⟨0, 0⟩

instance : LE Place where
  le p q := p.line < q.line ∨ p.line = q.line ∧ p.column ≤ q.column

theorem le_iff {p q : Place} : p ≤ q ↔ p.line < q.line ∨ p.line = q.line ∧ p.column ≤ q.column :=
  Iff.rfl

theorem le_refl (p : Place) : p ≤ p := .inr ⟨rfl, Nat.le_refl _⟩

theorem le_trans {p q r : Place} (first : p ≤ q) (second : q ≤ r) : p ≤ r := by
  rw [le_iff] at first second ⊢
  omega

end Place

section Walk

variable (w : Char → Nat)

/-- The width of a text whose characters have such widths. -/
def width : Text → Nat
  | [] => 0
  | c :: cs => w c + width cs

/-- The place behind a text that begins at a place. -/
def walk : Place → Text → Place
  | p, [] => p
  | p, c :: cs => walk (if c = '\n' then ⟨p.line + 1, 0⟩ else ⟨p.line, p.column + w c⟩) cs

attribute [local simp] width walk

theorem width_utf8Size (text : Text) : width Char.utf8Size text = byteLen text := by
  induction text with
  | nil => rfl
  | cons c cs ih => rw [width, byteLen, ih]

theorem walk_append (p : Place) (xs ys : Text) : walk w p (xs ++ ys) = walk w (walk w p xs) ys := by
  induction xs generalizing p with
  | nil => rfl
  | cons c cs ih => exact ih _

/-- Text without a newline stays on its line. -/
theorem walk_plain {text : Text} (plain : '\n' ∉ text) (p : Place) :
    walk w p text = ⟨p.line, p.column + width w text⟩ := by
  induction text generalizing p with
  | nil => rfl
  | cons c cs ih =>
      have here : c ≠ '\n' := fun same => plain (same ▸ List.mem_cons_self)
      have later : '\n' ∉ cs := fun member => plain (List.mem_cons_of_mem c member)
      rw [walk, if_neg here, ih later, width, Nat.add_assoc]

theorem walk_newline (p : Place) (text : Text) :
    walk w p (text ++ ['\n']) = ⟨(walk w p text).line + 1, 0⟩ := by
  rw [walk_append]
  rfl

theorem le_walk (p : Place) (text : Text) : p ≤ walk w p text := by
  induction text generalizing p with
  | nil => exact Place.le_refl p
  | cons c cs ih =>
      refine Place.le_trans ?_ (ih _)
      rw [Place.le_iff]
      split
      · exact .inl (Nat.lt_succ_self _)
      · exact .inr ⟨rfl, Nat.le_add_right _ _⟩

/-- The numbers of a place are bounded by the widths and newlines of the text in front. -/
theorem walk_le {m : Char → Nat} (small : ∀ c, w c ≤ m c) (some_ : ∀ c, 0 < m c) (p : Place)
    (text : Text) :
    (walk w p text).line + (walk w p text).column ≤ p.line + p.column + width m text := by
  induction text generalizing p with
  | nil => exact Nat.le_refl _
  | cons c cs ih =>
      have positive := some_ c
      have bounded := small c
      refine Nat.le_trans (ih _) ?_
      rw [width]
      split
      · show p.line + 1 + 0 + width m cs ≤ _
        omega
      · show p.line + (p.column + w c) + width m cs ≤ _
        omega

end Walk

/-- A text is a line without a newline, or such a line with one and a text behind it. -/
theorem line_induction {motive : Text → Prop} (last : ∀ l, '\n' ∉ l → motive l)
    (line : ∀ l rest, '\n' ∉ l → motive rest → motive (l ++ '\n' :: rest)) (text : Text) :
    motive text := by
  suffices general : ∀ front, '\n' ∉ front → motive (front ++ text) from
    general [] List.not_mem_nil
  induction text with
  | nil =>
      intro front plain
      rw [List.append_nil]
      exact last front plain
  | cons c cs ih =>
      intro front plain
      by_cases newline : c = '\n'
      · subst newline
        exact line front cs plain (ih [] List.not_mem_nil)
      · have shift : front ++ c :: cs = front ++ [c] ++ cs := by simp
        rw [shift]
        apply ih
        rw [List.mem_append, List.mem_singleton, not_or]
        exact ⟨plain, Ne.symm newline⟩

section Parts

variable (w : Char → Nat)

/-- A part of a line. -/
structure Part where
  place : Place
  width : Nat
deriving DecidableEq, Repr

/-- Where the part ends. -/
def Part.stop (part : Part) : Place := ⟨part.place.line, part.place.column + part.width⟩

/-- The nonempty ones of some lines, the first of which begins at a place. -/
def lineParts : Place → List Text → List Part
  | _, [] => []
  | p, l :: ls =>
      (if l = [] then [] else [⟨p, TextPlaces.width w l⟩]) ++ lineParts ⟨p.line + 1, 0⟩ ls

/-- The nonempty parts of a text on its lines, without the newlines. -/
def parts (p : Place) (text : Text) : List Part := lineParts w p (text.splitOn '\n')

theorem parts_plain {l : Text} (plain : '\n' ∉ l) (p : Place) :
    parts w p l = if l = [] then [] else [⟨p, TextPlaces.width w l⟩] := by
  rw [parts, List.splitOn_eq_singleton plain, lineParts, lineParts, List.append_nil]

theorem parts_line {l : Text} (plain : '\n' ∉ l) (p : Place) (rest : Text) :
    parts w p (l ++ '\n' :: rest) =
      (if l = [] then [] else [⟨p, TextPlaces.width w l⟩]) ++ parts w ⟨p.line + 1, 0⟩ rest := by
  rw [parts, List.splitOn_append_cons_self, List.splitOn_eq_singleton plain]
  rfl

theorem walk_line {l : Text} (plain : '\n' ∉ l) (p : Place) (rest : Text) :
    walk w p (l ++ '\n' :: rest) = walk w ⟨p.line + 1, 0⟩ rest := by
  have shift : l ++ '\n' :: rest = l ++ ['\n'] ++ rest := by simp
  rw [shift, walk_append, walk_newline, walk_plain w plain]

theorem mem_ownPart {l : Text} {p : Place} {part : Part}
    (member : part ∈ if l = [] then [] else [⟨p, TextPlaces.width w l⟩]) :
    l ≠ [] ∧ part = ⟨p, TextPlaces.width w l⟩ := by
  split at member
  · exact absurd member List.not_mem_nil
  · exact ⟨‹_›, List.mem_singleton.mp member⟩

/-- The parts are between the two ends of the text. -/
theorem parts_bounds (p : Place) (text : Text) :
    ∀ part ∈ parts w p text, p ≤ part.place ∧ part.stop ≤ walk w p text := by
  induction text using line_induction generalizing p with
  | last l plain =>
      intro part member
      rw [parts_plain w plain] at member
      obtain ⟨-, rfl⟩ := mem_ownPart w member
      refine ⟨Place.le_refl p, ?_⟩
      rw [walk_plain w plain]
      exact Place.le_refl _
  | line l rest plain ih =>
      intro part member
      rw [walk_line w plain]
      rw [parts_line w plain, List.mem_append] at member
      have next : p ≤ ⟨p.line + 1, 0⟩ := .inl (Nat.lt_succ_self _)
      rcases member with own | later
      · obtain ⟨-, rfl⟩ := mem_ownPart w own
        exact ⟨Place.le_refl p, Place.le_trans (.inl (Nat.lt_succ_self _)) (le_walk w _ rest)⟩
      · obtain ⟨low, high⟩ := ih _ part later
        exact ⟨Place.le_trans next low, high⟩

/-- A part ends before the next one begins. -/
theorem parts_ordered (p : Place) (text : Text) :
    (parts w p text).Pairwise fun first second => first.stop ≤ second.place := by
  induction text using line_induction generalizing p with
  | last l plain =>
      rw [parts_plain w plain]
      split
      · exact .nil
      · exact List.pairwise_singleton _ _
  | line l rest plain ih =>
      rw [parts_line w plain, List.pairwise_append]
      refine ⟨?_, ih _, ?_⟩
      · split
        · exact .nil
        · exact List.pairwise_singleton _ _
      · intro first own second later
        obtain ⟨-, rfl⟩ := mem_ownPart w own
        exact Place.le_trans (.inl (Nat.lt_succ_self _)) (parts_bounds w _ rest second later).1

/-- A part is some text of a line. -/
theorem parts_covered (p : Place) (text : Text) :
    ∀ part ∈ parts w p text, ∃ front covered back, text = front ++ (covered ++ back) ∧
      '\n' ∉ covered ∧ covered ≠ [] ∧ part = ⟨walk w p front, TextPlaces.width w covered⟩ := by
  induction text using line_induction generalizing p with
  | last l plain =>
      intro part member
      rw [parts_plain w plain] at member
      obtain ⟨some_, rfl⟩ := mem_ownPart w member
      exact ⟨[], l, [], by simp, plain, some_, rfl⟩
  | line l rest plain ih =>
      intro part member
      rw [parts_line w plain, List.mem_append] at member
      rcases member with own | later
      · obtain ⟨some_, rfl⟩ := mem_ownPart w own
        exact ⟨[], l, '\n' :: rest, rfl, plain, some_, rfl⟩
      · obtain ⟨front, covered, back, rfl, free, some_, rfl⟩ := ih _ part later
        refine ⟨l ++ '\n' :: front, covered, back, by simp, free, some_, ?_⟩
        rw [walk_line w plain]

end Parts

end TextPlaces
