/-
Module: CaffeineLs.Lib.TextLines
Purpose: The lines of a text, each with its newline, and what two texts with the same leading lines have
  in common.
Trusted boundary: none
Main exports: firstLine, lineAt, Lines
-/
import CaffeineLs.Lib.SourceText

namespace TextLines

open SourceText

/-- The first line with its newline, and what comes after it; nothing does where there is no newline. -/
def firstLine : Text → Text × Option Text
  | [] => ([], none)
  | c :: rest => if c = '\n' then ([c], some rest) else (c :: (firstLine rest).1, (firstLine rest).2)

/-- The text ahead of a line, and the line with its newline. -/
def lineAt : Nat → Text → Option (Text × Text)
  | 0, text => some ([], (firstLine text).1)
  | l + 1, text =>
      match (firstLine text).2 with
      | none => none
      | some rest => (lineAt l rest).map fun found => ((firstLine text).1 ++ found.1, found.2)

/-- The byte range of a line. -/
def lineRange (text : Text) (l : Nat) : Option (Nat × Nat) :=
  (lineAt l text).map fun found => (byteLen found.1, byteLen found.1 + byteLen found.2)

/-- The text is that many complete lines. -/
inductive Lines : Nat → Text → Prop where
  | zero : Lines 0 []
  | succ {n : Nat} {first rest : Text} (plain : '\n' ∉ first) (lines : Lines n rest) :
      Lines (n + 1) (first ++ '\n' :: rest)

/-- `replace_range`: nothing where an end of the range is inside a character or past the end. -/
def replaceRange (text : Text) (start stop : Nat) (replacement : Text) : Option Text :=
  match sliceTo? text start, sliceFrom? text stop with
  | some front, some back => some (front ++ (replacement ++ back))
  | _, _ => none

/-! ### The first line -/

theorem firstLine_append {first : Text} (plain : '\n' ∉ first) (rest : Text) :
    firstLine (first ++ '\n' :: rest) = (first ++ ['\n'], some rest) := by
  induction first with
  | nil => simp [firstLine]
  | cons c cs ih =>
      have here : c ≠ '\n' := fun same => plain (same ▸ List.mem_cons_self)
      have later : '\n' ∉ cs := fun member => plain (List.mem_cons_of_mem c member)
      simp [firstLine, here, ih later]

theorem firstLine_of_none {text : Text} (last : (firstLine text).2 = none) :
    (firstLine text).1 = text := by
  induction text with
  | nil => rfl
  | cons c cs ih =>
      unfold firstLine at last ⊢
      by_cases newline : c = '\n'
      · simp [newline] at last
      · rw [if_neg newline] at last ⊢
        simp [ih last]

theorem firstLine_of_some {text rest : Text} (after : (firstLine text).2 = some rest) :
    ∃ plain, '\n' ∉ plain ∧ (firstLine text).1 = plain ++ ['\n'] ∧ text = plain ++ '\n' :: rest := by
  induction text with
  | nil => simp [firstLine] at after
  | cons c cs ih =>
      unfold firstLine at after ⊢
      by_cases newline : c = '\n'
      · rw [if_pos newline] at after ⊢
        obtain rfl := Option.some.inj after
        exact ⟨[], List.not_mem_nil, by simp [newline], by simp [newline]⟩
      · rw [if_neg newline] at after ⊢
        obtain ⟨plain, absent, first, text⟩ := ih after
        exact ⟨c :: plain, by simp [absent, Ne.symm newline], by simp [first], by simp [text]⟩

/-! ### Leading lines -/

/-- A line within the shared leading lines is the same in both texts. -/
theorem lineAt_shared {n l : Nat} {shared : Text} (lines : Lines n shared) (below : l < n)
    (one two : Text) : lineAt l (shared ++ one) = lineAt l (shared ++ two) := by
  induction lines generalizing l with
  | zero => exact absurd below (Nat.not_lt_zero l)
  | @succ n first rest plain lines ih =>
      have split (tail : Text) : first ++ '\n' :: rest ++ tail = first ++ '\n' :: (rest ++ tail) := by
        simp
      rw [split, split]
      cases l with
      | zero => simp [lineAt, firstLine_append plain]
      | succ l =>
          simp only [lineAt, firstLine_append plain]
          rw [ih (Nat.lt_of_succ_lt_succ below)]

/-- A line is after as many complete lines. -/
theorem lineAt_eq_some {l : Nat} {text before line : Text}
    (found : lineAt l text = some (before, line)) :
    Lines l before ∧ ∃ rest, text = before ++ (line ++ rest) := by
  induction l generalizing text before with
  | zero =>
      obtain ⟨rfl, rfl⟩ := Prod.mk.inj (Option.some.inj found)
      refine ⟨.zero, ?_⟩
      cases after : (firstLine text).2 with
      | none => exact ⟨[], by simp [firstLine_of_none after]⟩
      | some rest =>
          obtain ⟨plain, -, first, whole⟩ := firstLine_of_some after
          exact ⟨rest, by rw [first]; simpa using whole⟩
  | succ l ih =>
      unfold lineAt at found
      cases after : (firstLine text).2 with
      | none => simp [after] at found
      | some rest =>
          simp only [after] at found
          obtain ⟨⟨later, own⟩, below, same⟩ := Option.map_eq_some_iff.mp found
          obtain ⟨rfl, rfl⟩ := Prod.mk.inj same
          obtain ⟨lines, tail, rfl⟩ := ih below
          obtain ⟨plain, absent, first, whole⟩ := firstLine_of_some after
          have shift : (firstLine text).1 ++ later = plain ++ '\n' :: later := by simp [first]
          refine ⟨shift ▸ .succ absent lines, tail, ?_⟩
          rw [shift]
          simpa using whole

/-- Fewer complete lines are ahead of the others. -/
theorem Lines.take {n m : Nat} {text : Text} (lines : Lines n text) (le : m ≤ n) :
    ∃ front back, Lines m front ∧ text = front ++ back := by
  induction lines generalizing m with
  | zero =>
      obtain rfl := Nat.le_zero.mp le
      exact ⟨[], [], .zero, rfl⟩
  | @succ n first rest plain lines ih =>
      cases m with
      | zero => exact ⟨[], _, .zero, rfl⟩
      | succ m =>
          obtain ⟨front, back, fewer, rfl⟩ := ih (Nat.le_of_succ_le_succ le)
          exact ⟨first ++ '\n' :: front, back, .succ plain fewer, by simp⟩

/-- The texts have that many leading lines in common. -/
def SharesLines (n : Nat) (one two : Text) : Prop :=
  ∃ shared, Lines n shared ∧ ∃ oneRest twoRest, one = shared ++ oneRest ∧ two = shared ++ twoRest

theorem SharesLines.fewer {n m : Nat} {one two : Text} (shares : SharesLines n one two)
    (le : m ≤ n) : SharesLines m one two := by
  obtain ⟨shared, lines, oneRest, twoRest, rfl, rfl⟩ := shares
  obtain ⟨front, back, fewer, rfl⟩ := lines.take le
  exact ⟨front, fewer, back ++ oneRest, back ++ twoRest, by simp, by simp⟩

theorem SharesLines.lineAt {n l : Nat} {one two : Text} (shares : SharesLines n one two)
    (below : l < n) : lineAt l one = lineAt l two := by
  obtain ⟨shared, lines, oneRest, twoRest, rfl, rfl⟩ := shares
  exact lineAt_shared lines below oneRest twoRest

/-- A text begins with one list of so many complete lines. -/
theorem Lines.unique {n : Nat} {one two oneRest twoRest : Text} (first : Lines n one)
    (second : Lines n two) (same : one ++ oneRest = two ++ twoRest) : one = two := by
  induction first generalizing two with
  | zero =>
      cases second
      rfl
  | @succ n head rest plain lines ih =>
      cases second with
      | @succ _ other tail bare later =>
          have left := firstLine_append plain (rest ++ oneRest)
          have right := firstLine_append bare (tail ++ twoRest)
          have whole : head ++ '\n' :: (rest ++ oneRest) = other ++ '\n' :: (tail ++ twoRest) := by
            simpa using same
          rw [whole, right] at left
          obtain ⟨heads, rests⟩ := Prod.mk.inj left
          obtain rfl : other = head := by simpa using heads
          rw [ih later (Option.some.inj rests).symm]

/-- What is cut off the end of a text that starts with a part leaves the part, if the cut is after
it. -/
theorem sliceTo?_covers {before rest front : Text} {offset : Nat}
    (cut : sliceTo? (before ++ rest) offset = some front) (after : byteLen before ≤ offset) :
    ∃ more, front = before ++ more := by
  obtain ⟨back, same, rfl⟩ := sliceTo?_eq_some cut
  rcases List.append_eq_append_iff.mp same with ⟨more, rfl, -⟩ | ⟨more, rfl, -⟩
  · exact ⟨more, rfl⟩
  · rw [byteLen_append] at after
    obtain rfl : more = [] := byteLen_eq_zero.mp (by omega)
    exact ⟨[], by simp⟩

/-- A line is wholly ahead of the later lines, with the complete lines between them. -/
theorem lineAt_ahead {l m : Nat} {text before line later other : Text}
    (one : lineAt l text = some (before, line)) (two : lineAt m text = some (later, other))
    (less : l < m) : ∃ between, Lines (m - (l + 1)) between ∧ later = before ++ (line ++ between) := by
  induction l generalizing m text before later with
  | zero =>
      obtain ⟨rfl, rfl⟩ := Prod.mk.inj (Option.some.inj one)
      obtain ⟨m, rfl⟩ := Nat.exists_eq_succ_of_ne_zero (Nat.ne_of_gt less)
      simp only [lineAt] at two
      cases after : (firstLine text).2 with
      | none => simp [after] at two
      | some rest =>
          simp only [after] at two
          obtain ⟨⟨between, own⟩, below, same⟩ := Option.map_eq_some_iff.mp two
          obtain ⟨rfl, rfl⟩ := Prod.mk.inj same
          exact ⟨between, (lineAt_eq_some below).1, rfl⟩
  | succ l ih =>
      obtain ⟨m, rfl⟩ := Nat.exists_eq_succ_of_ne_zero (Nat.ne_of_gt (Nat.zero_lt_of_lt less))
      simp only [lineAt] at one two
      cases after : (firstLine text).2 with
      | none => simp [after] at one
      | some rest =>
          simp only [after] at one two
          obtain ⟨⟨earlier, own⟩, first, same⟩ := Option.map_eq_some_iff.mp one
          obtain ⟨rfl, rfl⟩ := Prod.mk.inj same
          obtain ⟨⟨behind, last⟩, second, equal⟩ := Option.map_eq_some_iff.mp two
          obtain ⟨rfl, rfl⟩ := Prod.mk.inj equal
          obtain ⟨between, lines, rfl⟩ := ih first second (Nat.lt_of_succ_lt_succ less)
          refine ⟨between, ?_, by simp⟩
          rw [Nat.succ_sub_succ]
          exact lines

theorem Lines.byteLen_pos {n : Nat} {text : Text} (lines : Lines n text) (some_line : 0 < n) :
    0 < byteLen text := by
  cases lines with
  | zero => exact absurd some_line (Nat.lt_irrefl 0)
  | succ _ _ => exact byteLen_pos_of_ne_nil (by simp)

/-- A replacement after the shared lines keeps them. -/
theorem SharesLines.replace {n l : Nat} {one two changed replacement before rest : Text}
    {start stop : Nat} (shares : SharesLines n one two) (le : n ≤ l) (lines : Lines l before)
    (split : two = before ++ rest) (after : byteLen before ≤ start)
    (replaced : replaceRange two start stop replacement = some changed) :
    SharesLines n one changed := by
  obtain ⟨shared, leading, oneRest, twoRest, rfl, rfl⟩ := shares
  obtain ⟨front, back, fewer, rfl⟩ := lines.take le
  obtain rfl : shared = front := leading.unique fewer (by simpa using split)
  unfold replaceRange at replaced
  split at replaced
  next kept tail cut _ =>
    obtain rfl := Option.some.inj replaced
    have enough : byteLen shared ≤ start := by
      rw [byteLen_append] at after
      omega
    obtain ⟨more, rfl⟩ := sliceTo?_covers cut enough
    exact ⟨shared, leading, oneRest, more ++ (replacement ++ tail), rfl, by simp⟩
  next => cases replaced

end TextLines
