/-
Module: CaffeineLs.Proofs.DocumentChanges
Purpose: When the reused line index makes no difference: the changes of a document have the effect that
  they have one by one.
Trusted boundary: none
Main exports: LinesValid, Agree, changes_one_by_one
-/
import CaffeineLs.Server.DocumentChanges

namespace CaffeineLs.Server.Document

open SourceText TextLines

/-- A range that some text can have a byte range for: it may end at the end of the line before the one
it starts at. -/
def Range.Possible (range : Range) : Prop :=
  range.start.line.toNat ≤ range.stop.line.toNat + 1

instance (range : Range) : Decidable range.Possible :=
  inferInstanceAs (Decidable (_ ≤ _))

/-- Where the index is reused, the lines of the change are ahead of the lowest line that a change was
for since the index was built. `indexValid` is the code's own mark. -/
def LinesValid : UInt32 → Option Nat → List RangedChange → Prop
  | _, _, [] => True
  | indexValid, lowest, change :: rest =>
      let lowest := if indexValid ≤ change.range.stop.line then none else lowest
      let start := change.range.start.line.toNat
      if change.range.Possible then
        (∀ l, lowest = some l → start < l ∧ change.range.stop.line.toNat < l) ∧
          LinesValid change.range.start.line (some (min start (lowest.getD start))) rest
      else LinesValid change.range.start.line lowest rest

section Loop

variable {indexer : LineIndexer} {encoding : PositionEncoding}

/-! ### Positions -/

theorem lineCol_line (documented : indexer.Documented) {text : Text} {position : Position}
    {found : LineCol}
    (converted : lineCol indexer encoding (indexer.build text) position = some found) :
    found.line = position.line := by
  cases encoding with
  | utf8 =>
      obtain rfl := Option.some.inj converted
      rfl
  | wide encoding => exact documented.same_line _ _ _ _ converted

theorem offset_eq_some (documented : indexer.Documented) {text : Text} {position : Position}
    {n : Nat} (found : offset indexer encoding (indexer.build text) position = some n) :
    ∃ before line, lineAt position.line.toNat text = some (before, line) ∧ byteLen before ≤ n ∧
      n ≤ byteLen before + byteLen line := by
  obtain ⟨column, converted, found⟩ := Option.bind_eq_some_iff.mp found
  obtain ⟨⟨first, last⟩, ranged, found⟩ := Option.bind_eq_some_iff.mp found
  have own := lineCol_line documented converted
  rw [documented.line_build, own] at ranged
  obtain ⟨⟨before, line⟩, at_line, same⟩ := Option.map_eq_some_iff.mp ranged
  obtain ⟨rfl, rfl⟩ := Prod.mk.inj same
  obtain rfl := Option.some.inj found
  exact ⟨before, line, at_line, Nat.le_add_right _ _, by simp only; omega⟩

/-- A position has the same offset in two texts with the same line there. -/
theorem offset_shared (documented : indexer.Documented) {one two : Text} {position : Position}
    (same : lineAt position.line.toNat one = lineAt position.line.toNat two) :
    offset indexer encoding (indexer.build one) position =
      offset indexer encoding (indexer.build two) position := by
  have ranges : lineRange one position.line.toNat = lineRange two position.line.toNat := by
    unfold lineRange
    rw [same]
  have columns : lineCol indexer encoding (indexer.build one) position =
      lineCol indexer encoding (indexer.build two) position := by
    cases encoding with
    | utf8 => rfl
    | wide encoding => exact documented.own_line one two encoding _ same
  unfold offset
  rw [columns]
  cases converted : lineCol indexer encoding (indexer.build two) position with
  | none => rfl
  | some found =>
      have own := lineCol_line documented converted
      simp only [Option.bind_eq_bind, Option.bind_some, documented.line_build, own, ranges]

theorem textRange_shared (documented : indexer.Documented) {one two : Text} {range : Range}
    (start : lineAt range.start.line.toNat one = lineAt range.start.line.toNat two)
    (stop : lineAt range.stop.line.toNat one = lineAt range.stop.line.toNat two) :
    textRange indexer encoding (indexer.build one) range =
      textRange indexer encoding (indexer.build two) range := by
  unfold textRange
  rw [offset_shared documented start, offset_shared documented stop]

theorem textRange_eq_some {index : indexer.Index} {range : Range} {start stop : Nat}
    (found : textRange indexer encoding index range = some (start, stop)) :
    offset indexer encoding index range.start = some start ∧
      offset indexer encoding index range.stop = some stop ∧ start ≤ stop := by
  obtain ⟨first, one, found⟩ := Option.bind_eq_some_iff.mp found
  obtain ⟨last, two, found⟩ := Option.bind_eq_some_iff.mp found
  split at found
  next => cases found
  next ordered =>
    obtain ⟨rfl, rfl⟩ := Prod.mk.inj (Option.some.inj found)
    exact ⟨one, two, Nat.le_of_not_lt ordered⟩

/-- A range that starts two lines or more after it ends has no byte range in any text. -/
theorem textRange_impossible (documented : indexer.Documented) {range : Range}
    (impossible : ¬ range.Possible) (text : Text) :
    textRange indexer encoding (indexer.build text) range = none := by
  cases found : textRange indexer encoding (indexer.build text) range with
  | none => rfl
  | some offsets =>
      obtain ⟨start, stop⟩ := offsets
      obtain ⟨first, last, ordered⟩ := textRange_eq_some found
      obtain ⟨later, own, startLine, above, -⟩ := offset_eq_some documented first
      obtain ⟨before, line, stopLine, -, below⟩ := offset_eq_some documented last
      have apart : range.stop.line.toNat + 1 < range.start.line.toNat := Nat.lt_of_not_le impossible
      obtain ⟨between, lines, rfl⟩ :=
        lineAt_ahead stopLine startLine (Nat.lt_of_succ_lt apart)
      have gap := lines.byteLen_pos (Nat.sub_pos_of_lt apart)
      simp only [byteLen_append] at above
      omega

/-! ### The loop -/

/-- What the reused index has in common with the text. -/
def Agree (lowest : Option Nat) (built text : Text) : Prop :=
  match lowest with
  | none => built = text
  | some n => built = text ∨ SharesLines n built text

theorem Agree.lineAt {lowest : Option Nat} {built text : Text} (agree : Agree lowest built text)
    {l : Nat} (below : ∀ n, lowest = some n → l < n) : lineAt l built = lineAt l text := by
  cases lowest with
  | none => exact congrArg _ agree
  | some n =>
      rcases agree with rfl | shares
      · rfl
      · exact shares.lineAt (below n rfl)

theorem Agree.lower {lowest : Option Nat} {built text : Text} (agree : Agree lowest built text)
    (l : Nat) : Agree (some (min l (lowest.getD l))) built text := by
  cases lowest with
  | none => exact .inl agree
  | some n =>
      rcases agree with same | shares
      · exact .inl same
      · exact .inr (shares.fewer (Nat.min_le_right _ _))

/-- What a change at a line leaves in common. -/
theorem Agree.change (documented : indexer.Documented) {lowest : Option Nat}
    {built text changed replacement : Text} (agree : Agree lowest built text) {position : Position}
    {start stop : Nat}
    (found : offset indexer encoding (indexer.build text) position = some start)
    (replaced : replaceRange text start stop replacement = some changed) :
    Agree (some (min position.line.toNat (lowest.getD position.line.toNat))) built changed := by
  obtain ⟨before, line, at_line, above, -⟩ := offset_eq_some documented found
  obtain ⟨lines, rest, split⟩ := lineAt_eq_some at_line
  have own : SharesLines position.line.toNat text text :=
    ⟨before, lines, line ++ rest, line ++ rest, split, split⟩
  apply Or.inr
  have common :
      SharesLines (min position.line.toNat (lowest.getD position.line.toNat)) built text := by
    cases lowest with
    | none =>
        obtain rfl : built = text := agree
        exact own.fewer (Nat.min_le_left _ _)
    | some n =>
        rcases agree with rfl | shares
        · exact own.fewer (Nat.min_le_left _ _)
        · exact shares.fewer (Nat.min_le_right _ _)
  exact common.replace (Nat.min_le_left _ _) lines split above replaced

theorem applyEach_none (changes : List RangedChange) :
    applyEach indexer encoding none (changes.map .ranged) = none := by
  induction changes with
  | nil => rfl
  | cons change rest ih => exact ih

/-- The loop has the effect of the changes one by one, as long as it reuses the index only for lines
that no change was for. -/
theorem applyRanged_eq_applyEach (documented : indexer.Documented) {lowest : Option Nat}
    {built text : Text} {indexValid : UInt32} {changes : List RangedChange}
    (agree : Agree lowest built text) (valid : LinesValid indexValid lowest changes) :
    applyRanged indexer encoding text (indexer.build built) indexValid changes =
      applyEach indexer encoding (some text) (changes.map .ranged) := by
  induction changes generalizing lowest built text indexValid with
  | nil => rfl
  | cons change rest ih =>
      -- the text whose index the change is read with, and what it has in common with the current one
      have current : ∃ used, (if indexValid ≤ change.range.stop.line then indexer.build text
            else indexer.build built) = indexer.build used ∧
          Agree (if indexValid ≤ change.range.stop.line then none else lowest) used text := by
        by_cases rebuilt : indexValid ≤ change.range.stop.line
        · exact ⟨text, by rw [if_pos rebuilt], by rw [if_pos rebuilt]; rfl⟩
        · exact ⟨built, by rw [if_neg rebuilt], by rw [if_neg rebuilt]; exact agree⟩
      obtain ⟨used, index, agree⟩ := current
      simp only [applyRanged, index, List.map_cons, applyEach, Option.bind_some, applyOne]
      unfold LinesValid at valid
      by_cases possible : change.range.Possible
      · simp only [if_pos possible] at valid
        obtain ⟨ahead, later⟩ := valid
        rw [textRange_shared documented (agree.lineAt fun l low => (ahead l low).1)
          (agree.lineAt fun l low => (ahead l low).2)]
        cases found : textRange indexer encoding (indexer.build text) change.range with
        | none => exact ih (agree.lower _) later
        | some offsets =>
            obtain ⟨start, stop⟩ := offsets
            obtain ⟨first, -, -⟩ := textRange_eq_some found
            cases replaced : replaceRange text start stop change.text with
            | none =>
                simp only [replaced]
                exact (applyEach_none rest).symm
            | some changed =>
                simp only [replaced]
                exact ih (agree.change documented first replaced) later
      · simp only [if_neg possible] at valid
        rw [textRange_impossible documented possible, textRange_impossible documented possible]
        exact ih agree valid

/-! ### The last whole-document change -/

theorem lastWholeDocument_spec (acc : List RangedChange) (reversed : List ContentChange) :
    ∃ ranged, (lastWholeDocument acc reversed).1 = acc ++ ranged ∧
      match (lastWholeDocument acc reversed).2 with
      | none => reversed = ranged.map .ranged
      | some text => ∃ older, reversed = ranged.map .ranged ++ .wholeDocument text :: older := by
  induction reversed generalizing acc with
  | nil => exact ⟨[], by simp [lastWholeDocument], rfl⟩
  | cons change rest ih =>
      cases change with
      | ranged change =>
          obtain ⟨ranged, first, second⟩ := ih (acc ++ [change])
          refine ⟨change :: ranged, by simpa [lastWholeDocument] using first, ?_⟩
          simp only [lastWholeDocument]
          cases whole : (lastWholeDocument (acc ++ [change]) rest).2 with
          | none =>
              rw [whole] at second
              simp [second]
          | some text =>
              rw [whole] at second
              obtain ⟨older, rfl⟩ := second
              exact ⟨older, rfl⟩
      | wholeDocument text => exact ⟨[], by simp [lastWholeDocument], rest, rfl⟩

theorem applyEach_append (text : Option Text) (front back : List ContentChange) :
    applyEach indexer encoding text (front ++ back) =
      applyEach indexer encoding (applyEach indexer encoding text front) back := by
  induction front generalizing text with
  | nil => rfl
  | cons change rest ih => cases change <;> exact ih _

/-- Only the changes after the last whole-document change have an effect. -/
theorem applyEach_lastWholeDocument (contents : Text) (changes : List ContentChange) :
    applyEach indexer encoding (some contents) changes =
      applyEach indexer encoding
        (some ((lastWholeDocument [] changes.reverse).2.getD contents))
        ((lastWholeDocument [] changes.reverse).1.reverse.map .ranged) := by
  obtain ⟨ranged, first, second⟩ := lastWholeDocument_spec [] changes.reverse
  rw [first, List.nil_append]
  cases whole : (lastWholeDocument [] changes.reverse).2 with
  | none =>
      rw [whole] at second
      have same : changes = ranged.reverse.map .ranged := by
        rw [List.map_reverse, ← second, List.reverse_reverse]
      rw [same]
      rfl
  | some text =>
      rw [whole] at second
      obtain ⟨older, second⟩ := second
      have same : changes = older.reverse ++ .wholeDocument text :: ranged.reverse.map .ranged := by
        rw [← List.reverse_reverse changes, second]
        simp
      rw [same, applyEach_append]
      rfl

theorem applyDocumentChanges_eq_applyEach (documented : indexer.Documented) (contents : Text)
    (changes : List ContentChange)
    (valid : LinesValid 4294967295 none (lastWholeDocument [] changes.reverse).1.reverse) :
    applyDocumentChanges indexer encoding contents changes =
      applyEach indexer encoding (some contents) changes := by
  rw [applyEach_lastWholeDocument]
  unfold applyDocumentChanges
  by_cases empty : (lastWholeDocument [] changes.reverse).1 = []
  · simp [empty, applyEach]
  · simp only [if_neg empty]
    have fresh : Agree none ((lastWholeDocument [] changes.reverse).2.getD contents)
        ((lastWholeDocument [] changes.reverse).2.getD contents) := rfl
    exact applyRanged_eq_applyEach documented fresh valid

/-- The document after the changes is the one that they make one by one, in every encoding, as long as
the index is reused only for lines that no change was for. -/
theorem changes_one_by_one (documented : indexer.Documented) (contents : Text)
    (changes : List ContentChange)
    (valid : LinesValid 4294967295 none (lastWholeDocument [] changes.reverse).1.reverse) :
    applyDocumentChanges indexer encoding contents changes =
      applyEach indexer encoding (some contents) changes :=
  applyDocumentChanges_eq_applyEach documented contents changes valid

/-! ### Which changes are so -/

/-- Ranges that do not end before the line they start at are always read with a valid index: the mark of
the code is then the lowest line. -/
theorem linesValid_of_ordered {indexValid : UInt32} {lowest : Option Nat}
    {changes : List RangedChange}
    (ordered : ∀ change ∈ changes, change.range.start.line ≤ change.range.stop.line)
    (mark : ∀ l, lowest = some l → l = indexValid.toNat) :
    LinesValid indexValid lowest changes := by
  induction changes generalizing indexValid lowest with
  | nil => trivial
  | cons change rest ih =>
      have le : change.range.start.line.toNat ≤ change.range.stop.line.toNat :=
        UInt32.le_iff_toNat_le.mp (ordered change List.mem_cons_self)
      have possible : change.range.Possible := Nat.le_succ_of_le le
      unfold LinesValid
      simp only [if_pos possible]
      have ahead : ∀ l, (if indexValid ≤ change.range.stop.line then none else lowest) = some l →
          change.range.start.line.toNat < l ∧ change.range.stop.line.toNat < l := by
        intro l low
        split at low
        next => cases low
        next reused =>
          have above : change.range.stop.line.toNat < indexValid.toNat :=
            Nat.lt_of_not_le fun rebuilt => reused (UInt32.le_iff_toNat_le.mpr rebuilt)
          rw [mark l low]
          exact ⟨Nat.lt_of_le_of_lt le above, above⟩
      refine ⟨ahead, ih (fun other member => ordered other (List.mem_cons_of_mem _ member)) ?_⟩
      intro l low
      obtain rfl := Option.some.inj low
      cases kept : (if indexValid ≤ change.range.stop.line then none else lowest) with
      | none => simp
      | some n => exact Nat.min_eq_left (Nat.le_of_lt (ahead n kept).1)

end Loop

/-! ### A line index -/

/-- The bytes that a byte column is ahead of a wide one: each character of the line that takes more bytes
than units and starts before the column adds the difference. -/
def widen (encoding : WideEncoding) : Nat → Nat → Text → Nat
  | _, col, [] => col
  | start, col, c :: rest =>
      if c.utf8Size = 1 then widen encoding (start + 1) col rest
      else if start < col then
        let units := match encoding with
          | .utf16 => if c.utf8Size = 4 then 2 else 1
          | .utf32 => 1
        widen encoding (start + c.utf8Size) (col + c.utf8Size - units) rest
      else col

/-- An index that keeps the text. -/
def textIndexer : LineIndexer where
  Index := Text
  build := id
  line text l := lineRange text l.toNat
  toUtf8 text encoding position :=
    let line := ((lineAt position.line.toNat text).map Prod.snd).getD []
    some ⟨position.line, UInt32.ofNat (widen encoding 0 position.col.toNat line)⟩

theorem textIndexer_documented : textIndexer.Documented where
  line_build _ _ := rfl
  same_line _ _ _ _ found := by
    obtain rfl := Option.some.inj found
    rfl
  own_line _ _ _ _ same := by simp [textIndexer, same]

def edit (startLine startCol stopLine stopCol : UInt32) (text : Text) : ContentChange :=
  .ranged ⟨⟨⟨startLine, startCol⟩, ⟨stopLine, stopCol⟩⟩, text⟩

def fourLines : Text := ['a', '\n', 'b', '\n', 'c', '\n', 'd']

/-- Edits from the last line up, read with one index. -/
theorem edits_upwards_one_by_one :
    applyDocumentChanges textIndexer (.wide .utf16) fourLines
        [edit 3 0 3 1 ['x', '\n', 'é'], edit 1 0 1 1 ['y']] =
      applyEach textIndexer (.wide .utf16) (some fourLines)
        [edit 3 0 3 1 ['x', '\n', 'é'], edit 1 0 1 1 ['y']] := by
  apply changes_one_by_one textIndexer_documented
  apply linesValid_of_ordered
  · decide
  · nofun

/-- An inverted range is ignored, but it raises the mark, so that the next change is read in the lines
before the first one. -/
theorem inverted_range_moves_next_edit :
    applyDocumentChanges textIndexer (.wide .utf16) fourLines
        [edit 1 0 1 0 ['x', 'x', '\n'], edit 3 0 0 0 [], edit 2 0 2 1 ['Z']] ≠
      applyEach textIndexer (.wide .utf16) (some fourLines)
        [edit 1 0 1 0 ['x', 'x', '\n'], edit 3 0 0 0 [], edit 2 0 2 1 ['Z']] := by
  decide

end CaffeineLs.Server.Document
