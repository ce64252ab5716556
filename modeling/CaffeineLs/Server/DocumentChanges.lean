/-
Module: CaffeineLs.Server.DocumentChanges
Purpose: The content changes of a document, applied to its text with a line index that is rebuilt only
  when a change may need it.
Trusted boundary: the line index is a parameter, described by `LineIndexer.Documented`; a byte offset
  inside a character makes `replace_range` panic
Main exports: Position, ContentChange, LineIndexer
-/
import CaffeineLs.Lib.TextLines

namespace CaffeineLs.Server.Document

open SourceText TextLines

structure Position where
  line : UInt32
  character : UInt32
deriving DecidableEq, Repr

structure Range where
  start : Position
  stop : Position
deriving DecidableEq, Repr

/-- `TextDocumentContentChangePartial`. -/
structure RangedChange where
  range : Range
  text : Text
deriving DecidableEq, Repr

/-- `TextDocumentContentChangeEvent`. -/
inductive ContentChange where
  | ranged (change : RangedChange)
  | wholeDocument (text : Text)
deriving DecidableEq, Repr

inductive WideEncoding where
  | utf16 | utf32
deriving DecidableEq, Repr

inductive PositionEncoding where
  | utf8
  | wide (encoding : WideEncoding)
deriving DecidableEq, Repr

/-- A line and a column within it: in bytes, or in the units of a wide encoding. -/
structure LineCol where
  line : UInt32
  col : UInt32
deriving DecidableEq, Repr

/-- The index of the lines of a text: `LineIndex::new`, `line` and `to_utf8`. -/
structure LineIndexer where
  Index : Type
  build : Text → Index
  line : Index → UInt32 → Option (Nat × Nat)
  toUtf8 : Index → WideEncoding → LineCol → Option LineCol

/-- `line` returns the given line's range. `to_utf8` turns the column of a line, and only that, into
bytes, and looks at no other line. -/
structure LineIndexer.Documented (indexer : LineIndexer) : Prop where
  line_build : ∀ text l, indexer.line (indexer.build text) l = lineRange text l.toNat
  same_line : ∀ text encoding position found,
    indexer.toUtf8 (indexer.build text) encoding position = some found →
      found.line = position.line
  own_line : ∀ one two encoding (position : LineCol),
    lineAt position.line.toNat one = lineAt position.line.toNat two →
      indexer.toUtf8 (indexer.build one) encoding position =
        indexer.toUtf8 (indexer.build two) encoding position

section Apply

variable (indexer : LineIndexer) (encoding : PositionEncoding)

/-- The line and the byte column of a position. -/
def lineCol (index : indexer.Index) (position : Position) : Option LineCol :=
  match encoding with
  | .utf8 => some ⟨position.line, position.character⟩
  | .wide encoding => indexer.toUtf8 index encoding ⟨position.line, position.character⟩

/-- The byte offset of a position; a column past the end of its line is clamped. -/
def offset (index : indexer.Index) (position : Position) : Option Nat := do
  let lineCol ← lineCol indexer encoding index position
  let range ← indexer.line index lineCol.line
  return range.1 + min lineCol.col.toNat (range.2 - range.1)

/-- The byte range of a range of positions, unless it is inverted. -/
def textRange (index : indexer.Index) (range : Range) : Option (Nat × Nat) := do
  let start ← offset indexer encoding index range.start
  let stop ← offset indexer encoding index range.stop
  if stop < start then none else return (start, stop)

/-- The `try_fold` over the reversed changes: the ranged changes up to the first whole-document change,
still reversed, and that change's text. -/
def lastWholeDocument : List RangedChange → List ContentChange → List RangedChange × Option Text
  | acc, [] => (acc, none)
  | acc, .ranged change :: rest => lastWholeDocument (acc ++ [change]) rest
  | acc, .wholeDocument text :: _ => (acc, some text)

/-- The loop over the ranged changes. `none` is a panic of `replace_range`. -/
def applyRanged (text : Text) (index : indexer.Index) (indexValid : UInt32) :
    List RangedChange → Option Text
  | [] => some text
  | change :: rest =>
      let index := if indexValid ≤ change.range.stop.line then indexer.build text else index
      match textRange indexer encoding index change.range with
      | none => applyRanged text index change.range.start.line rest
      | some (start, stop) =>
          match replaceRange text start stop change.text with
          | none => none
          | some text => applyRanged text index change.range.start.line rest

def applyDocumentChanges (contents : Text) (changes : List ContentChange) : Option Text :=
  let found := lastWholeDocument [] changes.reverse
  let text := found.2.getD contents
  if found.1 = [] then some text
  else applyRanged indexer encoding text (indexer.build text) 4294967295 found.1.reverse

/-- A ranged change, read in the text before it. One without a byte range there changes nothing, as in
the loop. -/
def applyOne (text : Text) (change : RangedChange) : Option Text :=
  match textRange indexer encoding (indexer.build text) change.range with
  | none => some text
  | some (start, stop) => replaceRange text start stop change.text

/-- What the changes mean: one by one, each in the text that the previous ones produced. What comes
before a whole-document change has no effect. -/
def applyEach (text : Option Text) : List ContentChange → Option Text
  | [] => text
  | .wholeDocument whole :: rest => applyEach (some whole) rest
  | .ranged change :: rest =>
      applyEach (text.bind fun text => applyOne indexer encoding text change) rest

end Apply

end CaffeineLs.Server.Document
