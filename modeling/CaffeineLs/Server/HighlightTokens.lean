/-
Module: CaffeineLs.Server.HighlightTokens
Purpose: The highlights of a file encoded as semantic tokens: one token for each line of a highlight,
  each relative to the token before it.
Trusted boundary: the line index is a parameter, described by `LineIndex.Documented`; an offset it does
  not know and a subtraction below zero panic
Main exports: Highlight, LineIndex, position
-/
import CaffeineLs.Lib.TextPlaces
import CaffeineLs.Server.DocumentChanges
import CaffeineLs.Server.SemanticTokens

namespace CaffeineLs.Server.SemanticTokens

open SourceText TextPlaces
open Document (Position PositionEncoding WideEncoding LineCol)

/-- A range of byte offsets. -/
structure TextRange where
  start : Nat
  stop : Nat
deriving DecidableEq, Repr

inductive HlTag where
  | namespace_
  | type
  | class_
  | enum
  | interface
  | struct
  | typeParameter
  | parameter
  | variable_
  | property
  | enumMember
  | function
  | method
  | keyword
  | modifier
  | comment
  | string
  | number
  | operator
  | decorator
deriving DecidableEq, Repr

/-- The wire index of a tag. -/
def tokenType : HlTag → UInt32
  | .namespace_ => 0
  | .type => 1
  | .class_ => 2
  | .enum => 3
  | .interface => 4
  | .struct => 5
  | .typeParameter => 6
  | .parameter => 7
  | .variable_ => 8
  | .property => 9
  | .enumMember => 10
  | .function => 11
  | .method => 12
  | .keyword => 13
  | .modifier => 14
  | .comment => 15
  | .string => 16
  | .number => 17
  | .operator => 18
  | .decorator => 19

/-- The modifiers are the bits of a `u16`. -/
structure Highlight where
  range : TextRange
  tag : HlTag
  mods : UInt16
deriving DecidableEq, Repr

/-! ### The line index -/

/-- The index of the lines of a text: `LineIndex::new`, `lines`, `line_col` and `to_wide`. -/
structure LineIndex where
  Index : Type
  build : Text → Index
  lines : Index → TextRange → List TextRange
  lineCol : Index → Nat → Option LineCol
  toWide : Index → WideEncoding → LineCol → Option LineCol

/-- `char::len_utf16` -/
def utf16Size (c : Char) : Nat := if c.toNat ≤ 0xFFFF then 1 else 2

/-- The width of a character in an encoding. -/
def unit : PositionEncoding → Char → Nat
  | .utf8, c => c.utf8Size
  | .wide .utf16, c => utf16Size c
  | .wide .utf32, _ => 1

/-- The nonempty ranges between the ends of a text and the beginnings of its lines; the first one begins
at `start`, and what is left of the text at `place`. -/
def cutAtLines (start place : Nat) : Text → List TextRange
  | [] => if start = place then [] else [⟨start, place⟩]
  | c :: cs =>
      let after := place + c.utf8Size
      if c = '\n' then ⟨start, after⟩ :: cutAtLines after after cs else cutAtLines start after cs

attribute [local simp] cutAtLines

def asLineCol (place : Place) : LineCol :=
  ⟨.ofNat place.line, .ofNat place.column⟩

/-- `lines` cuts a range at the lines that begin in it, `line_col` is the line of an offset and its bytes
behind the beginning of the line, and `to_wide` counts the same column in units of the encoding. The index
is one of texts with 32-bit lengths. -/
structure LineIndex.Documented (li : LineIndex) : Prop where
  lines_build : ∀ before covered after, byteLen (before ++ (covered ++ after)) < 2 ^ 32 →
    li.lines (li.build (before ++ (covered ++ after)))
        ⟨byteLen before, byteLen before + byteLen covered⟩ =
      cutAtLines (byteLen before) (byteLen before) covered
  lineCol_build : ∀ before after, byteLen (before ++ after) < 2 ^ 32 →
    li.lineCol (li.build (before ++ after)) (byteLen before) =
      some (asLineCol (walk (unit .utf8) .origin before))
  toWide_build : ∀ encoding before after, byteLen (before ++ after) < 2 ^ 32 →
    li.toWide (li.build (before ++ after)) encoding
        (asLineCol (walk (unit .utf8) .origin before)) =
      some (asLineCol (walk (unit (.wide encoding)) .origin before))

/-! ### The encoder -/

/-- A subtraction of `u32`s: nothing where it is below zero. -/
def checkedSub (a b : UInt32) : Option UInt32 := if b ≤ a then some (a - b) else none

section Encode

variable (li : LineIndex) (encoding : PositionEncoding)

/-- `to_proto::position` -/
def position (index : li.Index) (offset : Nat) : Option Position := do
  let lineCol ← li.lineCol index offset
  match encoding with
  | .utf8 => return ⟨lineCol.line, lineCol.col⟩
  | .wide encoding =>
      let wide ← li.toWide index encoding lineCol
      return ⟨wide.line, wide.col⟩

/-- The tokens so far, the position of the last one, and where the last highlight ended. -/
structure Encoder where
  out : List SemanticToken
  prev : Option Position
  prevEnd : Option Nat

def Encoder.initial : Encoder := ⟨[], none, none⟩

/-- The line and the column of a token relative to the one before it. -/
def deltas (prev : Option Position) (start : Position) : Option (UInt32 × UInt32) :=
  match prev with
  | some prev =>
      if prev.line ≠ start.line then
        (checkedSub start.line prev.line).map fun line => (line, start.character)
      else (checkedSub start.character prev.character).map fun character => (0, character)
  | none => some (start.line, start.character)

/-- The inner loop on one piece. -/
def pushPiece (index : li.Index) (highlight : Highlight) (e : Encoder) (piece : TextRange) :
    Option Encoder := do
  let start ← position li encoding index piece.start
  let stop ← position li encoding index piece.stop
  -- A piece that ends where the next line begins ends at the break in front of it.
  let stop ←
    if stop.character = 0 ∧ piece.start < piece.stop then
      position li encoding index (piece.stop - 1)
    else some stop
  if stop.character ≤ start.character then
    return e
  else
    let delta ← deltas e.prev start
    let length ← checkedSub stop.character start.character
    return { e with
      out := e.out ++ [⟨delta.1, delta.2, length, tokenType highlight.tag, highlight.mods.toUInt32⟩]
      prev := some start }

/-- The outer loop on one highlight. -/
def pushHighlight (index : li.Index) (e : Encoder) (highlight : Highlight) : Option Encoder :=
  if e.prevEnd.any fun stop => highlight.range.start < stop then some e
  else
    (li.lines index highlight.range).foldlM (pushPiece li encoding index highlight)
      { e with prevEnd := some highlight.range.stop }

def highlightsToTokens (highlights : List Highlight) (index : li.Index) :
    Option (List SemanticToken) :=
  (highlights.foldlM (pushHighlight li encoding index) .initial).map (·.out)

end Encode

/-! ### The client -/

/-- A token at its own place. -/
structure Row where
  part : Part
  tokenType : UInt32
  modifiers : UInt32
deriving DecidableEq, Repr

/-- The place of a token from the place of the one before it. -/
def advance (place : Place) (token : SemanticToken) : Place :=
  if token.deltaLine = 0 then ⟨place.line, place.column + token.deltaStart.toNat⟩
  else ⟨place.line + token.deltaLine.toNat, token.deltaStart.toNat⟩

def decodeFrom : Place → List SemanticToken → List Row
  | _, [] => []
  | place, token :: rest =>
      let here := advance place token
      ⟨⟨here, token.length.toNat⟩, token.tokenType, token.tokenModifiersBitset⟩ ::
        decodeFrom here rest

def decode (tokens : List SemanticToken) : List Row := decodeFrom .origin tokens

/-! ### What is to be encoded -/

/-- The highlights that begin at or behind the end of the last one taken. -/
def kept : Option Nat → List Highlight → List Highlight
  | _, [] => []
  | prevEnd, h :: rest =>
      if prevEnd.any fun stop => h.range.start < stop then kept prevEnd rest
      else h :: kept (some h.range.stop) rest

/-- The nonempty parts of a highlight on the lines of the text, without the line breaks. -/
def highlightRows (encoding : PositionEncoding) (text : Text) (h : Highlight) : List Row :=
  match sliceTo? text h.range.start, slice? text h.range.start h.range.stop with
  | some before, some covered =>
      (parts (unit encoding) (walk (unit encoding) .origin before) covered).map fun part =>
        ⟨part, tokenType h.tag, h.mods.toUInt32⟩
  | _, _ => []

end CaffeineLs.Server.SemanticTokens
