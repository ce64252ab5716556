/-
Module: CaffeineLs.JavaSyntax.Reader
Purpose: The Java source reader: a byte cursor that sees Unicode escapes as the characters they
  denote.
Trusted boundary: none
Main exports: SourceReader, SourceReader.scanAt, SourceReader.advance
-/
import CaffeineLs.Lib.SourceText
import CaffeineLs.Unicode

namespace CaffeineLs.JavaSyntax

open SourceText

/-- Why a lexer run aborts: a slice that is out of range or cuts a character, or a `TextRange`
that is not well formed in 32 bits. -/
inductive Panic where
  | badSlice
  | badRange
deriving Repr, DecidableEq

structure UnicodeEscapeError where
  first : Nat
  last : Nat
deriving Repr, DecidableEq

/-- The range `TextRange::at(current, len)`, whose end has to fit as well. -/
def UnicodeEscapeError.new (current len : Nat) : Except Panic UnicodeEscapeError :=
  if u32 current + u32 len < 2 ^ 32 then
    .ok { first := u32 current, last := u32 current + u32 len }
  else
    .error .badRange

/-- A single logical character of the raw source. -/
inductive ScanResult where
  | char (c : Char) (len : Nat)
  /-- The backslash of an ill-formed escape of `len` bytes. -/
  | invalidEscape (len : Nat)
deriving Repr, DecidableEq

namespace ScanResult

def logicalChar : ScanResult → Char
  | .char c _ => c
  | .invalidEscape _ => '\\'

def logicalLen : ScanResult → Nat
  | .char _ len => len
  | .invalidEscape _ => 1

end ScanResult

/-- `char::from_u32`. -/
def charFromU32 (code : Nat) : Option Char :=
  if code.isValidChar then some (Char.ofNat code) else none

/-- The value of a hexadecimal digit. -/
def hexValue (c : Char) : Nat :=
  if isAsciiDigit c then c.toNat - '0'.toNat
  else if 'a' ≤ c && c ≤ 'f' then c.toNat - 'a'.toNat + 10
  else c.toNat - 'A'.toNat + 10

/-- `u32::from_str_radix(text, 16)`. -/
def fromHex (text : Text) : Nat := text.foldl (fun value c => 16 * value + hexValue c) 0

structure SourceReader where
  source : Text
  start : Nat
  current : Nat
  errors : List UnicodeEscapeError
deriving Repr, DecidableEq

namespace SourceReader

def new (source : Text) : SourceReader :=
  { source := source, start := 0, current := 0, errors := [] }

/-- The backslashes immediately before `offset`. -/
def countPrecedingBackslashes (source : Text) (offset : Nat) : Nat :=
  (((sliceTo? source offset).getD []).reverse.takeWhile (· = '\\')).length

/-- The code at `offset` and its length in bytes, or the length of an ill-formed escape. -/
def scanCodeUnit (source : Text) (offset : Nat) : Except Panic (Except Nat (Nat × Nat)) :=
  if offset ≥ byteLen source then
    .ok (.ok (0, 0))
  else
    match sliceFrom? source offset with
    | none => .error .badSlice
    | some [] => .ok (.ok (0, 1))
    | some (c :: cs) =>
        if c ≠ '\\' then
          .ok (.ok (c.toNat, c.utf8Size))
        else if countPrecedingBackslashes source offset % 2 ≠ 0 then
          .ok (.ok ('\\'.toNat, 1))
        else if cs.head? ≠ some 'u' then
          .ok (.ok ('\\'.toNat, 1))
        else
          let hexStart := offset + 1 + (cs.takeWhile (· = 'u')).length
          let hexEnd := hexStart + 4
          if hexEnd > byteLen source then
            .ok (.error (byteLen source - offset))
          else
            match slice? source hexStart hexEnd with
            | none => .error .badSlice
            | some hexStr =>
                if hexStr.all isAsciiHexdigit then
                  .ok (.ok (fromHex hexStr, hexEnd - offset))
                else
                  .ok (.error (hexEnd - offset))

/-- Classify the character that starts at byte `offset`: a literal character, an escape, a pair
of surrogate escapes, or the backslash of something ill-formed. -/
def scanAt (source : Text) (offset : Nat) : Except Panic ScanResult := do
  match ← scanCodeUnit source offset with
  | .error len => return .invalidEscape len
  | .ok (code1, len1) =>
      match charFromU32 code1 with
      | some c => return .char c len1
      | none =>
          if 0xD800 ≤ code1 && code1 ≤ 0xDBFF then
            match ← scanCodeUnit source (offset + len1) with
            | .ok (code2, len2) =>
                if 0xDC00 ≤ code2 && code2 ≤ 0xDFFF then
                  let scalar := (0x10000 + ((code1 - 0xD800) <<< 10)) ||| (code2 - 0xDC00)
                  return .char (Char.ofNat scalar) (len1 + len2)
                else
                  return .invalidEscape len1
            | .error _ => return .invalidEscape len1
          else
            return .invalidEscape len1

/-- The logical character `n` after the one at `offset`. -/
def charAfter (source : Text) (offset : Nat) : Nat → Except Panic Char
  | 0 => do return (← scanAt source offset).logicalChar
  | n + 1 => do
      let len := (← scanAt source offset).logicalLen
      if len = 0 then
        return '\x00'
      else
        charAfter source (offset + len) n

def peekN (r : SourceReader) (n : Nat) : Except Panic Char := charAfter r.source r.current n

def newToken (r : SourceReader) : SourceReader := { r with start := r.current }

def isAtEnd (r : SourceReader) : Bool := r.current ≥ byteLen r.source

/-- Step over what `scanAt` found; the backslash of an ill-formed escape is recorded. -/
def skip (r : SourceReader) : ScanResult → Except Panic SourceReader
  | .char _ len => .ok { r with current := r.current + len }
  | .invalidEscape len => do
      let error ← UnicodeEscapeError.new r.current len
      return { r with errors := r.errors ++ [error], current := r.current + 1 }

def advance (r : SourceReader) : Except Panic (Char × SourceReader) := do
  let scan ← scanAt r.source r.current
  let r' ← r.skip scan
  return (scan.logicalChar, r')

def advanceIfMatches (r : SourceReader) (expected : Char) : Except Panic (Bool × SourceReader) := do
  let scan ← scanAt r.source r.current
  if scan.logicalChar = expected then
    let r' ← r.skip scan
    return (true, r')
  else
    return (false, r)

/-- `source[current..].starts_with(expected)`: raw text, escapes are not interpreted. -/
def isAt (r : SourceReader) (expected : Text) : Except Panic Bool :=
  match sliceFrom? r.source r.current with
  | some rest => .ok (expected.isPrefixOf rest)
  | none => .error .badSlice

def advanceIfMatchesStr (r : SourceReader) (expected : Text) :
    Except Panic (Bool × SourceReader) := do
  if ← r.isAt expected then
    return (true, { r with current := r.current + byteLen expected })
  else
    return (false, r)

/-- `while !is_at_end() { out.push(advance()) }`, for at most the given number of rounds. -/
def drain : Nat → SourceReader → Except Panic (Text × SourceReader)
  | 0, r => .ok ([], r)
  | n + 1, r =>
      if r.isAtEnd then
        .ok ([], r)
      else do
        let (c, r') ← r.advance
        let (cs, last) ← drain n r'
        return (c :: cs, last)

end SourceReader

/-- The characters `text` denotes. Every round consumes a byte. -/
def translateUnicodeEscapes (text : Text) : Except Panic Text := do
  if text.contains '\\' then
    let (cs, _) ← (SourceReader.new text).drain (byteLen text)
    return cs
  else
    return text

namespace SourceReader

def currentTokenLexemeRaw (r : SourceReader) : Except Panic Text :=
  match slice? r.source r.start r.current with
  | some lexeme => .ok lexeme
  | none => .error .badSlice

def currentTokenLexeme (r : SourceReader) : Except Panic Text := do
  translateUnicodeEscapes (← r.currentTokenLexemeRaw)

end SourceReader

end CaffeineLs.JavaSyntax
