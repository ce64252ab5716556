/-
Module: CaffeineLs.HirDef.JavaLiterals
Purpose: The lowering of Java literals: the value of an integer, and the decoding of characters, strings
  and text blocks.
Trusted boundary: `from_str_radix` and the trimming of strings are Rust's; an overflow of the octal digits
  panics, as it does in a build that checks arithmetic.
Main exports: integerLiteral, unescapeChar, unescapeString
-/
import CaffeineLs.HirExpand.Name
import CaffeineLs.JavaSyntax.Lexer
import Mathlib.Data.List.DropRight

namespace CaffeineLs.HirDef

open HirExpand
open JavaSyntax
open SourceText

/-! ### Texts -/

/-- `i64::from_str_radix`: a sign at most, and digits whose value fits. -/
def i64FromStrRadix (text : Text) (radix : Nat) : Option Int :=
  let negative := text.head? = some '-'
  let digits := if negative || text.head? = some '+' then text.tail else text
  if digits.isEmpty || !digits.all (isDigit · radix) then none
  else
    let magnitude : Int := digits.foldl (fun value c => radix * value + hexValue c) 0
    let value := if negative then -magnitude else magnitude
    if -2 ^ 63 ≤ value ∧ value < 2 ^ 63 then some value else none

/-- `str::strip_prefix` -/
def stripLead (lead text : Text) : Option Text :=
  if lead.isPrefixOf text then some (text.drop lead.length) else none

/-- `str::strip_suffix` -/
def stripTrail (trail text : Text) : Option Text :=
  if trail.isSuffixOf text then some (text.take (text.length - trail.length)) else none

/-! ### Integers -/

def isLongMark (c : Char) : Bool := c = 'L' || c = 'l'

/-- The value of the digits, in the radix that their lead says. -/
def integerValue (text : Text) : Option Int :=
  match (stripLead ['0', 'x'] text).or (stripLead ['0', 'X'] text) with
  | some hex => i64FromStrRadix hex 16
  | none =>
      match (stripLead ['0', 'b'] text).or (stripLead ['0', 'B'] text) with
      | some oct => i64FromStrRadix oct 2
      | none =>
          if 1 < byteLen text && text.head? = some '0' then i64FromStrRadix text 8
          else i64FromStrRadix text 10

/-- The literal of an `INTEGER_LITERAL` token with the text. -/
def integerLiteral (text : Text) : Literal :=
  let isLong := text.getLast?.any isLongMark
  let value := integerValue ((text.rdropWhile isLongMark).filter (· ≠ '_'))
  if isLong then .long (value.getD 0) else .int (value.getD 0)

/-! ### Escapes -/

/-- The rounds that add an octal digit to an escape: its value and what follows; `none` where the value
does not fit in a `u8`. -/
def octalRounds : Nat → Nat → Text → Option (Nat × Text)
  | 0, value, chars => some (value, chars)
  | n + 1, value, chars =>
      match chars with
      | [] => some (value, [])
      | next :: rest =>
          if isOctalDigit next then
            let value := value * 8 + (next.toNat - '0'.toNat)
            if value < 256 then octalRounds n value rest else none
          else some (value, chars)

/-- `push_escape`: what the escape adds, and the characters left. -/
def pushEscape (out : Text) (escaped : Char) (chars : Text) : Option (Text × Text) :=
  if escaped = 'b' then some (out ++ ['\x08'], chars)
  else if escaped = 't' then some (out ++ ['\t'], chars)
  else if escaped = 'n' then some (out ++ ['\n'], chars)
  else if escaped = 'f' then some (out ++ ['\x0c'], chars)
  else if escaped = 'r' then some (out ++ ['\r'], chars)
  else if escaped = '"' then some (out ++ ['"'], chars)
  else if escaped = '\'' then some (out ++ ['\''], chars)
  else if escaped = '\\' then some (out ++ ['\\'], chars)
  else if escaped = 's' then some (out ++ [' '], chars)
  else if isOctalDigit escaped then
    (octalRounds 2 (escaped.toNat - '0'.toNat) chars).map fun (value, rest) =>
      (out ++ [Char.ofNat value], rest)
  else some (out ++ [escaped], chars)

/-- The loop over the characters of a line, which consumes one at least in each round. -/
def decodeChars : Nat → Text → Text → Option Text
  | 0, out, _ => some out
  | _ + 1, out, [] => some out
  | n + 1, out, c :: chars =>
      if c ≠ '\\' then decodeChars n (out ++ [c]) chars
      else
        match chars with
        | [] => some out
        | escaped :: rest => do
            let (out, rest) ← pushEscape out escaped rest
            decodeChars n out rest

def decodeLine (out line : Text) : Option Text :=
  match translateUnicodeEscapes line with
  | .error _ => none
  | .ok line => decodeChars line.length out line

/-! ### Characters and strings -/

/-- What stands between two marks, or the whole text where they do not enclose it. -/
def unquoted (quote : Char) (text : Text) : Text :=
  ((stripLead [quote] text).bind (stripTrail [quote])).getD text

def unescapeChar (text : Text) : Option Char :=
  match translateUnicodeEscapes (unquoted '\'' text) with
  | .error _ => none
  | .ok [] => some '\x00'
  | .ok (first :: chars) =>
      if first ≠ '\\' then some first
      else
        match chars with
        | [] => some '\x00'
        | escaped :: rest => do
            let (out, _) ← pushEscape [] escaped rest
            some (out.headD '\x00')

def unescapeString (text : Text) : Option Text := decodeLine [] (unquoted '"' text)

end CaffeineLs.HirDef
