/-
Module: CaffeineLs.KotlinSyntax.Lexer
Purpose: The Kotlin lexer: its source reader, its identifier predicates, its mode stack and
  every scanning routine, as programs over the lexer's primitive operations.
Trusted boundary: the character tables are a parameter
Main exports: SourceReader, Token, Lexer
-/
import CaffeineLs.KotlinSyntax.SyntaxKind
import CaffeineLs.Lib.Program
import CaffeineLs.Lib.SourceText
import CaffeineLs.Unicode

namespace CaffeineLs.KotlinSyntax

open Imperative
open SourceText

/-! ### Identifier predicates -/

namespace UnicodeTables

variable (U : CaffeineLs.UnicodeTables)

def isUnicodeLetter (c : Char) : Bool :=
  match U.generalCategory c with
  | .uppercaseLetter | .lowercaseLetter | .titlecaseLetter | .modifierLetter | .otherLetter
  | .letterNumber => true
  | _ => false

def isUnicodeDigit (c : Char) : Bool := U.generalCategory c = .decimalNumber

end UnicodeTables

def isKotlinNewline (c : Char) : Bool := c = '\n' || c = '\r'

def isKotlinIdentifierStart (U : UnicodeTables) (c : Char) : Bool :=
  c = '_' || UnicodeTables.isUnicodeLetter U c

def isKotlinIdentifierPart (U : UnicodeTables) (c : Char) : Bool :=
  isKotlinIdentifierStart U c || UnicodeTables.isUnicodeDigit U c

/-! ### The reader -/

/-- A byte cursor into the source and the start of the current token. -/
structure SourceReader where
  source : Text
  current : Nat
  start : Nat
deriving Repr, DecidableEq

/-- Why a lexer run aborts: a slice that is out of range or cuts a character, `usize` subtraction
below zero, or a `TextRange` whose end, cut to 32 bits, lies before its start. -/
inductive Panic where
  | badSlice
  | subtractOverflow
  | badRange
deriving Repr, DecidableEq

namespace SourceReader

def new (source : Text) : SourceReader := { source := source, current := 0, start := 0 }

/-- `source[offset..].chars()`, advanced `n` times. -/
def charAfter (source : Text) : Nat → Nat → Except Panic Char
  | offset, n =>
      match sliceFrom? source offset, n with
      | none, _ => .error .badSlice
      | some rest, 0 => .ok (rest.headD '\x00')
      | some [], _ + 1 => .ok '\x00'
      | some (c :: _), n + 1 => charAfter source (offset + c.utf8Size) n

def peekN (r : SourceReader) (n : Nat) : Except Panic Char := charAfter r.source r.current n

/-- Move the cursor over the character it stands at; at the end that is a NUL of one byte. -/
def advance (r : SourceReader) : Except Panic (Char × SourceReader) := do
  let c ← r.peekN 0
  pure (c, { r with current := r.current + c.utf8Size })

def isAtEnd (r : SourceReader) : Bool := r.current ≥ byteLen r.source

def newToken (r : SourceReader) : SourceReader := { r with start := r.current }

def currentLexeme (r : SourceReader) : Except Panic Text :=
  match slice? r.source r.start r.current with
  | some lexeme => .ok lexeme
  | none => .error .badSlice

end SourceReader

/-! ### Lexer state and primitive operations -/

structure Token where
  kind : SyntaxKind
  lexeme : Text
  offset : Nat
deriving DecidableEq

def Token.new (kind : SyntaxKind) (lexeme : Text) (offset : Nat) : Token :=
  { kind := kind, lexeme := lexeme, offset := u32 offset }

inductive LexerMode where
  | default
  | string (isRaw : Bool) (dollarDepth : Nat)
deriving Repr, DecidableEq

inductive LexicalErrorKind where
  | unterminatedBlockComment | unterminatedString | emptyCharLiteral | unterminatedCharLiteral
  | tooManyCharsInCharLiteral | unsupportedEscapeSequence | emptyIdentifier
  | unterminatedIdentifier | unexpectedChar (c : Char) | leadingZerosNotAllowed
  | wrongLongSuffixCase | illegalUnderscore | missingExponentDigits | missingNumericDigits
deriving Repr, DecidableEq

structure LexicalError where
  kind : LexicalErrorKind
  first : Nat
  last : Nat
deriving Repr, DecidableEq

/-- The two stacks of the lexer, innermost entry first. -/
structure Stacks where
  modeStack : List LexerMode
  templateBraceDepths : List Nat
deriving Repr, DecidableEq

structure Lexer where
  reader : SourceReader
  tokens : List Token
  errors : List LexicalError
  nesting : Stacks
deriving DecidableEq

def Lexer.new (source : Text) : Lexer :=
  { reader := .new source, tokens := [], errors := [],
    nesting := { modeStack := [.default], templateBraceDepths := [] } }

def Lexer.completeToken (l : Lexer) (kind : SyntaxKind) : Except Panic Lexer := do
  let lexeme ← l.reader.currentLexeme
  pure { l with tokens := l.tokens ++ [Token.new kind lexeme l.reader.start] }

def Lexer.completeEof (l : Lexer) : Lexer :=
  { l with tokens := l.tokens ++ [Token.new .eof [] l.reader.current] }

def Lexer.reportError (l : Lexer) (kind : LexicalErrorKind) : Except Panic Lexer :=
  if u32 l.reader.start ≤ u32 l.reader.current then
    .ok { l with errors := l.errors ++
      [{ kind := kind, first := u32 l.reader.start, last := u32 l.reader.current }] }
  else
    .error .badRange

/-- What a scanning routine may do to the lexer. -/
inductive LexOp : Type → Type where
  | peekN (n : Nat) : LexOp Char
  | advance : LexOp Char
  | isAtEnd : LexOp Bool
  | newToken : LexOp Unit
  | currentLexeme : LexOp Text
  | completeToken (kind : SyntaxKind) : LexOp Unit
  | completeEof : LexOp Unit
  | reportError (kind : LexicalErrorKind) : LexOp Unit
  | getStacks : LexOp Stacks
  | setStacks (nesting : Stacks) : LexOp Unit
  | underflow : LexOp Unit

/-- The lexer has no recursive routine. -/
inductive NoFn : Type → Type

def LexOp.exec : {β : Type} → LexOp β → Lexer → Except Panic (β × Lexer)
  | _, .peekN n, l => do
      let c ← l.reader.peekN n
      pure (c, l)
  | _, .advance, l => do
      let (c, reader) ← l.reader.advance
      pure (c, { l with reader := reader })
  | _, .isAtEnd, l => .ok (l.reader.isAtEnd, l)
  | _, .newToken, l => .ok ((), { l with reader := l.reader.newToken })
  | _, .currentLexeme, l => do
      let lexeme ← l.reader.currentLexeme
      pure (lexeme, l)
  | _, .completeToken kind, l => do
      let l' ← l.completeToken kind
      pure ((), l')
  | _, .completeEof, l => .ok ((), l.completeEof)
  | _, .reportError kind, l => do
      let l' ← l.reportError kind
      pure ((), l')
  | _, .getStacks, l => .ok (l.nesting, l)
  | _, .setStacks nesting, l => .ok ((), { l with nesting := nesting })
  | _, .underflow, _ => .error .subtractOverflow

def machine : Machine LexOp NoFn Panic Lexer where
  exec := LexOp.exec
  body f := nomatch f

abbrev Lex := Prog LexOp NoFn

def peekN (n : Nat) : Lex Char := .perform (.peekN n)
def peek : Lex Char := peekN 0
def peekNext : Lex Char := peekN 1
def advance : Lex Char := .perform .advance
def isAtEnd : Lex Bool := .perform .isAtEnd
def newToken : Lex Unit := .perform .newToken
def currentLexeme : Lex Text := .perform .currentLexeme
def completeToken (kind : SyntaxKind) : Lex Unit := .perform (.completeToken kind)
def completeEof : Lex Unit := .perform .completeEof
def reportError (kind : LexicalErrorKind) : Lex Unit := .perform (.reportError kind)
def getStacks : Lex Stacks := .perform .getStacks
def setStacks (nesting : Stacks) : Lex Unit := .perform (.setStacks nesting)

def pushMode (mode : LexerMode) : Lex Unit := do
  let nesting ← getStacks
  setStacks { nesting with modeStack := mode :: nesting.modeStack }

def popMode : Lex Unit := do
  let nesting ← getStacks
  setStacks { nesting with modeStack := nesting.modeStack.tail }

/-- `for _ in 0..n { reader.advance() }`. -/
def advanceTimes : Nat → Lex Unit
  | 0 => pure ()
  | n + 1 => do
      let _ ← advance
      advanceTimes n

/-- `!reader.is_at_end() && p(reader.peek())`. -/
def notAtEndAnd (p : Char → Bool) : Lex Bool := do
  if ← isAtEnd then
    return false
  else
    return p (← peek)

/-- `while !reader.is_at_end() && p(reader.peek()) { reader.advance(); }`. -/
def advanceWhile (p : Char → Bool) : Lex Unit :=
  Prog.whileDo (notAtEndAnd p) do
    let _ ← advance

/-! ### Scanning routines -/

def handleHorizontalWhitespace : Lex Unit := do
  advanceWhile fun c => c = ' ' || c = '\t' || c = '\x0c'
  completeToken .whitespace

def handleNewline : Lex Unit := do
  Prog.whileDo (notAtEndAnd fun c => c = '\n' || c = '\r') do
    let c ← peek
    if c = '\n' then
      let _ ← advance
    else
      let _ ← advance
      if (← peek) = '\n' then
        let _ ← advance
  completeToken .newline

/-- The hard keywords other than `as`, and the underscore. -/
def keywordKind (text : String) : SyntaxKind :=
  match text with
  | "break" => .breakKw
  | "continue" => .continueKw
  | "class" => .classKw
  | "do" => .doKw
  | "if" => .ifKw
  | "else" => .elseKw
  | "false" => .falseKw
  | "for" => .forKw
  | "fun" => .funKw
  | "in" => .inKw
  | "is" => .isKw
  | "interface" => .interfaceKw
  | "null" => .nullKw
  | "object" => .objectKw
  | "package" => .packageKw
  | "return" => .returnKw
  | "super" => .superKw
  | "this" => .thisKw
  | "throw" => .throwKw
  | "true" => .trueKw
  | "try" => .tryKw
  | "typealias" => .typealiasKw
  | "typeof" => .typeofKw
  | "val" => .valKw
  | "var" => .varKw
  | "when" => .whenKw
  | "while" => .whileKw
  | "_" => .underscore
  | _ => .identifier

def handleIdentifier (U : UnicodeTables) : Lex Unit := do
  advanceWhile (isKotlinIdentifierPart U)
  let text ← currentLexeme
  if String.ofList text = "as" then
    if (← peek) = '?' then
      let _ ← advance
      completeToken .asSafe
    else
      completeToken .asKw
  else
    completeToken (keywordKind (String.ofList text))

def handleBacktickIdentifier : Lex Unit := do
  let _ ← advance
  if (← peek) = '`' then
    reportError .emptyIdentifier
    let _ ← advance
    completeToken .identifier
  else
    Prog.loop (β := Unit) (γ := Unit)
      (fun _ => do
        if ← notAtEndAnd (· ≠ '`') then
          if isKotlinNewline (← peek) then
            reportError .unterminatedIdentifier
            return .inr ()
          else
            let _ ← advance
            return .inl ()
        else
          return .inr ())
      () .pure
    if ← isAtEnd then
      reportError .unterminatedIdentifier
    else if (← peek) = '`' then
      let _ ← advance
    completeToken .identifier

/-- The four digits of a `\u` escape; `false` at the first character that is none. -/
def hexDigits : Nat → Lex Bool
  | 0 => pure true
  | n + 1 => do
      if !isAsciiHexdigit (← peek) then
        return false
      else
        let _ ← advance
        hexDigits n

def consumeEscapeSequence : Lex Unit := do
  let _ ← advance
  let c ← peek
  if ['t', 'b', 'n', 'r', '\'', '"', '\\', '$'].contains c then
    let _ ← advance
  else if c = 'u' then
    let _ ← advance
    let valid ← hexDigits 4
    if !valid then
      reportError .unsupportedEscapeSequence
  else
    reportError .unsupportedEscapeSequence
    if !(← isAtEnd) then
      let _ ← advance

def handleCharLiteral : Lex Unit := do
  let _ ← advance
  if (← peek) = '\'' then
    reportError .emptyCharLiteral
    let _ ← advance
    completeToken .charLiteral
  else
    if !(← isAtEnd) then
      if (← peek) = '\\' then
        consumeEscapeSequence
      else
        let _ ← advance
    let tooManyChars ← Prog.loop (β := Bool) (γ := Bool)
      (fun tooManyChars => do
        if ← notAtEndAnd (fun c => c ≠ '\'' && !isKotlinNewline c) then
          let _ ← advance
          return .inl true
        else
          return .inr tooManyChars)
      false .pure
    if (← peek) = '\'' then
      let _ ← advance
      if tooManyChars then
        reportError .tooManyCharsInCharLiteral
    else
      reportError .unterminatedCharLiteral
    completeToken .charLiteral

/-- The number of digits taken and whether the last character taken was an underscore. -/
def consumeDigits (isValidDigit : Char → Bool) : Lex (Nat × Bool) :=
  Prog.loop (β := Nat × Bool) (γ := Nat × Bool)
    (fun (digitCount, lastWasUnderscore) => do
      if ← isAtEnd then
        return .inr (digitCount, lastWasUnderscore)
      else
        let c ← peek
        if isValidDigit c then
          let _ ← advance
          return .inl (digitCount + 1, false)
        else if c = '_' then
          let _ ← advance
          return .inl (digitCount, true)
        else
          return .inr (digitCount, lastWasUnderscore))
    (0, false) .pure

/-- An exponent, when one starts here: whether it does, and the underscore flag after it. -/
def consumeExponent (lastWasUnderscore : Bool) : Lex (Bool × Bool) := do
  let c ← peek
  if c = 'e' || c = 'E' then
    if lastWasUnderscore then
      reportError .illegalUnderscore
    let _ ← advance
    let sign ← peek
    if sign = '+' || sign = '-' then
      let _ ← advance
    if (← peek) = '_' then
      reportError .illegalUnderscore
    let (expDigits, endedWithUnderscore) ← consumeDigits isAsciiDigit
    if expDigits = 0 then
      reportError .missingExponentDigits
    return (true, endedWithUnderscore)
  else
    return (false, lastWasUnderscore)

def handleLeadingDotFloat : Lex Unit := do
  let (_, afterDigits) ← consumeDigits isAsciiDigit
  let (_, lastWasUnderscore) ← consumeExponent afterDigits
  if lastWasUnderscore then
    reportError .illegalUnderscore
  let c ← peek
  if c = 'f' || c = 'F' then
    let _ ← advance
  completeToken .floatLiteral

def handleDot : Lex Unit := do
  let _ ← advance
  let c ← peek
  if c = '.' then
    let _ ← advance
    if (← peek) = '<' then
      let _ ← advance
      completeToken .rangeUntil
    else
      completeToken .range
  else if isAsciiDigit c then
    handleLeadingDotFloat
  else
    completeToken .dot

def consumeIntSuffixes : Lex Unit := do
  let c ← peek
  if c = 'u' || c = 'U' then
    let _ ← advance
    let next ← peek
    if next = 'L' then
      let _ ← advance
    else if next = 'l' then
      reportError .wrongLongSuffixCase
      let _ ← advance
  else if c = 'L' then
    let _ ← advance
  else if c = 'l' then
    reportError .wrongLongSuffixCase
    let _ ← advance

def handleRadixLiteral (isValidDigit : Char → Bool) : Lex Unit := do
  if (← peek) = '_' then
    reportError .illegalUnderscore
  let (digitCount, lastWasUnderscore) ← consumeDigits isValidDigit
  if digitCount = 0 then
    reportError .missingNumericDigits
  if lastWasUnderscore then
    reportError .illegalUnderscore
  consumeIntSuffixes
  completeToken .integerLiteral

/-- A fraction, when a dot and a digit or underscore follow: whether it does, and the
underscore flag after it. -/
def consumeFraction (lastWasUnderscore : Bool) : Lex (Bool × Bool) := do
  if (← peek) = '.' then
    let next ← peekNext
    if isAsciiDigit next || next = '_' then
      if lastWasUnderscore then
        reportError .illegalUnderscore
      let _ ← advance
      if (← peek) = '_' then
        reportError .illegalUnderscore
      let (_, endedWithUnderscore) ← consumeDigits isAsciiDigit
      return (true, endedWithUnderscore)
    else
      return (false, lastWasUnderscore)
  else
    return (false, lastWasUnderscore)

def handleDecimalOrFloat : Lex Unit := do
  let (_, afterInteger) ← consumeDigits isAsciiDigit
  let (hasFraction, afterFraction) ← consumeFraction afterInteger
  let (hasExponent, lastWasUnderscore) ← consumeExponent afterFraction
  if lastWasUnderscore then
    reportError .illegalUnderscore
  let c ← peek
  if hasFraction || hasExponent then
    if c = 'f' || c = 'F' then
      let _ ← advance
    completeToken .floatLiteral
  else if c = 'f' || c = 'F' then
    let _ ← advance
    completeToken .floatLiteral
  else
    consumeIntSuffixes
    completeToken .integerLiteral

def handleNumber : Lex Unit := do
  if (← peek) = '0' then
    let next ← peekNext
    if next = 'x' || next = 'X' then
      let _ ← advance
      let _ ← advance
      handleRadixLiteral isAsciiHexdigit
    else if next = 'b' || next = 'B' then
      let _ ← advance
      let _ ← advance
      handleRadixLiteral fun c => c = '0' || c = '1'
    else
      if isAsciiDigit next || next = '_' then
        reportError .leadingZerosNotAllowed
      handleDecimalOrFloat
  else
    handleDecimalOrFloat

/-! ### Operators -/

def handleEqual : Lex Unit := do
  let _ ← advance
  if (← peek) = '=' then
    let _ ← advance
    if (← peek) = '=' then
      let _ ← advance
      completeToken .sheq
    else
      completeToken .equalEqual
  else
    completeToken .equal

def handleColon : Lex Unit := do
  let _ ← advance
  if (← peek) = ':' then
    let _ ← advance
    completeToken .colonColon
  else
    completeToken .colon

def handleQuestion : Lex Unit := do
  let _ ← advance
  let c ← peek
  if c = '.' then
    let _ ← advance
    completeToken .safeAccess
  else if c = ':' then
    let _ ← advance
    completeToken .elvis
  else
    completeToken .question

def handleBang (U : UnicodeTables) : Lex Unit := do
  let _ ← advance
  let c ← peek
  if c = '=' then
    let _ ← advance
    if (← peek) = '=' then
      let _ ← advance
      completeToken .shne
    else
      completeToken .notEqual
  else if c = '!' then
    let _ ← advance
    completeToken .notNullAssert
  else if c = 'i' then
    let next ← peekNext
    if next = 'n' && !isKotlinIdentifierPart U (← peekN 2) then
      let _ ← advance
      let _ ← advance
      completeToken .notIn
    else if next = 's' && !isKotlinIdentifierPart U (← peekN 2) then
      let _ ← advance
      let _ ← advance
      completeToken .notIs
    else
      completeToken .not
  else
    completeToken .not

def handleLess : Lex Unit := do
  let _ ← advance
  if (← peek) = '=' then
    let _ ← advance
    completeToken .lessEqual
  else
    completeToken .less

def handleGreater : Lex Unit := do
  let _ ← advance
  if (← peek) = '=' then
    let _ ← advance
    completeToken .greaterEqual
  else
    completeToken .greater

def handleAnd : Lex Unit := do
  let _ ← advance
  if (← peek) = '&' then
    let _ ← advance
    completeToken .and
  else
    completeToken .bitAnd

def handleOr : Lex Unit := do
  let startChar ← advance
  if (← peek) = '|' then
    let _ ← advance
    completeToken .or
  else
    reportError (.unexpectedChar startChar)
    completeToken .error

def handlePlus : Lex Unit := do
  let _ ← advance
  let c ← peek
  if c = '+' then
    let _ ← advance
    completeToken .plusPlus
  else if c = '=' then
    let _ ← advance
    completeToken .plusEqual
  else
    completeToken .plus

def handleMinus : Lex Unit := do
  let _ ← advance
  let c ← peek
  if c = '-' then
    let _ ← advance
    completeToken .minusMinus
  else if c = '=' then
    let _ ← advance
    completeToken .minusEqual
  else if c = '>' then
    let _ ← advance
    completeToken .arrow
  else
    completeToken .minus

def handleStar : Lex Unit := do
  let _ ← advance
  if (← peek) = '=' then
    let _ ← advance
    completeToken .mulEqual
  else
    completeToken .star

def handleModulo : Lex Unit := do
  let _ ← advance
  if (← peek) = '=' then
    let _ ← advance
    completeToken .moduloEqual
  else
    completeToken .modulo

/-! ### Comments -/

def processLineComment : Lex Unit := do
  advanceWhile fun c => !isKotlinNewline c
  completeToken .lineComment

/-- The nested part of a block comment: the depth left open at the end of the input. -/
def blockCommentRest (depth : Nat) : Lex Nat :=
  Prog.loop (β := Nat) (γ := Nat)
    (fun depth => do
      if depth = 0 then
        return .inr depth
      else if ← isAtEnd then
        return .inr depth
      else
        let c ← peek
        let _ ← advance
        if c = '/' then
          if (← peek) = '*' then
            let _ ← advance
            return .inl (depth + 1)
          else
            return .inl depth
        else if c = '*' then
          if (← peek) = '/' then
            let _ ← advance
            return .inl (depth - 1)
          else
            return .inl depth
        else
          return .inl depth)
    depth .pure

def processBlockComment : Lex Unit := do
  let (startDepth, isKdoc) ← (do
    if (← peek) = '*' then
      let _ ← advance
      -- `/**/` closes at once and is no KDoc.
      if (← peek) = '/' then
        let _ ← advance
        return (0, false)
      else
        return (1, true)
    else
      return (1, false) : Lex (Nat × Bool))
  let depth ← blockCommentRest startDepth
  if depth > 0 then
    reportError .unterminatedBlockComment
  if isKdoc then
    completeToken .kdoc
  else
    completeToken .blockComment

def handleSlash : Lex Unit := do
  let _ ← advance
  let c ← peek
  if c = '/' then
    let _ ← advance
    processLineComment
  else if c = '*' then
    let _ ← advance
    processBlockComment
  else if c = '=' then
    let _ ← advance
    completeToken .divEqual
  else
    completeToken .slash

/-! ### Strings and the two modes -/

/-- The number of characters from the cursor on that equal `c`. -/
def countRun (c : Char) : Lex Nat :=
  Prog.loop (β := Nat) (γ := Nat)
    (fun count => do
      if (← peekN count) = c then
        return .inl (count + 1)
      else
        return .inr count)
    0 .pure

/-- Whether the next `n` characters, from the `i`-th on, are all `$`. -/
def dollarsAhead : Nat → Nat → Lex Bool
  | 0, _ => pure true
  | n + 1, i => do
      if (← peekN i) ≠ '$' then
        return false
      else
        dollarsAhead n (i + 1)

def handleDollarOrQuote : Lex Unit := do
  let dollarCount ← countRun '$'
  if (← peekN dollarCount) = '"' then
    advanceTimes dollarCount
    if (← peekNext) = '"' && (← peekN 2) = '"' then
      advanceTimes 3
      pushMode (.string true (max 1 dollarCount))
      completeToken .openRawQuote
    else
      let _ ← advance
      pushMode (.string false (max 1 dollarCount))
      completeToken .openQuote
  else
    let _ ← advance
    completeToken .dollar

/-- A `{` inside a template opens one more level of it. -/
def enterBrace : Lex Unit := do
  let nesting ← getStacks
  match nesting.templateBraceDepths with
  | [] => pure ()
  | depth :: depths => setStacks { nesting with templateBraceDepths := (depth + 1) :: depths }

/-- A `}` closes a level; with the last one the template is done: back to the string around it. -/
def leaveBrace : Lex Unit := do
  let nesting ← getStacks
  match nesting.templateBraceDepths with
  | [] => pure ()
  | 0 :: _ => .perform .underflow
  | 1 :: depths =>
      setStacks { modeStack := nesting.modeStack.tail, templateBraceDepths := depths }
  | (depth + 2) :: depths =>
      setStacks { nesting with templateBraceDepths := (depth + 1) :: depths }

def handleLeftBrace : Lex Unit := do
  let _ ← advance
  enterBrace
  completeToken .lBrace

def handleRightBrace : Lex Unit := do
  let _ ← advance
  completeToken .rBrace
  leaveBrace

/-- The tokens of one character, and the characters nothing recognizes. -/
def handleOther : Lex Unit := do
  let c ← advance
  if c = '(' then completeToken .lParen
  else if c = ')' then completeToken .rParen
  else if c = '[' then completeToken .lBracket
  else if c = ']' then completeToken .rBracket
  else if c = ',' then completeToken .comma
  else if c = ';' then completeToken .semicolon
  else if c = '$' then completeToken .dollar
  else if c = '@' then completeToken .at_
  else reportError (.unexpectedChar c)

/-- The handler of the character `c` in the default mode. -/
def dispatchDefault (U : UnicodeTables) (c : Char) : Lex Unit :=
  if c = '{' then handleLeftBrace
  else if c = '}' then handleRightBrace
  else if c = '$' || c = '"' then handleDollarOrQuote
  else if c = '\'' then handleCharLiteral
  else if c = '+' then handlePlus
  else if c = '-' then handleMinus
  else if c = '*' then handleStar
  else if c = '/' then handleSlash
  else if c = '%' then handleModulo
  else if c = '`' then handleBacktickIdentifier
  else if c = ':' then handleColon
  else if c = '?' then handleQuestion
  else if c = '!' then handleBang U
  else if c = '<' then handleLess
  else if c = '>' then handleGreater
  else if c = '=' then handleEqual
  else if c = '&' then handleAnd
  else if c = '|' then handleOr
  else if c = '.' then handleDot
  else if U.isNumeric c then handleNumber
  else if isKotlinNewline c then handleNewline
  else if c = ' ' || c = '\t' || c = '\x0c' then handleHorizontalWhitespace
  else if isKotlinIdentifierStart U c then handleIdentifier U
  else handleOther

def scanDefaultMode (U : UnicodeTables) : Lex Unit := do
  dispatchDefault U (← peek)

/-- Whether a template starts at the cursor, and the character after its dollars. -/
def templateAhead (dollarDepth : Nat) : Lex (Option Char) := do
  if ← dollarsAhead dollarDepth 0 then
    return some (← peekN dollarDepth)
  else
    return none

/-- One character of standard string text, unless a quote, an escape, the line end or a template
comes first. -/
def stringTextRound (U : UnicodeTables) (isRaw : Bool) (dollarDepth : Nat) (consumedText : Bool) :
    Lex (Bool ⊕ Bool) := do
  if ← isAtEnd then
    return .inr consumedText
  else
    let next ← peek
    let afterNext ← peekNext
    let third ← peekN 2
    let hitRawEnd := isRaw && next = '"' && afterNext = '"' && third = '"'
    let hitStdEnd := !isRaw && (next = '"' || isKotlinNewline next || next = '\\')
    if hitRawEnd || hitStdEnd then
      return .inr consumedText
    else
      let template ← (if next = '$' then templateAhead dollarDepth else pure none)
      if template.any fun c => c = '{' || isKotlinIdentifierStart U c || c = '`' then
        return .inr consumedText
      else
        let _ ← advance
        return .inl true

def scanStringText (U : UnicodeTables) (isRaw : Bool) (dollarDepth : Nat) : Lex Unit := do
  let consumedText ← Prog.loop (β := Bool) (γ := Bool) (stringTextRound U isRaw dollarDepth)
    false .pure
  if consumedText then
    completeToken .stringContent

/-- Back to the default mode, until the template's last `}`. -/
def enterTemplate : Lex Unit := do
  let nesting ← getStacks
  setStacks { modeStack := .default :: nesting.modeStack,
              templateBraceDepths := 1 :: nesting.templateBraceDepths }

/-- `${`, in any number of dollars. -/
def openTemplateExpr (dollarDepth : Nat) : Lex Unit := do
  advanceTimes dollarDepth
  let _ ← advance
  completeToken .templateExprStart
  enterTemplate

/-- `$name`: two tokens in one go. -/
def shortTemplate (U : UnicodeTables) (dollarDepth : Nat) : Lex Unit := do
  advanceTimes dollarDepth
  completeToken .templateShortStart
  newToken
  if (← peek) = '`' then
    handleBacktickIdentifier
  else
    advanceWhile (isKotlinIdentifierPart U)
    completeToken .identifier

/-- Quotes that stay content. -/
def quoteContent (extra : Nat) : Lex Unit := do
  advanceTimes extra
  if extra > 0 then
    completeToken .stringContent

/-- A run of three or more quotes closes a raw string; the quotes before the last three stay
content. -/
def closeRawString (run : Nat) : Lex Unit := do
  quoteContent (run - 3)
  newToken
  advanceTimes 3
  popMode
  completeToken .closeRawQuote

/-- Everything of a string token after the closing quotes have been ruled out. -/
def scanStringBody (U : UnicodeTables) (isRaw : Bool) (dollarDepth : Nat) (c : Char) :
    Lex Unit := do
  if !isRaw && c = '\\' then
    consumeEscapeSequence
    completeToken .escapeSequence
  else
    let template ← (if c = '$' then templateAhead dollarDepth else pure none)
    match template with
    | none => scanStringText U isRaw dollarDepth
    | some charAfter =>
        if charAfter = '{' then
          openTemplateExpr dollarDepth
        else if isKotlinIdentifierStart U charAfter || charAfter = '`' then
          shortTemplate U dollarDepth
        else
          scanStringText U isRaw dollarDepth

def scanStringMode (U : UnicodeTables) (isRaw : Bool) (dollarDepth : Nat) : Lex Unit := do
  if ← isAtEnd then
    reportError .unterminatedString
    popMode
  else
    let c ← peek
    if isRaw then
      let run ← countRun '"'
      if run ≥ 3 then
        closeRawString run
      else
        scanStringBody U isRaw dollarDepth c
    else if c = '"' then
      let _ ← advance
      popMode
      completeToken .closeQuote
    else if isKotlinNewline c then
      reportError .unterminatedString
      popMode
    else
      scanStringBody U isRaw dollarDepth c

def scanMode (U : UnicodeTables) : LexerMode → Lex Unit
  | .default => scanDefaultMode U
  | .string isRaw dollarDepth => scanStringMode U isRaw dollarDepth

/-- A string that is open at the end of the input is reported and closed. -/
def closeStringAtEnd : Lex Unit := do
  if ← isAtEnd then
    let nesting ← getStacks
    match nesting.modeStack with
    | .string _ _ :: _ =>
        reportError .unterminatedString
        popMode
    | _ => pure ()

def scanNextToken (U : UnicodeTables) : Lex Unit := do
  newToken
  let nesting ← getStacks
  scanMode U (nesting.modeStack.headD .default)
  closeStringAtEnd

def scanShebang : Lex Unit := do
  if (← peek) = '#' && (← peekNext) = '!' then
    newToken
    advanceWhile fun c => !isKotlinNewline c
    completeToken .shebangLine

/-- Everything before the scanning loop: the byte-order mark and the shebang line. -/
def scanPrologue : Lex Unit := do
  if (← peek) = '\uFEFF' then
    let _ ← advance
  scanShebang

/-- The scanning loop. -/
def scanLoop (U : UnicodeTables) : Lex Unit :=
  Prog.whileDo (do return !(← isAtEnd)) (scanNextToken U)

def scanTokens (U : UnicodeTables) : Lex Unit := do
  scanPrologue
  scanLoop U
  completeEof

/-- `lex source` with the given fuel: the tokens and the errors. -/
def lex (U : UnicodeTables) (fuel : Nat) (source : Text) :
    Option (List Token × List LexicalError) :=
  match (scanTokens U).run machine fuel (.new source) with
  | .done _ l => some (l.tokens, l.errors)
  | _ => none

end CaffeineLs.KotlinSyntax
