/-
Module: CaffeineLs.JavaSyntax.Lexer
Purpose: The Java lexer: its identifier predicates, its template stack and every handler, as
  programs over the lexer's primitive operations.
Trusted boundary: the character tables are a parameter
Main exports: Token, Lexer, LexOp
-/
import CaffeineLs.JavaSyntax.Reader
import CaffeineLs.JavaSyntax.SyntaxKind
import CaffeineLs.Lib.Program

namespace CaffeineLs.JavaSyntax

open Imperative
open SourceText

/-! ### Identifier predicates -/

def isJavaIdentifierStart (U : UnicodeTables) (c : Char) : Bool :=
  match U.generalCategory c with
  | .uppercaseLetter | .lowercaseLetter | .titlecaseLetter | .modifierLetter | .otherLetter
  | .letterNumber | .currencySymbol | .connectorPunctuation => true
  | _ => false

def isJavaIdentifierIgnorable (U : UnicodeTables) (c : Char) : Bool :=
  (c.toNat ≤ 0x08) || (0x0E ≤ c.toNat && c.toNat ≤ 0x1B) || (0x7F ≤ c.toNat && c.toNat ≤ 0x9F) ||
    U.generalCategory c = .format

def isJavaIdentifierPart (U : UnicodeTables) (c : Char) : Bool :=
  isJavaIdentifierStart U c ||
    (match U.generalCategory c with
      | .decimalNumber | .spacingMark | .nonspacingMark | .format => true
      | _ => false) ||
    isJavaIdentifierIgnorable U c

def isJavaWhitespace (c : Char) : Bool :=
  c = ' ' || c = '\t' || c = '\x0c' || c = '\n' || c = '\r'

/-- `char::is_digit`, for the bases in use. -/
def isDigit (c : Char) (base : Nat) : Bool := isAsciiHexdigit c && hexValue c < base

/-- `char::to_ascii_lowercase`. -/
def toAsciiLowercase (c : Char) : Char :=
  if 'A' ≤ c && c ≤ 'Z' then Char.ofNat (c.toNat + 32) else c

/-! ### Lexer state and primitive operations -/

structure Token where
  kind : SyntaxKind
  lexeme : Text
  offset : Nat
deriving DecidableEq

def Token.new (kind : SyntaxKind) (lexeme : Text) (offset : Nat) : Token :=
  { kind := kind, lexeme := lexeme, offset := u32 offset }

inductive LexicalErrorKind where
  | unexpectedChar (c : Char) | unterminatedString | unterminatedComment | invalidChar
  | illegalTextBlockOpen | unterminatedTextBlock | invalidNumber | invalidUnicodeEscape
  | unterminatedChar | invalidEscapeSequence | unterminatedTemplate
deriving Repr, DecidableEq

structure LexicalError where
  kind : LexicalErrorKind
  first : Nat
  last : Nat
deriving Repr, DecidableEq

inductive LexerMode where
  | normal
  | templateExpression
deriving Repr, DecidableEq

inductive TemplateKind where
  | string
  | textBlock
deriving Repr, DecidableEq

namespace TemplateKind

def beginToken : TemplateKind → SyntaxKind
  | .string => .stringTemplateBegin
  | .textBlock => .textBlockTemplateBegin

def midToken : TemplateKind → SyntaxKind
  | .string => .stringTemplateMid
  | .textBlock => .textBlockTemplateMid

def endToken : TemplateKind → SyntaxKind
  | .string => .stringTemplateEnd
  | .textBlock => .textBlockTemplateEnd

def literalToken : TemplateKind → SyntaxKind
  | .string => .stringLiteral
  | .textBlock => .textBlock

def allowsNewline : TemplateKind → Bool
  | .string => false
  | .textBlock => true

end TemplateKind

structure TemplateContext where
  kind : TemplateKind
  braceDepth : Nat
deriving Repr, DecidableEq

inductive TemplateChunkRole where
  | fullLiteral
  | continuation
deriving Repr, DecidableEq

/-- The lexer's mode and its template stack, innermost template first. -/
structure Templates where
  mode : LexerMode
  templateStack : List TemplateContext
deriving Repr, DecidableEq

structure Lexer where
  reader : SourceReader
  tokens : List Token
  errors : List LexicalError
  templates : Templates
deriving DecidableEq

/-- The texts matched byte by byte, escapes not interpreted. -/
inductive RawText where
  | equal
  | ellipsis
  | quotes
  | commentEnd
deriving DecidableEq

def RawText.text : RawText → Text
  | .equal => ['=']
  | .ellipsis => ['.', '.', '.']
  | .quotes => ['"', '"']
  | .commentEnd => ['*', '/']

namespace Lexer

def new (source : Text) : Lexer :=
  { reader := .new source, tokens := [], errors := [],
    templates := { mode := .normal, templateStack := [] } }

def completeToken (l : Lexer) (tokenType : SyntaxKind) : Except Panic Lexer := do
  let lexeme ← l.reader.currentTokenLexemeRaw
  return { l with tokens := l.tokens ++ [Token.new tokenType lexeme l.reader.start] }

def completeEof (l : Lexer) : Lexer :=
  { l with tokens := l.tokens ++ [Token.new .eof [] l.reader.current] }

def reportError (l : Lexer) (errorType : LexicalErrorKind) : Except Panic Lexer :=
  if u32 l.reader.start ≤ u32 l.reader.current then
    .ok { l with errors := l.errors ++
      [{ kind := errorType, first := u32 l.reader.start, last := u32 l.reader.current }] }
  else
    .error .badRange

/-- The reader's escape errors join the lexer's own. -/
def collectEscapeErrors (l : Lexer) : Lexer :=
  { l with errors := l.errors ++ l.reader.errors.map fun e =>
      { kind := .invalidUnicodeEscape, first := e.first, last := e.last } }

end Lexer

/-- What a handler may do to the lexer. -/
inductive LexOp : Type → Type where
  | peekN (n : Nat) : LexOp Char
  | advance : LexOp Char
  | advanceIfMatches (expected : Char) : LexOp Bool
  | advanceIfMatchesStr (expected : RawText) : LexOp Bool
  | isAtEnd : LexOp Bool
  | newToken : LexOp Unit
  | currentTokenLexeme : LexOp Text
  | completeToken (tokenType : SyntaxKind) : LexOp Unit
  | completeEof : LexOp Unit
  | reportError (errorType : LexicalErrorKind) : LexOp Unit
  | collectEscapeErrors : LexOp Unit
  | getTemplates : LexOp Templates
  | setTemplates (templates : Templates) : LexOp Unit

/-- The lexer has no recursive routine. -/
inductive NoFn : Type → Type

def LexOp.exec : {β : Type} → LexOp β → Lexer → Except Panic (β × Lexer)
  | _, .peekN n, l => do
      let c ← l.reader.peekN n
      return (c, l)
  | _, .advance, l => do
      let (c, reader) ← l.reader.advance
      return (c, { l with reader := reader })
  | _, .advanceIfMatches expected, l => do
      let (matched, reader) ← l.reader.advanceIfMatches expected
      return (matched, { l with reader := reader })
  | _, .advanceIfMatchesStr expected, l => do
      let (matched, reader) ← l.reader.advanceIfMatchesStr expected.text
      return (matched, { l with reader := reader })
  | _, .isAtEnd, l => .ok (l.reader.isAtEnd, l)
  | _, .newToken, l => .ok ((), { l with reader := l.reader.newToken })
  | _, .currentTokenLexeme, l => do
      let lexeme ← l.reader.currentTokenLexeme
      return (lexeme, l)
  | _, .completeToken tokenType, l => do
      let l' ← l.completeToken tokenType
      return ((), l')
  | _, .completeEof, l => .ok ((), l.completeEof)
  | _, .reportError errorType, l => do
      let l' ← l.reportError errorType
      return ((), l')
  | _, .collectEscapeErrors, l => .ok ((), l.collectEscapeErrors)
  | _, .getTemplates, l => .ok (l.templates, l)
  | _, .setTemplates templates, l => .ok ((), { l with templates := templates })

def machine : Machine LexOp NoFn Panic Lexer where
  exec := LexOp.exec
  body f := nomatch f

abbrev Lex := Prog LexOp NoFn

def peekN (n : Nat) : Lex Char := .perform (.peekN n)
def peek : Lex Char := peekN 0
def peekNext : Lex Char := peekN 1
def advance : Lex Char := .perform .advance
def advanceIfMatches (expected : Char) : Lex Bool := .perform (.advanceIfMatches expected)
def advanceIfMatchesStr (expected : RawText) : Lex Bool :=
  .perform (.advanceIfMatchesStr expected)
def isAtEnd : Lex Bool := .perform .isAtEnd
def newToken : Lex Unit := .perform .newToken
def currentTokenLexeme : Lex Text := .perform .currentTokenLexeme
def completeToken (tokenType : SyntaxKind) : Lex Unit := .perform (.completeToken tokenType)
def completeEof : Lex Unit := .perform .completeEof
def reportError (errorType : LexicalErrorKind) : Lex Unit := .perform (.reportError errorType)
def collectEscapeErrors : Lex Unit := .perform .collectEscapeErrors
def getTemplates : Lex Templates := .perform .getTemplates
def setTemplates (templates : Templates) : Lex Unit := .perform (.setTemplates templates)

def setMode (mode : LexerMode) : Lex Unit := do
  let templates ← getTemplates
  setTemplates { templates with mode := mode }

/-- `while p(reader.peek()) { reader.advance(); }`. -/
def advanceWhile (p : Char → Bool) : Lex Unit :=
  Prog.whileDo (do return p (← peek)) do
    let _ ← advance

/-- `while !reader.is_at_end() && p(reader.peek()) { reader.advance(); }`. -/
def advanceWhileMore (p : Char → Bool) : Lex Unit :=
  Prog.whileDo
    (do
      if ← isAtEnd then
        return false
      else
        return p (← peek))
    do
      let _ ← advance

/-! ### Handlers -/

def handleWhitespace : Lex Unit := do
  advanceWhile isJavaWhitespace
  completeToken .whitespace

def handleLeftBrace : Lex Unit := do
  let templates ← getTemplates
  match templates.mode, templates.templateStack with
  | .templateExpression, ctx :: outer =>
      setTemplates { templates with
        templateStack := { ctx with braceDepth := ctx.braceDepth + 1 } :: outer }
  | _, _ => pure ()
  let _ ← advance
  completeToken .lBrace

/-- The base of a number, from its prefix. -/
def numberBase : Lex Nat := do
  if (← peek) = '0' then
    let next ← peekNext
    if next = 'x' || next = 'X' then
      let _ ← advance
      let _ ← advance
      return 16
    else if next = 'b' || next = 'B' then
      let _ ← advance
      let _ ← advance
      return 2
    else if next = '_' || isAsciiDigit next then
      let _ ← advance
      return 8
    else
      return 10
  else
    return 10

/-- One character of the integer part. The round carries whether a digit was out of an octal
number's range, and whether the last character was an underscore. -/
def integerRound (U : UnicodeTables) (numBase consumeBase : Nat) :
    Bool × Bool → Lex ((Bool × Bool) ⊕ (Bool × Bool))
  | (hasInvalidOctalDigit, lastWasUnderscore) => do
      let c ← peek
      if U.isNumeric c || isDigit c consumeBase then
        let invalid ←
          if !isDigit c numBase then
            if numBase = 8 && isAsciiDigit c then
              pure true
            else do
              reportError .invalidNumber
              pure hasInvalidOctalDigit
          else
            pure hasInvalidOctalDigit
        let _ ← advance
        return .inl (invalid, false)
      else if c = '_' then
        let _ ← advance
        return .inl (hasInvalidOctalDigit, true)
      else
        return .inr (hasInvalidOctalDigit, lastWasUnderscore)

/-- One character of a fraction or an exponent. The round carries whether there was a digit, and
whether the last character was an underscore. -/
def digitRound (p : Char → Bool) : Bool × Bool → Lex ((Bool × Bool) ⊕ (Bool × Bool))
  | (hasDigits, lastWasUnderscore) => do
      let c ← peek
      if p c then
        let _ ← advance
        return .inl (true, false)
      else if c = '_' then
        let _ ← advance
        return .inl (hasDigits, true)
      else
        return .inr (hasDigits, lastWasUnderscore)

def reportIf (wrong : Bool) (errorType : LexicalErrorKind) : Lex Unit := do
  if wrong then
    reportError errorType

/-- The fractional part, if there is one. -/
def handleFraction (consumeBase : Nat) : Lex Bool := do
  if (← peek) = '.' then
    let _ ← advance
    reportIf ((← peek) = '_') .invalidNumber
    let (_, lastWasUnderscore) ← .loop (digitRound fun c => isDigit c consumeBase) (false, false) .pure
    reportIf lastWasUnderscore .invalidNumber
    return true
  else
    return false

/-- The exponent, if there is one. -/
def handleExponent (numBase : Nat) : Lex Bool := do
  let c ← peek
  let isDecExp := numBase ≠ 16 && toAsciiLowercase c = 'e'
  let isHexExp := numBase = 16 && toAsciiLowercase c = 'p'
  if isDecExp || isHexExp then
    let _ ← advance
    let sign ← peek
    if sign = '+' || sign = '-' then
      let _ ← advance
    reportIf ((← peek) = '_') .invalidNumber
    let (hasExpDigits, lastWasUnderscore) ← .loop (digitRound isAsciiDigit) (false, false) .pure
    reportIf (!hasExpDigits || lastWasUnderscore) .invalidNumber
    return true
  else
    return false

/-- The type suffix, if there is one: whether it makes the number a float. -/
def handleSuffix : Lex Bool := do
  let suffix := toAsciiLowercase (← peek)
  if suffix = 'l' || suffix = 'f' || suffix = 'd' then
    let _ ← advance
    return suffix = 'f' || suffix = 'd'
  else
    return false

def handleNumber (U : UnicodeTables) : Lex Unit := do
  let numBase ← numberBase
  let consumeBase := if numBase = 8 then 10 else numBase
  let (hasInvalidOctalDigit, lastWasUnderscore) ←
    .loop (integerRound U numBase consumeBase) (false, false) .pure
  reportIf lastWasUnderscore .invalidNumber
  let isFraction ← handleFraction consumeBase
  let isExponent ← handleExponent numBase
  let isFloatSuffix ← handleSuffix
  let isFloat := isFraction || isExponent || isFloatSuffix
  reportIf (numBase = 8 && hasInvalidOctalDigit && !isFloat) .invalidNumber
  completeToken (if isFloat then .floatLiteral else .integerLiteral)

def handleDot (U : UnicodeTables) : Lex Unit := do
  if U.isNumeric (← peekNext) then
    handleNumber U
  else if ← advanceIfMatchesStr .ellipsis then
    completeToken .ellipsis
  else
    let _ ← advance
    completeToken .dot

/-- The longest operator that starts with the consumed character: the first of the listed
continuations that matches, or the character alone. -/
def handleOperator : List (Char × SyntaxKind) → SyntaxKind → Lex Unit
  | [], alone => completeToken alone
  | (expected, tokenType) :: others, alone => do
      if ← advanceIfMatches expected then
        completeToken tokenType
      else
        handleOperator others alone

def handleColon : Lex Unit := handleOperator [(':', .colonColon)] .colon

def handleMod : Lex Unit := handleOperator [('=', .moduloEqual)] .modulo

def handleBang : Lex Unit := handleOperator [('=', .notEqual)] .not

def handleOr : Lex Unit := handleOperator [('|', .or), ('=', .orEqual)] .bitOr

def handleAnd : Lex Unit := handleOperator [('&', .and), ('=', .andEqual)] .bitAnd

def handleStar : Lex Unit := handleOperator [('=', .multipleEqual)] .star

def handlePlus : Lex Unit := handleOperator [('=', .plusEqual), ('+', .plusPlus)] .plus

def handleCaret : Lex Unit := handleOperator [('=', .xorEqual)] .caret

def handleMinus : Lex Unit :=
  handleOperator [('=', .minusEqual), ('-', .minusMinus), ('>', .arrow)] .minus

def handleLess : Lex Unit := do
  if ← advanceIfMatches '=' then
    completeToken .lessEqual
  else if ← advanceIfMatches '<' then
    handleOperator [('=', .leftShiftEqual)] .leftShift
  else
    completeToken .less

def handleGreater : Lex Unit := do
  if ← advanceIfMatches '=' then
    completeToken .greaterEqual
  else if ← advanceIfMatches '>' then
    if ← advanceIfMatches '>' then
      handleOperator [('=', .unsignedRightShiftEqual)] .unsignedRightShift
    else
      handleOperator [('=', .rightShiftEqual)] .rightShift
  else
    completeToken .greater

/-- Unlike the other operators, the second `=` is matched in the raw text. -/
def handleEq : Lex Unit := do
  if ← advanceIfMatchesStr .equal then
    completeToken .equalEqual
  else
    completeToken .equal

/-- One character of a block comment, or its end. -/
def commentRound (_ : Unit) : Lex (Unit ⊕ Bool) := do
  if ← isAtEnd then
    return .inr false
  else if ← advanceIfMatchesStr .commentEnd then
    return .inr true
  else
    let _ ← advance
    return .inl ()

def handleSlash : Lex Unit := do
  if ← advanceIfMatches '/' then
    let tokenType := if ← advanceIfMatches '/' then SyntaxKind.javadocLine else .lineComment
    Prog.whileDo
      (do
        let c ← peek
        if c ≠ '\n' && c ≠ '\r' then
          return !(← isAtEnd)
        else
          return false)
      (do
        let _ ← advance)
    completeToken tokenType
  else if ← advanceIfMatches '*' then
    let isJavadoc ←
      if (← peek) = '*' then do
        pure ((← peekNext) ≠ '/' : Bool)
      else
        pure false
    let hasTerminated ← .loop commentRound () .pure
    reportIf (!hasTerminated) .unterminatedComment
    completeToken (if isJavadoc then .javadoc else .blockComment)
  else
    handleOperator [('=', .divideEqual)] .slash

/-- Keywords, literals that look like keywords, and the underscore. -/
def identifierKind (text : String) : SyntaxKind :=
  match text with
  | "package" => .packageKw
  | "import" => .importKw
  | "class" => .classKw
  | "enum" => .enumKw
  | "interface" => .interfaceKw
  | "public" => .publicKw
  | "private" => .privateKw
  | "final" => .finalKw
  | "static" => .staticKw
  | "protected" => .protectedKw
  | "abstract" => .abstractKw
  | "for" => .forKw
  | "while" => .whileKw
  | "continue" => .continueKw
  | "break" => .breakKw
  | "instanceof" => .instanceofKw
  | "return" => .returnKw
  | "transient" => .transientKw
  | "extends" => .extendsKw
  | "implements" => .implementsKw
  | "new" => .newKw
  | "assert" => .assertKw
  | "switch" => .switchKw
  | "case" => .caseKw
  | "default" => .defaultKw
  | "synchronized" => .synchronizedKw
  | "do" => .doKw
  | "if" => .ifKw
  | "else" => .elseKw
  | "this" => .thisKw
  | "super" => .superKw
  | "volatile" => .volatileKw
  | "native" => .nativeKw
  | "throw" => .throwKw
  | "throws" => .throwsKw
  | "try" => .tryKw
  | "catch" => .catchKw
  | "finally" => .finallyKw
  | "strictfp" => .strictfpKw
  | "void" => .voidKw
  | "double" => .doubleKw
  | "int" => .intKw
  | "short" => .shortKw
  | "long" => .longKw
  | "float" => .floatKw
  | "char" => .charKw
  | "boolean" => .booleanKw
  | "byte" => .byteKw
  | "null" => .nullLiteral
  | "true" => .trueLiteral
  | "false" => .falseLiteral
  | "goto" => .gotoKw
  | "const" => .constKw
  | "_" => .underscore
  | _ => .identifier

def handleIdentifier (U : UnicodeTables) : Lex Unit := do
  advanceWhileMore (isJavaIdentifierPart U)
  let text ← currentTokenLexeme
  completeToken (identifierKind (String.ofList text))

/-- The characters that may follow a backslash. -/
def isSimpleEscape (c : Char) : Bool := ['b', 't', 'n', 'f', 'r', 's', '"', '\'', '\\'].contains c

def isOctalDigit (c : Char) : Bool := '0' ≤ c && c ≤ '7'

def isNewline (c : Char) : Bool := c = '\n' || c = '\r'

def consumeEscapeSequence (isTextBlock : Bool) : Lex Bool := do
  let _ ← advance
  if ← isAtEnd then
    return false
  else
    let c ← peek
    if isSimpleEscape c then
      let _ ← advance
      return true
    else if isTextBlock && isNewline c then
      let _ ← advance
      return true
    else if isOctalDigit c then
      let firstDigit ← advance
      if isOctalDigit (← peek) then
        let _ ← advance
        if firstDigit ≤ '3' then
          if isOctalDigit (← peek) then
            let _ ← advance
      return true
    else
      let _ ← advance
      return false

/-- `char::len_utf16`. -/
def lenUtf16 (c : Char) : Nat := if c.toNat < 0x10000 then 1 else 2

/-- One character of a character literal. The round carries the length so far and whether an
escape was wrong; a line end leaves without a value. -/
def charRound : Nat × Bool → Lex ((Nat × Bool) ⊕ Option (Nat × Bool))
  | (logicalCharCount, hasError) => do
      if ← isAtEnd then
        return .inr (some (logicalCharCount, hasError))
      else
        let c ← peek
        if c = '\'' then
          return .inr (some (logicalCharCount, hasError))
        else if isNewline c then
          reportError .unterminatedChar
          return .inr none
        else if c = '\\' then
          if ← consumeEscapeSequence false then
            return .inl (logicalCharCount + lenUtf16 c, hasError)
          else
            reportError .invalidEscapeSequence
            return .inl (logicalCharCount + lenUtf16 c, true)
        else
          let _ ← advance
          return .inl (logicalCharCount + lenUtf16 c, hasError)

/-- An unterminated literal is reported and gets no token. -/
def handleCharLiteral : Lex Unit := do
  match ← Prog.loop charRound (0, false) .pure with
  | none => pure ()
  | some (logicalCharCount, hasError) =>
      if ← isAtEnd then
        reportError .unterminatedChar
      else
        let _ ← advance
        reportIf (!hasError && logicalCharCount ≠ 1) .invalidChar
        completeToken .charLiteral

def isTemplateClose : TemplateKind → Lex Bool
  | .string => do return (← peek) = '"'
  | .textBlock => do
      if (← peek) = '"' then
        if (← peekNext) = '"' then
          return (← peekN 2) = '"'
        else
          return false
      else
        return false

def consumeTemplateClose : TemplateKind → Lex Unit
  | .string => do
      let _ ← advance
  | .textBlock => do
      let _ ← advance
      let _ ← advance
      let _ ← advance

def emitQuotedTerminalToken (kind : TemplateKind) : TemplateChunkRole → Lex Unit
  | .fullLiteral => completeToken kind.literalToken
  | .continuation => do
      let templates ← getTemplates
      if templates.templateStack.isEmpty then
        setMode .normal
      completeToken kind.endToken

def emitTemplateOpenToken (kind : TemplateKind) : TemplateChunkRole → Lex Unit
  | .fullLiteral => completeToken kind.beginToken
  | .continuation => completeToken kind.midToken

/-- An embedded expression starts. -/
def openTemplate (kind : TemplateKind) (role : TemplateChunkRole) : Lex Unit := do
  let _ ← advance
  let _ ← advance
  emitTemplateOpenToken kind role
  let templates ← getTemplates
  setTemplates { mode := .templateExpression,
                 templateStack := { kind := kind, braceDepth := 0 } :: templates.templateStack }

/-- A line end inside a string. -/
def reportLineEnd : TemplateChunkRole → Lex Unit
  | .fullLiteral => reportError .unterminatedString
  | .continuation => do
      reportError .unterminatedTemplate
      setMode .normal

/-- One character of quoted content; a round leaves with whether the input ended. -/
def quotedRound (kind : TemplateKind) (role : TemplateChunkRole) (_ : Unit) :
    Lex (Unit ⊕ Bool) := do
  if ← isAtEnd then
    return .inr true
  else if ← isTemplateClose kind then
    consumeTemplateClose kind
    emitQuotedTerminalToken kind role
    return .inr false
  else
    let c ← peek
    if !kind.allowsNewline && isNewline c then
      reportLineEnd role
      return .inr false
    else if c = '\\' then
      if (← peekNext) = '{' then
        openTemplate kind role
        return .inr false
      else
        let isValid ← consumeEscapeSequence (kind = .textBlock)
        reportIf (!isValid) .invalidEscapeSequence
        return .inl ()
    else
      let _ ← advance
      return .inl ()

/-- The input ends inside quoted content. -/
def reportUnterminated : TemplateKind → TemplateChunkRole → Lex Unit
  | .string, .fullLiteral => reportError .unterminatedString
  | .textBlock, .fullLiteral => reportError .unterminatedTextBlock
  | _, .continuation => do
      reportError .unterminatedTemplate
      setMode .normal

/-- The rest of the line after the opening delimiter of a text block. -/
def scanTextBlockOpen : Lex Unit := do
  advanceWhile fun c => c = ' ' || c = '\t' || c = '\x0c'
  let nextChar ← peek
  reportIf (!isNewline nextChar) .illegalTextBlockOpen

/-- Quoted content that does not close is reported and gets no token. -/
def scanQuotedContent (kind : TemplateKind) (role : TemplateChunkRole) : Lex Unit := do
  if kind = .textBlock && role = .fullLiteral then
    scanTextBlockOpen
  if ← .loop (quotedRound kind role) () .pure then
    reportUnterminated kind role

def resumeTemplateAfterExpression (kind : TemplateKind) : Lex Unit :=
  scanQuotedContent kind .continuation

def handleRightBrace : Lex Unit := do
  let templates ← getTemplates
  match templates.mode, templates.templateStack with
  | .normal, _ =>
      let _ ← advance
      completeToken .rBrace
  | .templateExpression, [] =>
      setMode .normal
      let _ ← advance
      completeToken .rBrace
  | .templateExpression, ctx :: outer =>
      if ctx.braceDepth > 0 then
        setTemplates { templates with
          templateStack := { ctx with braceDepth := ctx.braceDepth - 1 } :: outer }
        let _ ← advance
        completeToken .rBrace
      else
        let _ ← advance
        setTemplates { templates with templateStack := outer }
        resumeTemplateAfterExpression ctx.kind

def handleQuote : Lex Unit := do
  if ← advanceIfMatchesStr .quotes then
    scanQuotedContent .textBlock .fullLiteral
  else
    scanQuotedContent .string .fullLiteral

/-- A SUB character gets no token. -/
def handleSub : Lex Unit := do
  if !(← isAtEnd) then
    reportError (.unexpectedChar '\x1a')

/-- The handler of a consumed character. -/
def dispatchConsumed (U : UnicodeTables) (c : Char) : Lex Unit :=
  if c = '(' then completeToken .lParen
  else if c = ')' then completeToken .rParen
  else if c = '[' then completeToken .lBracket
  else if c = ']' then completeToken .rBracket
  else if c = ';' then completeToken .semicolon
  else if c = ',' then completeToken .comma
  else if c = ':' then handleColon
  else if c = '?' then completeToken .question
  else if c = '@' then completeToken .at_
  else if c = '+' then handlePlus
  else if c = '-' then handleMinus
  else if c = '*' then handleStar
  else if c = '^' then handleCaret
  else if c = '<' then handleLess
  else if c = '>' then handleGreater
  else if c = '=' then handleEq
  else if c = '\'' then handleCharLiteral
  else if c = '/' then handleSlash
  else if c = '"' then handleQuote
  else if c = '|' then handleOr
  else if c = '&' then handleAnd
  else if c = '%' then handleMod
  else if c = '!' then handleBang
  else if c = '~' then completeToken .tilde
  else if c = '\x1a' then handleSub
  else if isJavaWhitespace c then handleWhitespace
  else if isJavaIdentifierStart U c then handleIdentifier U
  else do
    completeToken .unknown
    reportError (.unexpectedChar c)

def scanTokenDispatch (U : UnicodeTables) : Lex Unit := do
  let c ← peek
  if c = '.' then
    handleDot U
  else if c = '{' then
    handleLeftBrace
  else if c = '}' then
    handleRightBrace
  else if U.isNumeric c then
    handleNumber U
  else
    dispatchConsumed U (← advance)

def scanNextToken (U : UnicodeTables) : Lex Unit := do
  newToken
  scanTokenDispatch U

/-- A byte-order mark is consumed before the first token. -/
def scanPrologue : Lex Unit := do
  if (← peek) = '\uFEFF' then
    let _ ← advance

def scanLoop (U : UnicodeTables) : Lex Unit :=
  Prog.whileDo (do return !(← isAtEnd)) (scanNextToken U)

def scanEpilogue : Lex Unit := do
  let templates ← getTemplates
  reportIf (!templates.templateStack.isEmpty) .unterminatedTemplate
  completeEof
  collectEscapeErrors

def scanTokens (U : UnicodeTables) : Lex Unit := do
  scanPrologue
  scanLoop U
  scanEpilogue

/-- `lex source` with the given fuel: the tokens and the errors. -/
def lex (U : UnicodeTables) (fuel : Nat) (source : Text) :
    Option (List Token × List LexicalError) :=
  match (scanTokens U).run machine fuel (.new source) with
  | .done _ l => some (l.tokens, l.errors)
  | _ => none

end CaffeineLs.JavaSyntax
