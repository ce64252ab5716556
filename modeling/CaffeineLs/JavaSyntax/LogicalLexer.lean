/-
Module: CaffeineLs.JavaSyntax.LogicalLexer
Purpose: The lexer's operations on a decoded source, and that the byte-level lexer is their image:
  the handlers can be read as programs over logical characters.
Trusted boundary: none
Main exports: LogicalLexer, LogicalLexer.concrete, logicalMachine
-/
import CaffeineLs.JavaSyntax.Lexer
import CaffeineLs.JavaSyntax.LogicalText
import CaffeineLs.Lib.Simulation

namespace CaffeineLs.JavaSyntax

open Imperative
open SourceText

/-- A lexer between two characters: the characters of the tokens so far, those of the current
token and those ahead. -/
structure LogicalLexer where
  before : List LogicalChar
  lexeme : List LogicalChar
  rest : List LogicalChar
  decoded : Decoded (before ++ (lexeme ++ rest))
  escapeErrors : List UnicodeEscapeError
  tokens : List Token
  errors : List LexicalError
  templates : Templates

namespace LogicalLexer

/-- The lexer at the start of a source. -/
def new (chars : List LogicalChar) (decoded : Decoded chars) : LogicalLexer :=
  { before := [], lexeme := [], rest := chars, decoded := decoded, escapeErrors := [],
    tokens := [], errors := [], templates := { mode := .normal, templateStack := [] } }

/-- Everything up to the cursor. -/
def done (t : LogicalLexer) : List LogicalChar := t.before ++ t.lexeme

def start (t : LogicalLexer) : Nat := byteLen (spelled t.before)

def current (t : LogicalLexer) : Nat := byteLen (spelled t.done)

/-- The lexer on the source that the characters spell. -/
def concrete (t : LogicalLexer) : Lexer :=
  { reader := { source := spelled (t.before ++ (t.lexeme ++ t.rest)), start := t.start,
                current := t.current, errors := t.escapeErrors },
    tokens := t.tokens, errors := t.errors, templates := t.templates }

/-- The character `n` places ahead, NUL past the end. -/
def look (rest : List LogicalChar) (n : Nat) : Char := (rest.map LogicalChar.char).getD n '\x00'

/-- The escape errors once `lc` is consumed. -/
def recordEscape (t : LogicalLexer) : LogicalChar → Except Panic (List UnicodeEscapeError)
  | .illFormed len => do
      let error ← UnicodeEscapeError.new t.current len
      return t.escapeErrors ++ [error]
  | _ => .ok t.escapeErrors

/-- Move `n` characters into the current token. -/
def move (t : LogicalLexer) (n : Nat) (escapeErrors : List UnicodeEscapeError) : LogicalLexer :=
  { t with
    lexeme := t.lexeme ++ t.rest.take n
    rest := t.rest.drop n
    decoded := by
      rw [List.append_assoc, List.take_append_drop]
      exact t.decoded
    escapeErrors := escapeErrors }

/-- Consume a character, if there is one. -/
def take (t : LogicalLexer) : Except Panic LogicalLexer :=
  match t.rest with
  | [] => .ok t
  | lc :: _ => (t.recordEscape lc).map (t.move 1)

def newToken (t : LogicalLexer) : LogicalLexer :=
  { t with
    before := t.before ++ t.lexeme
    lexeme := []
    decoded := by simpa using t.decoded }

/-- The raw text stands ahead, every character spelled as itself. -/
def isAtRaw (t : LogicalLexer) (expected : RawText) : Bool :=
  (expected.text.map LogicalChar.plain).isPrefixOf t.rest

def completeToken (t : LogicalLexer) (tokenType : SyntaxKind) : LogicalLexer :=
  { t with tokens := t.tokens ++ [Token.new tokenType (spelled t.lexeme) t.start] }

def completeEof (t : LogicalLexer) : LogicalLexer :=
  { t with tokens := t.tokens ++ [Token.new .eof [] t.current] }

def reportError (t : LogicalLexer) (errorType : LexicalErrorKind) : Except Panic LogicalLexer :=
  if u32 t.start ≤ u32 t.current then
    .ok { t with errors := t.errors ++
      [{ kind := errorType, first := u32 t.start, last := u32 t.current }] }
  else
    .error .badRange

def collectEscapeErrors (t : LogicalLexer) : LogicalLexer :=
  { t with errors := t.errors ++ t.escapeErrors.map fun e =>
      { kind := .invalidUnicodeEscape, first := e.first, last := e.last } }

def exec : {β : Type} → LexOp β → LogicalLexer → Except Panic (β × LogicalLexer)
  | _, .peekN n, t => .ok (look t.rest n, t)
  | _, .advance, t => t.take.map fun t' => (look t.rest 0, t')
  | _, .advanceIfMatches expected, t =>
      if look t.rest 0 = expected then t.take.map fun t' => (true, t') else .ok (false, t)
  | _, .advanceIfMatchesStr expected, t =>
      if t.isAtRaw expected then .ok (true, t.move expected.text.length t.escapeErrors)
      else .ok (false, t)
  | _, .isAtEnd, t => .ok (t.rest.isEmpty, t)
  | _, .newToken, t => .ok ((), t.newToken)
  | _, .currentTokenLexeme, t => (translateUnicodeEscapes (spelled t.lexeme)).map fun text => (text, t)
  | _, .completeToken tokenType, t => .ok ((), t.completeToken tokenType)
  | _, .completeEof, t => .ok ((), t.completeEof)
  | _, .reportError errorType, t => (t.reportError errorType).map fun t' => ((), t')
  | _, .collectEscapeErrors, t => .ok ((), t.collectEscapeErrors)
  | _, .getTemplates, t => .ok (t.templates, t)
  | _, .setTemplates templates, t => .ok ((), { t with templates := templates })

end LogicalLexer

def logicalMachine : Machine LexOp NoFn Panic LogicalLexer where
  exec := LogicalLexer.exec
  body f := nomatch f

/-! ### The byte-level lexer is the image -/

namespace LogicalLexer

variable (t : LogicalLexer)

theorem concrete_source : t.concrete.reader.source = spelled t.done ++ spelled t.rest := by
  simp [concrete, done]

theorem concrete_current : t.concrete.reader.current = byteLen (spelled t.done) := rfl

theorem decoded_rest : DecodedAfter (spelled t.done) t.rest := by
  have all : Decoded (t.done ++ t.rest) := by
    simpa [done] using t.decoded
  exact all.drop

theorem scan_nil (before : Text) :
    SourceReader.scanAt before (byteLen before) = .ok (.char '\x00' 0) := by
  have unit := scanCodeUnit_append before []
  rw [List.append_nil] at unit
  rw [SourceReader.scanAt, unit]
  rfl

@[simp] theorem look_nil (n : Nat) : look [] n = '\x00' := by simp [look]

@[simp] theorem look_cons_zero (lc : LogicalChar) (rest : List LogicalChar) :
    look (lc :: rest) 0 = lc.char := rfl

@[simp] theorem look_cons_succ (lc : LogicalChar) (rest : List LogicalChar) (n : Nat) :
    look (lc :: rest) (n + 1) = look rest n := by simp [look]

theorem charAfter_decoded {before : Text} {rest : List LogicalChar}
    (decoded : DecodedAfter before rest) (n : Nat) :
    SourceReader.charAfter (before ++ spelled rest) (byteLen before) n = .ok (look rest n) := by
  induction n generalizing before rest with
  | zero =>
      rw [SourceReader.charAfter]
      cases rest with
      | nil =>
          rw [spelled_nil, List.append_nil, scan_nil]
          rfl
      | cons lc rest =>
          rw [spelled_cons, decoded.1.scans]
          simp only [bind, Except.bind, pure, Except.pure, LogicalChar.scan_logicalChar,
            look_cons_zero]
  | succ n ih =>
      rw [SourceReader.charAfter]
      cases rest with
      | nil =>
          rw [spelled_nil, List.append_nil, scan_nil]
          simp [bind, Except.bind, ScanResult.logicalLen, pure, Except.pure]
      | cons lc rest =>
          have later := ih decoded.2
          have some := byteLen_pos_of_ne_nil lc.spelling_ne_nil
          rw [spelled_cons, decoded.1.scans]
          simp only [bind, Except.bind, LogicalChar.scan_logicalLen]
          rw [if_neg (by omega), ← byteLen_append, ← List.append_assoc, later, look_cons_succ]

theorem concrete_peekN (n : Nat) : t.concrete.reader.peekN n = .ok (look t.rest n) := by
  rw [SourceReader.peekN, concrete_source, concrete_current]
  exact charAfter_decoded t.decoded_rest n

theorem concrete_isAtEnd : t.concrete.reader.isAtEnd = t.rest.isEmpty := by
  rw [SourceReader.isAtEnd, concrete_source, concrete_current]
  cases rest : t.rest with
  | nil => simp
  | cons lc cs =>
      have some := byteLen_pos_of_ne_nil lc.spelling_ne_nil
      simp
      omega

theorem concrete_lexemeRaw : t.concrete.reader.currentTokenLexemeRaw = .ok (spelled t.lexeme) := by
  have sliced := slice?_append (spelled t.before) (spelled t.lexeme) (spelled t.rest)
  have current : t.concrete.reader.current =
      byteLen (spelled t.before) + byteLen (spelled t.lexeme) := by
    simp [concrete, LogicalLexer.current, done]
  have source : t.concrete.reader.source =
      spelled t.before ++ (spelled t.lexeme ++ spelled t.rest) := by
    simp [concrete]
  rw [SourceReader.currentTokenLexemeRaw, source, current]
  rw [show t.concrete.reader.start = byteLen (spelled t.before) from rfl, sliced]

/-- What the scan finds at the cursor. -/
def scan : ScanResult :=
  match t.rest with
  | [] => .char '\x00' 0
  | lc :: _ => lc.scan

theorem concrete_scanAt :
    SourceReader.scanAt t.concrete.reader.source t.concrete.reader.current = .ok t.scan := by
  rw [concrete_source, concrete_current]
  have decoded := t.decoded_rest
  cases rest : t.rest with
  | nil => simp [scan, rest, scan_nil]
  | cons lc cs =>
      rw [rest] at decoded
      simp [scan, rest, decoded.1.scans]

theorem scan_logicalChar : t.scan.logicalChar = look t.rest 0 := by
  cases rest : t.rest with
  | nil => simp [scan, rest, ScanResult.logicalChar]
  | cons lc cs => simp [scan, rest]

theorem move_reader (n : Nat) (escapeErrors : List UnicodeEscapeError) :
    (t.move n escapeErrors).concrete.reader = { t.concrete.reader with
      current := t.current + byteLen (spelled (t.rest.take n))
      errors := escapeErrors } := by
  have source : spelled (t.before ++ ((t.lexeme ++ t.rest.take n) ++ t.rest.drop n)) =
      spelled (t.before ++ (t.lexeme ++ t.rest)) := by
    rw [List.append_assoc, List.take_append_drop]
  have current : byteLen (spelled (t.before ++ (t.lexeme ++ t.rest.take n))) =
      byteLen (spelled (t.before ++ t.lexeme)) + byteLen (spelled (t.rest.take n)) := by
    rw [← List.append_assoc, spelled_append, byteLen_append]
  simp only [concrete, move, start, LogicalLexer.current, done, source, current]

/-- Stepping over the scan is consuming the character. -/
theorem concrete_skip : t.concrete.reader.skip t.scan = t.take.map fun t' => t'.concrete.reader := by
  cases rest : t.rest with
  | nil => simp [scan, take, rest, SourceReader.skip, Except.map]
  | cons lc cs =>
      have one : spelled (t.rest.take 1) = lc.spelling := by simp [rest]
      simp only [scan, take, rest]
      cases lc with
      | plain c =>
          simp only [LogicalChar.scan, SourceReader.skip, recordEscape, Except.map, move_reader, one]
          simp [LogicalChar.spelling, concrete]
      | escape c tail =>
          simp only [LogicalChar.scan, SourceReader.skip, recordEscape, Except.map, move_reader, one]
          simp [LogicalChar.spelling, concrete]
      | illFormed len =>
          have size : Char.utf8Size '\\' = 1 := by decide
          simp only [LogicalChar.scan, SourceReader.skip, recordEscape, bind, Except.bind, pure,
            Except.pure, concrete_current]
          rw [show byteLen (spelled t.done) = t.current from rfl]
          cases UnicodeEscapeError.new t.current len with
          | error e => rfl
          | ok error =>
              simp only [Except.map, move_reader, one]
              simp [LogicalChar.spelling, size, concrete]

theorem spelled_plain (text : Text) : spelled (text.map LogicalChar.plain) = text := by
  induction text with
  | nil => rfl
  | cons c cs ih => simp [LogicalChar.spelling, ih]

/-- Raw text without a backslash stands ahead exactly when its characters do, each spelled as
itself. -/
theorem isPrefixOf_spelled {text : Text} (other : '\\' ∉ text) (rest : List LogicalChar) :
    text.isPrefixOf (spelled rest) = (text.map LogicalChar.plain).isPrefixOf rest := by
  induction text generalizing rest with
  | nil => simp
  | cons c cs ih =>
      have notBackslash : c ≠ '\\' := fun same => other (by simp [same])
      have later := ih (fun inside => other (by simp [inside]))
      cases rest with
      | nil => simp
      | cons lc rest =>
          cases lc with
          | plain d =>
              by_cases same : c = d <;>
                simp [LogicalChar.spelling, List.isPrefixOf, beq_eq_decide, same, later rest]
          | escape d tail =>
              simp [LogicalChar.spelling, List.isPrefixOf, beq_eq_decide, notBackslash]
          | illFormed len =>
              simp [LogicalChar.spelling, List.isPrefixOf, beq_eq_decide, notBackslash]

theorem rawText_plain (expected : RawText) : '\\' ∉ expected.text := by
  cases expected <;> decide

theorem concrete_isAt (expected : RawText) :
    t.concrete.reader.isAt expected.text = .ok (t.isAtRaw expected) := by
  rw [SourceReader.isAt, concrete_source, concrete_current, sliceFrom?_append, isAtRaw,
    ← isPrefixOf_spelled (rawText_plain expected)]

theorem take_of_isAtRaw {t : LogicalLexer} {expected : RawText} (stands : t.isAtRaw expected = true) :
    t.rest.take expected.text.length = expected.text.map LogicalChar.plain := by
  rcases List.isPrefixOf_iff_prefix.mp stands with ⟨after, split⟩
  rw [← split]
  simp

end LogicalLexer

theorem LogicalLexer.take_eq {t : LogicalLexer} {lc : LogicalChar} {cs : List LogicalChar}
    (rest : t.rest = lc :: cs) : t.take = (t.recordEscape lc).map (t.move 1) := by
  unfold LogicalLexer.take
  split
  · rename_i none
    rw [rest] at none
    cases none
  · rename_i some
    rw [rest] at some
    cases some
    rfl

/-- Consuming a character changes nothing but the reader. -/
theorem LogicalLexer.take_cases {t t' : LogicalLexer} (taken : t.take = .ok t') :
    t'.concrete = { t.concrete with reader := t'.concrete.reader } := by
  unfold LogicalLexer.take at taken
  split at taken
  · cases taken
    rfl
  · rename_i lc _ _
    cases recorded : t.recordEscape lc with
    | error e => simp [recorded, Except.map] at taken
    | ok escapeErrors =>
        rw [recorded] at taken
        cases taken
        rfl

/-- The byte-level lexer is the image of the lexer on logical characters. -/
theorem machine_image : Image machine logicalMachine LogicalLexer.concrete where
  body f := nomatch f
  exec o t := by
    change LexOp.exec o t.concrete = (LogicalLexer.exec o t).map _
    have taken : t.concrete.reader.skip t.scan = t.take.map fun t' => t'.concrete.reader :=
      t.concrete_skip
    cases o with
    | peekN n =>
        simp only [LexOp.exec, t.concrete_peekN]
        rfl
    | advance =>
        simp only [LexOp.exec, SourceReader.advance, t.concrete_scanAt, bind, Except.bind, taken,
          t.scan_logicalChar, LogicalLexer.exec]
        cases took : t.take with
        | error e => rfl
        | ok t' => exact congrArg (fun l => Except.ok (_, l)) (LogicalLexer.take_cases took).symm
    | advanceIfMatches expected =>
        simp only [LexOp.exec, SourceReader.advanceIfMatches, t.concrete_scanAt, bind, Except.bind,
          taken, t.scan_logicalChar, LogicalLexer.exec]
        by_cases sees : LogicalLexer.look t.rest 0 = expected
        · simp only [sees, if_true]
          cases took : t.take with
          | error e => rfl
          | ok t' => exact congrArg (fun l => Except.ok (_, l)) (LogicalLexer.take_cases took).symm
        · simp only [sees, if_false]
          rfl
    | advanceIfMatchesStr expected =>
        simp only [LexOp.exec, SourceReader.advanceIfMatchesStr, t.concrete_isAt, bind, Except.bind,
          LogicalLexer.exec]
        cases stands : t.isAtRaw expected with
        | false => rfl
        | true =>
            have size : byteLen (spelled (t.rest.take expected.text.length)) =
                byteLen expected.text := by
              rw [LogicalLexer.take_of_isAtRaw stands, LogicalLexer.spelled_plain]
            have moved := t.move_reader expected.text.length t.escapeErrors
            rw [size] at moved
            exact congrArg (fun r => Except.ok (true, { t.concrete with reader := r })) moved.symm
    | isAtEnd =>
        simp only [LexOp.exec, t.concrete_isAtEnd]
        rfl
    | newToken =>
        have fresh : t.newToken.concrete = { t.concrete with reader := t.concrete.reader.newToken } := by
          simp [LogicalLexer.newToken, LogicalLexer.concrete, LogicalLexer.start,
            LogicalLexer.current, LogicalLexer.done, SourceReader.newToken]
        exact congrArg (fun l => Except.ok ((), l)) fresh.symm
    | currentTokenLexeme =>
        simp only [LexOp.exec, SourceReader.currentTokenLexeme, t.concrete_lexemeRaw, bind,
          Except.bind, LogicalLexer.exec]
        cases translateUnicodeEscapes (spelled t.lexeme) <;> rfl
    | completeToken tokenType =>
        simp only [LexOp.exec, Lexer.completeToken, t.concrete_lexemeRaw, bind, Except.bind]
        rfl
    | completeEof => rfl
    | reportError errorType =>
        simp only [LexOp.exec, Lexer.reportError, LogicalLexer.exec, LogicalLexer.reportError,
          t.concrete_current, show t.concrete.reader.start = t.start from rfl]
        change _ = Except.map _ (Except.map _ (if u32 t.start ≤ u32 t.current then _ else _))
        rw [show byteLen (spelled t.done) = t.current from rfl]
        split <;> rfl
    | collectEscapeErrors => rfl
    | getTemplates => rfl
    | setTemplates templates => rfl

/-- What an operation can do to the lexer. -/
inductive LogicalLexer.Acts (t : LogicalLexer) : LogicalLexer → Prop where
  | stays : Acts t t
  | reads {lc : LogicalChar} {cs : List LogicalChar} {escapeErrors : List UnicodeEscapeError}
      (rest : t.rest = lc :: cs) (records : t.recordEscape lc = .ok escapeErrors) :
      Acts t (t.move 1 escapeErrors)
  | matched {expected : RawText} (stands : t.isAtRaw expected = true) :
      Acts t (t.move expected.text.length t.escapeErrors)
  | begins : Acts t t.newToken
  | emits (token : Token) : Acts t { t with tokens := t.tokens ++ [token] }
  | reports (new : List LexicalError) : Acts t { t with errors := t.errors ++ new }
  | switches (templates : Templates) : Acts t { t with templates := templates }

theorem LogicalLexer.Acts.of_take {t t' : LogicalLexer} (taken : t.take = .ok t') : t.Acts t' := by
  unfold LogicalLexer.take at taken
  split at taken
  · cases taken
    exact .stays
  · rename_i lc cs rest
    cases records : t.recordEscape lc with
    | error e => simp [records, Except.map] at taken
    | ok escapeErrors =>
        rw [records] at taken
        cases taken
        exact .reads rest records

/-- Every operation of the lexer is one of these acts. -/
theorem LogicalLexer.acts_of_exec {t t' : LogicalLexer} {β : Type} {o : LexOp β} {b : β}
    (steps : logicalMachine.exec o t = .ok (b, t')) : t.Acts t' := by
  change LogicalLexer.exec o t = .ok (b, t') at steps
  have taking : ∀ {a : β}, (t.take.map fun t' => (a, t')) = .ok (b, t') → t.Acts t' := by
    intro a takes
    cases taken : t.take with
    | error e => simp [taken, Except.map] at takes
    | ok t₁ =>
        rw [taken] at takes
        cases takes
        exact .of_take taken
  cases o with
  | advance => exact taking steps
  | advanceIfMatches expected =>
      simp only [LogicalLexer.exec] at steps
      split at steps
      · exact taking steps
      · cases steps
        exact .stays
  | advanceIfMatchesStr expected =>
      simp only [LogicalLexer.exec] at steps
      split at steps
      · cases steps
        exact .matched ‹_›
      · cases steps
        exact .stays
  | currentTokenLexeme =>
      simp only [LogicalLexer.exec] at steps
      cases translated : translateUnicodeEscapes (spelled t.lexeme) with
      | error e => simp [translated, Except.map] at steps
      | ok text =>
          rw [translated] at steps
          cases steps
          exact .stays
  | reportError errorType =>
      simp only [LogicalLexer.exec, LogicalLexer.reportError] at steps
      split at steps
      · cases steps
        exact .reports _
      · cases steps
  | newToken =>
      cases steps
      exact .begins
  | completeToken | completeEof =>
      cases steps
      exact .emits _
  | collectEscapeErrors =>
      cases steps
      exact .reports _
  | setTemplates templates =>
      cases steps
      exact .switches templates
  | peekN | isAtEnd | getTemplates =>
      cases steps
      exact .stays

end CaffeineLs.JavaSyntax
