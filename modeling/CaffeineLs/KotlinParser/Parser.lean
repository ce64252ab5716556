/-
Module: CaffeineLs.KotlinParser.Parser
Purpose: The Kotlin parser over the whole token list: the reader, the events, the markers, and the
  operations the grammar is written in.
Trusted boundary: the source ranges of errors are left out, and with them the range of the last
  token. No production sets the override token, so it is left out as well. A nesting level is a
  natural number.
Main exports: TokenSource, Parser, Event
-/
import CaffeineLs.KotlinSyntax.Lexer

namespace CaffeineLs.KotlinParser

open Imperative
open SourceText (Text)
open KotlinSyntax (SyntaxKind Token)

/-- The soft keywords and the modifiers that the grammar looks for. -/
inductive ContextualKeyword where
  | by_ | catch_ | constructor | dynamic | file | finally_ | get | import_ | init | set | where_
  | abstract_ | actual | annotation | companion | const | crossInline | data | enum | expect
  | external | final | infix_ | inline_ | inner | internal | lateInit | noInline | open_ | operator
  | out | override_ | private_ | protected_ | public_ | reified | sealed | suspend | tailrec | value
  | vararg
deriving DecidableEq

def ContextualKeyword.asStr : ContextualKeyword → String
  | .by_ => "by" | .catch_ => "catch" | .constructor => "constructor" | .dynamic => "dynamic"
  | .file => "file" | .finally_ => "finally" | .get => "get" | .import_ => "import"
  | .init => "init" | .set => "set" | .where_ => "where" | .abstract_ => "abstract"
  | .actual => "actual" | ContextualKeyword.annotation => "annotation" | .companion => "companion"
  | .const => "const" | .crossInline => "crossinline" | .data => "data" | .enum => "enum"
  | .expect => "expect" | .external => "external" | .final => "final" | .infix_ => "infix"
  | .inline_ => "inline" | .inner => "inner" | .internal => "internal" | .lateInit => "lateinit"
  | .noInline => "noinline" | .open_ => "open" | .operator => "operator" | .out => "out"
  | .override_ => "override" | .private_ => "private" | .protected_ => "protected"
  | .public_ => "public" | .reified => "reified" | .sealed => "sealed" | .suspend => "suspend"
  | .tailrec => "tailrec" | .value => "value" | .vararg => "vararg"

inductive ExpectedConstruct where
  | declaration | expression
deriving DecidableEq

inductive ParseErrorKind where
  | expectedToken (expected : List SyntaxKind) (found : Option SyntaxKind)
  | expectedConstruct (construct : ExpectedConstruct)
  | message (text : String)
deriving DecidableEq

inductive Event where
  | tombstone
  | addToken
  | addVirtualToken (kind : SyntaxKind) (lexeme : Text)
  | advanceSource
  | error (kind : ParseErrorKind)
  | startNode (kind : SyntaxKind) (forwardParent : Option Nat)
  | finishNode
deriving DecidableEq

/-- A node that was started: the event it stands at, and the bomb that goes off when the marker is
dropped before it is completed or abandoned. -/
structure Marker where
  pos : Nat
  bomb : Nat
deriving DecidableEq

structure CompletedMarker where
  pos : Nat
deriving DecidableEq

structure Checkpoint where
  sourcePos : Nat
  eventsLen : Nat
  errorsLen : Nat
deriving DecidableEq

/-- Why the parser aborts: a marker used a second time, an `unreachable!` or a failed `assert!`, or
a nesting level below zero. -/
inductive Panic where
  | markerReused | unreachable | assertion | subtractOverflow
deriving DecidableEq

/-- The significant tokens of the source with the cursor among them. Line breaks are not trivia: the
grammar sees them. -/
@[ext]
structure TokenSource where
  significant : List Token
  cursor : Nat
deriving DecidableEq

namespace TokenSource

variable (p : TokenSource)

def nthToken (n : Nat) : Option Token := p.significant[p.cursor + n]?

def nth (n : Nat) : Option SyntaxKind := (p.nthToken n).map Token.kind

def nthLexeme (n : Nat) : Option Text := (p.nthToken n).map Token.lexeme

def current : Option SyntaxKind := p.nth 0

/-- Whether a line break is the last token consumed. Only trivia stand between it and the current
token, and a line break is none of them. -/
def lineBreakBefore : Bool :=
  p.cursor ≠ 0 && (p.significant[p.cursor - 1]?).any fun token => token.kind = .newline

def nthAtContextualKw (n : Nat) (kw : ContextualKeyword) : Bool :=
  p.nth n = some .identifier && p.nthLexeme n = some kw.asStr.toList

end TokenSource

/-- The parser: its source, what it has left so far, the nesting level a restriction on trailing
lambdas is armed for, and the bombs: how many markers were handed out, and those of them that are
neither completed nor abandoned. -/
structure Parser extends TokenSource where
  events : List Event
  errors : List ParseErrorKind
  restrictedExpression : Option Nat
  expressionNesting : Nat
  bombs : Nat
  armed : List Nat
deriving DecidableEq

namespace Parser

def new (tokens : List Token) : Parser :=
  { significant := tokens.filter fun token => !token.kind.isTrivia, cursor := 0, events := [],
    errors := [], restrictedExpression := none, expressionNesting := 0, bombs := 0, armed := [] }

variable (p : Parser)

def trailingLambdaAllowed : Bool := p.restrictedExpression ≠ some p.expressionNesting

def checkpoint : Checkpoint :=
  { sourcePos := p.cursor, eventsLen := p.events.length, errorsLen := p.errors.length }

/-! ### Writing -/

def bump : Parser :=
  match p.nthToken 0 with
  | some _ => { p with events := p.events ++ [.addToken], cursor := p.cursor + 1 }
  | none => p

/-- The marker of a node that is started here. -/
def marker : Marker := { pos := p.events.length, bomb := p.bombs }

def start : Parser :=
  { p with events := p.events ++ [.tombstone], bombs := p.bombs + 1, armed := p.bombs :: p.armed }

/-- Consumes a marker. -/
def defuse (m : Marker) : Except Panic Parser :=
  if m.bomb ∈ p.armed then .ok { p with armed := p.armed.erase m.bomb } else .error .markerReused

def complete (m : Marker) (kind : SyntaxKind) : Except Panic (CompletedMarker × Parser) := do
  let p ← p.defuse m
  match p.events[m.pos]? with
  | some .tombstone =>
      .ok ({ pos := m.pos },
        { p with events := p.events.set m.pos (.startNode kind none) ++ [.finishNode] })
  | _ => .error .unreachable

def abandon (m : Marker) : Except Panic Parser := do
  let p ← p.defuse m
  match p.events[m.pos]? with
  | some .tombstone => .ok p
  | _ => .error .unreachable

/-- Starts a node around a completed one: the completed one points at it. -/
def precede (c : CompletedMarker) : Except Panic (Marker × Parser) :=
  match p.events[c.pos]? with
  | some (.startNode kind none) =>
      let parent := Event.startNode kind (some (p.events.length - c.pos))
      .ok (p.marker, { p.start with events := p.start.events.set c.pos parent })
  | some (.startNode _ (some _)) => .error .assertion
  | _ => .error .unreachable

def error (kind : ParseErrorKind) : Parser :=
  { p with errors := p.errors ++ [kind], events := p.events ++ [.error kind] }

def rewind (cp : Checkpoint) : Except Panic Parser :=
  if cp.sourcePos ≤ p.significant.length then
    .ok { p with cursor := cp.sourcePos, events := p.events.take cp.eventsLen,
                 errors := p.errors.take cp.errorsLen }
  else
    .error .assertion

def leaveExpression : Except Panic Parser :=
  if p.expressionNesting = 0 then .error .subtractOverflow
  else .ok { p with expressionNesting := p.expressionNesting - 1 }

end Parser

/-! ### Programs of the grammar -/

/-- The operations of the parser. `view` is a read through `&Parser`. -/
inductive ParseOp : Type → Type where
  | view : ParseOp Parser
  | bump : ParseOp Unit
  | start : ParseOp Marker
  | complete (m : Marker) (kind : SyntaxKind) : ParseOp CompletedMarker
  | abandon (m : Marker) : ParseOp Unit
  | precede (c : CompletedMarker) : ParseOp Marker
  | error (kind : ParseErrorKind) : ParseOp Unit
  | rewind (cp : Checkpoint) : ParseOp Unit
  | enterExpression : ParseOp Unit
  | leaveExpression : ParseOp Unit
  | restrict (level : Option Nat) : ParseOp Unit

def ParseOp.exec : {β : Type} → ParseOp β → Parser → Except Panic (β × Parser)
  | _, .view, p => .ok (p, p)
  | _, .bump, p => .ok ((), p.bump)
  | _, .start, p => .ok (p.marker, p.start)
  | _, .complete m kind, p => p.complete m kind
  | _, .abandon m, p => (p.abandon m).map fun p => ((), p)
  | _, .precede c, p => p.precede c
  | _, .error kind, p => .ok ((), p.error kind)
  | _, .rewind cp, p => (p.rewind cp).map fun p => ((), p)
  | _, .enterExpression, p => .ok ((), { p with expressionNesting := p.expressionNesting + 1 })
  | _, .leaveExpression, p => p.leaveExpression.map fun p => ((), p)
  | _, .restrict level, p => .ok ((), { p with restrictedExpression := level })

/-- The productions that the grammar comes back to from inside themselves. The others are programs
that are called by name. -/
inductive Production : Type → Type where
  | annotation : Production Unit
  | type_ : Production Unit
  | expression : Production Unit
  | statement : Production Unit
  | declaration : Production Unit
  | classBody : Production Unit
  | accessors : Production Unit
  | directlyAssignableExpression : Production Bool
  | assignableExpression : Production Unit
  | scriptStatements : Production Unit

abbrev Parse := Prog ParseOp Production

def view : Parse Parser := .perform .view
def bump : Parse Unit := .perform .bump
def start : Parse Marker := .perform .start
def complete (m : Marker) (kind : SyntaxKind) : Parse CompletedMarker := .perform (.complete m kind)
def abandon (m : Marker) : Parse Unit := .perform (.abandon m)
def precede (c : CompletedMarker) : Parse Marker := .perform (.precede c)
def error (kind : ParseErrorKind) : Parse Unit := .perform (.error kind)
def rewind (cp : Checkpoint) : Parse Unit := .perform (.rewind cp)
def enterExpression : Parse Unit := .perform .enterExpression
def leaveExpression : Parse Unit := .perform .leaveExpression
def restrict (level : Option Nat) : Parse Unit := .perform (.restrict level)
def invoke {β : Type} (f : Production β) : Parse β := .invoke f

/-! ### Tests -/

def at_ (kind : SyntaxKind) (p : Parser) : Bool := p.current = some kind

/-- Whether the current token is of one of the kinds. -/
def atAny (kinds : List SyntaxKind) (p : Parser) : Bool := p.current.any kinds.contains

def nthAt (n : Nat) (kind : SyntaxKind) (p : Parser) : Bool := p.nth n = some kind

def atContextualKw (kw : ContextualKeyword) (p : Parser) : Bool := p.nthAtContextualKw 0 kw

def atContextualKwSet (kws : List ContextualKeyword) (p : Parser) : Bool :=
  kws.any fun kw => atContextualKw kw p

def lineBreakBefore (p : Parser) : Bool := p.toTokenSource.lineBreakBefore

def isAtEnd (p : Parser) : Bool := at_ .eof p || p.cursor ≥ p.significant.length

def both (t u : Parser → Bool) (p : Parser) : Bool := t p && u p
def either (t u : Parser → Bool) (p : Parser) : Bool := t p || u p
def neither (t u : Parser → Bool) (p : Parser) : Bool := !t p && !u p
def notAt (t : Parser → Bool) (p : Parser) : Bool := !t p

/-! ### Control -/

variable {α : Type}

def test (t : Parser → Bool) : Parse Bool := do return t (← view)

/-- `if t { x } else { y }` -/
def choose (t : Parser → Bool) (x y : Parse α) : Parse α := do
  if t (← view) then x else y

/-- `if t { x }` -/
def onlyIf (t : Parser → Bool) (x : Parse Unit) : Parse Unit := choose t x (pure ())

/-- `while t { x }` -/
def repeatWhile (t : Parser → Bool) (x : Parse Unit) : Parse Unit := Prog.whileDo (test t) x

/-- A round of `repeatSome`. -/
def someRound (keep : Option α → α → α) (x : Parse (Option α)) (found : Option α) :
    Parse (Option α ⊕ Option α) := do
  match ← x with
  | some a => return .inl (some (keep found a))
  | none => return .inr found

/-- `loop { match x { Some(a) => found = keep(found, a), None => break } }` -/
def repeatSome (keep : Option α → α → α) (x : Parse (Option α)) : Parse (Option α) :=
  .loop (someRound keep x) none .pure

/-- `while p.eat(COMMA) { eat_nl(p); if close { break; } item(p) }`, after an item. -/
def commaRest (skip : Parse Unit) (close : Parser → Bool) (item : Parse Unit) : Parse Unit :=
  .loop (fun _ =>
    choose (at_ .comma)
      (do bump
          skip
          choose close (return .inr ()) (do item; return .inl ()))
      (return .inr ()))
    () .pure

/-! ### Nodes -/

def close (m : Marker) : Option SyntaxKind → Parse Unit
  | some kind => do let _ ← complete m kind
  | none => abandon m

/-- `let m = p.start(); x`, and then `m` is completed with the kind that the result of `x` decides,
or abandoned. -/
def nodeBy (kindOf : α → Option SyntaxKind) (x : Parse α) : Parse α := do
  let m ← start
  let a ← x
  close m (kindOf a)
  return a

/-- `let m = p.start(); x; m.complete(p, kind)` -/
def node (kind : SyntaxKind) (x : Parse α) : Parse α := nodeBy (fun _ => some kind) x

/-- `let m = p.start(); x; m.abandon(p)` -/
def loose (x : Parse α) : Parse α := nodeBy (fun _ => none) x

/-- `let cp = p.checkpoint(); x`, and `p.rewind(cp)` when `x` did not find what it looked for. -/
def speculate (x : Parse Bool) : Parse Bool := do
  let cp := (← view).checkpoint
  if ← x then
    return true
  else
    rewind cp
    return false

/-- `p.enter_expression(); x; p.leave_expression()` -/
def nested (x : Parse α) : Parse α := do
  enterExpression
  let a ← x
  leaveExpression
  return a

def withTrailingLambda (x : Parse α) : Parse α := do
  let p ← view
  restrict (some (p.expressionNesting + 1))
  let a ← x
  restrict p.restrictedExpression
  return a

/-! ### Errors and names -/

def errorMessage (text : String) : Parse Unit := error (.message text)

def errorExpectedConstruct (construct : ExpectedConstruct) : Parse Unit :=
  error (.expectedConstruct construct)

/-- Reports the missing tokens and stands a `missing` node in for them. -/
def errorExpected (expected : List SyntaxKind) : Parse Unit := do
  error (.expectedToken expected (← view).current)
  node .missing (pure ())

def expect (kind : SyntaxKind) : Parse Unit := choose (at_ kind) bump (errorExpected [kind])

def expectContextualKw (kw : ContextualKeyword) : Parse Unit :=
  choose (atContextualKw kw) bump (errorMessage "expected contextual keyword")

def eatNl : Parse Unit := repeatWhile (at_ .newline) bump

def semi : Parse Unit := do
  onlyIf (atAny [.semicolon, .newline]) bump
  eatNl

def semis : Parse Unit := repeatWhile (atAny [.semicolon, .newline]) bump

def simpleIdentifier : Parse Unit := choose (at_ .identifier) bump (errorExpected [.identifier])

def identifier : Parse Unit := node .qualifiedName do
  simpleIdentifier
  repeatWhile (both (at_ .dot) (nthAt 1 .identifier)) do
    bump
    simpleIdentifier

end CaffeineLs.KotlinParser
