/-
Module: CaffeineLs.KotlinSyntax.Parser
Purpose: The state of the Kotlin parser and its primitives: looking at the tokens ahead, consuming
  them, and opening and closing nodes.
Trusted boundary: trivia are left out, as are the source ranges of errors. The events of the source
  are read as the forest they build: what stands after the start of a node are its children so far.
Main exports: Cst, Parser, Marker
-/
import CaffeineLs.KotlinSyntax.Lexer
import CaffeineLs.Lib.SyntaxTree

namespace CaffeineLs.KotlinSyntax

open Lib

/-- A Kotlin syntax tree, without trivia. -/
abbrev Cst := SyntaxTree SyntaxKind Token

inductive ExpectedConstruct where
  | expression
deriving DecidableEq

inductive ParseErrorKind where
  | expectedToken (expected : List SyntaxKind) (found : Option SyntaxKind)
  | expectedConstruct (construct : ExpectedConstruct)
  | message (text : String)
deriving DecidableEq

/-- The parser between two tokens: the kind of the last token consumed, the tokens ahead, and what
the innermost open node holds so far. `restrictedExpression` is the nesting level at which a brace
after an expression is not its trailing lambda. -/
structure Parser where
  previous : Option SyntaxKind
  rest : List Token
  built : List Cst
  errors : List ParseErrorKind
  restrictedExpression : Option Nat
  expressionNesting : Nat
deriving DecidableEq

/-- A started node: what the node around it held before. -/
abbrev Marker := List Cst

namespace Parser

def new (tokens : List Token) : Parser :=
  { previous := none, rest := tokens, built := [], errors := [], restrictedExpression := none,
    expressionNesting := 0 }

variable (p : Parser)

def nth (n : Nat) : Option SyntaxKind := p.rest[n]?.map Token.kind

def current : Option SyntaxKind := p.nth 0

def at_ (kind : SyntaxKind) : Bool := p.current = some kind

/-- Whether the current token is of one of the kinds. -/
def atAny (kinds : List SyntaxKind) : Bool := p.current.any kinds.contains

def isAtEnd : Bool := p.at_ .eof || p.rest.isEmpty

/-- Whether a line break stands right before the current token. -/
def lineBreakBefore : Bool := p.previous = some .newline

def bump : Parser :=
  match p.rest with
  | [] => p
  | token :: rest =>
      { p with previous := some token.kind, rest := rest, built := p.built ++ [.token token] }

def eat (kind : SyntaxKind) : Bool × Parser :=
  if p.at_ kind then (true, p.bump) else (false, p)

def start : Marker × Parser := (p.built, { p with built := [] })

/-- Closes the node: what was built since its start are its children. -/
def complete (m : Marker) (kind : SyntaxKind) : Parser :=
  { p with built := m ++ [.node kind p.built] }

/-- Gives the node up: its children go to the node around it. -/
def abandon (m : Marker) : Parser := { p with built := m ++ p.built }

def error (kind : ParseErrorKind) : Parser := { p with errors := p.errors ++ [kind] }

def errorMessage (text : String) : Parser := p.error (.message text)

def errorExpectedConstruct (construct : ExpectedConstruct) : Parser :=
  p.error (.expectedConstruct construct)

/-- Reports the missing tokens and stands a `missing` node in for them. -/
def errorExpected (expected : List SyntaxKind) : Parser :=
  let p := p.error (.expectedToken expected p.current)
  let (m, p) := p.start
  p.complete m .missing

def expect (kind : SyntaxKind) : Parser :=
  if p.at_ kind then p.bump else p.errorExpected [kind]

/-- Back to `checkpoint`: the tokens, the nodes and the errors since then are undone. -/
def rewind (checkpoint : Parser) : Parser :=
  { p with previous := checkpoint.previous, rest := checkpoint.rest, built := checkpoint.built,
           errors := checkpoint.errors }

def trailingLambdaAllowed : Bool := p.restrictedExpression ≠ some p.expressionNesting

def enterExpression : Parser := { p with expressionNesting := p.expressionNesting + 1 }

def leaveExpression : Parser := { p with expressionNesting := p.expressionNesting - 1 }

/-- `loop { … }` until `step` breaks off. A round consumes a token, so the tokens ahead bound the
number of rounds. -/
def loop (step : Parser → Option Parser) : Nat → Parser → Parser
  | 0, p => p
  | rounds + 1, p =>
      match step p with
      | some p => loop step rounds p
      | none => p

/-- `while p.at(kind) { p.bump() }` for one of the kinds. -/
def bumpWhile (kinds : List SyntaxKind) : Parser :=
  loop (fun p => if p.atAny kinds then some p.bump else none) p.rest.length p

end Parser

def eatNl (p : Parser) : Parser := p.bumpWhile [.newline]

def semis (p : Parser) : Parser := p.bumpWhile [.semicolon, .newline]

def simpleIdentifier (p : Parser) : Parser :=
  if p.at_ .identifier then p.bump else p.errorExpected [.identifier]

/-! ### What the primitives do -/

namespace Parser

variable {p : Parser}

@[simp] theorem built_complete (p : Parser) (m : Marker) (kind : SyntaxKind) :
    (p.complete m kind).built = m ++ [.node kind p.built] := rfl

@[simp] theorem built_abandon (p : Parser) (m : Marker) :
    (p.abandon m).built = m ++ p.built := rfl

@[simp] theorem rest_complete (p : Parser) (m : Marker) (kind : SyntaxKind) :
    (p.complete m kind).rest = p.rest := rfl

@[simp] theorem rest_abandon (p : Parser) (m : Marker) : (p.abandon m).rest = p.rest := rfl

/-- At a kind, the token of that kind stands first among those ahead. -/
theorem rest_of_at {kind : SyntaxKind} (here : p.at_ kind = true) :
    ∃ token rest, p.rest = token :: rest ∧ token.kind = kind := by
  cases ahead : p.rest with
  | nil => simp [at_, current, nth, ahead] at here
  | cons token rest => exact ⟨token, rest, rfl, by simpa [at_, current, nth, ahead] using here⟩

/-- Consuming a token appends it to the open node. -/
theorem bump_of_rest {token : Token} {rest : List Token} (ahead : p.rest = token :: rest) :
    p.bump.built = p.built ++ [.token token] ∧ p.bump.rest = rest := by
  simp [bump, ahead]

/-- A loop of rounds that keep a property of the parser keeps it. -/
theorem loop_induction {step : Parser → Option Parser} {P : Parser → Prop}
    (kept : ∀ p p', P p → step p = some p' → P p') :
    ∀ (rounds : Nat) (p : Parser), P p → P (loop step rounds p) := by
  intro rounds
  induction rounds with
  | zero => exact fun p holds => holds
  | succ rounds ih =>
      intro p holds
      rw [loop]
      cases round : step p with
      | none => exact holds
      | some p' => exact ih p' (kept p p' holds round)

end Parser

/-- `p` comes after `start`: it appended `trees` to the open node and gave no token back. -/
structure Appends (start : Parser) (trees : List Cst) (p : Parser) : Prop where
  built : p.built = start.built ++ trees
  rest : p.rest.length ≤ start.rest.length

theorem Appends.refl (p : Parser) : Appends p [] p := ⟨by simp, Nat.le_refl _⟩

theorem Appends.trans {p₁ p₂ p₃ : Parser} {trees₁ trees₂ : List Cst}
    (first : Appends p₁ trees₁ p₂) (second : Appends p₂ trees₂ p₃) :
    Appends p₁ (trees₁ ++ trees₂) p₃ :=
  ⟨by rw [second.built, first.built, List.append_assoc], Nat.le_trans second.rest first.rest⟩

/-- Skipping tokens of some kinds appends tokens of these kinds. -/
theorem Parser.bumpWhile_appends (p : Parser) (kinds : List SyntaxKind) :
    ∃ skipped : List Token, (∀ token ∈ skipped, token.kind ∈ kinds) ∧
      Appends p (skipped.map .token) (p.bumpWhile kinds) := by
  refine Parser.loop_induction (P := fun q => ∃ skipped : List Token,
    (∀ token ∈ skipped, token.kind ∈ kinds) ∧ Appends p (skipped.map .token) q) ?_
    p.rest.length p ⟨[], by simp, Appends.refl p⟩
  intro q q' reached round
  obtain ⟨skipped, only, appended⟩ := reached
  by_cases here : q.atAny kinds
  · have moved : q.bump = q' := by simpa [here] using round
    cases ahead : q.rest with
    | nil => simp [Parser.atAny, Parser.current, Parser.nth, ahead] at here
    | cons token rest =>
        have admitted : token.kind ∈ kinds := by
          simpa [Parser.atAny, Parser.current, Parser.nth, ahead] using here
        obtain ⟨built, left⟩ := Parser.bump_of_rest ahead
        refine ⟨skipped ++ [token], ?_, ?_⟩
        · intro other member
          rcases List.mem_append.mp member with old | new
          · exact only other old
          · rw [List.mem_singleton.mp new]
            exact admitted
        · have one : Appends q [.token token] q' :=
            ⟨by rw [← moved, built], by rw [← moved, left, ahead]; simp⟩
          simpa using appended.trans one
  · simp [here] at round

/-- Skipping line breaks appends line breaks. -/
theorem eatNl_appends (p : Parser) :
    ∃ breaks : List Token, (∀ token ∈ breaks, token.kind = .newline) ∧
      Appends p (breaks.map .token) (eatNl p) := by
  obtain ⟨skipped, only, appended⟩ := p.bumpWhile_appends [.newline]
  exact ⟨skipped, fun token member => List.mem_singleton.mp (only token member), appended⟩

/-- The production reads exactly the tree `tree`, from `p` to `p'`. -/
structure ReadsTree (production : Parser → Parser) (p : Parser) (tree : Cst) (p' : Parser) : Prop where
  run : production p = p'
  appends : Appends p [tree] p'

end CaffeineLs.KotlinSyntax
