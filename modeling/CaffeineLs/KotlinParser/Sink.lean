/-
Module: CaffeineLs.KotlinParser.Sink
Purpose: The syntax tree of a file, built from the tokens and the events of the parser.
Trusted boundary: the builder of trees keeps the branches that were started and not yet finished
Main exports: GreenBuilder, Sink, Sink.finish
-/
import CaffeineLs.KotlinParser.Statements
import CaffeineLs.HirExpand.SyntaxNodePtr

namespace CaffeineLs.KotlinParser

open Imperative
open SourceText (Text)
open KotlinSyntax (SyntaxKind Token)
open HirExpand (SourceTree)

/-- `GreenNodeBuilder`: the children of the current branch so far, and the branches around it, the inner
ones first, each with its kind and the children of its parent so far. -/
structure GreenBuilder where
  children : List (SourceTree SyntaxKind)
  parents : List (SyntaxKind × List (SourceTree SyntaxKind))

namespace GreenBuilder

def new : GreenBuilder := ⟨[], []⟩

def token (builder : GreenBuilder) (kind : SyntaxKind) (lexeme : Text) : GreenBuilder :=
  { builder with children := builder.children ++ [.token (kind, lexeme)] }

def startNode (builder : GreenBuilder) (kind : SyntaxKind) : GreenBuilder :=
  ⟨[], (kind, builder.children) :: builder.parents⟩

def finishNode (builder : GreenBuilder) : Option GreenBuilder :=
  match builder.parents with
  | [] => none
  | (kind, siblings) :: parents => some ⟨siblings ++ [.node kind builder.children], parents⟩

/-- One node is left when every branch is finished. -/
def finish (builder : GreenBuilder) : Option (SourceTree SyntaxKind) :=
  match builder.parents, builder.children with
  | [], [.node kind children] => some (.node kind children)
  | _, _ => none

end GreenBuilder

/-- The tokens from the cursor on, with the trivia. -/
structure Sink where
  tokens : List Token
  events : List Event
  builder : GreenBuilder

namespace Sink

def eatTriviaFrom : List Token → GreenBuilder → List Token × GreenBuilder
  | [], builder => ([], builder)
  | token :: rest, builder =>
    if token.kind.isTrivia then eatTriviaFrom rest (builder.token token.kind token.lexeme)
    else (token :: rest, builder)

def eatTrivia (sink : Sink) : Sink :=
  let (tokens, builder) := eatTriviaFrom sink.tokens sink.builder
  { sink with tokens, builder }

def token (sink : Sink) : Sink :=
  let sink := sink.eatTrivia
  match sink.tokens with
  | [] => sink
  | token :: rest =>
    { sink with tokens := rest, builder := sink.builder.token token.kind token.lexeme }

/-- `while let Some(parent_offset) = fp`: the kinds of the nodes around a node, the inner ones first. What
is visited becomes a tombstone. -/
def forwardParents : Nat → Nat → Option Nat → List Event → Option (List SyntaxKind × List Event)
  | _, _, none, events => some ([], events)
  | 0, _, some _, _ => none
  | fuel + 1, idx, some parentOffset, events =>
    match events[idx + parentOffset]? with
    | some (.startNode kind forwardParent) =>
      (forwardParents fuel (idx + parentOffset) forwardParent
        (events.set (idx + parentOffset) .tombstone)).map fun (kinds, events) => (kind :: kinds, events)
    | _ => none

/-- One round over the events. `none` is an abort. -/
def round (lastFinish : Option Nat) (sink : Sink) (idx : Nat) : Option Sink :=
  let event := sink.events[idx]?.getD .tombstone
  let sink := { sink with events := sink.events.set idx .tombstone }
  match event with
  | .tombstone => some sink
  | .addToken => some sink.token
  | .addVirtualToken kind lexeme => some { sink with builder := sink.builder.token kind lexeme }
  | .advanceSource => some { sink with tokens := sink.tokens.tail }
  | .error _ => some sink
  | .startNode kind forwardParent =>
    (forwardParents sink.events.length idx forwardParent sink.events).map fun (outer, events) =>
      -- the trivia in front of a node belong to the node around it
      let sink := if idx ≠ 0 then sink.eatTrivia else sink
      let started := (kind :: outer).reverse.foldl GreenBuilder.startNode sink.builder
      { sink with events, builder := started }
  | .finishNode =>
    let sink := if some idx = lastFinish then sink.eatTrivia else sink
    sink.builder.finishNode.map fun finished => { sink with builder := finished }

/-- `build`, over the events from an index on. -/
def rounds (lastFinish : Option Nat) : Nat → Nat → Sink → Option Sink
  | 0, _, sink => some sink
  | count + 1, idx, sink => (round lastFinish sink idx).bind (rounds lastFinish count (idx + 1))

def lastFinish (events : List Event) : Option Nat :=
  (events.zipIdx.reverse.find? fun p => p.1 = .finishNode).map Prod.snd

/-- `Sink::new` and `finish` -/
def finish (tokens : List Token) (events : List Event) : Option (SourceTree SyntaxKind) :=
  (rounds (lastFinish events) events.length 0 ⟨tokens, events, .new⟩).bind fun sink =>
    sink.builder.finish

end Sink

/-- `drive`: the parser reads the tokens with one of the entry points, and the sink builds the tree. -/
def Parses (entry : Parse Unit) (tokens : List Token) (tree : SourceTree SyntaxKind) : Prop :=
  ∃ parser, Returns machine entry (Parser.new tokens) () parser ∧
    Sink.finish tokens parser.events = some tree

end CaffeineLs.KotlinParser
