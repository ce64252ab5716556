/-
Module: CaffeineLs.KotlinSyntax.ExprGrammar
Purpose: The expression productions of the Kotlin parser: the precedence levels, prefix and postfix
  operators, the primary expressions, `if` and `when`.
Trusted boundary: `Grammar` holds the productions that are reached again from inside an expression
  and those that are not embedded. They are arbitrary here.
Main exports: Grammar, expression, disjunction
-/
import CaffeineLs.KotlinSyntax.Parser

namespace CaffeineLs.KotlinSyntax

abbrev Production := Parser → Parser

/-- The productions an expression production calls that are not defined with it. -/
structure Grammar where
  expression : Production
  statement : Production
  statements : Production
  block : Production
  declaration : Production
  atDeclaration : Parser → Bool
  variableDeclaration : Production
  multiVariableDeclaration : Production
  annotation : Production
  type_ : Production
  typeArguments : Production
  userType : Production
  lambdaLiteral : Production
  stringLiteral : Production
  tryExpression : Production
  jumpExpression : Production
  objectLiteral : Production
  anonymousFunction : Production

/-- The other productions read nothing: enough for a text that reaches none of them. -/
def Grammar.idle : Grammar :=
  { expression := id, statement := id, statements := id, block := id, declaration := id,
    atDeclaration := fun _ => false, variableDeclaration := id, multiVariableDeclaration := id,
    annotation := id, type_ := id, typeArguments := id, userType := id, lambdaLiteral := id,
    stringLiteral := id, tryExpression := id, jumpExpression := id, objectLiteral := id,
    anonymousFunction := id }

variable (g : Grammar)

/-- The tokens that can start an expression. -/
def expressionStarts : List SyntaxKind :=
  [.lParen, .lBracket, .lBrace, .colonColon, .identifier, .thisKw, .superKw, .trueKw, .falseKw,
   .nullKw, .integerLiteral, .floatLiteral, .charLiteral, .openQuote, .openRawQuote, .plus, .minus,
   .not, .plusPlus, .minusMinus, .ifKw, .whenKw, .tryKw, .throwKw, .returnKw, .continueKw,
   .breakKw, .objectKw, .funKw]

def atExpression (p : Parser) : Bool := p.atAny expressionStarts

/-! ### Loops of the grammar -/

/-- The operators of a chain with their operands, as long as `next` finds one. The first operator
decides the kind of the node. -/
def operatorLinks (next : Parser → Option (SyntaxKind × Parser)) :
    Nat → Option SyntaxKind → Parser → Option SyntaxKind × Parser
  | 0, kind, p => (kind, p)
  | rounds + 1, kind, p =>
      match next p with
      | some (operatorKind, p) => operatorLinks next rounds (some (kind.getD operatorKind)) p
      | none => (kind, p)

/-- A chain of operators: one flat node over all operands, and none without an operator. -/
def operatorChain (first : Production) (next : Parser → Option (SyntaxKind × Parser))
    (p : Parser) : Parser :=
  let (m, p) := p.start
  let p := first p
  let (kind, p) := operatorLinks next p.rest.length none p
  match kind with
  | some kind => p.complete m kind
  | none => p.abandon m

/-- `while p.at(operator) { p.bump(); eat_nl(p); operand(p) }` -/
def operatorRound (kind : SyntaxKind) (operators : List SyntaxKind) (operand : Production)
    (p : Parser) : Option (SyntaxKind × Parser) :=
  if p.atAny operators then some (kind, operand (eatNl p.bump)) else none

/-- `while p.eat(COMMA) { eat_nl(p); if p.at(close) { break; } item(p) }` -/
def commaRounds (close : SyntaxKind) (item : Production) : Nat → Parser → Parser
  | 0, p => p
  | rounds + 1, p =>
      if p.at_ .comma then
        let p := eatNl p.bump
        if p.at_ close then p else commaRounds close item rounds (item p)
      else p

/-- `item {',' item} [',']` before the closing token. -/
def commaList (close : SyntaxKind) (item : Production) (p : Parser) : Parser :=
  let p := item p
  commaRounds close item p.rest.length p

/-! ### Primary expressions -/

def parenthesizedExpression (p : Parser) : Parser :=
  let p := eatNl (p.expect .lParen)
  let p := eatNl (g.expression p)
  p.expect .rParen

def collectionLiteral (p : Parser) : Parser :=
  let (m, p) := p.start
  let p := eatNl (p.expect .lBracket)
  let p := if p.at_ .rBracket then p else commaList .rBracket g.expression p
  let p := (eatNl p).expect .rBracket
  p.complete m .collectionLiteral

def callableReference (p : Parser) : Parser :=
  let (m, p) := p.start
  let p := if p.at_ .identifier then g.userType p else p
  let p := eatNl (p.expect .colonColon)
  let p := if p.at_ .classKw then p.bump else simpleIdentifier p
  p.complete m .callableReference

def atCallableReference (p : Parser) : Bool :=
  p.at_ .colonColon || (p.at_ .identifier && p.nth 1 = some .colonColon)

/-- `this`, with the label that qualifies it. -/
def thisExpression (p : Parser) : Parser :=
  let (m, p) := p.start
  let p := p.bump
  let p := if p.at_ .at_ && p.nth 1 = some .identifier then simpleIdentifier p.bump else p
  p.complete m .thisExpression

/-- `super`, with the supertype or the label that qualifies it. -/
def superExpression (p : Parser) : Parser :=
  let (m, p) := p.start
  let p := p.bump
  let p := if p.at_ .less then (eatNl (g.type_ (eatNl p.bump))).expect .greater else p
  let p := if p.at_ .at_ && p.nth 1 = some .identifier then simpleIdentifier p.bump else p
  p.complete m .superExpression

/-- A name or a literal: one token. -/
def tokenExpression (p : Parser) : Parser :=
  let (m, p) := p.start
  p.bump.complete m .primaryExpression

/-- A string literal as a node of its own. -/
def stringExpression (p : Parser) : Parser :=
  let (m, p) := p.start
  (g.stringLiteral p).complete m .stringLiteral

def parenthesizedPrimary (p : Parser) : Parser :=
  let (m, p) := p.start
  (parenthesizedExpression g p).complete m .parenthesizedExpression

/-- What stands where an expression is missing: an empty primary expression. -/
def missingExpression (p : Parser) : Parser :=
  let (m, p) := p.start
  (p.errorExpectedConstruct .expression).complete m .primaryExpression

/-! ### `if` and `when` -/

def ifExpression (p : Parser) : Parser :=
  let (m, p) := p.start
  let p := eatNl (p.expect .ifKw)
  let p := eatNl (p.expect .lParen)
  let p := eatNl (g.expression p)
  let p := eatNl (p.expect .rParen)
  let p :=
    if p.at_ .lBrace then g.block p
    else if p.at_ .semicolon then p.bump
    else if p.at_ .elseKw then p
    else g.statement p
  let p := eatNl p
  let p :=
    if p.at_ .elseKw then
      let p := eatNl p.bump
      if p.at_ .lBrace then g.block p
      else if p.at_ .semicolon then p.bump
      else g.statement p
    else p
  p.complete m .ifExpression

/-- `block | statement` -/
def controlStructureBody (p : Parser) : Parser :=
  if p.at_ .lBrace then g.block p else g.statement p

def whenGuard (p : Parser) : Parser :=
  if p.at_ .ifKw then
    let (m, p) := p.start
    let p := g.expression (eatNl p.bump)
    p.complete m .whenGuard
  else p

def whenCondition (p : Parser) : Parser :=
  if p.at_ .inKw || p.at_ .notIn then
    let (m, p) := p.start
    let p := g.expression (eatNl p.bump)
    p.complete m .rangeTest
  else if p.at_ .isKw || p.at_ .notIs then
    let (m, p) := p.start
    let p := g.type_ (eatNl p.bump)
    p.complete m .typeTest
  else g.expression p

/-- The part of a `when` entry from its guard on. -/
def whenEntryTail (p : Parser) : Parser :=
  let p := eatNl ((whenGuard g p).expect .arrow)
  let p := eatNl (controlStructureBody g p)
  if p.at_ .semicolon then p.bump else p

def whenEntry (p : Parser) : Parser :=
  let (m, p) := p.start
  let p := eatNl p
  let p :=
    if p.at_ .elseKw then eatNl p.bump
    else eatNl (commaList .arrow (whenCondition g) p)
  (whenEntryTail g p).complete m .whenEntry

def whenSubject (p : Parser) : Parser :=
  let (m, p) := p.start
  let p := eatNl p.bump
  let p := Parser.loop
    (fun p => if p.at_ .at_ then some (eatNl (g.annotation p)) else none) p.rest.length p
  let p := if p.at_ .valKw then eatNl ((g.variableDeclaration (eatNl p.bump)).expect .equal) else p
  let p := eatNl (g.expression p)
  (p.expect .rParen).complete m .whenSubject

/-- One round over the entries of a `when`: an entry that consumes nothing is reported and its
token skipped. -/
def whenEntryRound (p : Parser) : Option Parser :=
  if p.at_ .rBrace || p.isAtEnd then none
  else
    let entry := whenEntry g p
    let p := if entry.rest.length = p.rest.length
      then (entry.errorMessage "expected a when entry").bump else entry
    some (eatNl p)

def whenExpression (p : Parser) : Parser :=
  let (m, p) := p.start
  let p := eatNl (p.expect .whenKw)
  let p := if p.at_ .lParen then whenSubject g p else p
  let p := eatNl ((eatNl p).expect .lBrace)
  let p := Parser.loop (whenEntryRound g) p.rest.length p
  ((eatNl p).expect .rBrace).complete m .whenExpression

def primaryExpression (p : Parser) : Parser :=
  match p.current with
  | some .lParen => parenthesizedPrimary g p
  | some .lBracket => collectionLiteral g p
  | some .lBrace => g.lambdaLiteral p
  | some .colonColon => callableReference g p
  | some .identifier => if atCallableReference p then callableReference g p else tokenExpression p
  | some .thisKw => thisExpression p
  | some .superKw => superExpression g p
  | some .trueKw | some .falseKw | some .nullKw | some .integerLiteral | some .floatLiteral
  | some .charLiteral => tokenExpression p
  | some .openQuote | some .openRawQuote => stringExpression g p
  | some .ifKw => ifExpression g p
  | some .whenKw => whenExpression g p
  | some .tryKw => g.tryExpression p
  | some .throwKw | some .returnKw | some .continueKw | some .breakKw => g.jumpExpression p
  | some .objectKw => g.objectLiteral p
  | some .funKw => g.anonymousFunction p
  | _ => missingExpression p

/-! ### Postfix suffixes -/

/-- The kind of one postfix suffix. -/
inductive PostfixSuffix where
  | operator
  | typeArguments
  | call
  | indexing
  | navigation
deriving DecidableEq

def PostfixSuffix.isAssignable : PostfixSuffix → Bool
  | .typeArguments | .indexing | .navigation => true
  | .operator | .call => false

/-- The member after `.`, `?.` or `::`. -/
def navigationMember (p : Parser) : Parser :=
  if p.at_ .classKw then p.bump
  else if p.at_ .lParen then parenthesizedExpression g p
  else if p.at_ .identifier then simpleIdentifier p
  else p.errorMessage "expected an identifier after the navigation operator"

/-- The line breaks before the operator stay outside the suffix. -/
def navigationSuffix (p : Parser) : Parser :=
  let (m, p) := (eatNl p).start
  let p := navigationMember g (eatNl p.bump)
  p.complete m .navigationSuffix

def indexingSuffix (p : Parser) : Parser :=
  let p := eatNl (p.expect .lBracket)
  let p := commaList .rBracket g.expression p
  (eatNl p).expect .rBracket

def valueArgument (p : Parser) : Parser :=
  let (m, p) := p.start
  let p := if p.at_ .at_ then eatNl (g.annotation p) else p
  let p :=
    if p.at_ .identifier && p.nth 1 = some .equal then eatNl ((simpleIdentifier p).expect .equal)
    else p
  let p := if p.at_ .star then eatNl p.bump else p
  (g.expression p).complete m .valueArgument

def valueArguments (p : Parser) : Parser :=
  let (m, p) := p.start
  let p := eatNl (p.expect .lParen)
  let p := if p.at_ .rParen then p else commaList .rParen (valueArgument g) p
  ((eatNl p).expect .rParen).complete m .valueArguments

/-- Scans to the `>` that closes the `<` at the current token: the list is one of type arguments
unless a name or a literal follows. -/
def scanTypeArguments : Int → List Token → Bool
  | _, [] => false
  | depth, token :: rest =>
      match token.kind with
      | .less => scanTypeArguments (depth + 1) rest
      | .greater =>
          if depth - 1 = 0 then
            !(rest.head?.map Token.kind).any
              [.identifier, .integerLiteral, .floatLiteral, .charLiteral, .openQuote,
                .openRawQuote, .trueKw, .falseKw, .nullKw, .thisKw, .superKw].contains
          else scanTypeArguments (depth - 1) rest
      | .eof => false
      | _ => scanTypeArguments depth rest

def atTypeArguments (p : Parser) : Bool := scanTypeArguments 0 p.rest

/-- The `label@` before a lambda or a statement. -/
def label (p : Parser) : Parser :=
  let (m, p) := p.start
  let p := eatNl ((simpleIdentifier p).expect .at_)
  p.complete m .label

def atLabel (p : Parser) : Bool := p.at_ .identifier && p.nth 1 = some .at_

/-- A trailing lambda with its annotations and its label. -/
def annotatedLambda (p : Parser) : Parser :=
  let (m, p) := p.start
  let p := Parser.loop
    (fun p => if p.at_ .at_ then some (eatNl (g.annotation p)) else none) p.rest.length p
  let p := if atLabel p then label p else p
  (g.lambdaLiteral p).complete m .callExpression

/-- One suffix, when one follows. -/
def postfixUnarySuffix (p : Parser) : Option (PostfixSuffix × Parser) :=
  if p.at_ .plusPlus || p.at_ .minusMinus || p.at_ .notNullAssert then some (.operator, p.bump)
  else if p.at_ .lParen then
    let (m, p) := p.start
    some (.call, (valueArguments g p).complete m .callExpression)
  else if p.at_ .lBracket then
    let (m, p) := p.start
    some (.indexing, (indexingSuffix g p).complete m .indexingExpression)
  else if (p.at_ .lBrace || p.at_ .at_ || atLabel p) && p.trailingLambdaAllowed then
    some (.call, annotatedLambda g p)
  else if p.at_ .less && atTypeArguments p then some (.typeArguments, g.typeArguments p)
  else if p.atAny [.dot, .safeAccess, .colonColon] ||
      (p.at_ .newline && (p.nth 1).any [.dot, .safeAccess].contains) then
    some (.navigation, navigationSuffix g p)
  else none

/-- The suffixes with the last of them. -/
def postfixUnarySuffixRounds : Nat → Option PostfixSuffix → Parser → Option PostfixSuffix × Parser
  | 0, last, p => (last, p)
  | rounds + 1, last, p =>
      match postfixUnarySuffix g p with
      | some (suffix, p) => postfixUnarySuffixRounds rounds (some suffix) p
      | none => (last, p)

def postfixUnarySuffixes (p : Parser) : Option PostfixSuffix × Parser :=
  postfixUnarySuffixRounds g p.rest.length none p

def postfixUnaryExpression (p : Parser) : Option PostfixSuffix × Parser :=
  let (m, p) := p.start
  let (last, p) := postfixUnarySuffixes g (primaryExpression g p)
  match last with
  | some _ => (last, p.complete m .postfixUnaryExpression)
  | none => (last, p.abandon m)

/-! ### Prefix operators and casts -/

def atPrefixUnaryPrefix (p : Parser) : Bool :=
  p.atAny [.plusPlus, .minusMinus, .minus, .plus, .not, .at_] || atLabel p

/-- The `label@` before an expression; the line breaks after it stay outside. -/
def prefixLabel (p : Parser) : Parser :=
  let (m, p) := p.start
  ((simpleIdentifier p).expect .at_).complete m .label

def prefixUnaryPrefix (p : Parser) : Option (SyntaxKind × Parser) :=
  if atPrefixUnaryPrefix p then
    let p :=
      if p.at_ .at_ then g.annotation p
      else if atLabel p then prefixLabel p
      else p.bump
    some (.prefixUnaryExpression, eatNl p)
  else none

def prefixUnaryExpression (p : Parser) : Parser :=
  let (m, p) := p.start
  let (kind, p) := operatorLinks (prefixUnaryPrefix g) p.rest.length none p
  let (_, p) := postfixUnaryExpression g p
  match kind with
  | some kind => p.complete m kind
  | none => p.abandon m

def asExpression : Production :=
  operatorChain (prefixUnaryExpression g) (operatorRound .asExpression [.asKw, .asSafe] g.type_)

/-! ### The levels of binary operators -/

def multiplicativeExpression : Production :=
  operatorChain (asExpression g)
    (operatorRound .binaryExpression [.star, .slash, .modulo] (asExpression g))

def additiveExpression : Production :=
  operatorChain (multiplicativeExpression g)
    (operatorRound .binaryExpression [.plus, .minus] (multiplicativeExpression g))

def rangeExpression : Production :=
  operatorChain (additiveExpression g)
    (operatorRound .rangeExpression [.range, .rangeUntil] (additiveExpression g))

/-- A name on the line of its left operand calls it infix. -/
def infixFunctionCall : Production :=
  operatorChain (rangeExpression g) fun p =>
    if p.at_ .identifier && !p.lineBreakBefore then
      some (.infixFunctionCall, rangeExpression g (eatNl p.bump))
    else none

/-- The elvis operator is the one that may start a new line. -/
def elvisExpression : Production :=
  operatorChain (infixFunctionCall g) fun p =>
    if p.at_ .elvis || (p.at_ .newline && p.nth 1 = some .elvis) then
      some (.elvisExpression, infixFunctionCall g (eatNl (eatNl p).bump))
    else none

/-- `in` and `!in` take an expression, `is` and `!is` a type. -/
def infixOperation : Production :=
  operatorChain (elvisExpression g) fun p =>
    if p.at_ .inKw || p.at_ .notIn then
      some (.inExpression, elvisExpression g (eatNl p.bump))
    else if p.at_ .isKw || p.at_ .notIs then
      some (.isExpression, g.type_ (eatNl p.bump))
    else none

def comparison : Production :=
  operatorChain (infixOperation g)
    (operatorRound .binaryExpression [.less, .greater, .lessEqual, .greaterEqual]
      (infixOperation g))

def equality : Production :=
  operatorChain (comparison g)
    (operatorRound .binaryExpression [.equalEqual, .notEqual, .sheq, .shne] (comparison g))

def conjunction : Production :=
  operatorChain (equality g) (operatorRound .binaryExpression [.and] (equality g))

def disjunction : Production :=
  operatorChain (conjunction g) (operatorRound .binaryExpression [.or] (conjunction g))

def expression (p : Parser) : Parser :=
  (disjunction g p.enterExpression).leaveExpression

end CaffeineLs.KotlinSyntax
