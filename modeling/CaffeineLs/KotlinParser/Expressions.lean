/-
Module: CaffeineLs.KotlinParser.Expressions
Purpose: The expression productions of the Kotlin grammar, from the disjunction down to the primary
  expressions, with lambdas, string templates, control flow and object literals.
Trusted boundary: none
Main exports: expression, disjunction, prefixUnaryExpression
-/
import CaffeineLs.KotlinParser.Parameters

namespace CaffeineLs.KotlinParser

open KotlinSyntax (SyntaxKind)

/-! ### Calls and suffixes -/

inductive PostfixSuffix where
  | operator | typeArguments | call | indexing | navigation
deriving DecidableEq

def PostfixSuffix.isAssignable : PostfixSuffix → Bool
  | .typeArguments | .indexing | .navigation => true
  | .operator | .call => false

def parenthesizedExpression : Parse Unit := do
  expect .lParen
  eatNl
  invoke .expression
  eatNl
  expect .rParen

def indexingSuffix : Parse Unit := do
  expect .lBracket
  eatNl
  commaList .rBracket (invoke .expression)
  eatNl
  expect .rBracket

def navigationMember : Parse Unit :=
  choose (at_ .classKw) bump
    (choose (at_ .lParen) parenthesizedExpression
      (choose (at_ .identifier) simpleIdentifier
        (errorMessage "expected an identifier after the navigation operator")))

def navigationSuffix : Parse Unit := do
  eatNl
  node .navigationSuffix do
    bump
    eatNl
    navigationMember

/-- `label@` with the line breaks after it. -/
def labelLine : Parse Unit := node .label do
  simpleIdentifier
  expect .at_
  eatNl

/-! ### Lambdas -/

def lambdaParameter : Parse Unit := node .lambdaParameter do
  choose (at_ .lParen)
    (do bump
        eatNl
        separated variableDeclaration
        eatNl
        expect .rParen
        optionalType)
    variableDeclaration

def lambdaParameters : Parse Unit := node .lambdaParameters do
  commaList .arrow lambdaParameter
  eatNl

/-- Parameters up to an arrow: without the arrow they were no parameters. -/
def lambdaHeader : Parse Bool := speculate do
  lambdaParameters
  eatNl
  choose (at_ .arrow)
    (do bump
        eatNl
        return true)
    (return false)

def lambdaLiteral : Parse Unit := node .lambdaLiteral do
  expect .lBrace
  eatNl
  onlyIf atLambdaHeader do
    let _ ← lambdaHeader
  statements
  semis
  eatNl
  expect .rBrace

def annotatedLambda : Parse Unit := do
  annotations
  onlyIf atLabel labelLine
  lambdaLiteral

def atAnnotatedLambda : Parser → Bool :=
  both (either (either (at_ .lBrace) (at_ .at_)) atLabel) Parser.trailingLambdaAllowed

def atNavigationSuffix : Parser → Bool :=
  either (atAny [.dot, .safeAccess, .colonColon])
    (both (at_ .newline) (either (nthAt 1 .dot) (nthAt 1 .safeAccess)))

def postfixUnarySuffix : Parse (Option PostfixSuffix) :=
  choose (atAny [.plusPlus, .minusMinus, .notNullAssert])
    (do bump
        return some .operator)
    (choose (at_ .lParen)
      (do node .callExpression valueArguments
          return some .call)
      (choose (at_ .lBracket)
        (do node .indexingExpression indexingSuffix
            return some .indexing)
        (choose atAnnotatedLambda
          (do node .callExpression annotatedLambda
              return some .call)
          (choose (both (at_ .less) atTypeArguments)
            (do typeArguments
                return some .typeArguments)
            (choose atNavigationSuffix
              (do navigationSuffix
                  return some .navigation)
              (return none))))))

/-- The suffixes after a primary expression, and the last of them. -/
def postfixUnarySuffixes : Parse (Option PostfixSuffix) :=
  repeatSome (fun _ suffix => suffix) postfixUnarySuffix

/-! ### Strings -/

/-- Consumes up to the `}` that closes `depth` braces, or to the end. -/
def templateRecovery (depth : Nat) : Parse Unit :=
  .loop (fun depth =>
    choose (atAny [.templateExprStart, .lBrace])
      (do bump
          return .inl (depth + 1))
      (choose (at_ .rBrace)
        (do bump
            return if depth - 1 = 0 then .inr () else .inl (depth - 1))
        (choose (fun p => p.current = some .eof || p.current = none) (return .inr ())
          (do bump
              return .inl depth))))
    depth .pure

def stringTemplateEntry : Parse Unit :=
  choose (at_ .templateShortStart)
    (node .stringTemplate do
      bump
      choose (at_ .identifier) simpleIdentifier (onlyIf (atAny [.thisKw, .superKw]) bump))
    (choose (at_ .templateExprStart)
      (node .stringTemplate do
        bump
        eatNl
        onlyIf (notAt (at_ .rBrace)) do
          invoke .expression
          eatNl
        choose (at_ .rBrace) bump (templateRecovery 1))
      bump)

/-- `while !p.at(quote) && !p.is_at_end() { string_template_entry(p); }` and the quote. -/
def stringRest (quote : SyntaxKind) : Parse Unit := do
  repeatWhile (neither (at_ quote) isAtEnd) stringTemplateEntry
  expect quote

def stringLiteral : Parse Unit :=
  choose (at_ .openRawQuote)
    (do bump
        eatNl
        stringRest .closeRawQuote)
    (do bump
        stringRest .closeQuote)

/-! ### Control flow -/

/-- `if p.at(L_BRACE) { block } else if p.at(SEMICOLON) { bump } else other` -/
def branchBody (other : Parse Unit) : Parse Unit :=
  choose (at_ .lBrace) block (choose (at_ .semicolon) bump other)

def ifExpression : Parse Unit := node .ifExpression do
  expect .ifKw
  eatNl
  expect .lParen
  eatNl
  invoke .expression
  eatNl
  expect .rParen
  eatNl
  branchBody (onlyIf (notAt (at_ .elseKw)) (invoke .statement))
  eatNl
  onlyIf (at_ .elseKw) do
    bump
    eatNl
    branchBody (invoke .statement)

def whenSubject : Parse Unit := node .whenSubject do
  bump
  eatNl
  annotations
  onlyIf (at_ .valKw) do
    bump
    eatNl
    variableDeclaration
    expect .equal
    eatNl
  invoke .expression
  eatNl
  expect .rParen

def whenCondition : Parse Unit :=
  choose (atAny [.inKw, .notIn])
    (node .rangeTest do
      bump
      eatNl
      invoke .expression)
    (choose (atAny [.isKw, .notIs])
      (node .typeTest do
        bump
        eatNl
        invoke .type_)
      (invoke .expression))

def whenGuard : Parse Unit := onlyIf (at_ .ifKw) do
  node .whenGuard do
    bump
    eatNl
    invoke .expression

/-- The arrow of an entry and what follows it. -/
def whenArm : Parse Unit := do
  whenGuard
  expect .arrow
  eatNl
  controlStructureBody
  eatNl
  onlyIf (at_ .semicolon) bump

def whenEntry : Parse Unit := node .whenEntry do
  eatNl
  choose (at_ .elseKw)
    (do bump
        eatNl
        whenArm)
    (do commaList .arrow whenCondition
        eatNl
        whenArm)

/-- An entry, or the next token when the entry consumed none. -/
def whenRound : Parse Unit := do
  let before := (← view).cursor
  whenEntry
  onlyIf (fun p => p.cursor = before) do
    errorMessage "expected a when entry"
    bump
  eatNl

def whenExpression : Parse Unit := node .whenExpression do
  expect .whenKw
  eatNl
  onlyIf (at_ .lParen) whenSubject
  eatNl
  expect .lBrace
  eatNl
  repeatWhile (neither (at_ .rBrace) isAtEnd) whenRound
  eatNl
  expect .rBrace

def catchBlock : Parse Unit := node .catchBlock do
  expectContextualKw .catch_
  eatNl
  expect .lParen
  eatNl
  annotations
  choose (at_ .underscore) bump simpleIdentifier
  expect .colon
  eatNl
  invoke .type_
  eatNl
  onlyIf (at_ .comma) do
    bump
    eatNl
  expect .rParen
  eatNl
  block

def finallyBlock : Parse Unit := node .finallyBlock do
  expectContextualKw .finally_
  eatNl
  block

/-- The `while` reads nothing where there is no `catch`, so one `finally` serves both branches. -/
def tryExpression : Parse Unit := node .tryExpression do
  expect .tryKw
  eatNl
  block
  eatNl
  repeatWhile (atContextualKw .catch_) do
    catchBlock
    eatNl
  onlyIf (atContextualKw .finally_) finallyBlock

def labelSuffix : Parse Unit := node .label do
  expect .at_
  onlyIf (at_ .identifier) simpleIdentifier

def jumpExpression : Parse Unit := node .jumpExpression do
  choose (at_ .throwKw)
    (do bump
        eatNl
        onlyIf atExpression (invoke .expression))
    (choose (at_ .returnKw)
      (do bump
          eatNl
          onlyIf (at_ .at_) do
            labelSuffix
            eatNl
          onlyIf (both atExpression (notAt lineBreakBefore)) (invoke .expression))
      (onlyIf (atAny [.continueKw, .breakKw]) do
        bump
        onlyIf (at_ .at_) labelSuffix))

/-! ### Primary expressions -/

def collectionLiteral : Parse Unit := node .collectionLiteral do
  delimited .lBracket .rBracket (commaList .rBracket (invoke .expression))

def callableReference : Parse Unit := node .callableReference do
  onlyIf (at_ .identifier) userType
  expect .colonColon
  eatNl
  choose (at_ .classKw) bump simpleIdentifier

/-- `@name` after `this` or `super`. -/
def qualifyingLabel : Parse Unit := onlyIf (both (at_ .at_) (nthAt 1 .identifier)) do
  bump
  simpleIdentifier

def superExpression : Parse Unit := node .superExpression do
  bump
  onlyIf (at_ .less) do
    bump
    eatNl
    invoke .type_
    eatNl
    expect .greater
  qualifyingLabel

def objectLiteral : Parse Unit := node .objectLiteral do
  onlyIf (atContextualKw .data) do
    bump
    eatNl
  expect .objectKw
  eatNl
  optionalSupertypes
  onlyIf (at_ .lBrace) (invoke .classBody)

def anonymousFunction : Parse Unit := node .anonymousFunction do
  onlyIf (atContextualKw .suspend) do
    bump
    eatNl
  expect .funKw
  eatNl
  onlyIf atReceiverType do
    receiverType
    eatNl
  parametersWithOptionalType
  eatNl
  optionalTypeLine
  optionalTypeConstraints
  functionBody

def primaryExpression : Parse Unit :=
  choose (at_ .lParen) (node .parenthesizedExpression parenthesizedExpression) <|
  choose (at_ .lBracket) collectionLiteral <|
  choose (at_ .lBrace) lambdaLiteral <|
  choose atCallableReference callableReference <|
  choose (at_ .identifier) (node .primaryExpression bump) <|
  choose (at_ .thisKw)
    (node .thisExpression do
      bump
      qualifyingLabel) <|
  choose (at_ .superKw) superExpression <|
  choose (atAny [.trueKw, .falseKw, .nullKw, .integerLiteral, .floatLiteral, .charLiteral])
    (node .primaryExpression bump) <|
  choose (atAny [.openQuote, .openRawQuote]) (node .stringLiteral stringLiteral) <|
  choose (at_ .ifKw) ifExpression <|
  choose (at_ .whenKw) whenExpression <|
  choose (at_ .tryKw) tryExpression <|
  choose (atAny [.throwKw, .returnKw, .continueKw, .breakKw]) jumpExpression <|
  choose (at_ .objectKw) objectLiteral <|
  choose (at_ .funKw) anonymousFunction <|
  node .primaryExpression (errorExpectedConstruct .expression)

/-! ### The levels of the expression grammar -/

def postfixKind (last : Option PostfixSuffix) : Option SyntaxKind :=
  last.map fun _ => .postfixUnaryExpression

def postfixUnaryExpression : Parse (Option PostfixSuffix) := nodeBy postfixKind do
  primaryExpression
  postfixUnarySuffixes

/-- One flat node over the operands of a level, and none where there is no operator. -/
def level (operand : Parse Unit) (operator : Parse (Option SyntaxKind)) : Parse Unit := do
  let _ ← nodeBy id do
    operand
    repeatSome keepFirst operator

/-- `while t { p.bump(); eat_nl(p); operand(p); }` -/
def operatorThen (t : Parser → Bool) (kind : SyntaxKind) (operand : Parse Unit) :
    Parse (Option SyntaxKind) :=
  choose t
    (do bump
        eatNl
        operand
        return some kind)
    (return none)

def unaryPrefix : Parse Unit := do
  choose (at_ .at_) (invoke Production.annotation)
    (choose atLabel
      (node .label do
        simpleIdentifier
        expect .at_)
      bump)
  eatNl

def prefixUnaryExpression : Parse Unit := do
  let _ ← nodeBy id do
    let kind ← repeatSome keepFirst
      (choose atPrefixUnaryPrefix
        (do unaryPrefix
            return some .prefixUnaryExpression)
        (return none))
    let _ ← postfixUnaryExpression
    return kind

def asExpression : Parse Unit :=
  level prefixUnaryExpression
    (operatorThen (atAny [.asKw, .asSafe]) .asExpression (invoke .type_))

def multiplicativeExpression : Parse Unit :=
  level asExpression
    (operatorThen (atAny [.star, .slash, .modulo]) .binaryExpression asExpression)

def additiveExpression : Parse Unit :=
  level multiplicativeExpression
    (operatorThen (atAny [.plus, .minus]) .binaryExpression multiplicativeExpression)

def rangeExpression : Parse Unit :=
  level additiveExpression
    (operatorThen (atAny [.range, .rangeUntil]) .rangeExpression additiveExpression)

def infixFunctionCall : Parse Unit :=
  level rangeExpression
    (operatorThen (both (at_ .identifier) (notAt lineBreakBefore)) .infixFunctionCall
      rangeExpression)

def elvisExpression : Parse Unit :=
  level infixFunctionCall
    (choose (either (at_ .elvis) (both (at_ .newline) (nthAt 1 .elvis)))
      (do eatNl
          bump
          eatNl
          infixFunctionCall
          return some .elvisExpression)
      (return none))

def infixOperation : Parse Unit :=
  level elvisExpression
    (choose (atAny [.inKw, .notIn])
      (do bump
          eatNl
          elvisExpression
          return some .inExpression)
      (operatorThen (atAny [.isKw, .notIs]) .isExpression (invoke .type_)))

def comparison : Parse Unit :=
  level infixOperation
    (operatorThen (atAny [.less, .greater, .lessEqual, .greaterEqual]) .binaryExpression
      infixOperation)

def equality : Parse Unit :=
  level comparison
    (operatorThen (atAny [.equalEqual, .notEqual, .sheq, .shne]) .binaryExpression comparison)

def conjunction : Parse Unit :=
  level equality (operatorThen (atAny [.and]) .binaryExpression equality)

def disjunction : Parse Unit :=
  level conjunction (operatorThen (atAny [.or]) .binaryExpression conjunction)

def expression : Parse Unit := nested disjunction

end CaffeineLs.KotlinParser
