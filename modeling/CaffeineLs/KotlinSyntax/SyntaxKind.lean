/-
Module: CaffeineLs.KotlinSyntax.SyntaxKind
Purpose: Token and node kinds of the Kotlin syntax trees.
Trusted boundary: none
Main exports: SyntaxKind, SyntaxKind.isTrivia
-/
import Mathlib.Tactic.Common

namespace CaffeineLs.KotlinSyntax

/-- Tokens first, then nodes; `root` is the last variant. -/
inductive SyntaxKind where
  | lParen | rParen | lBrace | rBrace | dot | comma | templateShortStart | templateExprStart
  | escapeSequence | openQuote | closeQuote | openRawQuote | closeRawQuote | stringContent
  | stringLiteral | integerLiteral | floatLiteral | charLiteral | plus | minus | star | slash
  | modulo | equal | plusEqual | minusEqual | mulEqual | divEqual | moduloEqual | plusPlus
  | minusMinus | and | bitAnd | or | not | equalEqual | notEqual | sheq | shne | less | greater
  | lessEqual | greaterEqual | lBracket | rBracket | notNullAssert | safeAccess | elvis
  | colonColon | range | rangeUntil | colon | question | arrow | at_ | semicolon | dollar
  | underscore | asKw | asSafe | breakKw | classKw | continueKw | doKw | ifKw | elseKw | falseKw
  | forKw | funKw | inKw | notIn | interfaceKw | isKw | notIs | nullKw | objectKw | packageKw
  | returnKw | superKw | thisKw | throwKw | trueKw | tryKw | typealiasKw | typeofKw | valKw
  | varKw | whenKw | whileKw | shebangLine | identifier | whitespace | kdoc | lineComment
  | blockComment | newline | eof | missing | error | modifierList | annotationNode
  | annotationUseSiteTarget | qualifiedName | importPath | importAlias | fileAnnotationNode
  | packageHeader | importList | importHeader | typeAlias | classDecl | objectDecl
  | companionObject | classBody | classParameters | classParameter | anonymousInitializer
  | primaryConstructor | secondaryConstructor | delegationSpecifiers | delegationSpecifier
  | constructorInvocation | explicitDelegation | constructorDelegationCall | enumClassBody
  | enumEntries | enumEntry | functionDecl | valueParameters | valueParameter | propertyDecl
  | variableDeclaration | multiVariableDeclaration | propertyDelegate | getter | setter
  | typeParameters | typeParameter | typeConstraints | typeConstraint | typeNode | userType
  | nullableType | definitelyNonNullableType | parenthesizedType | functionType | receiverType
  | typeArguments | typeProjection | primaryExpression | prefixUnaryExpression
  | postfixUnaryExpression | binaryExpression | rangeExpression | elvisExpression | asExpression
  | isExpression | inExpression | infixFunctionCall | valueArguments | valueArgument
  | callExpression | indexingExpression | navigationSuffix | collectionLiteral
  | callableReference | parenthesizedExpression | lambdaLiteral | lambdaParameters
  | lambdaParameter | anonymousFunction | objectLiteral | thisExpression | superExpression
  | ifExpression | whenExpression | whenSubject | whenEntry | whenGuard | rangeTest | typeTest
  | tryExpression | catchBlock | finallyBlock | jumpExpression | stringTemplate | block
  | expressionStatement | assignmentStatement | label | forStatement | whileStatement
  | doWhileStatement | root
deriving DecidableEq

/-- Tokens the parser never sees; line breaks are significant and stay. -/
def SyntaxKind.isTrivia : SyntaxKind → Bool
  | .whitespace | .lineComment | .blockComment | .kdoc => true
  | _ => false

end CaffeineLs.KotlinSyntax
