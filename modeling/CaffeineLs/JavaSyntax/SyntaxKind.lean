/-
Module: CaffeineLs.JavaSyntax.SyntaxKind
Purpose: Token and node kinds of the Java syntax trees.
Trusted boundary: none
Main exports: SyntaxKind
-/
import Mathlib.Tactic.Common

namespace CaffeineLs.JavaSyntax

/-- Tokens first, then nodes; `root` is the last variant. -/
inductive SyntaxKind where
  | lParen | rParen | lBrace | rBrace | lBracket | rBracket | stringLiteral | integerLiteral
  | floatLiteral | stringTemplateBegin | stringTemplateMid | stringTemplateEnd
  | textBlockTemplateBegin | textBlockTemplateMid | textBlockTemplateEnd | nullLiteral
  | trueLiteral | falseLiteral | charLiteral | semicolon | dot | at_ | plus | minus | star
  | slash | lessEqual | less | greater | greaterEqual | equalEqual | equal | or | bitOr | orEqual
  | and | bitAnd | andEqual | not | tilde | modulo | caret | divideEqual | notEqual
  | multipleEqual | plusEqual | plusPlus | minusEqual | minusMinus | xorEqual | moduloEqual
  | leftShiftEqual | rightShiftEqual | unsignedRightShiftEqual | leftShift | rightShift
  | unsignedRightShift | comma | question | arrow | colonColon | colon | ellipsis | textBlock
  | underscore | packageKw | importKw | classKw | publicKw | privateKw | protectedKw | finalKw
  | staticKw | voidKw | byteKw | enumKw | interfaceKw | abstractKw | forKw | whileKw | continueKw
  | breakKw | instanceofKw | returnKw | transientKw | extendsKw | implementsKw | newKw | assertKw
  | switchKw | caseKw | defaultKw | synchronizedKw | doKw | ifKw | elseKw | thisKw | superKw
  | volatileKw | nativeKw | throwKw | throwsKw | tryKw | catchKw | finallyKw | strictfpKw
  | doubleKw | intKw | shortKw | longKw | floatKw | charKw | booleanKw | gotoKw | constKw
  | lineComment | blockComment | javadocLine | javadoc | whitespace | unknown | identifier | eof
  | missing | error | qualifiedName | typeNode | nameRef | assignmentExpr | postfixExpr
  | prefixExpr | methodCall | newExpr | methodReference | superExpr | thisExpr | castExpr
  | instanceofExpr | lambdaExpr | switchExpr | condExpr | assignExpr | primitiveTypeExpr
  | literal | classLiteral | templateExpr | templateArgument | parenExpr | unaryExpr
  | fieldAccess | arrayAccess | binaryExpr | typeParameters | typeParameter | typeBound
  | typeArguments | typeArgument | wildcardType | wildcardBounds | variableDeclaratorList
  | variableDeclarator | localVariableDeclarationStmt | localVariableDeclaration | expressionStmt
  | emptyStmt | yieldStmt | returnStmt | throwStmt | breakStmt | continueStmt | assertStmt
  | ifStmt | whileStmt | switchStmt | synchronizedStmt | doStmt | tryStmt | forStmt
  | enhancedForStmt | tryWithResourcesStmt | labeledStmt | resourceSpecification | resource
  | variableAccess | parenthesizedExpr | dimension | dimensions | arrayType | arrayAccessExpr
  | arrayInitializer | modifierList | argumentList | inferredParameters | formalParameters
  | formalParameter | spreadParameter | annotationNode | markerAnnotationNode
  | annotationArgumentList | elementValuePair | classDecl | packageDecl | importDecl | importPath
  | fieldDecl | methodDecl | interfaceDecl | annotationTypeDecl | annotationTypeElementDecl
  | recordDecl | enumDecl | moduleDecl | moduleName | requiresDirective | exportsDirective
  | opensDirective | usesDirective | providesDirective | compactConstructorDecl | constructorDecl
  | emptyDecl | enumConstant | staticInitializer | instanceInitializer | block | switchBlock
  | switchRule | switchBlockStatementGroup | switchLabel | typePattern | recordPattern
  | matchAllPattern | classBody | enumBody | interfaceBody | recordBody | annotationTypeBody
  | moduleBody | extendsClause | throwsClause | interfaceExtendsClause | implementsClause
  | permitsClause | catchType | catchClause | catchFormalParameter | finallyClause | root
deriving DecidableEq

end CaffeineLs.JavaSyntax
