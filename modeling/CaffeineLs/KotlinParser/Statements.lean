/-
Module: CaffeineLs.KotlinParser.Statements
Purpose: The statement productions of the Kotlin grammar and its two entry points, a file and a
  script.
Trusted boundary: none
Main exports: statement, assignmentOrExpressionStatement, directlyAssignableExpression
-/
import CaffeineLs.KotlinParser.Expressions
import CaffeineLs.KotlinParser.Declarations

namespace CaffeineLs.KotlinParser

open Imperative
open KotlinSyntax (SyntaxKind Token)

/-! ### Assignments -/

/-- The suffixes after a parenthesized destination. The node around them starts after the
parentheses are read, so it precedes theirs. -/
def parenthesizedSuffixes (parentheses : CompletedMarker) : Parse Bool := do
  match ← postfixUnarySuffixes with
  | some last =>
      let m ← precede parentheses
      close m (some .postfixUnaryExpression)
      return last.isAssignable
  | none => return true

/-- `parenthesizedDirectlyAssignableExpression`, and the suffixes after it. -/
def parenthesizedDestination : Parse Bool := do
  let cp := (← view).checkpoint
  let m ← start
  bump
  eatNl
  let inner ← nested (invoke .directlyAssignableExpression)
  eatNl
  choose (fun p => inner && at_ .rParen p)
    (do bump
        let parentheses ← complete m .parenthesizedExpression
        parenthesizedSuffixes parentheses)
    (do abandon m
        rewind cp
        return false)

/-- Without a suffix, only a name is a destination. -/
def isDestination (isSimpleIdentifier : Bool) : Option PostfixSuffix → Bool
  | some last => last.isAssignable
  | none => isSimpleIdentifier

def directlyAssignableExpression : Parse Bool := do
  let isSimpleIdentifier ← test (both (at_ .identifier) (notAt (nthAt 1 .colonColon)))
  choose (at_ .lParen) parenthesizedDestination
    (do let last ← postfixUnaryExpression
        return isDestination isSimpleIdentifier last)

def parenthesesKind (closed : Bool) : Option SyntaxKind :=
  if closed then some .parenthesizedExpression else none

def parenthesizedAssignableExpression : Parse Bool := speculate <| nodeBy parenthesesKind do
  bump
  eatNl
  nested (invoke .assignableExpression)
  eatNl
  choose (at_ .rParen)
    (do bump
        return true)
    (return false)

def assignableExpression : Parse Unit :=
  choose (at_ .lParen)
    (do if ← parenthesizedAssignableExpression then pure () else prefixUnaryExpression)
    prefixUnaryExpression

def assignmentKind (found : Bool) : Option SyntaxKind :=
  if found then some .assignmentStatement else none

/-- After a destination: the operator and the value, if the operator is there. -/
def assignedValue (operator : Parser → Bool) : Parse Bool :=
  choose operator
    (do bump
        eatNl
        invoke .expression
        return true)
    (return false)

/-- `directlyAssignableExpression '='` -/
def directAssignment : Parse Bool := speculate <| nodeBy assignmentKind do
  let destination ← nested (invoke .directlyAssignableExpression)
  assignedValue fun p => destination && at_ .equal p

/-- `assignableExpression assignmentAndOperator` -/
def compoundAssignment : Parse Bool := speculate <| nodeBy assignmentKind do
  nested (invoke .assignableExpression)
  assignedValue atCompoundAssignmentOperator

def expressionStatement : Parse Unit := do
  node .expressionStatement (invoke .expression)
  onlyIf atAssignmentOperator do
    errorMessage "expected an assignable expression before the assignment operator"
    bump
    eatNl

def compoundOrExpressionStatement : Parse Unit := do
  if ← compoundAssignment then pure () else expressionStatement

def assignmentOrExpressionStatement : Parse Unit := do
  if ← directAssignment then pure () else compoundOrExpressionStatement

/-! ### Statements -/

def forStatement : Parse Unit := node .forStatement do
  expect .forKw
  eatNl
  expect .lParen
  eatNl
  optionalAnnotation
  choose (at_ .lParen) multiVariableDeclaration variableDeclaration
  eatNl
  expect .inKw
  eatNl
  invoke .expression
  eatNl
  expect .rParen
  eatNl
  choose (at_ .lBrace) block (onlyIf atStatement (invoke .statement))

def whileStatement : Parse Unit := node .whileStatement do
  expect .whileKw
  eatNl
  expect .lParen
  eatNl
  invoke .expression
  eatNl
  expect .rParen
  eatNl
  branchBody (onlyIf atStatement (invoke .statement))

def doWhileStatement : Parse Unit := node .doWhileStatement do
  expect .doKw
  eatNl
  choose (at_ .lBrace)
    (do block
        eatNl)
    (onlyIf atStatement do
      invoke .statement
      eatNl)
  expect .whileKw
  eatNl
  expect .lParen
  eatNl
  invoke .expression
  eatNl
  expect .rParen

/-- The labels and annotations before a statement. -/
def statementPrefix : Parse Unit := repeatWhile (either atLabel (at_ .at_)) do
  choose atLabel labelLine do
    invoke Production.annotation
    eatNl

def statement : Parse Unit := do
  statementPrefix
  choose atDeclaration (invoke .declaration) <|
    choose (at_ .forKw) forStatement <|
    choose (at_ .whileKw) whileStatement <|
    choose (at_ .doKw) doWhileStatement
      assignmentOrExpressionStatement

/-! ### Files and scripts -/

def fileAnnotationTarget : Parse Unit := node .annotationUseSiteTarget do
  expectContextualKw .file
  expect .colon
  eatNl

def fileAnnotation : Parse Unit := node .fileAnnotationNode do
  expect .at_
  fileAnnotationTarget
  choose (at_ .lBracket)
    (do bump
        eatNl
        unescapedAnnotation
        eatNl
        repeatWhile (at_ .identifier) do
          unescapedAnnotation
          eatNl
        expect .rBracket)
    unescapedAnnotation
  eatNl

def packageHeader : Parse Unit := onlyIf (at_ .packageKw) do
  node .packageHeader do
    bump
    identifier
    onlyIf (at_ .semicolon) bump
    eatNl

def importAlias : Parse Unit := node .importAlias do
  bump
  simpleIdentifier

def importPath : Parse Unit := node .importPath do
  identifier
  choose (both (at_ .dot) (nthAt 1 .star))
    (do bump
        bump)
    (onlyIf (at_ .asKw) importAlias)

def importHeader : Parse Unit := node .importHeader do
  expectContextualKw .import_
  importPath
  onlyIf (at_ .semicolon) bump
  eatNl

def importList : Parse Unit := node .importList do
  repeatWhile (atContextualKw .import_) importHeader

def compilationHeader : Parse Unit := do
  onlyIf (at_ .shebangLine) do
    bump
    eatNl
  eatNl
  repeatWhile atFileAnnotation fileAnnotation
  packageHeader
  importList

def topLevelObject : Parse Unit := do
  invoke .declaration
  semis

/-- `while !p.is_at_end()` over the declarations of a file. -/
def topLevelObjects : Parse Unit := repeatWhile (notAt isAtEnd) do
  choose (atAny [.semicolon, .newline]) semis topLevelObject

/-- `while !p.is_at_end()` over the statements of a script, a round at a call. -/
def scriptStatements : Parse Unit :=
  choose isAtEnd (pure ()) do
    choose (atAny [.semicolon, .newline]) semis do
      invoke .statement
      semi
    invoke .scriptStatements

def root : Parse Unit := node .root do
  compilationHeader
  topLevelObjects

def rootScript : Parse Unit := node .root do
  compilationHeader
  invoke .scriptStatements

/-! ### The grammar as a machine -/

def productionBody : {β : Type} → Production β → Parse β
  | _, Production.annotation => annotation
  | _, .type_ => type_
  | _, .expression => expression
  | _, .statement => statement
  | _, .declaration => declaration
  | _, .classBody => classBody
  | _, .accessors => accessors
  | _, .directlyAssignableExpression => directlyAssignableExpression
  | _, .assignableExpression => assignableExpression
  | _, .scriptStatements => scriptStatements

def machine : Machine ParseOp Production Panic Parser where
  exec := ParseOp.exec
  body := productionBody

end CaffeineLs.KotlinParser
