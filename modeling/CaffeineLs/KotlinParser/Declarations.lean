/-
Module: CaffeineLs.KotlinParser.Declarations
Purpose: The declaration productions of the Kotlin grammar: classes, enums, objects, functions,
  properties with their accessors, type aliases and class bodies.
Trusted boundary: none
Main exports: declaration, classBody, accessors
-/
import CaffeineLs.KotlinParser.Parameters

namespace CaffeineLs.KotlinParser

open KotlinSyntax (SyntaxKind)

/-- `if p.at(L_BRACE) { class_body(p); }` -/
def optionalClassBody : Parse Unit := onlyIf (at_ .lBrace) (invoke .classBody)

/-! ### Classes -/

def classParameter : Parse Unit := node .classParameter do
  modifiers
  eatNl
  onlyIf (atAny [.valKw, .varKw]) do
    bump
    eatNl
  simpleIdentifier
  expect .colon
  eatNl
  invoke .type_
  eatNl
  optionalValue

def classParameters : Parse Unit := node .classParameters do
  delimited .lParen .rParen (commaList .rParen classParameter)

def primaryConstructor : Parse Unit := node .primaryConstructor do
  choose (atContextualKw .constructor)
    (do bump
        eatNl)
    (onlyIf (either (at_ .at_) atModifier) do
      modifiers
      eatNl
      expectContextualKw .constructor
      eatNl)
  classParameters

def enumEntry : Parse Unit := node .enumEntry do
  modifiers
  eatNl
  simpleIdentifier
  eatNl
  onlyIf (at_ .lParen) do
    valueArguments
    eatNl
  optionalClassBody

def enumEntries : Parse Unit := node .enumEntries do
  enumEntry
  commaRest eatNl (atAny [.rBrace, .semicolon]) enumEntry
  eatNl

/-! ### Members -/

def companionObject : Parse Unit := node .companionObject do
  modifiers
  eatNl
  expectContextualKw .companion
  eatNl
  onlyIf (atContextualKw .data) do
    bump
    eatNl
  expect .objectKw
  eatNl
  onlyIf (at_ .identifier) do
    simpleIdentifier
    eatNl
  optionalSupertypes
  optionalClassBody

def anonymousInitializer : Parse Unit := node .anonymousInitializer do
  expectContextualKw .init
  eatNl
  block

def constructorDelegationCall : Parse Unit := node .constructorDelegationCall do
  onlyIf (atAny [.thisKw, .superKw]) do
    bump
    eatNl
    valueArguments

def secondaryConstructor : Parse Unit := node .secondaryConstructor do
  modifiers
  eatNl
  expectContextualKw .constructor
  eatNl
  functionValueParameters
  eatNl
  onlyIf (at_ .colon) do
    bump
    eatNl
    constructorDelegationCall
    eatNl
  onlyIf (at_ .lBrace) block

/-- The member that a keyword announces. -/
def memberOf : Option ContextualKeyword → Parse Unit
  | some .companion => companionObject
  | some .init => anonymousInitializer
  | some .constructor => secondaryConstructor
  | _ => invoke .declaration

def classMemberDeclaration : Parse Unit := do
  eatNl
  memberOf (classMemberKeyword (← view).toTokenSource)

def classMemberRound : Parse Unit :=
  choose (atAny [.semicolon, .newline])
    (do semis
        eatNl)
    (do classMemberDeclaration
        semis
        eatNl)

def classBody : Parse Unit := node .classBody do
  expect .lBrace
  eatNl
  repeatWhile (neither (at_ .rBrace) isAtEnd) classMemberRound
  semis
  eatNl
  expect .rBrace

def enumMembers : Parse Unit := onlyIf (at_ .semicolon) do
  semis
  eatNl
  repeatWhile (neither (at_ .rBrace) isAtEnd) do
    classMemberDeclaration
    semis
    eatNl

def enumClassBody : Parse Unit := node .enumClassBody do
  expect .lBrace
  eatNl
  onlyIf (neither (at_ .rBrace) (at_ .semicolon)) enumEntries
  enumMembers
  semis
  eatNl
  expect .rBrace

/-- The keyword of a class or an interface, and whether it is the former. -/
def classKeyword : Parse Bool :=
  choose (at_ .interfaceKw)
    (do bump
        return false)
    (do expect .classKw
        return true)

/-- The body of an enum class is read in another way. -/
def bodyOf (isEnum : Bool) : Parse Unit :=
  onlyIf (at_ .lBrace) (if isEnum then enumClassBody else invoke .classBody)

def classDeclaration : Parse Unit := node .classDecl do
  let hasEnum ← modifiersAndFlag (atContextualKw .enum)
  eatNl
  onlyIf (at_ .funKw) do
    bump
    eatNl
  let isClass ← classKeyword
  eatNl
  simpleIdentifier
  eatNl
  optionalTypeParameters
  onlyIf atPrimaryConstructor do
    primaryConstructor
    eatNl
  optionalSupertypes
  optionalTypeConstraints
  bodyOf (isClass && hasEnum)

def objectDeclaration : Parse Unit := node .objectDecl do
  modifiers
  eatNl
  expect .objectKw
  eatNl
  simpleIdentifier
  eatNl
  optionalSupertypes
  optionalClassBody

def typeAlias : Parse Unit := node .typeAlias do
  modifiers
  eatNl
  expect .typealiasKw
  eatNl
  simpleIdentifier
  eatNl
  optionalTypeParameters
  expect .equal
  eatNl
  invoke .type_

/-! ### Functions and properties -/

def receiverSegmentTail : Parse Unit := do
  onlyIf (at_ .less) do
    typeArguments
    eatNl
  repeatWhile (at_ .question) do
    bump
    eatNl

def receiverSegment : Parse Unit := do
  simpleIdentifier
  eatNl
  receiverSegmentTail

/-- The segments of a receiver, up to the `.` before the name. -/
def receiverSegments : Parse Bool := do
  receiverSegment
  repeatWhile (both (both (at_ .dot) (nthAt 1 .identifier)) segmentContinuesAfterTypeArgs) do
    bump
    eatNl
    receiverSegment
  test (at_ .dot)

def receiverKind (found : Bool) : Option SyntaxKind := if found then some .receiverType else none

def parseReceiverType : Parse Bool :=
  choose (at_ .identifier) (speculate (nodeBy receiverKind receiverSegments)) (return false)

/-- `if parse_receiver_type(p) { p.expect(DOT); eat_nl(p); }` -/
def optionalReceiver : Parse Unit := do
  if ← parseReceiverType then
    expect .dot
    eatNl
  else
    pure ()

def functionDeclaration : Parse Unit := node .functionDecl do
  modifiers
  eatNl
  expect .funKw
  eatNl
  optionalTypeParameters
  optionalReceiver
  simpleIdentifier
  eatNl
  functionValueParameters
  eatNl
  optionalTypeLine
  optionalTypeConstraints
  functionBody

def getter : Parse Unit := node .getter do
  modifiers
  expectContextualKw .get
  onlyIf (at_ .lParen) do
    bump
    eatNl
    expect .rParen
    eatNl
  optionalTypeLine
  functionBody

def setterParameter : Parse Unit := do
  functionValueParameterWithOptionalType
  eatNl
  onlyIf (at_ .comma) do
    bump
    eatNl

def setter : Parse Unit := node .setter do
  modifiers
  expectContextualKw .set
  onlyIf (at_ .lParen) do
    bump
    eatNl
    onlyIf (notAt (at_ .rParen)) setterParameter
    eatNl
    expect .rParen
    eatNl
  optionalTypeLine
  functionBody

/-- A round of the loop over the accessors, which goes on with the next. -/
def accessorRound : Option Accessor → Parse Unit
  | some .get => do
      getter
      eatNl
      invoke .accessors
  | some .set => do
      setter
      eatNl
      invoke .accessors
  | none => pure ()

/-- The accessors of a property. -/
def accessors : Parse Unit := do
  accessorRound (accessorKind (← view).toTokenSource)

def propertyValue : Parse Unit :=
  choose (at_ .equal)
    (do bump
        eatNl
        invoke .expression
        eatNl)
    (onlyIf (atContextualKw .by_) do
      node .propertyDelegate do
        bump
        eatNl
        invoke .expression
      eatNl)

def propertyDeclaration : Parse Unit := node .propertyDecl do
  modifiers
  eatNl
  choose (at_ .valKw) bump (expect .varKw)
  eatNl
  optionalTypeParameters
  optionalReceiver
  choose (at_ .lParen) multiVariableDeclaration variableDeclaration
  eatNl
  optionalTypeConstraints
  propertyValue
  onlyIf (at_ .semicolon) bump
  invoke .accessors

/-! ### Dispatch -/

def declarationOf : Option SyntaxKind → Parse Unit
  | some .classKw => classDeclaration
  | some .interfaceKw => classDeclaration
  | some .funKw => choose atFunInterface classDeclaration functionDeclaration
  | some .objectKw => objectDeclaration
  | some .valKw | some .varKw => propertyDeclaration
  | some .typealiasKw => typeAlias
  | _ => do
      errorExpectedConstruct .declaration
      bump

def declaration : Parse Unit := do
  eatNl
  declarationOf (declarationKeyword (← view).toTokenSource)

end CaffeineLs.KotlinParser
