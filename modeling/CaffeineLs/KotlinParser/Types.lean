/-
Module: CaffeineLs.KotlinParser.Types
Purpose: The productions of the Kotlin grammar for value arguments, annotations, modifiers and types.
Trusted boundary: none
Main exports: valueArguments, annotation, modifiers
-/
import CaffeineLs.KotlinParser.Lookahead

namespace CaffeineLs.KotlinParser

open KotlinSyntax (SyntaxKind)

/-- `item {',' item} [',']` before the closing token. -/
def commaList (closer : SyntaxKind) (item : Parse Unit) : Parse Unit := do
  item
  commaRest eatNl (at_ closer) item

/-- `open {NL} [item {',' item} [',']] {NL} close`, where the list may be empty. -/
def delimited (opener closer : SyntaxKind) (items : Parse Unit) : Parse Unit := do
  expect opener
  eatNl
  onlyIf (notAt (at_ closer)) items
  eatNl
  expect closer

/-- The first of the values found. -/
def keepFirst {α : Type} (found : Option α) (a : α) : α := found.getD a

/-! ### Arguments -/

def valueArgument : Parse Unit := node .valueArgument do
  onlyIf (at_ .at_) do
    invoke Production.annotation
    eatNl
  onlyIf (both (at_ .identifier) (nthAt 1 .equal)) do
    simpleIdentifier
    expect .equal
    eatNl
  onlyIf (at_ .star) do
    bump
    eatNl
  invoke .expression

def valueArguments : Parse Unit := node .valueArguments do
  delimited .lParen .rParen (commaList .rParen valueArgument)

/-! ### Types -/

def typeProjectionModifiers : Parse Unit :=
  repeatWhile (either (either (at_ .inKw) (atContextualKw .out)) (at_ .at_)) do
    choose (either (at_ .inKw) (atContextualKw .out))
      (do bump
          eatNl)
      (invoke Production.annotation)

def typeProjection : Parse Unit := node .typeProjection do
  choose (at_ .star) bump do
    typeProjectionModifiers
    eatNl
    invoke .type_

def typeArguments : Parse Unit := node .typeArguments do
  delimited .less .greater (commaList .greater typeProjection)

/-- A segment of a `userType`. -/
def simpleUserType : Parse Unit := do
  simpleIdentifier
  eatNl
  onlyIf (at_ .less) do
    typeArguments
    eatNl

def userType : Parse Unit := node .userType do
  simpleUserType
  repeatWhile (both (at_ .dot) (nthAt 1 .identifier)) do
    bump
    eatNl
    simpleUserType

def typeModifiers : Parse Unit := repeatWhile atTypeModifier do
  choose (at_ .at_) (invoke Production.annotation) bump
  eatNl

def typeReference : Parse Unit := choose (atContextualKw .dynamic) bump userType

def parenthesizedType : Parse Unit := do
  expect .lParen
  eatNl
  invoke .type_
  eatNl
  expect .rParen

def nullableQuests : Parse Unit := repeatWhile (at_ .question) bump

def definitelyNonNullableRest : Parse Unit := do
  expect .bitAnd
  eatNl
  typeModifiers
  eatNl
  choose (at_ .lParen) parenthesizedType userType

/-- How the type of a receiver ends. -/
inductive ReceiverEnd where
  | plain | nullable | safeAccess
deriving DecidableEq

def ReceiverEnd.kind : ReceiverEnd → Option SyntaxKind
  | .plain => none
  | .nullable | .safeAccess => some .nullableType

/-- The quests of a receiver's type. A safe access is the quest and the separator in one token. -/
def receiverQuests : Parse ReceiverEnd :=
  choose (at_ .question)
    (do nullableQuests
        eatNl
        return .nullable)
    (choose (at_ .safeAccess)
      (do bump
          return .safeAccess)
      (return .plain))

/-- The separator after a receiver's type, unless it was read with the quest. -/
def receiverSeparator : ReceiverEnd → Parse Unit
  | .safeAccess => pure ()
  | .plain | .nullable => expect .dot

def receiverType : Parse Unit := node .receiverType do
  typeModifiers
  eatNl
  let ending ← nodeBy ReceiverEnd.kind do
    choose (at_ .lParen)
      (do node .parenthesizedType parenthesizedType
          eatNl)
      (do typeReference
          eatNl)
    receiverQuests
  receiverSeparator ending

def functionTypeParameter : Parse Unit :=
  choose (both (at_ .identifier) (nthAt 1 .colon))
    (node .valueParameter do
      simpleIdentifier
      expect .colon
      eatNl
      invoke .type_)
    (invoke .type_)

/-- As `commaList`, with line breaks before a comma as well. -/
def functionTypeParameterList : Parse Unit := do
  functionTypeParameter
  eatNl
  commaRest eatNl (at_ .rParen) do
    functionTypeParameter
    eatNl

def functionTypeParameters : Parse Unit := node .valueParameters do
  delimited .lParen .rParen functionTypeParameterList

def functionType : Parse Unit := node .functionType do
  onlyIf atReceiverType do
    receiverType
    eatNl
  functionTypeParameters
  eatNl
  expect .arrow
  eatNl
  invoke .type_

/-- What follows a type's head decides the kind of the whole type. -/
def typeTail : Parse SyntaxKind :=
  choose (at_ .question)
    (do nullableQuests
        return .nullableType)
    (choose (at_ .bitAnd)
      (do definitelyNonNullableRest
          return .definitelyNonNullableType)
      (return .typeNode))

/-- A type after its modifiers. The node of a parenthesized head reaches to the end of the type. -/
def typeHead : Parse SyntaxKind :=
  choose atFunctionType
    (do functionType
        return .typeNode)
    (choose (both (at_ .lParen) (notAt (nthAt 1 .rParen)))
      (node .parenthesizedType do
        parenthesizedType
        eatNl
        typeTail)
      (choose (at_ .identifier)
        (do loose do
              typeReference
              eatNl
            typeTail)
        (do errorMessage "expected a type"
            return .typeNode)))

def type_ : Parse Unit := do
  let _ ← nodeBy some do
    typeModifiers
    eatNl
    typeHead

/-! ### Annotations and modifiers -/

def unescapedAnnotation : Parse Unit := do
  userType
  onlyIf (at_ .lParen) valueArguments

def annotationUseSiteTarget : Parse Unit := node .annotationUseSiteTarget do
  simpleIdentifier
  expect .colon
  eatNl

def annotation : Parse Unit := node .annotationNode do
  expect .at_
  onlyIf (both (at_ .identifier) (nthAt 1 .colon)) annotationUseSiteTarget
  choose (at_ .lBracket)
    (do bump
        eatNl
        unescapedAnnotation
        eatNl
        repeatWhile (at_ .identifier) do
          unescapedAnnotation
          eatNl
        expect .rBracket)
    unescapedAnnotation
  eatNl

/-- `while p.at(AT) { annotation(p); eat_nl(p); }` -/
def annotations : Parse Unit := repeatWhile (at_ .at_) do
  invoke Production.annotation
  eatNl

/-- One annotation and line breaks, if there is an annotation. -/
def optionalAnnotation : Parse Unit := onlyIf (at_ .at_) do
  invoke Production.annotation
  eatNl

/-- The list of modifiers, and whether `flag` held at one of them; `None` for an empty list. -/
def modifierRounds (flag : Parser → Bool) : Parse (Option Bool) :=
  repeatSome (fun found flagged => found.getD false || flagged) do
    choose atModifier
      (choose (at_ .at_)
        (do invoke Production.annotation
            return some false)
        (do let flagged ← test flag
            bump
            eatNl
            return some flagged))
      (return none)

def modifierListKind (found : Option Bool) : Option SyntaxKind :=
  found.map fun _ => .modifierList

def modifiersAndFlag (flag : Parser → Bool) : Parse Bool := do
  let found ← nodeBy modifierListKind (modifierRounds flag)
  return found.getD false

def modifiers : Parse Unit := do
  let _ ← modifiersAndFlag fun _ => false

end CaffeineLs.KotlinParser
