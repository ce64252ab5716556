/-
Module: CaffeineLs.KotlinParser.Parameters
Purpose: The productions of the Kotlin grammar that declarations and expressions share: variables,
  parameters, type parameters, supertypes, blocks and function bodies.
Trusted boundary: none
Main exports: variableDeclaration, delegationSpecifiers, typeParameters
-/
import CaffeineLs.KotlinParser.Types

namespace CaffeineLs.KotlinParser

open KotlinSyntax (SyntaxKind)

/-- `if p.at(COLON) { p.bump(); eat_nl(p); type_(p); }` -/
def optionalType : Parse Unit := onlyIf (at_ .colon) do
  bump
  eatNl
  invoke .type_

/-- As `optionalType`, with the line breaks after the type. -/
def optionalTypeLine : Parse Unit := onlyIf (at_ .colon) do
  bump
  eatNl
  invoke .type_
  eatNl

/-- `if p.eat(EQUAL) { eat_nl(p); expression(p); }` -/
def optionalValue : Parse Unit := onlyIf (at_ .equal) do
  bump
  eatNl
  invoke .expression

/-- `item {',' item}`, without a trailing comma. -/
def separated (item : Parse Unit) : Parse Unit := do
  item
  commaRest eatNl (fun _ => false) item

/-! ### Variables -/

def variableDeclaration : Parse Unit := node .variableDeclaration do
  optionalAnnotation
  choose (at_ .underscore) bump simpleIdentifier
  optionalType

def multiVariableDeclaration : Parse Unit := node .multiVariableDeclaration do
  expect .lParen
  eatNl
  commaList .rParen variableDeclaration
  eatNl
  expect .rParen

/-! ### Type parameters and supertypes -/

def typeParameterModifiers : Parse Unit :=
  repeatWhile
    (either (either (either (atContextualKw .reified) (at_ .inKw)) (atContextualKw .out))
      (at_ .at_)) do
    choose (at_ .at_) (invoke Production.annotation) bump
    eatNl

def typeParameter : Parse Unit := node .typeParameter do
  typeParameterModifiers
  simpleIdentifier
  optionalType

def typeParameters : Parse Unit := node .typeParameters do
  delimited .less .greater (commaList .greater typeParameter)

/-- `if p.at(LESS) { type_parameters(p); eat_nl(p); }` -/
def optionalTypeParameters : Parse Unit := onlyIf (at_ .less) do
  typeParameters
  eatNl

def typeConstraint : Parse Unit := node .typeConstraint do
  optionalAnnotation
  simpleIdentifier
  expect .colon
  eatNl
  invoke .type_

def typeConstraints : Parse Unit := node .typeConstraints do
  expectContextualKw .where_
  eatNl
  separated typeConstraint

/-- `if p.at_contextual_kw(Where) { type_constraints(p); eat_nl(p); }` -/
def optionalTypeConstraints : Parse Unit := onlyIf (atContextualKw .where_) do
  typeConstraints
  eatNl

/-- The head of a supertype, whose node is completed before the arguments of the constructor. -/
def delegationHead : Parse (Option SyntaxKind) := do
  invoke .type_
  eatNl
  choose (at_ .lParen) (return some .constructorInvocation)
    (choose (atContextualKw .by_)
      (do bump
          eatNl
          withTrailingLambda (invoke .expression)
          return some .explicitDelegation)
      (return none))

/-- The arguments after a head that invokes a constructor. -/
def constructorArguments (head : Option SyntaxKind) : Parse Unit :=
  if head = some .constructorInvocation then valueArguments else pure ()

def delegationSpecifier : Parse Unit := node .delegationSpecifier do
  optionalAnnotation
  let head ← nodeBy id delegationHead
  constructorArguments head

def delegationSpecifiers : Parse Unit := node .delegationSpecifiers (separated delegationSpecifier)

/-- `if p.at(COLON) { p.bump(); eat_nl(p); delegation_specifiers(p); eat_nl(p); }` -/
def optionalSupertypes : Parse Unit := onlyIf (at_ .colon) do
  bump
  eatNl
  delegationSpecifiers
  eatNl

/-! ### Parameters -/

def parameterModifiers : Parse Unit :=
  repeatWhile
    (either (at_ .at_) (atContextualKwSet [.vararg, .noInline, .crossInline])) do
    choose (at_ .at_) (invoke Production.annotation) bump
    eatNl

def functionValueParameter : Parse Unit := node .valueParameter do
  parameterModifiers
  simpleIdentifier
  expect .colon
  eatNl
  invoke .type_
  eatNl
  optionalValue

def functionValueParameterWithOptionalType : Parse Unit := node .valueParameter do
  parameterModifiers
  simpleIdentifier
  optionalType
  eatNl
  optionalValue

/-- The parameters in their parentheses. Line breaks are skipped before the first one too, where
none is left. -/
def parameterList (parameter : Parse Unit) : Parse Unit := node .valueParameters do
  delimited .lParen .rParen do
    eatNl
    commaList .rParen parameter

def functionValueParameters : Parse Unit := parameterList functionValueParameter

def parametersWithOptionalType : Parse Unit := parameterList functionValueParameterWithOptionalType

/-! ### Blocks -/

def statements : Parse Unit := do
  eatNl
  repeatWhile atStatement do
    invoke .statement
    semis
    eatNl

def block : Parse Unit := node .block do
  expect .lBrace
  statements
  semis
  eatNl
  expect .rBrace

def controlStructureBody : Parse Unit := choose (at_ .lBrace) block (invoke .statement)

def functionBody : Parse Unit :=
  choose (at_ .lBrace) block
    (onlyIf (at_ .equal) do
      bump
      eatNl
      invoke .expression)

end CaffeineLs.KotlinParser
