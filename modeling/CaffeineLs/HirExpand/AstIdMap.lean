/-
Module: CaffeineLs.HirExpand.AstIdMap
Purpose: The index of the declaration skeleton of a file: which nodes get an id, and in which order.
Trusted boundary: a syntax tree is the tree of its nodes; tokens and text ranges are left out
Main exports: SourceFile, NodeKind, javaSkeleton
-/
import CaffeineLs.Lib.SkeletonWalk
import CaffeineLs.JavaSyntax.SyntaxKind
import CaffeineLs.KotlinSyntax.SyntaxKind

namespace CaffeineLs.HirExpand

open SkeletonWalk

/-! ### Java -/

namespace Java

open JavaSyntax

/-- The declarations that a block may declare. -/
def isClassLikeDecl : SyntaxKind → Bool
  | .classDecl | .interfaceDecl | .enumDecl | .recordDecl => true
  | _ => false

def isIndexable : SyntaxKind → Bool
  | .packageDecl | .importDecl | .classDecl | .interfaceDecl | .enumDecl | .recordDecl
  | .annotationTypeDecl | .moduleDecl | .methodDecl | .constructorDecl | .compactConstructorDecl
  | .annotationTypeElementDecl | .fieldDecl | .variableDeclarator | .enumConstant
  | .staticInitializer | .instanceInitializer | .formalParameter | .spreadParameter | .typeNode
  | .annotationNode | .markerAnnotationNode | .qualifiedName | .requiresDirective
  | .exportsDirective | .opensDirective | .usesDirective | .providesDirective => true
  | _ => false

def plan (kind : SyntaxKind) (parent : Option SyntaxKind) (body : Bool) (child : SyntaxKind) :
    Option Bool :=
  match kind with
  | .block => some (!isClassLikeDecl child)
  | .classBody =>
      if parent ≠ some .classDecl then
        if parent = some .enumConstant then some false else none
      else some body
  | .variableDeclarator | .enumConstant => some true
  | .annotationTypeElementDecl =>
      if child = .modifierList ∨ child = .typeNode then some false else none
  | _ => some body

/-- `Skeleton for java::Lang`. No kind keeps an anchor in a body. -/
def skeleton : Rules SyntaxKind :=
  ⟨isIndexable, fun _ => false, plan⟩

/-- `is_expr_kind` of the lowering of bodies. -/
def isExprKind : SyntaxKind → Bool
  | .literal | .prefixExpr | .unaryExpr | .postfixExpr | .assignExpr | .binaryExpr | .condExpr
  | .instanceofExpr | .castExpr | .parenExpr | .parenthesizedExpr | .newExpr | .methodCall
  | .fieldAccess | .arrayAccess | .classLiteral | .thisExpr | .superExpr | .primitiveTypeExpr
  | .methodReference | .lambdaExpr | .switchExpr | .templateExpr | .arrayInitializer => true
  | _ => false

end Java

/-! ### Kotlin -/

namespace Kotlin

open KotlinSyntax

/-- The declarations a block may declare, and the object literal, whose class is a declaration too. -/
def isLocalDeclaration : SyntaxKind → Bool
  | .classDecl | .objectDecl | .companionObject | .functionDecl | .typeAlias | .objectLiteral => true
  | _ => false

def isTypeNode : SyntaxKind → Bool
  | .typeNode | .nullableType | .definitelyNonNullableType | .parenthesizedType | .functionType
  | .userType => true
  | _ => false

/-- `is_indexable_kotlin`. -/
def isIndexable : SyntaxKind → Bool
  | .fileAnnotationNode | .packageHeader | .importHeader | .typeAlias | .classDecl | .objectDecl
  | .companionObject | .objectLiteral | .classBody | .enumClassBody | .enumEntries | .enumEntry
  | .functionDecl | .propertyDecl | .variableDeclaration | .multiVariableDeclaration
  | .primaryConstructor | .secondaryConstructor | .anonymousInitializer | .classParameters
  | .classParameter | .valueParameters | .valueParameter | .typeParameters | .typeParameter
  | .typeConstraints | .typeConstraint | .delegationSpecifiers | .delegationSpecifier
  | .constructorInvocation | .constructorDelegationCall | .explicitDelegation | .receiverType
  | .getter | .setter | .typeNode | .nullableType | .definitelyNonNullableType
  | .parenthesizedType | .annotationNode | .qualifiedName => true
  | _ => false

def plan (kind : SyntaxKind) (_parent : Option SyntaxKind) (body : Bool) (child : SyntaxKind) :
    Option Bool :=
  if kind = .block then some (!isLocalDeclaration child)
  else if isLocalDeclaration kind = true then some false
  else
    match kind with
    | .enumEntry => some (decide (child ≠ .classBody))
    | .valueArguments | .propertyDelegate => some true
    | .explicitDelegation => some (!isTypeNode child)
    | _ => some body

/-- `Skeleton for kotlin::Lang`. -/
def skeleton : Rules SyntaxKind :=
  ⟨isIndexable, isLocalDeclaration, plan⟩

/-- `is_expression` of the lowering of bodies. -/
def isExpression : SyntaxKind → Bool
  | .primaryExpression | .parenthesizedExpression | .postfixUnaryExpression
  | .prefixUnaryExpression | .binaryExpression | .rangeExpression | .elvisExpression
  | .asExpression | .isExpression | .inExpression | .infixFunctionCall | .ifExpression
  | .whenExpression | .tryExpression | .jumpExpression | .lambdaLiteral | .anonymousFunction
  | .thisExpression | .superExpression | .objectLiteral | .callableReference | .stringLiteral
  | .collectionLiteral | .assignmentStatement => true
  | _ => false

end Kotlin

/-! ### Files -/

/-- The children of the root of a file. -/
inductive SourceFile where
  | java (children : Forest JavaSyntax.SyntaxKind)
  | kotlin (children : Forest KotlinSyntax.SyntaxKind)
deriving DecidableEq

inductive NodeKind where
  | java (kind : JavaSyntax.SyntaxKind)
  | kotlin (kind : KotlinSyntax.SyntaxKind)
deriving DecidableEq

/-- The kinds of the node pointers in the arena. -/
def fromSourceFile : SourceFile → List NodeKind
  | .java children => (build Java.skeleton [⟨.root, children, none, false⟩]).map .java
  | .kotlin children => (build Kotlin.skeleton [⟨.root, children, none, false⟩]).map .kotlin

/-- The raw ids of the indexed nodes with their kinds. -/
def idSequence (file : SourceFile) : List (UInt32 × NodeKind) :=
  (fromSourceFile file).zipIdx.map fun (kind, idx) => (UInt32.ofNat idx, kind)

end CaffeineLs.HirExpand
