/-
Module: CaffeineLs.HirDef.KotlinBody
Purpose: The body tree of a Kotlin file, and how the lowering reads the children of a node.
Trusted boundary: an entry stands where the source keeps its id, so entries nothing refers to and
  source ranges are left out.
Main exports: ExprData, StmtData, LoweredCst
-/
import CaffeineLs.HirExpand.Body
import CaffeineLs.KotlinSyntax.Parser

namespace CaffeineLs.HirDef.Kotlin

open Lib KotlinSyntax SourceText
open HirExpand (Name SpannedTypeRef TypeRef ItemId Literal UnaryOp PostfixOp BinaryOp AssignOp)

/-! ### The body tree -/

/-- A local binding. -/
structure Local where
  name : Name
  ty : Option SpannedTypeRef
  isMutable : Bool

/-- A lambda parameter; `destructured` are the names a destructuring one binds. -/
structure LambdaParam where
  name : Name
  ty : Option SpannedTypeRef
  destructured : List Name

inductive JumpKind where
  | return_
  | throw_
  | break_
  | continue_
deriving DecidableEq

mutual

inductive ExprData where
  | literal (lit : Literal)
  | null
  | template (args : List ExprData)
  | this_ (qualifier : Option SpannedTypeRef)
  | super_ (qualifier : Option SpannedTypeRef)
  | classLit (ty : SpannedTypeRef)
  | var (name : Name)
  | fieldAccess (target : Option ExprData) (name : Name)
  | arrayAccess (array index : ExprData)
  | methodCall (receiver : Option ExprData) (name : Name) (typeArgs : List SpannedTypeRef)
      (args : List ExprData) (argNames : List (Option Name)) (trailing : Option Nat)
  | arrayInit (elems : List ExprData)
  | unary (op : UnaryOp) (expr : ExprData)
  | postfix_ (op : PostfixOp) (expr : ExprData)
  | binary (op : BinaryOp) (lhs rhs : ExprData)
  | assign (op : AssignOp) (lhs rhs : ExprData)
  | cast (ty : SpannedTypeRef) (expr : ExprData) (safe : Bool)
  | instanceOf (expr : ExprData) (ty : Option SpannedTypeRef)
  | conditional (cond then_ els : ExprData)
  | lambda (params : List LambdaParam) (body : LambdaBody)
  | paren (expr : ExprData)
  | missing
  | block (stmt : StmtData)
  | when_ (subject : Option ExprData) (arms : List WhenArm)
  | try_ (body : StmtData) (catches : List CatchClause) (finally_ : Option StmtData)
  | elvis (lhs rhs : ExprData)
  | safeAccess (receiver member : ExprData)
  | nullAssert (expr : ExprData)
  | range (lhs rhs : ExprData) (inclusive : Bool)
  | infixCall (receiver : ExprData) (name : Name) (arg : ExprData)
  | objectLiteral (item : ItemId)
  | callableReference (receiver : Option ExprData) (name : Name)
  | spread (expr : ExprData)
  | jump (kind : JumpKind) (value : Option ExprData) (label : Option Name)

inductive StmtData where
  | block (stmts : List StmtData)
  | decl (binding : Local) (initializer : Option ExprData)
  | declDelegated (binding : Local) (delegate : ExprData)
  | destructuring (parts : List Local) (initializer : ExprData)
  | expr (value : ExprData)
  | labeled (label : Name) (stmt : StmtData)
  | whileLoop (cond : ExprData) (body : StmtData)
  | doWhile (body : StmtData) (cond : ExprData)
  | forEach (var : Local) (pattern : Option (List Local)) (iterable : ExprData) (body : StmtData)
  | localFunction (item : ItemId)
  | localClass (item : ItemId)
  | missing

inductive LambdaBody where
  | expr (value : ExprData)
  | block (stmt : StmtData)

/-- One condition of a `when` entry: a value, an `in` test or an `is` test. -/
inductive WhenCondition where
  | value (value : ExprData)
  | typeTest (expr : ExprData) (ty : SpannedTypeRef) (negated : Bool)
  | containment (element container : ExprData) (negated : Bool)

inductive WhenArm where
  | mk (conditions : List WhenCondition) (guard : Option ExprData) (body : ExprData)

inductive CatchClause where
  | mk (param : Local) (paramTypes : List SpannedTypeRef) (body : StmtData)

end

instance : Inhabited ExprData := ⟨.missing⟩

instance : Inhabited StmtData := ⟨.missing⟩

/-- What a node lowers to where an expression and where a statement is read from it. -/
structure Lowered where
  expr : ExprData
  stmt : StmtData
deriving Inhabited

/-- A syntax tree with what every node lowers to. -/
abbrev LoweredCst := Decorated SyntaxKind Token Lowered

/-! ### Kinds -/

def isExpression : SyntaxKind → Bool
  | .primaryExpression | .parenthesizedExpression | .postfixUnaryExpression
  | .prefixUnaryExpression | .binaryExpression | .rangeExpression | .elvisExpression
  | .asExpression | .isExpression | .inExpression | .infixFunctionCall | .ifExpression
  | .whenExpression | .tryExpression | .jumpExpression | .lambdaLiteral | .anonymousFunction
  | .thisExpression | .superExpression | .objectLiteral | .callableReference | .stringLiteral
  | .collectionLiteral | .assignmentStatement => true
  | _ => false

/-- A statement, a block included: it is the body a loop or a `try` wraps. -/
def isStatement : SyntaxKind → Bool
  | .block | .propertyDecl | .functionDecl | .classDecl | .objectDecl | .typeAlias
  | .assignmentStatement | .expressionStatement | .forStatement | .whileStatement
  | .doWhileStatement | .label => true
  | _ => false

def isTypeNode : SyntaxKind → Bool
  | .typeNode | .nullableType | .definitelyNonNullableType | .parenthesizedType | .functionType
  | .userType => true
  | _ => false

def is (kind : SyntaxKind) : SyntaxKind → Bool := (· = kind)

def isOneOf (kinds : List SyntaxKind) : SyntaxKind → Bool := kinds.contains

/-! ### Reading a node's children -/

/-- The text of an identifier without the backticks around it. -/
def identifierText (text : Text) : Text :=
  match text with
  | '`' :: inner => if inner.getLast? = some '`' then inner.dropLast else text
  | _ => text

def nameOf (token : Token) : Name := ⟨identifierText token.lexeme⟩

def missingName : Name := ⟨"<missing>".toList⟩

variable (children : List LoweredCst)

open Decorated (firstNode lastNode nodesOf tokensOf)

/-- The first child token that `p` admits. -/
def findToken (p : SyntaxKind → Bool) : Option Token :=
  (tokensOf children).find? (fun token => p token.kind)

def hasToken (p : SyntaxKind → Bool) : Bool := (tokensOf children).any (fun token => p token.kind)

/-- The name of the first child identifier. -/
def identifierName : Option Name := (findToken children (is .identifier)).map nameOf

/-- The first child expression, lowered. -/
def firstExpression : Option ExprData := (firstNode isExpression children).map (·.value.expr)

/-- The last child expression, lowered. -/
def lastExpression : Option ExprData := (lastNode isExpression children).map (·.value.expr)

def childExpression : Option ExprData := firstExpression children

/-- Every child expression, lowered, in source order. -/
def expressions : List ExprData := (nodesOf isExpression children).map (·.value.expr)

/-- Every child statement, lowered, in source order. -/
def lowerStatementList : List StmtData := (nodesOf isStatement children).map (·.value.stmt)

/-- The first identifier that is not a parameter modifier. -/
def parameterName : Option Name :=
  (((tokensOf children).filter (·.kind = .identifier)).find? (fun token =>
    ¬ token.lexeme ∈ ["vararg".toList, "noinline".toList, "crossinline".toList])).map nameOf

/-- The name a variable declaration declares. -/
def declaredName : Option Name :=
  (findToken children (isOneOf [.identifier, .underscore])).map nameOf

/-- The declared name of a variable declaration, or of the node that carries one. -/
def variableName (node : LoweredCst) : Option Name :=
  if node.isNode (is .variableDeclaration) then declaredName node.children
  else
    ((firstNode (is .variableDeclaration) node.children).bind
      (fun declaration => declaredName declaration.children)).orElse
        fun _ => parameterName node.children

/-- The label that qualifies a `this` or a `super`, as a one-segment reference. -/
def labelQualifier : Option SpannedTypeRef :=
  (((tokensOf children).dropWhile (·.kind ≠ .at_)).find? (·.kind = .identifier)).map
    fun token => ⟨.reference (nameOf token) [], [nameOf token]⟩

/-- The identifiers of a dotted name. -/
def dottedSegments : List Name :=
  ((tokensOf children).filter (·.kind = .identifier)).map nameOf

/-- A dotted name as an expression: a variable and one field access for each further segment. -/
def dottedReference : ExprData :=
  match dottedSegments children with
  | [] => .missing
  | head :: segments =>
      segments.foldl (fun current segment => .fieldAccess (some current) segment) (.var head)

end CaffeineLs.HirDef.Kotlin
