/-
Module: CaffeineLs.HirDef.KotlinLowering
Purpose: The lowering of Kotlin expressions and statements into the body tree.
Trusted boundary: how a written type, a local declaration, the digits of a number and the escapes
  of a text are read is a parameter (`Leaves`).
Main exports: Leaves, expr, statement
-/
import CaffeineLs.HirDef.KotlinBody

namespace CaffeineLs.HirDef.Kotlin

open Lib KotlinSyntax SourceText
open HirExpand (Name SpannedTypeRef ItemId Literal UnaryOp PostfixOp BinaryOp AssignOp)
open Decorated (firstNode lastNode nodesOf tokensOf)

variable (children : List LoweredCst)

/-- How the leaves of a body are read: written types and type projections, local declarations, the
value of a number and of a character, and the decoded content of a string. -/
structure Leaves where
  spannedType : Cst → SpannedTypeRef
  projection : Cst → SpannedTypeRef
  localDeclaration : Cst → Option ItemId
  integerLiteral : Text → Option Literal
  charLiteral : Text → Option Char
  decodeStringContent : Bool → Text → Text

/-- No type, number or declaration is read, and string contents as they are written. -/
def Leaves.unread : Leaves :=
  { spannedType := fun _ => ⟨.error, []⟩, projection := fun _ => ⟨.error, []⟩,
    localDeclaration := fun _ => none, integerLiteral := fun _ => none,
    charLiteral := fun _ => none, decodeStringContent := fun _ text => text }

variable (ctx : Leaves)

/-- The declared type of a declaration. -/
def declaredType : Option SpannedTypeRef :=
  (firstNode isTypeNode children).map (fun ty => ctx.spannedType ty.plain)

/-- The type of a cast or a type test: the last type node. -/
def castType : Option SpannedTypeRef :=
  (lastNode isTypeNode children).map (fun ty => ctx.spannedType ty.plain)

/-- The local that one component or one loop variable binds. -/
def declaredLocal (isMutable : Bool) (declaration : LoweredCst) : Local :=
  { name := (variableName declaration).getD missingName,
    ty := declaredType declaration.children ctx, isMutable := isMutable }

/-- A literal token. -/
def literal (token : Token) : ExprData :=
  match token.kind with
  | .integerLiteral => ((ctx.integerLiteral token.lexeme).map .literal).getD .missing
  | .floatLiteral =>
      .literal (if token.lexeme.getLast?.any ['f', 'F'].contains then .float else .double)
  | .trueKw => .literal (.boolean true)
  | .falseKw => .literal (.boolean false)
  | .charLiteral => ((ctx.charLiteral token.lexeme).map (.literal ∘ .char)).getD .missing
  | .stringLiteral | .stringContent =>
      .literal (.str (ctx.decodeStringContent false token.lexeme))
  | .nullKw => .null
  | _ => .missing

/-- A primary expression: one token, or the node in it. -/
def primary : ExprData :=
  match firstNode (fun _ => true) children with
  | some inner => if inner.isNode isExpression then inner.value.expr else .missing
  | none =>
      match (tokensOf children).head? with
      | some token => if token.kind = .identifier then .var (nameOf token) else literal ctx token
      | none => .missing

def superQualifier : Option SpannedTypeRef :=
  match firstNode isTypeNode children with
  | some ty => some (ctx.spannedType ty.plain)
  | none => labelQualifier children

/-- One interpolation of a string. -/
def templateEntry : ExprData :=
  match firstExpression children with
  | some inner => inner
  | none =>
      match (tokensOf children).find? (fun token => !token.kind.isTrivia) with
      | some token =>
          if token.kind = .identifier then .var (nameOf token)
          else if token.kind = .thisKw then .this_ none
          else if token.kind = .superKw then .super_ none
          else .missing
      | none => .missing

def stringTemplate : ExprData :=
  match nodesOf (is .stringTemplate) children with
  | [] =>
      let raw := hasToken children (is .openRawQuote)
      .literal (.str (((tokensOf children).filter (·.kind = .stringContent)).flatMap
        fun token => ctx.decodeStringContent raw token.lexeme))
  | entries => .template (entries.map (fun entry => templateEntry entry.children))

/-! ### Operators -/

/-- The operator of a binary operator token; the referential comparisons share the structural
ones. -/
def binaryOp : SyntaxKind → Option BinaryOp
  | .plus => some .add
  | .minus => some .sub
  | .star => some .mul
  | .slash => some .div
  | .modulo => some .rem
  | .and => some .and
  | .or => some .or
  | .equalEqual => some .eq
  | .notEqual => some .ne
  | .sheq => some .eq
  | .shne => some .ne
  | .less => some .lt
  | .greater => some .gt
  | .lessEqual => some .le
  | .greaterEqual => some .ge
  | _ => none

def binary : ExprData :=
  match firstExpression children, lastExpression children with
  | some lhs, some rhs =>
      match (tokensOf children).findSome? (fun token => binaryOp token.kind) with
      | some op => .binary op lhs rhs
      | none => .missing
  | _, _ => .missing

def range : ExprData :=
  match firstExpression children, lastExpression children with
  | some lhs, some rhs =>
      .range lhs rhs
        ((findToken children (isOneOf [.range, .rangeUntil])).all (·.kind = .range))
  | _, _ => .missing

def elvis : ExprData :=
  match firstExpression children, lastExpression children with
  | some lhs, some rhs => .elvis lhs rhs
  | _, _ => .missing

/-- The casts of an `as` chain: each type with the operator before it. -/
def casts : Bool → List LoweredCst → List (Bool × SpannedTypeRef)
  | _, [] => []
  | safe, element :: elements =>
      match element.leaf with
      | some token =>
          casts (if token.kind = .asSafe then true else if token.kind = .asKw then false else safe)
            elements
      | none =>
          if element.isNode isTypeNode then
            (safe, ctx.spannedType element.plain) :: casts safe elements
          else casts safe elements

/-- Every operator of an `as` chain casts the expression built so far. -/
def asCast : ExprData :=
  match childExpression children, casts ctx false children with
  | some value, first :: more =>
      (first :: more).foldl (fun operand (safe, ty) => .cast ty operand safe) value
  | _, _ => .missing

def isTest : ExprData :=
  match childExpression children, castType children ctx with
  | some value, some ty =>
      let test := .instanceOf value (some ty)
      if hasToken children (is .notIs) then .unary .not test else test
  | _, _ => .missing

/-- The function that `in` calls on its right operand. -/
def containsName : Name := ⟨"contains".toList⟩

def containment : ExprData :=
  match firstExpression children, lastExpression children with
  | some element, some container =>
      let containment := .infixCall container containsName element
      if hasToken children (is .notIn) then .unary .not containment else containment
  | _, _ => .missing

def infixCall : ExprData :=
  match firstExpression children, lastExpression children with
  | some receiver, some arg =>
      .infixCall receiver ((identifierName children).getD missingName) arg
  | _, _ => .missing

def prefixOperator : SyntaxKind → Bool :=
  isOneOf [.not, .minus, .plus, .plusPlus, .minusMinus]

/-- A prefix expression; without an operator the node denotes its operand. -/
def prefix_ : ExprData :=
  match childExpression children with
  | none => .missing
  | some inner =>
      match (findToken children prefixOperator).map Token.kind with
      | none => inner
      | some .plusPlus => .unary .inc inner
      | some .minusMinus => .unary .dec inner
      | some .plus => .paren inner
      | some .not => .unary .not inner
      | some _ => .unary .minus inner

def assignOp : SyntaxKind → Option AssignOp
  | .equal => some .assign
  | .plusEqual => some .add
  | .minusEqual => some .sub
  | .mulEqual => some .mul
  | .divEqual => some .div
  | .moduloEqual => some .rem
  | _ => none

def assign : ExprData :=
  match firstExpression children, lastExpression children with
  | some lhs, some rhs =>
      .assign (((tokensOf children).findSome? (fun token => assignOp token.kind)).getD .assign)
        lhs rhs
  | _, _ => .missing

/-! ### Postfix chains -/

/-- The arguments of a `valueArguments` node with their names; an argument without a value is
left out. -/
def valueArguments : List (ExprData × Option Name) :=
  (nodesOf (is .valueArgument) children).filterMap fun argument =>
    let spread := hasToken argument.children (is .star)
    let name := (((tokensOf argument.children).takeWhile (·.kind ≠ .equal)).find?
      (·.kind = .identifier)).map nameOf
    let named := hasToken argument.children (is .equal)
    (lastExpression argument.children).map fun value =>
      (if spread then .spread value else value, if named then name else none)

/-- The type arguments a call writes, one for each projection. -/
def callTypeArguments : List SpannedTypeRef :=
  (nodesOf (is .typeProjection) children).map (fun projection => ctx.projection projection.plain)

def ExprData.isLambda : ExprData → Bool
  | .lambda _ _ => true
  | _ => false

/-- The member function that calls a value. -/
def invokeName : Name := ⟨"invoke".toList⟩

/-- The arguments a call suffix brings, with their names. A trailing lambda is the argument itself
and never named. -/
def callArguments : List ExprData × List (Option Name) :=
  match firstNode (is .valueArguments) children with
  | some arguments => (valueArguments arguments.children).unzip
  | none => (expressions children, [])

/-- A call suffix. The callee decides the shape: the call joins an access or a call before it, and
any other value is invoked. -/
def call (callee : ExprData) (writtenTypeArgs : Option LoweredCst) : ExprData :=
  let typeArgs := (writtenTypeArgs.map fun node => callTypeArguments node.children ctx).getD []
  let parenthesized := (firstNode (is .valueArguments) children).isSome
  let trailingArgs := (callArguments children).1
  let trailingNames := (callArguments children).2
  let trailingOnly := !parenthesized && trailingArgs.any ExprData.isLambda
  let trailingIndex := if trailingOnly then some (trailingArgs.length - 1) else none
  match callee with
  | .fieldAccess target name =>
      .methodCall target name typeArgs trailingArgs trailingNames trailingIndex
  | .safeAccess receiver member =>
      let (name, existingArgs, existingNames) : Name × List ExprData × List (Option Name) :=
        match member with
        | .fieldAccess _ name => (name, [], [])
        | .methodCall _ name _ args argNames _ => (name, args, argNames)
        | _ => (missingName, [], [])
      let args := existingArgs ++ trailingArgs
      .safeAccess receiver
        (.methodCall none name typeArgs args (existingNames ++ trailingNames)
          (if trailingOnly then some (args.length - 1) else none))
  | .methodCall receiver name typeArgs args argNames _ =>
      .methodCall receiver name typeArgs (args ++ trailingArgs) (argNames ++ trailingNames)
        (if trailingOnly then some (args.length + trailingArgs.length - 1) else none)
  | .var name => .methodCall none name typeArgs trailingArgs trailingNames trailingIndex
  | callee => .methodCall (some callee) invokeName typeArgs trailingArgs trailingNames none

/-- The member a navigation names: an identifier, or the keyword `class`. -/
def navigationName : Name :=
  ((identifierName children).orElse fun _ =>
    if hasToken children (is .classKw) then some ⟨"class".toList⟩ else none).getD missingName

/-- A navigation suffix `.name`, `?.name` or `::name`. -/
def navigation (receiver : ExprData) : ExprData :=
  let name := navigationName children
  if hasToken children (is .colonColon) then .callableReference (some receiver) name
  else if !hasToken children (is .safeAccess) then .fieldAccess (some receiver) name
  else .safeAccess receiver (.fieldAccess none name)

/-- One postfix suffix as the expression it produces. -/
def suffixData (value : ExprData) (suffix : LoweredCst) (typeArguments : Option LoweredCst) :
    ExprData :=
  if suffix.isNode (is .navigationSuffix) then navigation suffix.children value
  else if suffix.isNode (is .callExpression) then call suffix.children ctx value typeArguments
  else if suffix.isNode (is .indexingExpression) then
    match childExpression suffix.children with
    | some index => .arrayAccess value index
    | none => .missing
  else .missing

/-- The step of a postfix operator. -/
def postfixStep (current : ExprData) : SyntaxKind → Option ExprData
  | .plusPlus => some (.postfix_ .inc current)
  | .minusMinus => some (.postfix_ .dec current)
  | .notNullAssert => some (.nullAssert current)
  | _ => none

/-- The loop over a postfix chain: the value the suffixes are applied to, the step whose entry is
not allocated yet, and the type arguments for the next suffix. -/
structure PostfixState where
  current : ExprData
  pending : Option ExprData
  seenBase : Bool
  writtenTypeArgs : Option LoweredCst

def postfixElement (s : PostfixState) (element : LoweredCst) : PostfixState :=
  match element.leaf with
  | none =>
      if !s.seenBase then { s with seenBase := true }
      else if element.isNode (is .typeArguments) then { s with writtenTypeArgs := some element }
      else if element.isNode isTypeNode then s
      else
        let current := s.pending.getD s.current
        { s with current := current, writtenTypeArgs := none,
                 pending := some (suffixData ctx current element s.writtenTypeArgs) }
  | some token =>
      -- The step is built before the pending one becomes the current value.
      match postfixStep s.current token.kind with
      | some step => { s with current := s.pending.getD s.current, pending := some step }
      | none => s

def postfix_ : ExprData :=
  match firstExpression children with
  | none => .missing
  | some base =>
      let s := children.foldl (postfixElement ctx)
        { current := base, pending := none, seenBase := false, writtenTypeArgs := none }
      s.pending.getD (.paren s.current)

/-! ### Control structures -/

/-- A block as an expression. -/
def blockExpr : ExprData := .block (.block (lowerStatementList children))

/-- A branch of an `if` or a `when`: its block, or the first expression in it. -/
def branch (node : LoweredCst) : ExprData :=
  if node.isNode (is .block) then blockExpr node.children
  else (firstExpression node.children).getD .missing

def conditional : ExprData :=
  match firstExpression children, nodesOf isStatement children with
  | some cond, then_ :: bodies =>
      .conditional cond (branch then_) ((bodies.head?.map branch).getD .missing)
  | _, _ => .missing

/-- The subject of a `when`: its value is the last expression. -/
def whenSubject : Option ExprData := lastExpression children

/-- The conditions of a `when` entry, its guard and its body so far. -/
structure WhenArmState where
  conditions : List WhenCondition
  guard : Option ExprData
  body : Option ExprData

def whenArmChild (subject : Option ExprData) (s : WhenArmState) (child : LoweredCst) :
    WhenArmState :=
  if child.isNode (is .whenGuard) then { s with guard := childExpression child.children }
  else if child.isNode (is .rangeTest) then
    match childExpression child.children with
    | some container =>
        { s with conditions := s.conditions ++ [.containment (subject.getD .missing) container
            (hasToken child.children (isOneOf [.notIn, .not]))] }
    | none => s
  else if child.isNode (is .typeTest) then
    match castType child.children ctx with
    | some ty =>
        { s with conditions := s.conditions ++ [.typeTest (subject.getD .missing) ty
            (hasToken child.children (isOneOf [.notIs, .not]))] }
    | none => s
  else if child.isNode isStatement then { s with body := some (branch child) }
  else if child.isNode isExpression then
    { s with conditions := s.conditions ++ [.value child.value.expr] }
  else s

def whenArm (subject : Option ExprData) (node : LoweredCst) : WhenArm :=
  let s := (nodesOf (fun _ => true) node.children).foldl (whenArmChild ctx subject)
    { conditions := [], guard := none, body := none }
  .mk s.conditions s.guard (s.body.getD .missing)

def when_ : ExprData :=
  let subject := (firstNode (is .whenSubject) children).bind (whenSubject ·.children)
  .when_ subject ((nodesOf (is .whenEntry) children).map (whenArm ctx subject))

def firstBlock : StmtData :=
  ((firstNode (is .block) children).map (·.value.stmt)).getD .missing

/-- The parameter of a `catch` is the first name after its parenthesis. -/
def catchClause : CatchClause :=
  let param := ((tokensOf children).dropWhile (·.kind ≠ .lParen)).find?
    fun token => isOneOf [.identifier, .underscore] token.kind
  let ty := declaredType children ctx
  .mk { name := (param.map nameOf).getD missingName, ty := ty, isMutable := false } ty.toList
    (firstBlock children)

def tryExpr : ExprData :=
  .try_ (firstBlock children)
    ((nodesOf (is .catchBlock) children).map (fun clause => catchClause clause.children ctx))
    (((firstNode (is .finallyBlock) children).bind
      (fun clause => firstNode (is .block) clause.children)).map (·.value.stmt))

def labelName : Name := (identifierName children).getD missingName

def jumpKind : SyntaxKind → Option JumpKind
  | .returnKw => some .return_
  | .throwKw => some .throw_
  | .breakKw => some .break_
  | .continueKw => some .continue_
  | _ => none

def jump : ExprData :=
  match (tokensOf children).findSome? (fun token => jumpKind token.kind) with
  | some kind =>
      .jump kind (childExpression children)
        ((firstNode (is .label) children).map (labelName ·.children))
  | none => .missing

def lambdaParams : List LambdaParam :=
  match firstNode (isOneOf [.lambdaParameters, .valueParameters]) children with
  | none => []
  | some parameters =>
      (nodesOf (isOneOf [.lambdaParameter, .variableDeclaration, .valueParameter])
          parameters.children).map fun parameter =>
        { name := (variableName parameter).getD ⟨"it".toList⟩,
          ty := declaredType parameter.children ctx,
          destructured := (nodesOf (is .variableDeclaration) parameter.children).filterMap
            variableName }

/-- A lambda literal: its statements are its own children. -/
def lambda : ExprData :=
  .lambda (lambdaParams children ctx) (.block (.block (lowerStatementList children)))

def anonymousFunction : ExprData :=
  match firstNode (is .block) children with
  | some block =>
      .lambda (lambdaParams children ctx) (.block (.block (lowerStatementList block.children)))
  | none =>
      match lastExpression children with
      | some value => .lambda (lambdaParams children ctx) (.expr value)
      | none => .missing

def callableReference : ExprData :=
  let userType := firstNode (is .userType) children
  if hasToken children (is .classKw) then
    match userType with
    | some userType => .classLit (ctx.spannedType userType.plain)
    | none => .missing
  else
    .callableReference (userType.map fun userType => dottedReference userType.children)
      ((identifierName children).getD missingName)

/-! ### Statements -/

/-- The body of a loop: the first statement in it. -/
def controlStructureBody : Option StmtData :=
  (firstNode isStatement children).map (·.value.stmt)

def whileStatement : StmtData :=
  match firstExpression children, controlStructureBody children with
  | some cond, some body => .whileLoop cond body
  | _, _ => .missing

def doWhileStatement : StmtData :=
  match firstExpression children, controlStructureBody children with
  | some cond, some body => .doWhile body cond
  | _, _ => .missing

/-- The variable of a `for` loop, and its pattern when it destructures. -/
def loopVariable (variable_ : LoweredCst) : Option (Local × Option (List Local)) :=
  if variable_.isNode (is .multiVariableDeclaration) then
    let parts := (nodesOf (is .variableDeclaration) variable_.children).map
      (declaredLocal ctx false)
    parts.head?.map fun first => (first, some parts)
  else some (declaredLocal ctx false variable_, none)

def foreach : StmtData :=
  match firstNode (isOneOf [.variableDeclaration, .multiVariableDeclaration]) children,
      firstExpression children with
  | some variable_, some iterable =>
      match loopVariable ctx variable_, controlStructureBody children with
      | some (var, pattern), some body => .forEach var pattern iterable body
      | _, _ => .missing
  | _, _ => .missing

/-- `label@ statement`. -/
def labeled : StmtData :=
  match firstNode isStatement children with
  | some inner => .labeled (labelName children) inner.value.stmt
  | none => .missing

/-- A local property: one local, or one for each component. -/
def localProperty : StmtData :=
  let isVar := hasToken children (is .varKw)
  let initializer := firstExpression children
  let declaration := firstNode (is .variableDeclaration) children
  let declared := declaration.bind fun declaration => declaredType declaration.children ctx
  match firstNode (is .multiVariableDeclaration) children with
  | some multi =>
      let parts := (nodesOf (is .variableDeclaration) multi.children).map fun declaration =>
        { name := (variableName declaration).getD missingName, ty := declared, isMutable := false }
      (initializer.map (StmtData.destructuring parts)).getD .missing
  | none =>
      match declaration.bind variableName with
      | none => .missing
      | some name =>
          let binding : Local := { name := name, ty := declared, isMutable := isVar }
          match (firstNode (is .propertyDelegate) children).bind
              (fun delegate => firstExpression delegate.children) with
          | some delegate => .declDelegated binding delegate
          | none => .decl binding initializer

def stmtData (plain : Cst) (expr : ExprData) : SyntaxKind → StmtData
  | .block => .block (lowerStatementList children)
  | .expressionStatement => ((firstExpression children).map .expr).getD .missing
  | .assignmentStatement => .expr expr
  | .label => labeled children
  | .forStatement => foreach children ctx
  | .whileStatement => whileStatement children
  | .doWhileStatement => doWhileStatement children
  | .functionDecl => ((ctx.localDeclaration plain).map .localFunction).getD .missing
  | .classDecl | .objectDecl | .typeAlias =>
      ((ctx.localDeclaration plain).map .localClass).getD .missing
  | .propertyDecl => localProperty children ctx
  | _ => .missing

/-! ### The lowering of a tree -/

def exprData (plain : Cst) : SyntaxKind → ExprData
  | .primaryExpression => primary children ctx
  | .thisExpression => .this_ (labelQualifier children)
  | .superExpression => .super_ (superQualifier children ctx)
  | .parenthesizedExpression => ((childExpression children).map .paren).getD .missing
  | .stringLiteral => stringTemplate children ctx
  | .collectionLiteral => .arrayInit (expressions children)
  | .postfixUnaryExpression => postfix_ children ctx
  | .prefixUnaryExpression => prefix_ children
  | .binaryExpression => binary children
  | .rangeExpression => range children
  | .elvisExpression => elvis children
  | .asExpression => asCast children ctx
  | .isExpression => isTest children ctx
  | .inExpression => containment children
  | .infixFunctionCall => infixCall children
  | .ifExpression => conditional children
  | .whenExpression => when_ children ctx
  | .tryExpression => tryExpr children ctx
  | .jumpExpression => jump children
  | .lambdaLiteral => lambda children ctx
  | .anonymousFunction => anonymousFunction children ctx
  | .objectLiteral => ((ctx.localDeclaration plain).map .objectLiteral).getD .missing
  | .callableReference => callableReference children ctx
  | .assignmentStatement => assign children
  | _ => .missing

/-- What a node lowers to, from its lowered children. -/
def lowerNode (kind : SyntaxKind) (children : List LoweredCst) : Lowered :=
  let plain : Cst := .node kind (children.map Decorated.plain)
  let expr := exprData children ctx plain kind
  { expr := expr, stmt := stmtData children ctx plain expr kind }

/-- The tree with what every node lowers to. -/
def lowered (node : Cst) : LoweredCst := node.decorate (lowerNode ctx)

/-- The expression a node lowers to. -/
def expr (node : Cst) : ExprData := (lowered ctx node).value.expr

/-- The statement a node lowers to. -/
def statement (node : Cst) : StmtData := (lowered ctx node).value.stmt

end CaffeineLs.HirDef.Kotlin
