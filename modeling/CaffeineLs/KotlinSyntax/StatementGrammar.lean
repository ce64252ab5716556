/-
Module: CaffeineLs.KotlinSyntax.StatementGrammar
Purpose: The statement productions of the Kotlin parser: statements with their labels, assignments,
  loops and blocks.
Trusted boundary: declarations, and the productions that are reached again, are those of the
  `Grammar`.
Main exports: statement, assignmentOrExpressionStatement, forStatement
-/
import CaffeineLs.KotlinSyntax.ExprGrammar

namespace CaffeineLs.KotlinSyntax

variable (g : Grammar)

/-! ### Assignments -/

/-- Opens a node before what was built since `m`, and closes it: `completed.precede(p)`. -/
def Parser.precede (p : Parser) (m : Marker) (kind : SyntaxKind) : Parser :=
  { p with built := m ++ [.node kind (p.built.drop m.length)] }

def assignmentOperators : List SyntaxKind :=
  [.equal, .plusEqual, .minusEqual, .mulEqual, .divEqual, .moduloEqual]

def atAssignmentOperator (p : Parser) : Bool := p.atAny assignmentOperators

def atCompoundAssignmentOperator (p : Parser) : Bool :=
  p.atAny [.plusEqual, .minusEqual, .mulEqual, .divEqual, .moduloEqual]

/-- The destination of `=`, with whether what was read is one. Parentheses nest at most as deep as
there are tokens ahead. -/
def directlyAssignable : Nat → Parser → Bool × Parser
  | 0, p => (false, p)
  | depth + 1, p =>
      let isSimpleIdentifier := p.at_ .identifier && p.nth 1 ≠ some .colonColon
      if p.at_ .lParen then
        let (m, q) := p.start
        let (inner, q) := directlyAssignable depth (eatNl q.bump).enterExpression
        let q := eatNl q.leaveExpression
        if inner && q.at_ .rParen then
          match postfixUnarySuffixes g (q.bump.complete m .parenthesizedExpression) with
          | (some last, q) => (last.isAssignable, q.precede m .postfixUnaryExpression)
          | (none, q) => (true, q)
        else (false, (q.abandon m).rewind p)
      else
        match postfixUnaryExpression g p with
        | (some last, q) => (last.isAssignable, q)
        | (none, q) => (isSimpleIdentifier, q)

def directlyAssignableExpression (p : Parser) : Bool × Parser :=
  directlyAssignable g (p.rest.length + 1) p

/-- The destination of a compound assignment. Parentheses around one are tried first. -/
def assignable : Nat → Parser → Parser
  | 0, p => p
  | depth + 1, p =>
      if p.at_ .lParen then
        let (m, q) := p.start
        let q := eatNl (assignable depth (eatNl q.bump).enterExpression).leaveExpression
        if q.at_ .rParen then q.bump.complete m .parenthesizedExpression
        else prefixUnaryExpression g ((q.abandon m).rewind p)
      else prefixUnaryExpression g p

def assignableExpression (p : Parser) : Parser := assignable g (p.rest.length + 1) p

/-- The destination of an assignment, when one is read here: of `=`, or else of a compound
operator. -/
def assignmentDestination (p : Parser) : Option Parser :=
  let (m, q) := p.start
  let (destination, q) := directlyAssignableExpression g q.enterExpression
  let q := q.leaveExpression
  if destination && q.at_ .equal then some q
  else
    let p := (q.abandon m).rewind p
    let q := (assignableExpression g p.start.2.enterExpression).leaveExpression
    if atCompoundAssignmentOperator q then some q else none

/-- `assignment | expression` -/
def assignmentOrExpressionStatement (p : Parser) : Parser :=
  match assignmentDestination g p with
  | some q => (g.expression (eatNl q.bump)).complete p.built .assignmentStatement
  | none =>
      let q := g.expression p.start.2
      if atAssignmentOperator q then
        eatNl ((q.complete p.built .expressionStatement).errorMessage
          "expected an assignable expression before the assignment operator").bump
      else q.complete p.built .expressionStatement

/-! ### Statements -/

def atLoop (p : Parser) : Bool := p.atAny [.forKw, .whileKw, .doKw]

def atStatement (p : Parser) : Bool :=
  p.at_ .at_ || g.atDeclaration p || atLoop p || atExpression p

/-- `block | statement`, when one follows. -/
def optionalBody (p : Parser) : Parser :=
  if p.at_ .lBrace then g.block p
  else if atStatement g p then g.statement p
  else p

def forStatement (p : Parser) : Parser :=
  let (m, p) := p.start
  let p := eatNl (p.expect .forKw)
  let p := eatNl (p.expect .lParen)
  let p := if p.at_ .at_ then eatNl (g.annotation p) else p
  let p := if p.at_ .lParen then g.multiVariableDeclaration p else g.variableDeclaration p
  let p := eatNl ((eatNl p).expect .inKw)
  let p := eatNl (g.expression p)
  let p := eatNl (p.expect .rParen)
  (optionalBody g p).complete m .forStatement

def whileStatement (p : Parser) : Parser :=
  let (m, p) := p.start
  let p := eatNl (p.expect .whileKw)
  let p := eatNl (p.expect .lParen)
  let p := eatNl (g.expression p)
  let p := eatNl (p.expect .rParen)
  let p :=
    if p.at_ .lBrace then g.block p
    else if p.at_ .semicolon then p.bump
    else if atStatement g p then g.statement p
    else p
  p.complete m .whileStatement

def doWhileStatement (p : Parser) : Parser :=
  let (m, p) := p.start
  let p := eatNl (p.expect .doKw)
  let p :=
    if p.at_ .lBrace then eatNl (g.block p)
    else if atStatement g p then eatNl (g.statement p)
    else p
  let p := eatNl (p.expect .whileKw)
  let p := eatNl (p.expect .lParen)
  let p := eatNl (g.expression p)
  (p.expect .rParen).complete m .doWhileStatement

/-- The labels and annotations before a statement, each a node of its own. -/
def statementPrefix (p : Parser) : Option Parser :=
  if atLabel p then some (label p)
  else if p.at_ .at_ then some (eatNl (g.annotation p))
  else none

/-- A statement without what stands before it. -/
def bareStatement (p : Parser) : Parser :=
  if g.atDeclaration p then g.declaration p
  else if p.at_ .forKw then forStatement g p
  else if p.at_ .whileKw then whileStatement g p
  else if p.at_ .doKw then doWhileStatement g p
  else assignmentOrExpressionStatement g p

def statement (p : Parser) : Parser :=
  bareStatement g (Parser.loop (statementPrefix g) p.rest.length p)

/-- One statement with the separators after it. -/
def statementRound (p : Parser) : Option Parser :=
  if atStatement g p then some (eatNl (semis (g.statement p))) else none

def statements (p : Parser) : Parser :=
  let p := eatNl p
  Parser.loop (statementRound g) p.rest.length p

def block (p : Parser) : Parser :=
  let (m, p) := p.start
  let p := eatNl (semis (g.statements (p.expect .lBrace)))
  (p.expect .rBrace).complete m .block

/-- The grammar whose expressions, statements and blocks are one level deeper than those of `g`. -/
def Grammar.deeper : Grammar :=
  { g with expression := KotlinSyntax.expression g, statement := KotlinSyntax.statement g,
           statements := KotlinSyntax.statements g, block := KotlinSyntax.block g }

end CaffeineLs.KotlinSyntax
