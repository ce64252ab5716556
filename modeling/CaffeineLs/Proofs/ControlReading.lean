/-
Module: CaffeineLs.Proofs.ControlReading
Purpose: What the parser reads as a control structure, a labelled statement or a labelled lambda,
  and that the nodes it builds keep bodies, conditions and labels exactly where the construct is
  sound.
Trusted boundary: none
Main exports: BodyRead, Construct, bodies_kept_iff
-/
import CaffeineLs.KotlinSyntax.StatementGrammar
import CaffeineLs.Proofs.ControlBodies
import CaffeineLs.Proofs.PostfixReading

namespace CaffeineLs.HirDef.Kotlin

open Lib KotlinSyntax

/-! ### What the parser reads as a body -/

section Runs

variable (g : Grammar)

/-- The labels and annotations before a statement. -/
inductive PrefixRead : Parser → List Token → List Cst → Parser → Prop where
  | done {p : Parser} : statementPrefix g p = none → PrefixRead p [] [] p
  | label {p p' : Parser} {name at_ : Token} {rest names : List Token} {trees : List Cst} :
      p.rest = name :: at_ :: rest → name.kind = .identifier → at_.kind = .at_ →
      PrefixRead (label p) names trees p' →
      PrefixRead p (name :: names)
        (.node .label (eatNl ((simpleIdentifier p.start.2).expect .at_)).built :: trees) p'
  | annotation_ {p q p' : Parser} {names : List Token} {tree : Cst} {trees : List Cst} :
      p.at_ .at_ = true → ReadsTree g.annotation p tree q →
      tree.isNode (is .annotationNode) = true → q.rest.length < p.rest.length →
      PrefixRead (eatNl q) names trees p' → PrefixRead p names (tree :: trees) p'

/-- A statement without what stands before it. -/
inductive BareStatementRead : Parser → Cst → Parser → Prop where
  | assignment {p q p₁ : Parser} {destination value : Cst} {op : Token} {rest : List Token} :
      (g.atDeclaration p || atLoop p) = false → assignmentDestination g p = some q →
      Adds p.start.2 [destination] [] q → IsValue destination → q.rest = op :: rest →
      op.kind ∈ assignmentOperators → ReadsTree g.expression (eatNl q.bump) value p₁ →
      IsValue value →
      BareStatementRead p (.node .assignmentStatement p₁.built)
        (p₁.complete p.built .assignmentStatement)
  | expression {p p₁ : Parser} {value : Cst} : (g.atDeclaration p || atLoop p) = false →
      assignmentDestination g p = none → ReadsTree g.expression p.start.2 value p₁ →
      IsValue value → atAssignmentOperator p₁ = false →
      BareStatementRead p (.node .expressionStatement p₁.built)
        (p₁.complete p.built .expressionStatement)
  | other {p p' : Parser} {node : Cst} : (g.atDeclaration p || atLoop p) = true →
      ReadsTree (bareStatement g) p node p' →
      node.isNode (isOneOf [.forStatement, .whileStatement, .doWhileStatement, .propertyDecl,
        .functionDecl, .classDecl, .objectDecl, .typeAlias]) = true → BareStatementRead p node p'

/-- A statement with what stands before it. -/
inductive StatementRead : Parser → Body → Parser → Prop where
  | mk {p q p' : Parser} {labels : List Token} {trees : List Cst} {node : Cst} :
      PrefixRead g p labels trees q → BareStatementRead g q node p' →
      StatementRead p ⟨labels, node⟩ p'

/-- A body: a block, or a statement of the statement production. -/
inductive BodyRead : Parser → Body → Parser → Prop where
  | block {p p' : Parser} {node : Cst} : p.at_ .lBrace = true → ReadsTree g.block p node p' →
      node.isNode (is .block) = true → BodyRead p ⟨[], node⟩ p'
  | statement {g' : Grammar} {p p' : Parser} {body : Body} : p.at_ .lBrace = false →
      g.statement p = KotlinSyntax.statement g' p → StatementRead g' p body p' → BodyRead p body p'

/-- A keyword and a condition in parentheses. -/
inductive ConditionRead (keyword : SyntaxKind) : Parser → Cst → Parser → Prop where
  | mk {p q : Parser} {cond : Cst} : p.at_ keyword = true →
      (eatNl (p.expect keyword)).at_ .lParen = true →
      ReadsTree g.expression (eatNl ((eatNl (p.expect keyword)).expect .lParen)) cond q →
      IsValue cond → (eatNl q).at_ .rParen = true →
      ConditionRead keyword p cond ((eatNl q).expect .rParen)

/-- The then-body of an `if`, which may be left out. -/
inductive ThenRead : Parser → Option Body → Parser → Prop where
  | empty {p : Parser} : p.at_ .semicolon = true → ThenRead p none p.bump
  | absent {p : Parser} : p.at_ .elseKw = true → ThenRead p none p
  | body {p p' : Parser} {body : Body} : p.at_ .semicolon = false → p.at_ .elseKw = false →
      BodyRead g p body p' → ThenRead p (some body) p'

/-- The `else` of an `if`, where there is one. -/
inductive ElseRead : Parser → Option Body → Parser → Prop where
  | absent {p : Parser} : p.at_ .elseKw = false → ElseRead p none p
  | empty {p : Parser} : p.at_ .elseKw = true → (eatNl p.bump).at_ .semicolon = true →
      ElseRead p none (eatNl p.bump).bump
  | body {p p' : Parser} {body : Body} : p.at_ .elseKw = true →
      (eatNl p.bump).at_ .semicolon = false → BodyRead g (eatNl p.bump) body p' →
      ElseRead p (some body) p'

/-- The body of a `for`, where one follows. -/
inductive OptionalRead : Parser → Option Body → Parser → Prop where
  | absent {p : Parser} : p.at_ .lBrace = false → atStatement g p = false → OptionalRead p none p
  | body {p p' : Parser} {body : Body} : (p.at_ .lBrace || atStatement g p) = true →
      BodyRead g p body p' → OptionalRead p (some body) p'

/-- The body of a `do`, where one follows. -/
inductive DoBodyRead : Parser → Option Body → Parser → Prop where
  | absent {p : Parser} : p.at_ .lBrace = false → atStatement g p = false → DoBodyRead p none p
  | body {p p' : Parser} {body : Body} : (p.at_ .lBrace || atStatement g p) = true →
      BodyRead g p body p' → DoBodyRead p (some body) (eatNl p')

/-- The body of a `while`, where one follows. -/
inductive WhileBodyRead : Parser → Option Body → Parser → Prop where
  | empty {p : Parser} : p.at_ .semicolon = true → WhileBodyRead p none p.bump
  | optional {p p' : Parser} {body : Option Body} : p.at_ .semicolon = false →
      OptionalRead g p body p' → WhileBodyRead p body p'

end Runs

section Bodies

variable {g : Grammar} {p p' : Parser}

/-- Each label and each annotation is one round, and one node. -/
theorem PrefixRead.adds {names : List Token} {trees : List Cst}
    (read : PrefixRead g p names trees p') :
    (∀ rounds, p.rest.length ≤ rounds → Parser.loop (statementPrefix g) rounds p = p') ∧
      Adds p trees [] p' ∧ PrefixNodes names trees := by
  induction read with
  | done stops =>
      refine ⟨fun rounds _ => ?_, Adds.refl _, .nil⟩
      cases rounds <;> simp [Parser.loop, stops]
  | @label p p' name at_ rest names trees ahead isName isAt _ ih =>
      obtain ⟨labels, appends, holds, less⟩ := label_read ahead isName isAt
      obtain ⟨runs, added, shape⟩ := ih
      have kind : SyntaxTree.isNode (is .label) (.node .label
          (eatNl ((simpleIdentifier p.start.2).expect .at_)).built : Cst) = true := rfl
      refine ⟨fun rounds room => ?_, (Adds.node appends kind).trans added,
        .label (.mk isName isAt holds) shape⟩
      obtain ⟨rounds, rfl⟩ : ∃ n, rounds = n + 1 := ⟨rounds - 1, by omega⟩
      simp only [Parser.loop, statementPrefix, labels, if_true]
      exact runs rounds (by omega)
  | @annotation_ p q p' names tree trees here read kind less _ ih =>
      obtain ⟨runs, added, shape⟩ := ih
      have left := (Adds.eatNl q).rest
      have current : p.current = some .at_ := by simpa [Parser.at_] using here
      refine ⟨fun rounds room => ?_, (Adds.node read.appends kind).thenNl.trans added,
        .annotation_ kind shape⟩
      obtain ⟨rounds, rfl⟩ : ∃ n, rounds = n + 1 := ⟨rounds - 1, by omega⟩
      have noLabel : atLabel p = false := by simp [atLabel, Parser.at_, current]
      simp only [Parser.loop, statementPrefix, noLabel, here, read.run, if_true]
      exact runs rounds (by omega)

theorem BareStatementRead.node {node : Cst} (read : BareStatementRead g p node p') :
    ReadsTree (bareStatement g) p node p' ∧ StatementNode node := by
  -- Where no declaration and no loop starts, an assignment or an expression is read.
  have falls : (g.atDeclaration p || atLoop p) = false →
      bareStatement g p = assignmentOrExpressionStatement g p := by
    intro none
    simp only [Bool.or_eq_false_iff] at none
    have loops : p.at_ .forKw = false ∧ p.at_ .whileKw = false ∧ p.at_ .doKw = false := by
      have loops := none.2
      rw [atLoop, Parser.atAny] at loops
      cases current : p.current with
      | none => simp [Parser.at_, current]
      | some kind =>
          rw [current] at loops
          simpa [Parser.at_, current] using loops
    simp [bareStatement, none.1, loops]
  cases read with
  | @assignment q p₁ destination value op rest other found added isPlace ahead listed read isValue =>
      have more : op.kind ≠ .newline := by
        intro newline
        rw [newline] at listed
        exact absurd listed (by decide)
      have whole := (added.trans (Adds.bump ahead more).thenNl).trans
        (Adds.node read.appends isValue.isExpression)
      have holds : Holds p₁.built [destination, value] [op] := by simpa using whole.holds
      refine ⟨⟨?_, whole.complete .assignmentStatement⟩, .assignment holds isPlace isValue⟩
      rw [falls other, assignmentOrExpressionStatement, found]
      simp only [read.run]
  | @expression p₁ value other found read isValue quiet =>
      have whole := Adds.node read.appends isValue.isExpression
      have holds : Holds p₁.built [value] [] := whole.holds
      refine ⟨⟨?_, whole.complete .expressionStatement⟩, .expression holds isValue⟩
      rw [falls other, assignmentOrExpressionStatement, found]
      simp only [read.run, quiet]
      rfl
  | other _ read kind =>
      refine ⟨read, ?_⟩
      cases node with
      | token t => simp at kind
      | node kind' children => exact .other (by simpa [isOneOf] using kind)

/-- The statement production reads what stands before the statement, then the statement. -/
theorem StatementRead.nodes {body : Body} (read : StatementRead g p body p') :
    KotlinSyntax.statement g p = p' ∧ ∃ nodes, Adds p nodes [] p' ∧ BodyNodes body nodes := by
  obtain ⟨before, bare⟩ := read
  obtain ⟨runs, added, shape⟩ := before.adds
  obtain ⟨node, isStatement⟩ := bare.node
  refine ⟨?_, _, added.trans (Adds.node node.appends isStatement.isStatement),
    .ofStatement shape isStatement⟩
  rw [KotlinSyntax.statement, runs p.rest.length (Nat.le_refl _)]
  exact node.run

/-- The production of a body builds its nodes. -/
theorem BodyRead.nodes {body : Body} (read : BodyRead g p body p') :
    (if p.at_ .lBrace then g.block p else g.statement p) = p' ∧
      ∃ nodes, Adds p nodes [] p' ∧ BodyNodes body nodes := by
  cases read with
  | block here read kind =>
      obtain ⟨children, rfl⟩ := eq_node_of_is kind
      rw [if_pos here]
      exact ⟨read.run, _, Adds.node read.appends kind, .ofBlock children⟩
  | statement here run read =>
      obtain ⟨ran, nodes⟩ := read.nodes
      rw [if_neg (by rw [here]; exact Bool.false_ne_true), run]
      exact ⟨ran, nodes⟩

/-- A condition in parentheses is added as it is. -/
theorem ConditionRead.adds {keyword : SyntaxKind} {cond : Cst} (more : keyword ≠ .newline)
    (read : ConditionRead g keyword p cond p') :
    ∃ tokens, Adds p [cond] tokens p' ∧ IsValue cond ∧
      (eatNl (g.expression (eatNl ((eatNl (p.expect keyword)).expect .lParen)))).expect .rParen =
        p' := by
  obtain ⟨here, opens, read, isValue, closes⟩ := read
  obtain ⟨first, keyword, _⟩ := Adds.expect here more
  have inside := Adds.node read.appends isValue.isExpression
  rw [← read.run] at inside closes
  obtain ⟨tokens, parentheses, _⟩ := bracketed opens (by decide) (by decide) inside closes
  have whole := keyword.thenNl.trans parentheses
  rw [read.run] at whole ⊢
  exact ⟨_, whole, isValue, rfl⟩

theorem ThenRead.nodes {body : Option Body} (read : ThenRead g p body p') :
    (if p.at_ .lBrace then g.block p else if p.at_ .semicolon then p.bump
        else if p.at_ .elseKw then p else g.statement p) = p' ∧
      ∃ nodes tokens, Adds p nodes tokens p' ∧ OptionalNodes body nodes := by
  cases read with
  | empty here =>
      obtain ⟨token, rest, ahead, kind⟩ := Parser.rest_of_at here
      have current : p.current = some .semicolon := by simpa [Parser.at_] using here
      have added := Adds.bump ahead (by rw [kind]; decide)
      exact ⟨by simp [Parser.at_, current], [], [token], added, rfl⟩
  | absent here =>
      have current : p.current = some .elseKw := by simpa [Parser.at_] using here
      exact ⟨by simp [Parser.at_, current], [], [], Adds.refl p, rfl⟩
  | body noSemicolon noElse read =>
      obtain ⟨run, nodes, added, shape⟩ := read.nodes
      rw [noSemicolon, noElse]
      exact ⟨run, nodes, [], added, shape⟩

theorem ElseRead.nodes {body : Option Body} (read : ElseRead g p body p') :
    (if p.at_ .elseKw then
        if (eatNl p.bump).at_ .lBrace then g.block (eatNl p.bump)
        else if (eatNl p.bump).at_ .semicolon then (eatNl p.bump).bump
        else g.statement (eatNl p.bump)
      else p) = p' ∧
      ∃ nodes tokens, Adds p nodes tokens p' ∧ OptionalNodes body nodes := by
  have keyword : ∀ {p : Parser}, p.at_ .elseKw = true →
      ∃ token, Adds p [] [token] (eatNl p.bump) := by
    intro p here
    obtain ⟨token, rest, ahead, kind⟩ := Parser.rest_of_at here
    exact ⟨token, (Adds.bump ahead (by rw [kind]; decide)).thenNl⟩
  cases read with
  | absent here => exact ⟨by rw [here]; rfl, [], [], Adds.refl p, rfl⟩
  | empty here empty =>
      obtain ⟨first, added⟩ := keyword here
      obtain ⟨token, rest, ahead, kind⟩ := Parser.rest_of_at empty
      have current : (eatNl p.bump).current = some .semicolon := by simpa [Parser.at_] using empty
      have both := added.trans (Adds.bump ahead (by rw [kind]; decide))
      rw [if_pos here]
      exact ⟨by simp [Parser.at_, current], [], _, both, rfl⟩
  | body here noSemicolon read =>
      obtain ⟨first, added⟩ := keyword here
      obtain ⟨run, nodes, more, shape⟩ := read.nodes
      rw [if_pos here, noSemicolon]
      exact ⟨run, nodes, _, added.trans more, shape⟩

theorem OptionalRead.nodes {body : Option Body} (read : OptionalRead g p body p') :
    optionalBody g p = p' ∧ ∃ nodes, Adds p nodes [] p' ∧ OptionalNodes body nodes := by
  cases read with
  | absent noBlock noStatement =>
      exact ⟨by simp [optionalBody, noBlock, noStatement], [], Adds.refl p, rfl⟩
  | body follows read =>
      obtain ⟨run, nodes, added, shape⟩ := read.nodes
      refine ⟨?_, nodes, added, shape⟩
      rw [← run, optionalBody]
      by_cases block : p.at_ .lBrace = true
      · rw [if_pos block, if_pos block]
      · have statement_ : atStatement g p = true := by simpa [block] using follows
        rw [if_neg block, if_neg block, if_pos statement_]

theorem DoBodyRead.nodes {body : Option Body} (read : DoBodyRead g p body p') :
    (if p.at_ .lBrace then eatNl (g.block p)
        else if atStatement g p then eatNl (g.statement p) else p) = p' ∧
      ∃ nodes, Adds p nodes [] p' ∧ OptionalNodes body nodes := by
  cases read with
  | absent noBlock noStatement =>
      exact ⟨by simp [noBlock, noStatement], [], Adds.refl p, rfl⟩
  | body follows read =>
      obtain ⟨run, nodes, added, shape⟩ := read.nodes
      refine ⟨?_, nodes, added.thenNl, shape⟩
      rw [← run]
      by_cases block : p.at_ .lBrace = true
      · rw [if_pos block, if_pos block]
      · have statement_ : atStatement g p = true := by simpa [block] using follows
        rw [if_neg block, if_neg block, if_pos statement_]

theorem WhileBodyRead.nodes {body : Option Body} (read : WhileBodyRead g p body p') :
    (if p.at_ .lBrace then g.block p else if p.at_ .semicolon then p.bump
        else if atStatement g p then g.statement p else p) = p' ∧
      ∃ nodes tokens, Adds p nodes tokens p' ∧ OptionalNodes body nodes := by
  cases read with
  | empty here =>
      obtain ⟨token, rest, ahead, kind⟩ := Parser.rest_of_at here
      have current : p.current = some .semicolon := by simpa [Parser.at_] using here
      have added := Adds.bump ahead (by rw [kind]; decide)
      exact ⟨by simp [Parser.at_, current], [], [token], added, rfl⟩
  | optional noSemicolon read =>
      obtain ⟨run, nodes, added, shape⟩ := read.nodes
      rw [noSemicolon]
      exact ⟨run, nodes, [], added, shape⟩

end Bodies

/-! ### The constructs -/

/-- A control structure, a statement with its labels, or a labelled lambda. -/
inductive Construct where
  | conditional (cond : Cst) (then_ els : Option Body)
  | whenEntry (conditions : List Condition) (guard : Option Cst) (body : Body)
  | forLoop (variable_ iterable : Cst) (body : Option Body)
  | whileLoop (cond : Cst) (body : Option Body)
  | doWhile (body : Option Body) (cond : Cst)
  | statement (body : Body)
  | prefixedLambda (operators labels : List Token) (lambda : Cst)
  | trailingLambda (label : Token) (lambda : Cst)

/-- The lowering of the trees carries every body and every condition of the construct, under its
labels. -/
def Construct.Kept (ctx : Leaves) : Construct → List Cst → Prop
  | conditional cond then_ els, trees =>
      ∃ node, trees = [node] ∧ ConditionalKept ctx cond then_ els node
  | whenEntry conditions guard body, trees =>
      ∃ node, trees = [node] ∧ ∀ subject, WhenArmKept ctx subject conditions guard body node
  | forLoop _ iterable body, trees => ∃ node, trees = [node] ∧ ForKept ctx iterable body node
  | whileLoop cond body, trees => ∃ node, trees = [node] ∧ WhileKept ctx cond body node
  | doWhile body cond, trees => ∃ node, trees = [node] ∧ DoWhileKept ctx cond body node
  | statement body, trees => StatementKept ctx body trees
  | prefixedLambda operators labels lambda, trees =>
      ∃ node, trees = [node] ∧ PrefixedLambdaKept ctx operators labels lambda node
  | trailingLambda label lambda, trees =>
      ∃ node, trees = [node] ∧ TrailingLambdaKept ctx [label] lambda node

/-- Where the lowering keeps a construct: no label is written, the body is there, and the body of a
branch is a block or an expression, that of a `do-while` no assignment. -/
def Construct.Sound (ctx : Leaves) : Construct → Prop
  | conditional _ then_ els => ConditionalSound ctx then_ els
  | whenEntry _ _ body => body.IsPlain
  | forLoop _ _ body => ∃ b ∈ body, b.labels = []
  | whileLoop _ body => ∃ b ∈ body, b.labels = []
  | doWhile body _ => DoWhileSound body
  | statement body => body.labels = []
  | prefixedLambda _ labels _ => labels = []
  | trailingLambda _ _ => False

section Constructs

variable (g : Grammar)

/-- One condition of a `when` entry. -/
inductive WhenConditionRead : Parser → Condition → Parser → Prop where
  | value {p p' : Parser} {tree : Cst} : p.atAny [.inKw, .notIn, .isKw, .notIs] = false →
      ReadsTree g.expression p tree p' → IsValue tree → WhenConditionRead p (.value tree) p'
  | range {p p₁ : Parser} {op : Token} {rest : List Token} {container : Cst} :
      p.rest = op :: rest → op.kind = .inKw ∨ op.kind = .notIn →
      ReadsTree g.expression (eatNl p.start.2.bump) container p₁ → IsValue container →
      WhenConditionRead p (.range op container) (p₁.complete p.built .rangeTest)
  | type {p p₁ : Parser} {op : Token} {rest : List Token} {ty : Cst} :
      p.rest = op :: rest → op.kind = .isKw ∨ op.kind = .notIs →
      ReadsTree g.type_ (eatNl p.start.2.bump) ty p₁ → ty.isNode isTypeNode = true →
      WhenConditionRead p (.type op ty) (p₁.complete p.built .typeTest)

/-- The conditions of a `when` entry, or its `else`. -/
inductive WhenConditionsRead : Parser → List Condition → Parser → Prop where
  | otherwise {p : Parser} : p.at_ .elseKw = true → WhenConditionsRead p [] (eatNl p.bump)
  | conditions {p p₁ p' : Parser} {first : Condition} {more : List Condition} :
      p.at_ .elseKw = false → WhenConditionRead g p first p₁ →
      ItemsRead .arrow (WhenConditionRead g) p₁ more p' →
      WhenConditionsRead p (first :: more) (eatNl p')

/-- The guard of a `when` entry. -/
inductive GuardRead : Parser → Option Cst → Parser → Prop where
  | unguarded {p : Parser} : p.at_ .ifKw = false → GuardRead p none p
  | guarded {p p₁ : Parser} {guard : Cst} : p.at_ .ifKw = true →
      ReadsTree g.expression (eatNl p.start.2.bump) guard p₁ → IsValue guard →
      GuardRead p (some guard) (p₁.complete p.built .whenGuard)

/-- The prefixes of an expression: operators, labels and annotations. -/
inductive PrefixesRead : Parser → List Token → List Token → List Cst → Parser → Prop where
  | done {p : Parser} : atPrefixUnaryPrefix p = false → PrefixesRead p [] [] [] p
  | operator {p p' : Parser} {op : Token} {rest operators labels : List Token} {trees : List Cst} :
      p.rest = op :: rest → prefixOperator op.kind = true →
      PrefixesRead (eatNl p.bump) operators labels trees p' →
      PrefixesRead p (op :: operators) labels trees p'
  | label {p p' : Parser} {name at_ : Token} {rest operators labels : List Token}
      {trees : List Cst} : p.rest = name :: at_ :: rest → name.kind = .identifier →
      at_.kind = .at_ → PrefixesRead (eatNl (prefixLabel p)) operators labels trees p' →
      PrefixesRead p operators (name :: labels)
        (.node .label ((simpleIdentifier p.start.2).expect .at_).built :: trees) p'
  | annotation_ {p q p' : Parser} {operators labels : List Token} {tree : Cst} {trees : List Cst} :
      p.at_ .at_ = true → ReadsTree g.annotation p tree q →
      tree.isNode (is .annotationNode) = true → q.rest.length < p.rest.length →
      PrefixesRead (eatNl q) operators labels trees p' →
      PrefixesRead p operators labels (tree :: trees) p'

/-- What the parser reads as a construct. -/
inductive ConstructRead : Parser → Construct → Parser → Prop where
  | conditional {p p₁ p₂ p₃ : Parser} {cond : Cst} {then_ els : Option Body} :
      ConditionRead g .ifKw p.start.2 cond p₁ → ThenRead g (eatNl p₁) then_ p₂ →
      ElseRead g (eatNl p₂) els p₃ →
      ConstructRead p (.conditional cond then_ els) (ifExpression g p)
  | whenEntry {p p₁ p₂ p₃ : Parser} {conditions : List Condition} {guard : Option Cst}
      {body : Body} : WhenConditionsRead g (eatNl p.start.2) conditions p₁ →
      GuardRead g p₁ guard p₂ → p₂.at_ .arrow = true → BodyRead g (eatNl (p₂.expect .arrow)) body p₃ →
      ConstructRead p (.whenEntry conditions guard body) (KotlinSyntax.whenEntry g p)
  | forLoop {p p₁ p₂ p₃ p₄ : Parser} {asides : List Cst} {variable_ iterable : Cst}
      {body : Option Body} : p.at_ .forKw = true →
      (eatNl (p.start.2.expect .forKw)).at_ .lParen = true →
      AnnotationRead g (eatNl ((eatNl (p.start.2.expect .forKw)).expect .lParen)) asides p₁ →
      ReadsTree (fun p => if p.at_ .lParen then g.multiVariableDeclaration p
        else g.variableDeclaration p) p₁ variable_ p₂ → LoopVariable variable_ →
      (eatNl p₂).at_ .inKw = true →
      ReadsTree g.expression (eatNl ((eatNl p₂).expect .inKw)) iterable p₃ → IsValue iterable →
      (eatNl p₃).at_ .rParen = true →
      OptionalRead g (eatNl ((eatNl p₃).expect .rParen)) body p₄ →
      ConstructRead p (.forLoop variable_ iterable body) (forStatement g p)
  | whileLoop {p p₁ p₂ : Parser} {cond : Cst} {body : Option Body} :
      ConditionRead g .whileKw p.start.2 cond p₁ → WhileBodyRead g (eatNl p₁) body p₂ →
      ConstructRead p (.whileLoop cond body) (KotlinSyntax.whileStatement g p)
  | doWhile {p p₁ p₂ : Parser} {cond : Cst} {body : Option Body} : p.at_ .doKw = true →
      DoBodyRead g (eatNl (p.start.2.expect .doKw)) body p₁ →
      ConditionRead g .whileKw p₁ cond p₂ →
      ConstructRead p (.doWhile body cond) (KotlinSyntax.doWhileStatement g p)
  | statement {p p' : Parser} {body : Body} : StatementRead g p body p' →
      ConstructRead p (.statement body) p'
  | prefixedLambda {p p₁ p₂ : Parser} {operators labels : List Token} {trees : List Cst}
      {lambda : Cst} : PrefixesRead g p.start.2 operators labels trees p₁ → labels ≠ [] →
      ReadsTree (fun p => (postfixUnaryExpression g p).2) p₁ lambda p₂ →
      lambda.isNode (is .lambdaLiteral) = true →
      ConstructRead p (.prefixedLambda operators labels lambda) (prefixUnaryExpression g p)
  | trailingLambda {p p₁ p₂ : Parser} {name at_ : Token} {rest : List Token} {asides : List Cst}
      {lambda : Cst} : AnnotationsRead g p.start.2 asides p₁ → p₁.rest = name :: at_ :: rest →
      name.kind = .identifier → at_.kind = .at_ → ReadsTree g.lambdaLiteral (label p₁) lambda p₂ →
      lambda.isNode (is .lambdaLiteral) = true →
      ConstructRead p (.trailingLambda name lambda) (annotatedLambda g p)

end Constructs

/-! ### The nodes of the constructs -/

section Building

variable {g : Grammar} {p p₁ p₂ p₃ p₄ : Parser}

theorem conditional_built {cond : Cst} {then_ els : Option Body}
    (condition : ConditionRead g .ifKw p.start.2 cond p₁)
    (thenRead : ThenRead g (eatNl p₁) then_ p₂) (elseRead : ElseRead g (eatNl p₂) els p₃) :
    ∃ children tokens thenNodes elseNodes,
      Appends p [.node .ifExpression children] (ifExpression g p) ∧
      Holds children (cond :: (thenNodes ++ elseNodes)) tokens ∧ IsValue cond ∧
      OptionalNodes then_ thenNodes ∧ OptionalNodes els elseNodes := by
  obtain ⟨tokens₁, added₁, isValue, run₁⟩ := condition.adds (by decide)
  obtain ⟨run₂, thenNodes, tokens₂, added₂, thenShape⟩ := thenRead.nodes
  obtain ⟨run₃, elseNodes, tokens₃, added₃, elseShape⟩ := elseRead.nodes
  have whole := (added₁.thenNl.trans added₂).thenNl.trans added₃
  have run : ifExpression g p = p₃.complete p.built .ifExpression := by
    rw [← run₃, ← run₂, ← run₁]
    rfl
  refine ⟨p₃.built, _, thenNodes, elseNodes, ?_, by simpa using whole.holds, isValue, thenShape,
    elseShape⟩
  rw [run]
  exact whole.complete .ifExpression

theorem while_built {cond : Cst} {body : Option Body}
    (condition : ConditionRead g .whileKw p.start.2 cond p₁)
    (bodyRead : WhileBodyRead g (eatNl p₁) body p₂) :
    ∃ children tokens nodes,
      Appends p [.node .whileStatement children] (KotlinSyntax.whileStatement g p) ∧
      Holds children (cond :: nodes) tokens ∧ IsValue cond ∧ OptionalNodes body nodes := by
  obtain ⟨tokens₁, added₁, isValue, run₁⟩ := condition.adds (by decide)
  obtain ⟨run₂, nodes, tokens₂, added₂, shape⟩ := bodyRead.nodes
  have whole := added₁.thenNl.trans added₂
  have run : KotlinSyntax.whileStatement g p = p₂.complete p.built .whileStatement := by
    rw [← run₂, ← run₁]
    rfl
  refine ⟨p₂.built, _, nodes, ?_, whole.holds, isValue, shape⟩
  rw [run]
  exact whole.complete .whileStatement

theorem doWhile_built {cond : Cst} {body : Option Body} (here : p.at_ .doKw = true)
    (bodyRead : DoBodyRead g (eatNl (p.start.2.expect .doKw)) body p₁)
    (condition : ConditionRead g .whileKw p₁ cond p₂) :
    ∃ children tokens nodes,
      Appends p [.node .doWhileStatement children] (KotlinSyntax.doWhileStatement g p) ∧
      Holds children (nodes ++ [cond]) tokens ∧ IsValue cond ∧ OptionalNodes body nodes := by
  have here : p.start.2.at_ .doKw = true := here
  obtain ⟨token, keyword, _⟩ := Adds.expect here (by decide)
  obtain ⟨run₁, nodes, added₁, shape⟩ := bodyRead.nodes
  obtain ⟨tokens₂, added₂, isValue, run₂⟩ := condition.adds (by decide)
  have whole := (keyword.thenNl.trans added₁).trans added₂
  have run : KotlinSyntax.doWhileStatement g p = p₂.complete p.built .doWhileStatement := by
    rw [← run₂, ← run₁]
    rfl
  refine ⟨p₂.built, _, nodes, ?_, by simpa using whole.holds, isValue, shape⟩
  rw [run]
  exact whole.complete .doWhileStatement

theorem for_built {asides : List Cst} {variable_ iterable : Cst} {body : Option Body}
    (here : p.at_ .forKw = true) (opens : (eatNl (p.start.2.expect .forKw)).at_ .lParen = true)
    (annotated : AnnotationRead g (eatNl ((eatNl (p.start.2.expect .forKw)).expect .lParen)) asides p₁)
    (declared : ReadsTree (fun p => if p.at_ .lParen then g.multiVariableDeclaration p
      else g.variableDeclaration p) p₁ variable_ p₂) (var : LoopVariable variable_)
    (within : (eatNl p₂).at_ .inKw = true)
    (read : ReadsTree g.expression (eatNl ((eatNl p₂).expect .inKw)) iterable p₃)
    (isValue : IsValue iterable) (closes : (eatNl p₃).at_ .rParen = true)
    (bodyRead : OptionalRead g (eatNl ((eatNl p₃).expect .rParen)) body p₄) :
    ∃ children tokens nodes, Appends p [.node .forStatement children] (forStatement g p) ∧
      Holds children (asides ++ variable_ :: iterable :: nodes) tokens ∧
      (∀ node ∈ asides, node.isNode (is .annotationNode) = true) ∧ OptionalNodes body nodes := by
  have here : p.start.2.at_ .forKw = true := here
  obtain ⟨token₁, keyword, _⟩ := Adds.expect here (by decide)
  obtain ⟨token₂, opened, _⟩ := Adds.expect opens (by decide)
  obtain ⟨run₁, _, added₁⟩ := annotated.adds
  have annotations : ∀ node ∈ asides, node.isNode (is .annotationNode) = true := by
    cases annotated with
    | plain => exact nofun
    | annotated _ _ kind => simpa using kind
  have isVariable : variable_.isNode (fun _ => true) = true := by
    cases var <;> rfl
  obtain ⟨token₃, inside, _⟩ := Adds.expect within (by decide)
  obtain ⟨token₄, closed, _⟩ := Adds.expect closes (by decide)
  obtain ⟨run₅, nodes, added₅, shape⟩ := bodyRead.nodes
  have header := (keyword.thenNl.trans opened).thenNl.trans added₁
  have pattern := (header.trans (Adds.node declared.appends isVariable)).thenNl.trans inside
  have values := (pattern.thenNl.trans (Adds.node read.appends isValue.isExpression)).thenNl
  have whole := (values.trans closed).thenNl.trans added₅
  have run : forStatement g p = p₄.complete p.built .forStatement := by
    rw [← run₅, ← read.run, ← declared.run, ← run₁]
    rfl
  refine ⟨p₄.built, _, nodes, ?_, by simpa using whole.holds, annotations, shape⟩
  rw [run]
  exact whole.complete .forStatement

/-- A token at the start of a node, with the line breaks after it. -/
theorem keyword_added {op : Token} {rest : List Token} (ahead : p.rest = op :: rest)
    (more : op.kind ≠ .newline) : Adds p.start.2 [] [op] (eatNl p.start.2.bump) := by
  have ahead : p.start.2.rest = op :: rest := ahead
  exact (Adds.bump ahead more).thenNl

theorem WhenConditionRead.node {condition : Condition} {p' : Parser}
    (read : WhenConditionRead g p condition p') :
    ∃ tree, ReadsTree (whenCondition g) p tree p' ∧ ConditionNode condition tree ∧
      tree.isNode (fun _ => true) = true := by
  cases read with
  | @value _ tree other read isValue =>
      have none : p.at_ .inKw = false ∧ p.at_ .notIn = false ∧ p.at_ .isKw = false ∧
          p.at_ .notIs = false := by
        rw [Parser.atAny] at other
        cases current : p.current with
        | none => simp [Parser.at_, current]
        | some kind =>
            rw [current] at other
            simpa [Parser.at_, current] using other
      refine ⟨tree, ⟨?_, read.appends⟩, .value isValue, isNode_any isValue.isExpression⟩
      simp only [whenCondition, none]
      exact read.run
  | @range p₁ op rest container ahead kind read isValue =>
      have current : p.current = some op.kind := by simp [Parser.current, Parser.nth, ahead]
      have more : op.kind ≠ .newline := by rcases kind with op_ | op_ <;> simp [op_]
      have here : (p.at_ .inKw || p.at_ .notIn) = true := by
        rcases kind with op_ | op_ <;> simp [Parser.at_, current, op_]
      have whole := (keyword_added ahead more).trans
        (Adds.node read.appends isValue.isExpression)
      refine ⟨_, ⟨?_, whole.complete .rangeTest⟩, .range kind whole.holds isValue, rfl⟩
      rw [whenCondition, if_pos here, ← read.run]
      rfl
  | @type p₁ op rest ty ahead kind read isType =>
      have current : p.current = some op.kind := by simp [Parser.current, Parser.nth, ahead]
      have more : op.kind ≠ .newline := by rcases kind with op_ | op_ <;> simp [op_]
      have noRange : ¬(p.at_ .inKw || p.at_ .notIn) = true := by
        rcases kind with op_ | op_ <;> simp [Parser.at_, current, op_]
      have here : (p.at_ .isKw || p.at_ .notIs) = true := by
        rcases kind with op_ | op_ <;> simp [Parser.at_, current, op_]
      have whole := (keyword_added ahead more).trans (Adds.node read.appends isType)
      refine ⟨_, ⟨?_, whole.complete .typeTest⟩, .type kind whole.holds isType, rfl⟩
      rw [whenCondition, if_neg noRange, if_pos here, ← read.run]
      rfl

theorem WhenConditionsRead.nodes {conditions : List Condition} {p' : Parser}
    (read : WhenConditionsRead g p conditions p') :
    (if p.at_ .elseKw then eatNl p.bump else eatNl (commaList .arrow (whenCondition g) p)) = p' ∧
      ∃ nodes tokens, Adds p nodes tokens p' ∧ List.Forall₂ ConditionNode conditions nodes := by
  cases read with
  | otherwise here =>
      obtain ⟨token, rest, ahead, kind⟩ := Parser.rest_of_at here
      rw [if_pos here]
      exact ⟨rfl, [], [token], (Adds.bump ahead (by rw [kind]; decide)).thenNl, .nil⟩
  | @conditions p₁ p' first more noElse reading items =>
      obtain ⟨tree, read, shape, isNode⟩ := reading.node
      obtain ⟨runs, trees, tokens, shapes, added⟩ := items.adds fun _ _ _ reading => reading.node
      have list : commaList .arrow (whenCondition g) p = p' := by
        rw [commaList, read.run]
        exact runs p₁.rest.length (Nat.le_refl _)
      rw [noElse, list]
      exact ⟨rfl, tree :: trees, _, ((Adds.node read.appends isNode).trans added).thenNl,
        .cons shape shapes⟩

theorem GuardRead.nodes {guard : Option Cst} {p' : Parser} (read : GuardRead g p guard p') :
    whenGuard g p = p' ∧ ∃ nodes, Adds p nodes [] p' ∧ GuardNodes guard nodes := by
  cases read with
  | unguarded here => exact ⟨by simp [whenGuard, here], [], Adds.refl p, .unguarded⟩
  | @guarded p₁ guard here read isValue =>
      obtain ⟨token, rest, ahead, kind⟩ := Parser.rest_of_at here
      have whole := (keyword_added ahead (by rw [kind]; decide)).trans
        (Adds.node read.appends isValue.isExpression)
      have isGuard : SyntaxTree.isNode (is .whenGuard) (.node .whenGuard p₁.built : Cst) = true := rfl
      refine ⟨?_, _, Adds.node (whole.complete .whenGuard) isGuard, .guarded whole.holds isValue⟩
      rw [whenGuard, if_pos here, ← read.run]
      rfl

theorem whenEntry_built {conditions : List Condition} {guard : Option Cst} {body : Body}
    (conditionsRead : WhenConditionsRead g (eatNl p.start.2) conditions p₁)
    (guardRead : GuardRead g p₁ guard p₂) (arrow : p₂.at_ .arrow = true)
    (bodyRead : BodyRead g (eatNl (p₂.expect .arrow)) body p₃) :
    ∃ children tokens conditionNodes guardNodes bodyNodes,
      Appends p [.node .whenEntry children] (KotlinSyntax.whenEntry g p) ∧
      Holds children (conditionNodes ++ guardNodes ++ bodyNodes) tokens ∧
      List.Forall₂ ConditionNode conditions conditionNodes ∧ GuardNodes guard guardNodes ∧
      BodyNodes body bodyNodes := by
  obtain ⟨run₁, conditionNodes, tokens₁, added₁, conditionShapes⟩ := conditionsRead.nodes
  obtain ⟨run₂, guardNodes, added₂, guardShape⟩ := guardRead.nodes
  obtain ⟨token, arrowed, _⟩ := Adds.expect arrow (by decide)
  obtain ⟨run₃, bodyNodes, added₃, shape⟩ := bodyRead.nodes
  have header := (((Adds.eatNl p.start.2).trans added₁).trans added₂).trans arrowed
  have inside := (header.thenNl.trans added₃).thenNl
  -- A semicolon after the body belongs to the entry.
  obtain ⟨last, more, closed⟩ : ∃ last tokens,
      (if (eatNl p₃).at_ .semicolon then (eatNl p₃).bump else eatNl p₃) = last ∧
        Adds (eatNl p₃) [] tokens last := by
    by_cases here : (eatNl p₃).at_ .semicolon = true
    · obtain ⟨token, rest, ahead, kind⟩ := Parser.rest_of_at here
      exact ⟨_, [token], if_pos here, Adds.bump ahead (by rw [kind]; decide)⟩
    · exact ⟨_, [], if_neg here, Adds.refl _⟩
  have whole := inside.trans closed.2
  have run : KotlinSyntax.whenEntry g p = last.complete p.built .whenEntry := by
    rw [← closed.1, ← run₃, ← run₂, ← run₁]
    rfl
  refine ⟨last.built, _, conditionNodes, guardNodes, bodyNodes, ?_, by simpa using whole.holds,
    conditionShapes, guardShape, shape⟩
  rw [run]
  exact whole.complete .whenEntry

/-- A label before an expression is one node, over its name. -/
theorem prefixLabel_read {name at_ : Token} {rest : List Token}
    (ahead : p.rest = name :: at_ :: rest) (isName : name.kind = .identifier)
    (isAt : at_.kind = .at_) :
    atLabel p = true ∧
      Appends p [.node .label ((simpleIdentifier p.start.2).expect .at_).built] (prefixLabel p) ∧
      Holds ((simpleIdentifier p.start.2).expect .at_).built [] [name, at_] ∧
      (prefixLabel p).rest.length < p.rest.length := by
  obtain ⟨labels, named, less⟩ := labelName_adds ahead isName isAt
  exact ⟨labels, named.complete .label, named.holds, less⟩

/-- A round over a prefix leads to the rounds over those after it. -/
theorem prefix_round (step : prefixUnaryPrefix g p = some (.prefixUnaryExpression, p₁))
    (less : p₁.rest.length < p.rest.length)
    (later : ∀ rounds, p₁.rest.length ≤ rounds →
      operatorLinks (prefixUnaryPrefix g) rounds (some .prefixUnaryExpression) p₁ =
        (some .prefixUnaryExpression, p₂)) :
    ∀ rounds, p.rest.length ≤ rounds →
      operatorLinks (prefixUnaryPrefix g) rounds none p = (some .prefixUnaryExpression, p₂) ∧
        operatorLinks (prefixUnaryPrefix g) rounds (some .prefixUnaryExpression) p =
          (some .prefixUnaryExpression, p₂) := by
  intro rounds room
  obtain ⟨rounds, rfl⟩ : ∃ n, rounds = n + 1 := ⟨rounds - 1, by omega⟩
  simp only [operatorLinks, step, Option.getD_none, Option.getD_some]
  exact ⟨later rounds (by omega), later rounds (by omega)⟩

/-- The prefixes of an expression are read one in a round, a node each but for the operators. -/
theorem PrefixesRead.adds {operators labels : List Token} {trees : List Cst}
    (read : PrefixesRead g p operators labels trees p₁) :
    Adds p trees operators p₁ ∧ PrefixNodes labels trees ∧
      (∀ rounds, p.rest.length ≤ rounds →
        operatorLinks (prefixUnaryPrefix g) rounds (some .prefixUnaryExpression) p =
          (some .prefixUnaryExpression, p₁)) ∧
      (labels ≠ [] → ∀ rounds, p.rest.length ≤ rounds →
        operatorLinks (prefixUnaryPrefix g) rounds none p = (some .prefixUnaryExpression, p₁)) := by
  induction read with
  | @done p stops =>
      refine ⟨Adds.refl p, .nil, fun rounds _ => ?_, fun some_ => absurd rfl some_⟩
      cases rounds <;> simp [operatorLinks, prefixUnaryPrefix, stops]
  | @operator p p' op rest operators labels trees ahead isOperator _ ih =>
      obtain ⟨added, shape, later, _⟩ := ih
      have current : p.current = some op.kind := by simp [Parser.current, Parser.nth, ahead]
      have kinds : op.kind = .not ∨ op.kind = .minus ∨ op.kind = .plus ∨ op.kind = .plusPlus ∨
          op.kind = .minusMinus := by simpa [prefixOperator, isOneOf] using isOperator
      have more : op.kind ≠ .newline := by
        rcases kinds with op_ | op_ | op_ | op_ | op_ <;> simp [op_]
      have bumped := (Adds.bump ahead more).thenNl
      have step : prefixUnaryPrefix g p = some (.prefixUnaryExpression, eatNl p.bump) := by
        rcases kinds with op_ | op_ | op_ | op_ | op_ <;>
          simp [prefixUnaryPrefix, atPrefixUnaryPrefix, atLabel, Parser.at_, Parser.atAny, current,
            op_]
      have less : (eatNl p.bump).rest.length < p.rest.length := by
        have left := (Adds.eatNl p.bump).rest
        rw [(Parser.bump_of_rest ahead).2] at left
        rw [ahead]
        exact Nat.lt_succ_of_le left
      have rounds := prefix_round step less later
      exact ⟨bumped.trans added, shape, fun n room => (rounds n room).2,
        fun _ n room => (rounds n room).1⟩
  | @label p p' name at_ rest operators labels trees ahead isName isAt _ ih =>
      obtain ⟨added, shape, later, _⟩ := ih
      obtain ⟨here, appends, holds, less⟩ := prefixLabel_read ahead isName isAt
      have kind : SyntaxTree.isNode (is .label) (.node .label
          ((simpleIdentifier p.start.2).expect .at_).built : Cst) = true := rfl
      have current : p.current = some .identifier := by
        simp [Parser.current, Parser.nth, ahead, isName]
      have step : prefixUnaryPrefix g p =
          some (.prefixUnaryExpression, eatNl (prefixLabel p)) := by
        simp [prefixUnaryPrefix, atPrefixUnaryPrefix, here, Parser.at_, current]
      have left := (Adds.eatNl (prefixLabel p)).rest
      have rounds := prefix_round step (Nat.lt_of_le_of_lt left less) later
      exact ⟨(Adds.node appends kind).thenNl.trans added, .label (.mk isName isAt holds) shape,
        fun n room => (rounds n room).2, fun _ n room => (rounds n room).1⟩
  | @annotation_ p q p' operators labels tree trees here read kind less _ ih =>
      obtain ⟨added, shape, later, _⟩ := ih
      have current : p.current = some .at_ := by simpa [Parser.at_] using here
      have step : prefixUnaryPrefix g p = some (.prefixUnaryExpression, eatNl q) := by
        simp [prefixUnaryPrefix, atPrefixUnaryPrefix, Parser.at_, Parser.atAny, current, read.run]
      have left := (Adds.eatNl q).rest
      have rounds := prefix_round step (Nat.lt_of_le_of_lt left less) later
      exact ⟨(Adds.node read.appends kind).thenNl.trans added, .annotation_ kind shape,
        fun n room => (rounds n room).2, fun _ n room => (rounds n room).1⟩

theorem prefixedLambda_built {operators labels : List Token} {trees : List Cst} {lambda : Cst}
    (prefixes : PrefixesRead g p.start.2 operators labels trees p₁) (some_ : labels ≠ [])
    (read : ReadsTree (fun p => (postfixUnaryExpression g p).2) p₁ lambda p₂)
    (kind : lambda.isNode (is .lambdaLiteral) = true) :
    ∃ children, Appends p [.node .prefixUnaryExpression children] (prefixUnaryExpression g p) ∧
      Holds children (trees ++ [lambda]) operators ∧ PrefixNodes labels trees := by
  obtain ⟨added, shape, _, runs⟩ := prefixes.adds
  have whole := added.trans (Adds.node read.appends kind)
  have links := runs some_ p.start.2.rest.length (Nat.le_refl _)
  have run : prefixUnaryExpression g p = p₂.complete p.built .prefixUnaryExpression := by
    rw [← read.run, prefixUnaryExpression]
    have links : operatorLinks (prefixUnaryPrefix g) p.rest.length none
        { p with built := [] } = (some .prefixUnaryExpression, p₁) := links
    simp only [Parser.start, links]
  refine ⟨p₂.built, ?_, by simpa using whole.holds, shape⟩
  rw [run]
  exact whole.complete .prefixUnaryExpression

theorem trailingLambda_built {name at_ : Token} {rest : List Token} {asides : List Cst}
    {lambda : Cst} (annotated : AnnotationsRead g p.start.2 asides p₁)
    (ahead : p₁.rest = name :: at_ :: rest) (isName : name.kind = .identifier)
    (isAt : at_.kind = .at_) (read : ReadsTree g.lambdaLiteral (label p₁) lambda p₂)
    (kind : lambda.isNode (is .lambdaLiteral) = true) :
    ∃ children before, Appends p [.node .callExpression children] (annotatedLambda g p) ∧
      Holds children (before ++ [lambda]) [] ∧ PrefixNodes [name] before := by
  obtain ⟨runs, _, added₁⟩ := annotated.adds
  obtain ⟨here, appends, holds, _⟩ := label_read ahead isName isAt
  have isLabel : SyntaxTree.isNode (is .label) (.node .label
      (eatNl ((simpleIdentifier p₁.start.2).expect .at_)).built : Cst) = true := rfl
  have whole := (added₁.trans (Adds.node appends isLabel)).trans (Adds.node read.appends kind)
  have annotations : ∀ {p p' : Parser} {asides labels : List Cst} {names : List Token},
      AnnotationsRead g p asides p' → PrefixNodes names labels →
      PrefixNodes names (asides ++ labels) := by
    intro p p' asides labels names read shape
    induction read with
    | done => exact shape
    | more _ _ kind _ _ ih => exact .annotation_ kind ih
  have run : annotatedLambda g p = p₂.complete p.built .callExpression := by
    have first := runs p.start.2.rest.length (Nat.le_refl _)
    have labelled : (if atLabel p₁ then label p₁ else p₁) = label p₁ := if_pos here
    rw [← read.run, ← labelled, ← first]
    rfl
  refine ⟨p₂.built, _, ?_, by simpa using whole.holds,
    annotations annotated (.label (.mk isName isAt holds) .nil)⟩
  rw [run]
  exact whole.complete .callExpression

end Building

/-! ### Bodies, conditions and labels kept -/

section Keeping

variable (ctx : Leaves) {g : Grammar} {p p' : Parser} {construct : Construct}

/-- A property of the one node that was appended. -/
theorem exists_single {node : Cst} {P : Cst → Prop} :
    (∃ node', [node] = [node'] ∧ P node') ↔ P node := by
  constructor
  · rintro ⟨node', same, holds⟩
    rwa [List.singleton_inj.mp same]
  · exact fun holds => ⟨node, rfl, holds⟩

/-- **Bodies kept**: for every control structure, labelled statement and labelled lambda that the
parser reads, what it builds lowers to a node that carries the whole of its bodies and conditions,
under their labels, exactly when the construct is sound. -/
theorem bodies_kept_iff (read : ConstructRead g p construct p') :
    ∃ trees, Appends p trees p' ∧ (construct.Kept ctx trees ↔ construct.Sound ctx) := by
  cases read with
  | conditional condition thenRead elseRead =>
      obtain ⟨children, tokens, thenNodes, elseNodes, appends, holds, isValue, thenShape,
        elseShape⟩ := conditional_built condition thenRead elseRead
      refine ⟨_, appends, ?_⟩
      rw [Construct.Kept, exists_single, conditional_kept_iff isValue thenShape elseShape holds]
      rfl
  | whenEntry conditionsRead guardRead arrow bodyRead =>
      obtain ⟨children, tokens, conditionNodes, guardNodes, bodyNodes, appends, holds,
        conditionShapes, guardShape, shape⟩ :=
        whenEntry_built conditionsRead guardRead arrow bodyRead
      refine ⟨_, appends, ?_⟩
      have each : ∀ subject, WhenArmKept ctx subject _ _ _ (.node .whenEntry children) ↔ _ :=
        fun subject => whenArm_kept_iff conditionShapes guardShape shape holds
      rw [Construct.Kept, exists_single]
      simp only [each, forall_const]
      rfl
  | forLoop here opens annotated declared var within read isValue closes bodyRead =>
      obtain ⟨children, tokens, nodes, appends, holds, asides, shape⟩ :=
        for_built here opens annotated declared var within read isValue closes bodyRead
      refine ⟨_, appends, ?_⟩
      rw [Construct.Kept, exists_single, for_kept_iff asides var isValue shape holds]
      rfl
  | whileLoop condition bodyRead =>
      obtain ⟨children, tokens, nodes, appends, holds, isValue, shape⟩ :=
        while_built condition bodyRead
      refine ⟨_, appends, ?_⟩
      rw [Construct.Kept, exists_single, while_kept_iff isValue shape holds]
      rfl
  | doWhile here bodyRead condition =>
      obtain ⟨children, tokens, nodes, appends, holds, isValue, shape⟩ :=
        doWhile_built here bodyRead condition
      refine ⟨_, appends, ?_⟩
      rw [Construct.Kept, exists_single, doWhile_kept_iff isValue shape holds]
      rfl
  | statement read =>
      obtain ⟨_, nodes, ⟨children, appends, holds⟩, shape⟩ := read.nodes
      exact ⟨children, appends, statement_kept_iff shape holds⟩
  | prefixedLambda prefixes some_ read kind =>
      obtain ⟨children, appends, holds, shape⟩ := prefixedLambda_built prefixes some_ read kind
      refine ⟨_, appends, ?_⟩
      rw [Construct.Kept, exists_single, prefixedLambda_kept_iff kind shape holds]
      rfl
  | trailingLambda annotated ahead isName isAt read kind =>
      obtain ⟨children, before, appends, holds, shape⟩ :=
        trailingLambda_built annotated ahead isName isAt read kind
      refine ⟨_, appends, ?_⟩
      rw [Construct.Kept, exists_single, trailingLambda_kept_iff kind shape holds]
      simp [Construct.Sound]

end Keeping

/-! ### `if (c) x = y` -/

/-- A grammar that is deep enough for `if (c) x = y`. -/
def shallow : Grammar := Grammar.idle.deeper.deeper

def identifier (text : String) : Token := ⟨.identifier, text.toList, 0⟩

def identifierNode (text : String) : Cst := .node .primaryExpression [.token (identifier text)]

/-- The tokens of `if (c) x = y`. -/
def guardedTokens : List Token :=
  [⟨.ifKw, "if".toList, 0⟩, ⟨.lParen, "(".toList, 0⟩, identifier "c", ⟨.rParen, ")".toList, 0⟩,
   identifier "x", ⟨.equal, "=".toList, 0⟩, identifier "y", ⟨.eof, [], 0⟩]

/-- What the parser reads of `if (c) x = y` before its body. -/
def guardedHeader : List Cst :=
  [.token ⟨.ifKw, "if".toList, 0⟩, .token ⟨.lParen, "(".toList, 0⟩, identifierNode "c",
   .token ⟨.rParen, ")".toList, 0⟩]

/-- The assignment `x = y`. -/
def guardedAssignment : List Cst :=
  [identifierNode "x", .token ⟨.equal, "=".toList, 0⟩, identifierNode "y"]

def guardedBody : Body := ⟨[], .node .assignmentStatement guardedAssignment⟩

def guardedNode : Cst :=
  .node .ifExpression (guardedHeader ++ [.node .assignmentStatement guardedAssignment])

/-- The parser in `if (c) x = y` after `n` tokens. -/
def inGuarded (n : Nat) (previous : SyntaxKind) (built : List Cst) : Parser :=
  { Parser.new (guardedTokens.drop n) with previous := some previous, built := built }

theorem isValue_identifierNode (text : String) : IsValue (identifierNode text) := .primary (.token _)

/-- The condition of `if (c) x = y`. -/
theorem guarded_condition : ConditionRead shallow .ifKw (Parser.new guardedTokens).start.2
    (identifierNode "c")
    ((eatNl (inGuarded 3 .identifier (guardedHeader.take 3))).expect .rParen) := by
  have cond : ReadsTree shallow.expression
      (eatNl ((eatNl ((Parser.new guardedTokens).start.2.expect .ifKw)).expect .lParen))
      (identifierNode "c") (inGuarded 3 .identifier (guardedHeader.take 3)) :=
    ⟨by decide +kernel, by decide +kernel, by decide +kernel⟩
  exact .mk (by rfl) (by rfl) cond (isValue_identifierNode "c")
    (by rfl)

/-- The body of `if (c) x = y`. -/
theorem guarded_body : BodyRead shallow (inGuarded 4 .rParen guardedHeader) guardedBody
    ((inGuarded 7 .identifier guardedAssignment).complete guardedHeader .assignmentStatement) := by
  have destination : assignmentDestination Grammar.idle.deeper (inGuarded 4 .rParen guardedHeader) =
      some (inGuarded 5 .identifier [identifierNode "x"]) := by rfl
  have first : Adds (inGuarded 4 .rParen guardedHeader).start.2 [identifierNode "x"] []
      (inGuarded 5 .identifier [identifierNode "x"]) :=
    ⟨[identifierNode "x"], ⟨by decide +kernel, by decide +kernel⟩, Holds.node _ _⟩
  have ahead : (inGuarded 5 .identifier [identifierNode "x"]).rest =
      ⟨.equal, "=".toList, 0⟩ :: guardedTokens.drop 6 := by rfl
  have value : ReadsTree Grammar.idle.deeper.expression
      (eatNl (inGuarded 5 .identifier [identifierNode "x"]).bump) (identifierNode "y")
      (inGuarded 7 .identifier guardedAssignment) :=
    ⟨by decide +kernel, by decide +kernel, by decide +kernel⟩
  have bare : BareStatementRead Grammar.idle.deeper (inGuarded 4 .rParen guardedHeader)
      (.node .assignmentStatement guardedAssignment)
      ((inGuarded 7 .identifier guardedAssignment).complete guardedHeader .assignmentStatement) :=
    .assignment (by rfl) destination first (isValue_identifierNode "x") ahead
      (by decide +kernel) value (isValue_identifierNode "y")
  have noPrefix : statementPrefix Grammar.idle.deeper (inGuarded 4 .rParen guardedHeader) = none := by
    rfl
  have whole : StatementRead Grammar.idle.deeper (inGuarded 4 .rParen guardedHeader) guardedBody
      ((inGuarded 7 .identifier guardedAssignment).complete guardedHeader .assignmentStatement) :=
    .mk (.done noPrefix) bare
  have run : shallow.statement (inGuarded 4 .rParen guardedHeader) =
      KotlinSyntax.statement Grammar.idle.deeper (inGuarded 4 .rParen guardedHeader) := rfl
  exact .statement (by rfl) run whole

/-- The parser reads `if (c) x = y` as a condition and an assignment. -/
theorem guarded_read : ConstructRead shallow (Parser.new guardedTokens)
    (.conditional (identifierNode "c") (some guardedBody) none)
    (ifExpression shallow (Parser.new guardedTokens)) := by
  have closed : eatNl ((eatNl (inGuarded 3 .identifier (guardedHeader.take 3))).expect .rParen) =
      inGuarded 4 .rParen guardedHeader := by rfl
  have body := ThenRead.body (by rfl) (by rfl) guarded_body
  rw [← closed] at body
  exact .conditional guarded_condition body (.absent (by rfl))

/-- What `if (c) x = y` lowers to, on the node the parser builds. -/
theorem guarded_kept : ∃ trees,
    Appends (Parser.new guardedTokens) trees (ifExpression shallow (Parser.new guardedTokens)) ∧
      (Construct.Kept .unread (.conditional (identifierNode "c") (some guardedBody) none) trees ↔
        Construct.Sound .unread (.conditional (identifierNode "c") (some guardedBody) none)) :=
  bodies_kept_iff .unread guarded_read

/-- `if (c) x = y` is read whole and without errors, and its branch is `x`: the assignment is
lost. -/
theorem bodies_not_kept :
    (expression shallow (Parser.new guardedTokens)).built = [guardedNode] ∧
      (expression shallow (Parser.new guardedTokens)).errors = [] ∧
      expr .unread guardedNode = .conditional (.var ⟨['c']⟩) (.var ⟨['x']⟩) .missing ∧
      guardedBody.stmt .unread = .expr (.assign .assign (.var ⟨['x']⟩) (.var ⟨['y']⟩)) ∧
      ¬ConditionalKept .unread (identifierNode "c") (some guardedBody) none guardedNode := by
  have lowers : expr .unread guardedNode =
      .conditional (.var ⟨['c']⟩) (.var ⟨['x']⟩) .missing := rfl
  have means : guardedBody.stmt .unread =
      .expr (.assign .assign (.var ⟨['x']⟩) (.var ⟨['y']⟩)) := rfl
  refine ⟨by rfl, by rfl, lowers, means, ?_⟩
  intro kept
  obtain ⟨t, e, same, carries, _⟩ := kept
  rw [lowers] at same
  injection same with _ same _
  have carried := carries guardedBody rfl
  rw [means, ← same] at carried
  rcases carried with value | block
  · simp at value
  · exact nomatch block

end CaffeineLs.HirDef.Kotlin
