/-
Module: CaffeineLs.Proofs.ControlBodies
Purpose: What the bodies of control structures lower to, compared with the statement the parser
  attached, for every construct and every form of body.
Trusted boundary: none
Main exports: Body, Carries, IsValue
-/
import CaffeineLs.Proofs.PostfixChains

namespace CaffeineLs.HirDef.Kotlin

open Lib KotlinSyntax
open HirExpand (Name)
open Decorated (firstNode lastNode nodesOf tokensOf)

variable (ctx : Leaves)

/-! ### Values -/

/-- An expression that stands for a statement: an assignment or a block. -/
def ExprData.isStatement : ExprData → Bool
  | .assign _ _ _ | .block _ => true
  | _ => false

theorem ExprData.ne_block {e : ExprData} (value : e.isStatement = false) (s : StmtData) :
    e ≠ .block s := by
  rintro rfl
  exact Bool.noConfusion value

theorem isStatement_literal (token : Token) : (literal ctx token).isStatement = false := by
  rw [literal]
  split
  · cases ctx.integerLiteral token.lexeme <;> rfl
  · rfl
  · rfl
  · rfl
  · cases ctx.charLiteral token.lexeme <;> rfl
  · rfl
  · rfl
  · rfl
  · rfl

theorem isStatement_suffixData (children : LoweredCst) (value : ExprData)
    (written : Option LoweredCst) : (suffixData ctx value children written).isStatement = false := by
  rw [suffixData]
  split
  · rw [navigation]
    split
    · rfl
    · split <;> rfl
  · split
    · cases value <;> rfl
    · split
      · split <;> rfl
      · rfl

theorem isStatement_postfixStep {current step : ExprData} {kind : SyntaxKind}
    (found : postfixStep current kind = some step) : step.isStatement = false := by
  unfold postfixStep at found
  split at found
  · rw [← Option.some.inj found]
    rfl
  · rw [← Option.some.inj found]
    rfl
  · rw [← Option.some.inj found]
    rfl
  · exact absurd found nofun

/-- The step of a postfix chain is never a statement. -/
theorem isStatement_pending (elements : List LoweredCst) {s : PostfixState}
    (pending : ∀ step ∈ s.pending, step.isStatement = false) :
    ∀ step ∈ (elements.foldl (postfixElement ctx) s).pending, step.isStatement = false := by
  induction elements generalizing s with
  | nil => exact pending
  | cons element elements ih =>
      rw [List.foldl_cons]
      apply ih
      intro step member
      rw [postfixElement] at member
      split at member
      · split at member
        · exact pending step member
        · split at member
          · exact pending step member
          · split at member
            · exact pending step member
            · rw [← Option.mem_some_iff.mp member]
              exact isStatement_suffixData ctx element _ _
      · split at member
        · rename_i found
          rw [← Option.mem_some_iff.mp member]
          exact isStatement_postfixStep found
        · exact pending step member

/-- The kinds whose expression is that of a node inside, or an assignment. -/
def isWrapper : SyntaxKind → Bool :=
  isOneOf [.primaryExpression, .prefixUnaryExpression, .assignmentStatement]

/-- Every operator of a chain of casts is a cast. -/
theorem isStatement_casts (links : List (Bool × HirExpand.SpannedTypeRef)) (value : ExprData)
    (plain : value.isStatement = false) :
    (links.foldl (fun operand (safe, ty) => ExprData.cast ty operand safe) value).isStatement =
      false := by
  induction links generalizing value with
  | nil => exact plain
  | cons link links ih => exact ih _ rfl

/-- An expression of any other kind is no assignment and no block. -/
theorem isStatement_exprData {kind : SyntaxKind} (other : isWrapper kind = false)
    (children : List LoweredCst) (plain : Cst) :
    (exprData children ctx plain kind).isStatement = false := by
  cases kind with
  | primaryExpression | prefixUnaryExpression | assignmentStatement => exact Bool.noConfusion other
  | parenthesizedExpression =>
      rw [exprData]
      cases childExpression children <;> rfl
  | stringLiteral =>
      rw [exprData, stringTemplate]
      split <;> rfl
  | postfixUnaryExpression =>
      rw [exprData, postfix_]
      split
      · rfl
      · rename_i base _
        have steps := isStatement_pending ctx children (s :=
          { current := base, pending := none, seenBase := false, writtenTypeArgs := none }) (by simp)
        dsimp only
        cases last : (children.foldl (postfixElement ctx) _).pending with
        | none => rfl
        | some step => exact steps step last
  | binaryExpression =>
      rw [exprData, binary]
      split
      · split <;> rfl
      · rfl
  | rangeExpression =>
      rw [exprData, range]
      split <;> rfl
  | elvisExpression =>
      rw [exprData, elvis]
      split <;> rfl
  | asExpression =>
      rw [exprData, asCast]
      split
      · rename_i value first more _ _
        rw [List.foldl_cons]
        exact isStatement_casts more _ rfl
      · rfl
  | isExpression =>
      rw [exprData, isTest]
      split
      · dsimp only
        split <;> rfl
      · rfl
  | inExpression =>
      rw [exprData, containment]
      split
      · dsimp only
        split <;> rfl
      · rfl
  | infixFunctionCall =>
      rw [exprData, infixCall]
      split <;> rfl
  | ifExpression =>
      rw [exprData, conditional]
      split <;> rfl
  | jumpExpression =>
      rw [exprData, jump]
      split <;> rfl
  | anonymousFunction =>
      rw [exprData, anonymousFunction]
      split
      · rfl
      · split <;> rfl
  | objectLiteral =>
      rw [exprData]
      cases ctx.localDeclaration plain <;> rfl
  | callableReference =>
      rw [exprData, callableReference]
      split
      · split <;> rfl
      · rfl
  | _ => rfl

/-- A node read from lowered children is a lowered child. -/
theorem exists_child {children : List Cst} {p : SyntaxKind → Bool} {inner : LoweredCst}
    (found : firstNode p (children.map (lowered ctx)) = some inner) :
    ∃ child ∈ children, inner = lowered ctx child := by
  rw [firstNode] at found
  obtain ⟨child, member, same⟩ := List.mem_map.mp (List.mem_of_find?_eq_some found)
  exact ⟨child, member, same.symm⟩

/-- An expression node that wraps another is its expression, or no block. -/
theorem exprData_wrapper {kind : SyntaxKind} (wrapper : isWrapper kind = true)
    (children : List Cst) (plain : Cst) :
    (∃ child ∈ children, exprData (children.map (lowered ctx)) ctx plain kind = expr ctx child) ∨
      ∀ s, exprData (children.map (lowered ctx)) ctx plain kind ≠ .block s := by
  have kinds : kind = .primaryExpression ∨ kind = .prefixUnaryExpression ∨
      kind = .assignmentStatement := by simpa [isWrapper, isOneOf] using wrapper
  rcases kinds with rfl | rfl | rfl
  · rw [exprData, primary]
    split
    · rename_i inner found
      obtain ⟨child, member, rfl⟩ := exists_child ctx found
      split
      · exact .inl ⟨child, member, rfl⟩
      · exact .inr (by simp)
    · split
      · split
        · exact .inr (by simp)
        · exact .inr (ExprData.ne_block (isStatement_literal ctx _))
      · exact .inr (by simp)
  · rw [exprData, prefix_]
    split
    · exact .inr (by simp)
    · rename_i inner found
      rw [childExpression, firstExpression, Option.map_eq_some_iff] at found
      obtain ⟨node, found, rfl⟩ := found
      obtain ⟨child, member, rfl⟩ := exists_child ctx found
      split
      · exact .inl ⟨child, member, rfl⟩
      all_goals exact .inr (by simp)
  · rw [exprData, assign]
    split
    · exact .inr (by simp)
    · exact .inr (by simp)

/-- No expression of a tree is a block: only a branch is. -/
theorem expr_ne_block (tree : Cst) (s : StmtData) : expr ctx tree ≠ .block s := by
  match tree with
  | .token t => exact nofun
  | .node kind children =>
      rw [expr_node]
      by_cases wrapper : isWrapper kind = true
      · rcases exprData_wrapper ctx wrapper children (.node kind children) with inside | outside
        · obtain ⟨child, member, same⟩ := inside
          rw [same]
          exact expr_ne_block child s
        · exact outside s
      · exact ExprData.ne_block (isStatement_exprData ctx (by simpa using wrapper) _ _) s
termination_by sizeOf tree
decreasing_by
  have smaller := List.sizeOf_lt_of_mem member
  simp only [SyntaxTree.node.sizeOf_spec]
  omega

/-- What an expression of the grammar reads: a primary expression, an operator node, or prefixes
before one. -/
inductive IsValue : Cst → Prop where
  | primary {tree : Cst} : IsPrimary tree → IsValue tree
  | prefixed {children before : List Cst} {operand : Cst} {tokens : List Token} :
      Holds children (before ++ [operand]) tokens → (∀ node ∈ before, Aside node) →
      IsValue operand → IsValue (.node .prefixUnaryExpression children)
  | node {kind : SyntaxKind} {children : List Cst} :
      kind ∈ [.postfixUnaryExpression, .binaryExpression, .rangeExpression, .elvisExpression,
        .asExpression, .isExpression, .inExpression, .infixFunctionCall] →
      IsValue (.node kind children)

theorem IsValue.isExpression {tree : Cst} (value : IsValue tree) :
    tree.isNode isExpression = true := by
  cases value with
  | primary primary => exact primary.isExpression
  | prefixed => rfl
  | node kind =>
      simp only [List.mem_cons, List.not_mem_nil, or_false] at kind
      rcases kind with rfl | rfl | rfl | rfl | rfl | rfl | rfl | rfl
      all_goals rfl

/-- A value is no statement. -/
theorem IsValue.not_isStatement {tree : Cst} (value : IsValue tree) :
    tree.isNode isStatement = false := by
  cases value with
  | primary primary =>
      cases primary with
      | token t => rfl
      | node kind =>
          simp only [List.mem_cons, List.not_mem_nil, or_false] at kind
          rcases kind with rfl | rfl | rfl | rfl | rfl | rfl | rfl | rfl | rfl | rfl | rfl | rfl | rfl
          all_goals rfl
  | prefixed => rfl
  | node kind =>
      simp only [List.mem_cons, List.not_mem_nil, or_false] at kind
      rcases kind with rfl | rfl | rfl | rfl | rfl | rfl | rfl | rfl
      all_goals rfl

/-- A value lowers to no assignment. -/
theorem IsValue.isStatement_expr {tree : Cst} (value : IsValue tree) :
    (expr ctx tree).isStatement = false := by
  induction value with
  | primary primary =>
      cases primary with
      | token t =>
          have single : expr ctx (.node .primaryExpression [.token t]) =
              if t.kind = .identifier then .var (nameOf t) else literal ctx t := rfl
          rw [single]
          split
          · rfl
          · exact isStatement_literal ctx t
      | node kind =>
          rw [expr_node]
          apply isStatement_exprData
          simp only [List.mem_cons, List.not_mem_nil, or_false] at kind
          rcases kind with rfl | rfl | rfl | rfl | rfl | rfl | rfl | rfl | rfl | rfl | rfl | rfl | rfl
          all_goals rfl
  | @prefixed children before inner tokens holds asides operand ih =>
      have read : childExpression (children.map (lowered ctx)) = some (expr ctx inner) := by
        rw [childExpression, firstExpression_lowered ctx holds,
          filter_isExpression_aside asides operand.isExpression]
        rfl
      rw [expr_node, exprData, prefix_, read]
      dsimp only
      split
      · exact ih
      all_goals rfl
  | node kind =>
      rw [expr_node]
      apply isStatement_exprData
      simp only [List.mem_cons, List.not_mem_nil, or_false] at kind
      rcases kind with rfl | rfl | rfl | rfl | rfl | rfl | rfl | rfl
      all_goals rfl

/-! ### Bodies -/

/-- What the parser attaches in the place of a body: a block or a statement, with the names of the
labels before it. -/
structure Body where
  labels : List Token
  node : Cst

/-- A statement under labels, the first outermost. -/
def labelled (labels : List Token) (s : StmtData) : StmtData :=
  labels.foldr (fun label s => .labeled (nameOf label) s) s

/-- The statement a body is: its node's, under its labels. -/
def Body.stmt (body : Body) : StmtData := labelled body.labels (statement ctx body.node)

/-- An expression carries a statement: it is its value, or a block of it. -/
def Carries (e : ExprData) (s : StmtData) : Prop := s = .expr e ∨ e = .block s

/-- A `label` node with its name. -/
inductive LabelNode : Token → Cst → Prop where
  | mk {name at_ : Token} {children : List Cst} : name.kind = .identifier → at_.kind = .at_ →
      Holds children [] [name, at_] → LabelNode name (.node .label children)

/-- The labels and annotations before a statement, with the names of the labels. -/
inductive PrefixNodes : List Token → List Cst → Prop where
  | nil : PrefixNodes [] []
  | label {name : Token} {names : List Token} {tree : Cst} {trees : List Cst} :
      LabelNode name tree → PrefixNodes names trees → PrefixNodes (name :: names) (tree :: trees)
  | annotation_ {names : List Token} {tree : Cst} {trees : List Cst} :
      tree.isNode (is .annotationNode) = true → PrefixNodes names trees →
      PrefixNodes names (tree :: trees)

/-- The node of a statement without what stands before it. -/
inductive StatementNode : Cst → Prop where
  | expression {children : List Cst} {value : Cst} : Holds children [value] [] → IsValue value →
      StatementNode (.node .expressionStatement children)
  | assignment {children : List Cst} {destination value : Cst} {op : Token} :
      Holds children [destination, value] [op] → IsValue destination → IsValue value →
      StatementNode (.node .assignmentStatement children)
  | other {kind : SyntaxKind} {children : List Cst} :
      kind ∈ [.forStatement, .whileStatement, .doWhileStatement, .propertyDecl, .functionDecl,
        .classDecl, .objectDecl, .typeAlias] → StatementNode (.node kind children)

/-- The nodes of a body. -/
inductive BodyNodes : Body → List Cst → Prop where
  | ofBlock (children : List Cst) : BodyNodes ⟨[], .node .block children⟩ [.node .block children]
  | ofStatement {labels : List Token} {before : List Cst} {node : Cst} : PrefixNodes labels before →
      StatementNode node → BodyNodes ⟨labels, node⟩ (before ++ [node])

/-- The nodes where a body may be left out. -/
def OptionalNodes : Option Body → List Cst → Prop
  | none, nodes => nodes = []
  | some body, nodes => BodyNodes body nodes

/-- A body that a branch may have: a block or an expression, without a label. -/
def Body.IsPlain (body : Body) : Prop :=
  body.labels = [] ∧ body.node.isNode (isOneOf [.block, .expressionStatement]) = true

attribute [local simp] stmtData in
theorem LabelNode.lowered {name : Token} {tree : Cst} (shape : LabelNode name tree) :
    branch (lowered ctx tree) = .missing ∧ statement ctx tree = .missing := by
  cases shape with
  | @mk at_ children _ _ holds =>
      constructor
      · have kind : (Kotlin.lowered ctx (.node .label children)).isNode (is .block) = false :=
          isNode_lowered ctx _ _
        rw [branch, kind, children_lowered, firstExpression_lowered ctx holds]
        rfl
      · simp [statement_node, labeled, firstNode_lowered ctx holds]

theorem PrefixNodes.aside {names : List Token} {nodes : List Cst} (shape : PrefixNodes names nodes) :
    ∀ node ∈ nodes, Aside node := by
  induction shape with
  | nil => exact nofun
  | label label _ ih =>
      intro node member
      rcases List.mem_cons.mp member with rfl | later
      · cases label
        rfl
      · exact ih node later
  | annotation_ kind _ ih =>
      intro node member
      rcases List.mem_cons.mp member with rfl | later
      · obtain ⟨children, rfl⟩ := eq_node_of_is kind
        rfl
      · exact ih node later

attribute [local simp] isStatement in
/-- Of what stands before a statement the labels are statements of their own. -/
theorem PrefixNodes.statements {names : List Token} {nodes : List Cst}
    (shape : PrefixNodes names nodes) :
    List.Forall₂ LabelNode names (nodes.filter (SyntaxTree.isNode isStatement)) := by
  induction shape with
  | nil => exact .nil
  | label label _ ih =>
      rw [List.filter_cons_of_pos (by cases label; rfl)]
      exact .cons label ih
  | annotation_ kind _ ih =>
      obtain ⟨children, rfl⟩ := eq_node_of_is kind
      rw [List.filter_cons_of_neg (by simp)]
      exact ih

theorem StatementNode.isStatement {node : Cst} (shape : StatementNode node) :
    node.isNode isStatement = true := by
  cases shape with
  | expression => rfl
  | assignment => rfl
  | other kind =>
      simp only [List.mem_cons, List.not_mem_nil, or_false] at kind
      rcases kind with rfl | rfl | rfl | rfl | rfl | rfl | rfl | rfl
      all_goals rfl

/-- The statements among the nodes of a body: its labels, and its node. -/
theorem BodyNodes.statements {body : Body} {nodes : List Cst} (shape : BodyNodes body nodes) :
    ∃ labels, List.Forall₂ LabelNode body.labels labels ∧
      nodes.filter (SyntaxTree.isNode Kotlin.isStatement) = labels ++ [body.node] := by
  cases shape with
  | ofBlock children => exact ⟨[], .nil, rfl⟩
  | ofStatement before node =>
      refine ⟨_, before.statements, ?_⟩
      rw [List.filter_append, List.filter_cons_of_pos node.isStatement]
      rfl

/-- What stands as the branch of a node that is no block: its first expression. -/
theorem branch_node {kind : SyntaxKind} (other : is .block kind = false) (children : List Cst) :
    branch (lowered ctx (.node kind children)) =
      (firstExpression (children.map (lowered ctx))).getD .missing := by
  have noBlock : (lowered ctx (.node kind children)).isNode (is .block) = false := by
    rw [isNode_lowered]
    exact other
  rw [branch, noBlock, children_lowered]
  rfl

/-- The first expression in a node is not a block. -/
theorem branch_ne_block {kind : SyntaxKind} (other : is .block kind = false) (children : List Cst)
    (s : StmtData) : branch (lowered ctx (.node kind children)) ≠ .block s := by
  rw [branch_node ctx other]
  cases found : firstExpression (children.map (lowered ctx)) with
  | none => exact nofun
  | some e =>
      rw [firstExpression, Option.map_eq_some_iff] at found
      obtain ⟨node, found, rfl⟩ := found
      obtain ⟨child, member, rfl⟩ := exists_child ctx found
      exact expr_ne_block ctx child s

/-- Declarations and loops are no expressions. -/
theorem stmtData_ne_expr {kind : SyntaxKind} (other : kind ∈ [.forStatement, .whileStatement,
    .doWhileStatement, .propertyDecl, .functionDecl, .classDecl, .objectDecl, .typeAlias])
    (children : List LoweredCst) (plain : Cst) (e value : ExprData) :
    stmtData children ctx plain e kind ≠ .expr value := by
  simp only [List.mem_cons, List.not_mem_nil, or_false] at other
  rcases other with rfl | rfl | rfl | rfl | rfl | rfl | rfl | rfl
  · rw [stmtData, foreach]
    split
    · split <;> simp
    · simp
  · rw [stmtData, whileStatement]
    split <;> simp
  · rw [stmtData, doWhileStatement]
    split <;> simp
  · rw [stmtData, localProperty]
    dsimp only
    split
    · cases firstExpression children <;> simp
    · split
      · simp
      · split <;> simp
  · rw [stmtData]
    cases ctx.localDeclaration plain <;> simp
  all_goals
    rw [stmtData]
    cases ctx.localDeclaration plain <;> simp

/-- What the node of an assignment lowers to. -/
theorem expr_assignment {children : List Cst} {destination value : Cst} {op : Token}
    (holds : Holds children [destination, value] [op]) (isPlace : IsValue destination)
    (isValue : IsValue value) :
    firstExpression (children.map (lowered ctx)) = some (expr ctx destination) ∧
      ∃ kind, expr ctx (.node .assignmentStatement children) =
        .assign kind (expr ctx destination) (expr ctx value) := by
  have expressions : [destination, value].filter (SyntaxTree.isNode isExpression) =
      [destination, value] := by
    rw [List.filter_cons_of_pos isPlace.isExpression, List.filter_cons_of_pos isValue.isExpression]
    rfl
  have first : firstExpression (children.map (lowered ctx)) = some (expr ctx destination) := by
    rw [firstExpression_lowered ctx holds, expressions]
    rfl
  have last : lastExpression (children.map (lowered ctx)) = some (expr ctx value) := by
    rw [lastExpression_lowered ctx holds, expressions]
    rfl
  have node := expr_node ctx .assignmentStatement children
  rw [exprData, assign, first, last] at node
  exact ⟨first, _, node⟩

/-- A statement is the value of its branch exactly when it is an expression. -/
theorem StatementNode.carries_branch {node : Cst} (shape : StatementNode node) :
    Carries (branch (Kotlin.lowered ctx node)) (statement ctx node) ↔
      node.isNode (isOneOf [.block, .expressionStatement]) = true := by
  cases shape with
  | @expression children value holds isValue =>
      have first : firstExpression (children.map (lowered ctx)) = some (expr ctx value) := by
        rw [firstExpression_lowered ctx holds, List.filter_cons_of_pos isValue.isExpression]
        rfl
      have same : Carries (branch (Kotlin.lowered ctx (.node .expressionStatement children)))
          (statement ctx (.node .expressionStatement children)) := by
        left
        rw [branch_node ctx rfl, statement_node, stmtData, first]
        rfl
      simp [same, isOneOf]
  | @assignment children destination value op holds isPlace isValue =>
      obtain ⟨first, kind, assigns⟩ := expr_assignment ctx holds isPlace isValue
      have lost : ¬Carries (branch (Kotlin.lowered ctx (.node .assignmentStatement children)))
          (statement ctx (.node .assignmentStatement children)) := by
        rw [branch_node ctx rfl, statement_node, stmtData, first, assigns]
        rintro (same | block)
        · have sizes := congrArg sizeOf same
          simp at sizes
          omega
        · exact expr_ne_block ctx destination _ block
      simp [lost, isOneOf]
  | @other kind children listed =>
      have notBlock : is .block kind = false := by
        simp only [List.mem_cons, List.not_mem_nil, or_false] at listed
        rcases listed with rfl | rfl | rfl | rfl | rfl | rfl | rfl | rfl <;> rfl
      have notPlain : isOneOf [.block, .expressionStatement] kind = false := by
        simp only [List.mem_cons, List.not_mem_nil, or_false] at listed
        rcases listed with rfl | rfl | rfl | rfl | rfl | rfl | rfl | rfl <;> rfl
      have lost : ¬Carries (branch (Kotlin.lowered ctx (.node kind children)))
          (statement ctx (.node kind children)) := by
        rintro (same | block)
        · rw [statement_node] at same
          exact stmtData_ne_expr ctx listed _ _ _ _ same
        · exact branch_ne_block ctx notBlock children _ block
      simp [lost, notPlain]

/-- A block is the value of its branch. -/
theorem carries_block (children : List Cst) :
    Carries (branch (lowered ctx (.node .block children))) (statement ctx (.node .block children)) := by
  have block : (lowered ctx (.node .block children)).isNode (is .block) = true :=
    isNode_lowered ctx _ _
  right
  rw [branch, if_pos block, children_lowered, blockExpr, statement_node, stmtData]

/-- Nothing that stands as a branch carries a labelled statement. -/
theorem not_carries_labeled {e : ExprData} (branches : (∃ node, e = branch (lowered ctx node)) ∨
    e = .missing) (name : Name) (s : StmtData) : ¬Carries e (.labeled name s) := by
  rintro (value | block)
  · exact nomatch value
  · rcases branches with ⟨node, rfl⟩ | rfl
    · cases node with
      | token t => exact nomatch block
      | node kind children =>
          by_cases isBlock : is .block kind = true
          · have kinds : (lowered ctx (.node kind children)).isNode (is .block) = true := by
              rw [isNode_lowered]
              exact isBlock
            rw [branch, if_pos kinds, blockExpr] at block
            injection block with block
            exact nomatch block
          · exact branch_ne_block ctx (by simpa using isBlock) children _ block
    · exact nomatch block

/-- The node of a body, as the branch it would be without its labels. -/
theorem BodyNodes.carries_node {body : Body} {nodes : List Cst} (shape : BodyNodes body nodes) :
    Carries (branch (lowered ctx body.node)) (body.stmt ctx) ↔ body.IsPlain := by
  cases shape with
  | ofBlock children =>
      have plain : Body.IsPlain ⟨[], .node .block children⟩ := ⟨rfl, rfl⟩
      exact iff_of_true (carries_block ctx children) plain
  | @ofStatement labels before node _ shape =>
      cases labels with
      | nil =>
          rw [Body.IsPlain, ← shape.carries_branch ctx]
          simp [Body.stmt, labelled]
      | cons name names =>
          apply iff_of_false
          · exact not_carries_labeled ctx (.inl ⟨node, rfl⟩) _ _
          · exact fun plain => absurd plain.1 nofun

/-- The first statement among the nodes of a body is its first label, or else its node. -/
theorem BodyNodes.head {body : Body} {nodes : List Cst} (shape : BodyNodes body nodes) :
    ∃ head rest, nodes.filter (SyntaxTree.isNode isStatement) = head :: rest ∧
      (body.labels = [] → head = body.node ∧ rest = []) ∧
      (body.labels ≠ [] → branch (lowered ctx head) = .missing ∧ statement ctx head = .missing) := by
  obtain ⟨labels, names, statements⟩ := shape.statements
  cases h : body.labels with
  | nil =>
      rw [h] at names
      cases names
      exact ⟨body.node, [], statements, fun _ => ⟨rfl, rfl⟩, fun some_ => absurd rfl some_⟩
  | cons name more =>
      rw [h] at names
      cases names with
      | @cons _ label _ labels labelled _ =>
          exact ⟨label, labels ++ [body.node], statements, nofun, fun _ => labelled.lowered ctx⟩

/-- The first statement, as a branch, carries the body exactly when the body is plain. -/
theorem BodyNodes.carries_head {body : Body} {nodes : List Cst} (shape : BodyNodes body nodes) :
    ∃ head rest, nodes.filter (SyntaxTree.isNode isStatement) = head :: rest ∧
      (body.labels = [] → rest = []) ∧
      (Carries (branch (lowered ctx head)) (body.stmt ctx) ↔ body.IsPlain) ∧
      (statement ctx head = body.stmt ctx ↔ body.labels = []) := by
  obtain ⟨head, rest, statements, unlabelled, labels⟩ := shape.head ctx
  refine ⟨head, rest, statements, fun alone => (unlabelled alone).2, ?_⟩
  cases h : body.labels with
  | nil =>
      obtain ⟨rfl, _⟩ := unlabelled h
      exact ⟨shape.carries_node ctx, by simp [Body.stmt, labelled, h]⟩
  | cons name names =>
      obtain ⟨missing, missing'⟩ := labels (by simp [h])
      have stmt : body.stmt ctx =
          .labeled (nameOf name) (labelled names (statement ctx body.node)) := by
        rw [Body.stmt, h]
        rfl
      rw [missing, missing', stmt]
      constructor
      · apply iff_of_false
        · exact not_carries_labeled ctx (.inr rfl) _ _
        · intro plain
          rw [Body.IsPlain, h] at plain
          exact absurd plain.1 nofun
      · exact iff_of_false nofun nofun

/-! ### `if` -/

section Constructs

variable {ctx} {children : List Cst} {tokens : List Token}

/-- An `if` carries its condition and its bodies. -/
def ConditionalKept (ctx : Leaves) (cond : Cst) (then_ els : Option Body) (node : Cst) : Prop :=
  ∃ t e, expr ctx node = .conditional (expr ctx cond) t e ∧
    (∀ body ∈ then_, Carries t (body.stmt ctx)) ∧ ∀ body ∈ els, Carries e (body.stmt ctx)

/-- An `if` has a then-body and its bodies are plain. Without a then-body nothing is lost only where
the expression after `else` has no lowering. -/
def ConditionalSound (ctx : Leaves) (then_ els : Option Body) : Prop :=
  ((∃ body ∈ then_, body.IsPlain) ∧ ∀ body ∈ els, body.IsPlain) ∨
    (then_ = none ∧ ∃ body ∈ els, body.stmt ctx = .expr .missing)

variable (ctx) in
/-- The bodies of an `if` are its statements. -/
theorem conditional_eq {cond : Cst} {nodes : List Cst} (isValue : IsValue cond)
    (holds : Holds children (cond :: nodes) tokens) :
    expr ctx (.node .ifExpression children) =
      match nodes.filter (SyntaxTree.isNode isStatement) with
      | [] => .missing
      | then_ :: bodies =>
          .conditional (expr ctx cond) (branch (lowered ctx then_))
            ((bodies.head?.map fun body => branch (lowered ctx body)).getD .missing) := by
  have first : firstExpression (children.map (lowered ctx)) = some (expr ctx cond) := by
    rw [firstExpression_lowered ctx holds, List.filter_cons_of_pos isValue.isExpression]
    rfl
  have statements : nodesOf isStatement (children.map (lowered ctx)) =
      (nodes.filter (SyntaxTree.isNode isStatement)).map (lowered ctx) := by
    rw [nodesOf_lowered ctx holds, List.filter_cons_of_neg (by rw [isValue.not_isStatement]; exact Bool.false_ne_true)]
  rw [expr_node, exprData, conditional, first, statements]
  cases nodes.filter (SyntaxTree.isNode isStatement) with
  | nil => rfl
  | cons then_ bodies => cases bodies <;> rfl

/-- What an `if` carries is read off its lowering. -/
theorem conditionalKept_iff_of_eq {cond node : Cst} {then_ els : Option Body} {t e : ExprData}
    (lowers : expr ctx node = .conditional (expr ctx cond) t e) :
    ConditionalKept ctx cond then_ els node ↔
      (∀ body ∈ then_, Carries t (body.stmt ctx)) ∧ ∀ body ∈ els, Carries e (body.stmt ctx) := by
  constructor
  · rintro ⟨t', e', same, kept⟩
    rw [lowers] at same
    injection same with _ same same'
    rwa [same, same']
  · exact fun kept => ⟨t, e, lowers, kept⟩

/-- What stands as the second branch. -/
def elseBranch (ctx : Leaves) (bodies : List Cst) : ExprData :=
  (bodies.head?.map fun body => branch (lowered ctx body)).getD .missing

theorem elseBranch_cases (bodies : List Cst) :
    (∃ node, elseBranch ctx bodies = branch (lowered ctx node)) ∨
      elseBranch ctx bodies = .missing := by
  cases bodies with
  | nil => exact .inr rfl
  | cons body bodies => exact .inl ⟨body, rfl⟩

variable (ctx) in
theorem Body.stmt_labelled {body : Body} (labelled : body.labels ≠ []) :
    ∃ name s, body.stmt ctx = .labeled name s := by
  obtain ⟨name, names, labels⟩ := List.exists_cons_of_ne_nil labelled
  rw [Body.stmt, labels]
  exact ⟨_, _, rfl⟩

/-- Without a then-body the else-body takes its place, and is lost unless it has no lowering. -/
theorem conditional_without_then {cond : Cst} {els : Body} {node head : Cst}
    {rest : List Cst} (alone : els.labels = [] → rest = [])
    (lowers : expr ctx node =
      .conditional (expr ctx cond) (branch (lowered ctx head)) (elseBranch ctx rest)) :
    ConditionalKept ctx cond none (some els) node ↔ ConditionalSound ctx none (some els) := by
  have kept : ConditionalKept ctx cond none (some els) node ↔
      Carries (elseBranch ctx rest) (els.stmt ctx) := by
    simp [conditionalKept_iff_of_eq lowers]
  have sound : ConditionalSound ctx none (some els) ↔ els.stmt ctx = .expr .missing := by
    simp [ConditionalSound]
  rw [kept, sound]
  by_cases labels : els.labels = []
  · rw [alone labels]
    constructor
    · rintro (value | block)
      · exact value
      · exact nomatch block
    · exact .inl
  · obtain ⟨name, s, labelled⟩ := Body.stmt_labelled ctx labels
    rw [labelled]
    exact iff_of_false (not_carries_labeled ctx (elseBranch_cases rest) name s) nofun

/-- The bodies of an `if` are kept exactly when it has a then-body and they are plain. -/
theorem conditional_kept_iff {cond : Cst} {then_ els : Option Body} {thenNodes elseNodes : List Cst}
    (isValue : IsValue cond) (thenShape : OptionalNodes then_ thenNodes)
    (elseShape : OptionalNodes els elseNodes)
    (holds : Holds children (cond :: (thenNodes ++ elseNodes)) tokens) :
    ConditionalKept ctx cond then_ els (.node .ifExpression children) ↔
      ConditionalSound ctx then_ els := by
  have lowers := conditional_eq ctx isValue holds
  rw [List.filter_append] at lowers
  cases then_ with
  | none =>
      obtain rfl : thenNodes = [] := thenShape
      cases els with
      | none =>
          obtain rfl : elseNodes = [] := elseShape
          simp [ConditionalKept, ConditionalSound, lowers]
      | some els =>
          obtain ⟨head, rest, statements, alone, _⟩ := BodyNodes.carries_head ctx elseShape
          rw [statements] at lowers
          exact conditional_without_then alone lowers
  | some then_ =>
      obtain ⟨head, rest, statements, alone, carries, _⟩ := BodyNodes.carries_head ctx thenShape
      rw [statements] at lowers
      have lowers : expr ctx (.node .ifExpression children) =
          .conditional (expr ctx cond) (branch (lowered ctx head))
            (elseBranch ctx (rest ++ elseNodes.filter (SyntaxTree.isNode isStatement))) := lowers
      have kept : ConditionalKept ctx cond (some then_) els (.node .ifExpression children) ↔ _ :=
        conditionalKept_iff_of_eq lowers
      have sound : ConditionalSound ctx (some then_) els ↔
          then_.IsPlain ∧ ∀ body ∈ els, body.IsPlain := by
        simp [ConditionalSound]
      have first : (∀ body ∈ some then_, Carries (branch (lowered ctx head)) (body.stmt ctx)) ↔
          then_.IsPlain := by simpa using carries
      rw [kept, sound, first]
      apply and_congr_right
      intro plain
      -- A plain then-body is one statement: the next one is the else-body's first.
      rw [alone plain.1, List.nil_append]
      cases els with
      | none => simp
      | some els =>
          obtain ⟨head', rest', statements', _, carries', _⟩ :=
            BodyNodes.carries_head ctx elseShape
          rw [statements']
          simpa [elseBranch] using carries'

/-! ### Loops -/

variable (ctx) in
/-- The body of a loop is the first statement in it: kept exactly when it is there, without a
label. -/
theorem controlStructureBody_iff {nodes : List Cst} {body : Option Body}
    (holds : Holds children nodes tokens) {before after bodyNodes : List Cst}
    (split : nodes = before ++ bodyNodes ++ after)
    (noneBefore : before.filter (SyntaxTree.isNode isStatement) = [])
    (noneAfter : after.filter (SyntaxTree.isNode isStatement) = [])
    (shape : OptionalNodes body bodyNodes) :
    (∃ s, controlStructureBody (children.map (lowered ctx)) = some s ∧
        ∀ b ∈ body, s = b.stmt ctx) ↔ ∃ b ∈ body, b.labels = [] := by
  have statements : nodes.filter (SyntaxTree.isNode isStatement) =
      bodyNodes.filter (SyntaxTree.isNode isStatement) := by
    rw [split, List.filter_append, List.filter_append, noneBefore, noneAfter, List.append_nil,
      List.nil_append]
  have read : controlStructureBody (children.map (lowered ctx)) =
      (bodyNodes.filter (SyntaxTree.isNode isStatement)).head?.map (statement ctx) := by
    rw [controlStructureBody, firstNode_lowered ctx holds, statements, Option.map_map]
    rfl
  rw [read]
  cases body with
  | none =>
      obtain rfl : bodyNodes = [] := shape
      simp
  | some body =>
      obtain ⟨head, rest, found, _, _, kept⟩ := BodyNodes.carries_head ctx shape
      rw [found]
      simpa using kept

/-- A value is no statement, in a list. -/
theorem filter_isStatement_value {value : Cst} (isValue : IsValue value) :
    [value].filter (SyntaxTree.isNode isStatement) = [] := by
  rw [List.filter_cons_of_neg (by rw [isValue.not_isStatement]; exact Bool.false_ne_true)]
  rfl

/-- A `while` carries its condition and its body. -/
def WhileKept (ctx : Leaves) (cond : Cst) (body : Option Body) (node : Cst) : Prop :=
  ∃ s, statement ctx node = .whileLoop (expr ctx cond) s ∧ ∀ b ∈ body, s = b.stmt ctx

theorem while_kept_iff {cond : Cst} {body : Option Body} {bodyNodes : List Cst}
    (isValue : IsValue cond) (shape : OptionalNodes body bodyNodes)
    (holds : Holds children (cond :: bodyNodes) tokens) :
    WhileKept ctx cond body (.node .whileStatement children) ↔ ∃ b ∈ body, b.labels = [] := by
  have first : firstExpression (children.map (lowered ctx)) = some (expr ctx cond) := by
    rw [firstExpression_lowered ctx holds, List.filter_cons_of_pos isValue.isExpression]
    rfl
  have split : cond :: bodyNodes = [cond] ++ bodyNodes ++ [] := by simp
  rw [← controlStructureBody_iff ctx holds split (filter_isStatement_value isValue) rfl
    shape, WhileKept, statement_node, stmtData, whileStatement, first]
  cases controlStructureBody (children.map (lowered ctx)) with
  | none => simp
  | some s => simp

/-- A `do-while` carries its condition and its body. -/
def DoWhileKept (ctx : Leaves) (cond : Cst) (body : Option Body) (node : Cst) : Prop :=
  ∃ s, statement ctx node = .doWhile s (expr ctx cond) ∧ ∀ b ∈ body, s = b.stmt ctx

/-- The body is there, without a label, and is no assignment, which would be read as the
condition. -/
def DoWhileSound (body : Option Body) : Prop :=
  ∃ b ∈ body, b.labels = [] ∧ b.node.isNode (is .assignmentStatement) = false

/-- The expressions among the nodes of a body: the node, if it is an assignment. -/
theorem BodyNodes.expressions {body : Body} {nodes : List Cst} (shape : BodyNodes body nodes) :
    nodes.filter (SyntaxTree.isNode isExpression) =
      if body.node.isNode (is .assignmentStatement) then [body.node] else [] := by
  cases shape with
  | ofBlock children => rfl
  | @ofStatement labels before node prefixes shape =>
      have none : before.filter (SyntaxTree.isNode isExpression) = [] := by
        rw [List.filter_eq_nil_iff]
        intro aside member
        rw [(prefixes.aside aside member).not_isExpression.1]
        exact Bool.false_ne_true
      rw [List.filter_append, none, List.nil_append]
      cases shape with
      | expression => rfl
      | assignment => rfl
      | other kind =>
          simp only [List.mem_cons, List.not_mem_nil, or_false] at kind
          rcases kind with rfl | rfl | rfl | rfl | rfl | rfl | rfl | rfl
          all_goals rfl

variable (ctx) in
/-- An assignment in the place of a body lowers to an expression that no condition lowers to. -/
theorem BodyNodes.expr_ne {body : Body} {nodes : List Cst} (shape : BodyNodes body nodes)
    (assigns : body.node.isNode (is .assignmentStatement) = true) {cond : Cst}
    (isValue : IsValue cond) : expr ctx body.node ≠ expr ctx cond := by
  intro same
  have value := isValue.isStatement_expr ctx
  rw [← same] at value
  cases shape with
  | ofBlock children => exact Bool.noConfusion assigns
  | ofStatement _ shape =>
      cases shape with
      | expression => exact Bool.noConfusion assigns
      | assignment holds isPlace isValue =>
          obtain ⟨_, kind, lowers⟩ := expr_assignment ctx holds isPlace isValue
          rw [lowers] at value
          exact Bool.noConfusion value
      | other kind =>
          simp only [List.mem_cons, List.not_mem_nil, or_false] at kind
          rcases kind with rfl | rfl | rfl | rfl | rfl | rfl | rfl | rfl
          all_goals exact Bool.noConfusion assigns

/-- The first expression in a `do-while` is its condition, unless its body is an assignment. -/
theorem firstExpression_doWhile {cond : Cst} {body : Body} {bodyNodes : List Cst}
    (isValue : IsValue cond) (shape : BodyNodes body bodyNodes)
    (holds : Holds children (bodyNodes ++ [cond]) tokens) :
    firstExpression (children.map (lowered ctx)) =
      some (if body.node.isNode (is .assignmentStatement) then expr ctx body.node
        else expr ctx cond) := by
  rw [firstExpression_lowered ctx holds, List.filter_append, shape.expressions,
    List.filter_cons_of_pos isValue.isExpression]
  split <;> rfl

theorem doWhile_kept_iff {cond : Cst} {body : Option Body} {bodyNodes : List Cst}
    (isValue : IsValue cond) (shape : OptionalNodes body bodyNodes)
    (holds : Holds children (bodyNodes ++ [cond]) tokens) :
    DoWhileKept ctx cond body (.node .doWhileStatement children) ↔ DoWhileSound body := by
  have split : bodyNodes ++ [cond] = [] ++ bodyNodes ++ [cond] := by simp
  have bodies := controlStructureBody_iff ctx holds split rfl
    (filter_isStatement_value isValue) shape
  rw [DoWhileKept, statement_node, stmtData, doWhileStatement]
  cases body with
  | none =>
      have absent : controlStructureBody (children.map (lowered ctx)) = none := by
        cases read : controlStructureBody (children.map (lowered ctx)) with
        | none => rfl
        | some s =>
            rw [read] at bodies
            simp at bodies
      rw [absent]
      cases firstExpression (children.map (lowered ctx)) <;> simp [DoWhileSound]
  | some body =>
      rw [firstExpression_doWhile isValue shape holds]
      have sound : DoWhileSound (some body) ↔
          body.labels = [] ∧ body.node.isNode (is .assignmentStatement) = false := by
        simp [DoWhileSound]
      have bodies : (∃ s, controlStructureBody (children.map (lowered ctx)) = some s ∧
          s = body.stmt ctx) ↔ body.labels = [] := by simpa using bodies
      rw [sound, ← bodies]
      by_cases assigns : body.node.isNode (is .assignmentStatement) = true
      · have other := BodyNodes.expr_ne ctx shape assigns isValue
        rw [if_pos assigns]
        cases controlStructureBody (children.map (lowered ctx)) with
        | none => simp
        | some s => simp [assigns, other]
      · rw [if_neg assigns]
        cases controlStructureBody (children.map (lowered ctx)) with
        | none => simp
        | some s => simp [assigns]

/-- The variable of a `for` loop: one declaration, or a pattern of at least one. -/
inductive LoopVariable : Cst → Prop where
  | single (children : List Cst) : LoopVariable (.node .variableDeclaration children)
  | pattern {children : List Cst} : children.any (SyntaxTree.isNode (is .variableDeclaration)) →
      LoopVariable (.node .multiVariableDeclaration children)

/-- A `for` carries what it iterates over and its body. -/
def ForKept (ctx : Leaves) (iterable : Cst) (body : Option Body) (node : Cst) : Prop :=
  ∃ var pattern s, statement ctx node = .forEach var pattern (expr ctx iterable) s ∧
    ∀ b ∈ body, s = b.stmt ctx

variable (ctx) in
/-- A loop variable is read. -/
theorem LoopVariable.read {variable_ : Cst} (shape : LoopVariable variable_) :
    ∃ found, loopVariable ctx (lowered ctx variable_) = some found := by
  cases shape with
  | single children =>
      have kind : (lowered ctx (.node .variableDeclaration children)).isNode
          (is .multiVariableDeclaration) = false := isNode_lowered ctx _ _
      rw [loopVariable, kind]
      exact ⟨_, rfl⟩
  | @pattern children some_ =>
      have kind : (lowered ctx (.node .multiVariableDeclaration children)).isNode
          (is .multiVariableDeclaration) = true := isNode_lowered ctx _ _
      have parts : nodesOf (is .variableDeclaration) (children.map (lowered ctx)) ≠ [] := by
        rw [show nodesOf (is .variableDeclaration) (children.map (lowered ctx)) = _ from
          Decorated.nodesOf_map_decorate _ (lowerNode ctx) children]
        obtain ⟨part, member, isPart⟩ := List.any_eq_true.mp some_
        have inside := List.mem_filter.mpr ⟨member, isPart⟩
        exact List.ne_nil_of_mem (List.mem_map_of_mem inside)
      obtain ⟨first, more, parts⟩ := List.exists_cons_of_ne_nil parts
      rw [loopVariable, if_pos kind, children_lowered, parts]
      exact ⟨_, rfl⟩

theorem for_kept_iff {variable_ iterable : Cst} {body : Option Body} {before bodyNodes : List Cst}
    (asides : ∀ node ∈ before, node.isNode (is .annotationNode) = true)
    (var : LoopVariable variable_) (isValue : IsValue iterable)
    (shape : OptionalNodes body bodyNodes)
    (holds : Holds children (before ++ variable_ :: iterable :: bodyNodes) tokens) :
    ForKept ctx iterable body (.node .forStatement children) ↔ ∃ b ∈ body, b.labels = [] := by
  have skips : ∀ p : SyntaxKind → Bool, p .annotationNode = false →
      before.filter (SyntaxTree.isNode p) = [] := by
    intro p other
    rw [List.filter_eq_nil_iff]
    intro node member
    obtain ⟨children, rfl⟩ := eq_node_of_is (asides node member)
    simpa using other
  have variableKinds : variable_.isNode (isOneOf [.variableDeclaration, .multiVariableDeclaration]) =
      true ∧ variable_.isNode isExpression = false ∧ variable_.isNode isStatement = false := by
    cases var <;> exact ⟨rfl, rfl, rfl⟩
  obtain ⟨isVariable, notExpression, notStatement⟩ := variableKinds
  have declared : firstNode (isOneOf [.variableDeclaration, .multiVariableDeclaration])
      (children.map (lowered ctx)) = some (lowered ctx variable_) := by
    rw [firstNode_lowered ctx holds, List.filter_append, skips _ rfl, List.nil_append,
      List.filter_cons_of_pos isVariable]
    rfl
  have first : firstExpression (children.map (lowered ctx)) = some (expr ctx iterable) := by
    rw [firstExpression_lowered ctx holds, List.filter_append, skips _ rfl, List.nil_append,
      List.filter_cons_of_neg (by simp [notExpression]), List.filter_cons_of_pos isValue.isExpression]
    rfl
  have split : before ++ variable_ :: iterable :: bodyNodes =
      (before ++ [variable_, iterable]) ++ bodyNodes ++ [] := by simp
  have noneBefore : (before ++ [variable_, iterable]).filter (SyntaxTree.isNode isStatement) = [] := by
    rw [List.filter_append, skips _ rfl, List.nil_append,
      List.filter_cons_of_neg (by simp [notStatement]), filter_isStatement_value isValue]
  obtain ⟨⟨local_, pattern⟩, found⟩ := var.read ctx
  rw [← controlStructureBody_iff ctx holds split noneBefore rfl shape, ForKept,
    statement_node, stmtData, foreach, declared, first]
  dsimp only
  rw [found]
  cases controlStructureBody (children.map (lowered ctx)) with
  | none => simp
  | some s => simp

/-! ### `when` entries -/

/-- A condition of a `when` entry: a value, a range test or a type test. -/
inductive Condition where
  | value (tree : Cst)
  | range (op : Token) (container : Cst)
  | type (op : Token) (ty : Cst)

/-- The node of a condition. -/
inductive ConditionNode : Condition → Cst → Prop where
  | value {tree : Cst} : IsValue tree → ConditionNode (.value tree) tree
  | range {op : Token} {container : Cst} {children : List Cst} :
      op.kind = .inKw ∨ op.kind = .notIn → Holds children [container] [op] → IsValue container →
      ConditionNode (.range op container) (.node .rangeTest children)
  | type {op : Token} {ty : Cst} {children : List Cst} : op.kind = .isKw ∨ op.kind = .notIs →
      Holds children [ty] [op] → ty.isNode isTypeNode = true →
      ConditionNode (.type op ty) (.node .typeTest children)

/-- The node of a guard, where there is one. -/
inductive GuardNodes : Option Cst → List Cst → Prop where
  | unguarded : GuardNodes none []
  | guarded {guard : Cst} {children : List Cst} {tokens : List Token} :
      Holds children [guard] tokens → IsValue guard →
      GuardNodes (some guard) [.node .whenGuard children]

/-- What a condition tests, against the subject where it writes none. -/
def Condition.lower (ctx : Leaves) (subject : Option ExprData) : Condition → WhenCondition
  | value tree => .value (expr ctx tree)
  | range op container =>
      .containment (subject.getD .missing) (expr ctx container) (op.kind = .notIn)
  | type op ty => .typeTest (subject.getD .missing) (ctx.spannedType ty) (op.kind = .notIs)

/-- A `when` entry carries its conditions, its guard and its body. -/
def WhenArmKept (ctx : Leaves) (subject : Option ExprData) (conditions : List Condition)
    (guard : Option Cst) (body : Body) (node : Cst) : Prop :=
  ∃ e, whenArm ctx subject (lowered ctx node) =
      .mk (conditions.map (Condition.lower ctx subject)) (guard.map (expr ctx)) e ∧
    Carries e (body.stmt ctx)

/-- A node is of one kind at most. -/
theorem isNode_is_eq_false {p : SyntaxKind → Bool} {kind : SyntaxKind} (other : p kind = false)
    {tree : Cst} (admitted : tree.isNode p = true) : tree.isNode (is kind) = false := by
  cases tree with
  | token t => rfl
  | node kind' children =>
      by_contra same
      have same : kind' = kind := by simpa [is] using same
      rw [SyntaxTree.isNode_node, same, other] at admitted
      exact Bool.noConfusion admitted

variable {subject : Option ExprData} {s : WhenArmState}

/-- A condition is added to those before it. -/
theorem ConditionNode.whenArmChild {condition : Condition} {node : Cst}
    (shape : ConditionNode condition node) :
    whenArmChild ctx subject s (lowered ctx node) =
      { s with conditions := s.conditions ++ [condition.lower ctx subject] } := by
  cases shape with
  | value isValue =>
      have expression := isValue.isExpression
      have noGuard := isNode_is_eq_false (show isExpression .whenGuard = false from rfl) expression
      have noRange := isNode_is_eq_false (show isExpression .rangeTest = false from rfl) expression
      have noType := isNode_is_eq_false (show isExpression .typeTest = false from rfl) expression
      simp only [Kotlin.whenArmChild, isNode_lowered, noGuard, noRange, noType,
        isValue.not_isStatement, expression]
      rfl
  | @range op container children kind holds isValue =>
      have read : childExpression (children.map (lowered ctx)) = some (expr ctx container) := by
        rw [childExpression, firstExpression_lowered ctx holds,
          List.filter_cons_of_pos isValue.isExpression]
        rfl
      have negated : hasToken (children.map (lowered ctx)) (isOneOf [.notIn, .not]) =
          decide (op.kind = .notIn) := by
        rw [hasToken_lowered ctx holds rfl]
        rcases kind with op_ | op_ <;> simp [isOneOf, op_]
      simp only [Kotlin.whenArmChild, isNode_lowered, SyntaxTree.isNode_node, children_lowered,
        read, negated]
      rfl
  | @type op ty children kind holds isType =>
      have read : castType (children.map (lowered ctx)) ctx = some (ctx.spannedType ty) := by
        rw [castType, lastNode_lowered ctx holds, List.filter_cons_of_pos isType]
        simp [lowered]
      have negated : hasToken (children.map (lowered ctx)) (isOneOf [.notIs, .not]) =
          decide (op.kind = .notIs) := by
        rw [hasToken_lowered ctx holds rfl]
        rcases kind with op_ | op_ <;> simp [isOneOf, op_]
      simp only [Kotlin.whenArmChild, isNode_lowered, SyntaxTree.isNode_node, children_lowered,
        read, negated]
      rfl

/-- The conditions of an entry are read in source order. -/
theorem foldl_conditions {conditions : List Condition} {nodes : List Cst}
    (shapes : List.Forall₂ ConditionNode conditions nodes) (s : WhenArmState) :
    (nodes.map (lowered ctx)).foldl (whenArmChild ctx subject) s =
      { s with conditions := s.conditions ++ conditions.map (Condition.lower ctx subject) } := by
  induction shapes generalizing s with
  | nil => simp
  | cons shape _ ih => simp [shape.whenArmChild, ih]

theorem GuardNodes.foldl {guard : Option Cst} {nodes : List Cst} (shape : GuardNodes guard nodes)
    (absent : s.guard = none) :
    (nodes.map (lowered ctx)).foldl (whenArmChild ctx subject) s =
      { s with guard := guard.map (expr ctx) } := by
  cases shape with
  | unguarded =>
      cases s
      simpa using absent
  | @guarded guard children tokens holds isValue =>
      have read : childExpression (children.map (lowered ctx)) = some (expr ctx guard) := by
        rw [childExpression, firstExpression_lowered ctx holds,
          List.filter_cons_of_pos isValue.isExpression]
        rfl
      simp only [List.map_cons, List.map_nil, List.foldl_cons, List.foldl_nil, Kotlin.whenArmChild,
        isNode_lowered, SyntaxTree.isNode_node, children_lowered, read]
      rfl

/-- A statement becomes the body of its entry. -/
theorem whenArmChild_statement {node : Cst} (statement_ : node.isNode isStatement = true) :
    whenArmChild ctx subject s (lowered ctx node) =
      { s with body := some (branch (lowered ctx node)) } := by
  have noGuard := isNode_is_eq_false (show isStatement .whenGuard = false from rfl) statement_
  have noRange := isNode_is_eq_false (show isStatement .rangeTest = false from rfl) statement_
  have noType := isNode_is_eq_false (show isStatement .typeTest = false from rfl) statement_
  simp only [whenArmChild, isNode_lowered, noGuard, noRange, noType, statement_]
  rfl

/-- What stands before a statement changes at most the body. -/
theorem PrefixNodes.foldl {names : List Token} {nodes : List Cst} (shape : PrefixNodes names nodes)
    (s : WhenArmState) :
    ∃ body, (nodes.map (lowered ctx)).foldl (whenArmChild ctx subject) s =
      { s with body := body } := by
  induction shape generalizing s with
  | nil => exact ⟨s.body, rfl⟩
  | label label _ ih =>
      obtain ⟨body, ran⟩ := ih { s with body := some (branch (lowered ctx _)) }
      refine ⟨body, ?_⟩
      rw [List.map_cons, List.foldl_cons, whenArmChild_statement (by cases label; rfl)]
      exact ran
  | annotation_ kind _ ih =>
      obtain ⟨children, rfl⟩ := eq_node_of_is kind
      have skipped : whenArmChild ctx subject s (lowered ctx (.node .annotationNode children)) = s := by
        simp only [whenArmChild, isNode_lowered, SyntaxTree.isNode_node]
        rfl
      rw [List.map_cons, List.foldl_cons, skipped]
      exact ih s

/-- The last statement of an entry is its body. -/
theorem BodyNodes.foldl {body : Body} {nodes : List Cst} (shape : BodyNodes body nodes)
    (s : WhenArmState) :
    (nodes.map (lowered ctx)).foldl (whenArmChild ctx subject) s =
      { s with body := some (branch (lowered ctx body.node)) } := by
  cases shape with
  | ofBlock children =>
      have block : SyntaxTree.isNode isStatement (.node .block children : Cst) = true := rfl
      rw [List.map_singleton, List.foldl_cons, List.foldl_nil]
      exact whenArmChild_statement block
  | ofStatement prefixes shape =>
      rw [List.map_append, List.foldl_append]
      obtain ⟨body, ran⟩ := prefixes.foldl s
      rw [ran, List.map_singleton, List.foldl_cons, List.foldl_nil]
      exact whenArmChild_statement shape.isStatement

theorem whenArm_kept_iff {conditions : List Condition} {guard : Option Cst} {body : Body}
    {conditionNodes guardNodes bodyNodes : List Cst}
    (conditionShapes : List.Forall₂ ConditionNode conditions conditionNodes)
    (guardShape : GuardNodes guard guardNodes) (shape : BodyNodes body bodyNodes)
    (holds : Holds children (conditionNodes ++ guardNodes ++ bodyNodes) tokens) :
    WhenArmKept ctx subject conditions guard body (.node .whenEntry children) ↔ body.IsPlain := by
  have nodes : nodesOf (fun _ => true) (children.map (lowered ctx)) =
      (conditionNodes ++ guardNodes ++ bodyNodes).map (lowered ctx) := by
    rw [nodesOf_lowered ctx holds, ← holds.nodes, List.filter_filter]
    simp
  have arm : whenArm ctx subject (lowered ctx (.node .whenEntry children)) =
      .mk (conditions.map (Condition.lower ctx subject)) (guard.map (expr ctx))
        (branch (lowered ctx body.node)) := by
    rw [whenArm, children_lowered, nodes, List.map_append, List.map_append, List.foldl_append,
      List.foldl_append, foldl_conditions conditionShapes, guardShape.foldl rfl, shape.foldl]
    simp
  rw [← shape.carries_node ctx, WhenArmKept, arm]
  simp

/-! ### Labels -/

/-- Among the children of a block a statement carries the labels before it. -/
def StatementKept (ctx : Leaves) (body : Body) (children : List Cst) : Prop :=
  lowerStatementList (children.map (lowered ctx)) = [body.stmt ctx]

theorem statement_kept_iff {body : Body} {nodes : List Cst} (shape : BodyNodes body nodes)
    (holds : Holds children nodes tokens) :
    StatementKept ctx body children ↔ body.labels = [] := by
  obtain ⟨head, rest, statements, alone, _, kept⟩ := shape.carries_head ctx
  have list : lowerStatementList (children.map (lowered ctx)) =
      statement ctx head :: rest.map (statement ctx) := by
    rw [lowerStatementList, nodesOf_lowered ctx holds, statements, List.map_map]
    rfl
  rw [StatementKept, list]
  constructor
  · intro same
    injection same with same _
    exact kept.mp same
  · intro unlabelled
    rw [alone unlabelled, kept.mpr unlabelled]
    rfl

/-- What prefix operators make of an expression. -/
def prefixed (op : Option SyntaxKind) (inner : ExprData) : ExprData :=
  match op with
  | none => inner
  | some .plusPlus => .unary .inc inner
  | some .minusMinus => .unary .dec inner
  | some .plus => .paren inner
  | some .not => .unary .not inner
  | some _ => .unary .minus inner

theorem prefix_eq {children : List LoweredCst} {inner : ExprData}
    (read : childExpression children = some inner) :
    prefix_ children = prefixed ((findToken children prefixOperator).map Token.kind) inner := by
  rw [prefix_, read]
  cases (findToken children prefixOperator).map Token.kind with
  | none => rfl
  | some op => cases op <;> rfl

theorem prefixed_injective (op : Option SyntaxKind) : Function.Injective (prefixed op) := by
  intro inner inner' same
  unfold prefixed at same
  split at same <;> simpa using same

/-- A value carries itself under labels exactly when there are none. -/
theorem carries_labelled_iff {e : ExprData} (notBlock : ∀ s, e ≠ .block s) (labels : List Token) :
    Carries e (labelled labels (.expr e)) ↔ labels = [] := by
  cases labels with
  | nil => exact iff_of_true (.inl rfl) rfl
  | cons label labels =>
      apply iff_of_false
      · rintro (value | block)
        · exact nomatch value
        · exact notBlock _ block
      · exact nofun

/-- A lambda in a prefix expression carries the labels before it. -/
def PrefixedLambdaKept (ctx : Leaves) (operators labels : List Token) (lambda node : Cst) : Prop :=
  ∃ e, expr ctx node =
      prefixed ((operators.find? fun token => prefixOperator token.kind).map Token.kind) e ∧
    Carries e (labelled labels (.expr (expr ctx lambda)))

theorem prefixedLambda_kept_iff {labels operators : List Token} {lambda : Cst} {before : List Cst}
    (kind : lambda.isNode (is .lambdaLiteral) = true) (prefixes : PrefixNodes labels before)
    (holds : Holds children (before ++ [lambda]) operators) :
    PrefixedLambdaKept ctx operators labels lambda (.node .prefixUnaryExpression children) ↔
      labels = [] := by
  obtain ⟨body, rfl⟩ := eq_node_of_is kind
  have inner : childExpression (children.map (lowered ctx)) =
      some (expr ctx (.node .lambdaLiteral body)) := by
    rw [childExpression, firstExpression_lowered ctx holds,
      filter_isExpression_aside prefixes.aside rfl]
    rfl
  have lowers : expr ctx (.node .prefixUnaryExpression children) =
      prefixed ((operators.find? fun token => prefixOperator token.kind).map Token.kind)
        (expr ctx (.node .lambdaLiteral body)) := by
    rw [expr_node, exprData, prefix_eq inner, findToken_lowered ctx holds rfl]
  rw [← carries_labelled_iff (expr_ne_block ctx (.node .lambdaLiteral body)) labels,
    PrefixedLambdaKept, lowers]
  constructor
  · rintro ⟨e, same, carries⟩
    rwa [← prefixed_injective _ same] at carries
  · exact fun carries => ⟨_, rfl, carries⟩

/-- A trailing lambda carries the labels before it. -/
def TrailingLambdaKept (ctx : Leaves) (labels : List Token) (lambda node : Cst) : Prop :=
  ∃ e, callArguments (lowered ctx node).children = ([e], []) ∧
    Carries e (labelled labels (.expr (expr ctx lambda)))

theorem trailingLambda_kept_iff {labels : List Token} {lambda : Cst} {before : List Cst}
    (kind : lambda.isNode (is .lambdaLiteral) = true) (prefixes : PrefixNodes labels before)
    (holds : Holds children (before ++ [lambda]) tokens) :
    TrailingLambdaKept ctx labels lambda (.node .callExpression children) ↔ labels = [] := by
  have shape : LambdaNode lambda (.node .callExpression children) :=
    .mk holds prefixes.aside kind
  rw [← carries_labelled_iff (expr_ne_block ctx lambda) labels, TrailingLambdaKept,
    callArguments_lambda ctx shape]
  simp

end Constructs

end CaffeineLs.HirDef.Kotlin
