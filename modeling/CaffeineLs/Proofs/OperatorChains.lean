/-
Module: CaffeineLs.Proofs.OperatorChains
Purpose: What a chain of operators of one precedence level lowers to. The parser builds one flat
  node for it and the lowering reads two operands, so a chain of two operators or more loses some.
Trusted boundary: the productions of `Grammar`
Main exports: Level, Link, operands_kept_iff
-/
import Mathlib.Algebra.Order.BigOperators.Group.List
import Mathlib.Algebra.Order.Ring.Nat
import CaffeineLs.KotlinSyntax.ExprGrammar
import CaffeineLs.Proofs.KotlinReading

namespace CaffeineLs.HirDef.Kotlin

open Lib KotlinSyntax

/-- The precedence levels of the binary operators. -/
inductive Level where
  | disjunction
  | conjunction
  | equality
  | comparison
  | infixOperation
  | elvis
  | infixFunctionCall
  | range
  | additive
  | multiplicative
deriving DecidableEq

namespace Level

variable (g : Grammar)

/-- The production of a level. -/
def production : Level → Production
  | disjunction => KotlinSyntax.disjunction g
  | conjunction => KotlinSyntax.conjunction g
  | equality => KotlinSyntax.equality g
  | comparison => KotlinSyntax.comparison g
  | infixOperation => KotlinSyntax.infixOperation g
  | elvis => elvisExpression g
  | infixFunctionCall => KotlinSyntax.infixFunctionCall g
  | range => rangeExpression g
  | additive => additiveExpression g
  | multiplicative => multiplicativeExpression g

/-- The production of the operands: the next level. -/
def operand : Level → Production
  | disjunction => KotlinSyntax.conjunction g
  | conjunction => KotlinSyntax.equality g
  | equality => KotlinSyntax.comparison g
  | comparison => KotlinSyntax.infixOperation g
  | infixOperation => elvisExpression g
  | elvis => KotlinSyntax.infixFunctionCall g
  | infixFunctionCall => rangeExpression g
  | range => additiveExpression g
  | additive => multiplicativeExpression g
  | multiplicative => asExpression g

def operators : Level → List SyntaxKind
  | disjunction => [.or]
  | conjunction => [.and]
  | equality => [.equalEqual, .notEqual, .sheq, .shne]
  | comparison => [.less, .greater, .lessEqual, .greaterEqual]
  | infixOperation => [.inKw, .notIn, .isKw, .notIs]
  | elvis => [.elvis]
  | infixFunctionCall => [.identifier]
  | range => [.range, .rangeUntil]
  | additive => [.plus, .minus]
  | multiplicative => [.star, .slash, .modulo]

/-- Whether an operator of the level continues the chain. -/
def atOperator (l : Level) (p : Parser) : Bool :=
  match l with
  | elvis => p.at_ .elvis || (p.at_ .newline && p.nth 1 = some .elvis)
  | infixFunctionCall => p.at_ .identifier && !p.lineBreakBefore
  | l => p.atAny l.operators

/-- The line breaks before an operator: only the elvis operator may start a line. -/
def skip (l : Level) (p : Parser) : Parser := if l = elvis then eatNl p else p

/-- Whether the operator takes a type. -/
def takesType (op : SyntaxKind) : Bool := op = .isKw || op = .notIs

/-- What stands right of an operator. -/
def rightOperand (l : Level) (op : SyntaxKind) : Production :=
  if l = infixOperation && takesType op then g.type_ else l.operand g

/-- The kind of the node a chain builds, from its first operator. -/
def nodeKind (l : Level) (op : SyntaxKind) : SyntaxKind :=
  match l with
  | infixOperation => if takesType op then .isExpression else .inExpression
  | elvis => .elvisExpression
  | infixFunctionCall => .infixFunctionCall
  | range => .rangeExpression
  | _ => .binaryExpression

/-- One round of a chain: the operator, the line breaks after it, and its operand. -/
def next (l : Level) (p : Parser) : Option (SyntaxKind × Parser) :=
  if l.atOperator p then
    let op := ((l.skip p).current).getD .eof
    some (l.nodeKind op, l.rightOperand g op (eatNl (l.skip p).bump))
  else none

end Level

/-- An operator of a chain with its right operand. -/
structure Link where
  operator : Token
  operand : Cst

/-- The kinds of node that stand right of an operator: types after `is`, expressions elsewhere. -/
def rightKinds (op : SyntaxKind) : SyntaxKind → Bool :=
  if Level.takesType op then isTypeNode else isExpression

/-- From `p`, the level finds these operators, and reads one node after each. -/
inductive LinksRead (g : Grammar) (l : Level) : Parser → List Link → Parser → Prop where
  | done {p : Parser} : l.atOperator p = false → LinksRead g l p [] p
  | link {p p₁ p' : Parser} {op : Token} {rest : List Token} {operand : Cst}
      {links : List Link} :
      l.atOperator p = true → (l.skip p).rest = op :: rest → op.kind ∈ l.operators →
      ReadsTree (l.rightOperand g op.kind) (eatNl (l.skip p).bump) operand p₁ →
      operand.isNode (rightKinds op.kind) = true → LinksRead g l p₁ links p' →
      LinksRead g l p (⟨op, operand⟩ :: links) p'

/-- `first op₁ e₁ … opₙ eₙ` stands at `p`: each operand is one node, read by the next level. -/
structure ChainRead (g : Grammar) (l : Level) (p : Parser) (first : Cst) (links : List Link)
    (p' : Parser) : Prop where
  run : ∃ p₀, ReadsTree (l.operand g) p.start.2 first p₀ ∧ LinksRead g l p₀ links p'
  expression : first.isNode isExpression = true

/-! ### The node a chain builds -/

section Building

variable {g : Grammar} {l : Level}

theorem current_of_rest {p : Parser} {op : Token} {rest : List Token}
    (ahead : p.rest = op :: rest) : p.current = some op.kind := by
  simp [Parser.current, Parser.nth, ahead]

/-- The round of a level whose operators take expressions and follow their left operand on its
line. -/
theorem next_eq_operatorRound (l : Level) (kind : SyntaxKind) (operators : List SyntaxKind)
    (skipless : l ≠ .elvis) (typeless : l ≠ .infixOperation)
    (at_ : l.atOperator = fun p => p.atAny operators) (kinds : ∀ op, l.nodeKind op = kind) :
    l.next g = operatorRound kind operators (l.operand g) := by
  funext p
  simp [Level.next, operatorRound, Level.skip, Level.rightOperand, skipless, typeless, at_, kinds]

/-- A level is a chain over its operands. -/
theorem production_eq (l : Level) :
    l.production g = operatorChain (l.operand g) (l.next g) := by
  cases l with
  | disjunction =>
      rw [next_eq_operatorRound .disjunction .binaryExpression [.or] nofun nofun rfl fun _ => rfl]; rfl
  | conjunction =>
      rw [next_eq_operatorRound .conjunction .binaryExpression [.and] nofun nofun rfl fun _ => rfl]; rfl
  | equality =>
      rw [next_eq_operatorRound .equality .binaryExpression [.equalEqual, .notEqual, .sheq, .shne]
        nofun nofun rfl fun _ => rfl]; rfl
  | comparison =>
      rw [next_eq_operatorRound .comparison .binaryExpression [.less, .greater, .lessEqual, .greaterEqual]
        nofun nofun rfl fun _ => rfl]; rfl
  | range =>
      rw [next_eq_operatorRound .range .rangeExpression [.range, .rangeUntil] nofun nofun rfl
        fun _ => rfl]; rfl
  | additive =>
      rw [next_eq_operatorRound .additive .binaryExpression [.plus, .minus] nofun nofun rfl fun _ => rfl]; rfl
  | multiplicative =>
      rw [next_eq_operatorRound .multiplicative .binaryExpression [.star, .slash, .modulo]
        nofun nofun rfl fun _ => rfl]; rfl
  | infixOperation =>
      simp only [Level.production, KotlinSyntax.infixOperation, Level.operand]
      apply congrArg (operatorChain (elvisExpression g))
      funext p
      cases here : p.current with
      | none => simp [Level.next, Level.atOperator, Parser.atAny, Parser.at_, here]
      | some op =>
          by_cases listed : op ∈ Level.infixOperation.operators
          · simp only [Level.operators, List.mem_cons, List.not_mem_nil, or_false] at listed
            rcases listed with rfl | rfl | rfl | rfl <;>
              simp [Level.next, Level.atOperator, Level.operators, Level.skip, Level.nodeKind,
                Level.rightOperand, Level.takesType, Level.operand, Parser.atAny, Parser.at_, here]
          · simp only [Level.operators, List.mem_cons, List.not_mem_nil, or_false, not_or] at listed
            simp [Level.next, Level.atOperator, Level.operators, Parser.atAny, Parser.at_, here,
              listed]
  | elvis =>
      simp only [Level.production, elvisExpression, Level.operand]
      apply congrArg (operatorChain (KotlinSyntax.infixFunctionCall g))
      funext p
      simp [Level.next, Level.atOperator, Level.skip, Level.nodeKind, Level.rightOperand,
        Level.operand]
  | infixFunctionCall =>
      simp only [Level.production, KotlinSyntax.infixFunctionCall, Level.operand]
      apply congrArg (operatorChain (rangeExpression g))
      funext p
      simp [Level.next, Level.atOperator, Level.skip, Level.nodeKind, Level.rightOperand,
        Level.operand]

/-- Before an operator only line breaks are skipped. -/
theorem skip_appends (l : Level) (p : Parser) :
    ∃ breaks : List Token, (∀ token ∈ breaks, token.kind = .newline) ∧
      Appends p (breaks.map .token) (l.skip p) := by
  rw [Level.skip]
  split
  · exact eatNl_appends p
  · exact ⟨[], by simp, Appends.refl p⟩

/-- No operator is a line break. -/
theorem newline_notMem_operators (l : Level) : .newline ∉ l.operators := by
  cases l <;> decide

theorem isNode_of_rightKinds {op : SyntaxKind} {operand : Cst}
    (kind : operand.isNode (rightKinds op) = true) : operand.isNode (fun _ => true) = true := by
  cases operand with
  | node kind children => rfl
  | token t => simp at kind

/-- One round appends the operator and its operand, among line breaks, and consumes a token. -/
theorem link_appends {p p₁ : Parser} {op : Token} {rest : List Token} {operand : Cst}
    (ahead : (l.skip p).rest = op :: rest) (listed : op.kind ∈ l.operators)
    (read : ReadsTree (l.rightOperand g op.kind) (eatNl (l.skip p).bump) operand p₁)
    (kind : operand.isNode (rightKinds op.kind) = true) :
    (∃ children, Appends p children p₁ ∧ Holds children [operand] [op]) ∧
      p₁.rest.length < p.rest.length := by
  obtain ⟨breaks₁, only₁, skipped₁⟩ := skip_appends l p
  obtain ⟨breaks₂, only₂, skipped₂⟩ := eatNl_appends (l.skip p).bump
  obtain ⟨built, left⟩ := Parser.bump_of_rest ahead
  have shorter : (l.skip p).bump.rest.length < (l.skip p).rest.length := by
    rw [left, ahead]
    exact Nat.lt_succ_self _
  have bumped : Appends (l.skip p) [.token op] (l.skip p).bump := ⟨built, Nat.le_of_lt shorter⟩
  have notNewline : op.kind ≠ .newline := by
    intro newline
    exact newline_notMem_operators l (newline ▸ listed)
  constructor
  · refine ⟨_, skipped₁.trans (bumped.trans (skipped₂.trans read.appends)), ?_⟩
    have holds := (Holds.breaks only₁).append ((Holds.token notNewline).append
      ((Holds.breaks only₂).append (Holds.tree (isNode_of_rightKinds kind))))
    simpa using holds
  · have first := skipped₁.rest
    have second := skipped₂.rest
    have third := read.appends.rest
    omega

/-- The loop over the operators of a chain reads them all: it ends where the chain ends, having
appended every operator and every operand. -/
theorem links_built {p p' : Parser} {links : List Link} (read : LinksRead g l p links p') :
    (∀ (rounds : Nat) (kind : Option SyntaxKind), p.rest.length ≤ rounds →
      operatorLinks (l.next g) rounds kind p =
        (kind.or (links.head?.map fun link => l.nodeKind link.operator.kind), p')) ∧
    ∃ children, Appends p children p' ∧
      Holds children (links.map Link.operand) (links.map Link.operator) := by
  induction read with
  | @done p stop =>
      constructor
      · intro rounds kind _
        cases rounds with
        | zero => simp [operatorLinks]
        | succ rounds => simp [operatorLinks, Level.next, stop]
      · exact ⟨[], Appends.refl p, Holds.nil⟩
  | @link p p₁ p' op rest operand links here ahead listed read kind more ih =>
      obtain ⟨loop, children, appended, holds⟩ := ih
      obtain ⟨⟨first, appendedFirst, holdsFirst⟩, shorter⟩ := link_appends ahead listed read kind
      have step : l.next g p = some (l.nodeKind op.kind, p₁) := by
        simp [Level.next, here, current_of_rest ahead, read.run]
      constructor
      · intro rounds kind enough
        cases rounds with
        | zero => omega
        | succ rounds =>
            simp only [operatorLinks, step]
            rw [loop rounds _ (by omega)]
            cases kind <;> simp
      · exact ⟨first ++ children, appendedFirst.trans appended, holdsFirst.append holds⟩

/-- The parser builds one flat node for a chain: all operands with the operators between them. -/
theorem chain_built {p p' : Parser} {first : Cst} {link : Link} {links : List Link}
    (read : ChainRead g l p first (link :: links) p') :
    l.production g p =
        { p' with built := p.built ++ [.node (l.nodeKind link.operator.kind) p'.built] } ∧
      Holds p'.built (first :: (link :: links).map Link.operand)
        ((link :: links).map Link.operator) := by
  obtain ⟨p₀, readFirst, more⟩ := read.run
  obtain ⟨loop, children, appended, holds⟩ := links_built more
  constructor
  · rw [production_eq]
    simp only [operatorChain, readFirst.run, loop _ none (Nat.le_refl _)]
    simp [Parser.complete, Parser.start]
  · rw [appended.built, readFirst.appends.built]
    exact (Holds.tree read.expression).append holds

end Building

/-! ### The operations a chain means -/

section Lowering

variable (ctx : Leaves)

/-- One operation of a chain: the operator applied to the value left of it and its right
operand. -/
def operation (l : Level) (lhs : ExprData) (link : Link) : ExprData :=
  match l with
  | .infixOperation =>
      match link.operator.kind with
      | .inKw => .infixCall (expr ctx link.operand) containsName lhs
      | .notIn => .unary .not (.infixCall (expr ctx link.operand) containsName lhs)
      | .notIs => .unary .not (.instanceOf lhs (some (ctx.spannedType link.operand)))
      | _ => .instanceOf lhs (some (ctx.spannedType link.operand))
  | .elvis => .elvis lhs (expr ctx link.operand)
  | .infixFunctionCall => .infixCall lhs (nameOf link.operator) (expr ctx link.operand)
  | .range => .range lhs (expr ctx link.operand) (link.operator.kind = .range)
  | _ =>
      match binaryOp link.operator.kind with
      | some op => .binary op lhs (expr ctx link.operand)
      | none => .missing

/-- What a chain means: its operations from left to right, each on the value of those before. -/
def leftFold (l : Level) (first : Cst) (links : List Link) : ExprData :=
  links.foldl (operation ctx l) (expr ctx first)

/-- An operator of the level with an operand of its kind. -/
def Link.Valid (l : Level) (link : Link) : Prop :=
  link.operator.kind ∈ l.operators ∧ link.operand.isNode (rightKinds link.operator.kind) = true

theorem LinksRead.valid {g : Grammar} {l : Level} {p p' : Parser} {links : List Link}
    (read : LinksRead g l p links p') : ∀ link ∈ links, link.Valid l := by
  induction read with
  | done => simp
  | link _ _ listed _ kind _ ih =>
      intro link member
      rcases List.mem_cons.mp member with rfl | later
      · exact ⟨listed, kind⟩
      · exact ih link later

/-- Outside `is` checks every operand is an expression. -/
theorem Link.Valid.expression {l : Level} {link : Link} (valid : link.Valid l)
    (typeless : Level.takesType link.operator.kind = false) :
    link.operand.isNode isExpression = true := by
  have kind := valid.2
  rwa [rightKinds, if_neg (by simp [typeless])] at kind

theorem takesType_eq_false {l : Level} (other : l ≠ .infixOperation) :
    ∀ op ∈ l.operators, Level.takesType op = false := by
  cases l <;> first | exact absurd rfl other | decide

/-- The levels whose operators are operators of the body tree. -/
def Level.isBinary : Level → Bool
  | .disjunction | .conjunction | .equality | .comparison | .additive | .multiplicative => true
  | _ => false

theorem binaryOp_isSome {l : Level} (level : l.isBinary = true) :
    ∀ op ∈ l.operators, (binaryOp op).isSome = true := by
  cases l <;> first | exact absurd level (by decide) | decide

/-! ### What the flat node lowers to -/

variable {l : Level} {children : List Cst} {first : Cst} {link : Link} {links : List Link}

/-- The expressions among the nodes of a chain whose operands are all expressions. -/
theorem filter_isExpression (expression : first.isNode isExpression = true)
    (operands : ∀ link ∈ links, link.operand.isNode isExpression = true) :
    (first :: links.map Link.operand).filter (SyntaxTree.isNode isExpression) =
      first :: links.map Link.operand := by
  rw [List.filter_eq_self]
  intro tree member
  rcases List.mem_cons.mp member with rfl | later
  · exact expression
  · obtain ⟨link, inside, rfl⟩ := List.mem_map.mp later
    exact operands link inside

/-- Where every operand is an expression, the flat node lowers to the first operator between the
first operand and the last. -/
theorem expr_chain (other : l ≠ .infixOperation)
    (holds : Holds children (first :: (link :: links).map Link.operand)
      ((link :: links).map Link.operator))
    (expression : first.isNode isExpression = true)
    (valid : ∀ link' ∈ link :: links, link'.Valid l) :
    expr ctx (.node (l.nodeKind link.operator.kind) children) =
      operation ctx l (expr ctx first)
        ⟨link.operator, ((link :: links).getLast (by simp)).operand⟩ := by
  have operands : ∀ link' ∈ link :: links, link'.operand.isNode isExpression = true := by
    intro link' member
    have listed := (valid link' member).1
    exact (valid link' member).expression (takesType_eq_false other _ listed)
  have all := filter_isExpression expression operands
  have lhs : firstExpression (children.map (lowered ctx)) = some (expr ctx first) := by
    rw [firstExpression_lowered ctx holds, all]
    rfl
  have rhs : lastExpression (children.map (lowered ctx)) =
      some (expr ctx ((link :: links).getLast (by simp)).operand) := by
    rw [lastExpression_lowered ctx holds, all, List.getLast?_cons_of_ne_nil (by simp),
      List.getLast?_map, List.getLast?_eq_some_getLast (by simp)]
    rfl
  have listed := (valid link List.mem_cons_self).1
  rw [expr_node]
  by_cases level : l.isBinary = true
  · obtain ⟨op, found⟩ := Option.isSome_iff_exists.mp (binaryOp_isSome level _ listed)
    have first : (Decorated.tokensOf (children.map (lowered ctx))).findSome?
        (fun token => binaryOp token.kind) = some op := by
      rw [findSome?_tokens_lowered ctx holds (by intro t newline; rw [newline]; rfl)]
      simp [found]
    cases l <;> first
      | exact absurd level (by decide)
      | simp [Level.nodeKind, exprData, binary, lhs, rhs, first, operation, found]
  · cases l with
    | elvis => simp [Level.nodeKind, exprData, elvis, lhs, rhs, operation]
    | infixFunctionCall =>
        have named : link.operator.kind = .identifier := by
          simpa [Level.operators] using listed
        have name : identifierName (children.map (lowered ctx)) = some (nameOf link.operator) := by
          rw [identifierName, findToken_lowered ctx holds rfl]
          simp [is, named]
        simp [Level.nodeKind, exprData, infixCall, lhs, rhs, name, operation]
    | range =>
        have token : findToken (children.map (lowered ctx)) (isOneOf [.range, .rangeUntil]) =
            some link.operator := by
          rw [findToken_lowered ctx holds rfl, List.map_cons]
          exact List.find?_cons_of_pos (by simpa [isOneOf, Level.operators] using listed)
        simp [Level.nodeKind, exprData, range, lhs, rhs, token, operation]
    | infixOperation => exact absurd rfl other
    | disjunction | conjunction | equality | comparison | additive | multiplicative =>
        exact absurd rfl level

/-- What an operand adds to the size of the body tree. -/
noncomputable def operandSize (link : Link) : Nat :=
  if Level.takesType link.operator.kind then sizeOf (ctx.spannedType link.operand)
  else sizeOf (expr ctx link.operand)

/-- Whether the operator negates its test. -/
def negates (op : SyntaxKind) : Bool := op = .notIn || op = .notIs

/-- What an operator adds to the size of the body tree, a negation apart. -/
noncomputable def operatorSize (l : Level) (op : Token) : Nat :=
  match l with
  | .infixOperation => if Level.takesType op.kind then 2 else 1 + sizeOf containsName
  | .elvis => 1
  | .infixFunctionCall => 1 + sizeOf (nameOf op)
  | .range => 1 + sizeOf (decide (op.kind = .range))
  | _ => 2

def negationSize (l : Level) (op : Token) : Nat :=
  if l = .infixOperation && negates op.kind then 2 else 0

/-- What one link of a chain adds to the size of the body tree. -/
noncomputable def linkSize (l : Level) (link : Link) : Nat :=
  operatorSize l link.operator + negationSize l link.operator + operandSize ctx link

theorem operatorSize_pos (l : Level) (op : Token) : 0 < operatorSize l op := by
  cases l <;> simp only [operatorSize] <;> try split
  all_goals omega

theorem sizeOf_binaryOp (op : HirExpand.BinaryOp) : sizeOf op = 1 := by
  cases op <;> rfl

/-- An operation is as large as its left operand and its link. -/
theorem sizeOf_operation (lhs : ExprData) (valid : link.Valid l) :
    sizeOf (operation ctx l lhs link) = sizeOf lhs + linkSize ctx l link := by
  have listed := valid.1
  cases l with
  | infixOperation =>
      simp only [Level.operators, List.mem_cons, List.not_mem_nil, or_false] at listed
      rcases listed with kind | kind | kind | kind <;>
        simp [operation, linkSize, operatorSize, negationSize, operandSize, negates,
          Level.takesType, kind] <;> omega
  | elvis | infixFunctionCall | range =>
      have typeless := takesType_eq_false (by decide) _ listed
      simp [operation, linkSize, operatorSize, negationSize, operandSize, typeless]
      omega
  | disjunction | conjunction | equality | comparison | additive | multiplicative =>
      have typeless := takesType_eq_false (by decide) _ listed
      obtain ⟨op, found⟩ := Option.isSome_iff_exists.mp (binaryOp_isSome rfl _ listed)
      simp [operation, linkSize, operatorSize, negationSize, operandSize, typeless, found,
        sizeOf_binaryOp]
      omega

/-- The left-associated tree is as large as its operands and operators together. -/
theorem sizeOf_leftFold (valid : ∀ link ∈ links, link.Valid l) :
    sizeOf (leftFold ctx l first links) =
      sizeOf (expr ctx first) + (links.map (linkSize ctx l)).sum := by
  rw [leftFold]
  generalize expr ctx first = lhs
  induction links generalizing lhs with
  | nil => simp
  | cons link links ih =>
      rw [List.foldl_cons, ih (fun other member => valid other (List.mem_cons_of_mem link member)),
        sizeOf_operation ctx lhs (valid link List.mem_cons_self), List.map_cons, List.sum_cons]
      omega

/-- No node is both an expression and a type. -/
theorem not_isExpression_of_isTypeNode {tree : Cst} (type : tree.isNode isTypeNode = true) :
    tree.isNode isExpression = false := by
  cases tree with
  | token t => rfl
  | node kind children =>
      simp only [SyntaxTree.isNode_node] at type ⊢
      cases kind <;> first | rfl | exact absurd type (by decide)

/-- The last node of some kinds in a chain is an operand, when one operand is of them and the first
is not. -/
theorem getLast?_filter_operands (first : Cst) {p : SyntaxKind → Bool}
    (some_ : ∃ link ∈ links, link.operand.isNode p = true) :
    ∃ link ∈ links, link.operand.isNode p = true ∧
      ((first :: links.map Link.operand).filter (SyntaxTree.isNode p)).getLast? =
        some link.operand := by
  obtain ⟨link, member, kind⟩ := some_
  have inside : link.operand ∈ (links.map Link.operand).filter (SyntaxTree.isNode p) :=
    List.mem_filter.mpr ⟨List.mem_map_of_mem member, kind⟩
  have nonempty := List.ne_nil_of_mem inside
  have lastIn := List.getLast_mem nonempty
  obtain ⟨listed, lastKind⟩ := List.mem_filter.mp lastIn
  obtain ⟨last, lastMember, same⟩ := List.mem_map.mp listed
  refine ⟨last, lastMember, same ▸ lastKind, ?_⟩
  rw [same, List.filter_cons]
  split
  · rw [List.getLast?_cons_of_ne_nil nonempty, List.getLast?_eq_some_getLast nonempty]
  · rw [List.getLast?_eq_some_getLast nonempty]

/-- The size of the flat node of `in` and `is` checks: its first operand, its first operator, one
negation if it holds any, and one more operand. -/
theorem sizeOf_infixOperation
    (holds : Holds children (first :: (link :: links).map Link.operand)
      ((link :: links).map Link.operator))
    (expression : first.isNode isExpression = true)
    (valid : ∀ link' ∈ link :: links, link'.Valid .infixOperation) :
    ∃ last ∈ link :: links, ∃ negation ≤
        ((link :: links).map fun link' => negationSize .infixOperation link'.operator).sum,
      sizeOf (expr ctx (.node (Level.infixOperation.nodeKind link.operator.kind) children)) =
        sizeOf (expr ctx first) + operatorSize .infixOperation link.operator + negation +
          operandSize ctx last := by
  have lhs : firstExpression (children.map (lowered ctx)) = some (expr ctx first) := by
    rw [firstExpression_lowered ctx holds, List.filter_cons_of_pos expression]
    rfl
  -- A negated operator among the links pays for the negation of the node.
  have negated : ∀ op, negates op = true →
      (link :: links).any (fun link' => link'.operator.kind = op) = true →
      2 ≤ ((link :: links).map fun link' => negationSize .infixOperation link'.operator).sum := by
    intro op negation found
    obtain ⟨link', member, kind⟩ := List.any_eq_true.mp found
    have kind : link'.operator.kind = op := by simpa using kind
    calc 2 = negationSize .infixOperation link'.operator := by simp [negationSize, kind, negation]
      _ ≤ _ := List.single_le_sum (fun _ _ => Nat.zero_le _) _ (List.mem_map.mpr ⟨link', member, rfl⟩)
  by_cases type : Level.takesType link.operator.kind = true
  · have someType : ∃ link' ∈ link :: links, link'.operand.isNode isTypeNode = true := by
      refine ⟨link, List.mem_cons_self, ?_⟩
      have kind := (valid link List.mem_cons_self).2
      rwa [rightKinds, if_pos type] at kind
    obtain ⟨last, member, kind, found⟩ := getLast?_filter_operands first someType
    have lastType : Level.takesType last.operator.kind = true := by
      by_contra typeless
      have isExpr := (valid last member).expression (by simpa using typeless)
      rw [not_isExpression_of_isTypeNode kind] at isExpr
      exact Bool.noConfusion isExpr
    have ty : castType (children.map (lowered ctx)) ctx = some (ctx.spannedType last.operand) := by
      rw [castType, lastNode_lowered ctx holds, found]
      simp [lowered]
    have has : hasToken (children.map (lowered ctx)) (is .notIs) =
        (link :: links).any (fun link' => link'.operator.kind = .notIs) := by
      rw [hasToken_lowered ctx holds rfl, List.any_map]
      rfl
    rw [expr_node]
    simp only [Level.nodeKind, if_pos type, exprData, isTest, childExpression, lhs, ty, has]
    by_cases any : (link :: links).any (fun link' => link'.operator.kind = .notIs) = true
    · refine ⟨last, member, 2, negated .notIs rfl any, ?_⟩
      rw [if_pos any]
      simp [operatorSize, operandSize, type, lastType]
      omega
    · refine ⟨last, member, 0, Nat.zero_le _, ?_⟩
      rw [if_neg any]
      simp [operatorSize, operandSize, type, lastType]
      omega
  · have typeless : Level.takesType link.operator.kind = false := by simpa using type
    have someExpr : ∃ link' ∈ link :: links, link'.operand.isNode isExpression = true :=
      ⟨link, List.mem_cons_self, (valid link List.mem_cons_self).expression typeless⟩
    obtain ⟨last, member, kind, found⟩ := getLast?_filter_operands first someExpr
    have lastTypeless : Level.takesType last.operator.kind = false := by
      by_contra takes
      have right := (valid last member).2
      rw [rightKinds, if_pos (by simpa using takes)] at right
      rw [not_isExpression_of_isTypeNode right] at kind
      exact Bool.noConfusion kind
    have rhs : lastExpression (children.map (lowered ctx)) = some (expr ctx last.operand) := by
      rw [lastExpression_lowered ctx holds, found]
      rfl
    have has : hasToken (children.map (lowered ctx)) (is .notIn) =
        (link :: links).any (fun link' => link'.operator.kind = .notIn) := by
      rw [hasToken_lowered ctx holds rfl, List.any_map]
      rfl
    rw [expr_node]
    simp only [Level.nodeKind, typeless, exprData, containment, lhs, rhs, has]
    by_cases any : (link :: links).any (fun link' => link'.operator.kind = .notIn) = true
    · refine ⟨last, member, 2, negated .notIn rfl any, ?_⟩
      simp only [any, if_true]
      simp [operatorSize, operandSize, typeless, lastTypeless]
      omega
    · refine ⟨last, member, 0, Nat.zero_le _, ?_⟩
      simp only [any]
      simp [operatorSize, operandSize, typeless, lastTypeless]
      omega

/-- A chain of one operation lowers to that operation. -/
theorem expr_infixOperation_single
    (holds : Holds children [first, link.operand] [link.operator])
    (expression : first.isNode isExpression = true) (valid : link.Valid .infixOperation) :
    expr ctx (.node (Level.infixOperation.nodeKind link.operator.kind) children) =
      operation ctx .infixOperation (expr ctx first) link := by
  have lhs : firstExpression (children.map (lowered ctx)) = some (expr ctx first) := by
    rw [firstExpression_lowered ctx holds, List.filter_cons_of_pos expression]
    rfl
  have has : ∀ p : SyntaxKind → Bool, p .newline = false →
      hasToken (children.map (lowered ctx)) p = p link.operator.kind := by
    intro p nothing
    rw [hasToken_lowered ctx holds nothing]
    simp
  have listed := valid.1
  have right := valid.2
  rw [expr_node]
  by_cases type : Level.takesType link.operator.kind = true
  · rw [rightKinds, if_pos type] at right
    have ty : castType (children.map (lowered ctx)) ctx = some (ctx.spannedType link.operand) := by
      rw [castType, lastNode_lowered ctx holds, List.filter_cons, List.filter_cons_of_pos right]
      split <;> simp [lowered]
    simp only [Level.nodeKind, if_pos type, exprData, isTest, childExpression, lhs, ty,
      has (is .notIs) rfl]
    simp only [Level.operators, List.mem_cons, List.not_mem_nil, or_false] at listed
    rcases listed with kind | kind | kind | kind <;>
      simp_all [operation, is, Level.takesType]
  · have typeless : Level.takesType link.operator.kind = false := by simpa using type
    rw [rightKinds, if_neg type] at right
    have rhs : lastExpression (children.map (lowered ctx)) = some (expr ctx link.operand) := by
      rw [lastExpression_lowered ctx holds, List.filter_cons, List.filter_cons_of_pos right]
      split <;> simp
    simp only [Level.nodeKind, typeless, exprData, containment, lhs, rhs, has (is .notIn) rfl]
    simp only [Level.operators, List.mem_cons, List.not_mem_nil, or_false] at listed
    rcases listed with kind | kind | kind | kind <;>
      simp_all [operation, is, Level.takesType]

/-- A chain of one operation lowers to that operation, on every level. -/
theorem expr_chain_single
    (holds : Holds children [first, link.operand] [link.operator])
    (expression : first.isNode isExpression = true) (valid : link.Valid l) :
    expr ctx (.node (l.nodeKind link.operator.kind) children) = leftFold ctx l first [link] := by
  by_cases other : l = .infixOperation
  · subst other
    exact expr_infixOperation_single ctx holds expression valid
  · have alone : ∀ link' ∈ [link], link'.Valid l := by simpa using valid
    exact expr_chain ctx other holds expression alone

theorem sum_linkSize (l : Level) (links : List Link) :
    (links.map (linkSize ctx l)).sum =
      (links.map fun link => operatorSize l link.operator).sum +
      (links.map fun link => negationSize l link.operator).sum +
      (links.map (operandSize ctx)).sum := by
  induction links with
  | nil => rfl
  | cons link links ih =>
      simp only [List.map_cons, List.sum_cons, ih, linkSize]
      omega

/-- A chain of two operations or more lowers to a tree that is smaller than the operations. -/
theorem sizeOf_chain_lt {more : Link}
    (holds : Holds children (first :: (link :: more :: links).map Link.operand)
      ((link :: more :: links).map Link.operator))
    (expression : first.isNode isExpression = true)
    (valid : ∀ link' ∈ link :: more :: links, link'.Valid l) :
    sizeOf (expr ctx (.node (l.nodeKind link.operator.kind) children)) <
      sizeOf (leftFold ctx l first (link :: more :: links)) := by
  -- The node holds its first operator, one operand, and negations that the operators pay for.
  obtain ⟨last, member, negation, paid, size⟩ : ∃ last ∈ link :: more :: links, ∃ negation ≤
      ((link :: more :: links).map fun link' => negationSize l link'.operator).sum,
      sizeOf (expr ctx (.node (l.nodeKind link.operator.kind) children)) =
        sizeOf (expr ctx first) + operatorSize l link.operator + negation +
          operandSize ctx last := by
    by_cases other : l = .infixOperation
    · subst other
      exact sizeOf_infixOperation ctx holds expression valid
    · have lastIn := List.getLast_mem (l := link :: more :: links) (by simp)
      refine ⟨_, lastIn, 0, Nat.zero_le _, ?_⟩
      have typelessFirst := takesType_eq_false other _ (valid link List.mem_cons_self).1
      have typelessLast := takesType_eq_false other _ (valid _ lastIn).1
      have right := (valid _ lastIn).expression typelessLast
      rw [expr_chain ctx other holds expression valid, sizeOf_operation ctx]
      · have same : operandSize ctx
            ⟨link.operator, ((link :: more :: links).getLast (by simp)).operand⟩ =
              operandSize ctx ((link :: more :: links).getLast (by simp)) := by
          simp only [operandSize, typelessFirst, typelessLast]
        have plain : negationSize l link.operator = 0 := by simp [negationSize, other]
        rw [linkSize, same]
        dsimp only
        omega
      · refine ⟨(valid link List.mem_cons_self).1, ?_⟩
        rw [rightKinds, if_neg (by simp [typelessFirst])]
        exact right
  have operand : operandSize ctx last ≤ ((link :: more :: links).map (operandSize ctx)).sum :=
    List.single_le_sum (fun _ _ => Nat.zero_le _) _ (List.mem_map.mpr ⟨last, member, rfl⟩)
  have another := operatorSize_pos l more.operator
  rw [size, sizeOf_leftFold ctx valid, sum_linkSize]
  simp only [List.map_cons, List.sum_cons] at paid operand ⊢
  omega

/-- **Operands kept**: for every chain of operators of one level that the parser reads, the node it
builds lowers to the operations from left to right exactly when the chain has one operator. -/
theorem operands_kept_iff {g : Grammar} {p p' : Parser} (some_ : links ≠ [])
    (read : ChainRead g l p first links p') :
    ∃ node, (l.production g p).built = p.built ++ [node] ∧
      (expr ctx node = leftFold ctx l first links ↔ links.length = 1) := by
  obtain ⟨link, links, rfl⟩ := List.exists_cons_of_ne_nil some_
  obtain ⟨built, holds⟩ := chain_built read
  have valid : ∀ link' ∈ link :: links, link'.Valid l := by
    obtain ⟨p₀, _, more⟩ := read.run
    exact more.valid
  refine ⟨.node (l.nodeKind link.operator.kind) p'.built, by rw [built], ?_⟩
  cases links with
  | nil =>
      have single := expr_chain_single ctx holds read.expression (valid link List.mem_cons_self)
      simp [single]
  | cons more links =>
      have smaller := sizeOf_chain_lt ctx holds read.expression valid
      constructor
      · intro same
        rw [same] at smaller
        exact absurd smaller (Nat.lt_irrefl _)
      · intro one
        simp at one

end Lowering

/-! ### `a + b - c` -/

/-- A name as an expression node. -/
def nameNode (text : String) : Cst :=
  .node .primaryExpression [.token ⟨.identifier, text.toList, 0⟩]

/-- The tokens of `a + b - c`. -/
def differenceTokens : List Token :=
  [⟨.identifier, "a".toList, 0⟩, ⟨.plus, "+".toList, 0⟩, ⟨.identifier, "b".toList, 0⟩,
   ⟨.minus, "-".toList, 0⟩, ⟨.identifier, "c".toList, 0⟩, ⟨.eof, [], 0⟩]

def differenceLinks : List Link :=
  [⟨⟨.plus, "+".toList, 0⟩, nameNode "b"⟩, ⟨⟨.minus, "-".toList, 0⟩, nameNode "c"⟩]

/-- The parser in `a + b - c` after `n` tokens, with what it built. -/
def inDifference (n : Nat) (built : List Cst) : Parser :=
  { Parser.new (differenceTokens.drop n) with previous := some .identifier, built := built }

/-- What the additive level reads of `a + b - c`. -/
def differenceBuilt : List Cst :=
  [nameNode "a", .token ⟨.plus, "+".toList, 0⟩, nameNode "b", .token ⟨.minus, "-".toList, 0⟩,
   nameNode "c"]

/-- The additive level reads the chain `a + b - c`. -/
theorem difference_read : ChainRead .idle .additive (Parser.new differenceTokens)
    (nameNode "a") differenceLinks (inDifference 5 differenceBuilt) := by
  refine ⟨⟨inDifference 1 (differenceBuilt.take 1), ⟨?_, ?_, ?_⟩, ?_⟩, ?_⟩
  · rfl
  · rfl
  · decide
  · have second : ReadsTree (Level.additive.rightOperand .idle .plus)
        (eatNl (Level.additive.skip (inDifference 1 (differenceBuilt.take 1))).bump) (nameNode "b")
        (inDifference 3 (differenceBuilt.take 3)) :=
      ⟨by decide, by decide, by decide⟩
    have third : ReadsTree (Level.additive.rightOperand .idle .minus)
        (eatNl (Level.additive.skip (inDifference 3 (differenceBuilt.take 3))).bump) (nameNode "c")
        (inDifference 5 differenceBuilt) :=
      ⟨by decide, by decide, by decide⟩
    exact .link rfl rfl (by decide) second rfl (.link rfl rfl (by decide) third rfl (.done rfl))
  · rfl

/-- What the two operations of `a + b - c` lower to, on the node the parser builds. -/
theorem difference_operands_kept : ∃ node,
    (Level.additive.production .idle (Parser.new differenceTokens)).built = [node] ∧
      (expr .unread node = leftFold .unread .additive (nameNode "a") differenceLinks ↔
        differenceLinks.length = 1) :=
  operands_kept_iff .unread (by decide) difference_read

/-- `a + b - c` is read whole and lowers to `a + c`: `b` and the subtraction are lost. -/
theorem operands_not_kept : ∃ node,
    (expression .idle (Parser.new differenceTokens)).built = [node] ∧
      expr .unread node = .binary .add (.var ⟨['a']⟩) (.var ⟨['c']⟩) ∧
      leftFold .unread .additive (nameNode "a") differenceLinks =
        .binary .sub (.binary .add (.var ⟨['a']⟩) (.var ⟨['b']⟩)) (.var ⟨['c']⟩) ∧
      expr .unread node ≠ leftFold .unread .additive (nameNode "a") differenceLinks := by
  have lowers : expr .unread (.node .binaryExpression differenceBuilt) =
      .binary .add (.var ⟨['a']⟩) (.var ⟨['c']⟩) := rfl
  have means : leftFold .unread .additive (nameNode "a") differenceLinks =
      .binary .sub (.binary .add (.var ⟨['a']⟩) (.var ⟨['b']⟩)) (.var ⟨['c']⟩) := rfl
  refine ⟨.node .binaryExpression differenceBuilt, by rfl, lowers, means, ?_⟩
  rw [lowers, means]
  simp

end CaffeineLs.HirDef.Kotlin
