/-
Module: CaffeineLs.Proofs.KotlinReading
Purpose: What the lowering reads from the children of a node, stated on the nodes and the tokens
  among them: line breaks are never read.
Trusted boundary: none
Main exports: Holds, Adds, firstExpression_lowered
-/
import CaffeineLs.HirDef.KotlinLowering

namespace CaffeineLs.HirDef.Kotlin

open Lib KotlinSyntax
open Decorated (firstNode lastNode nodesOf tokensOf)

/-- Whether a token is more than a line break. -/
def significant (token : Token) : Bool := token.kind ≠ .newline

/-- The nodes among the children and the tokens that are not line breaks, in source order. -/
structure Holds (children : List Cst) (nodes : List Cst) (tokens : List Token) : Prop where
  nodes : children.filter (SyntaxTree.isNode fun _ => true) = nodes
  tokens : (children.filterMap SyntaxTree.leaf).filter significant = tokens

namespace Holds

theorem nil : Holds [] [] [] := ⟨rfl, rfl⟩

theorem append {children₁ children₂ nodes₁ nodes₂ : List Cst} {tokens₁ tokens₂ : List Token}
    (first : Holds children₁ nodes₁ tokens₁) (second : Holds children₂ nodes₂ tokens₂) :
    Holds (children₁ ++ children₂) (nodes₁ ++ nodes₂) (tokens₁ ++ tokens₂) := by
  constructor
  · rw [List.filter_append, first.nodes, second.nodes]
  · rw [List.filterMap_append, List.filter_append, first.tokens, second.tokens]

theorem node (kind : SyntaxKind) (children : List Cst) :
    Holds [.node kind children] [.node kind children] [] := ⟨by simp, rfl⟩

/-- A tree that is a node of some kind. -/
theorem tree {p : SyntaxKind → Bool} {tree : Cst} (admitted : tree.isNode p = true) :
    Holds [tree] [tree] [] := by
  cases tree with
  | node kind children => exact node kind children
  | token t => simp at admitted

theorem token {t : Token} (more : t.kind ≠ .newline) : Holds [.token t] [] [t] :=
  ⟨by simp, by simp [significant, more]⟩

/-- Line breaks do not count. -/
theorem breaks {breaks : List Token} (only : ∀ t ∈ breaks, t.kind = .newline) :
    Holds (breaks.map .token) [] [] := by
  induction breaks with
  | nil => exact nil
  | cons t breaks ih =>
      have first : Holds [.token t] [] [] :=
        ⟨by simp, by simp [significant, only t List.mem_cons_self]⟩
      exact first.append (ih fun other member => only other (List.mem_cons_of_mem t member))

end Holds

/-- A node of some kinds is a node. -/
theorem isNode_any {p : SyntaxKind → Bool} {tree : Cst} (admitted : tree.isNode p = true) :
    tree.isNode (fun _ => true) = true := by
  cases tree with
  | node kind children => rfl
  | token t => simp at admitted

/-- A node of one kind. -/
theorem eq_node_of_is {kind : SyntaxKind} {tree : Cst} (kindly : tree.isNode (is kind) = true) :
    ∃ children, tree = .node kind children := by
  cases tree with
  | token t => simp at kindly
  | node other children =>
      have same : other = kind := by simpa [is] using kindly
      exact ⟨children, by rw [same]⟩

/-! ### What a run of the parser adds -/

/-- From `p` to `p'` the parser adds these nodes and these tokens to the open node, with line breaks
among them. -/
def Adds (p : Parser) (nodes : List Cst) (tokens : List Token) (p' : Parser) : Prop :=
  ∃ children, Appends p children p' ∧ Holds children nodes tokens

namespace Adds

variable {p p₁ p₂ : Parser} {nodes₁ nodes₂ : List Cst} {tokens₁ tokens₂ : List Token}

theorem refl (p : Parser) : Adds p [] [] p := ⟨[], Appends.refl p, Holds.nil⟩

theorem trans (first : Adds p nodes₁ tokens₁ p₁) (second : Adds p₁ nodes₂ tokens₂ p₂) :
    Adds p (nodes₁ ++ nodes₂) (tokens₁ ++ tokens₂) p₂ := by
  obtain ⟨children₁, appends₁, holds₁⟩ := first
  obtain ⟨children₂, appends₂, holds₂⟩ := second
  exact ⟨children₁ ++ children₂, appends₁.trans appends₂, holds₁.append holds₂⟩

theorem eatNl (p : Parser) : Adds p [] [] (eatNl p) := by
  obtain ⟨breaks, only, appends⟩ := eatNl_appends p
  exact ⟨breaks.map .token, appends, Holds.breaks only⟩

/-- Line breaks after what was read add nothing. -/
theorem thenNl (first : Adds p nodes₁ tokens₁ p₁) :
    Adds p nodes₁ tokens₁ (KotlinSyntax.eatNl p₁) := by
  have both := first.trans (eatNl p₁)
  rwa [List.append_nil, List.append_nil] at both

theorem bump {token : Token} {rest : List Token} (ahead : p.rest = token :: rest)
    (more : token.kind ≠ .newline) : Adds p [] [token] p.bump := by
  obtain ⟨built, left⟩ := Parser.bump_of_rest ahead
  exact ⟨[.token token], ⟨built, by rw [left, ahead]; simp⟩, Holds.token more⟩

/-- One tree that is a node. -/
theorem node {kinds : SyntaxKind → Bool} {tree : Cst} (appends : Appends p [tree] p₁)
    (admitted : tree.isNode kinds = true) : Adds p [tree] [] p₁ :=
  ⟨[tree], appends, Holds.tree admitted⟩

/-- Since its start a node holds what was added. -/
theorem holds (added : Adds p.start.2 nodes₁ tokens₁ p₁) : Holds p₁.built nodes₁ tokens₁ := by
  obtain ⟨children, appends, holds⟩ := added
  have built : p₁.built = children := appends.built
  rwa [built]

/-- Closing a node adds it to the node around it. -/
theorem complete (added : Adds p.start.2 nodes₁ tokens₁ p₁) (kind : SyntaxKind) :
    Appends p [.node kind p₁.built] (p₁.complete p.built kind) := by
  obtain ⟨children, appends, holds⟩ := added
  exact ⟨rfl, appends.rest⟩

theorem rest (added : Adds p nodes₁ tokens₁ p₁) : p₁.rest.length ≤ p.rest.length := by
  obtain ⟨children, appends, holds⟩ := added
  exact appends.rest

end Adds

/-! ### Reading lowered children -/

variable (ctx : Leaves) {children nodes : List Cst} {tokens : List Token}

/-- A filter that drops only what `f` finds nothing in does not change what is found. -/
theorem findSome?_filter {α β : Type} {p : α → Bool} {f : α → Option β}
    (nothing : ∀ a, p a = false → f a = none) (l : List α) :
    (l.filter p).findSome? f = l.findSome? f := by
  induction l with
  | nil => rfl
  | cons a l ih =>
      rw [List.filter_cons, List.findSome?_cons]
      by_cases kept : p a = true
      · rw [if_pos kept, List.findSome?_cons, ih]
      · rw [if_neg kept, ih, nothing a (by simpa using kept)]

theorem filter_isNode (holds : Holds children nodes tokens) (p : SyntaxKind → Bool) :
    children.filter (SyntaxTree.isNode p) = nodes.filter (SyntaxTree.isNode p) := by
  rw [← holds.nodes, List.filter_filter]
  congr 1
  funext tree
  cases tree <;> simp

/-- The nodes of some kinds among the lowered children. -/
theorem nodesOf_lowered (holds : Holds children nodes tokens) (p : SyntaxKind → Bool) :
    nodesOf p (children.map (lowered ctx)) =
      (nodes.filter (SyntaxTree.isNode p)).map (lowered ctx) := by
  rw [← filter_isNode holds p]
  exact Decorated.nodesOf_map_decorate p (lowerNode ctx) children

theorem firstNode_lowered (holds : Holds children nodes tokens) (p : SyntaxKind → Bool) :
    firstNode p (children.map (lowered ctx)) =
      ((nodes.filter (SyntaxTree.isNode p)).head?).map (lowered ctx) := by
  rw [← filter_isNode holds p, List.head?_filter]
  exact Decorated.firstNode_map_decorate p (lowerNode ctx) children

theorem lastNode_lowered (holds : Holds children nodes tokens) (p : SyntaxKind → Bool) :
    lastNode p (children.map (lowered ctx)) =
      ((nodes.filter (SyntaxTree.isNode p)).getLast?).map (lowered ctx) := by
  rw [← filter_isNode holds p]
  exact Decorated.lastNode_map_decorate p (lowerNode ctx) children

/-- The first expression among the children. -/
theorem firstExpression_lowered (holds : Holds children nodes tokens) :
    firstExpression (children.map (lowered ctx)) =
      ((nodes.filter (SyntaxTree.isNode isExpression)).head?).map (expr ctx) := by
  rw [firstExpression, firstNode_lowered ctx holds, Option.map_map]
  rfl

/-- The last expression among the children. -/
theorem lastExpression_lowered (holds : Holds children nodes tokens) :
    lastExpression (children.map (lowered ctx)) =
      ((nodes.filter (SyntaxTree.isNode isExpression)).getLast?).map (expr ctx) := by
  rw [lastExpression, lastNode_lowered ctx holds, Option.map_map]
  rfl

/-- The first token with a value, when a line break has none. -/
theorem findSome?_tokens_lowered {β : Type} (holds : Holds children nodes tokens)
    {f : Token → Option β} (nothing : ∀ t : Token, t.kind = .newline → f t = none) :
    (tokensOf (children.map (lowered ctx))).findSome? f = tokens.findSome? f := by
  have only : ∀ t, significant t = false → f t = none := by
    intro t dropped
    exact nothing t (by simpa [significant] using dropped)
  rw [← holds.tokens, findSome?_filter only]
  exact congrArg (List.findSome? f) (Decorated.tokensOf_map_decorate (lowerNode ctx) children)

/-- The first token of some kinds, when a line break is none of them. -/
theorem findToken_lowered (holds : Holds children nodes tokens) {p : SyntaxKind → Bool}
    (nothing : p .newline = false) :
    findToken (children.map (lowered ctx)) p = tokens.find? (fun t => p t.kind) := by
  rw [findToken, List.find?_eq_findSome?_guard, List.find?_eq_findSome?_guard]
  apply findSome?_tokens_lowered ctx holds
  intro t newline
  simp [newline, nothing]

/-- Whether a token of some kinds is among the children, when a line break is none of them. -/
theorem hasToken_lowered (holds : Holds children nodes tokens) {p : SyntaxKind → Bool}
    (nothing : p .newline = false) :
    hasToken (children.map (lowered ctx)) p = tokens.any (fun t => p t.kind) := by
  have found := congrArg Option.isSome (findToken_lowered ctx holds nothing)
  rw [findToken, List.isSome_find?, List.isSome_find?] at found
  exact found

/-- The lowered children without their values are the children. -/
theorem plain_lowered (children : List Cst) :
    (children.map (lowered ctx)).map Decorated.plain = children := by
  rw [List.map_map]
  exact (List.map_congr_left fun tree _ =>
    SyntaxTree.plain_decorate (lowerNode ctx) tree).trans (List.map_id _)

/-- The expression a node lowers to. -/
theorem expr_node (kind : SyntaxKind) (children : List Cst) :
    expr ctx (.node kind children) =
      exprData (children.map (lowered ctx)) ctx (.node kind children) kind := by
  rw [expr, lowered, SyntaxTree.decorate_node]
  change (lowerNode ctx kind (children.map (lowered ctx))).expr = _
  rw [lowerNode, plain_lowered]

/-- The statement a node lowers to. -/
theorem statement_node (kind : SyntaxKind) (children : List Cst) :
    statement ctx (.node kind children) =
      stmtData (children.map (lowered ctx)) ctx (.node kind children)
        (expr ctx (.node kind children)) kind := by
  rw [expr_node, statement, lowered, SyntaxTree.decorate_node]
  change (lowerNode ctx kind (children.map (lowered ctx))).stmt = _
  rw [lowerNode, plain_lowered]

end CaffeineLs.HirDef.Kotlin
