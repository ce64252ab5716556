/-
Module: CaffeineLs.Lib.SyntaxTree
Purpose: Concrete syntax trees, and their decoration: a value at every node, computed from the
  decorated children, so that a node's value may look as deep below it as it needs to.
Trusted boundary: none
Main exports: SyntaxTree, Decorated, SyntaxTree.decorate
-/
import Mathlib.Tactic.Common

namespace CaffeineLs.Lib

/-- A concrete syntax tree: nodes with a kind over the tokens they cover. -/
inductive SyntaxTree (κ τ : Type) where
  | node (kind : κ) (children : List (SyntaxTree κ τ))
  | token (token : τ)

/-- A syntax tree with a value at every node; `plain` are the children without theirs. -/
inductive Decorated (κ τ α : Type) where
  | node (kind : κ) (plain : List (SyntaxTree κ τ)) (value : α)
      (children : List (Decorated κ τ α))
  | token (token : τ)

variable {κ τ α : Type}

namespace SyntaxTree

/-- The kind of a node; a token has none. -/
def nodeKind : SyntaxTree κ τ → Option κ
  | node kind _ => some kind
  | token _ => none

/-- The token of a leaf; a node has none. -/
def leaf : SyntaxTree κ τ → Option τ
  | node _ _ => none
  | token t => some t

/-- Whether the tree is a node of a kind that `p` admits. -/
def isNode (p : κ → Bool) (tree : SyntaxTree κ τ) : Bool := tree.nodeKind.any p

@[simp] theorem nodeKind_node (kind : κ) (children : List (SyntaxTree κ τ)) :
    (node kind children).nodeKind = some kind := rfl

@[simp] theorem nodeKind_token (t : τ) : (token t : SyntaxTree κ τ).nodeKind = none := rfl

@[simp] theorem leaf_node (kind : κ) (children : List (SyntaxTree κ τ)) :
    (node kind children).leaf = none := rfl

@[simp] theorem leaf_token (t : τ) : (token t : SyntaxTree κ τ).leaf = some t := rfl

@[simp] theorem isNode_node (p : κ → Bool) (kind : κ) (children : List (SyntaxTree κ τ)) :
    (node kind children).isNode p = p kind := rfl

@[simp] theorem isNode_token (p : κ → Bool) (t : τ) :
    (token t : SyntaxTree κ τ).isNode p = false := rfl

/-- A tree that is a node has no token of its own. -/
theorem leaf_eq_none_of_isNode {p : κ → Bool} {tree : SyntaxTree κ τ}
    (admitted : tree.isNode p = true) : tree.leaf = none := by
  cases tree with
  | node kind children => rfl
  | token t => simp at admitted

end SyntaxTree

namespace Decorated

def nodeKind : Decorated κ τ α → Option κ
  | node kind _ _ _ => some kind
  | token _ => none

def leaf : Decorated κ τ α → Option τ
  | node _ _ _ _ => none
  | token t => some t

def isNode (p : κ → Bool) (tree : Decorated κ τ α) : Bool := tree.nodeKind.any p

/-- The value at a node. -/
def value [Inhabited α] : Decorated κ τ α → α
  | node _ _ value _ => value
  | token _ => default

def children : Decorated κ τ α → List (Decorated κ τ α)
  | node _ _ _ children => children
  | token _ => []

/-- The tree without its values. -/
def plain : Decorated κ τ α → SyntaxTree κ τ
  | node kind plain _ _ => .node kind plain
  | token t => .token t

end Decorated

mutual

def SyntaxTree.decEq [DecidableEq κ] [DecidableEq τ] :
    (tree tree' : SyntaxTree κ τ) → Decidable (tree = tree')
  | .node kind children, .node kind' children' =>
      if same : kind = kind' then
        match SyntaxTree.decEqAll children children' with
        | isTrue equal => isTrue (by rw [same, equal])
        | isFalse differ => isFalse (by
            intro equal
            injection equal with _ equal
            exact differ equal)
      else isFalse (by
        intro equal
        injection equal with equal
        exact same equal)
  | .token t, .token t' =>
      if same : t = t' then isTrue (by rw [same])
      else isFalse (by
        intro equal
        injection equal with equal
        exact same equal)
  | .node _ _, .token _ => isFalse nofun
  | .token _, .node _ _ => isFalse nofun

def SyntaxTree.decEqAll [DecidableEq κ] [DecidableEq τ] :
    (trees trees' : List (SyntaxTree κ τ)) → Decidable (trees = trees')
  | [], [] => isTrue rfl
  | tree :: trees, tree' :: trees' =>
      match SyntaxTree.decEq tree tree', SyntaxTree.decEqAll trees trees' with
      | isTrue same, isTrue equal => isTrue (by rw [same, equal])
      | isFalse differ, _ => isFalse (by
          intro equal
          injection equal with equal
          exact differ equal)
      | _, isFalse differ => isFalse (by
          intro equal
          injection equal with _ equal
          exact differ equal)
  | [], _ :: _ => isFalse nofun
  | _ :: _, [] => isFalse nofun

end

instance [DecidableEq κ] [DecidableEq τ] : DecidableEq (SyntaxTree κ τ) := SyntaxTree.decEq

/-! ### Decoration -/

section Decoration

variable (rule : κ → List (Decorated κ τ α) → α)

mutual

/-- The tree with the value that `rule` gives each node from its decorated children. -/
def SyntaxTree.decorate : SyntaxTree κ τ → Decorated κ τ α
  | .node kind children =>
      .node kind children (rule kind (SyntaxTree.decorateAll children))
        (SyntaxTree.decorateAll children)
  | .token t => .token t

def SyntaxTree.decorateAll : List (SyntaxTree κ τ) → List (Decorated κ τ α)
  | [] => []
  | tree :: trees => tree.decorate :: SyntaxTree.decorateAll trees

end

namespace SyntaxTree

theorem decorateAll_eq_map (trees : List (SyntaxTree κ τ)) :
    decorateAll rule trees = trees.map (decorate rule) := by
  induction trees with
  | nil => rfl
  | cons tree trees ih => rw [decorateAll, ih, List.map_cons]

@[simp] theorem decorate_node (kind : κ) (children : List (SyntaxTree κ τ)) :
    decorate rule (.node kind children) =
      .node kind children (rule kind (children.map (decorate rule)))
        (children.map (decorate rule)) := by
  rw [decorate, decorateAll_eq_map]

@[simp] theorem decorate_token (t : τ) : decorate rule (.token t) = .token t := by
  rw [decorate]

@[simp] theorem nodeKind_decorate (tree : SyntaxTree κ τ) :
    (decorate rule tree).nodeKind = tree.nodeKind := by
  cases tree <;> simp [Decorated.nodeKind]

@[simp] theorem leaf_decorate (tree : SyntaxTree κ τ) :
    (decorate rule tree).leaf = tree.leaf := by
  cases tree <;> simp [Decorated.leaf]

@[simp] theorem isNode_decorate (p : κ → Bool) (tree : SyntaxTree κ τ) :
    (decorate rule tree).isNode p = tree.isNode p := by
  simp [Decorated.isNode, isNode]

@[simp] theorem plain_decorate (tree : SyntaxTree κ τ) : (decorate rule tree).plain = tree := by
  cases tree <;> simp [Decorated.plain]

end SyntaxTree

end Decoration

/-! ### Reading the children of a node -/

namespace Decorated

variable (p : κ → Bool) (children : List (Decorated κ τ α))

/-- The child nodes of an admitted kind, in source order. -/
def nodesOf : List (Decorated κ τ α) := children.filter (isNode p)

/-- The first child node of an admitted kind. -/
def firstNode : Option (Decorated κ τ α) := children.find? (isNode p)

/-- The last child node of an admitted kind. -/
def lastNode : Option (Decorated κ τ α) := (nodesOf p children).getLast?

/-- The child tokens, in source order. -/
def tokensOf : List τ := children.filterMap leaf

variable (rule : κ → List (Decorated κ τ α) → α) (trees : List (SyntaxTree κ τ))

/-- The admitted nodes of a decorated forest are those of the forest. -/
@[simp] theorem nodesOf_map_decorate :
    nodesOf p (trees.map (SyntaxTree.decorate rule)) =
      (trees.filter (SyntaxTree.isNode p)).map (SyntaxTree.decorate rule) := by
  induction trees with
  | nil => rfl
  | cons tree trees ih =>
      simp only [nodesOf, List.map_cons, List.filter_cons,
        SyntaxTree.isNode_decorate] at ih ⊢
      split <;> simp [ih]

@[simp] theorem firstNode_map_decorate :
    firstNode p (trees.map (SyntaxTree.decorate rule)) =
      (trees.find? (SyntaxTree.isNode p)).map (SyntaxTree.decorate rule) := by
  induction trees with
  | nil => rfl
  | cons tree trees ih =>
      simp only [firstNode, List.map_cons, List.find?_cons, SyntaxTree.isNode_decorate] at ih ⊢
      split <;> simp [ih]

@[simp] theorem lastNode_map_decorate :
    lastNode p (trees.map (SyntaxTree.decorate rule)) =
      ((trees.filter (SyntaxTree.isNode p)).getLast?).map (SyntaxTree.decorate rule) := by
  rw [lastNode, nodesOf_map_decorate, List.getLast?_map]

@[simp] theorem tokensOf_map_decorate :
    tokensOf (trees.map (SyntaxTree.decorate rule)) = trees.filterMap SyntaxTree.leaf := by
  induction trees with
  | nil => rfl
  | cons tree trees ih =>
      simp only [tokensOf, List.map_cons, List.filterMap_cons, SyntaxTree.leaf_decorate] at ih ⊢
      split <;> simp [ih]

end Decorated

end CaffeineLs.Lib
