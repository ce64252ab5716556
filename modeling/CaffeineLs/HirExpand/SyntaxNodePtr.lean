/-
Module: CaffeineLs.HirExpand.SyntaxNodePtr
Purpose: Pointers to the nodes of a syntax tree, and the way back from a pointer to its node.
Trusted boundary: the search for the element that covers a range is a parameter; a node is told from the
  others by the way to it, and a token is its kind and its text
Main exports: CoveringElement, SyntaxNodePtr, nodePtr
-/
import CaffeineLs.Lib.TextTree
import CaffeineLs.HirExpand.AstIdMap

namespace CaffeineLs.HirExpand

open CaffeineLs.Lib (SyntaxTree)
open SkeletonWalk TextTree

/-- The tokens of a tree with their kinds. -/
abbrev SourceTree (κ : Type) := SyntaxTree κ (κ × List Char)

/-- The length of the text of a token, in bytes. -/
def tokenLen {κ : Type} (token : κ × List Char) : Nat := (token.2.map Char.utf8Size).sum

/-- `covering_element` of the root of a tree: the way to the element. -/
abbrev CoveringElement := (κ : Type) → SourceTree κ → TextRange → Path

/-- A pointer to a node: its range and kind. -/
structure SyntaxNodePtr (κ : Type) where
  range : TextRange
  kind : κ
deriving DecidableEq

section Pointers

variable {κ : Type} (tree : SourceTree κ)

/-- The root of a tree, as an element at the start of the text. -/
def rootOf : Located κ (κ × List Char) := ⟨0, tree⟩

def nodePtr (path : Path) : Option (SyntaxNodePtr κ) :=
  match (rootOf tree).elementAt tokenLen path with
  | some element => element.tree.nodeKind.map fun kind => ⟨element.range tokenLen, kind⟩
  | none => none

/-- The node to start from: the element itself, or the parent of a token. -/
def startNode (element : Path) : Option Path :=
  match (rootOf tree).elementAt tokenLen element with
  | some ⟨_, .node _ _⟩ => some element
  | some ⟨_, .token _⟩ => if element = [] then none else some element.dropLast
  | none => none

def tryToNode [DecidableEq κ] (coveringElement : CoveringElement) (ptr : SyntaxNodePtr κ) :
    Option Path :=
  (startNode tree (coveringElement κ tree ptr.range)).bind
    (nearest fun path => decide ((rootOf tree).kindAt tokenLen path = some ptr.kind))

end Pointers

/-! ### The nodes that are indexed -/

section Index

variable {κ : Type}

mutual

/-- The nodes of a tree that is the `i`-th child of the node at a path, before the nodes of its later
siblings: each with the way to it. -/
def nodesFrom (above : Path) (i : Nat) : SourceTree κ → Forest (κ × Path) → Forest (κ × Path)
  | .token _, rest => rest
  | .node kind children, rest => .node (kind, above ++ [i]) (nodesBelow (above ++ [i]) 0 children) rest

def nodesBelow (above : Path) (i : Nat) : List (SourceTree κ) → Forest (κ × Path)
  | [] => .nil
  | tree :: trees => nodesFrom above i tree (nodesBelow above (i + 1) trees)

end

/-- The rules, which look at the kinds of nodes alone. -/
def onKinds (rules : Rules κ) : Rules (κ × Path) where
  isIndexable node := rules.isIndexable node.1
  anchorsInBody node := rules.anchorsInBody node.1
  plan node parent body child := rules.plan node.1 (parent.map Prod.fst) body child.1

/-- `build`: the nodes that get a pointer in the arena, in the order of their ids. -/
def indexedNodes (rules : Rules κ) : SourceTree κ → List (κ × Path)
  | .token _ => []
  | .node kind children => build (onKinds rules) [⟨(kind, []), nodesBelow [] 0 children, none, false⟩]

end Index

end CaffeineLs.HirExpand
