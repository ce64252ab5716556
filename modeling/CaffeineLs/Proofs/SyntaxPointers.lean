/-
Module: CaffeineLs.Proofs.SyntaxPointers
Purpose: When the pointers to the indexed nodes of a tree tell them apart and lead back to them.
Trusted boundary: the search for the covering element does what it is documented to do
Main exports: Documented, RoundTrips, pointers_return_iff
-/
import CaffeineLs.KotlinParser.Sink

namespace CaffeineLs.HirExpand

open CaffeineLs.Lib (SyntaxTree)
open SkeletonWalk TextTree

variable {κ : Type}

/-! ### The nodes that are indexed -/

/-- A path leads to a node of a kind. -/
def IsNode (tree : SourceTree κ) (node : κ × Path) : Prop :=
  (rootOf tree).kindAt tokenLen node.2 = some node.1

/-- Every tree of a list stands in the text, as a child of the node at a path, from the `i`-th on. -/
def Stand (tree : SourceTree κ) (above : Path) (i : Nat) (trees : List (SourceTree κ)) : Prop :=
  ∀ j below, trees[j]? = some below →
    ∃ offset, (rootOf tree).elementAt tokenLen (above ++ [i + j]) = some ⟨offset, below⟩

theorem stand_tail {tree first : SourceTree κ} {above : Path} {i : Nat} {trees : List (SourceTree κ)}
    (stand : Stand tree above i (first :: trees)) : Stand tree above (i + 1) trees := by
  intro j below here
  obtain ⟨offset, found⟩ := stand (j + 1) below here
  have same : i + (j + 1) = i + 1 + j := by omega
  exact ⟨offset, same ▸ found⟩

theorem exists_childFrom {τ : Type} (width : τ → Nat) {trees : List (SyntaxTree κ τ)} {j : Nat}
    {below : SyntaxTree κ τ} (here : trees[j]? = some below) (offset : Nat) :
    ∃ start, childFrom width offset trees j = some ⟨start, below⟩ := by
  induction trees generalizing offset j with
  | nil => cases here
  | cons first trees ih =>
      cases j with
      | zero =>
          obtain rfl := Option.some.inj here
          exact ⟨offset, rfl⟩
      | succ j => exact ih here _

/-- The children of a node that stands in the text stand below it. -/
theorem stand_children {tree : SourceTree κ} (path : Path) {offset : Nat} {kind : κ}
    {children : List (SourceTree κ)}
    (found : (rootOf tree).elementAt tokenLen path = some ⟨offset, .node kind children⟩) :
    Stand tree path 0 children := by
  intro j below here
  obtain ⟨start, child⟩ := exists_childFrom tokenLen here offset
  refine ⟨start, ?_⟩
  rw [elementAt_append, found, Option.bind_some, Nat.zero_add, Located.elementAt]
  have first : (⟨offset, .node kind children⟩ : Located κ (κ × List Char)).child tokenLen j =
      some ⟨start, below⟩ := child
  rw [first]
  rfl

mutual

/-- The nodes of a tree that stands in the text are nodes of the whole tree. -/
theorem isNode_of_mem_nodesFrom {tree : SourceTree κ} {above : Path} {i offset : Nat}
    {rest : Forest (κ × Path)} {node : κ × Path} : (below : SourceTree κ) →
    (rootOf tree).elementAt tokenLen (above ++ [i]) = some ⟨offset, below⟩ →
    node ∈ (nodesFrom above i below rest).nodes → IsNode tree node ∨ node ∈ rest.nodes
  | .token _, _, member => .inr member
  | .node kind children, found, member => by
      rw [nodesFrom, Forest.nodes, List.mem_cons, List.mem_append] at member
      rcases member with rfl | inside | later
      · refine .inl ?_
        rw [IsNode, Located.kindAt, found]
        rfl
      · exact .inl (isNode_of_mem_nodesBelow children (stand_children _ found) inside)
      · exact .inr later

theorem isNode_of_mem_nodesBelow {tree : SourceTree κ} {above : Path} {i : Nat} {node : κ × Path} :
    (trees : List (SourceTree κ)) → Stand tree above i trees →
    node ∈ (nodesBelow above i trees).nodes → IsNode tree node
  | [], _, member => by cases member
  | first :: trees, stand, member => by
      obtain ⟨offset, found⟩ := stand 0 first rfl
      rw [nodesBelow] at member
      rcases isNode_of_mem_nodesFrom first found member with here | later
      · exact here
      · exact isNode_of_mem_nodesBelow trees (stand_tail stand) later

end

theorem isNode_of_indexed {rules : Rules κ} {tree : SourceTree κ} {node : κ × Path}
    (indexed : node ∈ indexedNodes rules tree) : IsNode tree node := by
  cases tree with
  | token t => cases indexed
  | node kind children =>
      rw [indexedNodes, build_eq, visitStack, List.flatMap_singleton, List.mem_append] at indexed
      rcases indexed with own | below
      · unfold Rules.own at own
        split at own
        · obtain rfl := List.mem_singleton.mp own
          rfl
        · cases own
      · exact isNode_of_mem_nodesBelow children (stand_children [] rfl)
          (mem_nodes_of_mem_visit _ below)

/-! ### The way back -/

/-- The covering element is a deepest one that contains the range. Which one it is of those that meet at
an empty range is left open. -/
structure Documented (coveringElement : CoveringElement) : Prop where
  covers : ∀ {κ : Type} (tree : SourceTree κ) (range : TextRange),
    ((rootOf tree).range tokenLen).Contains range →
      Covers tokenLen (rootOf tree) range (coveringElement κ tree range)

theorem nodePtr_eq {tree : SourceTree κ} {node : κ × Path} (isNode : IsNode tree node) :
    ∃ element, (rootOf tree).elementAt tokenLen node.2 = some element ∧
      element.tree.nodeKind = some node.1 ∧
      nodePtr tree node.2 = some ⟨element.range tokenLen, node.1⟩ := by
  obtain ⟨element, found, kinds⟩ := Option.bind_eq_some_iff.mp isNode
  refine ⟨element, found, kinds, ?_⟩
  rw [nodePtr, found]
  simp only [kinds, Option.map_some]

variable [DecidableEq κ]

/-- The parent of a token is as good a start as the token: the way back takes the nearest node of the
kind above the covering element. -/
theorem tryToNode_eq {tree : SourceTree κ} {coveringElement : CoveringElement} (ptr : SyntaxNodePtr κ)
    (covers : Covers tokenLen (rootOf tree) ptr.range (coveringElement κ tree ptr.range)) :
    tryToNode tree coveringElement ptr =
      nearest (fun path => decide ((rootOf tree).kindAt tokenLen path = some ptr.kind))
        (coveringElement κ tree ptr.range) := by
  obtain ⟨⟨offset, element⟩, found, -⟩ := covers
  unfold tryToNode startNode
  rw [found]
  generalize coveringElement κ tree ptr.range = path at found
  cases element with
  | node kind children => rfl
  | token t =>
      have missed : decide ((rootOf tree).kindAt tokenLen path = some ptr.kind) = false := by
        rw [Located.kindAt, found]
        rfl
      rcases List.eq_nil_or_concat path with rfl | ⟨front, last, rfl⟩
      · simp only [if_true, Option.bind_none]
        rw [nearest, ancestors, List.find?_singleton, missed]
        rfl
      · rw [List.concat_eq_append] at missed ⊢
        simp only [List.append_eq_nil_iff, List.cons_ne_nil, and_false, if_false,
          List.dropLast_concat, Option.bind_some]
        exact (nearest_concat missed).symm

/-- The pointers to the indexed nodes of a tree differ, and each leads back to its node. -/
structure RoundTrips (coveringElement : CoveringElement) (rules : Rules κ) (tree : SourceTree κ) :
    Prop where
  distinct : ∀ one ∈ indexedNodes rules tree, ∀ other ∈ indexedNodes rules tree,
    nodePtr tree one.2 = nodePtr tree other.2 → one = other
  returned : ∀ node ∈ indexedNodes rules tree,
    (nodePtr tree node.2).bind (tryToNode tree coveringElement) = some node.2

/-- No node of its kind below a node has its range, if that is not empty. For an empty range, the
covering element at its offset is the node or below it, with no node of its kind between the two. -/
structure Recoverable (coveringElement : CoveringElement) (tree : SourceTree κ) (node : κ × Path) :
    Prop where
  filled : ∀ element, (rootOf tree).elementAt tokenLen node.2 = some element →
    (element.range tokenLen).start < (element.range tokenLen).stop →
      ∀ other below, node.2 <+: other → other ≠ node.2 →
        (rootOf tree).elementAt tokenLen other = some below →
          below.range tokenLen = element.range tokenLen → below.tree.nodeKind ≠ some node.1
  empty : ∀ element, (rootOf tree).elementAt tokenLen node.2 = some element →
    (element.range tokenLen).start = (element.range tokenLen).stop →
      node.2 <+: coveringElement κ tree (element.range tokenLen) ∧
        ∀ other, node.2 <+: other → other <+: coveringElement κ tree (element.range tokenLen) →
          other ≠ node.2 → (rootOf tree).kindAt tokenLen other ≠ some node.1

/-- A node is found again from its pointer just if it is recoverable. -/
theorem returned_iff {coveringElement : CoveringElement} (documented : Documented coveringElement)
    {tree : SourceTree κ} {node : κ × Path} (isNode : IsNode tree node) :
    (nodePtr tree node.2).bind (tryToNode tree coveringElement) = some node.2 ↔
      Recoverable coveringElement tree node := by
  obtain ⟨element, found, kinds, ptr⟩ := nodePtr_eq isNode
  have inside := elementAt_contains found
  have covers := documented.covers tree (element.range tokenLen) inside
  rw [ptr, Option.bind_some, tryToNode_eq ⟨element.range tokenLen, node.1⟩ covers]
  by_cases filled : (element.range tokenLen).start < (element.range tokenLen).stop
  · rw [nearest_covering_iff filled covers found kinds]
    constructor
    · intro alone
      refine ⟨?_, ?_⟩
      · intro element' found' _
        obtain rfl := Option.some.inj (found.symm.trans found')
        exact alone
      · intro element' found' empty
        obtain rfl := Option.some.inj (found.symm.trans found')
        exact absurd empty (Nat.ne_of_lt filled)
    · intro recoverable
      exact recoverable.filled element found filled
  · rw [nearest_eq_some_iff]
    constructor
    · intro ⟨above, _, others⟩
      refine ⟨?_, ?_⟩
      · intro element' found' filled'
        obtain rfl := Option.some.inj (found.symm.trans found')
        exact absurd filled' filled
      · intro element' found' _
        obtain rfl := Option.some.inj (found.symm.trans found')
        exact ⟨above, fun other under over_ differs =>
          of_decide_eq_false (others other under over_ differs)⟩
    · intro recoverable
      have empty : (element.range tokenLen).start = (element.range tokenLen).stop :=
        Nat.le_antisymm (element.range tokenLen).ordered (Nat.not_lt.mp filled)
      obtain ⟨above, others⟩ := recoverable.empty element found empty
      exact ⟨above, decide_eq_true isNode, fun other under over_ differs =>
        decide_eq_false (others other under over_ differs)⟩

/-- Pointers that lead back to their nodes are the pointers of different nodes. -/
theorem roundTrips_rules {coveringElement : CoveringElement} (documented : Documented coveringElement)
    (rules : Rules κ) (tree : SourceTree κ) :
    RoundTrips coveringElement rules tree ↔
      ∀ node ∈ indexedNodes rules tree, Recoverable coveringElement tree node := by
  constructor
  · intro trips node indexed
    exact (returned_iff documented (isNode_of_indexed indexed)).mp (trips.returned node indexed)
  · intro all
    have back (node : κ × Path) (indexed : node ∈ indexedNodes rules tree) :=
      (returned_iff documented (isNode_of_indexed indexed)).mpr (all node indexed)
    refine ⟨?_, back⟩
    intro one member other member' same
    have paths : one.2 = other.2 := by
      have first := back one member
      rw [same, back other member'] at first
      exact (Option.some.inj first).symm
    have kind : (rootOf tree).kindAt tokenLen one.2 = some one.1 := isNode_of_indexed member
    have kind' : (rootOf tree).kindAt tokenLen other.2 = some other.1 := isNode_of_indexed member'
    rw [paths, kind'] at kind
    exact Prod.ext (Option.some.inj kind).symm paths

/-- For every tree of either language, the pointers to the indexed nodes round trip just if every one of
these is recoverable. -/
theorem pointers_return_iff (coveringElement : CoveringElement) (documented : Documented coveringElement) :
    (∀ tree : SourceTree JavaSyntax.SyntaxKind, RoundTrips coveringElement Java.skeleton tree ↔
      ∀ node ∈ indexedNodes Java.skeleton tree, Recoverable coveringElement tree node) ∧
    (∀ tree : SourceTree KotlinSyntax.SyntaxKind, RoundTrips coveringElement Kotlin.skeleton tree ↔
      ∀ node ∈ indexedNodes Kotlin.skeleton tree, Recoverable coveringElement tree node) :=
  ⟨roundTrips_rules documented Java.skeleton, roundTrips_rules documented Kotlin.skeleton⟩

/-! ### A search for the covering element -/

mutual

/-- The way to the deepest element that contains a range, to the last child that does where there are
several. -/
def deepest (κ : Type) (range : TextRange) (offset : Nat) : SourceTree κ → Path
  | .token _ => []
  | .node _ children => (deepestOf κ range offset 0 children).getD []

def deepestOf (κ : Type) (range : TextRange) (offset i : Nat) : List (SourceTree κ) → Option Path
  | [] => none
  | tree :: trees =>
    match deepestOf κ range (offset + textLen tokenLen tree) (i + 1) trees with
    | some path => some path
    | none =>
      if (Located.range tokenLen ⟨offset, tree⟩).Contains range then
        some (i :: deepest κ range offset tree)
      else none

end

def lastDeepest : CoveringElement := fun κ tree range => deepest κ range 0 tree

omit [DecidableEq κ] in
mutual

theorem covers_deepest {range : TextRange} {offset : Nat} : (tree : SourceTree κ) →
    (Located.range tokenLen ⟨offset, tree⟩).Contains range →
      Covers tokenLen ⟨offset, tree⟩ range (deepest κ range offset tree)
  | .token t, contains => ⟨⟨offset, .token t⟩, rfl, contains, nofun⟩
  | .node kind children, contains => by
      rw [deepest]
      have below := covers_deepestOf range offset 0 children
      cases found : deepestOf κ range offset 0 children with
      | none =>
          rw [found] at below
          exact ⟨⟨offset, .node kind children⟩, rfl, contains, below⟩
      | some path =>
          rw [found] at below
          obtain ⟨j, child, rest, rfl, here, element, found', covers⟩ := below
          refine ⟨element, ?_, covers⟩
          have first : (⟨offset, .node kind children⟩ : Located κ (κ × List Char)).child tokenLen j =
              some child := here
          rw [Option.getD_some, Nat.zero_add, Located.elementAt, first]
          exact found'

theorem covers_deepestOf (range : TextRange) (offset i : Nat) :
    (trees : List (SourceTree κ)) → match deepestOf κ range offset i trees with
    | none => ∀ j below, childFrom tokenLen offset trees j = some below →
        ¬ (below.range tokenLen).Contains range
    | some path => ∃ j child rest, path = (i + j) :: rest ∧
        childFrom tokenLen offset trees j = some child ∧ Covers tokenLen child range rest
  | [] => by
      intro j below found
      simp [childFrom] at found
  | tree :: trees => by
      have later := covers_deepestOf range (offset + textLen tokenLen tree) (i + 1) trees
      rw [deepestOf]
      cases found : deepestOf κ range (offset + textLen tokenLen tree) (i + 1) trees with
      | some path =>
          rw [found] at later
          obtain ⟨j, child, rest, same, here, covers⟩ := later
          exact ⟨j + 1, child, rest, by rw [same, Nat.add_right_comm, Nat.add_assoc], here, covers⟩
      | none =>
          rw [found] at later
          by_cases contains : (Located.range tokenLen ⟨offset, tree⟩).Contains range
          · simp only [if_pos contains]
            exact ⟨0, ⟨offset, tree⟩, _, rfl, rfl, covers_deepest tree contains⟩
          · simp only [if_neg contains]
            intro j below here
            cases j with
            | zero =>
                obtain rfl := Option.some.inj here
                exact contains
            | succ j => exact later j below here

end

theorem lastDeepest_documented : Documented lastDeepest where
  covers _ _ contains := covers_deepest _ contains

/-- The file `package a`. -/
def packageTree : SourceTree KotlinSyntax.SyntaxKind :=
  .node .root [.node .packageHeader [.token (.packageKw, "package".toList),
    .token (.whitespace, [' ']), .node .qualifiedName [.token (.identifier, ['a'])]],
    .node .importList []]

/-- The header of the package and its name are recoverable: both lead back to themselves. -/
theorem package_recoverable : Recoverable lastDeepest packageTree (.packageHeader, [0]) ∧
    Recoverable lastDeepest packageTree (.qualifiedName, [0, 2]) := by
  have indexed : indexedNodes Kotlin.skeleton packageTree =
      [(.packageHeader, [0]), (.qualifiedName, [0, 2])] := by
    rw [packageTree, indexedNodes, build_eq]
    rfl
  have recoverable : ∀ node ∈ indexedNodes Kotlin.skeleton packageTree,
      Recoverable lastDeepest packageTree node := by
    refine ((pointers_return_iff lastDeepest lastDeepest_documented).2 packageTree).mp ⟨?_, ?_⟩
    · rw [indexed]
      decide
    · rw [indexed]
      decide
  rw [indexed] at recoverable
  exact ⟨recoverable _ List.mem_cons_self, recoverable _ (by simp)⟩

/-! ### Two empty nodes at one place -/

open KotlinParser KotlinSyntax in
/-- The tokens of `fun<`. -/
def openTypeParameters : List Token :=
  [⟨.funKw, ['f', 'u', 'n'], 0⟩, ⟨.less, ['<'], 3⟩, ⟨.eof, [], 4⟩]

def missing : SourceTree KotlinSyntax.SyntaxKind := .node .missing []

/-- Its tree: the name of the type parameter, the `>`, the name of the function and the parameter list
are missing. -/
def openTypeParametersTree : SourceTree KotlinSyntax.SyntaxKind :=
  .node .root [.node .importList [],
    .node .functionDecl [.token (.funKw, ['f', 'u', 'n']),
      .node .typeParameters [.token (.less, ['<']), .node .typeParameter [missing], missing],
      missing,
      .node .valueParameters [missing, .node .valueParameter [missing, missing, .node .typeNode []],
        missing]]]

open KotlinParser in
theorem openTypeParameters_runs :
    (match root.run machine 12 (Parser.new openTypeParameters) with
      | .done _ parser => Sink.finish openTypeParameters parser.events
      | _ => none) = some openTypeParametersTree := by
  decide +kernel

open KotlinParser Imperative in
theorem openTypeParameters_parses : Parses root openTypeParameters openTypeParametersTree := by
  have computed := openTypeParameters_runs
  cases ran : root.run machine 12 (Parser.new openTypeParameters) with
  | done u parser =>
      rw [ran] at computed
      exact ⟨parser, ⟨12, ran⟩, computed⟩
  | panic e =>
      rw [ran] at computed
      cases computed
  | running =>
      rw [ran] at computed
      cases computed

open KotlinParser in
/-- The type parameter and the value parameters of `fun<` are empty and stand at the same offset beside
each other: no element covers the offset inside both. -/
theorem open_type_parameter_confused :
    Parses root openTypeParameters openTypeParametersTree ∧
      ∀ coveringElement : CoveringElement,
        ¬ RoundTrips coveringElement Kotlin.skeleton openTypeParametersTree := by
  refine ⟨openTypeParameters_parses, fun coveringElement trips => ?_⟩
  have indexed : indexedNodes Kotlin.skeleton openTypeParametersTree =
      [(.functionDecl, [1]), (.typeParameters, [1, 1]), (.typeParameter, [1, 1, 1]),
        (.valueParameters, [1, 3]), (.valueParameter, [1, 3, 1]), (.typeNode, [1, 3, 1, 2])] := by
    rw [openTypeParametersTree, indexedNodes, build_eq]
    rfl
  let empty : TextRange := ⟨4, 4, Nat.le_refl 4⟩
  -- a node with the empty range leads back to itself only from an element inside it
  have inside (node : KotlinSyntax.SyntaxKind × Path)
      (member : node ∈ indexedNodes Kotlin.skeleton openTypeParametersTree)
      (ptr : nodePtr openTypeParametersTree node.2 = some ⟨empty, node.1⟩) :
      ∃ start, startNode openTypeParametersTree (coveringElement _ openTypeParametersTree empty) =
        some start ∧ node.2 <+: start := by
    have back := trips.returned node member
    rw [ptr, Option.bind_some, tryToNode] at back
    obtain ⟨start, found, near⟩ := Option.bind_eq_some_iff.mp back
    exact ⟨start, found, ((nearest_eq_some_iff _ _ _).mp near).1⟩
  obtain ⟨start, found, first⟩ := inside (.typeParameter, [1, 1, 1]) (by rw [indexed]; decide)
    (by rfl)
  obtain ⟨start', found', second⟩ := inside (.valueParameters, [1, 3]) (by rw [indexed]; decide)
    (by rfl)
  obtain rfl := Option.some.inj (found.symm.trans found')
  obtain ⟨rest, rfl⟩ := first
  obtain ⟨rest', same⟩ := second
  cases same

end CaffeineLs.HirExpand
