/-
Module: CaffeineLs.Lib.TextTree
Purpose: Syntax trees laid over their text: the ranges of their elements, the elements that cover a range,
  and the nearest ancestor of a kind.
Trusted boundary: none
Main exports: TextRange, Path, Located
-/
import CaffeineLs.Lib.SyntaxTree

namespace TextTree

open CaffeineLs.Lib (SyntaxTree)

/-- A half-open range of offsets. -/
structure TextRange where
  start : Nat
  stop : Nat
  ordered : start ≤ stop
deriving DecidableEq

/-- `contains_range` -/
def TextRange.Contains (outer inner : TextRange) : Prop :=
  outer.start ≤ inner.start ∧ inner.stop ≤ outer.stop

instance (outer inner : TextRange) : Decidable (outer.Contains inner) :=
  inferInstanceAs (Decidable (_ ∧ _))

theorem TextRange.Contains.refl (range : TextRange) : range.Contains range :=
  ⟨Nat.le_refl _, Nat.le_refl _⟩

theorem TextRange.Contains.trans {r s t : TextRange} (first : r.Contains s) (second : s.Contains t) :
    r.Contains t :=
  ⟨Nat.le_trans first.1 second.1, Nat.le_trans second.2 first.2⟩

theorem TextRange.Contains.antisymm {r s : TextRange} (first : r.Contains s) (second : s.Contains r) :
    r = s := by
  obtain ⟨start, stop, ordered⟩ := r
  obtain ⟨start', stop', ordered'⟩ := s
  obtain rfl : start = start' := Nat.le_antisymm first.1 second.1
  obtain rfl : stop = stop' := Nat.le_antisymm second.2 first.2
  rfl

/-- The way from the root to an element: which child to take at every node. -/
abbrev Path := List Nat

section Layout

variable {κ τ : Type} (width : τ → Nat)

mutual

def textLen : SyntaxTree κ τ → Nat
  | .node _ children => textLenAll children
  | .token t => width t

def textLenAll : List (SyntaxTree κ τ) → Nat
  | [] => 0
  | tree :: trees => textLen tree + textLenAll trees

end

/-- An element of a tree and the offset it starts at. -/
structure Located (κ τ : Type) where
  offset : Nat
  tree : SyntaxTree κ τ

namespace Located

def range (element : Located κ τ) : TextRange :=
  ⟨element.offset, element.offset + textLen width element.tree, Nat.le_add_right _ _⟩

end Located

/-- The `i`-th of the elements that follow one another from an offset on. -/
def childFrom : Nat → List (SyntaxTree κ τ) → Nat → Option (Located κ τ)
  | _, [], _ => none
  | offset, tree :: _, 0 => some ⟨offset, tree⟩
  | offset, tree :: trees, i + 1 => childFrom (offset + textLen width tree) trees i

namespace Located

def child (element : Located κ τ) (i : Nat) : Option (Located κ τ) :=
  match element.tree with
  | .node _ children => childFrom width element.offset children i
  | .token _ => none

def elementAt (element : Located κ τ) : Path → Option (Located κ τ)
  | [] => some element
  | i :: path => (element.child width i).bind fun below => below.elementAt path

/-- The kind of the node at a path; a token has none. -/
def kindAt (element : Located κ τ) (path : Path) : Option κ :=
  (element.elementAt width path).bind fun below => below.tree.nodeKind

end Located

/-- A path leads to an element that contains the range and none of whose children does. -/
def Covers (root : Located κ τ) (range : TextRange) (path : Path) : Prop :=
  ∃ element, root.elementAt width path = some element ∧ (element.range width).Contains range ∧
    ∀ i below, element.child width i = some below → ¬ (below.range width).Contains range

variable {width}

/-! ### Children follow one another -/

theorem childFrom_bounds {offset : Nat} {trees : List (SyntaxTree κ τ)} {i : Nat}
    {below : Located κ τ} (found : childFrom width offset trees i = some below) :
    offset ≤ (below.range width).start ∧
      (below.range width).stop ≤ offset + textLenAll width trees := by
  induction trees generalizing offset i with
  | nil => simp [childFrom] at found
  | cons tree trees ih =>
      cases i with
      | zero =>
          obtain rfl := Option.some.inj found
          simp only [Located.range, textLenAll]
          omega
      | succ i =>
          have later := ih (show childFrom width (offset + textLen width tree) trees i = some below
            from found)
          rw [textLenAll]
          omega

theorem childFrom_ordered {offset : Nat} {trees : List (SyntaxTree κ τ)} {i j : Nat}
    {first second : Located κ τ} (found : childFrom width offset trees i = some first)
    (found' : childFrom width offset trees j = some second) (before : i < j) :
    (first.range width).stop ≤ (second.range width).start := by
  induction trees generalizing offset i j with
  | nil => simp [childFrom] at found
  | cons tree trees ih =>
      cases j with
      | zero => exact absurd before (Nat.not_lt_zero i)
      | succ j =>
          cases i with
          | zero =>
              obtain rfl := Option.some.inj found
              exact (childFrom_bounds (show childFrom width (offset + textLen width tree) trees j =
                some second from found')).1
          | succ i => exact ih found found' (Nat.lt_of_succ_lt_succ before)

theorem child_contains {element below : Located κ τ} {i : Nat}
    (found : element.child width i = some below) :
    (element.range width).Contains (below.range width) := by
  obtain ⟨offset, tree⟩ := element
  cases tree with
  | token t => cases found
  | node kind children =>
      have bounds := childFrom_bounds (show childFrom width offset children i = some below from found)
      exact ⟨bounds.1, by simpa [Located.range, textLen] using bounds.2⟩

theorem child_ordered {element first second : Located κ τ} {i j : Nat}
    (found : element.child width i = some first) (found' : element.child width j = some second)
    (before : i < j) : (first.range width).stop ≤ (second.range width).start := by
  obtain ⟨offset, tree⟩ := element
  cases tree with
  | token t => cases found
  | node kind children =>
      exact childFrom_ordered (show childFrom width offset children i = some first from found)
        (show childFrom width offset children j = some second from found') before

/-- One child alone contains a range that is not empty. -/
theorem child_unique {element first second : Located κ τ} {i j : Nat} {range : TextRange}
    (found : element.child width i = some first) (found' : element.child width j = some second)
    (contains : (first.range width).Contains range) (contains' : (second.range width).Contains range)
    (filled : range.start < range.stop) : i = j := by
  have apart {a b : Nat} {x y : Located κ τ} (here : element.child width a = some x)
      (there : element.child width b = some y) (covers : (x.range width).Contains range)
      (covers' : (y.range width).Contains range) : ¬ a < b := by
    intro before
    have ordered := child_ordered here there before
    have late := covers.2
    have early := covers'.1
    omega
  have forward := apart found found' contains contains'
  have backward := apart found' found contains' contains
  omega

/-! ### Elements at paths -/

theorem elementAt_append (root : Located κ τ) (path rest : Path) :
    root.elementAt width (path ++ rest) =
      (root.elementAt width path).bind fun element => element.elementAt width rest := by
  induction path generalizing root with
  | nil => rfl
  | cons i path ih =>
      rw [List.cons_append, Located.elementAt, Located.elementAt, Option.bind_assoc]
      congr 1
      funext below
      exact ih below

theorem elementAt_contains {root element : Located κ τ} {path : Path}
    (found : root.elementAt width path = some element) :
    (root.range width).Contains (element.range width) := by
  induction path generalizing root with
  | nil =>
      obtain rfl := Option.some.inj found
      exact .refl _
  | cons i path ih =>
      obtain ⟨below, here, rest⟩ := Option.bind_eq_some_iff.mp found
      exact (child_contains here).trans (ih rest)

/-- Of two elements that contain a range that is not empty, one stands above the other. -/
theorem comparable_of_contains {root first second : Located κ τ} {path path' : Path}
    {range : TextRange} (filled : range.start < range.stop)
    (found : root.elementAt width path = some first)
    (found' : root.elementAt width path' = some second)
    (contains : (first.range width).Contains range)
    (contains' : (second.range width).Contains range) : path <+: path' ∨ path' <+: path := by
  induction path generalizing root path' with
  | nil => exact .inl List.nil_prefix
  | cons i path ih =>
      cases path' with
      | nil => exact .inr List.nil_prefix
      | cons j path' =>
          obtain ⟨below, here, rest⟩ := Option.bind_eq_some_iff.mp found
          obtain ⟨below', there, rest'⟩ := Option.bind_eq_some_iff.mp found'
          have same : i = j := child_unique here there ((elementAt_contains rest).trans contains)
            ((elementAt_contains rest').trans contains') filled
          subst same
          rw [here] at there
          obtain rfl := Option.some.inj there
          rcases ih rest rest' with above | under
          · exact .inl (List.cons_prefix_cons.mpr ⟨rfl, above⟩)
          · exact .inr (List.cons_prefix_cons.mpr ⟨rfl, under⟩)

/-- An element with a range that is not empty stands above the one that covers the range. -/
theorem prefix_of_covers {root element : Located κ τ} {path covering : Path} {range : TextRange}
    (filled : range.start < range.stop) (covers : Covers width root range covering)
    (found : root.elementAt width path = some element)
    (contains : (element.range width).Contains range) : path <+: covering := by
  obtain ⟨deepest, found', contains', none_⟩ := covers
  rcases comparable_of_contains filled found found' contains contains' with above | under
  · exact above
  · obtain ⟨rest, rfl⟩ := under
    cases rest with
    | nil => exact (List.append_nil covering).symm ▸ List.prefix_refl _
    | cons i rest =>
        rw [elementAt_append, found', Option.bind_some] at found
        obtain ⟨below, here, deeper⟩ := Option.bind_eq_some_iff.mp found
        exact absurd ((elementAt_contains deeper).trans contains) (none_ i below here)

end Layout

/-! ### Ancestors -/

/-- `ancestors`: an element and those above it, from below. -/
def ancestors : Path → List Path
  | [] => [[]]
  | i :: path => (ancestors path).map (i :: ·) ++ [[]]

/-- The nearest of an element and its ancestors. -/
def nearest (admits : Path → Bool) (path : Path) : Option Path := (ancestors path).find? admits

theorem mem_ancestors {path above : Path} : above ∈ ancestors path ↔ above <+: path := by
  induction path generalizing above with
  | nil => simp [ancestors]
  | cons i path ih =>
      rw [ancestors, List.mem_append, List.mem_map, List.mem_singleton]
      cases above with
      | nil => simp
      | cons j above =>
          rw [List.cons_prefix_cons, ← ih]
          constructor
          · rintro (⟨rest, member, same⟩ | same)
            · obtain ⟨rfl, rfl⟩ := List.cons.inj same
              exact ⟨rfl, member⟩
            · cases same
          · intro ⟨same, member⟩
            rw [same]
            exact .inl ⟨above, member, rfl⟩

/-- The nearest is above the element, is admitted, and no other between the two is. -/
theorem nearest_eq_some_iff (admits : Path → Bool) (path found : Path) :
    nearest admits path = some found ↔
      found <+: path ∧ admits found = true ∧
        ∀ other, found <+: other → other <+: path → other ≠ found → admits other = false := by
  induction path generalizing admits found with
  | nil =>
      unfold nearest ancestors
      rw [List.find?_singleton]
      constructor
      · intro here
        split at here
        · rename_i admitted
          obtain rfl := Option.some.inj here
          refine ⟨List.nil_prefix, admitted, fun other _ below differs => ?_⟩
          exact absurd (List.prefix_nil.mp below) differs
        · cases here
      · intro ⟨above, admitted, _⟩
        obtain rfl := List.prefix_nil.mp above
        rw [if_pos admitted]
  | cons i path ih =>
      have inner := ih (fun rest => admits (i :: rest))
      have split : nearest admits (i :: path) =
          ((nearest (fun rest => admits (i :: rest)) path).map (i :: ·)).or
            (if admits [] = true then some [] else none) := by
        unfold nearest
        rw [ancestors, List.find?_append, List.find?_map, List.find?_singleton]
        rfl
      rw [split]
      cases deep : nearest (fun rest => admits (i :: rest)) path with
      | some rest =>
          obtain ⟨above, admitted, others⟩ := (inner rest).mp deep
          rw [Option.map_some, Option.some_or]
          constructor
          · intro same
            obtain rfl := Option.some.inj same
            refine ⟨List.cons_prefix_cons.mpr ⟨rfl, above⟩, admitted, ?_⟩
            intro other below over_ differs
            obtain ⟨more, rfl⟩ := below
            rw [List.cons_append] at over_ differs ⊢
            have inside := (List.cons_prefix_cons.mp over_).2
            exact others (rest ++ more) (List.prefix_append _ _) inside
              fun same => differs (by rw [same])
          · intro ⟨above', admitted', others'⟩
            cases found with
            | nil =>
                have missed := others' (i :: rest) List.nil_prefix
                  (List.cons_prefix_cons.mpr ⟨rfl, above⟩) (List.cons_ne_nil _ _)
                rw [admitted] at missed
                cases missed
            | cons j found =>
                obtain ⟨rfl, inside⟩ := List.cons_prefix_cons.mp above'
                have again := (inner found).mpr ⟨inside, admitted', fun other below over_ differs =>
                  others' (j :: other) (List.cons_prefix_cons.mpr ⟨rfl, below⟩)
                    (List.cons_prefix_cons.mpr ⟨rfl, over_⟩)
                    fun same => differs (List.cons.inj same).2⟩
                rw [deep] at again
                rw [Option.some.inj again]
      | none =>
          rw [Option.map_none, Option.none_or]
          have missed : ∀ rest, rest <+: path → admits (i :: rest) = false := by
            intro rest above
            have absent := List.find?_eq_none.mp deep rest (mem_ancestors.mpr above)
            simpa using absent
          constructor
          · intro here
            split at here
            · rename_i admitted
              obtain rfl := Option.some.inj here
              refine ⟨List.nil_prefix, admitted, fun other _ over_ differs => ?_⟩
              cases other with
              | nil => exact absurd rfl differs
              | cons j other =>
                  obtain ⟨rfl, inside⟩ := List.cons_prefix_cons.mp over_
                  exact missed other inside
            · cases here
          · intro ⟨above, admitted, _⟩
            cases found with
            | nil => rw [if_pos admitted]
            | cons j found =>
                obtain ⟨rfl, inside⟩ := List.cons_prefix_cons.mp above
                rw [missed found inside] at admitted
                cases admitted

theorem ancestors_concat (path : Path) (i : Nat) :
    ancestors (path ++ [i]) = (path ++ [i]) :: ancestors path := by
  induction path with
  | nil => rfl
  | cons j path ih =>
      rw [List.cons_append, ancestors, ih, ancestors]
      rfl

/-- An element that is not admitted leaves the search to its parent. -/
theorem nearest_concat {admits : Path → Bool} {path : Path} {i : Nat}
    (missed : admits (path ++ [i]) = false) :
    nearest admits (path ++ [i]) = nearest admits path := by
  rw [nearest, ancestors_concat, List.find?_cons_of_neg (by simp [missed]), nearest]

/-- From the element that covers the range of a node, a range that is not empty, the nearest node of its
kind is the node itself if no node of its kind below it has its range. -/
theorem nearest_covering_iff {κ τ : Type} [DecidableEq κ] {width : τ → Nat}
    {root element : Located κ τ} {path covering : Path} {kind : κ}
    (filled : (element.range width).start < (element.range width).stop)
    (covers : Covers width root (element.range width) covering)
    (found : root.elementAt width path = some element) (here : element.tree.nodeKind = some kind) :
    nearest (fun other => decide (root.kindAt width other = some kind)) covering = some path ↔
      ∀ other below, path <+: other → other ≠ path → root.elementAt width other = some below →
        below.range width = element.range width → below.tree.nodeKind ≠ some kind := by
  have above := prefix_of_covers filled covers found (.refl _)
  have own : root.kindAt width path = some kind := by
    unfold Located.kindAt
    rw [found]
    exact here
  rw [nearest_eq_some_iff]
  constructor
  · intro ⟨_, _, others⟩ other below under differs found' same
    have inside := prefix_of_covers filled covers found' (same ▸ .refl _)
    have missed := of_decide_eq_false (others other under inside differs)
    unfold Located.kindAt at missed
    rw [found', Option.bind_some] at missed
    exact missed
  · intro none_
    refine ⟨above, decide_eq_true own, fun other under inside differs => decide_eq_false ?_⟩
    intro same
    obtain ⟨below, found', kinds⟩ := Option.bind_eq_some_iff.mp same
    obtain ⟨deepest, found'', contains, -⟩ := covers
    -- between the node and the element that covers its range, every range is the node's
    have outer : (element.range width).Contains (below.range width) := by
      obtain ⟨rest, rfl⟩ := under
      rw [elementAt_append, found, Option.bind_some] at found'
      exact elementAt_contains found'
    have inner : (below.range width).Contains (deepest.range width) := by
      obtain ⟨rest, rfl⟩ := inside
      rw [elementAt_append, found', Option.bind_some] at found''
      exact elementAt_contains found''
    exact none_ other below under differs found' ((inner.trans contains).antisymm outer) kinds

end TextTree
