/-
Module: CaffeineLs.Lib.SkeletonWalk
Purpose: Pre-order walks that index the skeleton of a tree and pass a flag down into its bodies: when what
  is indexed depends on the skeleton alone.
Trusted boundary: none
Main exports: Forest, Rules, build
-/
import Mathlib.Data.List.Basic
import Mathlib.Algebra.GroupWithZero.Nat

namespace SkeletonWalk

/-- The siblings from a node on: its kind, its children, and the siblings after it. -/
inductive Forest (K : Type) where
  | nil
  | node (kind : K) (children rest : Forest K)
deriving DecidableEq, Repr

namespace Forest

variable {K : Type}

def toList : Forest K → List (K × Forest K)
  | nil => []
  | node kind children rest => (kind, children) :: rest.toList

def append : Forest K → Forest K → Forest K
  | nil, other => other
  | node kind children rest, other => node kind children (rest.append other)

/-- The nodes, in pre-order. -/
def nodes : Forest K → List K
  | nil => []
  | node kind children rest => kind :: (children.nodes ++ rest.nodes)

/-- The forest with another name for every node. -/
def map {L : Type} (f : K → L) : Forest K → Forest L
  | nil => nil
  | node kind children rest => node (f kind) (children.map f) (rest.map f)

/-- The number of nodes. -/
def size : Forest K → Nat
  | nil => 0
  | node _ children rest => children.size + rest.size + 1

end Forest

/-- The rules of a walk. `plan kind parent body child` is the flag under which a node of the kind, itself
visited under `body`, has a child of that kind visited, if it has it visited. -/
structure Rules (K : Type) where
  isIndexable : K → Bool
  anchorsInBody : K → Bool
  plan : K → Option K → Bool → K → Option Bool

section Walk

variable {K : Type} (rules : Rules K)

namespace Rules

/-- Whether a node visited under the flag is indexed. -/
def indexes (body : Bool) (kind : K) : Bool :=
  (!body || rules.anchorsInBody kind) && rules.isIndexable kind

/-- The node itself, if it is indexed. -/
def own (body : Bool) (kind : K) : List K :=
  if rules.indexes body kind = true then [kind] else []

end Rules

/-- A node that is still to be visited: its kind and children, its parent's kind, and its flag. -/
structure Entry (K : Type) where
  kind : K
  children : Forest K
  parent : Option K
  body : Bool

/-- The children of a node that are to be visited. -/
def planned (entry : Entry K) : List (Entry K) :=
  entry.children.toList.filterMap fun (child, below) =>
    (rules.plan entry.kind entry.parent entry.body child).map fun inBody =>
      ⟨child, below, some entry.kind, inBody⟩

/-- The nodes on the stack and below them. -/
def weight (stack : List (Entry K)) : Nat :=
  (stack.map fun entry => entry.children.size + 1).sum

theorem weight_planned (entry : Entry K) : weight (planned rules entry) ≤ entry.children.size := by
  obtain ⟨kind, children, parent, body⟩ := entry
  simp only [planned]
  induction children with
  | nil => simp [Forest.toList, weight]
  | node child below rest _ ih =>
      cases flag : rules.plan kind parent body child with
      | none =>
          simp only [Forest.toList, List.filterMap_cons, flag, Option.map_none, Forest.size]
          omega
      | some inBody =>
          simp only [Forest.toList, List.filterMap_cons, flag, Option.map_some, Forest.size, weight,
            List.map_cons, List.sum_cons]
          simp only [weight] at ih
          omega

/-- The walk with its stack: what it indexes, in order. -/
def build : List (Entry K) → List K
  | [] => []
  | entry :: stack => rules.own entry.body entry.kind ++ build (planned rules entry ++ stack)
termination_by stack => weight stack
decreasing_by
  have fewer := weight_planned rules entry
  simp only [weight, List.map_append, List.sum_append, List.map_cons, List.sum_cons] at fewer ⊢
  omega

/-- The walk by recursion: what is indexed of the children of a node and below them. -/
def visit (kind : K) (parent : Option K) (body : Bool) : Forest K → List K
  | .nil => []
  | .node child below rest =>
      (match rules.plan kind parent body child with
        | none => []
        | some inBody => rules.own inBody child ++ visit child (some kind) inBody below) ++
      visit kind parent body rest

/-- What is indexed of the nodes on the stack. -/
def visitStack (stack : List (Entry K)) : List K :=
  stack.flatMap fun entry =>
    rules.own entry.body entry.kind ++ visit rules entry.kind entry.parent entry.body entry.children

theorem visitStack_planned (entry : Entry K) :
    visitStack rules (planned rules entry) =
      visit rules entry.kind entry.parent entry.body entry.children := by
  obtain ⟨kind, children, parent, body⟩ := entry
  simp only [planned]
  induction children with
  | nil => rfl
  | node child below rest _ ih =>
      simp only [visitStack] at ih
      cases flag : rules.plan kind parent body child with
      | none => simp [Forest.toList, visitStack, visit, flag, ih]
      | some inBody => simp [Forest.toList, visitStack, visit, flag, ih]

/-- The loop does what the recursion does. -/
theorem build_eq (stack : List (Entry K)) : build rules stack = visitStack rules stack := by
  induction stack using build.induct rules with
  | case1 => simp [build, visitStack]
  | case2 entry stack ih =>
      have here := visitStack_planned rules entry
      rw [build, ih]
      simp only [visitStack, List.flatMap_append, List.flatMap_cons] at here ⊢
      rw [here, List.append_assoc]

/-- What is indexed are nodes of the forest. -/
theorem mem_nodes_of_mem_visit {kind k : K} {parent : Option K} {body : Bool} {forest : Forest K}
    (indexed : k ∈ visit rules kind parent body forest) : k ∈ forest.nodes := by
  induction forest generalizing kind parent body with
  | nil => cases indexed
  | node child below rest ihBelow ihRest =>
      rw [Forest.nodes, List.mem_cons, List.mem_append]
      rw [visit, List.mem_append] at indexed
      rcases indexed with here | later
      · split at here
        · cases here
        · rw [List.mem_append] at here
          rcases here with own | under
          · unfold Rules.own at own
            split at own
            · exact .inl (List.mem_singleton.mp own)
            · cases own
          · exact .inr (.inl (ihBelow under))
      · exact .inr (.inr (ihRest later))

end Walk

/-! ### What a skeleton is -/

/-- Where a child stands. What is dropped does not matter at all. -/
inductive Region where
  | skeleton | body | dropped
deriving DecidableEq, Repr

/-- Which children of a node are skeleton, and which nodes are declarations wherever they stand:
`region kind parent child` and `isLocal parent child`. -/
structure Regions (K : Type) where
  region : K → Option K → K → Region
  isLocal : K → K → Bool

section Skeleton

variable {K : Type} (rules : Rules K) (regions : Regions K)

/-- Whether a child is body content, below a node that is or is not. -/
def Regions.within (inBody : Bool) (kind : K) (parent : Option K) (child : K) : Bool :=
  (inBody || regions.region kind parent child = .body) && !regions.isLocal kind child

/-- What is left without body content: its declarations stand where it stood, and are marked. -/
def strip (inBody : Bool) (kind : K) (parent : Option K) : Forest K → Forest (K × Bool)
  | .nil => .nil
  | .node child below rest =>
      if regions.region kind parent child = .dropped then strip inBody kind parent rest
      else if regions.within inBody kind parent child = true then
        (strip true child (some kind) below).append (strip inBody kind parent rest)
      else
        .node (child, regions.isLocal kind child) (strip false child (some kind) below)
          (strip inBody kind parent rest)

/-- No body content is indexed. -/
def Clean (inBody : Bool) (kind : K) (parent : Option K) (body : Bool) : Forest K → Prop
  | .nil => True
  | .node child below rest =>
      (match rules.plan kind parent body child with
        | none => True
        | some flag =>
            (regions.within inBody kind parent child = true → rules.indexes flag child = false) ∧
              Clean (regions.within inBody kind parent child) child (some kind) flag below) ∧
      Clean inBody kind parent body rest

/-- The rules visit all that is not dropped, and treat a declaration as skeleton wherever it stands. -/
structure Agrees : Prop where
  dropped : ∀ kind parent body child,
    rules.plan kind parent body child = none ↔ regions.region kind parent child = .dropped
  indexes : ∀ kind parent body child flag, regions.isLocal kind child = true →
    rules.plan kind parent body child = some flag →
    rules.indexes flag child = rules.indexes false child
  plan : ∀ kind parent body child flag, regions.isLocal kind child = true →
    rules.plan kind parent body child = some flag →
    ∀ above below, rules.plan child above flag below = rules.plan child none false below

/-- What is indexed, with whether it is body content. -/
def marks (inBody : Bool) (kind : K) (parent : Option K) (body : Bool) :
    Forest K → List (K × Bool)
  | .nil => []
  | .node child below rest =>
      (match rules.plan kind parent body child with
        | none => []
        | some flag =>
            (rules.own flag child).map (·, regions.within inBody kind parent child) ++
              marks (regions.within inBody kind parent child) child (some kind) flag below) ++
      marks inBody kind parent body rest

/-- What is indexed and is not body content. -/
def kept (inBody : Bool) (kind : K) (parent : Option K) (body : Bool) (forest : Forest K) : List K :=
  ((marks rules regions inBody kind parent body forest).filter fun mark => !mark.2).map Prod.fst

/-- The walk over what is left without body content. -/
def walkParts (kind : K) (parent : Option K) (body : Bool) : Forest (K × Bool) → List K
  | .nil => []
  | .node (child, isLocal) below rest =>
      (if isLocal = true then rules.own false child ++ walkParts child none false below
        else match rules.plan kind parent body child with
          | none => []
          | some flag => rules.own flag child ++ walkParts child (some kind) flag below) ++
      walkParts kind parent body rest

variable {rules regions}

theorem map_fst_marks (inBody : Bool) (kind : K) (parent : Option K) (body : Bool)
    (forest : Forest K) :
    (marks rules regions inBody kind parent body forest).map Prod.fst =
      visit rules kind parent body forest := by
  induction forest generalizing inBody kind parent body with
  | nil => rfl
  | node child below rest ihBelow ihRest =>
      cases flag : rules.plan kind parent body child with
      | none => simp [marks, visit, flag, ihRest]
      | some inner =>
          have same : (Prod.fst ∘ fun x : K => (x, regions.within inBody kind parent child)) = id :=
            rfl
          simp [marks, visit, flag, ihBelow, ihRest, same]

/-- A forest is clean exactly when nothing indexed is body content. -/
theorem clean_iff (inBody : Bool) (kind : K) (parent : Option K) (body : Bool) (forest : Forest K) :
    Clean rules regions inBody kind parent body forest ↔
      ∀ mark ∈ marks rules regions inBody kind parent body forest, mark.2 = false := by
  induction forest generalizing inBody kind parent body with
  | nil => simp [Clean, marks]
  | node child below rest ihBelow ihRest =>
      cases flag : rules.plan kind parent body child with
      | none => simp [Clean, marks, flag, ihRest]
      | some inner =>
          simp only [Clean, marks, flag, ihBelow, ihRest, List.mem_append, or_imp, forall_and]
          by_cases content : regions.within inBody kind parent child = true
          · by_cases indexed : rules.indexes inner child = true <;>
              simp [content, indexed, Rules.own]
          · simp [Bool.eq_false_iff.mpr content]

instance (inBody : Bool) (kind : K) (parent : Option K) (body : Bool) (forest : Forest K) :
    Decidable (Clean rules regions inBody kind parent body forest) :=
  decidable_of_iff _ (clean_iff inBody kind parent body forest).symm

theorem kept_node {inBody : Bool} {kind : K} {parent : Option K} {body : Bool} {child : K}
    {flag : Bool} (planned : rules.plan kind parent body child = some flag) (below rest : Forest K) :
    kept rules regions inBody kind parent body (.node child below rest) =
      (if regions.within inBody kind parent child = true then [] else rules.own flag child) ++
        kept rules regions (regions.within inBody kind parent child) child (some kind) flag below ++
        kept rules regions inBody kind parent body rest := by
  simp only [kept, marks, planned, List.filter_append, List.map_append]
  congr 2
  by_cases content : regions.within inBody kind parent child = true
  · simp [content, List.filter_map]
  · simp [Bool.eq_false_iff.mpr content, List.filter_map, Function.comp_def]

theorem walkParts_append (kind : K) (parent : Option K) (body : Bool)
    (front back : Forest (K × Bool)) :
    walkParts rules kind parent body (front.append back) =
      walkParts rules kind parent body front ++ walkParts rules kind parent body back := by
  induction front with
  | nil => rfl
  | node part below rest _ ih => simp [Forest.append, walkParts, ih]

/-- A walk depends on the parent and the flag only through the plan. -/
theorem walkParts_congr {kind : K} {parent other : Option K} {body inner : Bool}
    (same : ∀ child, rules.plan kind parent body child = rules.plan kind other inner child)
    (parts : Forest (K × Bool)) :
    walkParts rules kind parent body parts = walkParts rules kind other inner parts := by
  induction parts with
  | nil => rfl
  | node part below rest _ ih => simp only [walkParts, same, ih]

/-- What is indexed of the skeleton is a function of what is left without body content. Inside body
content the place does not matter. -/
theorem kept_eq_walkParts (agrees : Agrees rules regions) {inBody : Bool} {kind place : K}
    {parent above : Option K} {body around : Bool}
    (here : inBody = false → place = kind ∧ above = parent ∧ around = body) (forest : Forest K) :
    kept rules regions inBody kind parent body forest =
      walkParts rules place above around (strip regions inBody kind parent forest) := by
  induction forest generalizing inBody kind place parent above body around with
  | nil => rfl
  | node child below rest ihBelow ihRest =>
      cases planned : rules.plan kind parent body child with
      | none =>
          have dropped := (agrees.dropped kind parent body child).mp planned
          rw [strip, if_pos dropped, ← ihRest here]
          simp [kept, marks, planned]
      | some flag =>
          have visited : regions.region kind parent child ≠ .dropped := fun dropped => by
            rw [(agrees.dropped kind parent body child).mpr dropped] at planned
            cases planned
          rw [kept_node planned, strip, if_neg visited]
          by_cases content : regions.within inBody kind parent child = true
          · rw [if_pos content, if_pos content, walkParts_append, List.nil_append, ← ihRest here,
              content]
            have inside : kept rules regions true child (some kind) flag below =
                walkParts rules place above around (strip regions true child (some kind) below) :=
              ihBelow (by simp)
            rw [inside]
          · rw [if_neg content, if_neg content, Bool.eq_false_iff.mpr content, walkParts,
              ← ihRest here]
            have inside : kept rules regions false child (some kind) flag below =
                walkParts rules child (some kind) flag (strip regions false child (some kind) below) :=
              ihBelow fun _ => ⟨rfl, rfl, rfl⟩
            rw [inside]
            by_cases declared : regions.isLocal kind child = true
            · have same := agrees.plan kind parent body child flag declared planned (some kind)
              rw [if_pos declared, walkParts_congr same, Rules.own, Rules.own,
                agrees.indexes kind parent body child flag declared planned]
            · have skeleton : inBody = false := by
                cases inBody with
                | true => exact absurd (by simp [Regions.within, declared]) content
                | false => rfl
              obtain ⟨rfl, rfl, rfl⟩ := here skeleton
              rw [if_neg declared, planned]

/-- A clean forest has nothing but skeleton indexed. -/
theorem visit_eq_kept_iff (kind : K) (parent : Option K) (body inBody : Bool) (forest : Forest K) :
    visit rules kind parent body forest = kept rules regions inBody kind parent body forest ↔
      Clean rules regions inBody kind parent body forest := by
  have walked : (marks rules regions inBody kind parent body forest).map Prod.fst =
      visit rules kind parent body forest := map_fst_marks inBody kind parent body forest
  rw [clean_iff, ← walked, kept]
  constructor
  · intro same mark indexed
    have lengths := congrArg List.length same
    rw [List.length_map, List.length_map] at lengths
    have all := List.length_filter_eq_length_iff.mp lengths.symm mark indexed
    simpa using all
  · intro clean
    rw [List.filter_eq_self.mpr fun mark indexed => by simp [clean mark indexed]]

/-- Two forests with the same skeleton, the first one clean, have the same nodes indexed exactly when the
second one is clean. -/
theorem visit_eq_iff (agrees : Agrees rules regions) {kind : K} {parent : Option K}
    {forest edited : Forest K}
    (same : strip regions false kind parent edited = strip regions false kind parent forest)
    (clean : Clean rules regions false kind parent false forest) :
    visit rules kind parent false edited = visit rules kind parent false forest ↔
      Clean rules regions false kind parent false edited := by
  have skeleton : kept rules regions false kind parent false forest =
      kept rules regions false kind parent false edited := by
    rw [kept_eq_walkParts agrees (fun _ => ⟨rfl, rfl, rfl⟩),
      kept_eq_walkParts agrees (fun _ => ⟨rfl, rfl, rfl⟩), same]
  rw [(visit_eq_kept_iff kind parent false false forest).mpr clean, skeleton]
  exact visit_eq_kept_iff kind parent false false edited

end Skeleton

end SkeletonWalk
