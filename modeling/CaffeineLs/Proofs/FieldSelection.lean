/-
Module: CaffeineLs.Proofs.FieldSelection
Purpose: When the field that is selected is one that no subtype of its class hides.
Trusted boundary: none
Main exports: Shape, FieldTable.parents, pickField_respects_hiding_iff
-/
import CaffeineLs.HirTy.FieldSelection

namespace CaffeineLs.HirTy

open HirExpand StackSearch

/-! ### Classes without their type arguments -/

/-- A type as far as its supertypes and its fields go. -/
inductive Shape where
  | class_ (key : ClassKey)
  | array
  | other
deriving DecidableEq

def Ty.shape : Ty → Shape
  | .reference name _ loc => .class_ (.ofRef name loc)
  | .array _ => .array
  | _ => .other

namespace FieldTable

variable (table : FieldTable)

/-- The direct supertypes of a class or of an array type. -/
def parents : Shape → List Shape
  | .class_ key =>
      match table.classOf key with
      | none => []
      | some c =>
          let out := c.supers.map fun s => Shape.class_ s.key
          if c.isInterface ∧ Shape.class_ objectKey ∉ out then out ++ [.class_ objectKey] else out
  | .array => [.class_ objectKey, .class_ (.named cloneableName), .class_ (.named serializableName)]
  | .other => []

def shapeRank : Shape → Nat
  | .class_ key => table.rank key
  | .array =>
      table.rank objectKey + table.rank (.named cloneableName) +
        table.rank (.named serializableName) + 1
  | .other => 0

theorem parents_acyclic (s : Shape) : ∀ p ∈ table.parents s, table.shapeRank p < table.shapeRank s := by
  intro p member
  cases s with
  | other => exact absurd member List.not_mem_nil
  | array =>
      simp only [parents, List.mem_cons, List.not_mem_nil, or_false] at member
      rcases member with rfl | rfl | rfl <;> (simp only [shapeRank]; omega)
  | class_ key =>
      rw [parents] at member
      cases known : table.classOf key with
      | none =>
          rw [known] at member
          exact absurd member List.not_mem_nil
      | some c =>
          rw [known] at member
          have listed : ∀ p ∈ c.supers.map fun s => Shape.class_ s.key,
              table.shapeRank p < table.rank key := by
            intro p member
            obtain ⟨s, inside, rfl⟩ := List.mem_map.mp member
            exact table.acyclic known s inside
          dsimp only at member
          split at member
          · rename_i added
            rcases List.mem_append.mp member with inside | isObject
            · exact listed p inside
            · rw [List.mem_singleton.mp isObject]
              exact table.belowObject known added.1
          · exact listed p member

theorem object_mem_iff {key : ClassKey} {c : FieldClass} (known : table.classOf key = some c)
    (args : List Ty) :
    (Ty.object ∈ c.supers.map fun s => Ty.reference s.name (s.args args) s.loc) ↔
      Shape.class_ objectKey ∈ c.supers.map fun s => Shape.class_ s.key := by
  constructor
  · intro member
    obtain ⟨s, inside, same⟩ := List.mem_map.mp member
    refine List.mem_map.mpr ⟨s, inside, ?_⟩
    rw [Ty.object] at same
    injection same with name _ loc
    rw [SuperType.key, name, loc]
    rfl
  · intro member
    obtain ⟨s, inside, same⟩ := List.mem_map.mp member
    obtain ⟨name, loc, plain⟩ := table.plainObject known s inside (Shape.class_.inj same)
    refine List.mem_map.mpr ⟨s, inside, ?_⟩
    rw [name, loc, plain]
    rfl

/-- The supertypes of a type are those of its class. -/
theorem supertypes_shape (ty : Ty) : (table.supertypes ty).map Ty.shape = table.parents ty.shape := by
  cases ty with
  | reference name args loc =>
      rw [supertypes, Ty.shape, parents]
      cases known : table.classOf (.ofRef name loc) with
      | none => rfl
      | some c =>
          have mapped : (c.supers.map fun s => Ty.reference s.name (s.args args) s.loc).map Ty.shape =
              c.supers.map fun s => Shape.class_ s.key := by
            rw [List.map_map]
            rfl
          have same := object_mem_iff table known args
          dsimp only
          by_cases added : c.isInterface = true ∧
              Shape.class_ objectKey ∉ c.supers.map fun s => Shape.class_ s.key
          · rw [if_pos added, if_pos ⟨added.1, mt same.mp added.2⟩, List.map_append, mapped]
            rfl
          · rw [if_neg added, if_neg fun both => added ⟨both.1, mt same.mpr both.2⟩]
            exact mapped
  | array element => rfl
  | _ => rfl

theorem supertypes_are_classes {ty parent : Ty} (member : parent ∈ table.supertypes ty) :
    parent.erasure.shape = parent.shape := by
  have reference (name : Name) (args : List Ty) (loc : Option SourceClass) :
      (Ty.reference name args loc).erasure.shape = (Ty.reference name args loc).shape := rfl
  cases ty with
  | reference name args loc =>
      rw [supertypes] at member
      cases known : table.classOf (.ofRef name loc) with
      | none =>
          rw [known] at member
          exact absurd member List.not_mem_nil
      | some c =>
          rw [known] at member
          have listed : ∀ p ∈ c.supers.map fun s => Ty.reference s.name (s.args args) s.loc,
              p.erasure.shape = p.shape := by
            intro p member
            obtain ⟨s, _, rfl⟩ := List.mem_map.mp member
            exact reference ..
          dsimp only at member
          split at member
          · rcases List.mem_append.mp member with inside | isObject
            · exact listed parent inside
            · rw [List.mem_singleton.mp isObject]
              exact reference ..
          · exact listed parent member
  | array element =>
      simp only [supertypes, List.mem_cons, List.not_mem_nil, or_false] at member
      rcases member with rfl | rfl | rfl <;> exact reference ..
  | _ => exact absurd member List.not_mem_nil

theorem pushedParents_shape (entry : Ty × Bool) :
    (pushedParents table entry).map (fun e => e.1.shape) = table.parents entry.1.shape := by
  rw [← supertypes_shape, pushedParents, List.map_map]
  apply List.map_congr_left
  intro parent member
  dsimp only [Function.comp]
  split
  · exact table.supertypes_are_classes member
  · rfl

end FieldTable

/-! ### What is selected -/

section Select

variable (units : FileId → JavaUnit) (subtype : Ty → Ty → Bool) (table : FieldTable)
  (access : FieldAccess) (receiver : Ty)

/-- The class declares a field of the name that is accepted. -/
def Declares : Shape → Prop
  | .class_ key => ∃ c, table.classOf key = some c ∧ ∃ field ∈ c.fields,
      field.name = access.name ∧
        (!access.strictAccess ||
          memberAccessible units subtype field.access c.package key c.topLevel receiver
            field.isStatic access.ctx) = true
  | _ => False

/-- The supertype closure of a type: its class with all supertypes of it, what the bounds of a variable
have in theirs, and what the members of an intersection have. -/
inductive InClosure : Ty → Shape → Prop where
  | leads {ty : Ty} {s : Shape} (leads : Leads table.parents ty.shape s) : InClosure ty s
  | unbounded {scope : TypeVarScope} {lower : Option Ty} {s : Shape}
      (inObject : InClosure .object s) : InClosure (.typeVar scope [] lower) s
  | bound {scope : TypeVarScope} {bounds : List Ty} {lower : Option Ty} {bound : Ty} {s : Shape}
      (member : bound ∈ bounds) (inBound : InClosure bound s) :
      InClosure (.typeVar scope bounds lower) s
  | member {members : List Ty} {ty : Ty} {s : Shape} (member : ty ∈ members)
      (inMember : InClosure ty s) : InClosure (.intersection members) s

/-- One class is a proper subtype of another. -/
def ProperSub : Shape → Shape → Prop := Relation.TransGen fun s p => p ∈ table.parents s

/-- Nothing is selected just if no type of the closure declares an accessible field of the name, and the
class of a selected field has no proper subtype in the closure that declares one too. -/
structure RespectsHiding (result : Option FieldData) : Prop where
  none_iff : result = none ↔
    ∀ s, InClosure table receiver s → ¬ Declares units subtype table access receiver s
  unhidden : ∀ field, result = some field → ∀ s, InClosure table receiver s →
    ProperSub table s (.class_ field.owner) → ¬ Declares units subtype table access receiver s

/-- If a type of the closure declares an accessible field, so does one at or above what the walk begins
with: that is not the case where such types are behind an intersection, or behind a variable that is a
bound. -/
def WalkEnters : Prop :=
  (∃ s, InClosure table receiver s ∧ Declares units subtype table access receiver s) →
    ∃ seed ∈ fieldSeeds receiver, ∃ s, Leads table.parents seed.shape s ∧
      Declares units subtype table access receiver s

/-- A chain of direct supertypes leads from what the walk begins with, over classes that declare no
accessible field, to one that does and that has a proper subtype in the closure that does too; what is
listed behind the classes of the chain leads to no class that does. -/
def HiddenFirst : Prop :=
  ∃ t, First table.parents (Declares units subtype table access receiver)
      ((fieldSeeds receiver).map Ty.shape) t ∧
    ∃ s, InClosure table receiver s ∧ ProperSub table s t ∧
      Declares units subtype table access receiver s

variable {units subtype table access receiver}

theorem fieldAt_eq_some {entry : Ty × Bool} {field : FieldData}
    (found : fieldAt units subtype table access receiver entry = some field) :
    entry.1.shape = .class_ field.owner := by
  obtain ⟨ty, erased⟩ := entry
  have member := List.mem_of_find?_eq_some found
  cases ty with
  | reference name args loc =>
      rw [FieldTable.classFields] at member
      cases known : table.classOf (.ofRef name loc) with
      | none =>
          rw [known] at member
          exact absurd member List.not_mem_nil
      | some c =>
          rw [known] at member
          obtain ⟨_, _, rfl⟩ := List.mem_map.mp member
          rfl
  | _ => exact absurd member List.not_mem_nil

theorem fieldAt_isSome_iff (entry : Ty × Bool) :
    (fieldAt units subtype table access receiver entry).isSome ↔
      Declares units subtype table access receiver entry.1.shape := by
  obtain ⟨ty, erased⟩ := entry
  rw [fieldAt, List.find?_isSome]
  cases ty with
  | reference name args loc =>
      rw [FieldTable.classFields, Ty.shape, Declares]
      cases known : table.classOf (.ofRef name loc) with
      | none => simp
      | some c =>
          constructor
          · intro ⟨field, member, accepted⟩
            obtain ⟨decl, inside, rfl⟩ := List.mem_map.mp member
            obtain ⟨listed, named⟩ := List.mem_filter.mp inside
            exact ⟨c, rfl, decl, listed, of_decide_eq_true named, accepted⟩
          · intro ⟨c', same, decl, listed, named, accepted⟩
            obtain rfl := Option.some.inj same
            refine ⟨_, List.mem_map_of_mem (List.mem_filter.mpr ⟨listed, decide_eq_true named⟩), ?_⟩
            exact accepted
  | _ => exact ⟨fun ⟨_, member, _⟩ => absurd member List.not_mem_nil, False.elim⟩

variable (units subtype table access receiver)

/-- The walk is one over the classes. -/
theorem fields_shaped :
    Shaped Prod.fst (pushedParents table) (fieldAt units subtype table access receiver)
      table.parents (Declares units subtype table access receiver) (fun entry => entry.1.shape)
      table.shapeRank where
  children_shape := table.pushedParents_shape
  answer_iff := fieldAt_isSome_iff
  acyclic := table.parents_acyclic
  key_shape _ _ same := congrArg Ty.shape same

variable {units subtype table access receiver}

/-- What the walk reaches is in the closure. -/
theorem inClosure_of_seed {seed : Ty} (member : seed ∈ fieldSeeds receiver) {s : Shape}
    (leads : Leads table.parents seed.shape s) : InClosure table receiver s := by
  have plain {ty : Ty} (member : seed ∈ [ty]) : InClosure table ty s := by
    obtain rfl := List.mem_singleton.mp member
    exact .leads leads
  cases receiver with
  | typeVar scope bounds lower =>
      cases bounds with
      | nil => exact .unbounded (plain member)
      | cons bound rest => exact .bound member (.leads leads)
  | _ => exact plain member

/-- The walk on a receiver ends, and its result respects hiding just under the two conditions. -/
theorem walkFields_decided (units : FileId → JavaUnit) (subtype : Ty → Ty → Bool)
    (table : FieldTable) (access : FieldAccess) (receiver : Ty) :
    ∃ result cost,
      (∀ fuel, walkFields units subtype table access (fuel + cost) receiver = some result) ∧
      (RespectsHiding units subtype table access receiver result ↔
        WalkEnters units subtype table access receiver ∧
          ¬ HiddenFirst units subtype table access receiver) := by
  let nodes := (fieldSeeds receiver).map fun ty => (ty, false)
  have shapes : nodes.map (fun entry => entry.1.shape) = (fieldSeeds receiver).map Ty.shape := by
    rw [List.map_map]
    rfl
  obtain ⟨result, cost, runs, barrenNone, firstSome⟩ :=
    search_decided (fields_shaped units subtype table access receiver) nodes
  rw [shapes] at firstSome
  refine ⟨result, cost, runs, ?_⟩
  have decided : (∀ s ∈ (fieldSeeds receiver).map Ty.shape, Barren table.parents
      (Declares units subtype table access receiver) s) ∨ ∃ t, First table.parents
      (Declares units subtype table access receiver) ((fieldSeeds receiver).map Ty.shape) t :=
    barren_or_first table.parents_acyclic ((fieldSeeds receiver).map Ty.shape)
  rcases decided with barren | ⟨t, first⟩
  · have all : ∀ seed ∈ fieldSeeds receiver, Barren table.parents
        (Declares units subtype table access receiver) seed.shape := fun seed member =>
      barren _ (List.mem_map_of_mem member)
    obtain rfl : result = none := by
      apply barrenNone
      intro entry member
      obtain ⟨seed, inside, rfl⟩ := List.mem_map.mp member
      exact all seed inside
    constructor
    · intro respects
      constructor
      · intro ⟨s, inside, declares⟩
        exact absurd declares (respects.none_iff.mp rfl s inside)
      · intro ⟨t, first, _⟩
        obtain ⟨declares, s, member, leads⟩ := first.leads
        exact barren s member t leads declares
    · intro ⟨enters, _⟩
      refine ⟨⟨fun _ s inside declares => ?_, fun _ => rfl⟩, nofun⟩
      obtain ⟨seed, member, t, leads, there⟩ := enters ⟨s, inside, declares⟩
      exact all seed member t leads there
  · obtain ⟨entry, field, shape, found, rfl⟩ := firstSome t first
    have own := (fieldAt_eq_some found).symm.trans shape
    obtain ⟨declares, s, member, leads⟩ := first.leads
    obtain ⟨seed, inside, rfl⟩ := List.mem_map.mp member
    have reached := inClosure_of_seed inside leads
    constructor
    · intro respects
      refine ⟨fun _ => ⟨seed, inside, t, leads, declares⟩, ?_⟩
      intro ⟨t', first', s, inClosure, below, hides⟩
      obtain ⟨entry', field', shape', found', same⟩ := firstSome t' first'
      obtain rfl := Option.some.inj same
      have own' := (fieldAt_eq_some found').symm.trans shape'
      rw [← own'] at below
      exact respects.unhidden field rfl s inClosure below hides
    · intro ⟨_, unhidden⟩
      refine ⟨⟨fun isNone => ?_, fun silent => absurd declares (silent t reached)⟩, ?_⟩
      · cases isNone
      intro field' same s inClosure below hides
      obtain rfl := Option.some.inj same
      rw [own] at below
      exact unhidden ⟨t, first, s, inClosure, below, hides⟩

end Select

/-- The selection on any receiver ends, and it respects hiding just if the walk enters a type that declares
the field where one does, and does not come to a hidden one first. -/
theorem pickField_respects_hiding_iff (units : FileId → JavaUnit) (subtype : Ty → Ty → Bool)
    (table : FieldTable) (access : FieldAccess) (receiver : Ty) (next : Nat) :
    let captured := (captureConversion table.declaredTypeParams receiver next).1.flexibleLower
    ∃ result cost,
      (∀ fuel, (pickFieldImpl units subtype table access (fuel + cost) receiver next).1 =
        some result) ∧
      (RespectsHiding units subtype table access captured result ↔
        WalkEnters units subtype table access captured ∧
          ¬ HiddenFirst units subtype table access captured) :=
  walkFields_decided units subtype table access _

/-! ### An intersection -/

def emptyUnit : JavaUnit where
  package := none
  tree :=
    { imports := []
      top := []
      localTypes := []
      parent := []
      items := []
      height := fun _ => 0
      bodyDeeper := fun _ _ member => by cases member
      localDeeper := fun _ member => absurd member List.not_mem_nil }
  depth := fun _ => 0
  nested := fun _ _ around => by cases around
  undotted := fun _ _ named => by cases named
  packageNamed := nofun

/-- The class `A` with a public field `x`. -/
def fieldOfA : FieldClass where
  generic := false
  isInterface := false
  supers := []
  file := none
  package := none
  topLevel := none
  fields := [⟨⟨['x']⟩, none, fun _ => .object, none, false, .public, false⟩]

def tableOfA : FieldTable where
  classOf key := if key = .named ⟨['A']⟩ then some fieldOfA else none
  declaredTypeParams _ := []
  rank _ := 0
  acyclic := by
    intro key c known s member
    split at known
    · obtain rfl := Option.some.inj known
      exact absurd member List.not_mem_nil
    · cases known
  belowObject := by
    intro key c known isInterface
    split at known
    · obtain rfl := Option.some.inj known
      cases isInterface
    · cases known
  plainObject := by
    intro key c known s member
    split at known
    · obtain rfl := Option.some.inj known
      exact absurd member List.not_mem_nil
    · cases known

/-- An access of `x`. -/
def accessOfX : FieldAccess := ⟨⟨['x']⟩, ⟨.instanceReceiver, none, none, none⟩, true⟩

/-- `A & B` -/
def intersectionOfA : Ty :=
  .intersection [.reference ⟨['A']⟩ [] none, .reference ⟨['B']⟩ [] none]

/-- The field of a member of an intersection is not found. -/
theorem intersection_field_missed :
    ¬ ∀ (units : FileId → JavaUnit) (subtype : Ty → Ty → Bool) (table : FieldTable)
        (access : FieldAccess) (receiver : Ty) (next : Nat),
      let captured := (captureConversion table.declaredTypeParams receiver next).1.flexibleLower
      ∃ result cost,
        (∀ fuel, (pickFieldImpl units subtype table access (fuel + cost) receiver next).1 =
          some result) ∧
        RespectsHiding units subtype table access captured result := by
  intro claim
  obtain ⟨result, cost, runs, respects⟩ :=
    claim (fun _ => emptyUnit) (fun _ _ => false) tableOfA accessOfX intersectionOfA 0
  have missed (fuel : Nat) : walkFields (fun _ => emptyUnit) (fun _ _ => false) tableOfA accessOfX
      (fuel + 2) intersectionOfA = some none := by
    have silent : fieldAt (fun _ => emptyUnit) (fun _ _ => false) tableOfA accessOfX intersectionOfA
        (intersectionOfA, false) = none := rfl
    have noParents : pushedParents tableOfA (intersectionOfA, false) = [] := rfl
    have seeds : ((fieldSeeds intersectionOfA).map fun ty => (ty, false)).reverse =
        [(intersectionOfA, false)] := rfl
    rw [walkFields, seeds, search, if_neg List.not_mem_nil, silent]
    dsimp only
    rw [noParents, List.reverse_nil, List.nil_append, search]
  have ran := runs 2
  rw [Nat.add_comm] at ran
  obtain rfl := Option.some.inj (ran.symm.trans (missed cost))
  have inClosure : InClosure tableOfA intersectionOfA (.class_ (.named ⟨['A']⟩)) :=
    .member List.mem_cons_self (.leads .refl)
  exact respects.none_iff.mp rfl _ inClosure ⟨fieldOfA, rfl, _, List.mem_cons_self, rfl, rfl⟩

end CaffeineLs.HirTy
