/-
Module: CaffeineLs.Proofs.KotlinResolution
Purpose: When the resolution of type references finishes, and which type parameters it resolves without
  bounds.
Trusted boundary: none
Main exports: Node, Leads, resolves_well_iff
-/
import CaffeineLs.HirTy.KotlinResolver

namespace CaffeineLs.HirTy.KotlinResolver

open HirExpand Recursion Relation

/-! ### What a reference writes -/

/-- The references directly inside a written one. -/
def inside : TypeRef → List TypeRef
  | .reference _ genericArgs => genericArgs
  | .wildcard (some (_, inner)) => [inner]
  | .array inner => [inner]
  | .nullable inner => [inner]
  | .definitelyNonNull inner => [inner]
  | _ => []

/-- The name that a reference writes at its head, and whether without arguments. -/
def head : TypeRef → Option (Name × Bool)
  | .reference name genericArgs => some (name, genericArgs.isEmpty)
  | .typeVariable name => some (name, true)
  | _ => none

theorem sizeOf_inside {outer inner : TypeRef} (part : inner ∈ inside outer) :
    sizeOf inner < sizeOf outer := by
  cases outer with
  | reference name genericArgs =>
      have smaller := List.sizeOf_lt_of_mem (show inner ∈ genericArgs from part)
      simp only [TypeRef.reference.sizeOf_spec]
      omega
  | wildcard bound =>
      cases bound with
      | none => cases part
      | some bound =>
          obtain ⟨kind, ty⟩ := bound
          obtain rfl := List.mem_singleton.mp part
          simp only [TypeRef.wildcard.sizeOf_spec, Option.some.sizeOf_spec, Prod.mk.sizeOf_spec]
          omega
  | array ty =>
      obtain rfl := List.mem_singleton.mp part
      simp only [TypeRef.array.sizeOf_spec]
      omega
  | nullable ty =>
      obtain rfl := List.mem_singleton.mp part
      simp only [TypeRef.nullable.sizeOf_spec]
      omega
  | definitelyNonNull ty =>
      obtain rfl := List.mem_singleton.mp part
      simp only [TypeRef.definitelyNonNull.sizeOf_spec]
      omega
  | primitive p => cases part
  | typeVariable name => cases part
  | error => cases part
  | void => cases part

/-- What a name leads the resolver to: the bounds of a parameter, or the target of an alias. -/
inductive Place where
  | bounds (param : TypeParamScope)
  | target (alias_ : ItemId) (ty : TypeRef)

section Places

variable (tree : KotlinFile)

/-- The place that the head of a reference leads to. A parameter with arguments leads nowhere. -/
def place (scope : Scope) (ty : TypeRef) : Option Place :=
  match head ty with
  | none => none
  | some (name, bare) =>
      match tree.typeParam scope name.simpleName with
      | some param => if bare then some (.bounds param) else none
      | none =>
          (tree.typeAlias scope name.simpleName).map fun (alias_, target) => .target alias_ target

/-- The references that a call resolves where its head leads. -/
def entered (call : Call) : List Call :=
  match place tree call.scope call.ty with
  | none => []
  | some (.bounds param) =>
      if param.name ∈ call.resolving then []
      else param.param.bounds.map fun bound => ⟨call.scope, call.resolving ++ [param.name], bound⟩
  | some (.target alias_ target) => [⟨some alias_, [], target⟩]

/-- The references that a call resolves on its way. -/
def calls (call : Call) : List Call :=
  (inside call.ty).map (fun part => { call with ty := part }) ++ entered tree call

end Places

/-! ### The calls are those of the resolver -/

section Asked

variable (lookup : Lookup) (tree : KotlinFile) (answer : Call → Option Ty)

theorem isSome_mapM {α β : Type} {f : α → Option β} {xs : List α} :
    (xs.mapM f).isSome ↔ ∀ x ∈ xs, (f x).isSome := by
  induction xs with
  | nil => simp
  | cons x rest ih =>
      simp only [List.mapM_cons, List.forall_mem_cons, ← ih]
      cases f x <;> cases rest.mapM f <;> simp

theorem length_of_mapM {α β : Type} {f : α → Option β} {xs : List α} {ys : List β}
    (done : xs.mapM f = some ys) : ys.length = xs.length := by
  induction xs generalizing ys with
  | nil =>
      obtain rfl : [] = ys := by simpa using done
      rfl
  | cons x rest ih =>
      simp only [List.mapM_cons, Option.pure_def, Option.bind_eq_bind, Option.bind_eq_some_iff,
        Option.some.injEq] at done
      obtain ⟨y, _, others, restDone, rfl⟩ := done
      simp [ih restDone]

/-- The head of a reference asks for the bounds or the target it leads to. -/
theorem resolveReference_isSome (call : Call) (name : Name) (args : List Ty)
    (written : head call.ty = some (name, args.isEmpty)) :
    (resolveReference lookup tree answer call.scope call.resolving name args).isSome ↔
      ∀ callee ∈ entered tree call, (answer callee).isSome := by
  simp only [resolveReference, entered, place, written]
  cases declared : tree.typeParam call.scope name.simpleName with
  | some param =>
      cases bare : args.isEmpty with
      | false => simp
      | true =>
          simp only [if_true, typeVar, Option.isSome_map, paramBounds]
          by_cases under : param.name ∈ call.resolving
          · simp [under]
          · simp [under, isSome_mapM]
  | none =>
      cases aliased : tree.typeAlias call.scope name.simpleName with
      | some found => simp [expandAlias]
      | none =>
          cases tree.localClassReference call.scope name.simpleName args with
          | some _ => simp
          | none => cases lookup.classFqn call.scope name args.length <;> simp

theorem entered_of_head_none {call : Call} (unnamed : head call.ty = none) :
    entered tree call = [] := by
  simp [entered, place, unnamed]

/-- The resolver makes exactly these calls. -/
theorem asks : Asks (tyFromTypeRef lookup tree) (calls tree) := by
  intro answer call
  simp only [calls, List.forall_mem_append, List.forall_mem_map]
  cases written : call.ty with
  | reference name genericArgs =>
      simp only [tyFromTypeRef, written, inside]
      rw [← isSome_mapM (f := fun arg => answer { call with ty := arg })]
      cases evaluated : genericArgs.mapM fun arg => answer { call with ty := arg } with
      | none => simp
      | some args =>
          have empty : genericArgs.isEmpty = args.isEmpty := by
            have length := length_of_mapM evaluated
            cases genericArgs <;> cases args <;> simp at length ⊢
          have same := resolveReference_isSome lookup tree answer call name args
            (by simp [written, head, empty])
          simpa using same
  | typeVariable name =>
      have same := resolveReference_isSome lookup tree answer call name [] (by simp [written, head])
      simpa [tyFromTypeRef, written, inside] using same
  | wildcard bound =>
      rw [entered_of_head_none tree (by simp [written, head])]
      cases bound with
      | none => simp [tyFromTypeRef, written, inside]
      | some bound => simp [tyFromTypeRef, written, inside]
  | array ty =>
      rw [entered_of_head_none tree (by simp [written, head])]
      simp [tyFromTypeRef, written, inside]
  | nullable ty =>
      rw [entered_of_head_none tree (by simp [written, head])]
      simp [tyFromTypeRef, written, inside]
  | definitelyNonNull ty =>
      rw [entered_of_head_none tree (by simp [written, head])]
      simp [tyFromTypeRef, written, inside]
  | primitive p =>
      rw [entered_of_head_none tree (by simp [written, head])]
      simp [tyFromTypeRef, written, inside]
  | error =>
      rw [entered_of_head_none tree (by simp [written, head])]
      simp [tyFromTypeRef, written, inside]
  | void =>
      rw [entered_of_head_none tree (by simp [written, head])]
      simp [tyFromTypeRef, written, inside]

end Asked

/-! ### What leads where -/

/-- The bounds of a parameter, read in a scope, or the target of an alias. -/
inductive Node where
  | bounds (scope : Scope) (param : TypeParamScope)
  | target (alias_ : ItemId)

/-- The scope that the references of a node are resolved in. -/
def Node.scope : Node → Scope
  | .bounds scope _ => scope
  | .target alias_ => some alias_

def Place.node (scope : Scope) : Place → Node
  | .bounds param => .bounds scope param
  | .target alias_ _ => .target alias_

section Graph

variable (tree : KotlinFile)

def Node.written : Node → List TypeRef
  | .bounds _ param => param.param.bounds
  | .target alias_ =>
      match tree.data alias_ with
      | .typeAlias _ _ ty => [ty]
      | _ => []

/-- The reference, or one inside it, leads to the node from the scope. -/
def Mentions (scope : Scope) (ty : TypeRef) (node : Node) : Prop :=
  ∃ part found, ReflTransGen (fun outer inner => inner ∈ inside outer) ty part ∧
    place tree scope part = some found ∧ found.node scope = node

/-- A reference of the first node leads to the second. -/
def Leads (one two : Node) : Prop := ∃ ty ∈ one.written tree, Mentions tree one.scope ty two

/-- The reference leads to the node in any number of steps. -/
def Below (scope : Scope) (ty : TypeRef) (node : Node) : Prop :=
  ∃ first, Mentions tree scope ty first ∧ ReflTransGen (Leads tree) first node

/-- The target of the first alias leads to the second, directly or not. -/
def AliasLeads (one two : ItemId) : Prop := TransGen (Leads tree) (.target one) (.target two)

/-- No type alias leads back to itself. -/
def NoAliasCycle : Prop := ∀ alias_, ¬ AliasLeads tree alias_ alias_

end Graph

variable {tree : KotlinFile}

theorem Mentions.of_part {scope : Scope} {outer inner : TypeRef} {node : Node}
    (mentions : Mentions tree scope inner node) (part : inner ∈ inside outer) :
    Mentions tree scope outer node := by
  obtain ⟨part', found, path, leads⟩ := mentions
  exact ⟨part', found, .head part path, leads⟩

theorem Mentions.of_place {scope : Scope} {ty : TypeRef} {found : Place}
    (leads : place tree scope ty = some found) : Mentions tree scope ty (found.node scope) :=
  ⟨ty, found, .refl, leads, rfl⟩

/-- What a part mentions, or what stands where the head leads to, is below the reference. -/
theorem Below.of_part {scope : Scope} {outer inner : TypeRef} {node : Node}
    (below : Below tree scope inner node) (part : inner ∈ inside outer) :
    Below tree scope outer node := by
  obtain ⟨first, mentions, path⟩ := below
  exact ⟨first, mentions.of_part part, path⟩

theorem Below.of_bound {scope : Scope} {ty bound : TypeRef} {param : TypeParamScope} {node : Node}
    (below : Below tree scope bound node) (leads : place tree scope ty = some (.bounds param))
    (listed : bound ∈ param.param.bounds) : Below tree scope ty node := by
  obtain ⟨first, mentions, path⟩ := below
  exact ⟨.bounds scope param, .of_place leads, .head ⟨bound, listed, mentions⟩ path⟩

theorem typeAlias_data {scope : Scope} {name : Name} {alias_ : ItemId} {target : TypeRef}
    (found : tree.typeAlias scope name = some (alias_, target)) :
    ∃ own params, tree.data alias_ = .typeAlias own params target := by
  unfold KotlinFile.typeAlias at found
  cases declared : tree.localDeclaration scope name with
  | none => simp [declared] at found
  | some item =>
      simp only [declared] at found
      cases written : tree.data item with
      | typeAlias own params ty =>
          simp only [written, Option.some.injEq, Prod.mk.injEq] at found
          obtain ⟨rfl, rfl⟩ := found
          exact ⟨own, params, written⟩
      | «class» _ _ _ => simp [written] at found
      | function _ _ => simp [written] at found
      | property _ _ => simp [written] at found
      | enumEntry _ _ => simp [written] at found
      | unnamed => simp [written] at found

/-- A reference leads to the target of an alias that is declared, and to a parameter that is the
innermost one of its name. -/
theorem place_target {scope : Scope} {ty target : TypeRef} {alias_ : ItemId}
    (leads : place tree scope ty = some (.target alias_ target)) :
    ∃ own params, tree.data alias_ = .typeAlias own params target := by
  unfold place at leads
  cases written : head ty with
  | none => simp [written] at leads
  | some found =>
      obtain ⟨name, bare⟩ := found
      simp only [written] at leads
      cases declared : tree.typeParam scope name.simpleName with
      | some param => cases bare <;> simp [declared] at leads
      | none =>
          simp only [declared, Option.map_eq_some_iff] at leads
          obtain ⟨⟨other, otherTarget⟩, aliased, same⟩ := leads
          cases same
          exact typeAlias_data aliased

theorem place_bounds {scope : Scope} {ty : TypeRef} {param : TypeParamScope}
    (leads : place tree scope ty = some (.bounds param)) :
    tree.typeParam scope param.name = some param := by
  unfold place at leads
  cases written : head ty with
  | none => simp [written] at leads
  | some found =>
      obtain ⟨name, bare⟩ := found
      simp only [written] at leads
      cases declared : tree.typeParam scope name.simpleName with
      | some other =>
          cases bare <;> simp only [declared, Bool.false_eq_true, if_false, if_true, reduceCtorEq,
            Option.some.injEq, Place.bounds.injEq] at leads
          subst leads
          have named := List.find?_some declared
          rw [of_decide_eq_true named]
          exact declared
      | none =>
          simp only [declared, Option.map_eq_some_iff] at leads
          obtain ⟨_, _, impossible⟩ := leads
          cases impossible

theorem typeParam_mem {scope : Scope} {name : Name} {param : TypeParamScope}
    (found : tree.typeParam scope name = some param) : param ∈ tree.typeParams scope :=
  List.mem_reverse.mp (List.mem_of_find?_eq_some found)

/-! ### Where no alias leads back, every resolution finishes -/

theorem fresh_lt {names : Finset Name} {resolving : List Name} {name : Name}
    (declared : name ∈ names) (fresh : name ∉ resolving) :
    (names.filter (· ∉ resolving ++ [name])).card < (names.filter (· ∉ resolving)).card := by
  apply Finset.card_lt_card
  rw [Finset.ssubset_iff_of_subset]
  · exact ⟨name, Finset.mem_filter.mpr ⟨declared, fresh⟩, by simp⟩
  · intro other member
    obtain ⟨listed, absent⟩ := Finset.mem_filter.mp member
    refine Finset.mem_filter.mpr ⟨listed, ?_⟩
    intro present
    exact absent (List.mem_append_left _ present)

/-- A call finishes when the targets of the aliases below it do: within its scope, each step has fewer
parameters left to enter, or a smaller reference. -/
theorem acc_of_aliases {scope : Scope} {resolving : List Name} {ty : TypeRef}
    (aliases : ∀ alias_ target, Below tree scope ty (.target alias_) →
      target ∈ (Node.target alias_).written tree →
      Acc (fun callee caller => callee ∈ calls tree caller) ⟨some alias_, [], target⟩) :
    Acc (fun callee caller => callee ∈ calls tree caller) ⟨scope, resolving, ty⟩ := by
  let names := ((tree.typeParams scope).map TypeParamScope.name).toFinset
  induction left : (names.filter (· ∉ resolving)).card using Nat.strongRecOn
    generalizing resolving ty with
  | ind left fewer =>
      induction size : sizeOf ty using Nat.strongRecOn generalizing ty with
      | ind size smaller =>
          constructor
          intro callee called
          rcases List.mem_append.mp called with mapped | entering
          · obtain ⟨inner, part, rfl⟩ := List.mem_map.mp mapped
            apply smaller (sizeOf inner) (size ▸ sizeOf_inside part) _ rfl
            intro alias_ target below
            exact aliases alias_ target (below.of_part part)
          · simp only [entered] at entering
            cases leads : place tree scope ty with
            | none => simp [leads] at entering
            | some found =>
                cases found with
                | bounds param =>
                    simp only [leads] at entering
                    by_cases under : param.name ∈ resolving
                    · simp [under] at entering
                    · rw [if_neg under] at entering
                      obtain ⟨bound, listed, rfl⟩ := List.mem_map.mp entering
                      have declared : param.name ∈ names := by
                        have member := typeParam_mem (place_bounds leads)
                        simpa [names] using ⟨param, member, rfl⟩
                      apply fewer _ (left ▸ fresh_lt declared under) _ rfl
                      intro alias_ target below
                      exact aliases alias_ target (below.of_bound leads listed)
                | target alias_ target =>
                    simp only [leads, List.mem_singleton] at entering
                    subst entering
                    obtain ⟨own, params, written⟩ := place_target leads
                    apply aliases alias_ target ⟨.target alias_, .of_place leads, .refl⟩
                    simp [Node.written, written]

/-- Every alias that is led to is an item of the file. -/
theorem target_listed {one : Node} {alias_ : ItemId}
    (path : TransGen (Leads tree) one (.target alias_)) :
    alias_ ∈ (Finset.range tree.items.length).image ItemId.mk := by
  obtain ⟨_, _, _, _, _, found, _, leads, same⟩ := TransGen.tail'_iff.mp path
  cases found with
  | bounds param => cases same
  | target other target =>
      cases same
      obtain ⟨own, params, written⟩ := place_target leads
      refine Finset.mem_image.mpr ⟨alias_.raw, Finset.mem_range.mpr ?_, rfl⟩
      by_contra outside
      simp [KotlinFile.data, List.getElem?_eq_none (Nat.le_of_not_lt outside)] at written

theorem acc_of_noAliasCycle (acyclic : NoAliasCycle tree) (call : Call) :
    Acc (fun callee caller => callee ∈ calls tree caller) call := by
  have aliases : ∀ alias_, ∀ target ∈ (Node.target alias_).written tree,
      Acc (fun callee caller => callee ∈ calls tree caller) ⟨some alias_, [], target⟩ := by
    have listed : ∀ one two, AliasLeads tree one two →
        two ∈ (Finset.range tree.items.length).image ItemId.mk := fun _ _ path => target_listed path
    have trans : ∀ one two three, AliasLeads tree one two → AliasLeads tree two three →
        AliasLeads tree one three := fun _ _ _ first second => first.trans second
    apply induction_of_acyclic (P := fun alias_ => ∀ target ∈ (Node.target alias_).written tree,
      Acc (fun callee caller => callee ∈ calls tree caller) ⟨some alias_, [], target⟩)
      _ listed trans acyclic
    intro alias_ ih target written
    apply acc_of_aliases
    intro other otherTarget below otherWritten
    obtain ⟨first, mentions, path⟩ := below
    exact ih other (.head' ⟨target, written, mentions⟩ path) otherTarget otherWritten
  obtain ⟨scope, resolving, ty⟩ := call
  apply acc_of_aliases
  intro alias_ target _ written
  exact aliases alias_ target written

/-! ### The parameters whose bounds are being resolved -/

/-- Where a resolution starts: references in a scope, with the parameters whose bounds are being resolved
and their names. -/
structure Start where
  stack : List TypeParamScope
  resolving : List Name
  scope : Scope
  refs : List TypeRef

/-- A written reference. -/
def Start.reference (scope : Scope) (ty : TypeRef) : Start := ⟨[], [], scope, [ty]⟩

/-- The bounds of a type variable. -/
def Start.ofParam (scope : Scope) (param : TypeParamScope) : Start :=
  ⟨[param], [param.name], scope, param.param.bounds⟩

/-- The calls of a resolution, each with the parameters whose bounds are being resolved then; those within
the first scope only, unless `across`. -/
inductive Under (tree : KotlinFile) (across : Prop) (start : Start) :
    List TypeParamScope → Call → Prop where
  | first {ty : TypeRef} (written : ty ∈ start.refs) :
      Under tree across start start.stack ⟨start.scope, start.resolving, ty⟩
  | part {stack : List TypeParamScope} {call : Call} {inner : TypeRef}
      (under : Under tree across start stack call) (part : inner ∈ inside call.ty) :
      Under tree across start stack { call with ty := inner }
  | bounds {stack : List TypeParamScope} {call : Call} {param : TypeParamScope} {bound : TypeRef}
      (under : Under tree across start stack call)
      (leads : place tree call.scope call.ty = some (.bounds param))
      (fresh : param.name ∉ call.resolving) (listed : bound ∈ param.param.bounds) :
      Under tree across start (param :: stack)
        ⟨call.scope, call.resolving ++ [param.name], bound⟩
  | target {stack : List TypeParamScope} {call : Call} {alias_ : ItemId} {ty : TypeRef}
      (may : across) (under : Under tree across start stack call)
      (leads : place tree call.scope call.ty = some (.target alias_ ty)) :
      Under tree across start stack ⟨some alias_, [], ty⟩

/-- A parameter that a reference leads to is resolved without bounds exactly where its bounds are being
resolved. -/
def OwnBounds (tree : KotlinFile) (start : Start) : Prop :=
  ∀ stack call param, Under tree True start stack call →
    place tree call.scope call.ty = some (.bounds param) →
    (param.name ∈ call.resolving ↔ param ∈ stack)

/-- Every reference that the resolution starts with is resolved, and only a parameter's own bounds are
left out. -/
def ResolvesWell (lookup : Lookup) (tree : KotlinFile) (start : Start) : Prop :=
  (∀ ty ∈ start.refs,
    Finishes (tyFromTypeRef lookup tree) ⟨start.scope, start.resolving, ty⟩) ∧ OwnBounds tree start

/-- A step that stays in the scope. -/
def LeadsWithin (tree : KotlinFile) (one two : Node) : Prop :=
  Leads tree one two ∧ ∃ scope param, two = .bounds scope param

/-- No parameter is led to from its own bounds in another scope. -/
def BoundsStay (tree : KotlinFile) : Prop :=
  ∀ scope other, ∀ param ∈ tree.typeParams scope,
    TransGen (Leads tree) (.bounds scope param) (.bounds other param) → other = scope

/-- No parameter's bounds lead, in its scope, to another one of its name. -/
def BoundsShown (tree : KotlinFile) : Prop :=
  ∀ scope, ∀ param ∈ tree.typeParams scope, ∀ other,
    TransGen (LeadsWithin tree) (.bounds scope param) (.bounds scope other) →
    other.name = param.name → other = param

variable {across : Prop} {start : Start} {stack : List TypeParamScope} {call : Call}

/-! ### The condition is enough -/

/-- What is known of a call. The names stand for parameters of the scope that lead to it within the scope.
The parameters lead to it too, each either by its name, or through the alias whose target is being
resolved. -/
structure Accounted (tree : KotlinFile) (stack : List TypeParamScope) (call : Call) : Prop where
  named : ∀ name ∈ call.resolving, ∃ q ∈ stack, q.name = name ∧ q ∈ tree.typeParams call.scope ∧
    ∀ param, Mentions tree call.scope call.ty (.bounds call.scope param) →
      TransGen (LeadsWithin tree) (.bounds call.scope q) (.bounds call.scope param)
  led : ∀ q ∈ stack, ∃ scope, q ∈ tree.typeParams scope ∧
    (∀ node, Mentions tree call.scope call.ty node →
      TransGen (Leads tree) (.bounds scope q) node) ∧
    ((scope = call.scope ∧ q.name ∈ call.resolving) ∨
      ∃ alias_, call.scope = some alias_ ∧
        TransGen (Leads tree) (.bounds scope q) (.target alias_) ∧
        ∀ node, Mentions tree call.scope call.ty node →
          TransGen (Leads tree) (.target alias_) node)

theorem Accounted.part (accounted : Accounted tree stack call) {inner : TypeRef}
    (part : inner ∈ inside call.ty) : Accounted tree stack { call with ty := inner } where
  named name under := by
    obtain ⟨q, member, same, declared, leads⟩ := accounted.named name under
    exact ⟨q, member, same, declared, fun param mentions => leads param (mentions.of_part part)⟩
  led q member := by
    obtain ⟨scope, declared, leads, last⟩ := accounted.led q member
    refine ⟨scope, declared, fun node mentions => leads node (mentions.of_part part), ?_⟩
    apply last.imp_right
    intro ⟨alias_, here, path, further⟩
    exact ⟨alias_, here, path, fun node mentions => further node (mentions.of_part part)⟩

theorem Accounted.bounds (accounted : Accounted tree stack call) {param : TypeParamScope}
    {bound : TypeRef} (leads : place tree call.scope call.ty = some (.bounds param))
    (listed : bound ∈ param.param.bounds) :
    Accounted tree (param :: stack) ⟨call.scope, call.resolving ++ [param.name], bound⟩ where
  named name under := by
    have step : ∀ other, Mentions tree call.scope bound (.bounds call.scope other) →
        LeadsWithin tree (.bounds call.scope param) (.bounds call.scope other) :=
      fun other mentions => ⟨⟨bound, listed, mentions⟩, call.scope, other, rfl⟩
    rcases List.mem_append.mp under with before | new
    · obtain ⟨q, member, same, declared, path⟩ := accounted.named name before
      refine ⟨q, List.mem_cons_of_mem _ member, same, declared, ?_⟩
      intro other mentions
      exact (path param (.of_place leads)).tail (step other mentions)
    · obtain rfl := List.mem_singleton.mp new
      exact ⟨param, List.mem_cons_self, rfl, typeParam_mem (place_bounds leads),
        fun other mentions => .single (step other mentions)⟩
  led q member := by
    have step : ∀ node, Mentions tree call.scope bound node →
        Leads tree (.bounds call.scope param) node := fun node mentions => ⟨bound, listed, mentions⟩
    rcases List.mem_cons.mp member with rfl | member
    · exact ⟨call.scope, typeParam_mem (place_bounds leads),
        fun node mentions => .single (step node mentions), .inl ⟨rfl, by simp⟩⟩
    · obtain ⟨scope, declared, path, last⟩ := accounted.led q member
      refine ⟨scope, declared, fun node mentions =>
        (path _ (.of_place leads)).tail (step node mentions), ?_⟩
      rcases last with ⟨same, named⟩ | ⟨alias_, here, toAlias, further⟩
      · exact .inl ⟨same, List.mem_append_left _ named⟩
      · exact .inr ⟨alias_, here, toAlias, fun node mentions =>
          (further _ (.of_place leads)).tail (step node mentions)⟩

theorem Accounted.target (accounted : Accounted tree stack call) {alias_ : ItemId} {ty : TypeRef}
    (leads : place tree call.scope call.ty = some (.target alias_ ty)) :
    Accounted tree stack ⟨some alias_, [], ty⟩ where
  named name under := nomatch under
  led q member := by
    obtain ⟨own, params, written⟩ := place_target leads
    have step : ∀ node, Mentions tree (some alias_) ty node →
        Leads tree (.target alias_) node :=
      fun node mentions => ⟨ty, by simp [Node.written, written], mentions⟩
    obtain ⟨scope, declared, path, _⟩ := accounted.led q member
    have toAlias : TransGen (Leads tree) (.bounds scope q) (.target alias_) := path _ (.of_place leads)
    exact ⟨scope, declared, fun node mentions => toAlias.tail (step node mentions),
      .inr ⟨alias_, rfl, toAlias, fun node mentions => .single (step node mentions)⟩⟩

/-- Every call is accounted for when the first ones are. -/
theorem Under.accounted
    (first : ∀ ty ∈ start.refs, Accounted tree start.stack ⟨start.scope, start.resolving, ty⟩)
    (under : Under tree across start stack call) : Accounted tree stack call := by
  induction under with
  | first written => exact first _ written
  | part _ part ih => exact ih.part part
  | bounds _ leads _ listed ih => exact ih.bounds leads listed
  | target _ _ leads ih => exact ih.target leads

theorem accounted_reference {scope : Scope} {ty : TypeRef} :
    Accounted tree [] ⟨scope, [], ty⟩ where
  named _ under := nomatch under
  led _ member := nomatch member

theorem accounted_ofParam {scope : Scope} {param : TypeParamScope}
    (declared : param ∈ tree.typeParams scope) {bound : TypeRef}
    (listed : bound ∈ param.param.bounds) :
    Accounted tree [param] ⟨scope, [param.name], bound⟩ where
  named name under := by
    obtain rfl := List.mem_singleton.mp under
    exact ⟨param, List.mem_cons_self, rfl, declared, fun other mentions =>
      .single ⟨⟨bound, listed, mentions⟩, scope, other, rfl⟩⟩
  led q member := by
    obtain rfl := List.mem_singleton.mp member
    exact ⟨scope, declared, fun node mentions => .single ⟨bound, listed, mentions⟩,
      .inl ⟨rfl, List.mem_singleton.mpr rfl⟩⟩

/-- Under the condition, the name of a parameter is taken for the parameter itself only. -/
theorem ownBounds_of_accounted (acyclic : NoAliasCycle tree) (stay : BoundsStay tree)
    (shown : BoundsShown tree)
    (first : ∀ ty ∈ start.refs, Accounted tree start.stack ⟨start.scope, start.resolving, ty⟩) :
    OwnBounds tree start := by
  intro stack call param under leads
  have accounted := under.accounted first
  constructor
  · intro named
    obtain ⟨q, member, same, declared, path⟩ := accounted.named _ named
    rw [shown call.scope q declared param (path param (.of_place leads)) same.symm]
    exact member
  · intro member
    obtain ⟨scope, declared, path, last⟩ := accounted.led param member
    have back := path _ (.of_place leads)
    have here := stay scope call.scope param declared back
    rcases last with ⟨_, named⟩ | ⟨alias_, aliased, toAlias, further⟩
    · exact named
    · rw [← here] at toAlias
      exact absurd ((further _ (.of_place leads)).trans toAlias) (acyclic alias_)

/-! ### The condition is necessary -/

/-- Some call leads to the node at its head. -/
def Met (tree : KotlinFile) (across : Prop) (start : Start) (node : Node) : Prop :=
  ∃ stack call found, Under tree across start stack call ∧
    place tree call.scope call.ty = some found ∧ found.node call.scope = node

/-- Every reference of the node is resolved in a call. -/
def Explored (tree : KotlinFile) (across : Prop) (start : Start) (node : Node) : Prop :=
  ∀ ty ∈ node.written tree, ∃ stack resolving,
    Under tree across start stack ⟨node.scope, resolving, ty⟩

/-- The names in force at a call are those of the start, which then stand for its own parameters only, or
of parameters whose bounds were entered in the scope. -/
theorem Under.names (under : Under tree across start stack call) :
    ∀ name ∈ call.resolving,
      (name ∈ start.resolving ∧ call.scope = start.scope ∧
        ∀ q ∈ stack, q.name = name → q ∈ start.stack) ∨
      ∃ earlier entering q, Under tree across start earlier entering ∧
        entering.scope = call.scope ∧ place tree entering.scope entering.ty = some (.bounds q) ∧
        q.name = name ∧ q.name ∉ entering.resolving := by
  induction under with
  | first written => exact fun name named => .inl ⟨named, rfl, fun q member _ => member⟩
  | part _ _ ih => exact ih
  | @bounds stack call param bound under leads fresh listed ih =>
      intro name named
      rcases List.mem_append.mp named with before | new
      · rcases ih name before with ⟨initial, here, own⟩ | entered
        · refine .inl ⟨initial, here, ?_⟩
          intro q member same
          rcases List.mem_cons.mp member with rfl | member
          · exact absurd (same ▸ before) fresh
          · exact own q member same
        · exact .inr entered
      · obtain rfl := List.mem_singleton.mp new
        exact .inr ⟨stack, call, param, under, rfl, leads, rfl, fresh⟩
  | target _ _ _ _ => exact nofun

theorem Under.start_stack (under : Under tree across start stack call) :
    ∀ q ∈ start.stack, q ∈ stack := by
  induction under with
  | first _ => exact fun _ member => member
  | part _ _ ih => exact ih
  | bounds _ _ _ _ ih => exact fun q member => List.mem_cons_of_mem _ (ih q member)
  | target _ _ _ ih => exact ih

theorem Under.everywhere (under : Under tree across start stack call) :
    Under tree True start stack call := by
  induction under with
  | first written => exact .first written
  | part _ part ih => exact .part ih part
  | bounds _ leads fresh listed ih => exact .bounds ih leads fresh listed
  | target _ _ leads ih => exact .target trivial ih leads

/-- Within the scope of the start, its names stay in force. -/
theorem Under.within (under : Under tree False start stack call) :
    call.scope = start.scope ∧ ∀ name ∈ start.resolving, name ∈ call.resolving := by
  induction under with
  | first _ => exact ⟨rfl, fun _ named => named⟩
  | part _ _ ih => exact ih
  | bounds _ _ _ _ ih =>
      exact ⟨ih.1, fun name named => List.mem_append_left _ (ih.2 name named)⟩
  | target may _ _ _ => exact may.elim

/-- The calls of a resolution are the ones that the first calls lead to. -/
theorem Under.called (under : Under tree across start stack call) :
    ∃ ty ∈ start.refs, ReflTransGen (fun callee caller => callee ∈ calls tree caller) call
      ⟨start.scope, start.resolving, ty⟩ := by
  induction under with
  | first written => exact ⟨_, written, .refl⟩
  | part _ part ih =>
      obtain ⟨ty, written, path⟩ := ih
      exact ⟨ty, written, .head (List.mem_append_left _ (List.mem_map.mpr ⟨_, part, rfl⟩)) path⟩
  | bounds _ leads fresh listed ih =>
      obtain ⟨ty, written, path⟩ := ih
      refine ⟨ty, written, .head (List.mem_append_right _ ?_) path⟩
      simp only [entered, leads, if_neg fresh]
      exact List.mem_map.mpr ⟨_, listed, rfl⟩
  | target _ _ leads ih =>
      obtain ⟨ty, written, path⟩ := ih
      refine ⟨ty, written, .head (List.mem_append_right _ ?_) path⟩
      simp only [entered, leads]
      exact List.mem_singleton.mpr rfl

theorem Under.met (under : Under tree across start stack call) {node : Node}
    (mentions : Mentions tree call.scope call.ty node) : Met tree across start node := by
  obtain ⟨part, found, path, leads, same⟩ := mentions
  have reached : Under tree across start stack { call with ty := part } := by
    clear leads
    induction path with
    | refl => exact under
    | tail _ part ih =>
        have next := Under.part ih part
        exact next
  exact ⟨stack, _, found, reached, leads, same⟩

/-- The innermost parameter of a name is one. -/
theorem place_bounds_unique {scope : Scope} {one two : TypeRef} {p q : TypeParamScope}
    (first : place tree scope one = some (.bounds p))
    (second : place tree scope two = some (.bounds q)) (same : p.name = q.name) : p = q := by
  have found := place_bounds first
  rw [same, place_bounds second] at found
  exact (Option.some.inj found).symm

/-- What is met is explored, unless it is a parameter named by the start, or another scope's target. -/
theorem Met.explored {node : Node} (met : Met tree across start node)
    (may : across ∨ ∃ scope param, node = .bounds scope param)
    (initial : ∀ stack call param, Under tree across start stack call →
      place tree call.scope call.ty = some (.bounds param) → param.name ∈ call.resolving →
      param.name ∈ start.resolving → call.scope = start.scope →
      (∀ q ∈ stack, q.name = param.name → q ∈ start.stack) →
      Explored tree across start (.bounds call.scope param)) :
    Explored tree across start node := by
  obtain ⟨stack, call, found, under, leads, rfl⟩ := met
  cases found with
  | target alias_ target =>
      have crosses : across := by
        rcases may with may | ⟨_, _, impossible⟩
        · exact may
        · cases impossible
      intro ty written
      obtain ⟨own, params, data⟩ := place_target leads
      obtain rfl : ty = target := by simpa [Place.node, Node.written, data] using written
      exact ⟨stack, [], .target crosses under leads⟩
  | bounds param =>
      by_cases named : param.name ∈ call.resolving
      · rcases under.names _ named with ⟨first, here, own⟩ |
          ⟨earlier, entering, q, before, here, ledTo, same, fresh⟩
        · exact initial stack call param under leads named first here own
        · have ledTo' := ledTo
          rw [here] at ledTo'
          obtain rfl := place_bounds_unique leads ledTo' same.symm
          intro ty written
          refine ⟨param :: earlier, entering.resolving ++ [param.name], ?_⟩
          have next := Under.bounds before ledTo fresh written
          rw [here] at next
          exact next
      · intro ty written
        exact ⟨param :: stack, call.resolving ++ [param.name], .bounds under leads named written⟩

theorem Explored.met {one two : Node} (explored : Explored tree across start one)
    (leads : Leads tree one two) : Met tree across start two := by
  obtain ⟨ty, written, mentions⟩ := leads
  obtain ⟨stack, resolving, under⟩ := explored ty written
  exact under.met mentions

/-- Where every alias's target is resolved, no alias leads back to itself. -/
theorem noAliasCycle_of_acc (finish : ∀ alias_, ∀ ty ∈ (Node.target alias_).written tree,
      Acc (fun callee caller => callee ∈ calls tree caller) ⟨some alias_, [], ty⟩) :
    NoAliasCycle tree := by
  intro alias_ cycle
  obtain ⟨_, ⟨target, written, _⟩, _⟩ := TransGen.head'_iff.mp cycle
  let start := Start.reference (some alias_) target
  have none_initial : ∀ stack call param, Under tree True start stack call →
      place tree call.scope call.ty = some (.bounds param) → param.name ∈ call.resolving →
      param.name ∈ start.resolving → call.scope = start.scope →
      (∀ q ∈ stack, q.name = param.name → q ∈ start.stack) →
      Explored tree True start (.bounds call.scope param) :=
    fun _ _ _ _ _ _ named => nomatch named
  have first : Explored tree True start (.target alias_) := by
    intro ty other
    have same : ty = target := by
      unfold Node.written at written other
      cases data : tree.data alias_ <;> simp_all
    subst same
    exact ⟨[], [], .first (List.mem_singleton.mpr rfl)⟩
  have met : ∀ node, TransGen (Leads tree) (.target alias_) node → Met tree True start node := by
    intro node path
    induction path with
    | single leads => exact first.met leads
    | tail _ leads ih => exact (ih.explored (.inl trivial) none_initial).met leads
  obtain ⟨stack, call, found, under, leads, same⟩ := met _ cycle
  cases found with
  | bounds param => cases same
  | target other ty =>
      cases same
      obtain ⟨own, params, data⟩ := place_target leads
      obtain rfl : target = ty := by simpa [Node.written, data] using written
      obtain ⟨ty', started, path⟩ := under.called
      obtain rfl := List.mem_singleton.mp started
      apply not_transGen_self (finish alias_ _ written)
      refine .head' ?_ path
      apply List.mem_append_right
      simp only [entered, leads]
      exact List.mem_singleton.mpr rfl

/-- What is known of the names of the start, when only a parameter's own bounds are left out: they are the
parameter's, and its bounds are those that the resolution starts with. -/
theorem explored_ofParam {scope : Scope} {param : TypeParamScope}
    (own : OwnBounds tree (.ofParam scope param)) :
    ∀ stack call q, Under tree across (.ofParam scope param) stack call →
      place tree call.scope call.ty = some (.bounds q) → q.name ∈ call.resolving →
      q.name ∈ (Start.ofParam scope param).resolving → call.scope = (Start.ofParam scope param).scope →
      (∀ other ∈ stack, other.name = q.name → other ∈ (Start.ofParam scope param).stack) →
      Explored tree across (.ofParam scope param) (.bounds call.scope q) := by
  intro stack call q under leads named _ here only
  have member := (own stack call q under.everywhere leads).mp named
  obtain rfl := List.mem_singleton.mp (only q member rfl)
  intro ty written
  refine ⟨[q], [q.name], ?_⟩
  rw [here]
  exact .first written

/-- All that a parameter's bounds lead to is met. -/
theorem met_ofParam {scope : Scope} {param : TypeParamScope}
    (own : OwnBounds tree (.ofParam scope param)) {Steps : Node → Node → Prop}
    (leads : ∀ one two, Steps one two → Leads tree one two)
    (may : ∀ one two, Steps one two → across ∨ ∃ scope param, two = .bounds scope param)
    {node : Node} (path : TransGen Steps (.bounds scope param) node) :
    Met tree across (.ofParam scope param) node := by
  have first : Explored tree across (.ofParam scope param) (.bounds scope param) :=
    fun ty written => ⟨[param], [param.name], .first written⟩
  induction path with
  | single step => exact first.met (leads _ _ step)
  | @tail middle _ path step ih =>
      obtain ⟨before, last⟩ : ∃ before, Steps before middle := by
        obtain ⟨before, _, last⟩ := TransGen.tail'_iff.mp path
        exact ⟨before, last⟩
      exact (ih.explored (may before middle last) (explored_ofParam own)).met (leads _ _ step)

theorem boundsStay_of_ownBounds
    (own : ∀ scope, ∀ param ∈ tree.typeParams scope, OwnBounds tree (.ofParam scope param)) :
    BoundsStay tree := by
  intro scope other param declared path
  have ownHere := own scope param declared
  have met : Met tree True (.ofParam scope param) (.bounds other param) :=
    met_ofParam ownHere (fun _ _ step => step) (fun _ _ _ => .inl trivial) path
  obtain ⟨stack, call, found, under, leads, same⟩ := met
  cases found with
  | target _ _ => cases same
  | bounds q =>
      cases same
      have member := under.start_stack param (List.mem_singleton.mpr rfl)
      have named := (ownHere stack call param under leads).mpr member
      rcases under.names _ named with ⟨_, here, _⟩ |
        ⟨earlier, entering, q, before, here, ledTo, sameName, fresh⟩
      · exact here
      · -- The parameter itself was entered in that scope, although its bounds were being resolved.
        have ledTo' := ledTo
        rw [here] at ledTo'
        obtain rfl := place_bounds_unique leads ledTo' sameName.symm
        have memberThen := before.start_stack param (List.mem_singleton.mpr rfl)
        exact absurd ((ownHere earlier entering param before ledTo).mpr memberThen) fresh

theorem boundsShown_of_ownBounds
    (own : ∀ scope, ∀ param ∈ tree.typeParams scope, OwnBounds tree (.ofParam scope param)) :
    BoundsShown tree := by
  intro scope param declared other path sameName
  have ownHere := own scope param declared
  have met : Met tree False (.ofParam scope param) (.bounds scope other) :=
    met_ofParam ownHere (fun _ _ step => step.1) (fun _ _ step => .inr step.2) path
  obtain ⟨stack, call, found, under, leads, same⟩ := met
  cases found with
  | target _ _ => cases same
  | bounds q =>
      cases same
      have named : other.name ∈ call.resolving := by
        rw [sameName]
        exact under.within.2 _ (List.mem_singleton.mpr rfl)
      have member := (ownHere stack call other under.everywhere leads).mp named
      rcases under.names _ named with ⟨_, _, only⟩ |
        ⟨earlier, entering, q, before, _, _, sameAsOther, fresh⟩
      · exact List.mem_singleton.mp (only other member rfl)
      · rw [sameAsOther, sameName] at fresh
        exact absurd (before.within.2 _ (List.mem_singleton.mpr rfl)) fresh

def named (name : Char) (args : List TypeRef) : TypeRef := .reference ⟨[name]⟩ args

/-- `typealias A = B; typealias B = L<A>`. -/
def twoAliases : KotlinFile where
  file := ⟨0⟩
  items := [.typeAlias ⟨['A']⟩ [] (named 'B' []), .typeAlias ⟨['B']⟩ [] (named 'L' [named 'A' []])]
  parent := [none, none]
  top := [⟨0⟩, ⟨1⟩]
  localTypes := []

/-- `class C<T : L<T>> { fun <T> f() }`. -/
def hiddenParam : KotlinFile where
  file := ⟨0⟩
  items := [.«class» ⟨['C']⟩ [⟨⟨['T']⟩, [named 'L' [named 'T' []]]⟩] [⟨1⟩],
    .function ⟨['f']⟩ [⟨⟨['T']⟩, []⟩]]
  parent := [none, some ⟨0⟩]
  top := [⟨0⟩]
  localTypes := []

end CaffeineLs.HirTy.KotlinResolver
