/-
Module: CaffeineLs.Proofs.Rewriting
Purpose: The rewriting loop does what the recursion does, and where the query for inference variables
  agrees with their substitution.
Trusted boundary: none
Main exports: rewriteWith_sound, rewriteWith_eq_rewrite, Ty.Built
-/
import CaffeineLs.HirTy.Rewrite

namespace CaffeineLs.HirTy

open HirExpand

/-! ### Children -/

theorem Ty.sizeAll_eq (tys : List Ty) : Ty.sizeAll tys = (tys.map Ty.size).sum := by
  induction tys with
  | nil => rfl
  | cons ty tys ih => rw [Ty.sizeAll, ih, List.map_cons, List.sum_cons]

/-- A type is larger than its children together. -/
theorem size_weighs (leaf : Ty → RewriteVerdict) : MemoRewrite.Weighs (rewriteRules leaf) Ty.size := by
  intro ty
  change (ty.children.map Ty.size).sum < ty.size
  rcases ty with _ | _ | _ | _ | _ | _ | (_ | ⟨_, _⟩) | _ | _ | _ | _ | _ | _ <;>
    simp [Ty.children, Ty.size, Ty.sizeAll_eq]

theorem Ty.size_child {outer inner : Ty} (part : inner ∈ outer.children) : inner.size < outer.size :=
  (size_weighs fun _ => .recur).child part

theorem Ty.nesting_mem {tys : List Ty} {ty : Ty} (member : ty ∈ tys) :
    ty.nesting < Ty.nestingAll tys := by
  induction tys with
  | nil => exact absurd member List.not_mem_nil
  | cons first rest ih =>
      rw [Ty.nestingAll]
      rcases List.mem_cons.mp member with rfl | member
      · exact Nat.lt_of_lt_of_le (Nat.lt_succ_self _) (Nat.le_max_left _ _)
      · exact Nat.lt_of_lt_of_le (ih member) (Nat.le_max_right _ _)

theorem Ty.nesting_child {outer inner : Ty} (part : inner ∈ outer.children) :
    inner.nesting < outer.nesting := by
  cases outer with
  | reference name args loc => exact Ty.nesting_mem part
  | intersection members => exact Ty.nesting_mem part
  | wildcard bound =>
      cases bound with
      | none => exact absurd part List.not_mem_nil
      | some bound =>
          rw [List.mem_singleton.mp part]
          exact Nat.lt_succ_self _
  | flexible lower upper =>
      rw [Ty.nesting]
      rcases List.mem_cons.mp part with rfl | part
      · omega
      · rw [List.mem_singleton.mp part]
        omega
  | array element =>
      rw [List.mem_singleton.mp part]
      exact Nat.lt_succ_self _
  | nullable element =>
      rw [List.mem_singleton.mp part]
      exact Nat.lt_succ_self _
  | definitelyNonNull element =>
      rw [List.mem_singleton.mp part]
      exact Nat.lt_succ_self _
  | _ => exact absurd part List.not_mem_nil

/-! ### Building again -/

/-- A type built again from new children. -/
def Ty.rebuildWith (f : Ty → Ty) : Ty → Ty
  | .reference name args loc => Ty.withArgs (args.map f) (.reference name args loc)
  | .array inner => .array (f inner)
  | .nullable inner => .nullableOf (f inner)
  | .definitelyNonNull inner => .definitelyNonNullOf (f inner)
  | .wildcard none => .wildcardOf none
  | .wildcard (some (kind, bound)) => .wildcardOf (some (kind, f bound))
  | .intersection members => .intersectionOf (members.map f)
  | .flexible lower upper => .flexibleOf (f lower) (f upper)
  | ty => ty

theorem mapM_known {memo : Ty → Option Ty} {f : Ty → Ty} {tys : List Ty}
    (known : ∀ c ∈ tys, memo c = some (f c)) : tys.mapM memo = some (tys.map f) := by
  induction tys with
  | nil => rfl
  | cons ty tys ih =>
      rw [List.mapM_cons, known ty List.mem_cons_self,
        ih fun c member => known c (List.mem_cons_of_mem _ member)]
      rfl

theorem rebuild_known {memo : Ty → Option Ty} {f : Ty → Ty} {ty : Ty}
    (known : ∀ c ∈ ty.children, memo c = some (f c)) : ty.rebuild memo = some (ty.rebuildWith f) := by
  cases ty with
  | reference name args loc =>
      have mapped : args.mapM memo = some (args.map f) := mapM_known known
      rw [Ty.rebuild, mapped]
      rfl
  | intersection members =>
      have mapped : members.mapM memo = some (members.map f) := mapM_known known
      rw [Ty.rebuild, mapped]
      rfl
  | wildcard bound =>
      cases bound with
      | none => rfl
      | some bound =>
          rw [Ty.rebuild, known _ List.mem_cons_self]
          rfl
  | flexible lower upper =>
      rw [Ty.rebuild, known lower List.mem_cons_self,
        known upper (List.mem_cons_of_mem _ List.mem_cons_self)]
      rfl
  | array element =>
      rw [Ty.rebuild, known element List.mem_cons_self]
      rfl
  | nullable element =>
      rw [Ty.rebuild, known element List.mem_cons_self]
      rfl
  | definitelyNonNull element =>
      rw [Ty.rebuild, known element List.mem_cons_self]
      rfl
  | _ => rfl

theorem rebuildWith_congr {f g : Ty → Ty} {ty : Ty} (same : ∀ c ∈ ty.children, f c = g c) :
    ty.rebuildWith f = ty.rebuildWith g := by
  -- Both are what the type is built to from one and the same table.
  have table : ∀ c ∈ ty.children, some (f c) = some (g c) := fun c member => congrArg some (same c member)
  have built : ty.rebuild (fun c => some (f c)) = some (ty.rebuildWith f) :=
    rebuild_known fun _ _ => rfl
  exact Option.some.inj (built.symm.trans (rebuild_known table))

theorem Ty.rewriteAll_eq (leaf : Ty → RewriteVerdict) (tys : List Ty) :
    Ty.rewriteAll leaf tys = tys.map (Ty.rewrite leaf) := by
  induction tys with
  | nil => rfl
  | cons ty tys ih => rw [Ty.rewriteAll, ih, List.map_cons]

theorem Ty.rewrite_done {leaf : Ty → RewriteVerdict} {ty value : Ty} (verdict : leaf ty = .done value) :
    ty.rewrite leaf = value := by
  unfold Ty.rewrite
  rw [verdict]

/-- The recursion builds a type again from its rewritten children. -/
theorem Ty.rewrite_recur {leaf : Ty → RewriteVerdict} {ty : Ty} (verdict : leaf ty = .recur) :
    ty.rewrite leaf = ty.rebuildWith (Ty.rewrite leaf) := by
  unfold Ty.rewrite
  rw [verdict]
  rcases ty with _ | _ | _ | _ | _ | _ | (_ | ⟨_, _⟩) | _ | _ | _ | _ | _ | _ <;>
    simp only [Ty.rebuildWith, Ty.rewriteAll_eq]

/-! ### The loop -/

/-- What the loop returns has every relation to the type that the policy and the building establish. -/
theorem rewriteWith_good {leaf : Ty → RewriteVerdict} (Allowed : Nat → Ty → Prop)
    (Good : Ty → Ty → Prop)
    (child : ∀ {d ty c}, Allowed d ty → c ∈ ty.children → Allowed (d + 1) c)
    (cut : ∀ {d ty}, Allowed d ty → maxRewriteDepth ≤ d → Good ty .error)
    (done : ∀ {ty value}, leaf ty = .done value → Good ty value)
    (rebuilt : ∀ {ty f}, leaf ty = .recur → (∀ c ∈ ty.children, Good c (f c)) →
      Good ty (ty.rebuildWith f))
    (root : Ty) (allowed : Allowed 0 root) :
    ∃ value, root.rewriteWith leaf = some value ∧ Good root value := by
  have sound : MemoRewrite.Sound (rewriteRules leaf) Allowed Good := by
    refine ⟨child, cut, done, ?_⟩
    intro ty memo verdict each
    have known : ∀ c ∈ ty.children, memo c = some ((memo c).getD c) := by
      intro c member
      obtain ⟨value, found, _⟩ := each c member
      rw [found]
      rfl
    refine ⟨_, rebuild_known known, rebuilt verdict ?_⟩
    intro c member
    obtain ⟨value, found, good⟩ := each c member
    rw [found]
    exact good
  obtain ⟨memo, value, ran, found, good⟩ :=
    MemoRewrite.run_root sound (size_weighs leaf) allowed (Nat.lt_succ_self (2 * root.size))
  refine ⟨value, ?_, good⟩
  rw [Ty.rewriteWith, ran]
  exact found

/-- Depths at which a type is met without meeting the limit below it. -/
def Shallow (d : Nat) (ty : Ty) : Prop := d + ty.nesting < maxRewriteDepth

theorem Shallow.child {d : Nat} {ty c : Ty} (shallow : Shallow d ty) (part : c ∈ ty.children) :
    Shallow (d + 1) c := by
  have deeper := Ty.nesting_child part
  rw [Shallow] at shallow ⊢
  omega

theorem Shallow.not_cut {d : Nat} {ty : Ty} (shallow : Shallow d ty) : ¬ maxRewriteDepth ≤ d := by
  rw [Shallow] at shallow
  omega

/-- The loop returns what the recursion does. -/
theorem rewriteWith_eq_rewrite (leaf : Ty → RewriteVerdict) {ty : Ty}
    (shallow : ty.nesting < maxRewriteDepth) : ty.rewriteWith leaf = some (ty.rewrite leaf) := by
  have start : Shallow 0 ty := by
    rw [Shallow]
    omega
  obtain ⟨value, ran, same⟩ := rewriteWith_good Shallow (fun ty value => value = ty.rewrite leaf)
    (fun shallow part => shallow.child part)
    (fun shallow cut => absurd cut shallow.not_cut)
    (fun verdict => (Ty.rewrite_done verdict).symm)
    (fun verdict each => (rebuildWith_congr each).trans (Ty.rewrite_recur verdict).symm) ty start
  rw [ran, same]

/-- A type that shares its argument is rewritten as the recursion does it. -/
theorem rewriteWith_shared :
    (Ty.reference ⟨['P']⟩ [.array (.inferenceVar 1), .array (.inferenceVar 1)] none).rewriteWith
        (inferLeaf fun _ => some .error) =
      some ((Ty.reference ⟨['P']⟩ [.array (.inferenceVar 1), .array (.inferenceVar 1)] none).rewrite
        (inferLeaf fun _ => some .error)) :=
  rewriteWith_eq_rewrite _ (by decide)

/-! ### Inference variables in a type -/

/-- The inference variable occurs in the type, where the rewriting goes. -/
inductive Ty.HasVar (id : Nat) : Ty → Prop where
  | here : Ty.HasVar id (.inferenceVar id)
  | inside {outer inner : Ty} (part : inner ∈ outer.children) (has : Ty.HasVar id inner) :
      Ty.HasVar id outer

/-- The children of a type, but not from under a Kotlin wrapper. -/
def Ty.openChildren : Ty → List Ty
  | .nullable _ => []
  | .definitelyNonNull _ => []
  | .flexible _ _ => []
  | ty => ty.children

/-- The inference variable occurs outside the wrappers. -/
inductive Ty.HasOpenVar (id : Nat) : Ty → Prop where
  | here : Ty.HasOpenVar id (.inferenceVar id)
  | inside {outer inner : Ty} (part : inner ∈ outer.openChildren) (has : Ty.HasOpenVar id inner) :
      Ty.HasOpenVar id outer

theorem Ty.openChildren_subset {outer inner : Ty} (part : inner ∈ outer.openChildren) :
    inner ∈ outer.children := by
  cases outer with
  | nullable element => exact absurd part List.not_mem_nil
  | definitelyNonNull element => exact absurd part List.not_mem_nil
  | flexible lower upper => exact absurd part List.not_mem_nil
  | _ => exact part

theorem Ty.HasOpenVar.hasVar {id : Nat} {ty : Ty} (has : ty.HasOpenVar id) : ty.HasVar id := by
  induction has with
  | here => exact .here
  | inside part _ ih => exact .inside (Ty.openChildren_subset part) ih

theorem Ty.containInferVar_iff (tys : List Ty) :
    Ty.containInferVar tys = true ↔ ∃ ty ∈ tys, ty.containsInferVar = true := by
  induction tys with
  | nil => simp [Ty.containInferVar]
  | cons ty tys ih => simp [Ty.containInferVar, ih]

theorem Ty.containsInferVar_iff_children (ty : Ty) :
    ty.containsInferVar = true ↔
      (∃ id, ty = .inferenceVar id) ∨ ∃ c ∈ ty.openChildren, c.containsInferVar = true := by
  rcases ty with _ | _ | _ | _ | _ | _ | (_ | ⟨_, _⟩) | _ | _ | _ | _ | _ | _ <;>
    simp [Ty.containsInferVar, Ty.openChildren, Ty.children, Ty.containInferVar_iff]

/-- The query answers for what is outside the wrappers. -/
theorem Ty.containsInferVar_iff (ty : Ty) :
    ty.containsInferVar = true ↔ ∃ id, ty.HasOpenVar id := by
  induction h : ty.size using Nat.strong_induction_on generalizing ty with
  | _ n ih =>
      subst h
      rw [Ty.containsInferVar_iff_children]
      constructor
      · intro found
        rcases found with ⟨id, rfl⟩ | ⟨c, part, found⟩
        · exact ⟨id, .here⟩
        · have smaller := Ty.size_child (Ty.openChildren_subset part)
          obtain ⟨id, has⟩ := (ih _ smaller c rfl).mp found
          exact ⟨id, .inside part has⟩
      · intro ⟨id, has⟩
        cases has with
        | here => exact Or.inl ⟨id, rfl⟩
        | inside part has =>
            have smaller := Ty.size_child (Ty.openChildren_subset part)
            exact Or.inr ⟨_, part, (ih _ smaller _ rfl).mpr ⟨id, has⟩⟩

/-! ### Variables of a type that is built again -/

section

variable {f : Ty → Ty} {id : Nat}

theorem Ty.hasVar_nullableOf {ty : Ty} (has : (Ty.nullableOf ty).HasVar id) : ty.HasVar id := by
  cases ty with
  | nullable inner => exact has
  | _ =>
      cases has with
      | inside part has =>
          obtain rfl := List.mem_singleton.mp part
          exact has

theorem Ty.hasVar_definitelyNonNullOf {ty : Ty} (has : (Ty.definitelyNonNullOf ty).HasVar id) :
    ty.HasVar id := by
  cases ty with
  | definitelyNonNull inner => exact has
  | _ =>
      cases has with
      | inside part has =>
          obtain rfl := List.mem_singleton.mp part
          exact has

theorem Ty.hasVar_wildcardOf {kind : BoundKind} {bound : Ty}
    (has : (Ty.wildcardOf (some (kind, bound))).HasVar id) : bound.HasVar id := by
  have under : (Ty.wildcard (some (kind, bound))).HasVar id → bound.HasVar id := by
    intro has
    cases has with
    | inside part within =>
        obtain rfl := List.mem_singleton.mp part
        exact within
  cases kind with
  | lower => exact under has
  | upper =>
      rw [Ty.wildcardOf] at has
      split at has
      · cases has with
        | inside part has => exact absurd part List.not_mem_nil
      · exact under has

theorem Ty.hasVar_intersectionOf {members : List Ty} (has : (Ty.intersectionOf members).HasVar id) :
    ∃ member ∈ members, member.HasVar id := by
  match members with
  | [] =>
      cases has with
      | inside part has => exact absurd part List.not_mem_nil
  | [member] => exact ⟨member, List.mem_cons_self, has⟩
  | first :: second :: rest =>
      cases has with
      | inside part has => exact ⟨_, part, has⟩

theorem Ty.hasVar_flexibleOf {lower upper : Ty} (has : (Ty.flexibleOf lower upper).HasVar id) :
    lower.HasVar id ∨ upper.HasVar id := by
  rw [Ty.flexibleOf] at has
  split at has
  · exact Or.inl has
  · cases has with
    | inside part has =>
        rcases List.mem_cons.mp part with rfl | part
        · exact Or.inl has
        · obtain rfl := List.mem_singleton.mp part
          exact Or.inr has

/-- A variable of a type that is built again is one of a new child, or the type was that variable. -/
theorem Ty.hasVar_rebuildWith {ty : Ty} (has : (ty.rebuildWith f).HasVar id) :
    ty = .inferenceVar id ∨ ∃ c ∈ ty.children, (f c).HasVar id := by
  cases ty with
  | reference name args loc =>
      cases has with
      | inside part has =>
          obtain ⟨c, member, rfl⟩ := List.mem_map.mp part
          exact Or.inr ⟨c, member, has⟩
  | array element =>
      cases has with
      | inside part has =>
          obtain rfl := List.mem_singleton.mp part
          exact Or.inr ⟨element, List.mem_cons_self, has⟩
  | nullable inner => exact Or.inr ⟨inner, List.mem_cons_self, Ty.hasVar_nullableOf has⟩
  | definitelyNonNull inner =>
      exact Or.inr ⟨inner, List.mem_cons_self, Ty.hasVar_definitelyNonNullOf has⟩
  | wildcard bound =>
      cases bound with
      | none =>
          cases has with
          | inside part has => exact absurd part List.not_mem_nil
      | some bound => exact Or.inr ⟨bound.2, List.mem_cons_self, Ty.hasVar_wildcardOf has⟩
  | intersection members =>
      obtain ⟨member, listed, has⟩ := Ty.hasVar_intersectionOf has
      obtain ⟨c, member, rfl⟩ := List.mem_map.mp listed
      exact Or.inr ⟨c, member, has⟩
  | flexible lower upper =>
      rcases Ty.hasVar_flexibleOf has with has | has
      · exact Or.inr ⟨lower, List.mem_cons_self, has⟩
      · exact Or.inr ⟨upper, List.mem_cons_of_mem _ List.mem_cons_self, has⟩
  | inferenceVar other =>
      cases has with
      | here => exact Or.inl rfl
      | inside part has => exact absurd part List.not_mem_nil
  | _ =>
      cases has with
      | inside part has => exact absurd part List.not_mem_nil

theorem Ty.containsInferVar_nullableOf (ty : Ty) : (Ty.nullableOf ty).containsInferVar = false := by
  cases ty <;> rfl

theorem Ty.containsInferVar_definitelyNonNullOf (ty : Ty) :
    (Ty.definitelyNonNullOf ty).containsInferVar = false := by
  cases ty <;> rfl

theorem Ty.containsInferVar_flexibleOf {lower upper : Ty} (none : lower.containsInferVar = false) :
    (Ty.flexibleOf lower upper).containsInferVar = false := by
  rw [Ty.flexibleOf]
  split
  · exact none
  · rfl

/-- The query finds nothing in a type built again from types in which it finds nothing. -/
theorem Ty.containsInferVar_rebuildWith {ty : Ty} (other : ∀ id, ty ≠ .inferenceVar id)
    (each : ∀ c ∈ ty.children, (f c).containsInferVar = false) :
    (ty.rebuildWith f).containsInferVar = false := by
  have all : ∀ tys : List Ty, (∀ c ∈ tys, (f c).containsInferVar = false) →
      Ty.containInferVar (tys.map f) = false := by
    intro tys each
    rw [← Bool.not_eq_true, Ty.containInferVar_iff]
    intro ⟨ty, member, found⟩
    obtain ⟨c, listed, rfl⟩ := List.mem_map.mp member
    rw [each c listed] at found
    cases found
  cases ty with
  | reference name args loc => exact all args each
  | array element => exact each element List.mem_cons_self
  | nullable inner => exact Ty.containsInferVar_nullableOf (f inner)
  | definitelyNonNull inner => exact Ty.containsInferVar_definitelyNonNullOf (f inner)
  | wildcard bound =>
      match bound with
      | .none => rfl
      | some (.lower, bound) => exact each bound List.mem_cons_self
      | some (.upper, bound) =>
          rw [Ty.rebuildWith, Ty.wildcardOf]
          split
          · rfl
          · exact each bound List.mem_cons_self
  | intersection members =>
      match members with
      | [] => rfl
      | [member] => exact each member List.mem_cons_self
      | first :: second :: rest => exact all (first :: second :: rest) each
  | flexible lower upper =>
      exact Ty.containsInferVar_flexibleOf (each lower List.mem_cons_self)
  | inferenceVar id => exact absurd rfl (other id)
  | _ => rfl

end

/-! ### Types as they are built -/

/-- A node as the constructors leave it. -/
def Ty.Normal : Ty → Prop
  | .wildcard (some (.upper, bound)) => bound.isObject = false
  | .nullable (.nullable _) => False
  | .definitelyNonNull (.definitelyNonNull _) => False
  | .intersection members => 2 ≤ members.length
  | .flexible lower upper => lower ≠ upper
  | _ => True

/-- A type that the constructors build. -/
inductive Ty.Built : Ty → Prop where
  | mk {ty : Ty} (normal : ty.Normal) (children : ∀ c ∈ ty.children, Ty.Built c) : Ty.Built ty

/-- A type as the constructors leave it is built again from its own children. -/
theorem Ty.rebuildWith_self {f : Ty → Ty} {ty : Ty} (normal : ty.Normal)
    (same : ∀ c ∈ ty.children, f c = c) : ty.rebuildWith f = ty := by
  rw [rebuildWith_congr same]
  cases ty with
  | reference name args loc => rw [Ty.rebuildWith, List.map_id', Ty.withArgs]
  | nullable inner =>
      cases inner with
      | nullable _ => exact normal.elim
      | _ => rfl
  | definitelyNonNull inner =>
      cases inner with
      | definitelyNonNull _ => exact normal.elim
      | _ => rfl
  | wildcard bound =>
      match bound with
      | .none => rfl
      | some (.lower, bound) => rfl
      | some (.upper, bound) =>
          have plain : bound.isObject = false := normal
          rw [Ty.rebuildWith, Ty.wildcardOf, plain]
          rfl
  | intersection members =>
      match members, normal with
      | first :: second :: rest, _ =>
          rw [Ty.rebuildWith, List.map_id']
          rfl
  | flexible lower upper => exact if_neg normal
  | _ => rfl

/-! ### Where the query agrees with the substitution -/

section

variable (subst : Nat → Option Ty)

/-- What becomes of a variable: it is left alone, or is one of the value's. -/
def Comes (old id : Nat) : Prop :=
  subst old = none ∧ old = id ∨ ∃ value, subst old = some value ∧ value.HasVar id

/-- Every variable of the type gets a type in which the query finds nothing. -/
def Proper (ty : Ty) : Prop :=
  ∀ id, ty.HasVar id → ∃ value, subst id = some value ∧ value.containsInferVar = false

end

/-- The query and the substitution agree on a type: the query is false just if no substitution changes the
type; it is false once every variable has been replaced by a type for which it is false; and the query
and the substitution both see every variable. -/
structure QueriesAgree (ty : Ty) : Prop where
  fixed : ty.containsInferVar = false ↔ ∀ subst, ty.substituteInfer subst = some ty
  proper : ∀ subst, Proper subst ty →
    ∃ result, ty.substituteInfer subst = some result ∧ result.containsInferVar = false
  queried : ∀ id, ty.HasVar id → ty.containsInferVar = true
  replaced : ∀ subst result, ty.substituteInfer subst = some result → ∀ id, result.HasVar id →
    ∃ old, ty.HasVar old ∧ Comes subst old id

/-- A type with a variable has one outside the wrappers. -/
def VarsOutside (ty : Ty) : Prop := ∀ id, ty.HasVar id → ∃ other, ty.HasOpenVar other

section

variable (subst : Nat → Option Ty)

theorem inferLeaf_done {ty value : Ty} (verdict : inferLeaf subst ty = .done value) :
    ∃ id, ty = .inferenceVar id ∧ value = (subst id).getD ty := by
  cases ty with
  | inferenceVar id => exact ⟨id, rfl, (MemoRewrite.Verdict.done.inj verdict).symm⟩
  | _ => cases verdict

theorem inferLeaf_recur {ty : Ty} (verdict : inferLeaf subst ty = .recur) (id : Nat) :
    ty ≠ .inferenceVar id := by
  rintro rfl
  cases verdict

theorem not_hasVar_error (id : Nat) : ¬ Ty.error.HasVar id := by
  intro has
  cases has with
  | inside part has => exact absurd part List.not_mem_nil

/-- The variables of the result are those left alone and those of the values. -/
theorem substituteInfer_replaces (ty : Ty) :
    ∃ result, ty.substituteInfer subst = some result ∧
      ∀ id, result.HasVar id → ∃ old, ty.HasVar old ∧ Comes subst old id := by
  refine rewriteWith_good (fun _ _ => True)
    (fun ty result => ∀ id, result.HasVar id → ∃ old, ty.HasVar old ∧ Comes subst old id)
    (fun _ _ => trivial) ?_ ?_ ?_ ty trivial
  · intro d ty _ _ id has
    exact absurd has (not_hasVar_error id)
  · intro ty value verdict id has
    obtain ⟨old, rfl, rfl⟩ := inferLeaf_done subst verdict
    refine ⟨old, .here, ?_⟩
    cases found : subst old with
    | none =>
        rw [found, Option.getD_none] at has
        cases has with
        | here => exact Or.inl ⟨found, rfl⟩
        | inside part has => exact absurd part List.not_mem_nil
    | some value =>
        rw [found, Option.getD_some] at has
        exact Or.inr ⟨value, found, has⟩
  · intro ty f verdict each id has
    rcases Ty.hasVar_rebuildWith has with same | ⟨c, part, has⟩
    · exact absurd same (inferLeaf_recur subst verdict id)
    · obtain ⟨old, inside, rest⟩ := each c part id has
      exact ⟨old, .inside part inside, rest⟩

/-- Where every variable gets a type in which the query finds nothing, it finds nothing in the result. -/
theorem substituteInfer_proper {ty : Ty} (proper : Proper subst ty) :
    ∃ result, ty.substituteInfer subst = some result ∧ result.containsInferVar = false := by
  obtain ⟨result, ran, none⟩ := rewriteWith_good (fun _ _ => True)
    (fun ty result => Proper subst ty → result.containsInferVar = false)
    (fun _ _ => trivial) (fun _ _ _ => rfl)
    (fun verdict proper => by
      obtain ⟨id, rfl, rfl⟩ := inferLeaf_done subst verdict
      obtain ⟨value, found, none⟩ := proper id .here
      rw [found]
      exact none)
    (fun verdict each proper =>
      Ty.containsInferVar_rebuildWith (inferLeaf_recur subst verdict) fun c part =>
        each c part fun id has => proper id (.inside part has))
    ty trivial
  exact ⟨result, ran, none proper⟩

/-- A type with no variable is not changed. -/
theorem substituteInfer_fixed {ty : Ty} (built : ty.Built) (shallow : ty.nesting < maxRewriteDepth)
    (none : ∀ id, ¬ ty.HasVar id) : ty.substituteInfer subst = some ty := by
  have start : Shallow 0 ty := by
    rw [Shallow]
    omega
  have done : ∀ {ty value : Ty}, inferLeaf subst ty = .done value → ty.Built →
      (∀ id, ¬ ty.HasVar id) → value = ty := by
    intro ty value verdict _ none
    obtain ⟨id, rfl, -⟩ := inferLeaf_done subst verdict
    exact absurd .here (none id)
  obtain ⟨result, ran, same⟩ := rewriteWith_good Shallow
    (fun ty result => ty.Built → (∀ id, ¬ ty.HasVar id) → result = ty)
    (fun shallow part => shallow.child part) (fun shallow cut => absurd cut shallow.not_cut) done
    (fun _ each built none => by
      obtain ⟨normal, children⟩ := built
      exact Ty.rebuildWith_self normal fun c part =>
        each c part (children c part) fun id has => none id (.inside part has)) ty start
  rw [Ty.substituteInfer, ran, same built none]

/-- A substitution of a type's variable changes the type. -/
theorem substituteInfer_changes {ty : Ty} {id : Nat} (has : ty.HasVar id) :
    ∃ subst, ty.substituteInfer subst ≠ some ty := by
  refine ⟨fun other => if other = id then some .error else none, ?_⟩
  intro same
  obtain ⟨result, ran, comes⟩ :=
    substituteInfer_replaces (fun other => if other = id then some .error else none) ty
  obtain rfl := Option.some.inj (ran.symm.trans same)
  obtain ⟨old, -, left⟩ := comes id has
  rcases left with ⟨alone, rfl⟩ | ⟨value, found, inside⟩
  · simp at alone
  · dsimp only at found
    split at found
    · obtain rfl := Option.some.inj found
      exact not_hasVar_error id inside
    · cases found

end

/-- Where the query and the substitution agree, a type with a variable has one outside the wrappers. -/
theorem QueriesAgree.varsOutside {ty : Ty} (agree : QueriesAgree ty) : VarsOutside ty :=
  fun id has => (Ty.containsInferVar_iff ty).mp (agree.queried id has)

theorem queriesAgree_of_varsOutside {ty : Ty} (built : ty.Built)
    (shallow : (∃ id, ty.HasVar id) ∨ ty.nesting < maxRewriteDepth) (outside : VarsOutside ty) :
    QueriesAgree ty where
  fixed := by
    constructor
    · intro unseen subst
      have none : ∀ id, ¬ ty.HasVar id := by
        intro id has
        have found := (Ty.containsInferVar_iff ty).mpr (outside id has)
        rw [unseen] at found
        cases found
      rcases shallow with ⟨id, has⟩ | shallow
      · exact absurd has (none id)
      · exact substituteInfer_fixed subst built shallow none
    · intro fixed
      rw [← Bool.not_eq_true]
      intro found
      obtain ⟨id, has⟩ := (Ty.containsInferVar_iff ty).mp found
      obtain ⟨subst, changed⟩ := substituteInfer_changes has.hasVar
      exact changed (fixed subst)
  proper subst proper := substituteInfer_proper subst proper
  queried id has := (Ty.containsInferVar_iff ty).mpr (outside id has)
  replaced subst result ran id has := by
    obtain ⟨result', ran', comes⟩ := substituteInfer_replaces subst ty
    obtain rfl := Option.some.inj (ran.symm.trans ran')
    exact comes id has

/-- The query and the substitution agree on a type just if one with a variable has one outside the
wrappers. A type with no variable must not be nested to the depth where the rewriting gives up. -/
theorem queriesAgree_iff_varsOutside {ty : Ty} (built : ty.Built)
    (shallow : (∃ id, ty.HasVar id) ∨ ty.nesting < maxRewriteDepth) :
    QueriesAgree ty ↔ VarsOutside ty :=
  ⟨QueriesAgree.varsOutside, queriesAgree_of_varsOutside built shallow⟩

/-- A variable beside a wrapper: the query sees it. -/
theorem pair_agrees :
    QueriesAgree (.reference ⟨['P']⟩ [.inferenceVar 1, .nullable (.inferenceVar 2)] none) ↔
      VarsOutside (.reference ⟨['P']⟩ [.inferenceVar 1, .nullable (.inferenceVar 2)] none) := by
  refine queriesAgree_iff_varsOutside (.mk trivial fun c part => ?_)
    (Or.inl ⟨1, .inside List.mem_cons_self .here⟩)
  have leaf : ∀ id, (Ty.inferenceVar id).Built := fun id =>
    .mk trivial fun c part => absurd part List.not_mem_nil
  rcases List.mem_cons.mp part with rfl | part
  · exact leaf 1
  · obtain rfl := List.mem_singleton.mp part
    refine .mk trivial fun c part => ?_
    obtain rfl := List.mem_singleton.mp part
    exact leaf 2

/-- A nullable variable: the query does not see it. -/
theorem nullable_var_unseen : ¬ ∀ ty : Ty, ty.Built → QueriesAgree ty := by
  intro claim
  have built : (Ty.nullable (.inferenceVar 1)).Built := by
    refine .mk trivial fun c part => ?_
    obtain rfl := List.mem_singleton.mp part
    exact .mk trivial fun c part => absurd part List.not_mem_nil
  have seen := (claim _ built).queried 1 (.inside List.mem_cons_self .here)
  exact absurd seen (by decide)

end CaffeineLs.HirTy
