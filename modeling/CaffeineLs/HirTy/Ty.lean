/-
Module: CaffeineLs.HirTy.Ty
Purpose: Types, their equality, and the visitor of the class references in them.
Trusted boundary: an interned handle is the type it stands for.
Main exports: Ty, Ty.forEachReference
-/
import CaffeineLs.HirExpand.Name

namespace CaffeineLs.HirTy

open HirExpand

/-- The parameter that declares a type variable. -/
inductive TypeVarScope where
  | «class» (file : FileId) (item : ItemId) (name : Name)
  | method (file : FileId) (item : ItemId) (name : Name)
  | libraryClass (owner name : Name)
  | libraryMethod (owner method name : Name)
  | capture (id : Nat) (name : Name)
  | unnamed (name : Name)
deriving DecidableEq, Repr

/-- A type. `nullable`, `definitelyNonNull` and `flexible` are Kotlin's `T?`, `T & Any` and
`L..U`. -/
inductive Ty where
  | void
  | null
  | primitive (p : PrimitiveType)
  | reference (name : Name) (args : List Ty) (loc : Option SourceClass)
  | typeVar (scope : TypeVarScope) (bounds : List Ty) (lower : Option Ty)
  | array (element : Ty)
  | wildcard (bound : Option (BoundKind × Ty))
  | intersection (members : List Ty)
  | inferenceVar (id : Nat)
  | error
  | nullable (ty : Ty)
  | definitelyNonNull (ty : Ty)
  | flexible (lower upper : Ty)

/-! ### Equality -/

mutual

/-- Whether two types are the same. -/
def Ty.same : Ty → Ty → Bool
  | .void, .void => true
  | .null, .null => true
  | .primitive p, .primitive q => p = q
  | .reference a aa la, .reference b bb lb => a = b && Ty.sameAll aa bb && la = lb
  | .typeVar sa ba none, .typeVar sb bb none => sa = sb && Ty.sameAll ba bb
  | .typeVar sa ba (some la), .typeVar sb bb (some lb) =>
      sa = sb && Ty.sameAll ba bb && la.same lb
  | .array a, .array b => a.same b
  | .wildcard none, .wildcard none => true
  | .wildcard (some (ka, a)), .wildcard (some (kb, b)) => ka = kb && a.same b
  | .intersection a, .intersection b => Ty.sameAll a b
  | .inferenceVar a, .inferenceVar b => a = b
  | .error, .error => true
  | .nullable a, .nullable b => a.same b
  | .definitelyNonNull a, .definitelyNonNull b => a.same b
  | .flexible la ua, .flexible lb ub => la.same lb && ua.same ub
  | _, _ => false

def Ty.sameAll : List Ty → List Ty → Bool
  | [], [] => true
  | a :: as, b :: bs => a.same b && Ty.sameAll as bs
  | _, _ => false

end

mutual

theorem Ty.same_iff : (a b : Ty) → (a.same b = true ↔ a = b)
  | .void, b => by cases b <;> simp [Ty.same]
  | .null, b => by cases b <;> simp [Ty.same]
  | .primitive p, b => by cases b <;> simp [Ty.same]
  | .reference a aa la, b => by cases b <;> simp [Ty.same, Ty.sameAll_iff aa, and_assoc]
  | .typeVar sa ba none, b => by
      rcases b with _ | _ | _ | _ | ⟨_, _, _ | _⟩ | _ | _ | _ | _ | _ | _ | _ | _ <;>
        simp [Ty.same, Ty.sameAll_iff ba]
  | .typeVar sa ba (some la), b => by
      rcases b with _ | _ | _ | _ | ⟨_, _, _ | _⟩ | _ | _ | _ | _ | _ | _ | _ | _ <;>
        simp [Ty.same, Ty.sameAll_iff ba, Ty.same_iff la, and_assoc]
  | .array a, b => by cases b <;> simp [Ty.same, Ty.same_iff a]
  | .wildcard none, b => by
      rcases b with _ | _ | _ | _ | _ | _ | (_ | _) | _ | _ | _ | _ | _ | _ <;> simp [Ty.same]
  | .wildcard (some (ka, a)), b => by
      rcases b with _ | _ | _ | _ | _ | _ | (_ | _) | _ | _ | _ | _ | _ | _ <;>
        simp [Ty.same, Ty.same_iff a, Prod.ext_iff]
  | .intersection a, b => by cases b <;> simp [Ty.same, Ty.sameAll_iff a]
  | .inferenceVar a, b => by cases b <;> simp [Ty.same]
  | .error, b => by cases b <;> simp [Ty.same]
  | .nullable a, b => by cases b <;> simp [Ty.same, Ty.same_iff a]
  | .definitelyNonNull a, b => by cases b <;> simp [Ty.same, Ty.same_iff a]
  | .flexible la ua, b => by cases b <;> simp [Ty.same, Ty.same_iff la, Ty.same_iff ua]

theorem Ty.sameAll_iff : (as bs : List Ty) → (Ty.sameAll as bs = true ↔ as = bs)
  | [], bs => by cases bs <;> simp [Ty.sameAll]
  | a :: as, bs => by cases bs <;> simp [Ty.sameAll, Ty.same_iff a, Ty.sameAll_iff as]

end

instance : DecidableEq Ty := fun a b => decidable_of_iff _ (Ty.same_iff a b)

/-! ### The visitor -/

variable {σ : Type}

mutual

/-- Calls the visitor on the class references of a type. -/
def Ty.forEachReference (f : Name → Option SourceClass → σ → σ) : Ty → σ → σ
  | .reference name args loc, s => Ty.forEachReferenceIn f args (f name loc s)
  | .array inner, s => inner.forEachReference f s
  | .wildcard (some (_, ty)), s => ty.forEachReference f s
  | .wildcard none, s => s
  | .typeVar _ bounds (some lower), s =>
      lower.forEachReference f (Ty.forEachReferenceIn f bounds s)
  | .typeVar _ bounds none, s => Ty.forEachReferenceIn f bounds s
  | .intersection members, s => Ty.forEachReferenceIn f members s
  | _, s => s

def Ty.forEachReferenceIn (f : Name → Option SourceClass → σ → σ) : List Ty → σ → σ
  | [], s => s
  | ty :: tys, s => Ty.forEachReferenceIn f tys (ty.forEachReference f s)

end

/-- The calls the visitor gets, in order. -/
def Ty.visited (ty : Ty) : List (Name × Option SourceClass) :=
  ty.forEachReference (fun name loc calls => calls ++ [(name, loc)]) []

/-! ### The references in a type -/

/-- A constituent of a type, Kotlin's wrappers left aside. -/
inductive Ty.OpenPart : Ty → Ty → Prop where
  | arg {name : Name} {args : List Ty} {loc : Option SourceClass} {ty : Ty} (inside : ty ∈ args) :
      OpenPart (.reference name args loc) ty
  | element {ty : Ty} : OpenPart (.array ty) ty
  | wildcardBound {kind : BoundKind} {ty : Ty} : OpenPart (.wildcard (some (kind, ty))) ty
  | variableBound {scope : TypeVarScope} {bounds : List Ty} {lower : Option Ty} {ty : Ty}
      (inside : ty ∈ bounds) : OpenPart (.typeVar scope bounds lower) ty
  | lowerBound {scope : TypeVarScope} {bounds : List Ty} {ty : Ty} :
      OpenPart (.typeVar scope bounds (some ty)) ty
  | member {members : List Ty} {ty : Ty} (inside : ty ∈ members) : OpenPart (.intersection members) ty

/-- A type under one of Kotlin's wrappers. -/
inductive Ty.WrappedPart : Ty → Ty → Prop where
  | nullable {ty : Ty} : WrappedPart (.nullable ty) ty
  | definitelyNonNull {ty : Ty} : WrappedPart (.definitelyNonNull ty) ty
  | lower {lower upper : Ty} : WrappedPart (.flexible lower upper) lower
  | upper {lower upper : Ty} : WrappedPart (.flexible lower upper) upper

/-- A constituent of a type. -/
def Ty.Part (outer inner : Ty) : Prop := outer.OpenPart inner ∨ outer.WrappedPart inner

/-- A reference to the class is reachable in the type. -/
def Ty.Mentions (ty : Ty) (name : Name) (loc : Option SourceClass) : Prop :=
  ∃ args, Relation.ReflTransGen Ty.Part ty (.reference name args loc)

/-- A reference to the class is reachable without going under a Kotlin wrapper. -/
def Ty.MentionsOpenly (ty : Ty) (name : Name) (loc : Option SourceClass) : Prop :=
  ∃ args, Relation.ReflTransGen Ty.OpenPart ty (.reference name args loc)

end CaffeineLs.HirTy
