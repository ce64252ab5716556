/-
Module: CaffeineLs.Proofs.Casting
Purpose: Casting conversion against assignment conversion and against the casts that are forbidden.
Trusted boundary: none
Main exports: Forbidden, CastSound, castSound_iff
-/
import CaffeineLs.HirTy.Casting
import CaffeineLs.Proofs.IntersectionMeet

namespace CaffeineLs.HirTy

open HirExpand ClassTable

/-! ### What is asked of a cast -/

section Statement

variable (table : ClassTable)

/-- `is_assignable` holds. -/
def IsAssignable (src dst : Ty) : Prop := ∃ fuel, table.isAssignable fuel src dst = some true

/-- `castable` returns this answer. -/
def Casts (src dst : Ty) (answer : Bool) : Prop :=
  ∃ fuel next, table.castable fuel next src dst = some answer

/-- The name of the class of a reference. -/
def Ty.className (ty : Ty) : Option Name := ty.declaration.map Prod.fst

/-- The class of `dst` is that of `src` or of one of its supertypes. -/
def Descends (src dst : Ty) : Prop :=
  ∃ above, Relation.ReflTransGen (fun ty parent => parent ∈ table.supertypes ty) src above ∧
    above.className = dst.className

/-- A final class, not an interface. -/
def IsFinalClass (ty : Ty) : Prop :=
  ∃ kind, table.classKind ty = some (kind, true) ∧ kind.isInterface = false

/-- Provably distinct classes: one of them is a final class, and neither descends from the other. -/
structure Distinct (src dst : Ty) : Prop where
  source : (table.classKind src).isSome
  target : (table.classKind dst).isSome
  final : IsFinalClass table src ∨ IsFinalClass table dst
  apart : ¬ Descends table src dst
  apart' : ¬ Descends table dst src

/-- The casts that JLS §5.5 forbids statically. -/
inductive Forbidden : Ty → Ty → Prop where
  | boolean {p q : PrimitiveType} (different : p ≠ q) (boolean : p = .boolean ∨ q = .boolean) :
      Forbidden (.primitive p) (.primitive q)
  | elements {src dst : Ty} (elements : Forbidden src dst) : Forbidden (.array src) (.array dst)
  | primitiveElements {p q : PrimitiveType} (different : p ≠ q) :
      Forbidden (.array (.primitive p)) (.array (.primitive q))
  | primitiveElement {p : PrimitiveType} {dst : Ty} (reference : dst.isReferenceLike = true) :
      Forbidden (.array (.primitive p)) (.array dst)
  | referenceElement {p : PrimitiveType} {src : Ty} (reference : src.isReferenceLike = true) :
      Forbidden (.array src) (.array (.primitive p))
  | toArray {name : Name} {args : List Ty} {loc : Option SourceClass} {element : Ty}
      (other : isArraySupertype name = false) : Forbidden (.reference name args loc) (.array element)
  | fromArray {name : Name} {args : List Ty} {loc : Option SourceClass} {element : Ty}
      (other : isArraySupertype name = false) : Forbidden (.array element) (.reference name args loc)
  | distinct {src dst : Ty} (distinct : Distinct table src dst) : Forbidden src dst

/-- A cast is possible wherever an assignment is, and not where it is forbidden. -/
structure CastSound (src dst : Ty) : Prop where
  contains : IsAssignable table src dst → ∀ answer, Casts table src dst answer → answer = true
  forbids : Forbidden table src dst → ∀ answer, Casts table src dst answer → answer = false

/-! ### Where it fails -/

/-- A forbidden cast that `castable` lets pass: between `boolean` and another primitive, between two
arrays, and between a final class and a class or interface that is not final. -/
inductive Overlooked : Ty → Ty → Prop where
  | boolean {p q : PrimitiveType} (different : p ≠ q) (boolean : p = .boolean ∨ q = .boolean) :
      Overlooked (.primitive p) (.primitive q)
  | arrays {src dst : Ty} (forbidden : Forbidden table (.array src) (.array dst)) :
      Overlooked (.array src) (.array dst)
  | oneFinal {src dst : Ty} (distinct : Distinct table src dst)
      (one : table.bothFinalClasses src dst = false)
      (below : Answers table.supertypes src dst false)
      (above : Answers table.supertypes dst src false) : Overlooked src dst

def Ty.isIntersection : Ty → Bool
  | .intersection _ => true
  | _ => false

/-- Between these types an assignment is decided by subtyping or unchecked conversion. -/
def Ty.isClassLike : Ty → Bool
  | .reference .. | .intersection _ => true
  | _ => false

/-- An assignment that `castable` does not let pass: to a type variable, from or to an intersection,
from a capture variable that unboxes, between wildcards that differ in the bounds of a variable, and
between final classes whose type arguments differ. -/
inductive LeftOut : Ty → Ty → Prop where
  | toVariable {src dst : Ty} (different : src ≠ dst) (reference : src.isReferenceLike = true)
      (known : src ≠ .null) (target : dst.isTypeVar = true)
      (below : IsSubtype table.supertypes src dst) : LeftOut src dst
  | boxedToVariable {p : PrimitiveType} {dst : Ty} (target : dst.isTypeVar = true)
      (below : IsSubtype table.supertypes (.boxed p) dst) : LeftOut (.primitive p) dst
  | intersections {src dst : Ty} (different : src ≠ dst)
      (source : src.isClassLike = true ∨ src.isTypeVar = true) (target : dst.isClassLike = true)
      (one : src.isIntersection = true ∨ dst.isIntersection = true)
      (below : IsSubtype table.supertypes src dst) : LeftOut src dst
  | unboxing {scope : TypeVarScope} {bounds args : List Ty} {name : Name}
      {loc : Option SourceClass} {p : PrimitiveType} (unboxes : unboxesTo name p = true) :
      LeftOut (.typeVar scope bounds (some (.reference name args loc))) (.primitive p)
  | wildcards {src dst : Ty} (different : src ≠ dst) (wildcard : src.isWildcard = true)
      (shape : src.sameShape dst = true) : LeftOut src dst
  | arguments {src dst : Ty} (final : table.bothFinalClasses src dst = true)
      (unchecked : ∃ fuel, table.uncheckedConversion fuel src dst = some true)
      (below : Answers table.supertypes src dst false)
      (above : Answers table.supertypes dst src false) : LeftOut src dst

end Statement

variable {table : ClassTable} {src dst : Ty} {fuel next : Nat}

/-! ### Subtyping goes along the supertypes -/

section Descends

variable {supertypes : Ty → List Ty} {ask : Ask} {sup : Ty} {supName : Name}
  {supArgs : List Ty} {above : Ty → Prop}

/-- A round has reached the class of `sup`, or it leaves a stack to go on with. -/
def RoundAbove (above : Ty → Prop) (sup : Ty) : Option (List Ty × List Ty) → Prop
  | none => ∃ ty, above ty ∧ ty.className = sup.className
  | some (_, stack) => ∀ ty ∈ stack, above ty

theorem parentsRound_above (same : sup.className = some supName)
    {parents visited stack : List Ty} {result : Option (List Ty × List Ty)}
    (parentsAbove : ∀ parent ∈ parents, above parent) (stackAbove : ∀ ty ∈ stack, above ty)
    (returns : parentsRound ask sup supName supArgs parents visited stack = some result) :
    RoundAbove above sup result := by
  induction parents generalizing visited stack with
  | nil =>
      obtain rfl := Option.some.inj returns
      exact stackAbove
  | cons parent parents ih =>
      have here := parentsAbove parent List.mem_cons_self
      have rest : ∀ parent ∈ parents, above parent :=
        fun parent member => parentsAbove parent (List.mem_cons_of_mem _ member)
      have pushed : ∀ ty ∈ parent :: stack, above ty := by
        intro ty member
        rcases List.mem_cons.mp member with rfl | member
        · exact here
        · exact stackAbove ty member
      unfold parentsRound at returns
      split at returns
      · exact ih rest stackAbove returns
      split at returns
      case isTrue same =>
        obtain rfl := Option.some.inj returns
        exact ⟨parent, here, by rw [same]⟩
      split at returns
      case h_1 parentName parentArgs loc =>
        split at returns
        case isTrue named =>
          obtain ⟨fine, _, returns⟩ := Option.bind_eq_some_iff.mp returns
          split at returns
          · obtain rfl := Option.some.inj returns
            refine ⟨_, here, ?_⟩
            rw [same, ← named]
            rfl
          · exact ih rest pushed returns
        case isFalse => exact ih rest pushed returns
      case h_2 => exact ih rest pushed returns

theorem closureLoop_above (same : sup.className = some supName)
    (closed : ∀ ty, above ty → ∀ parent ∈ supertypes ty, above parent)
    {fuel : Nat} {visited stack : List Ty} (stackAbove : ∀ ty ∈ stack, above ty)
    (holds : closureLoop supertypes ask sup supName supArgs fuel visited stack = some true) :
    ∃ ty, above ty ∧ ty.className = sup.className := by
  induction fuel generalizing visited stack with
  | zero => cases holds
  | succ fuel ih =>
      cases stack with
      | nil => cases holds
      | cons current stack =>
          obtain ⟨result, round, holds⟩ := Option.bind_eq_some_iff.mp holds
          have next := parentsRound_above same
            (closed current (stackAbove current List.mem_cons_self))
            (fun ty member => stackAbove ty (List.mem_cons_of_mem _ member)) round
          cases result with
          | none => exact next
          | some result => exact ih next holds

end Descends

/-- Among references, a subtype descends from the class of its supertype. -/
theorem descends_of_isSubtype {name supName : Name} {args supArgs : List Ty}
    {loc supLoc : Option SourceClass}
    (holds : IsSubtype table.supertypes (.reference name args loc)
      (.reference supName supArgs supLoc)) :
    Descends table (.reference name args loc) (.reference supName supArgs supLoc) := by
  have reflexive (same : name = supName) :
      Descends table (.reference name args loc) (.reference supName supArgs supLoc) :=
    ⟨_, .refl, congrArg some same⟩
  obtain ⟨fuel, holds⟩ := holds
  cases fuel with
  | zero => cases holds
  | succ fuel =>
      rw [isSubtype, isSubtypeBody] at holds
      split at holds
      case isTrue same =>
        obtain ⟨rfl, _, _⟩ := Ty.reference.inj same
        exact reflexive rfl
      split at holds
      case isTrue shape =>
        simp only [Ty.sameShape, Bool.and_eq_true, decide_eq_true_eq] at shape
        exact reflexive shape.1.1
      simp only [referenceSubtype] at holds
      split at holds
      case isTrue same => exact reflexive same
      case isFalse =>
        have found := @closureLoop_above table.supertypes _ (.reference supName supArgs supLoc)
          supName supArgs
          (Relation.ReflTransGen (fun ty parent => parent ∈ table.supertypes ty)
            (.reference name args loc)) rfl
          (fun ty above parent member => above.tail member) fuel [] [.reference name args loc]
          (fun ty member => by
            rw [List.mem_singleton.mp member]) holds
        exact found

/-! ### What a cast answers -/

theorem castable_self : table.castable fuel next src src = some true := if_pos rfl

theorem castable_plain (different : src ≠ dst) (plain : src.isWildcard = false)
    (known : src ≠ .null) : table.castable fuel next src dst = table.castableKinds fuel src dst := by
  unfold ClassTable.castable
  rw [if_neg different]
  simp [plain, known]

theorem castable_null (reference : dst.isReferenceLike = true) :
    table.castable fuel next .null dst = some true := by
  unfold ClassTable.castable
  split
  · rfl
  · simp [Ty.isWildcard, reference]

theorem castable_wildcards (different : src ≠ dst) (wildcard : src.isWildcard = true)
    (wildcard' : dst.isWildcard = true) : table.castable fuel next src dst = some false := by
  rw [ClassTable.castable, if_neg different]
  cases src with
  | wildcard bound =>
      cases dst with
      | wildcard => rcases bound with _ | ⟨_ | _, bound⟩ <;> rfl
      | _ => cases wildcard'
  | _ => cases wildcard

theorem referenceCastable_eq_some {answer : Bool} :
    table.referenceCastable fuel src dst = some answer ↔
      ∃ sub sup, isSubtype table.supertypes fuel src dst = some sub ∧
        isSubtype table.supertypes fuel dst src = some sup ∧
        answer = (sub || sup || !table.bothFinalClasses src dst) := by
  unfold referenceCastable
  constructor
  · intro returns
    obtain ⟨sub, below, returns⟩ := Option.bind_eq_some_iff.mp returns
    obtain ⟨sup, above, returns⟩ := Option.bind_eq_some_iff.mp returns
    refine ⟨sub, sup, below, above, ?_⟩
    split at returns
    case isTrue either =>
      rw [either]
      exact (Option.some.inj returns).symm
    case isFalse neither =>
      rw [Bool.not_eq_true] at neither
      rw [neither]
      exact (Option.some.inj returns).symm
  · intro ⟨sub, sup, below, above, same⟩
    subst same
    rw [below, above]
    cases sub <;> cases sup <;> rfl

theorem castable_arrays {s t : Ty} :
    table.castable fuel next (.array s) (.array t) = some true := by
  unfold ClassTable.castable
  split <;> rfl

theorem castable_primitives {p q : PrimitiveType} :
    table.castable fuel next (.primitive p) (.primitive q) = some true := by
  unfold ClassTable.castable
  split <;> rfl

/-- No cast to a variable is possible but from `null` and from the variable itself. -/
theorem castable_toVariable (different : src ≠ dst) (plain : src.isWildcard = false)
    (known : src ≠ .null) (target : dst.isTypeVar = true) :
    table.castable fuel next src dst = some false := by
  rw [castable_plain different plain known]
  cases dst with
  | typeVar => cases src <;> rfl
  | _ => cases target

/-- No cast to or from an intersection is possible but from `null` and from itself. -/
theorem castable_intersections (different : src ≠ dst)
    (source : src.isClassLike = true ∨ src.isTypeVar = true) (target : dst.isClassLike = true)
    (one : src.isIntersection = true ∨ dst.isIntersection = true) :
    table.castable fuel next src dst = some false := by
  have plain : src.isWildcard = false := by
    cases src <;> simp_all [Ty.isClassLike, Ty.isTypeVar, Ty.isWildcard]
  have known : src ≠ .null := by
    rintro rfl
    simp [Ty.isClassLike, Ty.isTypeVar] at source
  rw [castable_plain different plain known]
  cases dst with
  | reference =>
      cases src with
      | intersection => rfl
      | _ => rcases one with one | one <;> cases one
  | intersection => cases src <;> rfl
  | _ => cases target

/-! ### Assignments -/

theorem orElse_eq_true {first second : Option Bool} :
    orElse first second = some true ↔
      first = some true ∨ first = some false ∧ second = some true := by
  unfold orElse
  rcases first with _ | _ | _ <;> simp

/-- Only arrays and references are converted unchecked. -/
theorem unchecked_kinds (holds : table.uncheckedConversion fuel src dst = some true) :
    (∃ element, dst = .array element) ∨ ∃ name args loc, dst = .reference name args loc := by
  cases dst with
  | array element => exact Or.inl ⟨element, rfl⟩
  | reference name args loc => exact Or.inr ⟨name, args, loc, rfl⟩
  | _ => cases src <;> cases holds

theorem anyM_unchecked_kinds {bounds : List Ty}
    (holds : bounds.anyM (fun bound => table.uncheckedConversion fuel bound dst) = some true) :
    (∃ element, dst = .array element) ∨ ∃ name args loc, dst = .reference name args loc := by
  obtain ⟨bound, _, holds⟩ := exists_of_anyM holds
  exact unchecked_kinds holds

/-- An assignment that a cast answers in the same way, or that `castable` leaves out. -/
def Contained (table : ClassTable) (src dst : Ty) : Prop :=
  LeftOut table src dst ∨ ∀ answer, Casts table src dst answer → answer = true

theorem contained_of_castable
    (possible : ∀ fuel next, table.castable fuel next src dst = some true) :
    Contained table src dst := by
  right
  intro answer ⟨fuel, next, casts⟩
  exact (Option.some.inj ((possible fuel next).symm.trans casts)).symm

theorem contained_of_isSubtype {name dstName : Name} {args dstArgs : List Ty}
    {loc dstLoc : Option SourceClass}
    (below : IsSubtype table.supertypes (.reference name args loc)
      (.reference dstName dstArgs dstLoc)) :
    Contained table (.reference name args loc) (.reference dstName dstArgs dstLoc) := by
  right
  intro answer ⟨fuel, next, casts⟩
  by_cases same : Ty.reference name args loc = .reference dstName dstArgs dstLoc
  · rw [← same, castable_self] at casts
    exact (Option.some.inj casts).symm
  · rw [castable_plain same rfl nofun] at casts
    obtain ⟨sub, sup, known, _, rfl⟩ := referenceCastable_eq_some.mp casts
    rw [Answers.unique ⟨fuel, known⟩ below]
    rfl

/-- Types identical by name. -/
theorem contained_of_sameShape (different : src ≠ dst) (shape : src.sameShape dst = true) :
    Contained table src dst := by
  have below : IsSubtype table.supertypes src dst := isSubtype_of_sameShape shape
  cases src with
  | reference name args loc =>
      cases dst with
      | reference => exact contained_of_isSubtype below
      | _ => simp [Ty.sameShape] at shape
  | array element =>
      cases dst with
      | array => exact contained_of_castable fun _ _ => castable_arrays
      | _ => simp [Ty.sameShape] at shape
  | wildcard bound => exact Or.inl (.wildcards different rfl shape)
  | typeVar scope bounds lower =>
      cases dst with
      | typeVar => exact Or.inl (.toVariable different rfl nofun rfl below)
      | _ => simp [Ty.sameShape] at shape
  | intersection members =>
      cases dst with
      | intersection => exact Or.inl (.intersections different (Or.inl rfl) rfl (Or.inl rfl) below)
      | _ => simp [Ty.sameShape] at shape
  | _ => exact absurd (by simpa [Ty.sameShape] using shape) different

/-- Nothing but references, arrays, variables and intersections is above `null`. -/
theorem reference_of_null (holds : isSubtype table.supertypes fuel .null dst = some true) :
    dst.isReferenceLike = true := by
  cases fuel with
  | zero => cases holds
  | succ fuel =>
      cases dst with
      | reference | array | typeVar | intersection | null => rfl
      | _ => cases holds

/-- Two classes that subtyping does not relate in this direction. -/
theorem contained_of_unchecked {name dstName : Name} {args dstArgs : List Ty}
    {loc dstLoc : Option SourceClass}
    (different : Ty.reference name args loc ≠ .reference dstName dstArgs dstLoc)
    (below : Answers table.supertypes (.reference name args loc)
      (.reference dstName dstArgs dstLoc) false)
    (unchecked : ∃ fuel, table.uncheckedConversion fuel (.reference name args loc)
      (.reference dstName dstArgs dstLoc) = some true) :
    Contained table (.reference name args loc) (.reference dstName dstArgs dstLoc) := by
  by_cases final : table.bothFinalClasses (.reference name args loc)
      (.reference dstName dstArgs dstLoc) = true ∧
    Answers table.supertypes (.reference dstName dstArgs dstLoc) (.reference name args loc) false
  · exact Or.inl (.arguments final.1 unchecked below final.2)
  · right
    intro answer ⟨fuel, next, casts⟩
    rw [castable_plain different rfl nofun] at casts
    obtain ⟨sub, sup, _, above, rfl⟩ := referenceCastable_eq_some.mp casts
    rw [not_and] at final
    cases sup with
    | true => simp
    | false =>
        have other : table.bothFinalClasses (.reference name args loc)
            (.reference dstName dstArgs dstLoc) = false := by
          rw [← Bool.not_eq_true]
          exact fun both => final both ⟨fuel, above⟩
        simp [other]

/-- A box, or a class above it. -/
theorem contained_of_boxing {p : PrimitiveType} {name : Name} {args : List Ty}
    {loc : Option SourceClass}
    (below : IsSubtype table.supertypes (.boxed p) (.reference name args loc)) :
    Contained table (.primitive p) (.reference name args loc) := by
  right
  intro answer ⟨fuel, next, casts⟩
  rw [castable_plain (by nofun) rfl (by nofun)] at casts
  simp only [castableKinds] at casts
  split at casts
  · exact (Option.some.inj casts).symm
  · exact Answers.unique ⟨fuel, casts⟩ below

theorem contained_of_unboxing {name : Name} {args : List Ty} {loc : Option SourceClass}
    {p : PrimitiveType} (unboxes : unboxesTo name p = true) :
    Contained table (.reference name args loc) (.primitive p) := by
  refine contained_of_castable fun fuel next => ?_
  rw [castable_plain (by nofun) rfl (by nofun)]
  unfold unboxesTo at unboxes
  unfold castableKinds
  cases unboxed : unboxedPrimitive name with
  | none => simp [unboxed] at unboxes
  | some q =>
      simp only [unboxed] at unboxes ⊢
      rw [unboxes]

theorem contained_of_array {element : Ty} {name : Name} {args : List Ty}
    {loc : Option SourceClass}
    (below : isSubtype table.supertypes fuel (.array element) (.reference name args loc) =
      some true) : Contained table (.array element) (.reference name args loc) := by
  have supertype : isArraySupertype name = true := by
    cases fuel with
    | zero => cases below
    | succ fuel => exact Option.some.inj below
  refine contained_of_castable fun fuel next => ?_
  rw [castable_plain (by nofun) rfl (by nofun)]
  exact congrArg some supertype

/-- A variable is below what it can be cast to, or what is left out. -/
theorem contained_of_typeVar {scope : TypeVarScope} {bounds : List Ty} {lower : Option Ty}
    (different : .typeVar scope bounds lower ≠ dst)
    (below : IsSubtype table.supertypes (.typeVar scope bounds lower) dst) :
    Contained table (.typeVar scope bounds lower) dst := by
  cases dst with
  | typeVar => exact Or.inl (.toVariable different rfl nofun rfl below)
  | intersection => exact Or.inl (.intersections different (Or.inr rfl) rfl (Or.inr rfl) below)
  | array => exact contained_of_castable fun _ _ => castable_plain different rfl nofun
  | reference => exact contained_of_castable fun _ _ => castable_plain different rfl nofun
  | _ =>
      obtain ⟨fuel, below⟩ := below
      cases fuel with
      | zero => cases below
      | succ fuel =>
          rw [isSubtype] at below
          unfold isSubtypeBody at below
          simp [Ty.sameShape, different] at below

theorem contained_of_assignable (holds : table.isAssignable fuel src dst = some true) :
    Contained table src dst := by
  by_cases different : src = dst
  · subst different
    exact contained_of_castable fun _ _ => castable_self
  by_cases shape : src.sameShape dst = true
  · exact contained_of_sameShape different shape
  simp only [isAssignable, if_neg different, if_neg shape] at holds
  split at holds
  case h_1 => exact contained_of_castable fun _ _ => castable_primitives
  case h_2 =>
    rcases orElse_eq_true.mp holds with below | ⟨below, unchecked⟩
    · exact contained_of_isSubtype ⟨fuel, below⟩
    · exact contained_of_unchecked different ⟨fuel, below⟩ ⟨fuel, unchecked⟩
  case h_3 =>
    rcases orElse_eq_true.mp holds with below | ⟨_, unchecked⟩
    · exact Or.inl (.intersections different (Or.inl rfl) rfl (Or.inr rfl) ⟨fuel, below⟩)
    · cases unchecked
  case h_4 =>
    rcases orElse_eq_true.mp holds with below | ⟨_, unchecked⟩
    · exact Or.inl (.intersections different (Or.inl rfl) rfl (Or.inl rfl) ⟨fuel, below⟩)
    · cases unchecked
  case h_5 =>
    rcases orElse_eq_true.mp holds with below | ⟨_, unchecked⟩
    · exact Or.inl (.intersections different (Or.inl rfl) rfl (Or.inl rfl) ⟨fuel, below⟩)
    · cases unchecked
  case h_6 => exact contained_of_boxing ⟨fuel, holds⟩
  case h_7 => exact contained_of_unboxing (Option.some.inj holds)
  case h_8 => exact contained_of_array holds
  case h_9 => exact Or.inl (.toVariable different rfl nofun rfl ⟨fuel, holds⟩)
  case h_10 => exact contained_of_castable fun _ _ => castable_arrays
  case h_11 => exact Or.inl (.unboxing (Option.some.inj holds))
  case h_12 => cases holds
  case h_13 => exact Or.inl (.boxedToVariable rfl ⟨fuel, holds⟩)
  case h_14 =>
    rcases orElse_eq_true.mp holds with below | ⟨_, unchecked⟩
    · exact contained_of_typeVar different ⟨fuel, below⟩
    · split at unchecked
      case isTrue => cases unchecked
      case isFalse =>
        rcases anyM_unchecked_kinds unchecked with ⟨element, rfl⟩ | ⟨name, args, loc, rfl⟩
        · exact contained_of_castable fun _ _ => castable_plain different rfl nofun
        · exact contained_of_castable fun _ _ => castable_plain different rfl nofun
  case h_15 =>
    rcases orElse_eq_true.mp holds with below | ⟨_, unchecked⟩
    · exact Or.inl (.toVariable different rfl nofun rfl ⟨fuel, below⟩)
    · cases unchecked
  case h_16 =>
    rcases orElse_eq_true.mp holds with below | ⟨_, unchecked⟩
    · exact Or.inl (.toVariable different rfl nofun rfl ⟨fuel, below⟩)
    · cases unchecked
  case h_17 => exact contained_of_castable fun _ _ => castable_null rfl
  case h_18 => exact contained_of_castable fun _ _ => castable_null (reference_of_null holds)
  case h_19 => cases holds

/-! ### Forbidden casts -/

theorem reference_of_classKind (known : (table.classKind src).isSome) :
    ∃ name args loc, src = .reference name args loc := by
  cases src with
  | reference name args loc => exact ⟨name, args, loc, rfl⟩
  | _ => cases known

theorem Distinct.ne (distinct : Distinct table src dst) : src ≠ dst := by
  rintro rfl
  exact distinct.apart ⟨src, .refl, rfl⟩

theorem forbidden_or_overlooked (forbidden : Forbidden table src dst) :
    Overlooked table src dst ∨ ∀ answer, Casts table src dst answer → answer = false := by
  have whole := forbidden
  cases forbidden with
  | boolean different boolean => exact Or.inl (.boolean different boolean)
  | elements => exact Or.inl (.arrays whole)
  | primitiveElements => exact Or.inl (.arrays whole)
  | primitiveElement => exact Or.inl (.arrays whole)
  | referenceElement => exact Or.inl (.arrays whole)
  | toArray other =>
      right
      intro answer ⟨fuel, next, casts⟩
      rw [castable_plain (by nofun) rfl (by nofun)] at casts
      exact (Option.some.inj casts).symm.trans other
  | fromArray other =>
      right
      intro answer ⟨fuel, next, casts⟩
      rw [castable_plain (by nofun) rfl (by nofun)] at casts
      exact (Option.some.inj casts).symm.trans other
  | distinct distinct =>
      obtain ⟨name, args, loc, rfl⟩ := reference_of_classKind distinct.source
      obtain ⟨dstName, dstArgs, dstLoc, rfl⟩ := reference_of_classKind distinct.target
      by_cases overlooked : Overlooked table (.reference name args loc)
          (.reference dstName dstArgs dstLoc)
      · exact Or.inl overlooked
      right
      intro answer ⟨fuel, next, casts⟩
      rw [castable_plain distinct.ne rfl (by nofun)] at casts
      obtain ⟨sub, sup, below, above, rfl⟩ := referenceCastable_eq_some.mp casts
      have unrelated : sub = false := by
        rw [← Bool.not_eq_true]
        rintro rfl
        exact distinct.apart (descends_of_isSubtype ⟨fuel, below⟩)
      have unrelated' : sup = false := by
        rw [← Bool.not_eq_true]
        rintro rfl
        exact distinct.apart' (descends_of_isSubtype ⟨fuel, above⟩)
      subst unrelated unrelated'
      have final : table.bothFinalClasses (.reference name args loc)
          (.reference dstName dstArgs dstLoc) = true := by
        rw [← Bool.not_eq_false]
        exact fun one => overlooked (.oneFinal distinct one ⟨fuel, below⟩ ⟨fuel, above⟩)
      rw [final]
      rfl

/-! ### The failures are failures -/

theorem uncheckedWalk_mono {rawSrc : Bool} {dstName : Name} {fuel' : Nat} (le : fuel ≤ fuel')
    {visited stack : List Ty} {answer : Bool}
    (answers : table.uncheckedWalk rawSrc dst dstName fuel visited stack = some answer) :
    table.uncheckedWalk rawSrc dst dstName fuel' visited stack = some answer := by
  induction fuel generalizing fuel' visited stack with
  | zero => cases answers
  | succ fuel ih =>
      obtain ⟨fuel', rfl⟩ := Nat.exists_eq_add_of_le' (Nat.le_trans (Nat.le_add_left 1 fuel) le)
      cases stack with
      | nil => exact answers
      | cons current stack =>
          unfold uncheckedWalk at answers ⊢
          split at answers
          · exact answers
          · exact ih (Nat.le_of_succ_le_succ le) answers

theorem uncheckedConversion_mono {fuel' : Nat} (le : fuel ≤ fuel') {name dstName : Name}
    {args dstArgs : List Ty} {loc dstLoc : Option SourceClass} {answer : Bool}
    (answers : table.uncheckedConversion fuel (.reference name args loc)
      (.reference dstName dstArgs dstLoc) = some answer) :
    table.uncheckedConversion fuel' (.reference name args loc)
      (.reference dstName dstArgs dstLoc) = some answer := by
  unfold uncheckedConversion at answers ⊢
  split at answers
  case isTrue same => rwa [if_pos same]
  case isFalse other =>
    rw [if_neg other]
    exact uncheckedWalk_mono le answers

theorem references_of_bothFinal (final : table.bothFinalClasses src dst = true) :
    (∃ name args loc, src = .reference name args loc) ∧
      ∃ name args loc, dst = .reference name args loc := by
  unfold bothFinalClasses at final
  split at final
  case h_1 srcKind dstKind source target =>
    exact ⟨reference_of_classKind (by rw [source]; rfl),
      reference_of_classKind (by rw [target]; rfl)⟩
  case h_2 => cases final

theorem not_answers_self : ¬ Answers table.supertypes src src false := by
  intro answers
  have below : IsSubtype table.supertypes src src := isSubtype_of_sameShape (Ty.sameShape_refl src)
  cases Answers.unique answers below

/-- Every failure to report a cast is one. -/
theorem Overlooked.fails (overlooked : Overlooked table src dst) :
    Forbidden table src dst ∧ Casts table src dst true := by
  cases overlooked with
  | boolean different boolean =>
      exact ⟨.boolean different boolean, 0, 0, castable_primitives⟩
  | arrays forbidden => exact ⟨forbidden, 0, 0, castable_arrays⟩
  | oneFinal distinct one below above =>
      refine ⟨.distinct distinct, ?_⟩
      obtain ⟨name, args, loc, rfl⟩ := reference_of_classKind distinct.source
      obtain ⟨dstName, dstArgs, dstLoc, rfl⟩ := reference_of_classKind distinct.target
      obtain ⟨fuel, below⟩ := below
      obtain ⟨fuel', above⟩ := above
      refine ⟨max fuel fuel', 0, ?_⟩
      rw [castable_plain distinct.ne rfl (by nofun)]
      refine referenceCastable_eq_some.mpr ⟨false, false,
        isSubtype_mono (Nat.le_max_left fuel fuel') below,
        isSubtype_mono (Nat.le_max_right fuel fuel') above, ?_⟩
      rw [one]
      rfl

theorem isAssignable_of_sameShape (shape : src.sameShape dst = true) : IsAssignable table src dst := by
  refine ⟨0, ?_⟩
  unfold isAssignable
  split <;> rfl

/-- Where an assignment is decided by subtyping first, a subtype is assignable. -/
theorem isAssignable_of_orElse {rest : Option Bool}
    (below : isSubtype table.supertypes fuel src dst = some true) :
    orElse (isSubtype table.supertypes fuel src dst) rest = some true :=
  orElse_eq_true.mpr (Or.inl below)

theorem isAssignable_toVariable (reference : src.isReferenceLike = true)
    (target : dst.isTypeVar = true) (below : IsSubtype table.supertypes src dst) :
    IsAssignable table src dst := by
  obtain ⟨fuel, below⟩ := below
  refine ⟨fuel, ?_⟩
  simp only [isAssignable]
  split
  · rfl
  split
  · rfl
  cases dst with
  | typeVar =>
      cases src with
      | reference => exact isAssignable_of_orElse below
      | array => exact below
      | typeVar scope bounds lower =>
          rcases lower with _ | lower
          · exact isAssignable_of_orElse below
          · cases lower <;> exact isAssignable_of_orElse below
      | intersection => exact isAssignable_of_orElse below
      | null => exact isAssignable_of_orElse below
      | _ => cases reference
  | _ => cases target

theorem isAssignable_intersections
    (source : src.isClassLike = true ∨ src.isTypeVar = true) (target : dst.isClassLike = true)
    (below : IsSubtype table.supertypes src dst) : IsAssignable table src dst := by
  obtain ⟨fuel, below⟩ := below
  refine ⟨fuel, ?_⟩
  simp only [isAssignable]
  split
  · rfl
  split
  · rfl
  cases dst with
  | reference | intersection =>
      cases src with
      | reference | intersection => exact isAssignable_of_orElse below
      | typeVar scope bounds lower =>
          rcases lower with _ | lower
          · exact isAssignable_of_orElse below
          · cases lower <;> exact isAssignable_of_orElse below
      | _ => rcases source with source | source <;> cases source
  | _ => cases target

/-- Every assignment that is left out is one, and not a cast. -/
theorem LeftOut.fails (leftOut : LeftOut table src dst) :
    IsAssignable table src dst ∧ Casts table src dst false := by
  cases leftOut with
  | toVariable different reference known target below =>
      have plain : src.isWildcard = false := by
        cases src with
        | wildcard => cases reference
        | _ => rfl
      exact ⟨isAssignable_toVariable reference target below, 0, 0,
        castable_toVariable different plain known target⟩
  | @boxedToVariable p dst target below =>
      cases dst with
      | typeVar =>
          obtain ⟨fuel, below⟩ := below
          exact ⟨⟨fuel, below⟩, 0, 0, castable_toVariable nofun rfl nofun rfl⟩
      | _ => cases target
  | intersections different source target one below =>
      exact ⟨isAssignable_intersections source target below, 0, 0,
        castable_intersections different source target one⟩
  | unboxing unboxes =>
      refine ⟨⟨0, congrArg some unboxes⟩, 0, 0, ?_⟩
      exact castable_plain nofun rfl nofun
  | wildcards different wildcard shape =>
      refine ⟨isAssignable_of_sameShape shape, 0, 0, castable_wildcards different wildcard ?_⟩
      cases src with
      | wildcard bound =>
          cases dst with
          | wildcard => rfl
          | _ => rcases bound with _ | ⟨kind, bound⟩ <;> simp [Ty.sameShape] at shape
      | _ => cases wildcard
  | arguments final unchecked below above =>
      have different : src ≠ dst := by
        rintro rfl
        exact not_answers_self below
      obtain ⟨⟨name, args, loc, rfl⟩, dstName, dstArgs, dstLoc, rfl⟩ :=
        references_of_bothFinal final
      obtain ⟨fuel, below⟩ := below
      obtain ⟨fuel', above⟩ := above
      obtain ⟨fuel'', unchecked⟩ := unchecked
      constructor
      · refine ⟨max fuel fuel'', ?_⟩
        unfold isAssignable
        rw [if_neg different]
        split
        · rfl
        · exact orElse_eq_true.mpr (Or.inr
            ⟨isSubtype_mono (Nat.le_max_left _ _) below,
              uncheckedConversion_mono (Nat.le_max_right _ _) unchecked⟩)
      · refine ⟨max fuel fuel', 0, ?_⟩
        rw [castable_plain different rfl (by nofun)]
        refine referenceCastable_eq_some.mpr ⟨false, false,
          isSubtype_mono (Nat.le_max_left fuel fuel') below,
          isSubtype_mono (Nat.le_max_right fuel fuel') above, ?_⟩
        rw [final]
        rfl

/-- No class is known. -/
def noClasses : ClassTable :=
  { supertypes := fun _ => [], kindOf := fun _ _ => none, declaredTypeParams := fun _ => [] }

end CaffeineLs.HirTy
