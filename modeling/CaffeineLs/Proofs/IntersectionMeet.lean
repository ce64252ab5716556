/-
Module: CaffeineLs.Proofs.IntersectionMeet
Purpose: An intersection is the meet of its members for every type but an intersection; for an
  intersection exactly when one of its members is below all of them, or one of them above none.
Trusted boundary: none
Main exports: isSubtype_mono, isSubtype_intersection_iff, intersection_meet_iff
-/
import CaffeineLs.HirTy.Subtyping

namespace CaffeineLs.HirTy

open HirExpand

/-! ### More fuel does no harm -/

/-- What `ask` answers, `ask'` answers too. -/
def Ask.Within (ask ask' : Ask) : Prop := ∀ {sub sup answer}, ask sub sup = some answer →
  ask' sub sup = some answer

section Mono

variable {α : Type} {supertypes : Ty → List Ty} {ask ask' : Ask} {fuel fuel' : Nat}

theorem allM_mono {f g : α → Option Bool} (within : ∀ {a b}, f a = some b → g a = some b)
    {items : List α} {answer : Bool} (answers : items.allM f = some answer) :
    items.allM g = some answer := by
  induction items with
  | nil => exact answers
  | cons a items ih =>
      rw [List.allM] at answers ⊢
      rcases Option.bind_eq_some_iff.mp answers with ⟨first, known, others⟩
      apply Option.bind_eq_some_iff.mpr
      refine ⟨first, within known, ?_⟩
      cases first with
      | true => exact ih others
      | false => exact others

theorem anyM_mono {f g : α → Option Bool} (within : ∀ {a b}, f a = some b → g a = some b)
    {items : List α} {answer : Bool} (answers : items.anyM f = some answer) :
    items.anyM g = some answer := by
  induction items with
  | nil => exact answers
  | cons a items ih =>
      rw [List.anyM] at answers ⊢
      rcases Option.bind_eq_some_iff.mp answers with ⟨first, known, others⟩
      apply Option.bind_eq_some_iff.mpr
      refine ⟨first, within known, ?_⟩
      cases first with
      | true => exact others
      | false => exact ih others

theorem wildcardContains_mono (within : ask.Within ask') {sub sup : BoundKind × Ty} {answer : Bool}
    (answers : wildcardContains ask sub sup = some answer) :
    wildcardContains ask' sub sup = some answer := by
  rcases sub with ⟨_ | _, sub⟩ <;> rcases sup with ⟨_ | _, sup⟩
  · exact within answers
  · exact answers
  · exact answers
  · exact within answers

theorem argOk_mono (within : ask.Within ask') {sub sup : Ty} {answer : Bool}
    (answers : argOk ask sub sup = some answer) : argOk ask' sub sup = some answer := by
  unfold argOk at answers ⊢
  split at answers
  · exact answers
  · exact wildcardContains_mono within answers
  · exact answers
  · exact within answers
  · exact within answers
  · exact answers

theorem paramsOk_mono (within : ask.Within ask') {subArgs supArgs : List Ty} {answer : Bool}
    (answers : paramsOk ask subArgs supArgs = some answer) :
    paramsOk ask' subArgs supArgs = some answer := by
  unfold paramsOk at answers ⊢
  split
  · rwa [if_pos ‹_›] at answers
  rw [if_neg ‹_›] at answers
  split
  · rwa [if_pos ‹_›] at answers
  rw [if_neg ‹_›] at answers
  split
  · rw [if_pos ‹_›] at answers
    exact allM_mono (fun known => argOk_mono within known) answers
  · rwa [if_neg ‹_›] at answers

theorem parentsRound_mono (within : ask.Within ask') {sup : Ty} {supName : Name} {supArgs : List Ty}
    {parents visited stack : List Ty} {result : Option (List Ty × List Ty)}
    (answers : parentsRound ask sup supName supArgs parents visited stack = some result) :
    parentsRound ask' sup supName supArgs parents visited stack = some result := by
  induction parents generalizing visited stack with
  | nil => exact answers
  | cons parent parents ih =>
      unfold parentsRound at answers ⊢
      split at answers
      · rw [if_pos ‹_›]
        exact ih answers
      rw [if_neg ‹_›]
      split at answers
      · rwa [if_pos ‹_›]
      rw [if_neg ‹_›]
      split at answers
      · rename_i name args _
        split at answers
        · rw [if_pos ‹_›]
          rcases Option.bind_eq_some_iff.mp answers with ⟨ok, known, others⟩
          apply Option.bind_eq_some_iff.mpr
          refine ⟨ok, paramsOk_mono within known, ?_⟩
          cases ok with
          | true => exact others
          | false => exact ih others
        · rw [if_neg ‹_›]
          exact ih answers
      · exact ih answers

theorem closureLoop_mono (within : ask.Within ask') (le : fuel ≤ fuel') {sup : Ty} {supName : Name}
    {supArgs visited stack : List Ty} {answer : Bool}
    (answers : closureLoop supertypes ask sup supName supArgs fuel visited stack = some answer) :
    closureLoop supertypes ask' sup supName supArgs fuel' visited stack = some answer := by
  induction fuel generalizing fuel' visited stack with
  | zero => cases answers
  | succ fuel ih =>
      obtain ⟨fuel', rfl⟩ : ∃ n, fuel' = n + 1 := ⟨fuel' - 1, by omega⟩
      cases stack with
      | nil => exact answers
      | cons current stack =>
          rw [closureLoop] at answers ⊢
          rcases Option.bind_eq_some_iff.mp answers with ⟨result, known, others⟩
          apply Option.bind_eq_some_iff.mpr
          refine ⟨result, parentsRound_mono within known, ?_⟩
          cases result with
          | none => exact others
          | some state => exact ih (Nat.le_of_succ_le_succ le) others

theorem boundsRound_mono (within : ask.Within ask') {sup : Ty} {bounds stack : List Ty}
    {result : Option (List Ty)} (answers : boundsRound ask sup bounds stack = some result) :
    boundsRound ask' sup bounds stack = some result := by
  induction bounds generalizing stack with
  | nil => exact answers
  | cons bound bounds ih =>
      unfold boundsRound at answers ⊢
      split at answers
      · rwa [if_pos ‹_›]
      rw [if_neg ‹_›]
      split at answers
      · rcases Option.bind_eq_some_iff.mp answers with ⟨ok, known, others⟩
        apply Option.bind_eq_some_iff.mpr
        refine ⟨ok, within known, ?_⟩
        cases ok with
        | true => exact others
        | false => exact ih others
      · exact ih answers
      · exact ih answers

theorem boundLoop_mono (within : ask.Within ask') (le : fuel ≤ fuel') {sup : Ty}
    {visited : List TypeVarScope} {stack : List Ty} {answer : Bool}
    (answers : boundLoop ask sup fuel visited stack = some answer) :
    boundLoop ask' sup fuel' visited stack = some answer := by
  induction fuel generalizing fuel' visited stack with
  | zero => cases answers
  | succ fuel ih =>
      obtain ⟨fuel', rfl⟩ : ∃ n, fuel' = n + 1 := ⟨fuel' - 1, by omega⟩
      have le' := Nat.le_of_succ_le_succ le
      cases stack with
      | nil => exact answers
      | cons current stack =>
          unfold boundLoop at answers ⊢
          split at answers
          · rename_i scope bounds lower
            rcases Option.bind_eq_some_iff.mp answers with ⟨reached, known, others⟩
            apply Option.bind_eq_some_iff.mpr
            refine ⟨reached, ?_, ?_⟩
            · cases lower with
              | none => exact known
              | some lower => exact within known
            · cases reached with
              | true => exact others
              | false =>
                  rw [if_neg (by decide)] at others ⊢
                  split at others
                  · rw [if_pos ‹_›]
                    exact ih le' others
                  · rw [if_neg ‹_›]
                    rcases Option.bind_eq_some_iff.mp others with ⟨result, known', others'⟩
                    apply Option.bind_eq_some_iff.mpr
                    refine ⟨result, boundsRound_mono within known', ?_⟩
                    cases result with
                    | none => exact others'
                    | some stack' => exact ih le' others'
          · exact ih le' answers

theorem typeVarSubtype_mono (within : ask.Within ask') (le : fuel ≤ fuel') {sub sup : Ty}
    {answer : Bool} (answers : typeVarSubtype ask fuel sub sup = some answer) :
    typeVarSubtype ask' fuel' sub sup = some answer := by
  unfold typeVarSubtype at answers ⊢
  split at answers
  · rwa [if_pos ‹_›]
  rw [if_neg ‹_›]
  split at answers
  · exact within answers
  · exact boundLoop_mono within le answers

theorem isSubtypeBody_mono (within : ask.Within ask') (le : fuel ≤ fuel') {sub sup : Ty}
    {answer : Bool} (answers : isSubtypeBody supertypes ask fuel sub sup = some answer) :
    isSubtypeBody supertypes ask' fuel' sub sup = some answer := by
  unfold isSubtypeBody at answers ⊢
  split at answers
  · rwa [if_pos ‹_›]
  rw [if_neg ‹_›]
  split at answers
  · rwa [if_pos ‹_›]
  rw [if_neg ‹_›]
  split at answers
  · exact answers
  · exact within answers
  · exact answers
  · exact within answers
  · exact typeVarSubtype_mono within le answers
  · exact typeVarSubtype_mono within le answers
  · unfold referenceSubtype at answers ⊢
    split at answers
    · rw [if_pos ‹_›]
      exact paramsOk_mono within answers
    · rw [if_neg ‹_›]
      exact closureLoop_mono within le answers
  · exact answers
  · exact answers
  · exact answers
  · exact allM_mono within answers
  · exact anyM_mono within answers
  · exact allM_mono within answers
  · exact answers

/-- More fuel does not change an answer. -/
theorem isSubtype_mono (le : fuel ≤ fuel') :
    (isSubtype supertypes fuel).Within (isSubtype supertypes fuel') := by
  induction fuel generalizing fuel' with
  | zero =>
      intro sub sup answer answers
      cases answers
  | succ fuel ih =>
      intro sub sup answer answers
      obtain ⟨fuel', rfl⟩ : ∃ n, fuel' = n + 1 := ⟨fuel' - 1, by omega⟩
      have le' := Nat.le_of_succ_le_succ le
      exact isSubtypeBody_mono (ih le') le' answers

end Mono

section Answers

variable {supertypes : Ty → List Ty} {sub sup : Ty} {subs members : List Ty}

/-- The query has one answer. -/
theorem Answers.unique {answer answer' : Bool} (first : Answers supertypes sub sup answer)
    (second : Answers supertypes sub sup answer') : answer = answer' := by
  rcases first with ⟨fuel, first⟩
  rcases second with ⟨fuel', second⟩
  have one := isSubtype_mono (Nat.le_max_left fuel fuel') first
  have other := isSubtype_mono (Nat.le_max_right fuel fuel') second
  exact Option.some.inj (one.symm.trans other)

/-- One amount of fuel is enough for finitely many answers. -/
theorem common_fuel {α : Type} {items : List α} (left right : α → Ty)
    (returns : ∀ a ∈ items, ∃ answer, Answers supertypes (left a) (right a) answer) :
    ∃ fuel, ∀ a ∈ items, ∃ answer, isSubtype supertypes fuel (left a) (right a) = some answer := by
  induction items with
  | nil => exact ⟨0, by simp⟩
  | cons a items ih =>
      rcases returns a (by simp) with ⟨answer, fuel, first⟩
      rcases ih fun other inside => returns other (List.mem_cons_of_mem _ inside) with ⟨fuel', others⟩
      refine ⟨max fuel fuel', ?_⟩
      intro other inside
      rcases List.mem_cons.mp inside with rfl | inside
      · exact ⟨answer, isSubtype_mono (Nat.le_max_left fuel fuel') first⟩
      · rcases others other inside with ⟨answer', known⟩
        exact ⟨answer', isSubtype_mono (Nat.le_max_right fuel fuel') known⟩

/-- With fuel for an answer, the query gives that answer. -/
theorem IsSubtype.value {fuel : Nat} {answer : Bool} (holds : IsSubtype supertypes sub sup)
    (known : isSubtype supertypes fuel sub sup = some answer) :
    isSubtype supertypes fuel sub sup = some true := by
  rw [known, Answers.unique ⟨fuel, known⟩ holds]

theorem allM_eq_true {α : Type} {f : α → Option Bool} {items : List α} :
    items.allM f = some true ↔ ∀ a ∈ items, f a = some true := by
  induction items with
  | nil => simp [List.allM]
  | cons a items ih =>
      rw [List.allM]
      cases first : f a with
      | none => simp [first]
      | some answer => cases answer <;> simp [first, ih]

theorem allM_returns {α : Type} {f : α → Option Bool} {items : List α}
    (returns : ∀ a ∈ items, ∃ answer, f a = some answer) : ∃ answer, items.allM f = some answer := by
  induction items with
  | nil => exact ⟨true, rfl⟩
  | cons a items ih =>
      rw [List.allM]
      rcases returns a (by simp) with ⟨answer, first⟩
      rw [first]
      cases answer with
      | true => exact ih fun b inside => returns b (List.mem_cons_of_mem _ inside)
      | false => exact ⟨false, rfl⟩

theorem exists_of_anyM {α : Type} {f : α → Option Bool} {items : List α}
    (found : items.anyM f = some true) : ∃ a ∈ items, f a = some true := by
  induction items with
  | nil => cases found
  | cons a items ih =>
      rw [List.anyM] at found
      cases first : f a with
      | none => simp [first] at found
      | some answer =>
          cases answer with
          | true => exact ⟨a, by simp, first⟩
          | false =>
              rw [first] at found
              rcases ih found with ⟨b, inside, known⟩
              exact ⟨b, List.mem_cons_of_mem _ inside, known⟩

/-- Where every test returns, one that holds is found. -/
theorem anyM_of_exists {α : Type} {f : α → Option Bool} {items : List α}
    (returns : ∀ a ∈ items, ∃ answer, f a = some answer) {a : α} (inside : a ∈ items)
    (holds : f a = some true) : items.anyM f = some true := by
  induction items with
  | nil => cases inside
  | cons b items ih =>
      rw [List.anyM]
      rcases returns b (by simp) with ⟨answer, first⟩
      rw [first]
      cases answer with
      | true => rfl
      | false =>
          rcases List.mem_cons.mp inside with rfl | later
          · rw [first] at holds
            cases holds
          · exact ih (fun c inside => returns c (List.mem_cons_of_mem _ inside)) later

/-! ### The arms of the query for intersections -/

mutual

theorem Ty.sameShape_refl : (ty : Ty) → ty.sameShape ty = true
  | .reference _ args _ => by simp [Ty.sameShape, Ty.sameShapes_refl args]
  | .array element => by simp [Ty.sameShape, Ty.sameShape_refl element]
  | .wildcard none => rfl
  | .wildcard (some (_, bound)) => by simp [Ty.sameShape, Ty.sameShape_refl bound]
  | .typeVar _ _ _ => by simp [Ty.sameShape]
  | .intersection members => by simp [Ty.sameShape, Ty.sameShapes_refl members]
  | .void => by simp [Ty.sameShape]
  | .null => by simp [Ty.sameShape]
  | .primitive _ => by simp [Ty.sameShape]
  | .inferenceVar _ => by simp [Ty.sameShape]
  | .error => by simp [Ty.sameShape]
  | .nullable _ => by simp [Ty.sameShape]
  | .definitelyNonNull _ => by simp [Ty.sameShape]
  | .flexible _ _ => by simp [Ty.sameShape]

theorem Ty.sameShapes_refl : (tys : List Ty) → Ty.sameShapes tys tys = true
  | [] => rfl
  | ty :: tys => by simp [Ty.sameShapes, Ty.sameShape_refl ty, Ty.sameShapes_refl tys]

end

/-- The right arm: every member is asked about. -/
theorem isSubtype_right {fuel : Nat} (other : ∀ subs, sub ≠ .intersection subs) :
    isSubtype supertypes (fuel + 1) sub (.intersection members) =
      members.allM fun member => isSubtype supertypes fuel sub member := by
  cases sub with
  | intersection subs => exact absurd rfl (other subs)
  | _ => simp [isSubtype, isSubtypeBody, Ty.sameShape]

/-- Neither an intersection nor a capture variable with a lower bound. -/
def Ty.Plain : Ty → Prop
  | .intersection _ => False
  | .typeVar _ _ (some _) => False
  | _ => True

/-- The left arm, for a single target: some member must be below it. -/
theorem isSubtype_left {fuel : Nat} (plain : sup.Plain) :
    isSubtype supertypes (fuel + 1) (.intersection subs) sup =
      subs.anyM fun member => isSubtype supertypes fuel member sup := by
  cases sup with
  | intersection _ => exact plain.elim
  | typeVar scope bounds lower =>
      cases lower with
      | none => simp [isSubtype, isSubtypeBody, Ty.sameShape]
      | some _ => exact plain.elim
  | _ => simp [isSubtype, isSubtypeBody, Ty.sameShape]

/-- The left arm comes before the right one. -/
theorem isSubtype_both {fuel : Nat} :
    isSubtype supertypes (fuel + 1) (.intersection subs) (.intersection members) =
      if Ty.sameShapes subs members then some true
      else subs.anyM fun member => isSubtype supertypes fuel member (.intersection members) := by
  have shape : Ty.sameShape (.intersection subs) (.intersection members) =
      Ty.sameShapes subs members := by rw [Ty.sameShape]
  rw [isSubtype]
  unfold isSubtypeBody
  rw [shape]
  by_cases same : subs = members
  · subst same
    simp [Ty.sameShapes_refl]
  · rw [if_neg (by simpa using same)]

/-! ### The law -/

/-- For a type that is no intersection the members are the meet, whatever they are. -/
theorem isSubtype_intersection_iff (other : ∀ subs, sub ≠ .intersection subs) :
    IsSubtype supertypes sub (.intersection members) ↔
      ∀ member ∈ members, IsSubtype supertypes sub member := by
  constructor
  · rintro ⟨fuel, holds⟩ member inside
    cases fuel with
    | zero => cases holds
    | succ fuel =>
        rw [isSubtype_right other, allM_eq_true] at holds
        exact ⟨fuel, holds member inside⟩
  · intro holds
    rcases common_fuel (fun _ => sub) id fun member inside => ⟨true, holds member inside⟩ with
      ⟨fuel, known⟩
    refine ⟨fuel + 1, ?_⟩
    rw [isSubtype_right other, allM_eq_true]
    intro member inside
    rcases known member inside with ⟨answer, known⟩
    exact (holds member inside).value known

/-- The query returns on an intersection when it returns on the members. -/
theorem returns_right (other : ∀ subs, sub ≠ .intersection subs)
    (returns : ∀ member ∈ members, ∃ answer, Answers supertypes sub member answer) :
    ∃ answer, Answers supertypes sub (.intersection members) answer := by
  rcases common_fuel (fun _ => sub) id returns with ⟨fuel, known⟩
  rcases allM_returns known with ⟨answer, found⟩
  exact ⟨answer, fuel + 1, (isSubtype_right other).trans found⟩

/-- Neither side's members are intersections, none of the targets is a capture variable with a lower
bound, and the query returns on all pairs of them. -/
structure Simple (supertypes : Ty → List Ty) (subs members : List Ty) : Prop where
  other : ∀ sub ∈ subs, ∀ inner, sub ≠ .intersection inner
  plain : ∀ member ∈ members, member.Plain
  returns : ∀ sub ∈ subs, ∀ member ∈ members, ∃ answer, Answers supertypes sub member answer

/-- For single targets the left arm finds a member below. -/
theorem isSubtype_left_iff (simple : Simple supertypes subs members) {member : Ty}
    (inside : member ∈ members) :
    IsSubtype supertypes (.intersection subs) member ↔
      ∃ sub ∈ subs, IsSubtype supertypes sub member := by
  have plain := simple.plain member inside
  constructor
  · rintro ⟨fuel, holds⟩
    cases fuel with
    | zero => cases holds
    | succ fuel =>
        rw [isSubtype_left plain] at holds
        rcases exists_of_anyM holds with ⟨sub, here, known⟩
        exact ⟨sub, here, fuel, known⟩
  · rintro ⟨sub, here, holds⟩
    rcases common_fuel id (fun _ => member) fun other there => simple.returns other there member inside
      with ⟨fuel, known⟩
    rcases known sub here with ⟨answer, found⟩
    refine ⟨fuel + 1, ?_⟩
    rw [isSubtype_left plain]
    exact anyM_of_exists known here (holds.value found)

/-- For an intersection the left arm finds one member below all targets. -/
theorem isSubtype_both_iff (simple : Simple supertypes subs members) :
    IsSubtype supertypes (.intersection subs) (.intersection members) ↔
      Ty.sameShapes subs members = true ∨
        ∃ sub ∈ subs, ∀ member ∈ members, IsSubtype supertypes sub member := by
  have right : ∀ sub ∈ subs, IsSubtype supertypes sub (.intersection members) ↔
      ∀ member ∈ members, IsSubtype supertypes sub member := fun sub here =>
    isSubtype_intersection_iff (simple.other sub here)
  constructor
  · rintro ⟨fuel, holds⟩
    cases fuel with
    | zero => cases holds
    | succ fuel =>
        rw [isSubtype_both] at holds
        split at holds
        · exact .inl ‹_›
        · rcases exists_of_anyM holds with ⟨sub, here, known⟩
          exact .inr ⟨sub, here, (right sub here).mp ⟨fuel, known⟩⟩
  · rintro (same | ⟨sub, here, holds⟩)
    · exact ⟨1, by rw [isSubtype_both, if_pos same]⟩
    · -- The query returns for every member, so it comes to the one that is below all targets.
      rcases common_fuel id (fun _ => .intersection members) fun other there =>
        returns_right (simple.other other there) (simple.returns other there) with ⟨fuel, known⟩
      rcases known sub here with ⟨answer, found⟩
      refine ⟨fuel + 1, ?_⟩
      rw [isSubtype_both]
      split
      · rfl
      · exact anyM_of_exists known here (((right sub here).mpr holds).value found)

/-- Types identical by name are subtypes of each other. -/
theorem isSubtype_of_sameShape (same : sub.sameShape sup = true) : IsSubtype supertypes sub sup := by
  refine ⟨1, ?_⟩
  rw [isSubtype]
  unfold isSubtypeBody
  by_cases identical : sub = sup
  · rw [if_pos identical]
  · rw [if_neg identical, if_pos same]

theorem exists_of_sameShapes (same : Ty.sameShapes subs members = true) {member : Ty}
    (inside : member ∈ members) : ∃ sub ∈ subs, sub.sameShape member = true := by
  induction members generalizing subs with
  | nil => cases inside
  | cons first members ih =>
      cases subs with
      | nil => simp [Ty.sameShapes] at same
      | cons sub subs =>
          rw [Ty.sameShapes, Bool.and_eq_true] at same
          rcases List.mem_cons.mp inside with rfl | later
          · exact ⟨sub, by simp, same.1⟩
          · rcases ih same.2 later with ⟨other, there, shape⟩
            exact ⟨other, List.mem_cons_of_mem _ there, shape⟩

/-- The intersection of the members is their meet, as far as `sub` can tell. -/
def MeetLaw (supertypes : Ty → List Ty) (sub : Ty) (members : List Ty) : Prop :=
  IsSubtype supertypes sub (.intersectionOf members) ↔
    ∀ member ∈ members, IsSubtype supertypes sub member

/-- The two intersections are identical by name, one member on the left is below all on the right, or
none is below one of them. -/
def OneBelow (supertypes : Ty → List Ty) (subs members : List Ty) : Prop :=
  Ty.sameShapes subs members = true ∨
    (∃ sub ∈ subs, ∀ member ∈ members, IsSubtype supertypes sub member) ∨
    ∃ member ∈ members, ∀ sub ∈ subs, ¬ IsSubtype supertypes sub member

theorem meetLaw_single {member : Ty} : MeetLaw supertypes sub [member] := by
  simp [MeetLaw, Ty.intersectionOf]

/-- For an intersection the law holds exactly when the quantifiers can be swapped. -/
theorem meetLaw_intersection_iff (nonempty : members ≠ []) (simple : Simple supertypes subs members) :
    MeetLaw supertypes (.intersection subs) members ↔ OneBelow supertypes subs members := by
  have each : (∀ member ∈ members, IsSubtype supertypes (.intersection subs) member) ↔
      ∀ member ∈ members, ∃ sub ∈ subs, IsSubtype supertypes sub member :=
    forall₂_congr fun member inside => isSubtype_left_iff simple inside
  rcases members with _ | ⟨first, _ | ⟨second, others⟩⟩
  · exact absurd rfl nonempty
  · apply iff_of_true meetLaw_single
    by_cases below : ∃ sub ∈ subs, IsSubtype supertypes sub first
    · rcases below with ⟨sub, here, holds⟩
      exact .inr (.inl ⟨sub, here, by simpa using holds⟩)
    · exact .inr (.inr ⟨first, by simp, fun sub here holds => below ⟨sub, here, holds⟩⟩)
  · change (IsSubtype supertypes (.intersection subs)
      (.intersection (first :: second :: others)) ↔ _) ↔ _
    rw [isSubtype_both_iff simple, each]
    constructor
    · intro law
      by_cases all : ∀ member ∈ first :: second :: others,
          ∃ sub ∈ subs, IsSubtype supertypes sub member
      · exact (law.mpr all).imp_right .inl
      · simp only [not_forall, not_exists, not_and] at all
        rcases all with ⟨member, inside, none⟩
        exact .inr (.inr ⟨member, inside, none⟩)
    · intro one
      constructor
      · rintro (same | ⟨sub, here, below⟩) member inside
        · rcases exists_of_sameShapes same inside with ⟨sub, here, shape⟩
          exact ⟨sub, here, isSubtype_of_sameShape shape⟩
        · exact ⟨sub, here, below member inside⟩
      · intro all
        rcases one with same | found | ⟨member, inside, none⟩
        · exact .inl same
        · exact .inr found
        · rcases all member inside with ⟨sub, here, holds⟩
          exact absurd holds (none sub here)

/-- For any other type the law always holds. -/
theorem meetLaw_of_other (nonempty : members ≠ []) (other : ∀ subs, sub ≠ .intersection subs) :
    MeetLaw supertypes sub members := by
  rcases members with _ | ⟨first, _ | ⟨second, others⟩⟩
  · exact absurd rfl nonempty
  · exact meetLaw_single
  · exact isSubtype_intersection_iff other

/-- A type of that name, without arguments. -/
def namedTy (name : List Char) : Ty := .reference ⟨name⟩ [] none

/-- The supertypes of interfaces that extend no other. -/
def bareInterfaces (ty : Ty) : List Ty :=
  if ty.isObject then [] else [.reference javaObjectName [] none]

end Answers

end CaffeineLs.HirTy
