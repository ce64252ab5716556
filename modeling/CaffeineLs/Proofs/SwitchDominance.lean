/-
Module: CaffeineLs.Proofs.SwitchDominance
Purpose: When the flat list of head types reports the pattern labels that are dominated.
Trusted boundary: none
Main exports: Standing, HeadsFollow, reportsDominated_iff
-/
import CaffeineLs.HirTy.SwitchLabels

namespace CaffeineLs.HirTy

open HirExpand

section

variable {bodies : BodyTree} {resolve : SpannedTypeRef → Ty} {component : PatternId → Ty}
  {scope : Name → Option JavaConst} {supertypes : Ty → List Ty} {fuel : Nat}

/-! ### The list of head types -/

/-- What the labels so far leave. -/
abbrev labelState (bodies : BodyTree) (resolve : SpannedTypeRef → Ty) (supertypes : Ty → List Ty)
    (fuel : Nat) (labels : List CaseLabel) : SwitchPatterns :=
  inferSwitchLabels bodies resolve supertypes fuel (labels.flatMap CaseLabel.lowered)

/-- Whether a label behind these would be reported. -/
def Reported (bodies : BodyTree) (resolve : SpannedTypeRef → Ty) (supertypes : Ty → List Ty)
    (fuel : Nat) (before : List CaseLabel) (label : CaseLabel) : Prop :=
  ∃ ty ∈ (labelState bodies resolve supertypes fuel before).prior,
    subtypeOf supertypes fuel (patternType bodies resolve label.pattern) ty = true

instance (before : List CaseLabel) (label : CaseLabel) :
    Decidable (Reported bodies resolve supertypes fuel before label) :=
  inferInstanceAs (Decidable (∃ _ ∈ _, _))

theorem checkPatternDominated_fst (patternTy : Ty) (prior : List Ty) :
    (checkPatternDominated supertypes fuel patternTy prior).1 =
      prior.any (subtypeOf supertypes fuel patternTy) := by
  unfold checkPatternDominated
  split
  · rename_i found
    exact found.symm
  · rename_i absent
    split <;> exact (Bool.eq_false_iff.mpr absent).symm

/-- A type that is not reported is put into the list, if it is a proper one. -/
theorem mem_checkPatternDominated {patternTy ty : Ty} {prior : List Ty} :
    ty ∈ (checkPatternDominated supertypes fuel patternTy prior).2 ↔
      ty ∈ prior ∨ ty = patternTy ∧ ty ≠ .error ∧
        ¬ ∃ ty ∈ prior, subtypeOf supertypes fuel patternTy ty = true := by
  unfold checkPatternDominated
  by_cases found : ∃ ty ∈ prior, subtypeOf supertypes fuel patternTy ty = true
  · rw [if_pos (List.any_eq_true.mpr found)]
    exact ⟨.inl, fun either => either.resolve_right fun holds => holds.2.2 found⟩
  · rw [if_neg fun any => found (List.any_eq_true.mp any)]
    by_cases proper : patternTy = .error
    · rw [if_pos proper]
      exact ⟨.inl, fun either => either.resolve_right fun holds => holds.2.1 (holds.1.trans proper)⟩
    · rw [if_neg proper, List.mem_append, List.mem_singleton]
      exact or_congr_right ⟨fun same => ⟨same, same ▸ proper, found⟩, fun holds => holds.1⟩

/-- One more label: a guard changes nothing. -/
theorem labelState_append (before : List CaseLabel) (label : CaseLabel) :
    labelState bodies resolve supertypes fuel (before ++ [label]) =
      let (dominated, prior) := checkPatternDominated supertypes fuel
        (patternType bodies resolve label.pattern)
        (labelState bodies resolve supertypes fuel before).prior
      { prior := prior
        reported := (labelState bodies resolve supertypes fuel before).reported ++ [dominated] } := by
  unfold labelState inferSwitchLabels
  rw [List.flatMap_append, List.foldl_append]
  obtain ⟨pattern, guard⟩ := label
  cases guard <;> rfl

theorem reported_append (before : List CaseLabel) (label : CaseLabel) :
    (labelState bodies resolve supertypes fuel (before ++ [label])).reported =
      (labelState bodies resolve supertypes fuel before).reported ++
        [decide (Reported bodies resolve supertypes fuel before label)] := by
  rw [labelState_append]
  change _ ++ [(checkPatternDominated _ _ _ _).1] = _
  rw [checkPatternDominated_fst]
  congr 2
  exact Bool.eq_iff_iff.mpr (List.any_eq_true.trans decide_eq_true_iff.symm)

theorem mem_prior_append {before : List CaseLabel} {label : CaseLabel} {ty : Ty} :
    ty ∈ (labelState bodies resolve supertypes fuel (before ++ [label])).prior ↔
      ty ∈ (labelState bodies resolve supertypes fuel before).prior ∨
        ty = patternType bodies resolve label.pattern ∧ ty ≠ .error ∧
          ¬ Reported bodies resolve supertypes fuel before label := by
  rw [labelState_append]
  exact mem_checkPatternDominated

theorem length_reported (labels : List CaseLabel) :
    (labelState bodies resolve supertypes fuel labels).reported.length = labels.length := by
  induction labels using List.reverseRecOn with
  | nil => rfl
  | append_singleton before label ih => simp [reported_append, ih]

/-- What is said of a label is not changed by the ones behind it. -/
theorem reported_kept (before after : List CaseLabel) :
    (labelState bodies resolve supertypes fuel before).reported <+:
      (labelState bodies resolve supertypes fuel (before ++ after)).reported := by
  induction after using List.reverseRecOn with
  | nil => simp
  | append_singleton after label ih =>
      rw [← List.append_assoc, reported_append]
      exact ih.trans (List.prefix_append _ _)

theorem reported_getElem (before : List CaseLabel) (label : CaseLabel) (after : List CaseLabel) :
    (labelState bodies resolve supertypes fuel
        (before ++ label :: after)).reported[before.length]? = some true ↔
      Reported bodies resolve supertypes fuel before label := by
  have kept := @reported_kept bodies resolve supertypes fuel (before ++ [label]) after
  rw [reported_append, List.append_assoc, List.singleton_append] at kept
  obtain ⟨rest, whole⟩ := kept
  rw [← whole, ← @length_reported bodies resolve supertypes fuel before]
  simp

/-! ### The condition -/

/-- The proper head types of the labels that are not dominated themselves. -/
def Standing (bodies : BodyTree) (resolve : SpannedTypeRef → Ty) (component : PatternId → Ty)
    (scope : Name → Option JavaConst) (below : Ty → Ty → Bool) (labels : List CaseLabel) (ty : Ty) :
    Prop :=
  ∃ before label after, labels = before ++ label :: after ∧
    ty = patternType bodies resolve label.pattern ∧ ty ≠ .error ∧
      ¬ DominatedBy bodies resolve component scope below before label

/-- A label has its head type below that of an earlier one, which is not dominated itself, exactly
where an earlier label dominates it. -/
def HeadsFollow (bodies : BodyTree) (resolve : SpannedTypeRef → Ty) (component : PatternId → Ty)
    (scope : Name → Option JavaConst) (below : Ty → Ty → Bool) (labels : List CaseLabel) : Prop :=
  ∀ before label after, labels = before ++ label :: after →
    ((∃ ty, Standing bodies resolve component scope below before ty ∧
        below (patternType bodies resolve label.pattern) ty = true) ↔
      DominatedBy bodies resolve component scope below before label)

theorem split_concat {labels before after : List CaseLabel} {last label : CaseLabel}
    (split : labels ++ [last] = before ++ label :: after) :
    (before = labels ∧ label = last) ∨ ∃ rest, labels = before ++ label :: rest := by
  rcases List.eq_nil_or_concat after with rfl | ⟨rest, last', rfl⟩
  · obtain ⟨rfl, same⟩ := List.append_inj' split rfl
    exact .inl ⟨rfl, (List.singleton_inj.mp same).symm⟩
  · rw [List.concat_eq_append, ← List.cons_append, ← List.append_assoc] at split
    exact .inr ⟨rest, (List.append_inj' split rfl).1⟩

theorem standing_append {below : Ty → Ty → Bool} {before : List CaseLabel} {label : CaseLabel}
    {ty : Ty} :
    Standing bodies resolve component scope below (before ++ [label]) ty ↔
      Standing bodies resolve component scope below before ty ∨
        ty = patternType bodies resolve label.pattern ∧ ty ≠ .error ∧
          ¬ DominatedBy bodies resolve component scope below before label := by
  constructor
  · rintro ⟨earlier, other, after, split, holds⟩
    rcases split_concat split with ⟨rfl, rfl⟩ | ⟨rest, rfl⟩
    · exact .inr holds
    · exact .inl ⟨earlier, other, rest, rfl, holds⟩
  · rintro (⟨earlier, other, after, rfl, holds⟩ | holds)
    · exact ⟨earlier, other, after ++ [label], by simp, holds⟩
    · exact ⟨before, label, [], rfl, holds⟩

/-- Exactly the dominated ones of the labels would be reported. -/
def ReportedFollow (bodies : BodyTree) (resolve : SpannedTypeRef → Ty) (component : PatternId → Ty)
    (scope : Name → Option JavaConst) (supertypes : Ty → List Ty) (fuel : Nat)
    (labels : List CaseLabel) : Prop :=
  ∀ before label after, labels = before ++ label :: after →
    (Reported bodies resolve supertypes fuel before label ↔
      DominatedBy bodies resolve component scope (subtypeOf supertypes fuel) before label)

theorem ReportedFollow.before {labels after : List CaseLabel}
    (follows : ReportedFollow bodies resolve component scope supertypes fuel (labels ++ after)) :
    ReportedFollow bodies resolve component scope supertypes fuel labels := by
  intro first label rest split
  exact follows first label (rest ++ after) (by simp [split])

/-- As long as exactly the dominated labels are reported, the list is that of the others' types. -/
theorem mem_prior_iff {labels : List CaseLabel}
    (follows : ReportedFollow bodies resolve component scope supertypes fuel labels) (ty : Ty) :
    ty ∈ (labelState bodies resolve supertypes fuel labels).prior ↔
      Standing bodies resolve component scope (subtypeOf supertypes fuel) labels ty := by
  induction labels using List.reverseRecOn with
  | nil =>
      constructor
      · intro member
        cases member
      · rintro ⟨before, label, after, split, -⟩
        simp at split
  | append_singleton before label ih =>
      rw [mem_prior_append, standing_append, ih follows.before, follows before label [] rfl]

theorem reported_iff_standing {before : List CaseLabel}
    (follows : ReportedFollow bodies resolve component scope supertypes fuel before)
    (label : CaseLabel) :
    Reported bodies resolve supertypes fuel before label ↔
      ∃ ty, Standing bodies resolve component scope (subtypeOf supertypes fuel) before ty ∧
        subtypeOf supertypes fuel (patternType bodies resolve label.pattern) ty = true :=
  exists_congr fun ty => and_congr_left fun _ => mem_prior_iff follows ty

/-- By induction on the labels: the list before each is that of the types left standing. -/
theorem reportedFollow_iff (labels : List CaseLabel) :
    ReportedFollow bodies resolve component scope supertypes fuel labels ↔
      HeadsFollow bodies resolve component scope (subtypeOf supertypes fuel) labels := by
  constructor
  · intro follows before label after split
    rw [← follows before label after split]
    exact (reported_iff_standing (split ▸ follows).before label).symm
  · intro heads
    induction labels using List.reverseRecOn with
    | nil => exact fun before label after split => by simp at split
    | append_singleton labels last ih =>
        have earlier := ih fun before label after split =>
          heads before label (after ++ [last]) (by simp [split])
        intro before label after split
        rcases split_concat split with ⟨rfl, rfl⟩ | ⟨rest, inside⟩
        · rw [reported_iff_standing earlier]
          exact heads before label [] rfl
        · exact earlier before label rest inside

end

/-- The guard `b` and two patterns `Integer i`. -/
def refinedBodies : BodyTree :=
  .ofExprs [.var ⟨['b']⟩]
    [.type ⟨.reference ⟨"Integer".toList⟩ [], []⟩ (some ⟨0⟩),
      .type ⟨.reference ⟨"Integer".toList⟩ [], []⟩ (some ⟨1⟩)] [] rfl rfl

end CaffeineLs.HirTy
