/-
Module: CaffeineLs.HirTy.SwitchLabels
Purpose: The pattern labels of a switch: which of them the inference reports as dominated, and which
  the language does.
Trusted boundary: how a written type resolves is a parameter, and so is the type of the component
  that a match-all pattern stands for.
Main exports: CaseLabel, checkPatternDominated, inferSwitchLabels
-/
import CaffeineLs.HirTy.JavaConstants
import CaffeineLs.HirTy.TypeArguments

namespace CaffeineLs.HirTy

open HirExpand

/-- `case P` or `case P when cond`. -/
structure CaseLabel where
  pattern : PatternId
  guard : Option ExprId

/-- What a label is lowered to: the guard is a label behind its pattern. -/
def CaseLabel.lowered (label : CaseLabel) : List SwitchLabel :=
  .pattern label.pattern :: label.guard.toList.map .guard

/-- The top of `switch_patterns`, and whether each pattern label so far was reported. -/
structure SwitchPatterns where
  prior : List Ty
  reported : List Bool

section

variable (bodies : BodyTree) (resolve : SpannedTypeRef → Ty)

/-- `pattern_type`: the type in front of a pattern. -/
def patternType (id : PatternId) : Ty :=
  match bodies.pattern id with
  | .type ty _ => resolve ty
  | .record ty _ => resolve ty
  | .matchAll => .error

section Inference

variable (supertypes : Ty → List Ty) (fuel : Nat)

/-- The answer of `is_subtype`, where it returns. -/
def subtypeOf (sub sup : Ty) : Bool := isSubtype supertypes fuel sub sup == some true

/-- Whether the pattern is reported, and the types after it. -/
def checkPatternDominated (patternTy : Ty) (prior : List Ty) : Bool × List Ty :=
  if prior.any (subtypeOf supertypes fuel patternTy) then (true, prior)
  else if patternTy = .error then (false, prior)
  else (false, prior ++ [patternTy])

/-- A label of a switch; a guard is checked to be a condition. -/
def inferSwitchLabel (σ : SwitchPatterns) : SwitchLabel → SwitchPatterns
  | .pattern id =>
      let (dominated, prior) :=
        checkPatternDominated supertypes fuel (patternType bodies resolve id) σ.prior
      { prior := prior, reported := σ.reported ++ [dominated] }
  | _ => σ

/-- The labels of a switch, in order. -/
def inferSwitchLabels (labels : List SwitchLabel) : SwitchPatterns :=
  labels.foldl (inferSwitchLabel bodies resolve supertypes fuel) { prior := [], reported := [] }

end Inference

/-! ### The language -/

variable (component : PatternId → Ty) (scope : Name → Option JavaConst) (below : Ty → Ty → Bool)

/-- The type of the values that a pattern is asked about. -/
def matchedType (id : PatternId) : Ty :=
  match bodies.pattern id with
  | .matchAll => component id
  | _ => patternType bodies resolve id

/-- JLS §14.30.3: a type pattern dominates the patterns whose erased type is a subtype of its own, and
a match-all pattern is one of the type it stands for; a record pattern dominates the patterns of the
same record whose components it dominates one by one. -/
inductive Dominates : PatternId → PatternId → Prop where
  | type {p q : PatternId} {ty : SpannedTypeRef} {binding : Option LocalId}
      (form : bodies.pattern p = .type ty binding)
      (covers : below (matchedType bodies resolve component q).erasure (resolve ty).erasure = true) :
      Dominates p q
  | matchAll {p q : PatternId} (form : bodies.pattern p = .matchAll)
      (covers : below (matchedType bodies resolve component q).erasure (component p).erasure = true) :
      Dominates p q
  | record {p q : PatternId} {ty ty' : SpannedTypeRef} {components components' : List PatternId}
      (form : bodies.pattern p = .record ty components)
      (form' : bodies.pattern q = .record ty' components')
      (same : (resolve ty).erasure = (resolve ty').erasure)
      (each : List.Forall₂ Dominates components components') : Dominates p q

/-- No guard, or one that is the constant `true`. -/
def CaseLabel.Unguarded (label : CaseLabel) : Prop :=
  ∀ guard, label.guard = some guard →
    meaning bodies scope guard = some (.boolean, some (.boolean true))

/-- JLS §14.11.1: an unguarded label in front of the pattern dominates it. -/
def DominatedBy (before : List CaseLabel) (label : CaseLabel) : Prop :=
  ∃ earlier ∈ before, earlier.Unguarded bodies scope ∧
    Dominates bodies resolve component below earlier.pattern label.pattern

/-- Exactly the dominated labels are reported. -/
def ReportsDominated (supertypes : Ty → List Ty) (fuel : Nat) (labels : List CaseLabel) : Prop :=
  ∀ before label after, labels = before ++ label :: after →
    ((inferSwitchLabels bodies resolve supertypes fuel
        (labels.flatMap CaseLabel.lowered)).reported[before.length]? = some true ↔
      DominatedBy bodies resolve component scope (subtypeOf supertypes fuel) before label)

end

end CaffeineLs.HirTy
