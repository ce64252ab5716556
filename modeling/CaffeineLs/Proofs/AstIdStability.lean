/-
Module: CaffeineLs.Proofs.AstIdStability
Purpose: When an edit of bodies leaves the ids of the declarations of a file as they are.
Trusted boundary: none
Main exports: Java.regions, Kotlin.regions, ids_survive_iff
-/
import CaffeineLs.HirExpand.AstIdMap

namespace CaffeineLs.HirExpand

open SkeletonWalk

/-! ### Body regions -/

namespace Java

open JavaSyntax

/-- The statements of a block, initializers, the arguments of enum constants and annotations, default
values and the bodies of anonymous classes. An annotation among the arguments of another is skeleton. -/
def region (kind : SyntaxKind) (parent : Option SyntaxKind) (child : SyntaxKind) : Region :=
  match kind with
  | .classBody =>
      if parent = some .classDecl ∨ parent = some .enumConstant then .skeleton else .dropped
  | .annotationTypeElementDecl =>
      if child = .modifierList ∨ child = .typeNode then .skeleton else .dropped
  | .block => .body
  | .variableDeclarator => if isExprKind child = true then .body else .skeleton
  | .enumConstant => if child = .argumentList then .body else .skeleton
  | .annotationArgumentList | .elementValuePair | .arrayInitializer =>
      if isExprKind child = true ∧ child ≠ .arrayInitializer then .body else .skeleton
  | _ => .skeleton

/-- The local declarations are the class-like ones of a block. -/
def regions : Regions SyntaxKind :=
  ⟨region, fun parent child => decide (parent = .block) && isClassLikeDecl child⟩

theorem body_or_skeleton (p : Prop) [Decidable p] :
    (if p then Region.body else Region.skeleton) ≠ .dropped := by
  split <;> simp

/-- The walk visits what is not dropped, and a class-like declaration of a block as skeleton. -/
theorem agrees : Agrees skeleton regions where
  dropped := by
    intro kind parent body child
    simp only [skeleton, regions, plan, region]
    cases kind
    case classBody =>
      by_cases named : parent = some .classDecl
      · simp [named]
      · by_cases constant : parent = some .enumConstant <;> simp [constant, named]
    case annotationTypeElementDecl => split <;> simp_all
    case variableDeclarator => exact iff_of_false (by simp) (body_or_skeleton _)
    case enumConstant => exact iff_of_false (by simp) (body_or_skeleton _)
    case annotationArgumentList => exact iff_of_false (by simp) (body_or_skeleton _)
    case elementValuePair => exact iff_of_false (by simp) (body_or_skeleton _)
    case arrayInitializer => exact iff_of_false (by simp) (body_or_skeleton _)
    all_goals simp
  indexes := by
    intro kind parent body child flag declared planned
    simp only [regions, Bool.and_eq_true, decide_eq_true_eq] at declared
    obtain ⟨rfl, classLike⟩ := declared
    simp only [skeleton, plan, classLike, Bool.not_true, Option.some.injEq] at planned
    rw [planned]
  plan := by
    intro kind parent body child flag declared planned above below
    simp only [regions, Bool.and_eq_true, decide_eq_true_eq] at declared
    obtain ⟨rfl, classLike⟩ := declared
    simp only [skeleton, plan, classLike, Bool.not_true, Option.some.injEq] at planned
    subst planned
    unfold isClassLikeDecl at classLike
    split at classLike
    all_goals first | rfl | cases classLike

end Java

namespace Kotlin

open KotlinSyntax

/-- The declarations that may own an expression: an initializer, a delegate, a default value or an
expression body. -/
def ownsExpression : SyntaxKind → Bool
  | .propertyDecl | .propertyDelegate | .explicitDelegation | .valueParameter | .classParameter
  | .functionDecl | .getter | .setter => true
  | _ => false

/-- The statements of a block, arguments, and the expressions that declarations own. -/
def region (kind : SyntaxKind) (_parent : Option SyntaxKind) (child : SyntaxKind) : Region :=
  if kind = .block ∨ kind = .valueArguments then .body
  else if ownsExpression kind = true ∧ isExpression child = true then .body
  else .skeleton

/-- A local declaration is one wherever it stands. -/
def regions : Regions SyntaxKind :=
  ⟨region, fun _ child => isLocalDeclaration child⟩

theorem plan_ne_none (kind : SyntaxKind) (parent : Option SyntaxKind) (body : Bool)
    (child : SyntaxKind) : plan kind parent body child ≠ none := by
  unfold plan
  split
  · simp
  · split
    · simp
    · split <;> simp

theorem region_ne_dropped (kind : SyntaxKind) (parent : Option SyntaxKind) (child : SyntaxKind) :
    region kind parent child ≠ .dropped := by
  unfold region
  split
  · simp
  · split <;> simp

/-- The walk visits every node, and treats a local declaration as skeleton wherever it stands. -/
theorem agrees : Agrees skeleton regions where
  dropped := fun kind parent body child =>
    iff_of_false (plan_ne_none kind parent body child) (region_ne_dropped kind parent child)
  indexes := by
    intro kind parent body child flag declared planned
    have anchored : isLocalDeclaration child = true := declared
    simp [Rules.indexes, skeleton, anchored]
  plan := by
    intro kind parent body child flag declared planned above below
    have anchored : isLocalDeclaration child = true := declared
    have notBlock : child ≠ .block := fun same => by simp [same, isLocalDeclaration] at anchored
    simp [skeleton, plan, notBlock, anchored]

end Kotlin

/-! ### Files -/

/-- The files are of one language and differ only inside body regions, which hold the same local
declarations. -/
def BodyEdit : SourceFile → SourceFile → Prop
  | .java children, .java edited =>
      strip Java.regions false .root none edited = strip Java.regions false .root none children
  | .kotlin children, .kotlin edited =>
      strip Kotlin.regions false .root none edited = strip Kotlin.regions false .root none children
  | _, _ => False

/-- No body region holds a node that is indexed, apart from its local declarations. -/
def LeakFree : SourceFile → Prop
  | .java children => Clean Java.skeleton Java.regions false .root none false children
  | .kotlin children => Clean Kotlin.skeleton Kotlin.regions false .root none false children

theorem fromSourceFile_java (children : Forest JavaSyntax.SyntaxKind) :
    fromSourceFile (.java children) = (visit Java.skeleton .root none false children).map .java := by
  simp [fromSourceFile, build_eq, visitStack, Rules.own, Rules.indexes, Java.skeleton,
    Java.isIndexable]

theorem fromSourceFile_kotlin (children : Forest KotlinSyntax.SyntaxKind) :
    fromSourceFile (.kotlin children) =
      (visit Kotlin.skeleton .root none false children).map .kotlin := by
  simp [fromSourceFile, build_eq, visitStack, Rules.own, Rules.indexes, Kotlin.skeleton,
    Kotlin.isIndexable]

theorem idSequence_eq_iff (file edited : SourceFile) :
    idSequence edited = idSequence file ↔ fromSourceFile edited = fromSourceFile file := by
  constructor
  · intro same
    have kinds := congrArg (List.map Prod.snd) same
    simpa [idSequence, List.map_map, Function.comp_def] using kinds
  · intro same
    rw [idSequence, idSequence, same]

/-- The nodes of a file without leaks keep their ids under an edit of bodies exactly when the edit brings
no leak. -/
theorem ids_survive_iff (file edited : SourceFile) (edit : BodyEdit file edited)
    (leakFree : LeakFree file) : idSequence edited = idSequence file ↔ LeakFree edited := by
  rw [idSequence_eq_iff]
  cases file with
  | java children =>
      cases edited with
      | kotlin _ => cases edit
      | java after =>
          rw [fromSourceFile_java, fromSourceFile_java,
            List.map_inj_right fun _ _ same => NodeKind.java.inj same]
          exact visit_eq_iff Java.agrees edit leakFree
  | kotlin children =>
      cases edited with
      | java _ => cases edit
      | kotlin after =>
          rw [fromSourceFile_kotlin, fromSourceFile_kotlin,
            List.map_inj_right fun _ _ same => NodeKind.kotlin.inj same]
          exact visit_eq_iff Kotlin.agrees edit leakFree

/-- `fun f() { x }`. -/
def blockBody : SourceFile :=
  .kotlin (.node .importList .nil (.node .functionDecl (.node .valueParameters .nil
    (.node .block (.node .expressionStatement (.node .primaryExpression .nil .nil) .nil) .nil)) .nil))

/-- `fun f() { x as T }`. -/
def castInBlock : SourceFile :=
  .kotlin (.node .importList .nil (.node .functionDecl (.node .valueParameters .nil
    (.node .block (.node .expressionStatement (.node .asExpression (.node .primaryExpression .nil
      (.node .typeNode (.node .userType .nil .nil) .nil)) .nil) .nil) .nil)) .nil))

theorem ids_survive_in_block :
    idSequence castInBlock = idSequence blockBody ↔ LeakFree castInBlock :=
  ids_survive_iff blockBody castInBlock rfl
    (by simp only [blockBody, LeakFree]; decide)

/-- `fun f() = x`. -/
def expressionBody : SourceFile :=
  .kotlin (.node .importList .nil (.node .functionDecl (.node .valueParameters .nil
    (.node .primaryExpression .nil .nil)) .nil))

/-- `fun f() = x as T`. -/
def castBody : SourceFile :=
  .kotlin (.node .importList .nil (.node .functionDecl (.node .valueParameters .nil
    (.node .asExpression (.node .primaryExpression .nil (.node .typeNode (.node .userType .nil .nil)
      .nil)) .nil)) .nil))

/-- A cast in an expression body adds its type to the index. -/
theorem cast_in_expression_body :
    BodyEdit expressionBody castBody ∧ idSequence castBody ≠ idSequence expressionBody := by
  refine ⟨rfl, fun same => ?_⟩
  have kinds := (idSequence_eq_iff _ _).mp same
  simp only [castBody, expressionBody, fromSourceFile_kotlin] at kinds
  revert kinds
  decide

end CaffeineLs.HirExpand
