/-
Module: CaffeineLs.Proofs.PatternScope
Purpose: When the flow of a condition is what the language introduces.
Trusted boundary: none
Main exports: condition_induction, introduced_matched, patternScope_follows_iff
-/
import CaffeineLs.HirTy.PatternScope

namespace CaffeineLs.HirTy

open HirExpand Ranked

variable {bodies : BodyTree}

/-! ### Conditions -/

/-- What holds of a condition when it holds of its operands holds of every condition. -/
theorem condition_induction {P : ExprId → Prop}
    (instanceOf : ∀ {id operand ty pattern},
      bodies.expr id = .instanceOf operand ty pattern → P id)
    (paren : ∀ {id inner}, bodies.expr id = .paren inner → P inner → P id)
    (not : ∀ {id negated}, bodies.expr id = .unary .not negated → P negated → P id)
    (connective : ∀ {id op lhs rhs}, op = .and ∨ op = .or →
      bodies.expr id = .binary op lhs rhs → P lhs → P rhs → P id)
    (other : ∀ {id}, ¬ IsConditionForm (bodies.expr id) → P id) (id : ExprId) : P id := by
  have below {id part : ExprId} (inside : Node.expr part ∈ (bodies.expr id).parts) :
      bodies.height (.expr part) < bodies.height (.expr id) :=
    @BodyTree.height_lt_of_mem_parts bodies (.expr id) _ inside
  induction rank : bodies.height (.expr id) using Nat.strongRecOn generalizing id with
  | ind n ih =>
      subst rank
      have inside {part : ExprId} (there : Node.expr part ∈ (bodies.expr id).parts) : P part :=
        ih _ (below there) part rfl
      by_cases form : IsConditionForm (bodies.expr id)
      · cases data : bodies.expr id with
        | instanceOf operand ty pattern => exact instanceOf data
        | paren inner => exact paren data (inside (by simp [data, ExprData.parts]))
        | unary op negated =>
            cases op with
            | not => exact not data (inside (by simp [data, ExprData.parts]))
            | _ => simp [data, IsConditionForm] at form
        | binary op lhs rhs =>
            have left : P lhs := inside (by simp [data, ExprData.parts])
            have right : P rhs := inside (by simp [data, ExprData.parts])
            cases op with
            | and => exact connective (.inl rfl) data left right
            | or => exact connective (.inr rfl) data left right
            | _ => simp [data, IsConditionForm] at form
        | _ => simp [data, IsConditionForm] at form
      · exact other form

/-! ### The flow, form by form -/

theorem patternFlowNode_local : Local bodies.parts (patternFlowNode bodies) := by
  intro f g node agree
  cases node with
  | expr id =>
      simp only [BodyTree.parts] at agree
      simp only [patternFlowNode]
      split <;> simp_all [ExprData.parts, connectiveFlow]
  | stmt id | pattern id => rfl

theorem introducedNode_local : Local bodies.parts (introducedNode bodies) := by
  intro f g node agree
  cases node with
  | expr id =>
      funext outcome
      simp only [BodyTree.parts] at agree
      simp only [introducedNode]
      split <;> simp_all [ExprData.parts]
  | stmt id | pattern id => rfl

theorem patternFlow_eq (id : ExprId) :
    patternFlow bodies id =
      patternFlowNode bodies (tower bodies.height (patternFlowNode bodies) fun _ => none)
        (.expr id) :=
  tower_eq (fun _ _ => bodies.height_lt_of_mem_parts) patternFlowNode_local _

theorem introduced_eq (id : ExprId) :
    introduced bodies id =
      introducedNode bodies (tower bodies.height (introducedNode bodies) fun _ _ => [])
        (.expr id) :=
  tower_eq (fun _ _ => bodies.height_lt_of_mem_parts) introducedNode_local _

/-- One side of the flow, the empty list where there is none. -/
def boundWhen (bodies : BodyTree) (id : ExprId) (outcome : Bool) : List LocalId :=
  let flow := (patternFlow bodies id).getD ([], [])
  if outcome then flow.1 else flow.2

section Forms

variable {id operand inner negated lhs rhs : ExprId} {ty : Option SpannedTypeRef}
  {pattern : Option PatternId} {op : BinaryOp} {outcome : Bool}

theorem boundWhen_instanceOf (form : bodies.expr id = .instanceOf operand ty pattern) :
    boundWhen bodies id outcome =
      if outcome then (pattern.map (patternBindingsOf bodies)).getD [] else [] := by
  simp [boundWhen, patternFlow_eq, patternFlowNode, form]

theorem boundWhen_paren (form : bodies.expr id = .paren inner) :
    boundWhen bodies id outcome = boundWhen bodies inner outcome := by
  simp only [boundWhen, patternFlow_eq id, patternFlowNode, form]
  rfl

theorem boundWhen_not (form : bodies.expr id = .unary .not negated) :
    boundWhen bodies id outcome = boundWhen bodies negated !outcome := by
  have swapped : patternFlow bodies id = (patternFlow bodies negated).map Prod.swap := by
    simp only [patternFlow_eq id, patternFlowNode, form]
    rfl
  cases flow : patternFlow bodies negated <;> cases outcome <;> simp [boundWhen, swapped, flow]

theorem boundWhen_connective (connective : op = .and ∨ op = .or)
    (form : bodies.expr id = .binary op lhs rhs) :
    boundWhen bodies id outcome = boundWhen bodies lhs outcome ++ boundWhen bodies rhs outcome := by
  have joined : patternFlow bodies id = connectiveFlow
      (tower bodies.height (patternFlowNode bodies) fun _ => none) lhs rhs := by
    rcases connective with rfl | rfl <;> simp only [patternFlow_eq id, patternFlowNode, form]
  cases outcome <;> simp [boundWhen, joined, connectiveFlow] <;> rfl

theorem boundWhen_other (form : ¬ IsConditionForm (bodies.expr id)) :
    boundWhen bodies id outcome = [] := by
  have none_ : patternFlow bodies id = none := by
    rw [patternFlow_eq]
    simp only [patternFlowNode]
    split <;> simp_all [IsConditionForm]
  simp [boundWhen, none_]

theorem introduced_instanceOf (form : bodies.expr id = .instanceOf operand ty pattern) :
    introduced bodies id outcome =
      if outcome then (pattern.map (patternBindingsOf bodies)).getD [] else [] := by
  cases pattern <;> simp [introduced_eq, introducedNode, form]

theorem introduced_paren (form : bodies.expr id = .paren inner) :
    introduced bodies id outcome = introduced bodies inner outcome := by
  simp only [introduced_eq id, introducedNode, form]
  rfl

theorem introduced_not (form : bodies.expr id = .unary .not negated) :
    introduced bodies id outcome = introduced bodies negated !outcome := by
  simp only [introduced_eq id, introducedNode, form]
  rfl

/-- `&&` introduces what both operands introduce when true, `||` when false. -/
theorem introduced_connective (connective : op = .and ∨ op = .or)
    (form : bodies.expr id = .binary op lhs rhs) :
    introduced bodies id outcome =
      if outcome = decide (op = .and) then
        introduced bodies lhs outcome ++ introduced bodies rhs outcome
      else [] := by
  rcases connective with rfl | rfl <;> cases outcome <;>
    simp [introduced_eq id, introducedNode, form] <;> rfl

theorem introduced_other (form : ¬ IsConditionForm (bodies.expr id)) :
    introduced bodies id outcome = [] := by
  rw [introduced_eq]
  simp only [introducedNode]
  split <;> simp_all [IsConditionForm]

end Forms

/-- The flow misses nothing that the language introduces. -/
theorem introduced_sublist (id : ExprId) (outcome : Bool) :
    (introduced bodies id outcome).Sublist (boundWhen bodies id outcome) := by
  induction id using @condition_induction bodies generalizing outcome with
  | instanceOf form => rw [introduced_instanceOf form, boundWhen_instanceOf form]
  | paren form ih =>
      rw [introduced_paren form, boundWhen_paren form]
      exact ih outcome
  | not form ih =>
      rw [introduced_not form, boundWhen_not form]
      exact ih !outcome
  | connective connective form left right =>
      rw [introduced_connective connective form, boundWhen_connective connective form]
      split
      · exact (left outcome).append (right outcome)
      · exact List.nil_sublist _
  | other form => simp [introduced_other form]

/-- What a condition introduces for an outcome, every evaluation to that outcome has matched. -/
theorem introduced_matched {id : ExprId} {outcome : Bool} {binding : LocalId}
    (there : binding ∈ introduced bodies id outcome) : MatchedWhen bodies id outcome binding := by
  intro bound run
  induction run with
  | matched form => simpa [introduced_instanceOf form] using there
  | unmatched form => simp [introduced_instanceOf form] at there
  | paren form _ ih => exact ih (by rwa [introduced_paren form] at there)
  | not form _ ih => exact ih (by simpa [introduced_not form] using there)
  | andFalse form _ _ => simp [introduced_connective (.inl rfl) form] at there
  | @andTrue _ _ _ outcome _ _ form _ _ left right =>
      cases outcome with
      | false => simp [introduced_connective (.inl rfl) form] at there
      | true =>
          simp only [introduced_connective (.inl rfl) form] at there
          rcases List.mem_append.mp there with early | late
          · exact List.mem_append_left _ (left early)
          · exact List.mem_append_right _ (right late)
  | orTrue form _ _ => simp [introduced_connective (.inr rfl) form] at there
  | @orFalse _ _ _ outcome _ _ form _ _ left right =>
      cases outcome with
      | true => simp [introduced_connective (.inr rfl) form] at there
      | false =>
          simp only [introduced_connective (.inr rfl) form] at there
          rcases List.mem_append.mp there with early | late
          · exact List.mem_append_left _ (left early)
          · exact List.mem_append_right _ (right late)
  | other form => simp [introduced_other form] at there

/-! ### When the flow is right -/

/-- The flow holds the variables bound under as many `!` as its side says. -/
theorem mem_boundWhen {id : ExprId} {outcome : Bool} {binding : LocalId} :
    binding ∈ boundWhen bodies id outcome ↔ BindsUnder bodies id outcome binding := by
  constructor
  · induction id using @condition_induction bodies generalizing outcome with
    | @instanceOf id operand ty pattern form =>
        intro there
        rw [boundWhen_instanceOf form] at there
        cases outcome <;> cases pattern <;> simp at there
        exact .pattern form there
    | paren form ih =>
        intro there
        rw [boundWhen_paren form] at there
        exact .paren form (ih there)
    | not form ih =>
        intro there
        rw [boundWhen_not form] at there
        simpa using BindsUnder.not form (ih there)
    | connective connective form left right =>
        intro there
        rw [boundWhen_connective connective form] at there
        rcases List.mem_append.mp there with early | late
        · exact .left connective form (left early)
        · exact .right connective form (right late)
    | other form =>
        intro there
        simp [boundWhen_other form] at there
  · intro binds
    induction binds with
    | pattern form bound => simpa [boundWhen_instanceOf form] using bound
    | paren form _ ih => rwa [boundWhen_paren form]
    | not form _ ih => simpa [boundWhen_not form] using ih
    | left connective form _ ih =>
        rw [boundWhen_connective connective form]
        exact List.mem_append_left _ ih
    | right connective form _ ih =>
        rw [boundWhen_connective connective form]
        exact List.mem_append_right _ ih

theorem boundWhen_eq_nil_iff {id : ExprId} {outcome : Bool} :
    boundWhen bodies id outcome = [] ↔ ∀ binding, ¬ BindsUnder bodies id outcome binding := by
  simp only [List.eq_nil_iff_forall_not_mem, mem_boundWhen]

/-- Both sides of the flow are what the language introduces. -/
def FlowRight (bodies : BodyTree) (id : ExprId) : Prop :=
  ∀ outcome, boundWhen bodies id outcome = introduced bodies id outcome

/-- Under a connective both operands have to be right, and one side of the flow empty. -/
theorem flowRight_connective {id lhs rhs : ExprId} {op : BinaryOp}
    (connective : op = .and ∨ op = .or) (form : bodies.expr id = .binary op lhs rhs) :
    FlowRight bodies id ↔
      FlowRight bodies lhs ∧ FlowRight bodies rhs ∧
        boundWhen bodies id (!decide (op = .and)) = [] := by
  have joined (outcome : Bool) := @boundWhen_connective _ _ _ _ _ outcome connective form
  have kept (outcome : Bool) := @introduced_connective _ _ _ _ _ outcome connective form
  constructor
  · intro right
    have empty : boundWhen bodies id (!decide (op = .and)) = [] := by
      rw [right, kept, if_neg (by simp)]
    have both := right (decide (op = .and))
    rw [joined, kept, if_pos rfl] at both
    have sides := List.append_eq_nil_iff.mp ((joined _).symm.trans empty)
    have aligned := List.append_inj both
    have lengths : (boundWhen bodies lhs (decide (op = .and))).length =
        (introduced bodies lhs (decide (op = .and))).length := by
      have whole := congrArg List.length both
      have left := (@introduced_sublist bodies lhs (decide (op = .and))).length_le
      have right := (@introduced_sublist bodies rhs (decide (op = .and))).length_le
      simp only [List.length_append] at whole
      omega
    have (part : ExprId) (none_ : boundWhen bodies part (!decide (op = .and)) = [])
        (same : boundWhen bodies part (decide (op = .and)) =
          introduced bodies part (decide (op = .and))) : FlowRight bodies part := by
      intro outcome
      by_cases side : outcome = decide (op = .and)
      · rw [side, same]
      · obtain rfl : outcome = !decide (op = .and) := by cases outcome <;> simp_all
        have shorter := @introduced_sublist bodies part (!decide (op = .and))
        rw [none_] at shorter
        rw [none_, List.sublist_nil.mp shorter]
    exact ⟨this lhs sides.1 (aligned lengths).1, this rhs sides.2 (aligned lengths).2, empty⟩
  · rintro ⟨left, right, empty⟩ outcome
    rw [kept]
    split
    · rw [joined, left, right]
    · rename_i side
      obtain rfl : outcome = !decide (op = .and) := by cases outcome <;> simp_all
      exact empty

/-- A condition that stands around one operand lets through what the operand does. -/
theorem letsThrough_around {id part : ExprId}
    (only : ∀ operand, Operand bodies id operand ↔ operand = id ∨ Operand bodies part operand)
    (single : ∀ op lhs rhs, bodies.expr id ≠ .binary op lhs rhs) :
    LetsThrough bodies id ↔ LetsThrough bodies part := by
  constructor
  · intro through operand lhs rhs binding there
    exact through operand lhs rhs binding ((only operand).mpr (.inr there))
  · intro through operand lhs rhs binding there
    rcases (only operand).mp there with rfl | deeper
    · exact ⟨fun form => absurd form (single _ _ _), fun form => absurd form (single _ _ _)⟩
    · exact through operand lhs rhs binding deeper

theorem letsThrough_connective {id lhs rhs : ExprId} {op : BinaryOp}
    (connective : op = .and ∨ op = .or) (form : bodies.expr id = .binary op lhs rhs) :
    LetsThrough bodies id ↔
      LetsThrough bodies lhs ∧ LetsThrough bodies rhs ∧
        boundWhen bodies id (!decide (op = .and)) = [] := by
  rw [boundWhen_eq_nil_iff]
  constructor
  · intro through
    refine ⟨?_, ?_, ?_⟩
    · intro operand l r binding there
      exact through operand l r binding (.left connective form there)
    · intro operand l r binding there
      exact through operand l r binding (.right connective form there)
    · intro binding
      have here := through id lhs rhs binding (.self id)
      rcases connective with rfl | rfl
      · exact here.1 form
      · exact here.2 form
  · rintro ⟨left, right, empty⟩ operand l r binding there
    cases there with
    | self =>
        rcases connective with rfl | rfl
        · exact ⟨fun _ => empty binding, fun other => by simp [form] at other⟩
        · exact ⟨fun other => by simp [form] at other, fun _ => empty binding⟩
    | paren other _ | not other _ => simp [form] at other
    | left _ other inside =>
        obtain ⟨-, rfl, -⟩ : _ ∧ lhs = _ ∧ _ := by simpa [form] using other
        exact left operand l r binding inside
    | right _ other inside =>
        obtain ⟨-, -, rfl⟩ : _ ∧ _ ∧ rhs = _ := by simpa [form] using other
        exact right operand l r binding inside

theorem operand_of_other {id operand : ExprId} (form : ¬ IsConditionForm (bodies.expr id))
    (there : Operand bodies id operand) : operand = id := by
  cases there with
  | self => rfl
  | paren data _ | not data _ => simp [data, IsConditionForm] at form
  | left connective data _ | right connective data _ =>
      rcases connective with rfl | rfl <;> simp [data, IsConditionForm] at form

theorem Operand.trans {id operand deeper : ExprId} (there : Operand bodies id operand)
    (below : Operand bodies operand deeper) : Operand bodies id deeper := by
  induction there with
  | self => exact below
  | paren form _ ih => exact .paren form (ih below)
  | not form _ ih => exact .not form (ih below)
  | left connective form _ ih => exact .left connective form (ih below)
  | right connective form _ ih => exact .right connective form (ih below)

theorem flowRight_iff (id : ExprId) : FlowRight bodies id ↔ LetsThrough bodies id := by
  induction id using @condition_induction bodies with
  | instanceOf form =>
      apply iff_of_true
      · intro outcome
        rw [boundWhen_instanceOf form, introduced_instanceOf form]
      · intro operand lhs rhs binding there
        cases there <;> simp_all
  | @paren id inner form ih =>
      have around : FlowRight bodies id ↔ FlowRight bodies inner := by
        simp only [FlowRight, boundWhen_paren form, introduced_paren form]
      rw [around, ih]
      symm
      apply letsThrough_around _ (by simp [form])
      intro operand
      constructor
      · intro there
        cases there <;> simp_all
      · rintro (rfl | inside)
        · exact .self _
        · exact .paren form inside
  | @not id negated form ih =>
      have around : FlowRight bodies id ↔ FlowRight bodies negated := by
        simp only [FlowRight, boundWhen_not form, introduced_not form, Bool.forall_bool]
        exact and_comm
      rw [around, ih]
      symm
      apply letsThrough_around _ (by simp [form])
      intro operand
      constructor
      · intro there
        cases there <;> simp_all
      · rintro (rfl | inside)
        · exact .self _
        · exact .not form inside
  | connective connective form left right =>
      rw [flowRight_connective connective form, letsThrough_connective connective form, left, right]
  | other form =>
      apply iff_of_true
      · intro outcome
        rw [boundWhen_other form, introduced_other form]
      · intro operand lhs rhs binding there
        obtain rfl := operand_of_other form there
        exact ⟨fun data => by simp [data, IsConditionForm] at form,
          fun data => by simp [data, IsConditionForm] at form⟩

/-- Whatever the condition, its flow and its scopes are what the language says exactly when no `&&`
stands over a pattern variable under an odd number of `!` and no `||` over one under an even
number. -/
theorem patternScope_follows_iff (bodies : BodyTree) (cond : ExprId) :
    PatternScopeFollows bodies cond ↔ LetsThrough bodies cond := by
  rw [← flowRight_iff]
  constructor
  · intro follows outcome
    simp only [boundWhen, follows.flow]
    cases outcome <;> rfl
  · intro right
    have sides (binding : LocalId) (outcome : Bool)
        (there : binding ∈ boundWhen bodies cond outcome) : MatchedWhen bodies cond outcome binding :=
      introduced_matched (right outcome ▸ there)
    refine ⟨Prod.ext (right true) (right false), ?_, ?_, ?_, ?_⟩
    · intro hasElse thenExited beforeExited binding there
      exact sides binding true there
    · intro hasElse thenExited beforeExited binding there
      cases hasElse with
      | false => simp [ifScopes] at there
      | true => exact sides binding false there
    · intro hasElse thenExited beforeExited binding there
      simp only [ifScopes] at there
      split at there
      · exact sides binding false there
      · simp at there
    · intro operand op lhs rhs inside form connective binding there
      have through : LetsThrough bodies operand := fun deeper l r bound below =>
        (flowRight_iff cond).mp right deeper l r bound (inside.trans below)
      have left := ((letsThrough_connective connective form).mp through).1
      have brought : binding ∈ boundWhen bodies lhs (op = .and) := by
        simp only [rightOperandScope] at there
        cases flow : patternFlow bodies lhs with
        | none => simp [flow] at there
        | some sides =>
            rcases connective with rfl | rfl <;> simpa [boundWhen, flow] using there
      exact introduced_matched ((flowRight_iff lhs).mpr left _ ▸ brought)

/-- The expressions of `!(x instanceof A a) && flag`. -/
def negatedPatternBodies : BodyTree :=
  .ofExprs
    [.var ⟨['x']⟩, .instanceOf ⟨0⟩ none (some ⟨0⟩), .paren ⟨1⟩, .unary .not ⟨2⟩, .var ⟨"flag".toList⟩,
      .binary .and ⟨3⟩ ⟨4⟩]
    [.type { ty := .reference ⟨['A']⟩ [], refs := [⟨['A']⟩] } (some ⟨0⟩)]
    [{ name := ⟨['a']⟩, ty := none, annotations := [], isFinal := false }] rfl rfl

/-- `a` is in scope in the `else` arm of `if (!(x instanceof A a) && flag)`, which a false `flag`
leads to without a match. -/
theorem negated_pattern_scoped : ¬ ∀ bodies cond, PatternScopeFollows bodies cond := by
  intro follows
  have unmatched : Evaluates negatedPatternBodies ⟨5⟩ false [] :=
    .andTrue rfl (.not rfl (.paren rfl (.unmatched rfl))) (.other (by simp [IsConditionForm,
      BodyTree.expr, negatedPatternBodies, BodyTree.ofExprs]))
  have inElse : (⟨0⟩ : LocalId) ∈ (ifScopes negatedPatternBodies ⟨5⟩ true false false).elseArm := by
    decide
  exact absurd ((follows _ ⟨5⟩).elseArm true false false _ inElse [] unmatched) (List.not_mem_nil)

end CaffeineLs.HirTy
