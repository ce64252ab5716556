/-
Module: CaffeineLs.HirTy.PatternScope
Purpose: The pattern variables a condition binds, where the inference of a Java body puts them in
  scope, and which of them the evaluation of the condition has matched.
Trusted boundary: the scope stack is left out; what a place brings into scope is the list of
  bindings it inserts.
Main exports: patternBindingsOf, patternFlow, rightOperandScope
-/
import CaffeineLs.HirExpand.Body
import CaffeineLs.Lib.Ranked

namespace CaffeineLs.HirTy

open HirExpand Ranked

/-- The bindings of a condition when it is true, and when it is false. -/
abbrev PatternFlow := List LocalId × List LocalId

section

variable (bodies : BodyTree)

/-! ### The inference -/

def patternBindingsNode (visit : Node → List LocalId) : Node → List LocalId
  | .pattern id =>
      match bodies.pattern id with
      | .type _ binding => binding.toList
      | .record _ components => components.flatMap fun component => visit (.pattern component)
      | .matchAll => []
  | _ => []

/-- `pattern_bindings_of`: the variables of a pattern, those of its components in turn. -/
def patternBindingsOf (id : PatternId) : List LocalId :=
  tower bodies.height (patternBindingsNode bodies) (fun _ => []) (.pattern id)

/-- The flow of a connective: both lists of both operands, whichever connective it is. -/
def connectiveFlow (visit : Node → Option PatternFlow) (lhs rhs : ExprId) : Option PatternFlow :=
  let (lhsTrue, lhsFalse) := (visit (.expr lhs)).getD ([], [])
  let (rhsTrue, rhsFalse) := (visit (.expr rhs)).getD ([], [])
  some (lhsTrue ++ rhsTrue, lhsFalse ++ rhsFalse)

def patternFlowNode (visit : Node → Option PatternFlow) : Node → Option PatternFlow
  | .expr id =>
      match bodies.expr id with
      | .instanceOf _ _ pattern => some ((pattern.map (patternBindingsOf bodies)).getD [], [])
      | .paren inner => visit (.expr inner)
      | .unary .not operand => (visit (.expr operand)).map Prod.swap
      | .binary .and lhs rhs => connectiveFlow visit lhs rhs
      | .binary .or lhs rhs => connectiveFlow visit lhs rhs
      | _ => none
  | _ => none

/-- `pattern_flow`; the forms that bind no pattern variable have none. -/
def patternFlow (id : ExprId) : Option PatternFlow :=
  tower bodies.height (patternFlowNode bodies) (fun _ => none) (.expr id)

/-- What `binary` brings into scope for the right operand of `&&` and `||`. -/
def rightOperandScope (op : BinaryOp) (lhs : ExprId) : List LocalId :=
  match patternFlow bodies lhs with
  | some (lhsTrue, lhsFalse) => if op = .and then lhsTrue else lhsFalse
  | none => []

/-- What an `if` statement brings into scope in its two arms and behind itself. -/
structure IfScopes where
  thenArm : List LocalId
  elseArm : List LocalId
  after : List LocalId

/-- The `If` of `infer_stmt_data`: without an `else`, the false flow stays in scope behind a `then`
arm that exits. -/
def ifScopes (cond : ExprId) (hasElse thenExited beforeExited : Bool) : IfScopes :=
  let (trueFlow, falseFlow) := (patternFlow bodies cond).getD ([], [])
  { thenArm := trueFlow
    elseArm := if hasElse then falseFlow else []
    after := if !hasElse && (thenExited && !beforeExited) then falseFlow else [] }

/-! ### The language -/

/-- The variables a condition introduces when it has the outcome, as JLS §6.3.1 has it: `a && b`
introduces those of both operands when true and none when false, `a || b` those of both when false
and none when true. -/
def introducedNode (visit : Node → Bool → List LocalId) : Node → Bool → List LocalId
  | .expr id, outcome =>
      match bodies.expr id with
      | .instanceOf _ _ (some pattern) => if outcome then patternBindingsOf bodies pattern else []
      | .paren inner => visit (.expr inner) outcome
      | .unary .not operand => visit (.expr operand) !outcome
      | .binary .and lhs rhs =>
          if outcome then visit (.expr lhs) true ++ visit (.expr rhs) true else []
      | .binary .or lhs rhs =>
          if outcome then [] else visit (.expr lhs) false ++ visit (.expr rhs) false
      | _ => []
  | _, _ => []

def introduced (id : ExprId) : Bool → List LocalId :=
  tower bodies.height (introducedNode bodies) (fun _ _ => []) (.expr id)

/-- The forms a condition is built from. -/
def IsConditionForm : ExprData → Prop
  | .instanceOf _ _ _ | .paren _ | .unary .not _ | .binary .and _ _ | .binary .or _ _ => True
  | _ => False

/-- An evaluation of a condition: its outcome, and the variables whose patterns it has matched. The
right operand of `&&` and `||` is come to only when the left one does not decide. -/
inductive Evaluates : ExprId → Bool → List LocalId → Prop where
  | matched {id operand : ExprId} {ty : Option SpannedTypeRef} {pattern : Option PatternId}
      (form : bodies.expr id = .instanceOf operand ty pattern) :
      Evaluates id true ((pattern.map (patternBindingsOf bodies)).getD [])
  | unmatched {id operand : ExprId} {ty : Option SpannedTypeRef} {pattern : Option PatternId}
      (form : bodies.expr id = .instanceOf operand ty pattern) : Evaluates id false []
  | paren {id inner : ExprId} {outcome : Bool} {bound : List LocalId}
      (form : bodies.expr id = .paren inner) (inside : Evaluates inner outcome bound) :
      Evaluates id outcome bound
  | not {id operand : ExprId} {outcome : Bool} {bound : List LocalId}
      (form : bodies.expr id = .unary .not operand) (inside : Evaluates operand outcome bound) :
      Evaluates id (!outcome) bound
  | andFalse {id lhs rhs : ExprId} {bound : List LocalId}
      (form : bodies.expr id = .binary .and lhs rhs) (left : Evaluates lhs false bound) :
      Evaluates id false bound
  | andTrue {id lhs rhs : ExprId} {outcome : Bool} {bound more : List LocalId}
      (form : bodies.expr id = .binary .and lhs rhs) (left : Evaluates lhs true bound)
      (right : Evaluates rhs outcome more) : Evaluates id outcome (bound ++ more)
  | orTrue {id lhs rhs : ExprId} {bound : List LocalId}
      (form : bodies.expr id = .binary .or lhs rhs) (left : Evaluates lhs true bound) :
      Evaluates id true bound
  | orFalse {id lhs rhs : ExprId} {outcome : Bool} {bound more : List LocalId}
      (form : bodies.expr id = .binary .or lhs rhs) (left : Evaluates lhs false bound)
      (right : Evaluates rhs outcome more) : Evaluates id outcome (bound ++ more)
  | other {id : ExprId} {outcome : Bool} (form : ¬ IsConditionForm (bodies.expr id)) :
      Evaluates id outcome []

/-- Every evaluation of the condition to the outcome has matched the variable's pattern. -/
def MatchedWhen (id : ExprId) (outcome : Bool) (binding : LocalId) : Prop :=
  ∀ bound, Evaluates bodies id outcome bound → binding ∈ bound

/-- An operand of the condition at any depth, through parentheses, `!`, `&&` and `||`. -/
inductive Operand : ExprId → ExprId → Prop where
  | self (id : ExprId) : Operand id id
  | paren {id inner operand : ExprId} (form : bodies.expr id = .paren inner)
      (inside : Operand inner operand) : Operand id operand
  | not {id negated operand : ExprId} (form : bodies.expr id = .unary .not negated)
      (inside : Operand negated operand) : Operand id operand
  | left {id lhs rhs operand : ExprId} {op : BinaryOp} (connective : op = .and ∨ op = .or)
      (form : bodies.expr id = .binary op lhs rhs) (inside : Operand lhs operand) :
      Operand id operand
  | right {id lhs rhs operand : ExprId} {op : BinaryOp} (connective : op = .and ∨ op = .or)
      (form : bodies.expr id = .binary op lhs rhs) (inside : Operand rhs operand) :
      Operand id operand

/-- The flow is what the language introduces, and a variable is in scope in an arm, behind the
statement or in a right operand only where its pattern has matched. A right operand is come to when
the left one is true for `&&` and false for `||`, an `else` arm when the condition is false, and what
stands behind a `then` arm that exits as well. -/
structure PatternScopeFollows (cond : ExprId) : Prop where
  flow : (patternFlow bodies cond).getD ([], []) =
    (introduced bodies cond true, introduced bodies cond false)
  thenArm : ∀ hasElse thenExited beforeExited,
    ∀ binding ∈ (ifScopes bodies cond hasElse thenExited beforeExited).thenArm,
      MatchedWhen bodies cond true binding
  elseArm : ∀ hasElse thenExited beforeExited,
    ∀ binding ∈ (ifScopes bodies cond hasElse thenExited beforeExited).elseArm,
      MatchedWhen bodies cond false binding
  after : ∀ hasElse thenExited beforeExited,
    ∀ binding ∈ (ifScopes bodies cond hasElse thenExited beforeExited).after,
      MatchedWhen bodies cond false binding
  rightOperand : ∀ operand op lhs rhs, Operand bodies cond operand →
    bodies.expr operand = .binary op lhs rhs → op = .and ∨ op = .or →
      ∀ binding ∈ rightOperandScope bodies op lhs, MatchedWhen bodies lhs (op = .and) binding

/-- A pattern of the condition binds the variable: under an even number of `!`, where the outcome
asked for is `true`, or an odd one. -/
inductive BindsUnder : ExprId → Bool → LocalId → Prop where
  | pattern {id operand : ExprId} {ty : Option SpannedTypeRef} {pattern : PatternId}
      {binding : LocalId} (form : bodies.expr id = .instanceOf operand ty (some pattern))
      (bound : binding ∈ patternBindingsOf bodies pattern) : BindsUnder id true binding
  | paren {id inner : ExprId} {outcome : Bool} {binding : LocalId}
      (form : bodies.expr id = .paren inner) (inside : BindsUnder inner outcome binding) :
      BindsUnder id outcome binding
  | not {id negated : ExprId} {outcome : Bool} {binding : LocalId}
      (form : bodies.expr id = .unary .not negated) (inside : BindsUnder negated outcome binding) :
      BindsUnder id (!outcome) binding
  | left {id lhs rhs : ExprId} {op : BinaryOp} {outcome : Bool} {binding : LocalId}
      (connective : op = .and ∨ op = .or) (form : bodies.expr id = .binary op lhs rhs)
      (inside : BindsUnder lhs outcome binding) : BindsUnder id outcome binding
  | right {id lhs rhs : ExprId} {op : BinaryOp} {outcome : Bool} {binding : LocalId}
      (connective : op = .and ∨ op = .or) (form : bodies.expr id = .binary op lhs rhs)
      (inside : BindsUnder rhs outcome binding) : BindsUnder id outcome binding

/-- No `&&` of the condition has a pattern variable below it under an odd number of `!`, and no `||`
one under an even number. -/
def LetsThrough (cond : ExprId) : Prop :=
  ∀ operand lhs rhs binding, Operand bodies cond operand →
    (bodies.expr operand = .binary .and lhs rhs → ¬ BindsUnder bodies operand false binding) ∧
    (bodies.expr operand = .binary .or lhs rhs → ¬ BindsUnder bodies operand true binding)

end

end CaffeineLs.HirTy
