/-
Module: CaffeineLs.HirTy.NameCheck
Purpose: The walk that finds the type references of a Java body or expression forest, and the type
  references of a declaration.
Trusted boundary: an arena is walked to the depth the fuel allows.
Main exports: itemTypeRefs, walkStmtData, walkExprData
-/
import CaffeineLs.HirDef.JavaItemTree

namespace CaffeineLs.HirTy

open HirExpand HirDef

/-- The named type references of a declaration. -/
def itemTypeRefs : ItemData → List ItemTypeRef
  | .class d | .interface d =>
      d.superClass.toList ++ d.interfaces ++ d.typeParams.flatMap TypeParam.bounds
  | .enum d => d.interfaces
  | .record d =>
      d.interfaces ++ d.components.map RecordComponent.ty ++ d.typeParams.flatMap TypeParam.bounds
  | ItemData.annotation _ => []
  | .module d => d.uses ++ d.provides.flatMap fun provide => provide.service :: provide.implementations
  | .method d =>
      d.sig.typeParams.flatMap TypeParam.bounds ++ d.sig.params.map Param.ty ++ d.sig.ret.toList ++
        d.sig.throws
  | .field d => [d.ty]
  | .enumConstant _ | .staticInit _ | .instanceInit _ => []

/-- What a walk does with the nodes it descends into. -/
structure Visits (σ : Type) where
  expr : ExprId → σ → σ
  stmt : StmtId → σ → σ
  pattern : PatternId → σ → σ

namespace Visits

variable {σ : Type} (visit : Visits σ)

def node : Node → σ → σ
  | .expr id => visit.expr id
  | .stmt id => visit.stmt id
  | .pattern id => visit.pattern id

def exprs (ids : List ExprId) (s : σ) : σ := ids.foldl (fun s id => visit.expr id s) s

def stmts (ids : List StmtId) (s : σ) : σ := ids.foldl (fun s id => visit.stmt id s) s

def optExpr (id : Option ExprId) (s : σ) : σ :=
  match id with
  | some id => visit.expr id s
  | none => s

def optStmt (id : Option StmtId) (s : σ) : σ :=
  match id with
  | some id => visit.stmt id s
  | none => s

def label : SwitchLabel → σ → σ
  | .expr id => visit.expr id
  | .guard cond => visit.expr cond
  | .pattern id => visit.pattern id

def lambdaBody : LambdaBody → σ → σ
  | .expr id => visit.expr id
  | .block id => visit.stmt id

end Visits

/-- Where a type reference was found. -/
inductive DiagLocation where
  | expr (id : ExprId)
  | loc (id : LocalId)
  | pattern (id : PatternId)
deriving DecidableEq, Repr

/-- The local declarations in scope, innermost last, and what the callback has built. -/
structure TypeWalk (σ : Type) where
  scope : List ItemId
  out : σ

section

variable {σ : Type} (bodies : BodyTree) (f : DiagLocation → SpannedTypeRef → List ItemId → σ → σ)

/-- The callback runs on a type reference. -/
def TypeWalk.emit (at_ : DiagLocation) (spanned : SpannedTypeRef) (w : TypeWalk σ) : TypeWalk σ :=
  { w with out := f at_ spanned w.scope w.out }

def TypeWalk.emitAll (at_ : DiagLocation) (all : List SpannedTypeRef) (w : TypeWalk σ) :
    TypeWalk σ :=
  all.foldl (fun w spanned => w.emit f at_ spanned) w

/-- A one-name reference to an annotation's type name. -/
def annotationReference (ref : AnnotationRef) : SpannedTypeRef :=
  { ty := .reference ref.name [], refs := [ref.name] }

def recordLocal (id : LocalId) (w : TypeWalk σ) : TypeWalk σ :=
  let binding := bodies.binding id
  let w := w.emitAll f (.loc id) binding.ty.toList
  w.emitAll f (.loc id) (binding.annotations.map annotationReference)

def recordPatternData (visit : Visits (TypeWalk σ)) (id : PatternId) :
    PatternData → TypeWalk σ → TypeWalk σ
  | .type ty binding, w =>
      let w := w.emit f (.pattern id) ty
      match binding with
      | some binding =>
          w.emitAll f (.pattern id) ((bodies.binding binding).annotations.map annotationReference)
      | none => w
  | .record ty components, w =>
      components.foldl (fun w component => visit.pattern component w) (w.emit f (.pattern id) ty)
  | .matchAll, w => w

def walkSwitch (visit : Visits (TypeWalk σ)) (scrutinee : ExprId) (arms : List SwitchArm)
    (w : TypeWalk σ) : TypeWalk σ :=
  arms.foldl
    (fun w arm => visit.stmts arm.body (arm.labels.foldl (fun w label => visit.label label w) w))
    (visit.expr scrutinee w)

/-- A declaration made inside a block is not in scope after it. -/
def walkStmtData (visit : Visits (TypeWalk σ)) : StmtData → TypeWalk σ → TypeWalk σ
  | .empty, w | .missing, w => w
  | .localClass item, w => { w with scope := w.scope ++ [item] }
  | .block stmts, w =>
      let outer := w.scope.length
      let w := visit.stmts stmts w
      { w with scope := w.scope.take outer }
  | .decl binding initializer, w => visit.optExpr initializer (recordLocal bodies f binding w)
  | .declGroup stmts, w => visit.stmts stmts w
  | .expr id, w => visit.expr id w
  | .labeled _ stmt, w => visit.stmt stmt w
  | .ifElse cond then_ els, w => visit.optStmt els (visit.stmt then_ (visit.expr cond w))
  | .whileLoop cond body, w => visit.stmt body (visit.expr cond w)
  | .doWhile body cond, w => visit.expr cond (visit.stmt body w)
  | .forLoop init cond step body, w =>
      visit.stmt body (visit.exprs step (visit.optExpr cond (visit.stmts init w)))
  | .forEach var iterable body, w =>
      visit.stmt body (visit.expr iterable (recordLocal bodies f var w))
  | .switch scrutinee arms, w => walkSwitch visit scrutinee arms w
  | .return_ (some value), w | .throw_ value, w | .yield_ value, w => visit.expr value w
  | .return_ none, w | .break_ _, w | .continue_ _, w => w
  | .synchronized monitor body, w => visit.stmt body (visit.expr monitor w)
  | .try_ resources body catches finally_, w =>
      let w := resources.foldl
        (fun w resource =>
          visit.optExpr resource.initializer (recordLocal bodies f resource.binding w)) w
      let w := visit.stmt body w
      let w := catches.foldl
        (fun w clause => visit.stmt clause.body (recordLocal bodies f clause.param w)) w
      visit.optStmt finally_ w
  | .assert cond msg, w => visit.optExpr msg (visit.expr cond w)

/-- The type of a qualified instance creation names a member of its receiver and is not emitted. -/
def walkExprData (visit : Visits (TypeWalk σ)) (id : ExprId) :
    ExprData → TypeWalk σ → TypeWalk σ
  | .new ty args receiver, w =>
      let w := if receiver.isNone then w.emit f (.expr id) ty else w
      visit.optExpr receiver (visit.exprs args w)
  | .newArray ty dims initializer, w =>
      let w := visit.exprs dims (w.emit f (.expr id) ty)
      match initializer with
      | some elems => visit.exprs elems w
      | none => w
  | .cast ty expr, w => visit.expr expr (w.emit f (.expr id) ty)
  | .instanceOf expr ty pattern, w =>
      let w := visit.expr expr (w.emitAll f (.expr id) ty.toList)
      match pattern with
      | some pattern => visit.pattern pattern w
      | none => w
  | .classLit ty, w => w.emit f (.expr id) ty
  | .methodCall receiver _ typeArgs args, w =>
      visit.exprs args (visit.optExpr receiver (w.emitAll f (.expr id) typeArgs))
  | .methodRef qualifier typeName _, w =>
      visit.optExpr qualifier (w.emitAll f (.expr id) typeName.toList)
  | .lambda params body, w =>
      let w := params.foldl
        (fun w param =>
          let w := w.emitAll f (.expr id) param.ty.toList
          w.emitAll f (.expr id) (param.annotations.map annotationReference)) w
      visit.lambdaBody body w
  | .this qualifier, w | .super qualifier, w => w.emitAll f (.expr id) qualifier.toList
  | .fieldAccess target _, w => visit.optExpr target w
  | .arrayAccess array index, w => visit.expr index (visit.expr array w)
  | .unary _ expr, w | ExprData.postfix_ _ expr, w => visit.expr expr w
  | .binary _ lhs rhs, w | .assign _ lhs rhs, w => visit.expr rhs (visit.expr lhs w)
  | .conditional cond then_ els, w => visit.expr els (visit.expr then_ (visit.expr cond w))
  | .paren expr, w => visit.expr expr w
  | .switch scrutinee arms, w => walkSwitch visit scrutinee arms w
  | .ctorCall args, w | .arrayInit args, w | .template args, w => visit.exprs args w
  | .literal _, w | .null, w | .var _, w | .namePath _, w | .missing, w => w

/-- The walk of the arenas: `walk_stmt`, `walk_expr` and `record_pattern`. -/
def typeWalk : Nat → Visits (TypeWalk σ)
  | 0 => { expr := fun _ w => w, stmt := fun _ w => w, pattern := fun _ w => w }
  | fuel + 1 =>
      let visit := typeWalk fuel
      { expr := fun id w => walkExprData f visit id (bodies.expr id) w
        stmt := fun id w => walkStmtData bodies f visit (bodies.stmt id) w
        pattern := fun id w => recordPatternData bodies f visit id (bodies.pattern id) w }

/-- The walk of one node, to the depth the node has. -/
def typeWalkFrom (node : Node) (w : TypeWalk σ) : TypeWalk σ :=
  (typeWalk bodies f (bodies.height node + 1)).node node w

end

/-- The callback that collects. -/
def pushReference (at_ : DiagLocation) (spanned : SpannedTypeRef) (_ : List ItemId)
    (out : List (DiagLocation × SpannedTypeRef)) : List (DiagLocation × SpannedTypeRef) :=
  out ++ [(at_, spanned)]

/-- The type references owned by a body. -/
def bodyTypeRefs (bodies : BodyTree) (body : BodyId) : List (DiagLocation × SpannedTypeRef) :=
  ((bodies.body body).foldl (fun w stmt => typeWalkFrom bodies pushReference (.stmt stmt) w)
    { scope := [], out := [] }).out

/-- The type references of a field initializer, enum constant arguments or an annotation element
default. -/
def exprForestTypeRefs (bodies : BodyTree) (exprs : List ExprId) :
    List (DiagLocation × SpannedTypeRef) :=
  (exprs.foldl (fun w expr => typeWalkFrom bodies pushReference (.expr expr) w)
    { scope := [], out := [] }).out

end CaffeineLs.HirTy
