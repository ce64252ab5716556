/-
Module: CaffeineLs.HirTy.DependencyRefs
Purpose: The names a Java file resolves against: its imports, the names of its type references and
  the members its bodies access.
Trusted boundary: an arena is walked to the depth the fuel allows.
Main exports: walkStmtMembers, walkExprMembers, memberWalk
-/
import CaffeineLs.HirTy.DepIndex
import CaffeineLs.HirTy.NameCheck

namespace CaffeineLs.HirTy

open HirExpand HirDef

section

variable {σ : Type} (visit : Visits σ)

/-- The labels and statements of a switch; a pattern accesses no member. -/
def walkArmsMembers (arms : List SwitchArm) (s : σ) : σ :=
  arms.foldl
    (fun s arm =>
      let s := arm.labels.foldl
        (fun s label =>
          match label with
          | .expr expr | .guard expr => visit.expr expr s
          | .pattern _ => s) s
      visit.stmts arm.body s) s

def walkStmtMembers : StmtData → σ → σ
  | .empty, s | .missing, s | .localClass _, s => s
  | .block stmts, s => visit.stmts stmts s
  | .decl _ initializer, s => visit.optExpr initializer s
  | .return_ (some expr), s | .throw_ expr, s | .yield_ expr, s => visit.expr expr s
  | .declGroup stmts, s => visit.stmts stmts s
  | .expr expr, s => visit.expr expr s
  | .labeled _ stmt, s => visit.stmt stmt s
  | .ifElse cond then_ els, s => visit.optStmt els (visit.stmt then_ (visit.expr cond s))
  | .whileLoop cond body, s => visit.stmt body (visit.expr cond s)
  | .doWhile body cond, s => visit.expr cond (visit.stmt body s)
  | .forLoop init cond step body, s =>
      visit.stmt body (visit.exprs step (visit.optExpr cond (visit.stmts init s)))
  | .forEach _ iterable body, s => visit.stmt body (visit.expr iterable s)
  | .switch scrutinee arms, s => walkArmsMembers visit arms (visit.expr scrutinee s)
  | .return_ none, s | .break_ _, s | .continue_ _, s => s
  | .synchronized expr body, s => visit.stmt body (visit.expr expr s)
  | .try_ resources body catches finally_, s =>
      let s := resources.foldl (fun s resource => visit.optExpr resource.initializer s) s
      let s := visit.stmt body s
      let s := catches.foldl (fun s clause => visit.stmt clause.body s) s
      visit.optStmt finally_ s
  | .assert cond msg, s => visit.optExpr msg (visit.expr cond s)

/-- `insert` records a name. A braced array initializer and an unqualified name end the walk. -/
def walkExprMembers (insert : Name → σ → σ) : ExprData → σ → σ
  | .literal _, s | .null, s | .this _, s | .super _, s | .classLit _, s | .arrayInit _, s => s
  | .var _, s => s
  | .namePath name, s => insert name.simpleName (insert name s)
  | .fieldAccess target name, s => visit.optExpr target (insert name s)
  | .arrayAccess array index, s => visit.expr index (visit.expr array s)
  | .methodCall receiver name _ args, s =>
      visit.exprs args (visit.optExpr receiver (insert name s))
  | .new _ args receiver, s => visit.optExpr receiver (visit.exprs args s)
  | .ctorCall args, s => visit.exprs args s
  | .newArray _ dims initializer, s =>
      let s := visit.exprs dims s
      match initializer with
      | some elems => visit.exprs elems s
      | none => s
  | .template args, s => visit.exprs args s
  | .unary _ expr, s | ExprData.postfix_ _ expr, s => visit.expr expr s
  | .binary _ lhs rhs, s | .assign _ lhs rhs, s => visit.expr rhs (visit.expr lhs s)
  | .cast _ expr, s | .instanceOf expr _ _, s => visit.expr expr s
  | .conditional cond then_ els, s => visit.expr els (visit.expr then_ (visit.expr cond s))
  | .switch scrutinee arms, s => walkArmsMembers visit arms (visit.expr scrutinee s)
  | .paren expr, s => visit.expr expr s
  | .missing, s => s
  | .lambda _ body, s => visit.lambdaBody body s
  | .methodRef qualifier _ _, s => visit.optExpr qualifier s

end

variable (bodies : BodyTree)

/-- The walk of the arenas: `walk_stmt_members` and `walk_expr_members`. -/
def memberWalk : Nat → Visits (Finset Name)
  | 0 => { expr := fun _ out => out, stmt := fun _ out => out, pattern := fun _ out => out }
  | fuel + 1 =>
      let visit := memberWalk fuel
      { expr := fun id out => walkExprMembers visit insert (bodies.expr id) out
        stmt := fun id out => walkStmtMembers visit (bodies.stmt id) out
        pattern := fun _ out => out }

/-- The walk of one node, to the depth the node has. -/
def memberWalkFrom (node : Node) (out : Finset Name) : Finset Name :=
  (memberWalk bodies (bodies.height node + 1)).node node out

def collectTypeRefNames (spanned : SpannedTypeRef) (out : Finset Name) : Finset Name :=
  spanned.refs.foldl (fun out name => insert name out) out

def collectItemTypeRefNames (tyref : ItemTypeRef) (out : Finset Name) : Finset Name :=
  tyref.refs.foldl (fun out name => insert name out) out

def collectMemberNames (stmts : List StmtId) (out : Finset Name) : Finset Name :=
  stmts.foldl (fun out stmt => memberWalkFrom bodies (.stmt stmt) out) out

/-- The names of a body: those of its type references and of the members it accesses. -/
def collectBodyNames (body : BodyId) (out : Finset Name) : Finset Name :=
  let out := (bodyTypeRefs bodies body).foldl (fun out entry => collectTypeRefNames entry.2 out) out
  collectMemberNames bodies (bodies.body body) out

/-- The names of an expression forest. -/
def collectExprForestNames (exprs : List ExprId) (out : Finset Name) : Finset Name :=
  let out := (exprForestTypeRefs bodies exprs).foldl
    (fun out entry => collectTypeRefNames entry.2 out) out
  exprs.foldl (fun out expr => memberWalkFrom bodies (.expr expr) out) out

/-- The names of a declaration's types and of the bodies and expressions it owns. -/
def collectItemNames (data : ItemData) (out : Finset Name) : Finset Name :=
  let out := (itemTypeRefs data).foldl (fun out tyref => collectItemTypeRefNames tyref out) out
  match data with
  | .method method =>
      let out :=
        match method.body with
        | some body => collectBodyNames bodies body out
        | none => out
      match method.defaultExpr with
      | some default => collectExprForestNames bodies [default] out
      | none => out
  | .staticInit init | .instanceInit init =>
      match init.body with
      | some body => collectBodyNames bodies body out
      | none => out
  | .field field =>
      match field.initializerExpr with
      | some init => collectExprForestNames bodies [init] out
      | none => out
  | .enumConstant constant => collectExprForestNames bodies constant.argumentExprs out
  | _ => out

/-- The full name of an import and its leaf. -/
def collectImportNames (item : ImportItem) (out : Finset Name) : Finset Name :=
  insert item.name.simpleName (insert item.name out)

/-- Every name a file resolves against that may not be recoverable from its types. -/
def fileDependencyRefs (tree : ItemTree) : Finset Name :=
  let out := tree.imports.foldl (fun out item => collectImportNames item out) ∅
  (allItemsData tree).foldl (fun out entry => collectItemNames bodies entry.2 out) out

end CaffeineLs.HirTy
