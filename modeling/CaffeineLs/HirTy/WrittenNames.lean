/-
Module: CaffeineLs.HirTy.WrittenNames
Purpose: Where a Java file writes names: the type references and annotations of each node, the names
  an expression looks up, and the bodies and expressions a declaration owns.
Trusted boundary: none
Main exports: Node.typeRefs, Node.annotations, Node.memberNames
-/
import CaffeineLs.HirDef.JavaItemTree

namespace CaffeineLs.HirTy

open HirExpand HirDef Collect

variable (bodies : BodyTree)

/-- The type references an expression itself writes. -/
def exprTypeRefs : ExprData → List SpannedTypeRef
  | .new ty _ _ | .newArray ty _ _ | .cast ty _ | .classLit ty => [ty]
  | .instanceOf _ ty _ => ty.toList
  | .methodCall _ _ typeArgs _ => typeArgs
  | .methodRef _ typeName _ => typeName.toList
  | .lambda params _ => params.flatMap fun param => param.ty.toList
  | .this qualifier | .super qualifier => qualifier.toList
  | _ => []

/-- The locals a statement declares. -/
def stmtLocals : StmtData → List LocalId
  | .decl binding _ | .forEach binding _ _ => [binding]
  | .try_ resources _ catches _ => resources.map Resource.binding ++ catches.map CatchClause.param
  | _ => []

/-- The alternatives of the catch clauses. -/
def catchTypes : StmtData → List SpannedTypeRef
  | .try_ _ _ catches _ => catches.flatMap CatchClause.paramTypes
  | _ => []

/-- The type references a node itself writes. -/
def typeRefsOf : Node → List SpannedTypeRef
  | .expr id => exprTypeRefs (bodies.expr id)
  | .stmt id =>
      (stmtLocals (bodies.stmt id)).flatMap (fun binding => (bodies.binding binding).ty.toList) ++
        catchTypes (bodies.stmt id)
  | .pattern id =>
      match bodies.pattern id with
      | .type ty _ | .record ty _ => [ty]
      | .matchAll => []

/-- The declaration annotations a node itself writes. -/
def annotationsOf : Node → List AnnotationRef
  | .expr id =>
      match bodies.expr id with
      | .lambda params _ => params.flatMap LambdaParam.annotations
      | _ => []
  | .stmt id =>
      (stmtLocals (bodies.stmt id)).flatMap fun binding => (bodies.binding binding).annotations
  | .pattern id =>
      match bodies.pattern id with
      | .type _ (some binding) => (bodies.binding binding).annotations
      | _ => []

/-- The method, field, unqualified or qualified name an expression itself writes. -/
def memberNamesOf : Node → List Name
  | .expr id =>
      match bodies.expr id with
      | .methodCall _ name _ _ | .fieldAccess _ name | .var name | .methodRef _ _ name
      | .namePath name => [name]
      | _ => []
  | _ => []

/-- What stands directly inside a node, the values of its annotations included. -/
def writtenParts (node : Node) : List Node :=
  bodies.parts node ++ ((annotationsOf bodies node).flatMap AnnotationRef.exprs).map Node.expr

/-- The statements of the body a declaration has and the expressions it is initialized with. -/
def bodyRoots : ItemData → List Node
  | .method d =>
      (d.body.toList.flatMap bodies.body).map Node.stmt ++ d.defaultExpr.toList.map Node.expr
  | .staticInit d | .instanceInit d => (d.body.toList.flatMap bodies.body).map Node.stmt
  | .field d => d.initializerExpr.toList.map Node.expr
  | .enumConstant d => d.argumentExprs.map Node.expr
  | _ => []

/-- The values of the annotations a declaration writes. -/
def annotationRoots (data : ItemData) : List Node :=
  (data.annotations.flatMap AnnotationRef.exprs).map Node.expr

/-- A node stands inside a body or initializer of the file, annotation values included. -/
def StandsInBody (tree : ItemTree) (node : Node) : Prop :=
  ∃ item, tree.Has item ∧
    ∃ root ∈ bodyRoots bodies (tree.data item), Inside (writtenParts bodies) root node

/-- A node stands inside the value of an annotation of a declaration. -/
def StandsInAnnotation (tree : ItemTree) (node : Node) : Prop :=
  ∃ item, tree.Has item ∧
    ∃ root ∈ annotationRoots (tree.data item), Inside (writtenParts bodies) root node

/-- A node writes the name in a type reference or in an annotation. -/
def WritesType (node : Node) (name : Name) : Prop :=
  (∃ spanned ∈ typeRefsOf bodies node, name ∈ spanned.refs) ∨
    ∃ written ∈ annotationsOf bodies node, name ∈ written.typeNames

/-- The name is written in the file: by a type reference or an annotation of a declaration or of a
node inside a body, or as a member or variable inside a body or initializer. -/
inductive Written (tree : ItemTree) (name : Name) : Prop where
  | declaration {item : ItemId} {tyref : ItemTypeRef} (has : tree.Has item)
      (writes : tyref ∈ (tree.data item).typeRefs) (named : name ∈ tyref.refs)
  | annotated {item : ItemId} {written : AnnotationRef} (has : tree.Has item)
      (writes : written ∈ (tree.data item).annotations) (named : name ∈ written.typeNames)
  | inValue {node : Node} (stands : StandsInAnnotation bodies tree node)
      (writes : WritesType bodies node name)
  | type {node : Node} (stands : StandsInBody bodies tree node)
      (writes : WritesType bodies node name)
  | member {node : Node} (stands : StandsInBody bodies tree node)
      (named : name ∈ memberNamesOf bodies node)

end CaffeineLs.HirTy
