/-
Module: CaffeineLs.HirExpand.Body
Purpose: The body tree of a Java file: arenas of expressions, statements, patterns and locals.
Trusted boundary: the forms only Kotlin bodies have are left out, and of every form the data no
  modelled function reads.
Main exports: ExprData, StmtData, PatternData
-/
import CaffeineLs.HirExpand.Name

namespace CaffeineLs.HirExpand

structure StmtId where
  raw : Nat
deriving DecidableEq, Repr

structure LocalId where
  raw : Nat
deriving DecidableEq, Repr

structure PatternId where
  raw : Nat
deriving DecidableEq, Repr

structure BodyId where
  raw : Nat
deriving DecidableEq, Repr

/-- A local variable binding. The declaration annotations of a method parameter are lowered with
the signature; every other variable carries them here. -/
structure Local where
  name : Name
  ty : Option SpannedTypeRef
  annotations : List AnnotationRef
  isFinal : Bool

inductive PatternData where
  | type (ty : SpannedTypeRef) (binding : Option LocalId)
  | record (ty : SpannedTypeRef) (components : List PatternId)
  | matchAll

inductive UnaryOp where
  | plus
  | minus
  | bitNot
  | not
  | inc
  | dec
deriving DecidableEq, Repr

inductive PostfixOp where
  | inc
  | dec
deriving DecidableEq, Repr

inductive BinaryOp where
  | mul
  | div
  | rem
  | add
  | sub
  | shl
  | shr
  | uShr
  | lt
  | gt
  | le
  | ge
  | eq
  | ne
  | bitAnd
  | bitXor
  | bitOr
  | and
  | or
deriving DecidableEq, Repr

inductive AssignOp where
  | assign
  | mul
  | div
  | rem
  | add
  | sub
  | shl
  | shr
  | uShr
  | bitAnd
  | bitXor
  | bitOr
deriving DecidableEq, Repr

/-- One `case` label; `default` is the `expr` of a `missing` expression. -/
inductive SwitchLabel where
  | expr (id : ExprId)
  | pattern (id : PatternId)
  | guard (cond : ExprId)

/-- The labels and statements of one group, or the single consequent of a `case ... ->` rule. -/
structure SwitchArm where
  labels : List SwitchLabel
  body : List StmtId
  rule : Bool

/-- `param` is typed by the first of the `paramTypes`; a multi-catch lists every alternative. -/
structure CatchClause where
  param : LocalId
  paramTypes : List SpannedTypeRef
  body : StmtId

structure Resource where
  binding : LocalId
  initializer : Option ExprId

structure LambdaParam where
  name : Name
  ty : Option SpannedTypeRef
  annotations : List AnnotationRef

inductive LambdaBody where
  | expr (id : ExprId)
  | block (id : StmtId)

inductive StmtData where
  | empty
  | block (stmts : List StmtId)
  | decl (binding : LocalId) (initializer : Option ExprId)
  | declGroup (stmts : List StmtId)
  | expr (id : ExprId)
  | labeled (label : Name) (stmt : StmtId)
  | ifElse (cond : ExprId) (then_ : StmtId) (els : Option StmtId)
  | whileLoop (cond : ExprId) (body : StmtId)
  | doWhile (body : StmtId) (cond : ExprId)
  | forLoop (init : List StmtId) (cond : Option ExprId) (step : List ExprId) (body : StmtId)
  | forEach (var : LocalId) (iterable : ExprId) (body : StmtId)
  | switch (scrutinee : ExprId) (arms : List SwitchArm)
  | return_ (value : Option ExprId)
  | throw_ (value : ExprId)
  | break_ (label : Option Name)
  | continue_ (label : Option Name)
  | yield_ (value : ExprId)
  | synchronized (monitor : ExprId) (body : StmtId)
  | try_ (resources : List Resource) (body : StmtId) (catches : List CatchClause)
      (finally_ : Option StmtId)
  | assert (cond : ExprId) (msg : Option ExprId)
  | localClass (item : ItemId)
  | missing

inductive ExprData where
  | literal (lit : Literal)
  | null
  | template (args : List ExprId)
  | this (qualifier : Option SpannedTypeRef)
  | super (qualifier : Option SpannedTypeRef)
  | classLit (ty : SpannedTypeRef)
  | var (name : Name)
  | namePath (name : Name)
  | fieldAccess (target : Option ExprId) (name : Name)
  | arrayAccess (array index : ExprId)
  | methodCall (receiver : Option ExprId) (name : Name) (typeArgs : List SpannedTypeRef)
      (args : List ExprId)
  | new (ty : SpannedTypeRef) (args : List ExprId) (receiver : Option ExprId)
  | ctorCall (args : List ExprId)
  | newArray (ty : SpannedTypeRef) (dims : List ExprId) (initializer : Option (List ExprId))
  | arrayInit (elems : List ExprId)
  | unary (op : UnaryOp) (expr : ExprId)
  | postfix_ (op : PostfixOp) (expr : ExprId)
  | binary (op : BinaryOp) (lhs rhs : ExprId)
  | assign (op : AssignOp) (lhs rhs : ExprId)
  | cast (ty : SpannedTypeRef) (expr : ExprId)
  | instanceOf (expr : ExprId) (ty : Option SpannedTypeRef) (pattern : Option PatternId)
  | conditional (cond then_ els : ExprId)
  | lambda (params : List LambdaParam) (body : LambdaBody)
  | methodRef (qualifier : Option ExprId) (typeName : Option SpannedTypeRef) (name : Name)
  | switch (scrutinee : ExprId) (arms : List SwitchArm)
  | paren (expr : ExprId)
  | missing

/-! ### What stands directly inside a node -/

/-- A node of one of the arenas that hold each other. -/
inductive Node where
  | expr (id : ExprId)
  | stmt (id : StmtId)
  | pattern (id : PatternId)
deriving DecidableEq, Repr

def SwitchLabel.node : SwitchLabel → Node
  | .expr id => .expr id
  | .pattern id => .pattern id
  | .guard cond => .expr cond

def SwitchArm.parts (arm : SwitchArm) : List Node :=
  arm.labels.map SwitchLabel.node ++ arm.body.map .stmt

def LambdaBody.node : LambdaBody → Node
  | .expr id => .expr id
  | .block id => .stmt id

def ExprData.parts : ExprData → List Node
  | .literal _ | .null | .this _ | .super _ | .classLit _ | .var _ | .namePath _ | .missing => []
  | .template args | .ctorCall args | .arrayInit args => args.map .expr
  | .fieldAccess target _ => target.toList.map .expr
  | .arrayAccess array index => [.expr array, .expr index]
  | .methodCall receiver _ _ args => receiver.toList.map .expr ++ args.map .expr
  | .new _ args receiver => args.map .expr ++ receiver.toList.map .expr
  | .newArray _ dims initializer => dims.map .expr ++ (initializer.getD []).map .expr
  | .unary _ expr | ExprData.postfix_ _ expr | .cast _ expr | .paren expr => [.expr expr]
  | .binary _ lhs rhs | .assign _ lhs rhs => [.expr lhs, .expr rhs]
  | .instanceOf expr _ pattern => .expr expr :: pattern.toList.map .pattern
  | .conditional cond then_ els => [.expr cond, .expr then_, .expr els]
  | .lambda _ body => [body.node]
  | .methodRef qualifier _ _ => qualifier.toList.map .expr
  | .switch scrutinee arms => .expr scrutinee :: arms.flatMap SwitchArm.parts

def StmtData.parts : StmtData → List Node
  | .empty | .return_ none | .break_ _ | .continue_ _ | .localClass _ | .missing => []
  | .block stmts | .declGroup stmts => stmts.map .stmt
  | .decl _ initializer => initializer.toList.map .expr
  | .expr id | .return_ (some id) | .throw_ id | .yield_ id => [.expr id]
  | .labeled _ stmt => [.stmt stmt]
  | .ifElse cond then_ els => .expr cond :: .stmt then_ :: els.toList.map .stmt
  | .whileLoop cond body => [.expr cond, .stmt body]
  | .doWhile body cond => [.stmt body, .expr cond]
  | .forLoop init cond step body =>
      init.map .stmt ++ cond.toList.map .expr ++ step.map .expr ++ [.stmt body]
  | .forEach _ iterable body => [.expr iterable, .stmt body]
  | .switch scrutinee arms => .expr scrutinee :: arms.flatMap SwitchArm.parts
  | .synchronized monitor body => [.expr monitor, .stmt body]
  | .try_ resources body catches finally_ =>
      resources.flatMap (fun resource => resource.initializer.toList.map .expr) ++ [.stmt body] ++
        catches.map (fun clause => .stmt clause.body) ++ finally_.toList.map .stmt
  | .assert cond msg => .expr cond :: msg.toList.map .expr

def PatternData.parts : PatternData → List Node
  | .record _ components => components.map .pattern
  | .type _ _ | .matchAll => []

/-- The lowered bodies of one file. A node is lowered from a syntax node, so what stands inside it
is `deeper`: nothing stands inside itself. -/
structure BodyTree where
  exprs : List ExprData
  stmts : List StmtData
  patterns : List PatternData
  locals : List Local
  bodies : List (List StmtId)
  height : Node → Nat
  exprsDeeper : ∀ i, ∀ data ∈ exprs[i]?, ∀ part ∈ data.parts, height part < height (.expr ⟨i⟩)
  stmtsDeeper : ∀ i, ∀ data ∈ stmts[i]?, ∀ part ∈ data.parts, height part < height (.stmt ⟨i⟩)
  patternsDeeper : ∀ i, ∀ data ∈ patterns[i]?, ∀ part ∈ data.parts,
    height part < height (.pattern ⟨i⟩)

namespace BodyTree

variable (bodies : BodyTree)

def expr (id : ExprId) : ExprData := bodies.exprs[id.raw]?.getD .missing

def stmt (id : StmtId) : StmtData := bodies.stmts[id.raw]?.getD .missing

def pattern (id : PatternId) : PatternData := bodies.patterns[id.raw]?.getD .matchAll

def binding (id : LocalId) : Local :=
  bodies.locals[id.raw]?.getD { name := ⟨[]⟩, ty := none, annotations := [], isFinal := false }

/-- The statements of a body. -/
def body (id : BodyId) : List StmtId := bodies.bodies[id.raw]?.getD []

/-- What stands directly inside a node. -/
def parts : Node → List Node
  | .expr id => (bodies.expr id).parts
  | .stmt id => (bodies.stmt id).parts
  | .pattern id => (bodies.pattern id).parts

theorem height_lt_of_mem_parts {node part : Node} (inside : part ∈ bodies.parts node) :
    bodies.height part < bodies.height node := by
  cases node with
  | expr id =>
      cases stored : bodies.exprs[id.raw]? with
      | none => simp [parts, expr, stored, ExprData.parts] at inside
      | some data =>
          have here : part ∈ data.parts := by simpa [parts, expr, stored] using inside
          exact bodies.exprsDeeper id.raw data (by simp [stored]) part here
  | stmt id =>
      cases stored : bodies.stmts[id.raw]? with
      | none => simp [parts, stmt, stored, StmtData.parts] at inside
      | some data =>
          have here : part ∈ data.parts := by simpa [parts, stmt, stored] using inside
          exact bodies.stmtsDeeper id.raw data (by simp [stored]) part here
  | pattern id =>
      cases stored : bodies.patterns[id.raw]? with
      | none => simp [parts, pattern, stored, PatternData.parts] at inside
      | some data =>
          have here : part ∈ data.parts := by simpa [parts, pattern, stored] using inside
          exact bodies.patternsDeeper id.raw data (by simp [stored]) part here

/-- A part of the expression at a position comes before it. -/
def precedes (position : Nat) : Node → Bool
  | .expr id => id.raw < position
  | .pattern _ => true
  | .stmt _ => false

theorem simple_nil : ([] : List PatternData).all (fun data => data.parts.isEmpty) = true := rfl

/-- A file of expressions, each of them over earlier ones and over patterns without components. -/
def ofExprs (exprs : List ExprData) (patterns : List PatternData) (locals : List Local)
    (inOrder : exprs.zipIdx.all fun (data, position) => data.parts.all (precedes position))
    (simple : patterns.all fun data => data.parts.isEmpty) : BodyTree where
  exprs := exprs
  stmts := []
  patterns := patterns
  locals := locals
  bodies := []
  height
    | .expr id => id.raw + 1
    | _ => 0
  exprsDeeper := by
    intro i data known part inside
    have there : (data, i) ∈ exprs.zipIdx := List.mk_mem_zipIdx_iff_getElem?.mpr known
    have earlier := List.all_eq_true.mp (List.all_eq_true.mp inOrder _ there) part inside
    cases part with
    | expr id => simpa [precedes] using earlier
    | pattern id => simp
    | stmt id => simp [precedes] at earlier
  stmtsDeeper := by
    intro i data known
    cases known
  patternsDeeper := by
    intro i data known part inside
    have empty := List.all_eq_true.mp simple data (List.mem_of_getElem? known)
    rw [List.isEmpty_iff.mp empty] at inside
    cases inside

end BodyTree

end CaffeineLs.HirExpand
