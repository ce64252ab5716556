/-
Module: CaffeineLs.Proofs.DependencyRefs
Purpose: Which names the name dependencies of a Java file contain, and when they are all the names
  the file writes.
Trusted boundary: none
Main exports: mem_fileDependencyRefs_iff, dependency_refs_complete_iff
-/
import CaffeineLs.HirTy.DependencyRefs
import CaffeineLs.HirTy.WrittenNames
import CaffeineLs.Proofs.DepIndex

namespace CaffeineLs.HirTy

open HirExpand HirDef Collect

/-! ### Visits -/

section Visits

variable {σ : Type} {β : Type} {seen : σ → Set β} {visit : Visits σ} {P : Node → Set β}

theorem collects_exprs (each : ∀ node, Collects seen (visit.node node) (P node))
    (ids : List ExprId) : Collects seen (visit.exprs ids) (⋃ id ∈ ids, P (.expr id)) :=
  Collects.foldl ids fun id _ => each (.expr id)

theorem collects_stmts (each : ∀ node, Collects seen (visit.node node) (P node))
    (ids : List StmtId) : Collects seen (visit.stmts ids) (⋃ id ∈ ids, P (.stmt id)) :=
  Collects.foldl ids fun id _ => each (.stmt id)

theorem collects_optExpr (each : ∀ node, Collects seen (visit.node node) (P node))
    (id : Option ExprId) : Collects seen (visit.optExpr id) (⋃ part ∈ id, P (.expr part)) := by
  cases id with
  | none => exact Collects.id.congr (by simp)
  | some id => exact (each (.expr id)).congr (by simp)

theorem collects_optStmt (each : ∀ node, Collects seen (visit.node node) (P node))
    (id : Option StmtId) : Collects seen (visit.optStmt id) (⋃ part ∈ id, P (.stmt part)) := by
  cases id with
  | none => exact Collects.id.congr (by simp)
  | some id => exact (each (.stmt id)).congr (by simp)

theorem collects_lambdaBody (each : ∀ node, Collects seen (visit.node node) (P node))
    (body : LambdaBody) : Collects seen (visit.lambdaBody body) (P body.node) := by
  cases body with
  | expr id => exact each (.expr id)
  | block id => exact each (.stmt id)

end Visits

/-! ### The type walk -/

/-- The names of the type references collected so far. -/
def TypeWalk.names (w : TypeWalk (List (DiagLocation × SpannedTypeRef))) : Set Name :=
  {name | ∃ entry ∈ w.out, name ∈ entry.2.refs}

/-- The names of some type references. -/
def refNames (all : List SpannedTypeRef) : Set Name := {name | ∃ spanned ∈ all, name ∈ spanned.refs}

theorem refNames_append (xs ys : List SpannedTypeRef) :
    refNames (xs ++ ys) = refNames xs ∪ refNames ys := by
  ext name
  simp [refNames, or_and_right, exists_or]

theorem refNames_flatMap {α : Type} (xs : List α) (g : α → List SpannedTypeRef) :
    refNames (xs.flatMap g) = ⋃ x ∈ xs, refNames (g x) := by
  ext name
  simp only [refNames, List.mem_flatMap, Set.mem_ofPred_eq, Set.mem_iUnion, exists_prop]
  constructor
  · rintro ⟨spanned, ⟨x, known, there⟩, named⟩
    exact ⟨x, known, spanned, there, named⟩
  · rintro ⟨x, known, spanned, there, named⟩
    exact ⟨spanned, ⟨x, known, there⟩, named⟩

theorem collects_emit (place : DiagLocation) (spanned : SpannedTypeRef) :
    Collects TypeWalk.names (fun w => w.emit pushReference place spanned) (refNames [spanned]) := by
  intro w
  ext name
  simp [TypeWalk.names, TypeWalk.emit, pushReference, refNames, or_and_right, exists_or]

theorem collects_emitAll (place : DiagLocation) (all : List SpannedTypeRef) :
    Collects TypeWalk.names (fun w => w.emitAll pushReference place all) (refNames all) :=
  (Collects.foldl all fun spanned _ => collects_emit place spanned).congr
    (by ext name; simp [refNames])

section TypeWalk

variable (bodies : BodyTree)

/-- The type references recorded for a local: its type and its annotations. -/
def localReferences (id : LocalId) : List SpannedTypeRef :=
  (bodies.binding id).ty.toList ++ (bodies.binding id).annotations.map annotationReference

/-- The type references the walk finds in a node itself. -/
def walkedTypeRefs : Node → List SpannedTypeRef
  | .expr id =>
      match bodies.expr id with
      | .new ty _ none => [ty]
      | .new _ _ (some _) => []
      | .lambda params _ =>
          params.flatMap fun param => param.ty.toList ++ param.annotations.map annotationReference
      | data => exprTypeRefs data
  | .stmt id => (stmtLocals (bodies.stmt id)).flatMap (localReferences bodies)
  | .pattern id =>
      typeRefsOf bodies (.pattern id) ++
        (annotationsOf bodies (.pattern id)).map annotationReference

theorem collects_recordLocal (id : LocalId) :
    Collects TypeWalk.names (recordLocal bodies pushReference id)
      (refNames (localReferences bodies id)) :=
  ((collects_emitAll (.loc id) _).comp (collects_emitAll (.loc id) _)).congr
    (refNames_append _ _).symm

variable {bodies}
variable {visit : Visits (TypeWalk (List (DiagLocation × SpannedTypeRef)))} {P : Node → Set Name}

theorem collects_label (each : ∀ node, Collects TypeWalk.names (visit.node node) (P node))
    (label : SwitchLabel) : Collects TypeWalk.names (visit.label label) (P label.node) := by
  cases label with
  | expr id => exact each (.expr id)
  | pattern id => exact each (.pattern id)
  | guard cond => exact each (.expr cond)

theorem collects_walkSwitch (each : ∀ node, Collects TypeWalk.names (visit.node node) (P node))
    (scrutinee : ExprId) (arms : List SwitchArm) :
    Collects TypeWalk.names (walkSwitch visit scrutinee arms)
      (P (.expr scrutinee) ∪ ⋃ part ∈ arms.flatMap SwitchArm.parts, P part) := by
  have arm (a : SwitchArm) :=
    (Collects.foldl a.labels fun label _ => collects_label each label).comp
      (collects_stmts each a.body)
  refine ((each (.expr scrutinee)).comp (Collects.foldl arms fun a _ => arm a)).congr ?_
  congr 1
  ext name
  simp only [SwitchArm.parts, Set.mem_iUnion, Set.mem_union, List.mem_flatMap, List.mem_append,
    List.mem_map, exists_prop]
  grind

theorem collects_walkExprData (each : ∀ node, Collects TypeWalk.names (visit.node node) (P node))
    (id : ExprId) :
    Collects TypeWalk.names (walkExprData pushReference visit id (bodies.expr id))
      (refNames (walkedTypeRefs bodies (.expr id)) ∪ ⋃ part ∈ (bodies.expr id).parts, P part) := by
  simp only [walkedTypeRefs]
  have emit (ty : SpannedTypeRef) := collects_emit (.expr id) ty
  have emitAll (all : List SpannedTypeRef) := collects_emitAll (.expr id) all
  have expr (part : ExprId) := each (.expr part)
  have quiet : Collects TypeWalk.names (fun w => w)
      (refNames [] ∪ ⋃ part ∈ ([] : List Node), P part) :=
    Collects.id.congr (by simp [refNames])
  cases bodies.expr id with
  | literal _ | null | var _ | namePath _ | missing => exact quiet
  | template args | ctorCall args | arrayInit args =>
      exact (collects_exprs each args).congr
        (by ext n; simp [ExprData.parts, exprTypeRefs, refNames])
  | this qualifier | super qualifier =>
      exact (emitAll qualifier.toList).congr (by ext n; simp [ExprData.parts, exprTypeRefs])
  | classLit ty => exact (emit ty).congr (by ext n; simp [ExprData.parts, exprTypeRefs])
  | fieldAccess target name =>
      exact (collects_optExpr each target).congr
        (by ext n; simp [ExprData.parts, exprTypeRefs, refNames])
  | arrayAccess lhs rhs | binary _ lhs rhs | assign _ lhs rhs =>
      exact ((expr lhs).comp (expr rhs)).congr
        (by ext n; simp [ExprData.parts, exprTypeRefs, refNames])
  | methodCall receiver name typeArgs args =>
      exact (((emitAll typeArgs).comp (collects_optExpr each receiver)).comp
        (collects_exprs each args)).congr
        (by ext n; simp [ExprData.parts, exprTypeRefs]; grind)
  | new ty args receiver =>
      cases receiver with
      | none =>
          exact ((emit ty).comp (collects_exprs each args)).congr
            (by ext n; simp [ExprData.parts])
      | some receiver =>
          exact ((collects_exprs each args).comp (expr receiver)).congr
            (by ext n; simp [ExprData.parts, refNames])
  | newArray ty dims initializer =>
      cases initializer with
      | none =>
          exact ((emit ty).comp (collects_exprs each dims)).congr
            (by ext n; simp [ExprData.parts, exprTypeRefs])
      | some elems =>
          exact (((emit ty).comp (collects_exprs each dims)).comp
            (collects_exprs each elems)).congr
            (by ext n; simp [ExprData.parts, exprTypeRefs]; grind)
  | unary _ inner | postfix_ _ inner | paren inner =>
      exact (expr inner).congr (by ext n; simp [ExprData.parts, exprTypeRefs, refNames])
  | cast ty inner =>
      exact ((emit ty).comp (expr inner)).congr (by ext n; simp [ExprData.parts, exprTypeRefs])
  | conditional cond then_ els =>
      exact (((expr cond).comp (expr then_)).comp (expr els)).congr
        (by ext n; simp [ExprData.parts, exprTypeRefs, refNames, or_assoc])
  | instanceOf inner ty pattern =>
      cases pattern with
      | none =>
          exact ((emitAll _).comp (expr inner)).congr
            (by ext n; simp [ExprData.parts, exprTypeRefs])
      | some pattern =>
          exact (((emitAll _).comp (expr inner)).comp (each (.pattern pattern))).congr
            (by ext n; simp [ExprData.parts, exprTypeRefs, or_assoc])
  | lambda params body =>
      have param (p : LambdaParam) :=
        (emitAll p.ty.toList).comp (emitAll (p.annotations.map annotationReference))
      exact ((Collects.foldl params fun p _ => param p).comp (collects_lambdaBody each body)).congr
        (by simp [ExprData.parts, refNames_flatMap, refNames_append])
  | methodRef qualifier typeName name =>
      exact ((emitAll _).comp (collects_optExpr each qualifier)).congr
        (by ext n; simp [ExprData.parts, exprTypeRefs])
  | switch scrutinee arms =>
      exact (collects_walkSwitch each scrutinee arms).congr
        (by ext n; simp [ExprData.parts, exprTypeRefs, refNames])

theorem collects_walkStmtData (each : ∀ node, Collects TypeWalk.names (visit.node node) (P node))
    (data : StmtData) :
    Collects TypeWalk.names (walkStmtData bodies pushReference visit data)
      (refNames ((stmtLocals data).flatMap (localReferences bodies)) ∪
        ⋃ part ∈ data.parts, P part) := by
  have expr (part : ExprId) := each (.expr part)
  have stmt (part : StmtId) := each (.stmt part)
  have quiet : Collects TypeWalk.names (fun w => w)
      (refNames [] ∪ ⋃ part ∈ ([] : List Node), P part) :=
    Collects.id.congr (by simp [refNames])
  cases data with
  | empty | missing | break_ _ | continue_ _ => exact quiet
  | localClass item => exact fun w => quiet w
  | block stmts =>
      have inside := (collects_stmts each stmts).congr
        (by ext n; simp [StmtData.parts, stmtLocals, refNames] :
          _ = refNames ((stmtLocals (.block stmts)).flatMap (localReferences bodies)) ∪
            ⋃ part ∈ (StmtData.block stmts).parts, P part)
      exact fun w => inside w
  | decl binding initializer =>
      exact ((collects_recordLocal bodies binding).comp (collects_optExpr each initializer)).congr
        (by ext n; simp [StmtData.parts, stmtLocals])
  | declGroup stmts =>
      exact (collects_stmts each stmts).congr
        (by ext n; simp [StmtData.parts, stmtLocals, refNames])
  | expr part | throw_ part | yield_ part =>
      exact (expr part).congr (by ext n; simp [StmtData.parts, stmtLocals, refNames])
  | labeled _ part =>
      exact (stmt part).congr (by ext n; simp [StmtData.parts, stmtLocals, refNames])
  | return_ value =>
      cases value with
      | none => exact quiet
      | some part =>
          exact (expr part).congr (by ext n; simp [StmtData.parts, stmtLocals, refNames])
  | ifElse cond then_ els =>
      exact (((expr cond).comp (stmt then_)).comp (collects_optStmt each els)).congr
        (by ext n; simp [StmtData.parts, stmtLocals, refNames, or_assoc])
  | whileLoop cond body | synchronized cond body =>
      exact ((expr cond).comp (stmt body)).congr
        (by ext n; simp [StmtData.parts, stmtLocals, refNames])
  | doWhile body cond =>
      exact ((stmt body).comp (expr cond)).congr
        (by ext n; simp [StmtData.parts, stmtLocals, refNames])
  | forLoop init cond step body =>
      exact ((((collects_stmts each init).comp (collects_optExpr each cond)).comp
        (collects_exprs each step)).comp (stmt body)).congr
        (by ext n; simp [StmtData.parts, stmtLocals, refNames]; grind)
  | forEach binding iterable body =>
      exact (((collects_recordLocal bodies binding).comp (expr iterable)).comp (stmt body)).congr
        (by ext n; simp [StmtData.parts, stmtLocals, or_assoc])
  | switch scrutinee arms =>
      exact (collects_walkSwitch each scrutinee arms).congr
        (by ext n; simp [StmtData.parts, stmtLocals, refNames])
  | try_ resources body catches finally_ =>
      have resource (r : Resource) :=
        (collects_recordLocal bodies r.binding).comp (collects_optExpr each r.initializer)
      have clause (c : CatchClause) :=
        (collects_recordLocal bodies c.param).comp (stmt c.body)
      exact ((((Collects.foldl resources fun r _ => resource r).comp (stmt body)).comp
        (Collects.foldl catches fun c _ => clause c)).comp (collects_optStmt each finally_)).congr
        (by ext n; simp [StmtData.parts, stmtLocals, refNames_append, refNames_flatMap]; grind)
  | assert cond msg =>
      exact ((expr cond).comp (collects_optExpr each msg)).congr
        (by ext n; simp [StmtData.parts, stmtLocals, refNames])

theorem collects_recordPatternData
    (each : ∀ node, Collects TypeWalk.names (visit.node node) (P node)) (id : PatternId) :
    Collects TypeWalk.names (recordPatternData bodies pushReference visit id (bodies.pattern id))
      (refNames (walkedTypeRefs bodies (.pattern id)) ∪
        ⋃ part ∈ (bodies.pattern id).parts, P part) := by
  simp only [walkedTypeRefs, typeRefsOf, annotationsOf]
  cases bodies.pattern id with
  | type ty binding =>
      cases binding with
      | none =>
          exact (collects_emit (.pattern id) ty).congr (by ext n; simp [PatternData.parts])
      | some binding =>
          exact ((collects_emit (.pattern id) ty).comp (collects_emitAll (.pattern id) _)).congr
            (by ext n; simp [PatternData.parts, refNames, or_and_right, exists_or])
  | record ty components =>
      exact ((collects_emit (.pattern id) ty).comp
        (Collects.foldl components fun c _ => each (.pattern c))).congr
        (by ext n; simp [PatternData.parts])
  | matchAll => exact Collects.id.congr (by simp [PatternData.parts, refNames])

variable (bodies)

/-- A walk of some depth finds the names the nodes inside write. -/
theorem collects_typeWalk (fuel : Nat) (node : Node) :
    Collects TypeWalk.names ((typeWalk bodies pushReference fuel).node node)
      (gathered bodies.parts (fun part => refNames (walkedTypeRefs bodies part)) fuel node) := by
  induction fuel generalizing node with
  | zero => cases node <;> exact Collects.id
  | succ fuel ih =>
      cases node with
      | expr id => exact collects_walkExprData ih id
      | stmt id => exact collects_walkStmtData ih (bodies.stmt id)
      | pattern id => exact collects_recordPatternData ih id

/-- The walk of a whole node finds the names every node inside it writes. -/
theorem collects_typeWalkFrom (node : Node) :
    Collects TypeWalk.names (typeWalkFrom bodies pushReference node)
      {name | ∃ part, Inside bodies.parts node part ∧ name ∈ refNames (walkedTypeRefs bodies part)} :=
  (collects_typeWalk bodies (bodies.height node + 1) node).congr
    (Set.ext fun _ => mem_gathered_iff bodies.height (fun _ _ => bodies.height_lt_of_mem_parts)
      (Nat.lt_succ_self _))

end TypeWalk

/-! ### The member walk -/

section MemberWalk

variable (bodies : BodyTree)

/-- What the member walk descends into: not the elements of a braced array initializer. -/
def memberParts : Node → List Node
  | .expr id =>
      match bodies.expr id with
      | .arrayInit _ => []
      | data => data.parts
  | .stmt id => (bodies.stmt id).parts
  | .pattern id => (bodies.pattern id).parts

/-- The names the member walk records at a node itself. -/
def walkedMembers : Node → Set Name
  | .expr id =>
      match bodies.expr id with
      | .methodCall _ name _ _ | .fieldAccess _ name => {name}
      | .namePath name => {name, name.simpleName}
      | _ => ∅
  | _ => ∅

theorem mem_parts_of_mem_memberParts {node part : Node} (inside : part ∈ memberParts bodies node) :
    part ∈ bodies.parts node := by
  cases node with
  | expr id =>
      simp only [memberParts] at inside
      split at inside
      · cases inside
      · exact inside
  | stmt id => exact inside
  | pattern id => exact inside

/-- The names recorded so far. -/
def recordedNames (out : Finset Name) : Set Name := ↑out

theorem collects_insert (name : Name) :
    Collects recordedNames (fun out => insert name out) {name} := by
  intro out
  ext other
  simp [recordedNames]

variable {bodies}
variable {visit : Visits (Finset Name)} {P : Node → Set Name}

theorem collects_labelMembers (each : ∀ node, Collects recordedNames (visit.node node) (P node))
    (quiet : ∀ id, P (.pattern id) = ∅) (label : SwitchLabel) :
    Collects recordedNames
      (fun out => match label with
        | .expr id | .guard id => visit.expr id out
        | .pattern _ => out) (P label.node) := by
  cases label with
  | expr id | guard id => exact each (.expr id)
  | pattern id => exact Collects.id.congr (quiet id).symm

theorem collects_walkArmsMembers
    (each : ∀ node, Collects recordedNames (visit.node node) (P node))
    (quiet : ∀ id, P (.pattern id) = ∅) (arms : List SwitchArm) :
    Collects recordedNames (walkArmsMembers visit arms)
      (⋃ part ∈ arms.flatMap SwitchArm.parts, P part) := by
  have arm (a : SwitchArm) :=
    (Collects.foldl a.labels fun l _ => collects_labelMembers each quiet l).comp
      (collects_stmts each a.body)
  refine (Collects.foldl arms fun a _ => arm a).congr ?_
  ext name
  simp only [SwitchArm.parts, Set.mem_iUnion, Set.mem_union, List.mem_flatMap, List.mem_append,
    List.mem_map, exists_prop]
  grind

theorem collects_walkExprMembers
    (each : ∀ node, Collects recordedNames (visit.node node) (P node))
    (quiet : ∀ id, P (.pattern id) = ∅) (id : ExprId) :
    Collects recordedNames (walkExprMembers visit insert (bodies.expr id))
      (walkedMembers bodies (.expr id) ∪ ⋃ part ∈ memberParts bodies (.expr id), P part) := by
  simp only [walkedMembers, memberParts]
  have expr (part : ExprId) := each (.expr part)
  have silent : Collects recordedNames (fun out => out) (∅ ∪ ⋃ part ∈ ([] : List Node), P part) :=
    Collects.id.congr (by simp)
  cases bodies.expr id with
  | literal _ | null | this _ | super _ | classLit _ | arrayInit _ | var _ | missing =>
      exact silent
  | namePath name =>
      exact ((collects_insert name).comp (collects_insert name.simpleName)).congr
        (by ext n; simp [ExprData.parts, or_comm])
  | fieldAccess target name =>
      exact ((collects_insert name).comp (collects_optExpr each target)).congr
        (by ext n; simp [ExprData.parts])
  | methodCall receiver name typeArgs args =>
      exact (((collects_insert name).comp (collects_optExpr each receiver)).comp
        (collects_exprs each args)).congr (by ext n; simp [ExprData.parts]; grind)
  | new ty args receiver =>
      exact ((collects_exprs each args).comp (collects_optExpr each receiver)).congr
        (by ext n; simp [ExprData.parts]; grind)
  | ctorCall args | template args =>
      exact (collects_exprs each args).congr (by ext n; simp [ExprData.parts])
  | newArray ty dims initializer =>
      cases initializer with
      | none => exact (collects_exprs each dims).congr (by ext n; simp [ExprData.parts])
      | some elems =>
          exact ((collects_exprs each dims).comp (collects_exprs each elems)).congr
            (by ext n; simp [ExprData.parts]; grind)
  | unary _ inner | postfix_ _ inner | paren inner | cast _ inner =>
      exact (expr inner).congr (by ext n; simp [ExprData.parts])
  | instanceOf inner ty pattern =>
      cases pattern with
      | none => exact (expr inner).congr (by ext n; simp [ExprData.parts])
      | some pattern => exact (expr inner).congr (by ext n; simp [ExprData.parts, quiet])
  | arrayAccess lhs rhs | binary _ lhs rhs | assign _ lhs rhs =>
      exact ((expr lhs).comp (expr rhs)).congr (by ext n; simp [ExprData.parts])
  | conditional cond then_ els =>
      exact (((expr cond).comp (expr then_)).comp (expr els)).congr
        (by ext n; simp [ExprData.parts, or_assoc])
  | lambda params body =>
      exact (collects_lambdaBody each body).congr (by ext n; simp [ExprData.parts])
  | methodRef qualifier typeName name =>
      exact (collects_optExpr each qualifier).congr (by ext n; simp [ExprData.parts])
  | switch scrutinee arms =>
      exact ((expr scrutinee).comp (collects_walkArmsMembers each quiet arms)).congr
        (by ext n; simp [ExprData.parts])

theorem collects_walkStmtMembers
    (each : ∀ node, Collects recordedNames (visit.node node) (P node))
    (quiet : ∀ id, P (.pattern id) = ∅) (data : StmtData) :
    Collects recordedNames (walkStmtMembers visit data) (⋃ part ∈ data.parts, P part) := by
  have expr (part : ExprId) := each (.expr part)
  have stmt (part : StmtId) := each (.stmt part)
  have silent : Collects recordedNames (fun out => out) (⋃ part ∈ ([] : List Node), P part) :=
    Collects.id.congr (by simp)
  cases data with
  | empty | missing | localClass _ | break_ _ | continue_ _ => exact silent
  | block stmts | declGroup stmts =>
      exact (collects_stmts each stmts).congr (by ext n; simp [StmtData.parts])
  | decl binding initializer =>
      exact (collects_optExpr each initializer).congr (by ext n; simp [StmtData.parts])
  | expr part | throw_ part | yield_ part =>
      exact (expr part).congr (by ext n; simp [StmtData.parts])
  | labeled _ part => exact (stmt part).congr (by ext n; simp [StmtData.parts])
  | return_ value =>
      cases value with
      | none => exact silent
      | some part => exact (expr part).congr (by ext n; simp [StmtData.parts])
  | ifElse cond then_ els =>
      exact (((expr cond).comp (stmt then_)).comp (collects_optStmt each els)).congr
        (by ext n; simp [StmtData.parts, or_assoc])
  | whileLoop cond body | synchronized cond body | forEach _ cond body =>
      exact ((expr cond).comp (stmt body)).congr (by ext n; simp [StmtData.parts])
  | doWhile body cond =>
      exact ((stmt body).comp (expr cond)).congr (by ext n; simp [StmtData.parts])
  | forLoop init cond step body =>
      exact ((((collects_stmts each init).comp (collects_optExpr each cond)).comp
        (collects_exprs each step)).comp (stmt body)).congr
        (by ext n; simp [StmtData.parts]; grind)
  | switch scrutinee arms =>
      exact ((expr scrutinee).comp (collects_walkArmsMembers each quiet arms)).congr
        (by ext n; simp [StmtData.parts])
  | try_ resources body catches finally_ =>
      have resource (r : Resource) := collects_optExpr each r.initializer
      have clause (c : CatchClause) := stmt c.body
      exact ((((Collects.foldl resources fun r _ => resource r).comp (stmt body)).comp
        (Collects.foldl catches fun c _ => clause c)).comp (collects_optStmt each finally_)).congr
        (by ext n; simp [StmtData.parts]; grind)
  | assert cond msg =>
      exact ((expr cond).comp (collects_optExpr each msg)).congr
        (by ext n; simp [StmtData.parts])

variable (bodies)

/-- A pattern holds patterns only, and a pattern accesses no member. -/
theorem gathered_pattern (fuel : Nat) (id : PatternId) :
    gathered (memberParts bodies) (walkedMembers bodies) fuel (.pattern id) = ∅ := by
  induction fuel generalizing id with
  | zero => rfl
  | succ fuel ih =>
      simp only [gathered, walkedMembers, memberParts]
      cases bodies.pattern id with
      | type ty binding => simp [PatternData.parts]
      | record ty components => simp [PatternData.parts, ih]
      | matchAll => simp [PatternData.parts]

theorem collects_memberWalk (fuel : Nat) (node : Node) :
    Collects recordedNames ((memberWalk bodies fuel).node node)
      (gathered (memberParts bodies) (walkedMembers bodies) fuel node) := by
  induction fuel generalizing node with
  | zero => cases node <;> exact Collects.id
  | succ fuel ih =>
      have quiet := gathered_pattern bodies fuel
      cases node with
      | expr id => exact collects_walkExprMembers ih quiet id
      | stmt id =>
          exact (collects_walkStmtMembers ih quiet (bodies.stmt id)).congr
            (Set.empty_union _).symm
      | pattern id => exact Collects.id.congr (gathered_pattern bodies (fuel + 1) id).symm

/-- The member walk of a whole node records what every node it descends into names. -/
theorem collects_memberWalkFrom (node : Node) :
    Collects recordedNames (memberWalkFrom bodies node)
      {name | ∃ part, Inside (memberParts bodies) node part ∧ name ∈ walkedMembers bodies part} :=
  (collects_memberWalk bodies (bodies.height node + 1) node).congr
    (Set.ext fun _ => mem_gathered_iff bodies.height
      (fun _ _ inside => bodies.height_lt_of_mem_parts (mem_parts_of_mem_memberParts bodies inside))
      (Nat.lt_succ_self _))

end MemberWalk

/-! ### The names of a file -/

section Names

variable (bodies : BodyTree)

/-- The names found by the two walks from some nodes. -/
def rootNames (roots : List Node) : Set Name :=
  {name | ∃ root ∈ roots,
    (∃ part, Inside bodies.parts root part ∧ name ∈ refNames (walkedTypeRefs bodies part)) ∨
      ∃ part, Inside (memberParts bodies) root part ∧ name ∈ walkedMembers bodies part}

theorem rootNames_append (xs ys : List Node) :
    rootNames bodies (xs ++ ys) = rootNames bodies xs ∪ rootNames bodies ys := by
  ext name
  simp [rootNames, or_and_right, exists_or]

theorem collects_typeRefNames (refs : List Name) :
    Collects recordedNames (fun out => refs.foldl (fun out name => insert name out) out)
      {name | name ∈ refs} :=
  (Collects.foldl refs fun name _ => collects_insert name).congr (by ext name; simp)

/-- What the two walks of the statements of a body, or of the expressions of a forest, record. -/
theorem collects_rootNames {α : Type} (roots : List α) (node : α → Node)
    (entries : List (DiagLocation × SpannedTypeRef))
    (walked : entries = (roots.foldl (fun w root => typeWalkFrom bodies pushReference (node root) w)
      { scope := [], out := [] }).out) :
    Collects recordedNames
      (fun out => roots.foldl (fun out root => memberWalkFrom bodies (node root) out)
        (entries.foldl (fun out entry => collectTypeRefNames entry.2 out) out))
      (rootNames bodies (roots.map node)) := by
  have types := Collects.foldl entries fun entry _ => collects_typeRefNames entry.2.refs
  have members := Collects.foldl roots fun root _ => collects_memberWalkFrom bodies (node root)
  have found := Collects.foldl roots (fun root _ => collects_typeWalkFrom bodies (node root))
    { scope := [], out := [] }
  refine (types.comp members).congr ?_
  have names : (⋃ entry ∈ entries, {name | name ∈ entry.2.refs}) =
      ⋃ root ∈ roots, {name | ∃ part, Inside bodies.parts (node root) part ∧
        name ∈ refNames (walkedTypeRefs bodies part)} := by
    have start : TypeWalk.names { scope := [], out := [] } = ∅ := by simp [TypeWalk.names]
    rw [start, Set.empty_union] at found
    rw [← found, walked]
    ext name
    simp [TypeWalk.names]
  rw [names]
  ext name
  simp only [rootNames, Set.mem_union, Set.mem_iUnion, Set.mem_ofPred_eq, List.mem_map,
    exists_prop]
  grind

theorem collects_bodyNames (body : BodyId) :
    Collects recordedNames (collectBodyNames bodies body)
      (rootNames bodies ((bodies.body body).map Node.stmt)) :=
  collects_rootNames bodies (bodies.body body) Node.stmt (bodyTypeRefs bodies body) rfl

theorem collects_exprForestNames (exprs : List ExprId) :
    Collects recordedNames (collectExprForestNames bodies exprs)
      (rootNames bodies (exprs.map Node.expr)) :=
  collects_rootNames bodies exprs Node.expr (exprForestTypeRefs bodies exprs) rfl

theorem rootNames_nil : rootNames bodies [] = ∅ := by simp [rootNames]

theorem collects_optionalBody (body : Option BodyId) :
    Collects recordedNames
      (fun out => match body with
        | some body => collectBodyNames bodies body out
        | none => out)
      (rootNames bodies ((body.toList.flatMap bodies.body).map Node.stmt)) := by
  cases body with
  | none => exact Collects.id.congr (rootNames_nil bodies).symm
  | some body => exact (collects_bodyNames bodies body).congr (by simp)

theorem collects_optionalForest (expr : Option ExprId) :
    Collects recordedNames
      (fun out => match expr with
        | some expr => collectExprForestNames bodies [expr] out
        | none => out)
      (rootNames bodies (expr.toList.map Node.expr)) := by
  cases expr with
  | none => exact Collects.id.congr (rootNames_nil bodies).symm
  | some expr => exact (collects_exprForestNames bodies [expr]).congr (by simp)

theorem collects_itemNames (data : ItemData) :
    Collects recordedNames (collectItemNames bodies data)
      ({name | ∃ tyref ∈ itemTypeRefs data, name ∈ tyref.refs} ∪
        rootNames bodies (bodyRoots bodies data)) := by
  have types : Collects recordedNames
      (fun out => (itemTypeRefs data).foldl (fun out tyref => collectItemTypeRefNames tyref out) out)
      {name | ∃ tyref ∈ itemTypeRefs data, name ∈ tyref.refs} :=
    (Collects.foldl (itemTypeRefs data) fun tyref _ => collects_typeRefNames tyref.refs).congr
      (by ext name; simp)
  cases data with
  | method d =>
      have both := types.comp
        ((collects_optionalBody bodies d.body).comp (collects_optionalForest bodies d.defaultExpr))
      exact both.congr (by rw [bodyRoots, rootNames_append])
  | staticInit d | instanceInit d =>
      have both := types.comp (collects_optionalBody bodies d.body)
      exact both
  | field d =>
      have both := types.comp (collects_optionalForest bodies d.initializerExpr)
      exact both
  | enumConstant d =>
      have both := types.comp (collects_exprForestNames bodies d.argumentExprs)
      exact both
  | «class» _ | interface _ | enum _ | record _ | annotation _ | module _ =>
      have both := types.comp Collects.id
      exact both.congr (by simp [bodyRoots, rootNames_nil])

/-- The type walk comes to a node of the file. -/
def Walked (tree : ItemTree) (node : Node) : Prop :=
  ∃ item, tree.Has item ∧ ∃ root ∈ bodyRoots bodies (tree.data item), Inside bodies.parts root node

/-- The member walk comes to a node of the file. -/
def WalkedForMembers (tree : ItemTree) (node : Node) : Prop :=
  ∃ item, tree.Has item ∧
    ∃ root ∈ bodyRoots bodies (tree.data item), Inside (memberParts bodies) root node

/-- The name stands where the walks record it. -/
inductive Recorded (tree : ItemTree) (name : Name) : Prop where
  | imported {item : ImportItem} (known : item ∈ tree.imports)
      (named : name = item.name ∨ name = item.name.simpleName)
  | declaration {item : ItemId} {tyref : ItemTypeRef} (has : tree.Has item)
      (read : tyref ∈ itemTypeRefs (tree.data item)) (named : name ∈ tyref.refs)
  | type {node : Node} (walked : Walked bodies tree node)
      (named : name ∈ refNames (walkedTypeRefs bodies node))
  | member {node : Node} (walked : WalkedForMembers bodies tree node)
      (named : name ∈ walkedMembers bodies node)

/-- The dependencies are the names that stand where the walks record them. -/
theorem mem_fileDependencyRefs_iff (tree : ItemTree) (name : Name) :
    name ∈ fileDependencyRefs bodies tree ↔ Recorded bodies tree name := by
  have import_ (item : ImportItem) :=
    (collects_insert item.name).comp (collects_insert item.name.simpleName)
  have all := ((Collects.foldl tree.imports fun item _ => import_ item).comp
    (Collects.foldl (allItemsData tree) fun entry _ => collects_itemNames bodies entry.2)) ∅
  have mem : name ∈ fileDependencyRefs bodies tree ↔
      name ∈ recordedNames (fileDependencyRefs bodies tree) := Finset.mem_coe.symm
  rw [mem, show recordedNames (fileDependencyRefs bodies tree) = _ from all]
  simp only [Set.mem_union, Set.mem_iUnion, exists_prop]
  constructor
  · rintro (absent | ⟨item, known, named⟩ | ⟨entry, listed, found⟩)
    · simp [recordedNames] at absent
    · exact .imported known named
    · obtain ⟨has, here⟩ := mem_allItemsData_iff.mp listed
      rw [here] at found
      rcases found with ⟨tyref, read, named⟩ | ⟨root, owned, walked⟩
      · exact .declaration has read named
      · rcases walked with ⟨part, inside, named⟩ | ⟨part, inside, named⟩
        · exact .type ⟨entry.1, has, root, owned, inside⟩ named
        · exact .member ⟨entry.1, has, root, owned, inside⟩ named
  · intro recorded
    cases recorded with
    | imported known named => exact .inr (.inl ⟨_, known, named⟩)
    | @declaration item tyref has read named =>
        exact .inr (.inr ⟨(item, tree.data item), mem_allItemsData_iff.mpr ⟨has, rfl⟩,
          .inl ⟨tyref, read, named⟩⟩)
    | @type node walked named =>
        obtain ⟨item, has, root, owned, inside⟩ := walked
        exact .inr (.inr ⟨(item, tree.data item), mem_allItemsData_iff.mpr ⟨has, rfl⟩,
          .inr ⟨root, owned, .inl ⟨node, inside, named⟩⟩⟩)
    | @member node walked named =>
        obtain ⟨item, has, root, owned, inside⟩ := walked
        exact .inr (.inr ⟨(item, tree.data item), mem_allItemsData_iff.mpr ⟨has, rfl⟩,
          .inr ⟨root, owned, .inr ⟨node, inside, named⟩⟩⟩)

/-! ### What the walks leave out -/

/-- The permitted subclasses a declaration writes. -/
def permitsOf : ItemData → List ItemTypeRef
  | .class d | .interface d => d.permits
  | .record d => d.permits
  | _ => []

/-- The name stands where neither walk records it. -/
inductive Omitted (tree : ItemTree) (name : Name) : Prop where
  | permitted {item : ItemId} {tyref : ItemTypeRef} (has : tree.Has item)
      (writes : tyref ∈ permitsOf (tree.data item)) (named : name ∈ tyref.refs)
  | annotated {item : ItemId} {written : AnnotationRef} (has : tree.Has item)
      (writes : written ∈ (tree.data item).annotations) (named : name ∈ written.typeNames)
  | inValue {node : Node} (stands : StandsInAnnotation bodies tree node)
      (writes : WritesType bodies node name)
  | qualifiedNew {id : ExprId} {ty : SpannedTypeRef} {args : List ExprId} {receiver : ExprId}
      (walked : Walked bodies tree (.expr id))
      (data : bodies.expr id = .new ty args (some receiver)) (named : name ∈ ty.refs)
  | alternative {id : StmtId} {ty : SpannedTypeRef} (walked : Walked bodies tree (.stmt id))
      (writes : ty ∈ catchTypes (bodies.stmt id)) (named : name ∈ ty.refs)
  | annotationValue {node : Node} {written : AnnotationRef} (walked : Walked bodies tree node)
      (writes : written ∈ annotationsOf bodies node) (named : name ∈ written.typeNames)
  | behindValue {holder node : Node} {written : AnnotationRef} {value : ExprId}
      (walked : Walked bodies tree holder) (writes : written ∈ annotationsOf bodies holder)
      (valued : value ∈ written.exprs)
      (inside : Inside (writtenParts bodies) (.expr value) node)
      (named : WritesType bodies node name ∨ name ∈ memberNamesOf bodies node)
  | unqualified {id : ExprId} (walked : WalkedForMembers bodies tree (.expr id))
      (data : bodies.expr id = .var name)
  | methodReference {id : ExprId} {qualifier : Option ExprId} {typeName : Option SpannedTypeRef}
      (walked : WalkedForMembers bodies tree (.expr id))
      (data : bodies.expr id = .methodRef qualifier typeName name)
  | behindArray {id : ExprId} {elems : List ExprId} {elem : ExprId} {node : Node}
      (walked : WalkedForMembers bodies tree (.expr id))
      (data : bodies.expr id = .arrayInit elems) (element : elem ∈ elems)
      (inside : Inside (writtenParts bodies) (.expr elem) node)
      (named : name ∈ memberNamesOf bodies node)

variable {bodies} {tree : ItemTree} {name : Name}

theorem mem_typeRefs_iff {data : ItemData} {tyref : ItemTypeRef} :
    tyref ∈ data.typeRefs ↔ tyref ∈ itemTypeRefs data ∨ tyref ∈ permitsOf data := by
  cases data <;> simp [ItemData.typeRefs, itemTypeRefs, permitsOf] <;> grind

theorem Walked.tail {node part : Node} (walked : Walked bodies tree node)
    (inside : part ∈ bodies.parts node) : Walked bodies tree part := by
  obtain ⟨item, has, root, owned, path⟩ := walked
  exact ⟨item, has, root, owned, path.tail inside⟩

theorem WalkedForMembers.tail {node part : Node} (walked : WalkedForMembers bodies tree node)
    (inside : part ∈ memberParts bodies node) : WalkedForMembers bodies tree part := by
  obtain ⟨item, has, root, owned, path⟩ := walked
  exact ⟨item, has, root, owned, path.tail inside⟩

theorem WalkedForMembers.walked {node : Node} (walked : WalkedForMembers bodies tree node) :
    Walked bodies tree node := by
  obtain ⟨item, has, root, owned, path⟩ := walked
  exact ⟨item, has, root, owned, path.mono fun _ _ => mem_parts_of_mem_memberParts bodies⟩

theorem Walked.stands {node : Node} (walked : Walked bodies tree node) :
    StandsInBody bodies tree node := by
  obtain ⟨item, has, root, owned, path⟩ := walked
  exact ⟨item, has, root, owned, path.mono fun _ _ inside => List.mem_append_left _ inside⟩

theorem StandsInBody.trans {node part : Node} (stands : StandsInBody bodies tree node)
    (inside : Inside (writtenParts bodies) node part) : StandsInBody bodies tree part := by
  obtain ⟨item, has, root, owned, path⟩ := stands
  exact ⟨item, has, root, owned, path.trans inside⟩

/-- A node stands inside the value of an annotation that a walked node writes. -/
def BehindAnnotation (bodies : BodyTree) (tree : ItemTree) (node : Node) : Prop :=
  ∃ holder written value, Walked bodies tree holder ∧ written ∈ annotationsOf bodies holder ∧
    value ∈ written.exprs ∧ Inside (writtenParts bodies) (.expr value) node

/-- A node stands inside an element of an array initializer the member walk comes to. -/
def BehindArray (bodies : BodyTree) (tree : ItemTree) (node : Node) : Prop :=
  ∃ id elems elem, WalkedForMembers bodies tree (.expr id) ∧ bodies.expr id = .arrayInit elems ∧
    elem ∈ elems ∧ Inside (writtenParts bodies) (.expr elem) node

theorem BehindAnnotation.tail {node part : Node} (behind : BehindAnnotation bodies tree node)
    (inside : part ∈ writtenParts bodies node) : BehindAnnotation bodies tree part := by
  obtain ⟨holder, written, value, walked, writes, valued, path⟩ := behind
  exact ⟨holder, written, value, walked, writes, valued, path.tail inside⟩

theorem BehindArray.tail {node part : Node} (behind : BehindArray bodies tree node)
    (inside : part ∈ writtenParts bodies node) : BehindArray bodies tree part := by
  obtain ⟨id, elems, elem, walked, data, element, path⟩ := behind
  exact ⟨id, elems, elem, walked, data, element, path.tail inside⟩

theorem Walked.annotationPart {node part : Node} (walked : Walked bodies tree node)
    (inside : part ∈ ((annotationsOf bodies node).flatMap AnnotationRef.exprs).map Node.expr) :
    BehindAnnotation bodies tree part := by
  obtain ⟨value, valued, rfl⟩ := List.mem_map.mp inside
  obtain ⟨written, writes, valued⟩ := List.mem_flatMap.mp valued
  exact ⟨node, written, value, walked, writes, valued, .refl _⟩

/-- The type walk comes to every node, or the node is behind an annotation. -/
theorem StandsInBody.walked_or {node : Node} (stands : StandsInBody bodies tree node) :
    Walked bodies tree node ∨ BehindAnnotation bodies tree node := by
  obtain ⟨item, has, root, owned, path⟩ := stands
  induction path with
  | refl => exact .inl ⟨item, has, root, owned, .refl _⟩
  | @tail node part _ inside ih =>
      rcases ih with walked | behind
      · rcases List.mem_append.mp inside with part | value
        · exact .inl (walked.tail part)
        · exact .inr (walked.annotationPart value)
      · exact .inr (behind.tail inside)

theorem WalkedForMembers.part {node part : Node} (walked : WalkedForMembers bodies tree node)
    (inside : part ∈ bodies.parts node) :
    WalkedForMembers bodies tree part ∨ BehindArray bodies tree part := by
  by_cases descends : part ∈ memberParts bodies node
  · exact .inl (walked.tail descends)
  · cases node with
    | stmt id => exact absurd inside descends
    | pattern id => exact absurd inside descends
    | expr id =>
        simp only [memberParts] at descends
        split at descends
        next elems data =>
          simp only [BodyTree.parts, data, ExprData.parts, List.mem_map] at inside
          obtain ⟨elem, element, rfl⟩ := inside
          exact .inr ⟨id, elems, elem, walked, data, element, .refl _⟩
        next => exact absurd inside descends

/-- The member walk comes to every node, or the node is behind an annotation or an array
initializer. -/
theorem StandsInBody.walkedForMembers_or {node : Node} (stands : StandsInBody bodies tree node) :
    WalkedForMembers bodies tree node ∨ BehindArray bodies tree node ∨
      BehindAnnotation bodies tree node := by
  obtain ⟨item, has, root, owned, path⟩ := stands
  induction path with
  | refl => exact .inl ⟨item, has, root, owned, .refl _⟩
  | @tail node part _ inside ih =>
      rcases ih with walked | array | behind
      · rcases List.mem_append.mp inside with part | value
        · exact (walked.part part).imp_right .inl
        · exact .inr (.inr (walked.walked.annotationPart value))
      · exact .inr (.inl (array.tail inside))
      · exact .inr (.inr (behind.tail inside))

/-- A type reference of a walked node is found, or it is one of the two kinds left out. -/
theorem Walked.typeRef {node : Node} {spanned : SpannedTypeRef}
    (walked : Walked bodies tree node) (writes : spanned ∈ typeRefsOf bodies node)
    (named : name ∈ spanned.refs) : Recorded bodies tree name ∨ Omitted bodies tree name := by
  cases node with
  | expr id =>
      simp only [typeRefsOf] at writes
      cases data : bodies.expr id with
      | new ty args receiver =>
          simp only [data, exprTypeRefs, List.mem_singleton] at writes
          subst writes
          cases receiver with
          | none =>
              refine .inl (.type walked ⟨spanned, ?_, named⟩)
              simp [walkedTypeRefs, data]
          | some receiver => exact .inr (.qualifiedNew walked data named)
      | lambda params body =>
          simp only [data, exprTypeRefs, List.mem_flatMap] at writes
          obtain ⟨param, known, written⟩ := writes
          refine .inl (.type walked ⟨spanned, ?_, named⟩)
          simp only [walkedTypeRefs, data, List.mem_flatMap, List.mem_append]
          exact ⟨param, known, .inl written⟩
      | _ =>
          refine .inl (.type walked ⟨spanned, ?_, named⟩)
          simpa only [walkedTypeRefs, data] using writes
  | stmt id =>
      rcases List.mem_append.mp writes with declared | listed
      · obtain ⟨binding, known, typed⟩ := List.mem_flatMap.mp declared
        refine .inl (.type walked ⟨spanned, ?_, named⟩)
        exact List.mem_flatMap.mpr ⟨binding, known, List.mem_append_left _ typed⟩
      · exact .inr (.alternative walked listed named)
  | pattern id =>
      refine .inl (.type walked ⟨spanned, ?_, named⟩)
      exact List.mem_append_left _ writes

theorem Walked.type {node : Node} (walked : Walked bodies tree node)
    (writes : WritesType bodies node name) :
    Recorded bodies tree name ∨ Omitted bodies tree name := by
  rcases writes with ⟨spanned, writes, named⟩ | ⟨written, writes, named⟩
  · exact walked.typeRef writes named
  · exact .inr (.annotationValue walked writes named)

theorem WalkedForMembers.member {node : Node} (walked : WalkedForMembers bodies tree node)
    (named : name ∈ memberNamesOf bodies node) :
    Recorded bodies tree name ∨ Omitted bodies tree name := by
  cases node with
  | stmt id => cases named
  | pattern id => cases named
  | expr id =>
      simp only [memberNamesOf] at named
      cases data : bodies.expr id with
      | var other =>
          simp only [data, List.mem_singleton] at named
          exact .inr (.unqualified walked (named ▸ data))
      | methodRef qualifier typeName other =>
          simp only [data, List.mem_singleton] at named
          exact .inr (.methodReference walked (named ▸ data))
      | namePath other | methodCall _ other _ _ | fieldAccess _ other =>
          simp only [data, List.mem_singleton] at named
          refine .inl (.member walked ?_)
          simp [walkedMembers, data, named]
      | _ => simp [data] at named

/-- Every name a file writes is recorded or stands where the walks leave it out. -/
theorem Written.recorded_or (written : Written bodies tree name) :
    Recorded bodies tree name ∨ Omitted bodies tree name := by
  cases written with
  | declaration has writes named =>
      rcases mem_typeRefs_iff.mp writes with read | permitted
      · exact .inl (.declaration has read named)
      · exact .inr (.permitted has permitted named)
  | annotated has writes named => exact .inr (.annotated has writes named)
  | inValue stands writes => exact .inr (.inValue stands writes)
  | type stands writes =>
      rcases stands.walked_or with walked | ⟨holder, ref, value, walked, holds, valued, path⟩
      · exact walked.type writes
      · exact .inr (.behindValue walked holds valued path (.inl writes))
  | member stands named =>
      rcases stands.walkedForMembers_or with walked |
        ⟨id, elems, elem, walked, data, element, path⟩ |
        ⟨holder, ref, value, walked, holds, valued, path⟩
      · exact walked.member named
      · exact .inr (.behindArray walked data element path named)
      · exact .inr (.behindValue walked holds valued path (.inr named))

theorem Walked.standsBehind {holder node : Node} {written : AnnotationRef} {value : ExprId}
    (walked : Walked bodies tree holder) (writes : written ∈ annotationsOf bodies holder)
    (valued : value ∈ written.exprs) (inside : Inside (writtenParts bodies) (.expr value) node) :
    StandsInBody bodies tree node := by
  refine walked.stands.trans (.head (List.mem_append_right _ ?_) inside)
  exact List.mem_map.mpr ⟨value, List.mem_flatMap.mpr ⟨written, writes, valued⟩, rfl⟩

/-- What the walks leave out is written. -/
theorem Omitted.written (omitted : Omitted bodies tree name) : Written bodies tree name := by
  cases omitted with
  | permitted has writes named =>
      exact .declaration has (mem_typeRefs_iff.mpr (.inr writes)) named
  | annotated has writes named => exact .annotated has writes named
  | inValue stands writes => exact .inValue stands writes
  | qualifiedNew walked data named =>
      exact .type walked.stands (.inl ⟨_, by simp [typeRefsOf, data, exprTypeRefs], named⟩)
  | alternative walked writes named =>
      exact .type walked.stands (.inl ⟨_, List.mem_append_right _ writes, named⟩)
  | annotationValue walked writes named =>
      exact .type walked.stands (.inr ⟨_, writes, named⟩)
  | behindValue walked writes valued inside named =>
      rcases named with typed | named
      · exact .type (walked.standsBehind writes valued inside) typed
      · exact .member (walked.standsBehind writes valued inside) named
  | unqualified walked data =>
      exact .member walked.walked.stands (by simp [memberNamesOf, data])
  | methodReference walked data =>
      exact .member walked.walked.stands (by simp [memberNamesOf, data])
  | @behindArray id elems elem node walked data element inside named =>
      have part : Node.expr elem ∈ writtenParts bodies (.expr id) := by
        simp [writtenParts, BodyTree.parts, data, ExprData.parts, element]
      exact .member (walked.walked.stands.trans (.head part inside)) named

end Names

/-! ### The two expression walks side by side -/

/-- Visits that write down the expressions and statements descended into. -/
def descents : Visits (List Node) where
  expr id out := out ++ [.expr id]
  stmt id out := out ++ [.stmt id]
  pattern _ out := out

def typeDescents : Visits (TypeWalk (List Node)) where
  expr id w := { w with out := descents.expr id w.out }
  stmt id w := { w with out := descents.stmt id w.out }
  pattern _ w := w

/-- What `walk_expr_members` descends into from an expression. -/
def memberDescent (data : ExprData) : List Node := walkExprMembers descents (fun _ out => out) data []

/-- What `walk_expr` descends into from an expression. -/
def typeDescent (id : ExprId) (data : ExprData) : List Node :=
  (walkExprData (fun _ _ _ out => out) typeDescents id data { scope := [], out := [] }).out

section Descents

variable (w : TypeWalk (List Node))

theorem typeDescents_expr (id : ExprId) :
    (typeDescents.expr id w).out = descents.expr id w.out := rfl

theorem typeDescents_pattern (id : PatternId) : typeDescents.pattern id w = w := rfl

theorem typeDescents_exprs (ids : List ExprId) :
    (typeDescents.exprs ids w).out = descents.exprs ids w.out := by
  induction ids generalizing w with
  | nil => rfl
  | cons id ids ih => exact ih { w with out := descents.expr id w.out }

theorem typeDescents_stmts (ids : List StmtId) :
    (typeDescents.stmts ids w).out = descents.stmts ids w.out := by
  induction ids generalizing w with
  | nil => rfl
  | cons id ids ih => exact ih { w with out := descents.stmt id w.out }

theorem typeDescents_optExpr (id : Option ExprId) :
    (typeDescents.optExpr id w).out = descents.optExpr id w.out := by
  cases id <;> rfl

theorem typeDescents_lambdaBody (body : LambdaBody) :
    (typeDescents.lambdaBody body w).out = descents.lambdaBody body w.out := by
  cases body <;> rfl

/-- Emitting descends into nothing. -/
theorem emitAll_out (place : DiagLocation) (all : List SpannedTypeRef) :
    (w.emitAll (fun _ _ _ out => out) place all).out = w.out := by
  induction all generalizing w with
  | nil => rfl
  | cons spanned all ih => exact ih w

theorem emitParams_out (place : DiagLocation) (params : List LambdaParam) :
    (params.foldl (fun w param =>
      (w.emitAll (fun _ _ _ out => out) place param.ty.toList).emitAll (fun _ _ _ out => out) place
        (param.annotations.map annotationReference)) w).out = w.out := by
  induction params generalizing w with
  | nil => rfl
  | cons param params ih => rw [List.foldl_cons, ih, emitAll_out, emitAll_out]

theorem typeDescents_labels (labels : List SwitchLabel) :
    (labels.foldl (fun w label => typeDescents.label label w) w).out =
      labels.foldl (fun out label => match label with
        | .expr id | .guard id => descents.expr id out
        | .pattern _ => out) w.out := by
  induction labels generalizing w with
  | nil => rfl
  | cons label labels ih => cases label <;> exact ih _

theorem typeDescents_switch (scrutinee : ExprId) (arms : List SwitchArm) :
    (walkSwitch typeDescents scrutinee arms w).out =
      walkArmsMembers descents arms (descents.expr scrutinee w.out) := by
  have arms (v : TypeWalk (List Node)) :
      (arms.foldl (fun w arm => typeDescents.stmts arm.body
        (arm.labels.foldl (fun w label => typeDescents.label label w) w)) v).out =
        walkArmsMembers descents arms v.out := by
    induction arms generalizing v with
    | nil => rfl
    | cons arm arms ih =>
        rw [List.foldl_cons, ih, typeDescents_stmts, typeDescents_labels]
        rfl
  exact arms (typeDescents.expr scrutinee w)

/-- Away from braced array initializers the two walks descend alike. -/
theorem typeDescent_eq (id : ExprId) {data : ExprData}
    (notArray : ∀ elem elems, data ≠ .arrayInit (elem :: elems)) :
    typeDescent id data = memberDescent data := by
  simp only [typeDescent, memberDescent]
  cases data with
  | arrayInit elems =>
      cases elems with
      | nil => rfl
      | cons elem elems => exact absurd rfl (notArray elem elems)
  | new ty args receiver =>
      cases receiver <;> simp [walkExprData, walkExprMembers, typeDescents_optExpr,
        typeDescents_exprs, TypeWalk.emit]
  | newArray ty dims initializer =>
      cases initializer <;> simp [walkExprData, walkExprMembers, typeDescents_exprs, TypeWalk.emit]
  | instanceOf inner ty pattern =>
      cases pattern <;> simp [walkExprData, walkExprMembers, typeDescents_expr,
        typeDescents_pattern, emitAll_out]
  | lambda params body =>
      simp only [walkExprData, walkExprMembers, typeDescents_lambdaBody, emitParams_out]
  | switch scrutinee arms => exact typeDescents_switch _ scrutinee arms
  | _ =>
      simp [walkExprData, walkExprMembers, typeDescents_expr, typeDescents_exprs,
        typeDescents_optExpr, emitAll_out, TypeWalk.emit]

theorem mem_descents_exprs (ids : List ExprId) (out : List Node) (part : Node) :
    part ∈ descents.exprs ids out ↔ part ∈ out ∨ part ∈ ids.map Node.expr := by
  induction ids generalizing out with
  | nil => simp [Visits.exprs]
  | cons id ids ih =>
      have step : descents.exprs (id :: ids) out = descents.exprs ids (out ++ [.expr id]) := rfl
      rw [step, ih]
      simp [or_assoc]

/-- The two walks descend into the same nodes from exactly the other expressions. -/
theorem same_descents_iff (id : ExprId) (data : ExprData) :
    (∀ part, part ∈ memberDescent data ↔ part ∈ typeDescent id data) ↔
      ∀ elem elems, data ≠ .arrayInit (elem :: elems) := by
  constructor
  · intro same elem elems array
    subst array
    have there : Node.expr elem ∈ typeDescent id (.arrayInit (elem :: elems)) := by
      rw [typeDescent, walkExprData, typeDescents_exprs, mem_descents_exprs]
      simp
    exact List.not_mem_nil ((same (.expr elem)).mpr there)
  · intro notArray part
    rw [typeDescent_eq id notArray]

end Descents

/-! ### When nothing is missed -/

/-- The name dependencies of a file contain every name it writes exactly when each name in a place
the walks leave out also stands in a place they record; the member walk descends into what the type
walk descends into exactly when no braced array initializer has an element. -/
theorem dependency_refs_complete_iff (bodies : BodyTree) (tree : ItemTree) :
    ((∀ name, Written bodies tree name → name ∈ fileDependencyRefs bodies tree) ↔
      ∀ name, Omitted bodies tree name → Recorded bodies tree name) ∧
    ((∀ id, Walked bodies tree (.expr id) → ∀ part,
        part ∈ memberDescent (bodies.expr id) ↔ part ∈ typeDescent id (bodies.expr id)) ↔
      ∀ id, Walked bodies tree (.expr id) → ∀ elem elems,
        bodies.expr id ≠ .arrayInit (elem :: elems)) := by
  constructor
  · constructor
    · intro complete name omitted
      exact (mem_fileDependencyRefs_iff bodies tree name).mp (complete name omitted.written)
    · intro covered name written
      apply (mem_fileDependencyRefs_iff bodies tree name).mpr
      rcases written.recorded_or with recorded | omitted
      · exact recorded
      · exact covered name omitted
  · exact forall_congr' fun id => imp_congr_right fun _ => same_descents_iff id (bodies.expr id)

/-- The bodies of `int[] a = { f() };`. -/
def bracedCallBodies : BodyTree where
  exprs := [.arrayInit [⟨1⟩], .methodCall none ⟨['f']⟩ [] []]
  stmts := []
  patterns := []
  locals := []
  bodies := []
  height
    | .expr ⟨0⟩ => 1
    | _ => 0
  exprsDeeper := by
    intro i data known part inside
    match i with
    | 0 =>
        obtain rfl : data = .arrayInit [⟨1⟩] := by simpa using known.symm
        simp only [ExprData.parts, List.map_cons, List.map_nil, List.mem_singleton] at inside
        simp [inside]
    | 1 =>
        obtain rfl : data = .methodCall none ⟨['f']⟩ [] [] := by simpa using known.symm
        cases inside
    | i + 2 => cases known
  stmtsDeeper := by
    intro i data known
    cases known
  patternsDeeper := by
    intro i data known
    cases known

/-- The field `int[] a = { f() };`. -/
def bracedCallField : HirDef.FieldData where
  name := ⟨['a']⟩
  annotations := []
  ty := ⟨.array (.primitive .int), []⟩
  initializerExpr := some ⟨0⟩

/-- A file that holds the field. -/
def bracedCallTree : ItemTree where
  imports := []
  top := [⟨0⟩]
  localTypes := []
  parent := [none]
  items := [.field bracedCallField]
  height _ := 0
  bodyDeeper := by
    intro i data known child inside
    match i with
    | 0 =>
        obtain rfl := (Option.some.inj known).symm
        cases inside
    | i + 1 => cases known
  localDeeper := by
    intro id known
    cases known

/-- A call in a braced array initializer is not among the names, and the member walk does not come
to it. -/
theorem braced_call_missed :
    ¬ ∀ (bodies : BodyTree) (tree : ItemTree),
      (∀ name, Written bodies tree name → name ∈ fileDependencyRefs bodies tree) ∧
      ∀ id, Walked bodies tree (.expr id) → ∀ part,
        part ∈ memberDescent (bodies.expr id) ↔ part ∈ typeDescent id (bodies.expr id) := by
  intro complete
  obtain ⟨names, _⟩ := complete bracedCallBodies bracedCallTree
  have has : bracedCallTree.Has ⟨0⟩ := ⟨⟨0⟩, List.mem_singleton.mpr rfl, .refl _⟩
  have root : Node.expr ⟨0⟩ ∈ bodyRoots bracedCallBodies (bracedCallTree.data ⟨0⟩) :=
    List.mem_singleton.mpr rfl
  have part : Node.expr ⟨1⟩ ∈ writtenParts bracedCallBodies (.expr ⟨0⟩) :=
    List.mem_singleton.mpr rfl
  have call : StandsInBody bracedCallBodies bracedCallTree (.expr ⟨1⟩) :=
    ⟨⟨0⟩, has, .expr ⟨0⟩, root, .head part (.refl _)⟩
  have found := names ⟨['f']⟩ (.member call (List.mem_singleton.mpr rfl))
  exact absurd found (by decide)

end CaffeineLs.HirTy
