/-
Module: CaffeineLs.HirTy.ConstScopes
Purpose: The constant variables that the inference of a Java body records, beside the scopes of the
  language: what a simple name denotes, and the value of a constant variable.
Trusted boundary: a body is told by the places its inference comes past, in order; the scopes among
  them are those of the language, and what a name means where no variable has it is a parameter
Main exports: ScopeEvent, ConstScopes, ConstScopes.denotes
-/
import CaffeineLs.HirTy.JavaConstants

namespace CaffeineLs.HirTy

open HirExpand

/-- The order a hash map is iterated in: some arrangement of its entries. -/
structure IterationOrder where
  arrange : ConstLocals → ConstLocals
  perm : ∀ entries, (arrange entries).Perm entries

/-- What a simple name denotes. -/
inductive Binding where
  | ofLocal (id : LocalId)
  | lambdaParam
deriving DecidableEq, Repr

/-- A place that the inference of a body comes past: the start or end of a scope, the parameters of a
lambda, the declaration of a variable, the end of a declarator with an initializer, or an expression
that is evaluated as a constant. -/
inductive ScopeEvent where
  | opens
  | closes
  | lambda (params : List Name)
  | declares (id : LocalId)
  | initialized (id : LocalId) (initializer : ExprId)
  | evaluates (id : ExprId)

/-- The scopes open at a place, innermost first, with the latest declaration of each first; the
constant variables declared so far, with their values; and the map `const_locals`. -/
structure ConstScopes where
  frames : List (List (Name × Binding))
  constants : List (LocalId × JavaConst)
  constLocals : ConstLocals

namespace ConstScopes

def start : ConstScopes := { frames := [], constants := [], constLocals := [] }

/-- The variable that a simple name denotes, JLS §6.4: the one declared in the innermost scope. -/
def denotes (σ : ConstScopes) (name : Name) : Option Binding :=
  σ.frames.findSome? fun frame => frame.lookup name

section

variable (fields : Name → Option JavaConst)

/-- The value of the constant variable that a simple name denotes. -/
def scope (σ : ConstScopes) (name : Name) : Option JavaConst :=
  match σ.denotes name with
  | some (.ofLocal id) => σ.constants.lookup id
  | some .lambdaParam => none
  | none => fields name

variable (bodies : BodyTree)

/-- The type of a variable that may be constant: the declared one, or for `var` the one of the
initializer. -/
def constantType (ty : Option SpannedTypeRef) (initializer : ConstType) : Option ConstType :=
  match ty with
  | some ty => castType ty.ty
  | none => some initializer

/-- The value of a constant variable, JLS §4.12.4: a `final` variable of primitive type or type
`String` that is initialized with a constant expression. -/
def constantOf (σ : ConstScopes) (id : LocalId) (initializer : ExprId) : Option JavaConst :=
  if (bodies.binding id).isFinal then do
    let (from_, value) ← meaning bodies (σ.scope fields) initializer
    let type ← constantType (bodies.binding id).ty from_
    let value ← value
    some (value.convert type)
  else none

/-- `const_locals.insert`, at the end of a declarator that has a declared type. -/
def record (order : IterationOrder) (id : LocalId) (initializer : ExprId) (entries : ConstLocals) :
    ConstLocals :=
  match (bodies.binding id).ty, (bodies.binding id).isFinal,
      constValue bodies order.arrange entries initializer with
  | some _, true, some value => (id, value) :: entries.filter (·.1 ≠ id)
  | _, _, _ => entries

/-- A declaration in the innermost scope. -/
def declare (name : Name) (binding : Binding) :
    List (List (Name × Binding)) → List (List (Name × Binding))
  | [] => [[(name, binding)]]
  | frame :: frames => ((name, binding) :: frame) :: frames

def step (order : IterationOrder) (σ : ConstScopes) : ScopeEvent → ConstScopes
  | .opens => { σ with frames := [] :: σ.frames }
  | .closes => { σ with frames := σ.frames.tail }
  | .lambda params => { σ with frames := (params.map (·, .lambdaParam)) :: σ.frames }
  | .declares id =>
      { σ with frames := declare (bodies.binding id).name (.ofLocal id) σ.frames }
  | .initialized id initializer =>
      { σ with
        constants :=
          match σ.constantOf fields bodies id initializer with
          | some value => (id, value) :: σ.constants
          | none => σ.constants
        constLocals := record bodies order id initializer σ.constLocals }
  | .evaluates _ => σ

end

end ConstScopes

/-- The expression that `ConstEnv::eval` is called for at a place. -/
def ScopeEvent.evaluated (bodies : BodyTree) : ScopeEvent → Option ExprId
  | .initialized id initializer =>
      if (bodies.binding id).ty.isSome && (bodies.binding id).isFinal then some initializer else none
  | .evaluates id => some id
  | _ => none

/-- An expression that the evaluation comes past. It does not go below a cast. -/
def ComesPast (bodies : BodyTree) (id part : ExprId) : Prop :=
  Relation.ReflTransGen
    (fun outer operand => (∀ ty inner, bodies.expr outer ≠ .cast ty inner) ∧
      operand ∈ operandsOf (bodies.expr outer)) id part

/-- Every simple name that the evaluation comes past is constant only when the variable it denotes is
a constant variable, and then with its value, whatever order the map is iterated in. -/
def NamesFollowScopes (fields : Name → Option JavaConst) (bodies : BodyTree) (order : IterationOrder)
    (σ : ConstScopes) (id : ExprId) : Prop :=
  ∀ part name, ComesPast bodies id part → bodies.expr part = .var name →
    (∀ value, constVar bodies order.arrange σ.constLocals name = some value →
      ∃ exact, σ.scope fields name = some exact ∧ Encodes value exact) ∧
    ∀ other : IterationOrder, constVar bodies other.arrange σ.constLocals name =
      constVar bodies order.arrange σ.constLocals name

/-- At every place of the run, the names of the expression that is evaluated follow the scopes. -/
def RunFollowsScopes (fields : Name → Option JavaConst) (bodies : BodyTree) (order : IterationOrder) :
    ConstScopes → List ScopeEvent → Prop
  | _, [] => True
  | σ, event :: events =>
      (∀ id, event.evaluated bodies = some id → NamesFollowScopes fields bodies order σ id) ∧
        RunFollowsScopes fields bodies order (σ.step fields bodies order event) events

end CaffeineLs.HirTy
