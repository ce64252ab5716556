/-
Module: CaffeineLs.Proofs.ConstantScopes
Purpose: When the constant variables that the inference looks up by name are the ones that the names
  denote.
Trusted boundary: none
Main exports: NamesMatch, OperatorsFit, names_follow_scopes
-/
import CaffeineLs.HirTy.ConstScopes
import CaffeineLs.Proofs.ConstantFolding

namespace CaffeineLs.HirTy

open HirExpand

variable {bodies : BodyTree} {fields : Name → Option JavaConst} {order : IterationOrder}
  {σ : ConstScopes} {id : ExprId}

/-! ### The condition on a step -/

/-- Every constant variable recorded under a name that the evaluation comes past is the variable that
the name denotes. -/
def NamesMatch (bodies : BodyTree) (σ : ConstScopes) (id : ExprId) : Prop :=
  ∀ part name, ComesPast bodies id part → bodies.expr part = .var name →
    ∀ entry ∈ σ.constLocals, (bodies.binding entry.1).name = name →
      σ.denotes name = some (.ofLocal entry.1)

/-- The forms that are evaluated. -/
def EvaluatedForm (bodies : BodyTree) (entries : ConstLocals) : ExprData → Prop
  | .literal _ | .paren _ | .unary _ _ | .binary _ _ _ | .conditional _ _ _ => True
  | .var name => ∃ entry ∈ entries, (bodies.binding entry.1).name = name
  | _ => False

/-- The expression is built from literals, recorded names and operators. -/
def ConstantForm (bodies : BodyTree) (entries : ConstLocals) (id : ExprId) : Prop :=
  ∀ part, ComesPast bodies id part → EvaluatedForm bodies entries (bodies.expr part)

/-- Literals, operators and conditionals are evaluated exactly where they stand. -/
def OperatorsFit (fields : Name → Option JavaConst) (bodies : BodyTree) (order : IterationOrder)
    (σ : ConstScopes) (id : ExprId) : Prop :=
  ∀ part, ComesPast bodies id part → (∀ name, bodies.expr part ≠ .var name) →
    FitsHere bodies (σ.scope fields) order.arrange σ.constLocals part

/-- The conversion to the type leaves the value, and the width later arithmetic wraps at, alone. -/
def KeptBy (type : ConstType) : JavaConst → Prop
  | .integral from_ value _ =>
    match type with
    | .integral to_ => (to_ = .long ↔ from_ = .long) ∧ to_.Holds value
    | _ => False
  | exact => type = exact.type

/-- The condition on a step. A declarator that is come past again, in the body of a lambda that is
inferred again, has the value it had. -/
def StepMeets (fields : Name → Option JavaConst) (bodies : BodyTree) (order : IterationOrder)
    (σ : ConstScopes) : ScopeEvent → Prop
  | .evaluates id => NamesMatch bodies σ id
  | .initialized id initializer =>
      (∀ value, σ.constants.lookup id = some value →
        σ.constantOf fields bodies id initializer = some value) ∧
      ((bodies.binding id).isFinal = true → ∀ ty, (bodies.binding id).ty = some ty →
        NamesMatch bodies σ initializer ∧
        (ConstantForm bodies σ.constLocals initializer → ∃ type m,
          castType ty.ty = some type ∧ meaning bodies (σ.scope fields) initializer = some m ∧
          OperatorsFit fields bodies order σ initializer ∧
          ∀ exact, m.2 = some exact → KeptBy type exact))
  | _ => True

/-! ### Names -/

/-- Every recorded constant is the value of its variable, and each variable is recorded once. -/
structure Agrees (σ : ConstScopes) : Prop where
  value : ∀ entry ∈ σ.constLocals, ∃ exact,
    σ.constants.lookup entry.1 = some exact ∧ Encodes entry.2 exact
  once : (σ.constLocals.map Prod.fst).Nodup

theorem constVar_eq_some {entries : ConstLocals} {name : Name} {value : Const}
    (found : constVar bodies order.arrange entries name = some value) :
    ∃ entry ∈ entries, (bodies.binding entry.1).name = name ∧ entry.2 = value := by
  obtain ⟨entry, first, rfl⟩ := Option.map_eq_some_iff.mp found
  have named := List.find?_some first
  have member := (order.perm entries).mem_iff.mp (List.mem_of_find?_eq_some first)
  exact ⟨entry, member, by simpa using named, rfl⟩

/-- The only entry under a name is the one that is found. -/
theorem constVar_of_only {entries : ConstLocals} {name : Name} {entry : LocalId × Const}
    (member : entry ∈ entries) (named : (bodies.binding entry.1).name = name)
    (only : ∀ other ∈ entries, (bodies.binding other.1).name = name → other = entry) :
    constVar bodies order.arrange entries name = some entry.2 := by
  unfold constVar
  cases first : (order.arrange entries).find? fun entry => (bodies.binding entry.1).name = name with
  | none =>
      have absent := List.find?_eq_none.mp first entry ((order.perm entries).mem_iff.mpr member)
      exact absurd named (by simpa using absent)
  | some other =>
      have named' := List.find?_some first
      have member' := (order.perm entries).mem_iff.mp (List.mem_of_find?_eq_some first)
      rw [only other member' (by simpa using named')]
      rfl

/-- Where recorded names match, they follow the scopes. -/
theorem follow_of_match (agrees : Agrees σ) (names : NamesMatch bodies σ id) :
    NamesFollowScopes fields bodies order σ id := by
  intro part name reached form
  have here := names part name reached form
  constructor
  · intro value found
    obtain ⟨entry, member, named, rfl⟩ := constVar_eq_some found
    obtain ⟨exact_, known, encodes⟩ := agrees.value entry member
    refine ⟨exact_, ?_, encodes⟩
    unfold ConstScopes.scope
    rw [here entry member named]
    exact known
  · intro other
    by_cases recorded : ∃ entry ∈ σ.constLocals, (bodies.binding entry.1).name = name
    · obtain ⟨entry, member, named⟩ := recorded
      have only : ∀ other ∈ σ.constLocals, (bodies.binding other.1).name = name → other = entry := by
        intro other member' named'
        have same : some (Binding.ofLocal other.1) = some (.ofLocal entry.1) :=
          (here other member' named').symm.trans (here entry member named)
        have id_eq : other.1 = entry.1 := Binding.ofLocal.inj (Option.some.inj same)
        exact List.inj_on_of_nodup_map agrees.once member' member id_eq
      rw [constVar_of_only member named only, constVar_of_only member named only]
    · have absent : ∀ o : IterationOrder, constVar bodies o.arrange σ.constLocals name = none := by
        intro o
        cases found : constVar bodies o.arrange σ.constLocals name with
        | none => rfl
        | some value =>
            obtain ⟨entry, member, named, -⟩ := constVar_eq_some found
            exact absurd ⟨entry, member, named⟩ recorded
      rw [absent, absent]

/-! ### Initializers -/

theorem evaluatedForm_of_evaluated {entries : ConstLocals} {value : Const}
    (evaluates : constValue bodies order.arrange entries id = some value) :
    EvaluatedForm bodies entries (bodies.expr id) := by
  cases form : bodies.expr id with
  | literal | paren | unary | binary | conditional => trivial
  | var name =>
      rw [constValue_var form] at evaluates
      obtain ⟨entry, member, named, -⟩ := constVar_eq_some evaluates
      exact ⟨entry, member, named⟩
  | _ =>
      rw [constValue_eq] at evaluates
      simp [constNode, form] at evaluates

/-- What is evaluated is built from literals, recorded names and operators. -/
theorem constantForm_of_evaluated {entries : ConstLocals} {value : Const}
    (evaluates : constValue bodies order.arrange entries id = some value) :
    ConstantForm bodies entries id := by
  induction id using @operand_induction bodies generalizing value with
  | step id ih =>
      intro part reached
      rcases reached.cases_head with rfl | ⟨operand, ⟨-, there⟩, deeper⟩
      · exact evaluatedForm_of_evaluated evaluates
      · obtain ⟨c, returns⟩ := (constValue_operand evaluates).1 operand there
        exact ih operand there returns part deeper

/-- Below an expression of the form no cast stands. -/
theorem comesPast_of_intermediate {entries : ConstLocals} {part : ExprId}
    (form : ConstantForm bodies entries id) (past : Intermediate bodies id part) :
    ComesPast bodies id part := by
  induction past with
  | refl => exact .refl
  | @tail outer operand _ here ih =>
      refine ih.tail ⟨fun ty inner cast => ?_, here.2⟩
      have allowed := form outer ih
      rw [cast] at allowed
      exact allowed

theorem foldsWithin_of_fit (agrees : Agrees σ) (names : NamesMatch bodies σ id)
    (form : ConstantForm bodies σ.constLocals id)
    (operators : OperatorsFit fields bodies order σ id) :
    FoldsWithin bodies (σ.scope fields) order.arrange σ.constLocals id := by
  intro part past _
  have reached := comesPast_of_intermediate form past
  by_cases named : ∃ name, bodies.expr part = .var name
  · obtain ⟨name, isVar⟩ := named
    have fits : ∀ constant exact_,
        constVar bodies order.arrange σ.constLocals name = some constant →
        σ.scope fields name = some exact_ → Encodes constant exact_ := by
      intro constant exact_ found known
      obtain ⟨exact', known', encodes⟩ := (follow_of_match agrees names part name reached isVar).1
        constant found
      rw [known] at known'
      exact Option.some.inj known' ▸ encodes
    unfold FitsHere
    rw [isVar]
    exact fits
  · exact operators part reached fun name isVar => named ⟨name, isVar⟩

theorem encodes_convert {type : ConstType} {value : Const} {exact_ : JavaConst}
    (kept : KeptBy type exact_) (encodes : Encodes value exact_) :
    Encodes value (exact_.convert type) := by
  cases exact_ with
  | integral from_ n held =>
      cases type with
      | integral to_ =>
          obtain ⟨width, inside⟩ := kept
          cases value with
          | int v isLong =>
              obtain ⟨rfl, long⟩ := encodes
              refine ⟨(IntegralType.wrap_of_holds inside).symm, ?_⟩
              rw [long]
              exact decide_eq_decide.mpr width.symm
          | _ => exact encodes.elim
      | _ => exact kept.elim
  | boolean b =>
      cases type <;> exact encodes
  | string units => cases type <;> exact encodes

/-! ### Runs -/

/-- What is recorded at a declarator is the value of its variable. -/
theorem record_exact (agrees : Agrees σ) {id : LocalId} {initializer : ExprId}
    {ty : SpannedTypeRef} {value : Const}
    (meets : StepMeets fields bodies order σ (.initialized id initializer))
    (typed : (bodies.binding id).ty = some ty) (final : (bodies.binding id).isFinal = true)
    (evaluates : constValue bodies order.arrange σ.constLocals initializer = some value) :
    ∃ exact, σ.constantOf fields bodies id initializer = some exact ∧ Encodes value exact := by
  obtain ⟨names, shape⟩ := meets.2 final ty typed
  have form := constantForm_of_evaluated evaluates
  obtain ⟨type, m, casts, means, operators, kept⟩ := shape form
  have fits := foldsWithin_of_fit agrees names form operators
  obtain ⟨exact_, known, encodes⟩ := folds_exactly fits means evaluates
  rw [means] at known
  obtain rfl := Option.some.inj known
  refine ⟨exact_.convert type, ?_, encodes_convert (kept exact_ rfl) encodes⟩
  unfold ConstScopes.constantOf
  rw [if_pos final, means]
  simp [ConstScopes.constantType, typed, casts]

theorem step_constants (id : LocalId) (initializer : ExprId) :
    (σ.step fields bodies order (.initialized id initializer)).constants =
      match σ.constantOf fields bodies id initializer with
      | some value => (id, value) :: σ.constants
      | none => σ.constants := rfl

/-- One step keeps what is recorded right. -/
theorem agrees_step (agrees : Agrees σ) {event : ScopeEvent}
    (meets : StepMeets fields bodies order σ event) :
    Agrees (σ.step fields bodies order event) := by
  cases event with
  | initialized id initializer =>
      -- the constants of the language, the one of the declarator in front
      have lookup_other : ∀ other exact, σ.constants.lookup other = some exact →
          (σ.step fields bodies order (.initialized id initializer)).constants.lookup other =
            some exact := by
        intro other exact_ known
        rw [step_constants]
        cases constant : σ.constantOf fields bodies id initializer with
        | none => exact known
        | some value =>
            by_cases same : other = id
            · subst same
              have again := meets.1 exact_ known
              rw [constant] at again
              simp [again]
            · rw [List.lookup_cons, beq_eq_false_iff_ne.mpr same]
              exact known
      change Agrees { σ.step fields bodies order (.initialized id initializer) with
        constLocals := ConstScopes.record bodies order id initializer σ.constLocals }
      unfold ConstScopes.record
      have unrecorded : Agrees { σ.step fields bodies order (.initialized id initializer) with
          constLocals := σ.constLocals } := by
        refine ⟨fun entry member => ?_, agrees.once⟩
        obtain ⟨exact_, known, encodes⟩ := agrees.value entry member
        exact ⟨exact_, lookup_other _ _ known, encodes⟩
      split
      · rename_i ty value typed final evaluates
        obtain ⟨exact_, constant, encodes⟩ := record_exact agrees meets typed final evaluates
        constructor
        · intro entry member
          rcases List.mem_cons.mp member with rfl | old
          · refine ⟨exact_, ?_, encodes⟩
            rw [step_constants, constant]
            exact List.lookup_cons_self
          · exact unrecorded.value entry (List.mem_filter.mp old).1
        · rw [List.map_cons, List.nodup_cons]
          refine ⟨fun member => ?_, agrees.once.sublist (List.filter_sublist.map _)⟩
          obtain ⟨entry, kept, same⟩ := List.mem_map.mp member
          simpa [same] using (List.mem_filter.mp kept).2
      · exact unrecorded
  | _ => exact ⟨agrees.value, agrees.once⟩

theorem agrees_start : Agrees .start := by
  refine ⟨fun entry member => ?_, List.nodup_nil⟩
  cases member

/-- The condition on a run: every step meets its condition where it is taken. -/
def RunMeets (fields : Name → Option JavaConst) (bodies : BodyTree) (order : IterationOrder) :
    ConstScopes → List ScopeEvent → Prop
  | _, [] => True
  | σ, event :: events =>
      StepMeets fields bodies order σ event ∧
        RunMeets fields bodies order (σ.step fields bodies order event) events

theorem match_of_meets {event : ScopeEvent} (meets : StepMeets fields bodies order σ event)
    (asked : event.evaluated bodies = some id) : NamesMatch bodies σ id := by
  cases event with
  | evaluates id' =>
      obtain rfl : id' = id := Option.some.inj asked
      exact meets
  | initialized binding initializer =>
      change (if (bodies.binding binding).ty.isSome && (bodies.binding binding).isFinal then
        some initializer else none) = some id at asked
      split at asked
      · rename_i recorded
        obtain ⟨typed, final⟩ := Bool.and_eq_true_iff.mp recorded
        obtain ⟨ty, isType⟩ := Option.isSome_iff_exists.mp typed
        obtain rfl : initializer = id := Option.some.inj asked
        exact (meets.2 final ty isType).1
      · cases asked
  | _ => cases asked

theorem follows_of_meets (agrees : Agrees σ) {events : List ScopeEvent}
    (meets : RunMeets fields bodies order σ events) :
    RunFollowsScopes fields bodies order σ events := by
  induction events generalizing σ with
  | nil => trivial
  | cons event events ih =>
      obtain ⟨first, rest⟩ := meets
      constructor
      · intro id asked
        exact follow_of_match agrees (match_of_meets first asked)
      · exact ih (agrees_step agrees first) rest

/-- In every run from the start of a body whose steps meet the condition, the names of every
expression that is evaluated follow the scopes. -/
theorem names_follow_scopes (fields : Name → Option JavaConst) (bodies : BodyTree)
    (order : IterationOrder) (events : List ScopeEvent)
    (meets : RunMeets fields bodies order .start events) :
    RunFollowsScopes fields bodies order .start events :=
  follows_of_meets agrees_start meets

/-- The expressions `1` and `x`, and the variable `final int x`. -/
def scopedBodies : BodyTree :=
  .ofExprs [.literal (.int 1), .var ⟨['x']⟩] []
    [{ name := ⟨['x']⟩, ty := some ⟨.primitive .int, []⟩, annotations := [], isFinal := true }]
    rfl BodyTree.simple_nil

def asStored : IterationOrder := ⟨fun entries => entries, fun _ => .refl _⟩

theorem comesPast_leaf {part : ExprId} (leaf : operandsOf (bodies.expr id) = [])
    (reached : ComesPast bodies id part) : part = id := by
  rcases reached.cases_head with same | ⟨operand, ⟨-, there⟩, -⟩
  · exact same.symm
  · rw [leaf] at there
    cases there

/-- `{ final int x = 1; x }` -/
theorem inner_constant_follows :
    RunFollowsScopes (fun _ => none) scopedBodies asStored .start
      [.opens, .declares ⟨0⟩, .initialized ⟨0⟩ ⟨0⟩, .evaluates ⟨1⟩, .closes] := by
  have initialized : StepMeets (fun _ => none) scopedBodies asStored
      { frames := [[(⟨['x']⟩, .ofLocal ⟨0⟩)]], constants := [], constLocals := [] }
      (.initialized ⟨0⟩ ⟨0⟩) := by
    refine ⟨fun value known => (nomatch known), fun _ ty typed => ⟨?_, fun _ => ?_⟩⟩
    · exact fun part name reached form entry member => nomatch member
    · obtain rfl := Option.some.inj typed
      refine ⟨.integral .int, _, rfl, rfl, ?_, ?_⟩
      · intro part reached _
        obtain rfl := comesPast_leaf rfl reached
        exact (by decide : IntegralType.int.Holds (IntegralType.long.wrap 1))
      · intro exact_ known
        obtain rfl := Option.some.inj known
        exact ⟨Iff.rfl, by decide⟩
  have evaluated : NamesMatch scopedBodies
      { frames := [[(⟨['x']⟩, .ofLocal ⟨0⟩)]], constants := [(⟨0⟩, .wrapped .int 1)],
        constLocals := [(⟨0⟩, .int 1 false)] } ⟨1⟩ := by
    intro part name reached form entry member named
    obtain rfl := comesPast_leaf rfl reached
    obtain rfl := List.mem_singleton.mp member
    rw [← named]
    rfl
  exact names_follow_scopes _ _ _ _ ⟨trivial, trivial, initialized, evaluated, trivial, trivial⟩

/-- `{ final int x = 1; } x` -/
theorem ended_scope_leaks :
    ¬ ∀ fields bodies order events, RunFollowsScopes fields bodies order .start events := by
  intro all
  have follows := all (fun _ => none) scopedBodies asStored
    [.opens, .declares ⟨0⟩, .initialized ⟨0⟩ ⟨0⟩, .closes, .evaluates ⟨1⟩]
  obtain ⟨-, -, -, -, last, -⟩ := follows
  obtain ⟨exact_, known, -⟩ :=
    (last ⟨1⟩ rfl ⟨1⟩ ⟨['x']⟩ .refl rfl).1 (.int 1 false) (by rfl)
  cases known

end CaffeineLs.HirTy
