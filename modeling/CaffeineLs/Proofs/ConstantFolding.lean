/-
Module: CaffeineLs.Proofs.ConstantFolding
Purpose: When the evaluation of a constant expression is the evaluation of the language.
Trusted boundary: none
Main exports: meaning_eq, constValue_eq, foldsLikeJava_iff
-/
import CaffeineLs.Proofs.ConstantArithmetic

namespace CaffeineLs.HirTy

open HirExpand Ranked IntegralType

/-! ### Meanings, form by form -/

theorem mem_parts_of_operandsOf {data : ExprData} {operand : ExprId}
    (there : operand ∈ operandsOf data) : Node.expr operand ∈ data.parts := by
  cases data <;> simp_all [operandsOf, ExprData.parts]

section

variable {bodies : BodyTree} {scope : Name → Option JavaConst}
  {order : ConstLocals → ConstLocals} {consts : ConstLocals}

theorem height_lt_of_operandsOf (id : ExprId) :
    ∀ operand ∈ operandsOf (bodies.expr id),
      bodies.height (.expr operand) < bodies.height (.expr id) :=
  fun _ there => @BodyTree.height_lt_of_mem_parts bodies (.expr id) _ (mem_parts_of_operandsOf there)

/-- What holds of an expression when it holds of its operands holds of every expression. -/
theorem operand_induction {P : ExprId → Prop}
    (step : ∀ id, (∀ operand ∈ operandsOf (bodies.expr id), P operand) → P id) (id : ExprId) :
    P id :=
  @ranked_induction _ _ (fun id => bodies.height (.expr id)) height_lt_of_operandsOf P step id

theorem meaningNode_local :
    Local (fun id => operandsOf (bodies.expr id)) (meaningNode bodies scope) := by
  intro f g id agree
  simp only [meaningNode]
  split <;> simp_all [operandsOf]

theorem meaning_eq (id : ExprId) :
    meaning bodies scope id = meaningNode bodies scope (meaning bodies scope) id :=
  tower_eq height_lt_of_operandsOf meaningNode_local id

/-- One level of the evaluation. -/
def constNode (bodies : BodyTree) (order : ConstLocals → ConstLocals) (consts : ConstLocals)
    (visit : ExprId → Option Const) (id : ExprId) : Option Const :=
  match bodies.expr id with
  | .literal lit => constLiteral lit
  | .paren inner => visit inner
  | .var name => constVar bodies order consts name
  | .unary op operand => (visit operand).bind (constUnary op)
  | .binary op lhs rhs => (visit lhs).bind fun l => (visit rhs).bind fun r => constBinary op l r
  | .conditional cond then_ els =>
      match visit cond with
      | some (.bool b) =>
          (visit then_).bind fun t => (visit els).map fun e => if b then t else e
      | _ => none
  | _ => none

theorem constNode_local :
    Local (fun id => operandsOf (bodies.expr id)) (constNode bodies order consts) := by
  intro f g id agree
  simp only [constNode]
  split <;> simp_all [operandsOf]

theorem constEval_eq_layers (fuel : Nat) :
    constEval bodies order consts fuel =
      layers (constNode bodies order consts) (fun _ => none) fuel := by
  induction fuel with
  | zero => rfl
  | succ fuel ih =>
      funext id
      rw [layers, ← ih]
      rfl

theorem constValue_eq (id : ExprId) :
    constValue bodies order consts id =
      constNode bodies order consts (constValue bodies order consts) id := by
  have same : constValue bodies order consts =
      tower (fun id => bodies.height (.expr id)) (constNode bodies order consts) fun _ => none := by
    funext id
    rw [constValue, constEval_eq_layers]
    rfl
  rw [same]
  exact tower_eq height_lt_of_operandsOf constNode_local id

end

/-! ### The type of a value -/

theorem unaryValue_type {op : UnaryOp} {x y : JavaConst} {type : ConstType}
    (typed : unaryType op x.type = some type) (value : unaryValue op x = some y) :
    y.type = type := by
  cases op <;> cases x <;> simp [unaryType, unaryValue, JavaConst.type] at typed value <;>
    subst value <;> exact typed

theorem integralValue_type {op : BinaryOp} {a b : IntegralType} {n m : Int} {type : ConstType}
    {y : JavaConst} (typed : integralType op a b = some type)
    (value : integralValue op a n b m = some y) : y.type = type := by
  cases op <;> simp [integralType, integralValue] at typed value <;> obtain ⟨_, rfl⟩ := value <;>
    exact typed

theorem binaryValue_type {op : BinaryOp} {x y z : JavaConst} {type : ConstType}
    (typed : binaryType op x.type y.type = some type) (value : binaryValue op x y = some z) :
    z.type = type := by
  cases x with
  | integral a n held =>
      cases y with
      | integral b m held' =>
          rw [binaryValue_integral] at value
          apply integralValue_type _ value
          cases op <;> simpa [binaryType, JavaConst.type] using typed
      | boolean b => cases op <;> simp [binaryType, JavaConst.type] at typed
      | string units =>
          cases op <;> simp [binaryType, binaryValue, JavaConst.type] at typed value
          subst value
          exact typed
  | boolean a =>
      cases y with
      | integral b m held' => cases op <;> simp [binaryType, JavaConst.type] at typed
      | boolean b =>
          rw [binaryValue_boolean] at value
          cases op <;> simp [binaryType, booleanValue, JavaConst.type] at typed value <;>
            subst value <;> exact typed
      | string units =>
          cases op <;> simp [binaryType, binaryValue, JavaConst.type] at typed value
          subst value
          exact typed
  | string units =>
      cases op <;> cases y <;> simp [binaryType, binaryValue, JavaConst.type] at typed value <;>
        subst value <;> exact typed

theorem narrowsTo_iff {type a : IntegralType} {n : Int} {held : a.Holds n} :
    narrowsTo type (some (.integral a n held)) = true ↔
      a = .int ∧ type.isNarrow ∧ type.Holds n := by
  cases a <;> simp [narrowsTo]

theorem holds_promoteWith {a b : IntegralType} {n : Int} (held : a.Holds n ∨ b.Holds n) :
    (a.promoteWith b).Holds n := by
  cases a <;> cases b <;>
    simp only [Holds, promoteWith, lowest, bits, reduceCtorEq, or_self, or_true, true_or, if_true,
      if_false] at held ⊢ <;> omega

/-- Both values of a conditional expression are of its type, and one of them is only of type `long`
when the conditional is. -/
theorem conditional_holds {a b type : IntegralType} {n m : Int} {held : a.Holds n}
    {held' : b.Holds m}
    (typed : conditionalType (.integral a, some (.integral a n held))
      (.integral b, some (.integral b m held')) = some (.integral type)) :
    (type.Holds n ∧ type.Holds m) ∧ (a = .long ∨ b = .long → type = .long) := by
  simp only [conditionalType] at typed
  split at typed
  · rename_i same
    obtain rfl := same
    obtain rfl : a = type := by simpa using typed
    exact ⟨⟨held, held'⟩, by simp⟩
  split at typed
  · rename_i sizes
    obtain rfl : IntegralType.short = type := by simpa using typed
    rcases sizes with ⟨rfl, rfl⟩ | ⟨rfl, rfl⟩ <;>
      simp only [Holds, lowest, bits, reduceCtorEq, or_self, false_implies, and_true] at held held' ⊢ <;>
      omega
  split at typed
  · rename_i narrows
    obtain ⟨rfl, narrow, fits⟩ := narrowsTo_iff.mp narrows
    obtain rfl : a = type := by simpa using typed
    exact ⟨⟨held, fits⟩, by rintro (same | same) <;> simp_all⟩
  split at typed
  · rename_i narrows
    obtain ⟨rfl, narrow, fits⟩ := narrowsTo_iff.mp narrows
    obtain rfl : b = type := by simpa using typed
    exact ⟨⟨fits, held'⟩, by rintro (same | same) <;> simp_all⟩
  · obtain rfl : a.promoteWith b = type := by simpa using typed
    exact ⟨⟨holds_promoteWith (.inl held), holds_promoteWith (.inr held')⟩,
      fun either => by simp [promoteWith, either]⟩

/-- The operands of a conditional expression are both integral, both boolean or both strings. -/
theorem conditionalType_cases {x y : JavaConst} {type : ConstType}
    (typed : conditionalType (x.type, some x) (y.type, some y) = some type) :
    (∃ a n held b m held' sort, x = .integral a n held ∧ y = .integral b m held' ∧
      type = .integral sort) ∨ (x.type = type ∧ y.type = type ∧ x.convert type = x ∧
        y.convert type = y) := by
  cases x <;> cases y <;> simp only [JavaConst.type, conditionalType, reduceCtorEq] at typed
  · left
    rename_i a n held b m held'
    have integral : ∃ sort, type = .integral sort := by
      split_ifs at typed <;> exact ⟨_, (Option.some.inj typed).symm⟩
    obtain ⟨sort, rfl⟩ := integral
    exact ⟨a, n, held, b, m, held', sort, rfl, rfl, rfl⟩
  all_goals
    right
    obtain rfl := Option.some.inj typed
    exact ⟨rfl, rfl, rfl, rfl⟩

theorem conditionalType_convert {x y : JavaConst} {type : ConstType}
    (typed : conditionalType (x.type, some x) (y.type, some y) = some type) :
    (x.convert type).type = type ∧ (y.convert type).type = type := by
  rcases conditionalType_cases typed with
    ⟨a, n, held, b, m, held', sort, rfl, rfl, rfl⟩ | ⟨left, right, keepLeft, keepRight⟩
  · exact ⟨rfl, rfl⟩
  · rw [keepLeft, keepRight]
    exact ⟨left, right⟩

/-- The taken operand of a conditional keeps its value, and its width when the conditional is not
wider. -/
theorem convert_agrees {x y : JavaConst} {type : ConstType} {constant : Const} {test : Bool}
    (typed : conditionalType (x.type, some x) (y.type, some y) = some type)
    (agree : Encodes constant (if test then x else y)) :
    Encodes constant ((if test then x else y).convert type) ↔
      (type = .integral .long → (if test then x else y).type = .integral .long) := by
  rcases conditionalType_cases typed with
    ⟨a, n, held, b, m, held', sort, rfl, rfl, rfl⟩ | ⟨left, right, keepLeft, keepRight⟩
  · obtain ⟨⟨low, high⟩, longer⟩ := conditional_holds typed
    have kept {of_ : IntegralType} {k : Int} {held : of_.Holds k} (fits : sort.Holds k)
        (wider : of_ = .long → sort = .long) (agree : Encodes constant (.integral of_ k held)) :
        Encodes constant (JavaConst.convert (.integral sort) (.integral of_ k held)) ↔
          (ConstType.integral sort = .integral .long →
            (JavaConst.integral of_ k held).type = .integral .long) := by
      cases constant with
      | int v isLong =>
          obtain ⟨rfl, rfl⟩ := agree
          simp only [JavaConst.convert, JavaConst.wrapped, Encodes, wrap_of_holds fits, true_and,
            JavaConst.type, ConstType.integral.injEq, decide_eq_decide]
          exact ⟨fun same => same.mpr, fun back => ⟨wider, back⟩⟩
      | _ => exact agree.elim
    cases test with
    | true => exact kept low (fun same => longer (.inl same)) agree
    | false => exact kept high (fun same => longer (.inr same)) agree
  · cases test <;> simp_all

/-! ### Literals -/

theorem toInt_ofInt_long (n : Int) : (BitVec.ofInt 64 n).toInt = IntegralType.long.wrap n := by
  rw [BitVec.toInt_ofInt, wrap_long]

theorem char_encodes {value : Char} (unit : value.toNat < 0x10000) :
    Encodes (.int (BitVec.ofNat 64 value.toNat) false) (.wrapped .char value.toNat) := by
  refine ⟨?_, rfl⟩
  have fits : IntegralType.char.Holds value.toNat := by
    simp only [Holds, lowest, bits]
    omega
  rw [wrap_of_holds fits, BitVec.toInt_eq_toNat_bmod, BitVec.toNat_ofNat, Int.bmod_def]
  omega

/-- A literal is exact unless it is an `int` that does not fit 32 bits. -/
theorem literal_agrees_iff {lit : Literal} {constant : Const} {exact : JavaConst}
    (code : constLiteral lit = some constant) (java : javaLiteral lit = some exact) :
    Encodes constant exact ↔
      ∀ value, lit = .int value → IntegralType.int.Holds (IntegralType.long.wrap value) := by
  cases lit with
  | int value =>
      cases code
      cases java
      simp only [JavaConst.wrapped, Encodes, toInt_ofInt_long, reduceCtorEq, decide_false, and_true,
        Literal.int.injEq, forall_eq']
      rw [holds_iff_wrap, wrap_int_long, eq_comm]
  | long value =>
      cases code
      cases java
      exact iff_of_true ⟨toInt_ofInt_long value, rfl⟩ (by simp)
  | char value =>
      cases code
      simp only [javaLiteral, Option.ite_none_right_eq_some, Option.some.injEq] at java
      obtain ⟨unit, rfl⟩ := java
      exact iff_of_true (char_encodes unit) (by simp)
  | boolean value | str value =>
      cases code
      cases java
      exact iff_of_true rfl (by simp)
  | float | double => cases code

/-- A negative literal is exact whatever its digits. -/
theorem negated_agrees {lit : Literal} {constant : Const} {exact : JavaConst} {type : ConstType}
    (code : constLiteral lit = some constant) (java : javaLiteral lit = some exact)
    (typed : unaryType .minus exact.type = some type) :
    Option.Rel Encodes (constUnary .minus constant) (unaryValue .minus exact) := by
  by_cases fits : ∀ value, lit = .int value → IntegralType.int.Holds (IntegralType.long.wrap value)
  · exact unary_agrees ((literal_agrees_iff code java).mpr fits) typed
  · obtain ⟨value, rfl, -⟩ : ∃ value, lit = .int value ∧ _ := by simpa using fits
    cases code
    cases java
    apply Option.Rel.some
    have commutes (l r : BitVec 64) : (-r).truncate 32 = -(r.truncate 32) :=
      BitVec.setWidth_neg_of_le (by decide)
    have same : IntegralType.int.wrap (IntegralType.long.wrap (-(IntegralType.long.wrap value))) =
        IntegralType.int.wrap (-(IntegralType.int.wrap value)) := by
      simp only [wrap, lowest, bits]
      omega
    refine ⟨?_, rfl⟩
    rw [@atWidth_toInt false (fun _ r => -r) (fun _ r => -r) commutes, BitVec.toInt_neg, ← wrap_long,
      toInt_ofInt_long]
    exact same

/-! ### What an expression says of its operands -/

section

variable {bodies : BodyTree} {scope : Name → Option JavaConst}
  {order : ConstLocals → ConstLocals} {consts : ConstLocals} {id : ExprId}

/-- The operands of a constant expression are constant expressions. -/
theorem meaning_operand {m : Meaning} (means : meaning bodies scope id = some m) :
    ∀ operand ∈ operandsOf (bodies.expr id), ∃ m', meaning bodies scope operand = some m' := by
  rw [meaning_eq] at means
  intro operand there
  simp only [meaningNode] at means
  split at means <;> first | cases means | skip
  all_goals
    rename_i form
    rw [form] at there
    simp only [operandsOf, List.mem_cons, List.not_mem_nil, or_false] at there
  · subst there
    exact ⟨m, means⟩
  · obtain ⟨m', known, -⟩ := Option.bind_eq_some_iff.mp means
    exact ⟨m', there ▸ known⟩
  · obtain ⟨left, known, rest⟩ := Option.bind_eq_some_iff.mp means
    obtain ⟨right, known', -⟩ := Option.bind_eq_some_iff.mp rest
    rcases there with rfl | rfl
    · exact ⟨left, known⟩
    · exact ⟨right, known'⟩
  · obtain ⟨test, known, rest⟩ := Option.bind_eq_some_iff.mp means
    obtain ⟨left, known', rest⟩ := Option.bind_eq_some_iff.mp rest
    obtain ⟨right, known'', -⟩ := Option.bind_eq_some_iff.mp rest
    rcases there with rfl | rfl | rfl
    · exact ⟨test, known⟩
    · exact ⟨left, known'⟩
    · exact ⟨right, known''⟩
  · obtain ⟨type, -, rest⟩ := Option.bind_eq_some_iff.mp means
    obtain ⟨m', known, -⟩ := Option.bind_eq_some_iff.mp rest
    exact ⟨m', there ▸ known⟩

section Forms

variable {lit : Literal} {inner operand lhs rhs cond then_ els : ExprId} {name : Name} {op : UnaryOp}
  {bop : BinaryOp}

theorem meaning_literal (form : bodies.expr id = .literal lit) :
    meaning bodies scope id = (javaLiteral lit).map fun constant => (constant.type, some constant) := by
  rw [meaning_eq]
  simp only [meaningNode, form]

theorem meaning_paren (form : bodies.expr id = .paren inner) :
    meaning bodies scope id = meaning bodies scope inner := by
  rw [meaning_eq]
  simp only [meaningNode, form]

theorem meaning_var (form : bodies.expr id = .var name) :
    meaning bodies scope id = (scope name).map fun constant => (constant.type, some constant) := by
  rw [meaning_eq]
  simp only [meaningNode, form]

theorem meaning_unary (form : bodies.expr id = .unary op operand) :
    meaning bodies scope id = (meaning bodies scope operand).bind fun (type, value) =>
      (unaryType op type).map fun type => (type, value.bind (unaryValue op)) := by
  rw [meaning_eq]
  simp only [meaningNode, form]

theorem meaning_binary (form : bodies.expr id = .binary bop lhs rhs) :
    meaning bodies scope id = (meaning bodies scope lhs).bind fun (a, left) =>
      (meaning bodies scope rhs).bind fun (b, right) => (binaryType bop a b).map fun type =>
        (type, left.bind fun left => right.bind fun right => binaryValue bop left right) := by
  rw [meaning_eq]
  simp only [meaningNode, form]

theorem meaning_conditional (form : bodies.expr id = .conditional cond then_ els) :
    meaning bodies scope id = (meaning bodies scope cond).bind fun cond =>
      (meaning bodies scope then_).bind fun then_ => (meaning bodies scope els).bind fun els =>
        conditionalMeaning cond then_ els := by
  rw [meaning_eq]
  simp only [meaningNode, form]

theorem constValue_literal (form : bodies.expr id = .literal lit) :
    constValue bodies order consts id = constLiteral lit := by
  rw [constValue_eq]
  simp only [constNode, form]

theorem constValue_paren (form : bodies.expr id = .paren inner) :
    constValue bodies order consts id = constValue bodies order consts inner := by
  rw [constValue_eq]
  simp only [constNode, form]

theorem constValue_var (form : bodies.expr id = .var name) :
    constValue bodies order consts id = constVar bodies order consts name := by
  rw [constValue_eq]
  simp only [constNode, form]

theorem constValue_unary (form : bodies.expr id = .unary op operand) :
    constValue bodies order consts id =
      (constValue bodies order consts operand).bind (constUnary op) := by
  rw [constValue_eq]
  simp only [constNode, form]

theorem constValue_binary (form : bodies.expr id = .binary bop lhs rhs) :
    constValue bodies order consts id = (constValue bodies order consts lhs).bind fun l =>
      (constValue bodies order consts rhs).bind fun r => constBinary bop l r := by
  rw [constValue_eq]
  simp only [constNode, form]

theorem constValue_conditional (form : bodies.expr id = .conditional cond then_ els) :
    constValue bodies order consts id =
      match constValue bodies order consts cond with
      | some (.bool b) => (constValue bodies order consts then_).bind fun t =>
          (constValue bodies order consts els).map fun e => if b then t else e
      | _ => none := by
  rw [constValue_eq]
  simp only [constNode, form]

end Forms

/-- The taken operand of a conditional, converted to its type. -/
theorem conditionalMeaning_eq {test then_ els m : Meaning} :
    conditionalMeaning test then_ els = some m ↔ test.1 = .boolean ∧
      ∃ type, conditionalType then_ els = some type ∧
        m = (type, test.2.bind fun test => then_.2.bind fun a => els.2.map fun b =>
          (test.choose a b).convert type) := by
  obtain ⟨sort, value⟩ := test
  cases sort <;> simp [conditionalMeaning, eq_comm]

/-- The value of a constant expression is of its type. -/
theorem meaning_type {type : ConstType} {exact : JavaConst}
    (means : meaning bodies scope id = some (type, some exact)) : exact.type = type := by
  induction id using @operand_induction bodies generalizing type exact with
  | step id ih =>
      cases form : bodies.expr id with
      | literal lit =>
          rw [meaning_literal form] at means
          obtain ⟨constant, -, same⟩ := Option.map_eq_some_iff.mp means
          cases same
          rfl
      | paren inner =>
          rw [meaning_paren form] at means
          exact ih inner (by simp [form, operandsOf]) means
      | var name =>
          rw [meaning_var form] at means
          obtain ⟨constant, -, same⟩ := Option.map_eq_some_iff.mp means
          cases same
          rfl
      | unary op operand =>
          rw [meaning_unary form] at means
          obtain ⟨⟨sort, value⟩, known, rest⟩ := Option.bind_eq_some_iff.mp means
          obtain ⟨type, typed, same⟩ := Option.map_eq_some_iff.mp rest
          obtain ⟨rfl, computed⟩ := Prod.mk.inj same
          obtain ⟨x, rfl, computed⟩ := Option.bind_eq_some_iff.mp computed
          obtain rfl := ih operand (by simp [form, operandsOf]) known
          exact unaryValue_type typed computed
      | binary op lhs rhs =>
          rw [meaning_binary form] at means
          obtain ⟨⟨a, left⟩, known, rest⟩ := Option.bind_eq_some_iff.mp means
          obtain ⟨⟨b, right⟩, known', rest⟩ := Option.bind_eq_some_iff.mp rest
          obtain ⟨type, typed, same⟩ := Option.map_eq_some_iff.mp rest
          obtain ⟨rfl, both⟩ := Prod.mk.inj same
          obtain ⟨x, rfl, one⟩ := Option.bind_eq_some_iff.mp both
          obtain ⟨y, rfl, computed⟩ := Option.bind_eq_some_iff.mp one
          obtain rfl := ih lhs (by simp [form, operandsOf]) known
          obtain rfl := ih rhs (by simp [form, operandsOf]) known'
          exact binaryValue_type typed computed
      | conditional cond then_ els =>
          rw [meaning_conditional form] at means
          obtain ⟨test, known, rest⟩ := Option.bind_eq_some_iff.mp means
          obtain ⟨⟨a, left⟩, known', rest⟩ := Option.bind_eq_some_iff.mp rest
          obtain ⟨⟨b, right⟩, known'', rest⟩ := Option.bind_eq_some_iff.mp rest
          obtain ⟨-, type, typed, same⟩ := conditionalMeaning_eq.mp rest
          obtain ⟨rfl, three⟩ := Prod.mk.inj same
          obtain ⟨t, -, two⟩ := Option.bind_eq_some_iff.mp three.symm
          obtain ⟨x, rfl, one⟩ := Option.bind_eq_some_iff.mp two
          obtain ⟨y, rfl, computed⟩ := Option.map_eq_some_iff.mp one
          obtain rfl := ih then_ (by simp [form, operandsOf]) known'
          obtain rfl := ih els (by simp [form, operandsOf]) known''
          obtain ⟨first, second⟩ := conditionalType_convert typed
          subst computed
          unfold JavaConst.choose
          split
          · exact first
          · exact second
      | cast ty operand =>
          rw [meaning_eq] at means
          simp only [meaningNode, form] at means
          obtain ⟨target, -, rest⟩ := Option.bind_eq_some_iff.mp means
          obtain ⟨⟨sort, value⟩, known, rest⟩ := Option.bind_eq_some_iff.mp rest
          simp only [Option.ite_none_right_eq_some, Option.some.injEq] at rest
          obtain ⟨converts, same⟩ := rest
          obtain ⟨rfl, computed⟩ := Prod.mk.inj same
          obtain ⟨x, rfl, rfl⟩ := Option.map_eq_some_iff.mp computed
          obtain rfl := ih operand (by simp [form, operandsOf]) known
          cases target <;> cases x <;> simp_all [castable, JavaConst.type, JavaConst.convert,
            JavaConst.wrapped]
      | _ => simp [meaning_eq, meaningNode, form] at means

/-! ### What the evaluation comes past -/

theorem foldable_of_operands (noCast : ∀ ty operand, bodies.expr id ≠ .cast ty operand)
    (recorded : ∀ name, bodies.expr id = .var name → (constVar bodies order consts name).isSome)
    (operands : ∀ operand ∈ operandsOf (bodies.expr id), Foldable bodies order consts operand) :
    Foldable bodies order consts id := by
  intro part within
  rcases within.cases_head with rfl | ⟨operand, there, deeper⟩
  · exact ⟨noCast, recorded⟩
  · exact operands operand there part deeper

theorem Foldable.operand (foldable : Foldable bodies order consts id) {operand : ExprId}
    (there : operand ∈ operandsOf (bodies.expr id)) : Foldable bodies order consts operand :=
  fun part within => foldable part (within.head there)

theorem Intermediate.operand {operand : ExprId} (plain : isNegatedLiteral bodies id = false)
    (there : operand ∈ operandsOf (bodies.expr id)) : Intermediate bodies id operand :=
  .single ⟨plain, there⟩

theorem FoldsWithin.intermediate {part : ExprId} (fits : FoldsWithin bodies scope order consts id)
    (past : Intermediate bodies id part) : FoldsWithin bodies scope order consts part :=
  fun deeper further => fits deeper (past.trans further)

theorem FoldsLikeJava.intermediate {part : ExprId}
    (folds : FoldsLikeJava bodies scope order consts id) (past : Intermediate bodies id part) :
    FoldsLikeJava bodies scope order consts part :=
  ⟨fun deeper constant further => folds.value deeper constant (past.trans further),
    fun deeper v further => folds.intRange deeper v (past.trans further),
    fun deeper type further => folds.zeroDivision deeper type (past.trans further)⟩

/-- A minus sign over a literal. -/
theorem isNegatedLiteral_iff : isNegatedLiteral bodies id = true ↔
    ∃ operand lit, bodies.expr id = .unary .minus operand ∧ bodies.expr operand = .literal lit := by
  unfold isNegatedLiteral
  constructor
  · intro negated
    split at negated
    · rename_i operand form
      split at negated
      · rename_i lit literal
        exact ⟨operand, lit, form, literal⟩
      · cases negated
    · cases negated
  · rintro ⟨operand, lit, form, literal⟩
    simp [form, literal]

/-- The evaluated constant is the value of the expression. -/
def IsExactly (bodies : BodyTree) (scope : Name → Option JavaConst) (id : ExprId)
    (constant : Const) : Prop :=
  ∃ exact : JavaConst, meaning bodies scope id = some (exact.type, some exact) ∧
    Encodes constant exact

theorem isExactly_of_rel {constant : Const} {type : ConstType} {value : Option JavaConst}
    (means : meaning bodies scope id = some (type, value))
    (agree : Option.Rel Encodes (some constant) value) : IsExactly bodies scope id constant := by
  cases agree with
  | some encodes =>
      rename_i exact
      refine ⟨exact, ?_, encodes⟩
      rw [means, meaning_type means]

theorem fitsHere_literal {lit : Literal} (form : bodies.expr id = .literal lit) :
    FitsHere bodies scope order consts id ↔
      ∀ value, lit = .int value → IntegralType.int.Holds (IntegralType.long.wrap value) := by
  cases lit <;> simp [FitsHere, form]

/-- The evaluation of an expression evaluates every operand, and knows its names. -/
theorem constValue_operand {constant : Const}
    (evaluates : constValue bodies order consts id = some constant) :
    (∀ operand ∈ operandsOf (bodies.expr id),
      ∃ c, constValue bodies order consts operand = some c) ∧
    (∀ ty operand, bodies.expr id ≠ .cast ty operand) ∧
    ∀ name, bodies.expr id = .var name → (constVar bodies order consts name).isSome := by
  cases form : bodies.expr id with
  | literal lit => simp [operandsOf]
  | paren inner =>
      rw [constValue_paren form] at evaluates
      simp [operandsOf, evaluates]
  | var name =>
      rw [constValue_var form] at evaluates
      simp [operandsOf, evaluates]
  | unary op operand =>
      rw [constValue_unary form] at evaluates
      obtain ⟨c, known, -⟩ := Option.bind_eq_some_iff.mp evaluates
      simp [operandsOf, known]
  | binary op lhs rhs =>
      rw [constValue_binary form] at evaluates
      obtain ⟨l, known, rest⟩ := Option.bind_eq_some_iff.mp evaluates
      obtain ⟨r, known', -⟩ := Option.bind_eq_some_iff.mp rest
      simp [operandsOf, known, known']
  | conditional cond then_ els =>
      rw [constValue_conditional form] at evaluates
      split at evaluates
      · rename_i b known
        obtain ⟨t, known', rest⟩ := Option.bind_eq_some_iff.mp evaluates
        obtain ⟨e, known'', -⟩ := Option.map_eq_some_iff.mp rest
        simp [operandsOf, known, known', known'']
      · cases evaluates
  | _ =>
      rw [constValue_eq] at evaluates
      simp [constNode, form] at evaluates

theorem constLiteral_of_javaLiteral {lit : Literal} {exact : JavaConst}
    (java : javaLiteral lit = some exact) : ∃ constant, constLiteral lit = some constant := by
  cases lit <;> first | exact ⟨_, rfl⟩ | cases java

theorem rel_some_right {code : Option Const} {exact : JavaConst}
    (agree : Option.Rel Encodes code (some exact)) :
    ∃ constant, code = some constant ∧ Encodes constant exact := by
  cases agree with
  | some encodes => exact ⟨_, rfl, encodes⟩

/-- An expression without casts that has a value is evaluated when its operands are. -/
theorem isSome_of_operands (foldable : Foldable bodies order consts id) {type : ConstType}
    {exact : JavaConst} (means : meaning bodies scope id = some (type, some exact))
    (inner : ∀ {operand : ExprId}, operand ∈ operandsOf (bodies.expr id) →
      ∀ {type : ConstType} {x : JavaConst}, meaning bodies scope operand = some (type, some x) →
        ∃ c, constValue bodies order consts operand = some c ∧ Encodes c x) :
    ∃ constant, constValue bodies order consts id = some constant := by
  obtain ⟨noCast, recorded⟩ := foldable id .refl
  cases form : bodies.expr id with
  | literal lit =>
      rw [meaning_literal form] at means
      obtain ⟨java, known, -⟩ := Option.map_eq_some_iff.mp means
      rw [constValue_literal form]
      exact constLiteral_of_javaLiteral known
  | paren inside =>
      rw [meaning_paren form] at means
      obtain ⟨c, returns, -⟩ := inner (by simp [form, operandsOf]) means
      exact ⟨c, by rw [constValue_paren form, returns]⟩
  | var name =>
      rw [constValue_var form]
      exact Option.isSome_iff_exists.mp (recorded name form)
  | unary op operand =>
      rw [meaning_unary form] at means
      obtain ⟨⟨sort, value⟩, known, rest⟩ := Option.bind_eq_some_iff.mp means
      obtain ⟨result, typed, same⟩ := Option.map_eq_some_iff.mp rest
      obtain ⟨-, computed⟩ := Prod.mk.inj same
      obtain ⟨x, rfl, computed⟩ := Option.bind_eq_some_iff.mp computed
      obtain ⟨c, returns, encodes⟩ := inner (by simp [form, operandsOf]) known
      obtain rfl := meaning_type known
      rw [Option.bind_some] at computed
      obtain ⟨constant, applied, -⟩ := rel_some_right (computed ▸ unary_agrees encodes typed)
      exact ⟨constant, by rw [constValue_unary form, returns, Option.bind_some, applied]⟩
  | binary op lhs rhs =>
      rw [meaning_binary form] at means
      obtain ⟨⟨a, left⟩, known, rest⟩ := Option.bind_eq_some_iff.mp means
      obtain ⟨⟨b, right⟩, known', rest⟩ := Option.bind_eq_some_iff.mp rest
      obtain ⟨result, typed, same⟩ := Option.map_eq_some_iff.mp rest
      obtain ⟨-, both⟩ := Prod.mk.inj same
      obtain ⟨x, rfl, one⟩ := Option.bind_eq_some_iff.mp both
      obtain ⟨y, rfl, computed⟩ := Option.bind_eq_some_iff.mp one
      obtain ⟨l, returns, encodes⟩ := inner (by simp [form, operandsOf]) known
      obtain ⟨r, returns', encodes'⟩ := inner (by simp [form, operandsOf]) known'
      obtain rfl := meaning_type known
      obtain rfl := meaning_type known'
      have applied := binary_isSome encodes encodes' typed
      rw [computed, Option.isSome_some, Option.isSome_iff_exists] at applied
      obtain ⟨constant, applied⟩ := applied
      refine ⟨constant, ?_⟩
      rw [constValue_binary form, returns, returns', Option.bind_some, Option.bind_some, applied]
  | conditional cond then_ els =>
      rw [meaning_conditional form] at means
      obtain ⟨⟨sort, test⟩, known, rest⟩ := Option.bind_eq_some_iff.mp means
      obtain ⟨⟨a, left⟩, known', rest⟩ := Option.bind_eq_some_iff.mp rest
      obtain ⟨⟨b, right⟩, known'', rest⟩ := Option.bind_eq_some_iff.mp rest
      obtain ⟨boolean, result, typed, same⟩ := conditionalMeaning_eq.mp rest
      obtain ⟨-, three⟩ := Prod.mk.inj same
      obtain ⟨z, rfl, two⟩ := Option.bind_eq_some_iff.mp three.symm
      obtain ⟨x, rfl, one⟩ := Option.bind_eq_some_iff.mp two
      obtain ⟨y, rfl, -⟩ := Option.map_eq_some_iff.mp one
      obtain ⟨c, returns, decides⟩ := inner (by simp [form, operandsOf]) known
      obtain ⟨t, returns', -⟩ := inner (by simp [form, operandsOf]) known'
      obtain ⟨e, returns'', -⟩ := inner (by simp [form, operandsOf]) known''
      have sorted := meaning_type known
      cases z with
      | boolean flag =>
          cases c with
          | bool b =>
              refine ⟨if b then t else e, ?_⟩
              rw [constValue_conditional form, returns, returns', returns'']
              rfl
          | _ => exact decides.elim
      | _ => simp [JavaConst.type, ← sorted] at boolean
  | cast ty operand => exact absurd form (noCast ty operand)
  | _ => simp [meaning_eq, meaningNode, form] at means

/-- The operator of an expression over exact operands that fits is exact. -/
theorem exact_of_operands (here : FitsHere bodies scope order consts id) {m : Meaning}
    (means : meaning bodies scope id = some m) {constant : Const}
    (evaluates : constValue bodies order consts id = some constant)
    (inner : ∀ operand ∈ operandsOf (bodies.expr id), ∀ c,
      constValue bodies order consts operand = some c → IsExactly bodies scope operand c) :
    IsExactly bodies scope id constant := by
  cases form : bodies.expr id with
  | literal lit =>
      rw [constValue_literal form] at evaluates
      rw [meaning_literal form] at means
      obtain ⟨exact, java, -⟩ := Option.map_eq_some_iff.mp means
      refine ⟨exact, by rw [meaning_literal form, java]; rfl, ?_⟩
      exact (literal_agrees_iff evaluates java).mpr ((fitsHere_literal form).mp here)
  | paren inside =>
      rw [constValue_paren form] at evaluates
      obtain ⟨exact, known, encodes⟩ := inner inside (by simp [form, operandsOf]) constant evaluates
      exact ⟨exact, by rw [meaning_paren form, known], encodes⟩
  | var name =>
      rw [constValue_var form] at evaluates
      rw [meaning_var form] at means
      obtain ⟨exact, known, -⟩ := Option.map_eq_some_iff.mp means
      refine ⟨exact, by rw [meaning_var form, known]; rfl, ?_⟩
      simp only [FitsHere, form] at here
      exact here constant exact evaluates known
  | unary op operand =>
      rw [constValue_unary form] at evaluates
      obtain ⟨c, returns, applied⟩ := Option.bind_eq_some_iff.mp evaluates
      obtain ⟨x, known, encodes⟩ := inner operand (by simp [form, operandsOf]) c returns
      have whole := @meaning_unary _ scope _ _ _ form
      rw [means, known] at whole
      obtain ⟨type, typed, rfl⟩ := Option.map_eq_some_iff.mp whole.symm
      exact isExactly_of_rel means (applied ▸ unary_agrees encodes typed)
  | binary op lhs rhs =>
      rw [constValue_binary form] at evaluates
      obtain ⟨l, returns, rest⟩ := Option.bind_eq_some_iff.mp evaluates
      obtain ⟨r, returns', applied⟩ := Option.bind_eq_some_iff.mp rest
      obtain ⟨x, known, encodes⟩ := inner lhs (by simp [form, operandsOf]) l returns
      obtain ⟨y, known', encodes'⟩ := inner rhs (by simp [form, operandsOf]) r returns'
      have whole := @meaning_binary _ scope _ _ _ _ form
      rw [means, known, known'] at whole
      obtain ⟨type, typed, rfl⟩ := Option.map_eq_some_iff.mp whole.symm
      apply isExactly_of_rel means
      rw [← applied]
      apply binary_agrees encodes encodes' typed
      · rintro rfl a n held b m held' rfl rfl
        simp only [FitsHere, form] at here
        exact here a n held b m held' known known'
      · rintro rfl
        simp only [FitsHere, form] at here
        exact here x y known known'
  | conditional cond then_ els =>
      rw [constValue_conditional form] at evaluates
      split at evaluates
      · rename_i test returns
        obtain ⟨t, returns', rest⟩ := Option.bind_eq_some_iff.mp evaluates
        obtain ⟨e, returns'', taken⟩ := Option.map_eq_some_iff.mp rest
        obtain ⟨z, known, decides⟩ := inner cond (by simp [form, operandsOf]) _ returns
        obtain ⟨x, known', encodes⟩ := inner then_ (by simp [form, operandsOf]) t returns'
        obtain ⟨y, known'', encodes'⟩ := inner els (by simp [form, operandsOf]) e returns''
        have whole := @meaning_conditional _ scope _ _ _ _ form
        rw [means, known, known', known''] at whole
        obtain ⟨-, type, typed, rfl⟩ := conditionalMeaning_eq.mp whole.symm
        cases z with
        | boolean b =>
            obtain rfl : test = b := decides
            have chosen : JavaConst.choose (.boolean test) x y = if test then x else y := by
              cases test <;> rfl
            have agree : Encodes constant (if test then x else y) := by
              rw [← taken]
              cases test
              · exact encodes'
              · exact encodes
            apply isExactly_of_rel means
            apply Option.Rel.some
            change Encodes constant ((JavaConst.choose (.boolean test) x y).convert type)
            rw [chosen]
            apply (convert_agrees typed agree).mpr
            rintro rfl
            simp only [FitsHere, form] at here
            exact here _ test x y means known known' known''
        | _ => exact decides.elim
      · cases evaluates
  | _ =>
      rw [constValue_eq] at evaluates
      simp [constNode, form] at evaluates

/-- What is evaluated is built without casts, from literals and recorded names. -/
theorem foldable_of_evaluated {constant : Const}
    (evaluates : constValue bodies order consts id = some constant) :
    Foldable bodies order consts id := by
  induction id using @operand_induction bodies generalizing constant with
  | step id ih =>
      obtain ⟨operands, noCast, recorded⟩ := constValue_operand evaluates
      apply foldable_of_operands noCast recorded
      intro operand there
      obtain ⟨c, returns⟩ := operands operand there
      exact ih operand there returns

/-- Where everything fits, what the evaluation returns is the value of the language. -/
theorem folds_exactly (fits : FoldsWithin bodies scope order consts id) {m : Meaning}
    (means : meaning bodies scope id = some m) {constant : Const}
    (evaluates : constValue bodies order consts id = some constant) :
    IsExactly bodies scope id constant := by
  induction id using @operand_induction bodies generalizing m constant with
  | step id ih =>
      by_cases negated : isNegatedLiteral bodies id
      · obtain ⟨operand, lit, form, literal⟩ := isNegatedLiteral_iff.mp negated
        rw [constValue_unary form, constValue_literal literal] at evaluates
        obtain ⟨digits, code, negates⟩ := Option.bind_eq_some_iff.mp evaluates
        have known := @meaning_unary _ scope _ _ _ form
        rw [means, meaning_literal literal] at known
        obtain ⟨⟨sort, value⟩, exact_, rest⟩ := Option.bind_eq_some_iff.mp known.symm
        obtain ⟨exact, java, same⟩ := Option.map_eq_some_iff.mp exact_
        cases same
        obtain ⟨type, typed, rfl⟩ := Option.map_eq_some_iff.mp rest
        exact isExactly_of_rel means (negates ▸ negated_agrees code java typed)
      · have plain : isNegatedLiteral bodies id = false := by simpa using negated
        apply exact_of_operands (fits id .refl (foldable_of_evaluated evaluates)) means evaluates
        intro operand there c returns
        obtain ⟨m', known⟩ := meaning_operand means operand there
        exact ih operand there (fits.intermediate (.operand plain there)) known returns

/-- Where every value is the one of the language, an expression without casts that has one is
evaluated. -/
theorem folds_completely (folds : FoldsLikeJava bodies scope order consts id)
    (foldable : Foldable bodies order consts id) {type : ConstType} {exact : JavaConst}
    (means : meaning bodies scope id = some (type, some exact)) :
    ∃ constant, constValue bodies order consts id = some constant ∧ Encodes constant exact := by
  induction id using @operand_induction bodies generalizing type exact with
  | step id ih =>
      by_cases negated : isNegatedLiteral bodies id
      · obtain ⟨operand, lit, form, literal⟩ := isNegatedLiteral_iff.mp negated
        have known := @meaning_unary _ scope _ _ _ form
        rw [means, meaning_literal literal] at known
        obtain ⟨⟨sort, value⟩, exact_, rest⟩ := Option.bind_eq_some_iff.mp known.symm
        obtain ⟨digits, java, same⟩ := Option.map_eq_some_iff.mp exact_
        cases same
        obtain ⟨type, typed, same⟩ := Option.map_eq_some_iff.mp rest
        obtain ⟨-, negates⟩ := Prod.mk.inj same
        obtain ⟨constant, code⟩ := constLiteral_of_javaLiteral java
        have agree := negated_agrees code java typed
        rw [Option.bind_some] at negates
        rw [constValue_unary form, constValue_literal literal, code, Option.bind_some]
        exact rel_some_right (negates ▸ agree)
      · have plain : isNegatedLiteral bodies id = false := by simpa using negated
        have inner {operand : ExprId} (there : operand ∈ operandsOf (bodies.expr id))
            {type : ConstType} {x : JavaConst}
            (known : meaning bodies scope operand = some (type, some x)) :
            ∃ c, constValue bodies order consts operand = some c ∧ Encodes c x :=
          ih operand there (folds.intermediate (.operand plain there)) (foldable.operand there) known
        obtain ⟨constant, returns⟩ := isSome_of_operands foldable means inner
        obtain ⟨exact', known, encodes⟩ := folds.value id constant .refl returns
        rw [means] at known
        cases known
        exact ⟨constant, returns, encodes⟩

/-- What the evaluation returns is the value of the language. -/
theorem FoldsLikeJava.exactly (folds : FoldsLikeJava bodies scope order consts id)
    {constant : Const} {type : ConstType} {value : Option JavaConst}
    (returns : constValue bodies order consts id = some constant)
    (means : meaning bodies scope id = some (type, value)) :
    Option.Rel Encodes (some constant) value := by
  obtain ⟨exact, known, encodes⟩ := folds.value id constant .refl returns
  rw [means] at known
  cases known
  exact .some encodes

/-- The operands of an operator are evaluated, and what it makes of them is the value of the
language. -/
theorem FoldsLikeJava.binary (folds : FoldsLikeJava bodies scope order consts id)
    (foldable : Foldable bodies order consts id) {op : BinaryOp} {lhs rhs : ExprId}
    (form : bodies.expr id = .binary op lhs rhs) (x y : JavaConst)
    (known : meaning bodies scope lhs = some (x.type, some x))
    (known' : meaning bodies scope rhs = some (y.type, some y)) :
    ∃ c d, Encodes c x ∧ Encodes d y ∧ ∀ type, binaryType op x.type y.type = some type →
      ∀ constant, constBinary op c d = some constant →
        Option.Rel Encodes (some constant) (binaryValue op x y) := by
  have plain : isNegatedLiteral bodies id = false := by simp [isNegatedLiteral, form]
  have left : lhs ∈ operandsOf (bodies.expr id) := by simp [form, operandsOf]
  have right : rhs ∈ operandsOf (bodies.expr id) := by simp [form, operandsOf]
  obtain ⟨c, returns, encodes⟩ :=
    folds_completely (folds.intermediate (.operand plain left)) (foldable.operand left) known
  obtain ⟨d, returns', encodes'⟩ :=
    folds_completely (folds.intermediate (.operand plain right)) (foldable.operand right) known'
  refine ⟨c, d, encodes, encodes', ?_⟩
  intro type typed constant applied
  have evaluates := @constValue_binary _ order consts _ _ _ _ form
  have whole := @meaning_binary _ scope _ _ _ _ form
  rw [returns, returns', Option.bind_some, Option.bind_some, applied] at evaluates
  simp only [known, known', Option.bind_some, typed, Option.map_some] at whole
  exact folds.exactly evaluates whole

theorem fits_shl (folds : FoldsLikeJava bodies scope order consts id)
    (foldable : Foldable bodies order consts id) {lhs rhs : ExprId}
    (form : bodies.expr id = .binary .shl lhs rhs) : FitsHere bodies scope order consts id := by
  simp only [FitsHere, form]
  intro a n held b m held' known known' narrow
  obtain ⟨c, d, encodes, encodes', exactly⟩ := folds.binary foldable form
    (.integral a n held) (.integral b m held') known known'
  cases c with
  | int l isLong =>
      cases d with
      | int r isLong' =>
          obtain ⟨rfl, rfl⟩ := encodes
          obtain ⟨rfl, rfl⟩ := encodes'
          exact (shl_agrees_iff (b := b) held).mp (exactly _ rfl _ rfl) narrow
      | _ => exact encodes'.elim
  | _ => exact encodes.elim

theorem fits_add (folds : FoldsLikeJava bodies scope order consts id)
    (foldable : Foldable bodies order consts id) {lhs rhs : ExprId}
    (form : bodies.expr id = .binary .add lhs rhs) : FitsHere bodies scope order consts id := by
  simp only [FitsHere, form]
  intro x y known known'
  obtain ⟨c, d, encodes, encodes', exactly⟩ := folds.binary foldable form x y known known'
  have concatenated (string : x.type = .string ∨ y.type = .string) :
      c.text.flatMap utf16 ++ d.text.flatMap utf16 = x.text ++ y.text := by
    obtain ⟨code, java⟩ := constBinary_concat encodes encodes' string
    have typed : binaryType .add x.type y.type = some .string := by
      rcases string with string | string <;> rw [string]
      · rfl
      · cases x.type <;> rfl
    have agree := exactly _ typed _ code
    rw [java] at agree
    cases agree with
    | some same => rw [← List.flatMap_append]; exact same
  have noChar (string : x.type = .string ∨ y.type = .string) :
      x.type ≠ .integral .char ∧ y.type ≠ .integral .char :=
    ((text_drifts encodes).append (text_drifts encodes')).agree_iff.mp (concatenated string)
  exact ⟨fun string => (noChar (.inl string)).2, fun string => (noChar (.inr string)).1⟩

theorem fits_conditional (folds : FoldsLikeJava bodies scope order consts id)
    (foldable : Foldable bodies order consts id) {cond then_ els : ExprId}
    (form : bodies.expr id = .conditional cond then_ els) :
    FitsHere bodies scope order consts id := by
  simp only [FitsHere, form]
  intro exact_ test x y means known known' known''
  have plain : isNegatedLiteral bodies id = false := by simp [isNegatedLiteral, form]
  have inner {operand : ExprId} (there : operand ∈ operandsOf (bodies.expr id)) {type : ConstType}
      {x : JavaConst} (known : meaning bodies scope operand = some (type, some x)) :
      ∃ c, constValue bodies order consts operand = some c ∧ Encodes c x :=
    folds_completely (folds.intermediate (.operand plain there)) (foldable.operand there) known
  obtain ⟨c, returns, decides⟩ := inner (by simp [form, operandsOf]) known
  obtain ⟨t, returns', encodes⟩ := inner (by simp [form, operandsOf]) known'
  obtain ⟨e, returns'', encodes'⟩ := inner (by simp [form, operandsOf]) known''
  cases c with
  | bool b =>
      obtain rfl : b = test := decides
      have evaluates := @constValue_conditional _ order consts _ _ _ _ form
      rw [returns, returns', returns''] at evaluates
      have whole := @meaning_conditional _ scope _ _ _ _ form
      simp only [means, known, known', known'', Option.bind_some] at whole
      obtain ⟨-, type, typed, same⟩ := conditionalMeaning_eq.mp whole.symm
      obtain ⟨rfl, computed⟩ := Prod.mk.inj same
      have chosen : JavaConst.choose (.boolean b) x y = if b then x else y := by
        cases b <;> rfl
      have agree : Encodes (if b then t else e) (if b then x else y) := by
        cases b
        · exact encodes'
        · exact encodes
      have taken : exact_ = (JavaConst.choose (.boolean b) x y).convert (.integral .long) :=
        Option.some.inj computed
      have encoded : Encodes (if b then t else e) exact_ := by
        cases folds.exactly evaluates means with
        | some encodes => exact encodes
      rw [taken, chosen] at encoded
      exact (convert_agrees typed agree).mp encoded rfl
  | _ => exact decides.elim

/-- Where every value is the one of the language, everything that is evaluated fits. -/
theorem fits_of_folds (folds : FoldsLikeJava bodies scope order consts id)
    (foldable : Foldable bodies order consts id) {m : Meaning}
    (means : meaning bodies scope id = some m) : FitsHere bodies scope order consts id := by
  cases form : bodies.expr id with
  | literal lit =>
      rw [meaning_literal form] at means
      obtain ⟨exact_, java, same⟩ := Option.map_eq_some_iff.mp means
      obtain ⟨constant, code⟩ := constLiteral_of_javaLiteral java
      have known : meaning bodies scope id = some (exact_.type, some exact_) := by
        rw [meaning_literal form, java]
        rfl
      apply (fitsHere_literal form).mpr
      cases folds.exactly (by rw [constValue_literal form, code]) known with
      | some encodes => exact (literal_agrees_iff code java).mp encodes
  | var name =>
      simp only [FitsHere, form]
      intro constant exact_ recorded named
      have known : meaning bodies scope id = some (exact_.type, some exact_) := by
        rw [meaning_var form, named]
        rfl
      cases folds.exactly (by rw [constValue_var form, recorded]) known with
      | some encodes => exact encodes
  | binary op lhs rhs =>
      cases op with
      | shl => exact fits_shl folds foldable form
      | add => exact fits_add folds foldable form
      | _ => simp only [FitsHere, form]
  | conditional cond then_ els => exact fits_conditional folds foldable form
  | _ => simp only [FitsHere, form]

/-- A number that is not a `long` is a 32-bit number. -/
theorem holds_int {type : IntegralType} {n : Int} (held : type.Holds n) (short : type ≠ .long) :
    IntegralType.int.Holds n := by
  cases type <;> simp only [Holds, lowest, bits, ne_eq, not_true] at held short ⊢ <;> omega

/-- The operands that an evaluation comes past are constant expressions. -/
theorem meaning_intermediate {part : ExprId} {m : Meaning} (past : Intermediate bodies id part)
    (means : meaning bodies scope id = some m) : ∃ m', meaning bodies scope part = some m' := by
  induction past with
  | refl => exact ⟨m, means⟩
  | tail _ step ih =>
      obtain ⟨m', known⟩ := ih
      exact meaning_operand known _ step.2

/-- Where every value is the one of the language, everything fits. -/
theorem foldsWithin_of_folds {m : Meaning} (means : meaning bodies scope id = some m)
    (folds : FoldsLikeJava bodies scope order consts id) :
    FoldsWithin bodies scope order consts id := by
  intro part past foldable
  obtain ⟨m', known⟩ := meaning_intermediate past means
  exact fits_of_folds (folds.intermediate past) foldable known

/-- Where everything fits, every value is the one of the language. -/
theorem folds_of_foldsWithin {m : Meaning} (means : meaning bodies scope id = some m)
    (fits : FoldsWithin bodies scope order consts id) :
    FoldsLikeJava bodies scope order consts id := by
  have exactly {part : ExprId} {constant : Const} (past : Intermediate bodies id part)
      (returns : constValue bodies order consts part = some constant) :
      IsExactly bodies scope part constant := by
    obtain ⟨m', known⟩ := meaning_intermediate past means
    exact folds_exactly (fits.intermediate past) known returns
  constructor
  · intro part constant past returns
    exact exactly past returns
  · intro part v past returns
    obtain ⟨exact_, -, encodes⟩ := exactly past returns
    cases exact_ with
    | integral type n held =>
        obtain ⟨rfl, width⟩ := encodes
        exact holds_int held (by simpa using width)
    | _ => exact encodes.elim
  · intro part type past known
    cases returns : constValue bodies order consts part with
    | none => rfl
    | some constant =>
        obtain ⟨exact_, known', -⟩ := exactly past returns
        rw [known] at known'
        cases known'

/-- The evaluation of a constant expression is the one of the language exactly where everything that
it comes past fits. -/
theorem foldsLikeJava_iff (bodies : BodyTree) (scope : Name → Option JavaConst)
    (order : ConstLocals → ConstLocals) (consts : ConstLocals) (id : ExprId) (m : Meaning)
    (means : meaning bodies scope id = some m) :
    FoldsLikeJava bodies scope order consts id ↔ FoldsWithin bodies scope order consts id :=
  ⟨foldsWithin_of_folds means, folds_of_foldsWithin means⟩

theorem foldsWithin_of_operands (here : FitsHere bodies scope order consts id)
    (operands : ∀ operand ∈ operandsOf (bodies.expr id),
      FoldsWithin bodies scope order consts operand) :
    FoldsWithin bodies scope order consts id := by
  intro part past foldable
  rcases past.cases_head with rfl | ⟨operand, there, deeper⟩
  · exact here
  · exact operands operand there.2 part deeper foldable

end

/-- The expressions of `2147483647 + 1`. -/
def overflowBodies : BodyTree :=
  .ofExprs [.literal (.int 2147483647), .literal (.int 1), .binary .add ⟨0⟩ ⟨1⟩] [] [] rfl BodyTree.simple_nil

/-- The sum wraps to the lowest `int`. -/
theorem overflow_folds :
    FoldsLikeJava overflowBodies (fun _ => none) id [] ⟨2⟩ ∧
      constValue overflowBodies id [] ⟨2⟩ = some (.int (-2147483648) false) := by
  constructor
  · apply (foldsLikeJava_iff overflowBodies (fun _ => none) id [] ⟨2⟩ _ rfl).mpr
    apply foldsWithin_of_operands
    · intro left right known known'
      have sort : ConstType.integral .int = left.type := congrArg Prod.fst (Option.some.inj known)
      have sort' : ConstType.integral .int = right.type := congrArg Prod.fst (Option.some.inj known')
      rw [← sort, ← sort']
      exact ⟨nofun, nofun⟩
    · intro operand there
      rcases List.mem_pair.mp there with rfl | rfl
      · exact foldsWithin_of_operands (by decide : IntegralType.int.Holds _) nofun
      · exact foldsWithin_of_operands (by decide : IntegralType.int.Holds _) nofun
  · rfl

/-- The expressions of `1 << 31`. -/
def shiftedBodies : BodyTree :=
  .ofExprs [.literal (.int 1), .literal (.int 31), .binary .shl ⟨0⟩ ⟨1⟩] [] [] rfl BodyTree.simple_nil

/-- `1 << 31` is an `int` beyond 32 bits. -/
theorem shift_leaves_int : ¬ ∀ bodies scope order consts id m,
    meaning bodies scope id = some m → FoldsLikeJava bodies scope order consts id := by
  intro always
  have folds := always shiftedBodies (fun _ => none) id [] ⟨2⟩ _ rfl
  have returns : constValue shiftedBodies id [] ⟨2⟩ = some (.int 0x80000000 false) := by
    rfl
  exact absurd (folds.intRange ⟨2⟩ _ .refl returns) (by decide)

end CaffeineLs.HirTy
