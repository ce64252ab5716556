/-
Module: CaffeineLs.Proofs.StringConcatenation
Purpose: A concatenation of constants is the one of the language exactly when no operand is a `char`.
Trusted boundary: none
Main exports: Drifts, concatenation_drifts, concatenatesLikeJava_iff
-/
import CaffeineLs.Proofs.ConstantFolding

namespace CaffeineLs.HirTy

open HirExpand

section

variable {bodies : BodyTree} {scope : Name → Option JavaConst}
  {order : ConstLocals → ConstLocals} {consts : ConstLocals} {id : ExprId}

/-! ### Operands of other types -/

theorem unaryType_ne_string {op : UnaryOp} {type result : ConstType}
    (typed : unaryType op type = some result) : type ≠ .string := by
  rintro rfl
  cases op <;> cases typed

theorem binaryType_ne_string {op : BinaryOp} {a b result : ConstType}
    (typed : binaryType op a b = some result) (other : result ≠ .string) :
    a ≠ .string ∧ b ≠ .string := by
  constructor
  · rintro rfl
    cases op <;> simp only [binaryType, Option.some.injEq, reduceCtorEq] at typed
    exact other typed.symm
  · rintro rfl
    cases op <;> cases a <;>
      simp only [binaryType, Option.some.injEq, reduceCtorEq] at typed <;> exact other typed.symm

theorem binaryType_string {a b : ConstType} (typed : binaryType .add a b = some .string) :
    a = .string ∨ b = .string := by
  cases a <;> cases b <;> simp_all [binaryType, integralType]

theorem conditionalType_ne_string {a b : Meaning} {result : ConstType}
    (typed : conditionalType a b = some result) (other : result ≠ .string) :
    a.1 ≠ .string ∧ b.1 ≠ .string := by
  obtain ⟨a, left⟩ := a
  obtain ⟨b, right⟩ := b
  cases a <;> cases b <;>
    simp only [conditionalType, reduceCtorEq, Option.some.injEq, ne_eq, not_false_iff, and_self]
      at typed ⊢
  exact absurd typed.symm other

/-- An expression that is no string has no operands that are. -/
theorem operand_ne_string {m : Meaning} (means : meaning bodies scope id = some m)
    (other : m.1 ≠ .string) {operand : ExprId} (there : operand ∈ operandsOf (bodies.expr id))
    {m' : Meaning} (known : meaning bodies scope operand = some m') : m'.1 ≠ .string := by
  cases form : bodies.expr id with
  | paren inner =>
      obtain rfl : operand = inner := by simpa [form, operandsOf] using there
      rw [meaning_paren form, known] at means
      cases means
      exact other
  | unary op inner =>
      obtain rfl : operand = inner := by simpa [form, operandsOf] using there
      rw [meaning_unary form, known] at means
      obtain ⟨type, typed, -⟩ := Option.map_eq_some_iff.mp means
      exact unaryType_ne_string typed
  | binary op lhs rhs =>
      rw [meaning_binary form] at means
      obtain ⟨a, left, rest⟩ := Option.bind_eq_some_iff.mp means
      obtain ⟨b, right, rest⟩ := Option.bind_eq_some_iff.mp rest
      obtain ⟨type, typed, rfl⟩ := Option.map_eq_some_iff.mp rest
      obtain ⟨first, second⟩ := binaryType_ne_string typed other
      rw [form] at there
      rcases List.mem_pair.mp there with rfl | rfl
      · rw [left] at known
        cases known
        exact first
      · rw [right] at known
        cases known
        exact second
  | conditional cond then_ els =>
      rw [meaning_conditional form] at means
      obtain ⟨test, first, rest⟩ := Option.bind_eq_some_iff.mp means
      obtain ⟨a, left, rest⟩ := Option.bind_eq_some_iff.mp rest
      obtain ⟨b, right, rest⟩ := Option.bind_eq_some_iff.mp rest
      obtain ⟨boolean, type, typed, rfl⟩ := conditionalMeaning_eq.mp rest
      obtain ⟨second, third⟩ := conditionalType_ne_string typed other
      simp only [form, operandsOf, List.mem_cons, List.not_mem_nil, or_false] at there
      rcases there with rfl | rfl | rfl
      · rw [first] at known
        cases known
        simp [boolean]
      · rw [left] at known
        cases known
        exact second
      · rw [right] at known
        cases known
        exact third
  | cast ty inner =>
      obtain rfl : operand = inner := by simpa [form, operandsOf] using there
      rw [meaning_eq] at means
      simp only [meaningNode, form, known] at means
      obtain ⟨target, -, rest⟩ := Option.bind_eq_some_iff.mp means
      simp only [Option.bind_some, Option.ite_none_right_eq_some, Option.some.injEq] at rest
      obtain ⟨converts, rfl⟩ := rest
      intro string
      rw [string] at converts
      cases target <;> simp_all [castable]
  | _ => simp [form, operandsOf] at there

theorem within_ne_string {m : Meaning} (means : meaning bodies scope id = some m)
    (other : m.1 ≠ .string) {part : ExprId} (within : Within bodies id part) :
    ∃ m', meaning bodies scope part = some m' ∧ m'.1 ≠ .string := by
  induction within with
  | refl => exact ⟨m, means, other⟩
  | tail _ there ih =>
      obtain ⟨m', known, other'⟩ := ih
      obtain ⟨m'', known'⟩ := meaning_operand known _ there
      exact ⟨m'', known', operand_ne_string known other' there known'⟩

theorem Intermediate.within {part : ExprId} (past : Intermediate bodies id part) :
    Within bodies id part :=
  Relation.ReflTransGen.mono (fun _ _ step => step.2) _ _ past

/-- The operands of an expression that is no string are none. -/
theorem add_ne_string {m : Meaning} (means : meaning bodies scope id = some m)
    (other : m.1 ≠ .string) {part lhs rhs : ExprId} (within : Within bodies id part)
    (form : bodies.expr part = .binary .add lhs rhs) {a b : Meaning}
    (known : meaning bodies scope lhs = some a) (known' : meaning bodies scope rhs = some b) :
    a.1 ≠ .string ∧ b.1 ≠ .string := by
  obtain ⟨m', here, other'⟩ := within_ne_string means other within
  exact ⟨operand_ne_string here other' (by simp [form, operandsOf]) known,
    operand_ne_string here other' (by simp [form, operandsOf]) known'⟩

theorem noChar_of_ne_string {m : Meaning} (means : meaning bodies scope id = some m)
    (other : m.1 ≠ .string) : NoCharOperand bodies scope id := by
  intro part lhs rhs a b within form known known'
  obtain ⟨left, right⟩ := add_ne_string means other within form known known'
  exact ⟨fun string => absurd string left, fun string => absurd string right⟩

/-- An operand that is no string is evaluated like the language says. -/
theorem foldsWithin_of_ne_string (fits : OperandsFit bodies scope order consts id) {m : Meaning}
    (means : meaning bodies scope id = some m) (other : m.1 ≠ .string) :
    FoldsWithin bodies scope order consts id := by
  intro part past _
  by_cases sum : ∃ lhs rhs, bodies.expr part = .binary .add lhs rhs
  · obtain ⟨lhs, rhs, form⟩ := sum
    simp only [FitsHere, form]
    intro left right known known'
    obtain ⟨first, second⟩ := add_ne_string means other past.within form known known'
    exact ⟨fun string => absurd string first, fun string => absurd string second⟩
  · simp only [not_exists] at sum
    exact fits part past sum

/-! ### Concatenations -/

theorem encodes_string {c : Const} {x : JavaConst} (encodes : Encodes c x)
    (string : x.type = .string) :
    ∃ s, c = .str s ∧ x = .string (s.flatMap utf16) := by
  cases x with
  | string units =>
      cases c with
      | str s => exact ⟨s, rfl, congrArg _ (Eq.symm encodes)⟩
      | _ => exact encodes.elim
  | _ => simp [JavaConst.type] at string

theorem constBinary_text {c d : Const} (string : (∃ s, c = .str s) ∨ ∃ s, d = .str s) :
    constBinary .add c d = some (.str (c.text ++ d.text)) := by
  rcases string with ⟨s, rfl⟩ | ⟨s, rfl⟩
  · rfl
  · cases c <;> rfl

theorem binaryValue_text {x y : JavaConst} (string : x.type = .string ∨ y.type = .string) :
    binaryValue .add x y = some (.string (x.text ++ y.text)) := by
  cases x <;> cases y <;> simp_all [JavaConst.type, binaryValue, JavaConst.text]

theorem noCharOperand_leaf (none_ : operandsOf (bodies.expr id) = []) :
    NoCharOperand bodies scope id := by
  intro part lhs rhs a b within sum
  rcases within.cases_head with rfl | ⟨operand, there, -⟩
  · rw [sum] at none_
    cases none_
  · simp [none_] at there

/-- A sum has no `char` operand when neither operand is one, or has one in it. -/
theorem noCharOperand_add {lhs rhs : ExprId} (form : bodies.expr id = .binary .add lhs rhs)
    {a b : Meaning} (known : meaning bodies scope lhs = some a)
    (known' : meaning bodies scope rhs = some b) (string : a.1 = .string ∨ b.1 = .string) :
    (NoCharOperand bodies scope lhs ∧ a.1 ≠ .integral .char) ∧
      (NoCharOperand bodies scope rhs ∧ b.1 ≠ .integral .char) ↔ NoCharOperand bodies scope id := by
  have left : lhs ∈ operandsOf (bodies.expr id) := by simp [form, operandsOf]
  have right : rhs ∈ operandsOf (bodies.expr id) := by simp [form, operandsOf]
  constructor
  · rintro ⟨⟨inLeft, first⟩, inRight, second⟩ part l r x y within sum hl hr
    rcases within.cases_head with rfl | ⟨operand, there, deeper⟩
    · rw [form] at sum
      cases sum
      rw [known] at hl
      rw [known'] at hr
      cases hl
      cases hr
      exact ⟨fun _ => second, fun _ => first⟩
    · rw [form] at there
      rcases List.mem_pair.mp there with rfl | rfl
      · exact inLeft part l r x y deeper sum hl hr
      · exact inRight part l r x y deeper sum hl hr
  · intro none_
    obtain ⟨second, first⟩ := none_ id lhs rhs a b .refl form known known'
    have onLeft : NoCharOperand bodies scope lhs :=
      fun part l r x y within => none_ part l r x y (within.head left)
    have onRight : NoCharOperand bodies scope rhs :=
      fun part l r x y within => none_ part l r x y (within.head right)
    rcases string with string | string
    · exact ⟨⟨onLeft, by simp [string]⟩, onRight, second string⟩
    · exact ⟨⟨onLeft, first string⟩, onRight, by simp [string]⟩

/-- The evaluation of a concatenation gives its text, or one that outweighs it if some operand is a
`char`. -/
theorem concatenation_drifts (shape : IsConcatenation bodies scope id)
    (fits : OperandsFit bodies scope order consts id) (foldable : Foldable bodies order consts id)
    {x : JavaConst} (means : meaning bodies scope id = some (.string, some x)) :
    ∃ s, constValue bodies order consts id = some (.str s) ∧
      Drifts 0x10000 (NoCharOperand bodies scope id) (s.flatMap utf16) x.text := by
  induction id using @operand_induction bodies generalizing x with
  | step id ih =>
      have string : x.type = .string := meaning_type means
      have plain {operand : ExprId} (there : operand ∈ operandsOf (bodies.expr id))
          (positive : isNegatedLiteral bodies id = false) :
          IsConcatenation bodies scope operand ∧ OperandsFit bodies scope order consts operand ∧
            Foldable bodies order consts operand :=
        ⟨fun part value within => shape part value (within.head there),
          fun part past => fits part (.head ⟨positive, there⟩ past), foldable.operand there⟩
      have form_ := shape id _ .refl means
      cases form : bodies.expr id with
      | literal lit =>
          have here := fits id .refl (by simp [form])
          rw [meaning_literal form] at means
          obtain ⟨exact_, java, same⟩ := Option.map_eq_some_iff.mp means
          obtain rfl := Option.some.inj (Prod.mk.inj same).2
          obtain ⟨constant, code⟩ := constLiteral_of_javaLiteral java
          have encodes := (literal_agrees_iff code java).mpr ((fitsHere_literal form).mp here)
          obtain ⟨s, rfl, rfl⟩ := encodes_string encodes string
          refine ⟨s, by rw [constValue_literal form, code], ?_⟩
          exact .same (noCharOperand_leaf (by simp [form, operandsOf])) rfl
      | var name =>
          have here := fits id .refl (by simp [form])
          simp only [FitsHere, form] at here
          rw [meaning_var form] at means
          obtain ⟨exact_, named, same⟩ := Option.map_eq_some_iff.mp means
          obtain rfl := Option.some.inj (Prod.mk.inj same).2
          obtain ⟨constant, code⟩ :=
            Option.isSome_iff_exists.mp ((foldable id .refl).2 name form)
          obtain ⟨s, rfl, rfl⟩ := encodes_string (here constant _ code named) string
          refine ⟨s, by rw [constValue_var form, code], ?_⟩
          exact .same (noCharOperand_leaf (by simp [form, operandsOf])) rfl
      | paren inner =>
          have there : inner ∈ operandsOf (bodies.expr id) := by simp [form, operandsOf]
          obtain ⟨shape', fits', foldable'⟩ := plain there (by simp [isNegatedLiteral, form])
          rw [meaning_paren form] at means
          obtain ⟨s, returns, drifts⟩ := ih inner there shape' fits' foldable' means
          refine ⟨s, by rw [constValue_paren form, returns], drifts.congr ?_⟩
          constructor
          · intro none_ part lhs rhs a b within sum
            rcases within.cases_head with rfl | ⟨operand, there', deeper⟩
            · simp [form] at sum
            · obtain rfl : operand = inner := by simpa [form, operandsOf] using there'
              exact none_ part lhs rhs a b deeper sum
          · exact fun none_ part lhs rhs a b within => none_ part lhs rhs a b (within.head there)
      | cast ty operand => exact absurd form ((foldable id .refl).1 ty operand)
      | binary op lhs rhs =>
          obtain rfl : op = .add := by cases op <;> simp_all
          have left : lhs ∈ operandsOf (bodies.expr id) := by simp [form, operandsOf]
          have right : rhs ∈ operandsOf (bodies.expr id) := by simp [form, operandsOf]
          have operand_drifts {operand : ExprId} (there : operand ∈ operandsOf (bodies.expr id))
              {y : JavaConst} (known : meaning bodies scope operand = some (y.type, some y)) :
              ∃ c, constValue bodies order consts operand = some c ∧
                (y.type = .string → ∃ s, c = .str s) ∧
                Drifts 0x10000 (NoCharOperand bodies scope operand ∧ y.type ≠ .integral .char)
                  (c.text.flatMap utf16) y.text := by
            obtain ⟨shape', fits', foldable'⟩ := plain there (by simp [isNegatedLiteral, form])
            by_cases text : y.type = .string
            · rw [text] at known
              obtain ⟨s, returns, drifts⟩ := ih operand there shape' fits' foldable' known
              refine ⟨.str s, returns, fun _ => ⟨s, rfl⟩, drifts.congr ?_⟩
              simp [text]
            · have folds := folds_of_foldsWithin known (foldsWithin_of_ne_string fits' known text)
              obtain ⟨c, returns, encodes⟩ := folds_completely folds foldable' known
              refine ⟨c, returns, fun same => absurd same text, (text_drifts encodes).congr ?_⟩
              simp [noChar_of_ne_string known text]
          rw [meaning_binary form] at means
          obtain ⟨⟨a, value⟩, known, rest⟩ := Option.bind_eq_some_iff.mp means
          obtain ⟨⟨b, value'⟩, known', rest⟩ := Option.bind_eq_some_iff.mp rest
          obtain ⟨type, typed, same⟩ := Option.map_eq_some_iff.mp rest
          obtain ⟨rfl, both⟩ := Prod.mk.inj same
          obtain ⟨y, rfl, one⟩ := Option.bind_eq_some_iff.mp both
          obtain ⟨z, rfl, computed⟩ := Option.bind_eq_some_iff.mp one
          obtain rfl := meaning_type known
          obtain rfl := meaning_type known'
          have either : y.type = .string ∨ z.type = .string := binaryType_string typed
          obtain ⟨c, returns, kept, drifts⟩ := operand_drifts left known
          obtain ⟨d, returns', kept', drifts'⟩ := operand_drifts right known'
          rw [binaryValue_text either] at computed
          obtain rfl := Option.some.inj computed
          refine ⟨c.text ++ d.text, ?_, ?_⟩
          · rw [constValue_binary form, returns, returns']
            exact constBinary_text (either.imp kept kept')
          · rw [List.flatMap_append]
            exact (drifts.append drifts').congr (noCharOperand_add form known known' either)
      | _ => simp [form] at form_

/-- A string that is evaluated is the one of the language exactly when it has no `char` operand. -/
theorem concatenatesLikeJava_iff (bodies : BodyTree) (scope : Name → Option JavaConst)
    (order : ConstLocals → ConstLocals) (consts : ConstLocals) (id : ExprId) (x : JavaConst)
    (means : meaning bodies scope id = some (.string, some x))
    (shape : IsConcatenation bodies scope id)
    (fits : Foldable bodies order consts id → OperandsFit bodies scope order consts id) :
    ConcatenatesLikeJava bodies scope order consts id ↔
      (Foldable bodies order consts id → NoCharOperand bodies scope id) := by
  have text : x = .string x.text := by
    have string := meaning_type means
    cases x with
    | string units => rfl
    | _ => simp [JavaConst.type] at string
  constructor
  · intro concatenates foldable
    obtain ⟨s, returns, drifts⟩ := concatenation_drifts shape (fits foldable) foldable means
    have known := concatenates s returns
    rw [means] at known
    cases known
    exact drifts.agree_iff.mp rfl
  · intro noChar s returns
    have foldable := foldable_of_evaluated returns
    obtain ⟨s', returns', drifts⟩ := concatenation_drifts shape (fits foldable) foldable means
    rw [returns] at returns'
    cases returns'
    rw [drifts.agree_iff.mpr (noChar foldable), ← text, means]

theorem isConcatenation_of_operands (form : match bodies.expr id with
      | .literal _ | .var _ | .paren _ | .cast _ _ | .binary .add _ _ => True
      | _ => False)
    (operands : ∀ operand ∈ operandsOf (bodies.expr id), IsConcatenation bodies scope operand) :
    IsConcatenation bodies scope id := by
  intro part value within known
  rcases within.cases_head with rfl | ⟨operand, there, deeper⟩
  · exact form
  · exact operands operand there part value deeper known

theorem operandsFit_of_operands
    (here : (∀ lhs rhs, bodies.expr id ≠ .binary .add lhs rhs) →
      FitsHere bodies scope order consts id)
    (operands : ∀ operand ∈ operandsOf (bodies.expr id),
      OperandsFit bodies scope order consts operand) :
    OperandsFit bodies scope order consts id := by
  intro part past
  rcases past.cases_head with rfl | ⟨operand, there, deeper⟩
  · exact here
  · exact operands operand there.2 part deeper

end

/-- The expressions of `1 + "a"`. -/
def numberedBodies : BodyTree :=
  .ofExprs [.literal (.int 1), .literal (.str ['a']), .binary .add ⟨0⟩ ⟨1⟩] [] [] rfl BodyTree.simple_nil

theorem number_concatenates :
    ConcatenatesLikeJava numberedBodies (fun _ => none) id [] ⟨2⟩ := by
  apply (concatenatesLikeJava_iff numberedBodies (fun _ => none) id [] ⟨2⟩ _ rfl ?_ ?_).mpr
  · intro _
    apply (@noCharOperand_add _ _ _ ⟨0⟩ ⟨1⟩ rfl _ _ rfl rfl (.inr rfl)).mp
    exact ⟨⟨noCharOperand_leaf rfl, nofun⟩, noCharOperand_leaf rfl, nofun⟩
  · apply isConcatenation_of_operands trivial
    intro operand there
    rcases List.mem_pair.mp there with rfl | rfl
    · exact isConcatenation_of_operands trivial nofun
    · exact isConcatenation_of_operands trivial nofun
  · intro _
    apply operandsFit_of_operands (fun sum => absurd rfl (sum ⟨0⟩ ⟨1⟩))
    intro operand there
    rcases List.mem_pair.mp there with rfl | rfl
    · have fits : IntegralType.int.Holds (IntegralType.long.wrap 1) := by decide
      exact operandsFit_of_operands (fun _ => fits) nofun
    · exact operandsFit_of_operands (fun _ => trivial) nofun

/-- The expressions of `"a" + 'b'`. -/
def lettersBodies : BodyTree :=
  .ofExprs [.literal (.str ['a']), .literal (.char 'b'), .binary .add ⟨0⟩ ⟨1⟩] [] [] rfl BodyTree.simple_nil

/-- `"a" + 'b'` is evaluated to `"a98"`. -/
theorem letter_not_concatenated : ¬ ∀ bodies scope order consts id x,
    meaning bodies scope id = some (.string, some x) → IsConcatenation bodies scope id →
      ConcatenatesLikeJava bodies scope order consts id := by
  intro always
  have shape : IsConcatenation lettersBodies (fun _ => none) ⟨2⟩ := by
    apply isConcatenation_of_operands trivial
    intro operand there
    rcases List.mem_pair.mp there with rfl | rfl
    · exact isConcatenation_of_operands trivial nofun
    · exact isConcatenation_of_operands trivial nofun
  have returns : constValue lettersBodies id [] ⟨2⟩ = some (.str "a98".toList) := by
    rfl
  have java : meaning lettersBodies (fun _ => none) ⟨2⟩ = some (.string, some (.string [97, 98])) :=
    rfl
  have concatenated := always lettersBodies (fun _ => none) id [] ⟨2⟩ _ java shape _ returns
  rw [java] at concatenated
  simp [utf16] at concatenated

end CaffeineLs.HirTy
