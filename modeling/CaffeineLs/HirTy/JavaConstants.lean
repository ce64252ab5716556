/-
Module: CaffeineLs.HirTy.JavaConstants
Purpose: The constant expressions of the Java language: their types and values, and when the
  evaluation of a constant agrees with them.
Trusted boundary: the equality of strings is left out, and so are the floating-point types.
Main exports: JavaConst, meaning, Encodes
-/
import CaffeineLs.HirTy.ConstEval
import CaffeineLs.Lib.Ranked

namespace CaffeineLs.HirTy

open HirExpand Ranked

/-! ### Values -/

inductive IntegralType where
  | byte
  | short
  | char
  | int
  | long
deriving DecidableEq, Repr

namespace IntegralType

def bits : IntegralType → Nat
  | .byte => 8
  | .short | .char => 16
  | .int => 32
  | .long => 64

def lowest : IntegralType → Int
  | .byte => -128
  | .short => -32768
  | .char => 0
  | .int => -2147483648
  | .long => -9223372036854775808

/-- The number is a value of the type. -/
def Holds (type : IntegralType) (n : Int) : Prop :=
  type.lowest ≤ n ∧ n < type.lowest + 2 ^ type.bits

instance (type : IntegralType) (n : Int) : Decidable (type.Holds n) :=
  inferInstanceAs (Decidable (_ ∧ _))

/-- The value of the type with the same low-order bits. -/
def wrap (type : IntegralType) (n : Int) : Int := (n - type.lowest) % 2 ^ type.bits + type.lowest

theorem wrap_holds (type : IntegralType) (n : Int) : type.Holds (type.wrap n) := by
  have modulus : (0 : Int) < 2 ^ type.bits := Int.pow_pos (by decide)
  have low := Int.emod_nonneg (n - type.lowest) modulus.ne'
  have high := Int.emod_lt_of_pos (n - type.lowest) modulus
  unfold Holds wrap
  omega

/-- Unary numeric promotion, JLS §5.6.1. -/
def promote : IntegralType → IntegralType
  | .long => .long
  | _ => .int

/-- Binary numeric promotion, JLS §5.6.2. -/
def promoteWith (a b : IntegralType) : IntegralType :=
  if a = .long ∨ b = .long then .long else .int

/-- The types a constant of type `int` narrows to. -/
def isNarrow : IntegralType → Bool
  | .byte | .short | .char => true
  | .int | .long => false

end IntegralType

inductive ConstType where
  | integral (type : IntegralType)
  | boolean
  | string
deriving DecidableEq, Repr

/-- The UTF-16 code units of a character. -/
def utf16 (c : Char) : List Nat :=
  if c.toNat < 0x10000 then [c.toNat]
  else [0xd800 + (c.toNat - 0x10000) / 0x400, 0xdc00 + (c.toNat - 0x10000) % 0x400]

/-- The value of a constant expression, JLS §15.29. A string is a sequence of code units. -/
inductive JavaConst where
  | integral (type : IntegralType) (value : Int) (held : type.Holds value)
  | boolean (b : Bool)
  | string (units : List Nat)

namespace JavaConst

def type : JavaConst → ConstType
  | .integral type _ _ => .integral type
  | .boolean _ => .boolean
  | .string _ => .string

/-- The value of the type with the low-order bits of the number. -/
def wrapped (type : IntegralType) (n : Int) : JavaConst :=
  .integral type (type.wrap n) (type.wrap_holds n)

/-- String conversion, JLS §5.1.11: a `char` is its character, any other number its decimal
digits. -/
def text : JavaConst → List Nat
  | .integral .char value _ => [value.toNat]
  | .integral _ value _ => (toString value).toList.flatMap utf16
  | .boolean b => (toString b).toList.flatMap utf16
  | .string units => units

/-- The operand that a test chooses. -/
def choose : JavaConst → JavaConst → JavaConst → JavaConst
  | .boolean true, a, _ => a
  | _, _, b => b

/-- The conversion of a constant to a type. -/
def convert : ConstType → JavaConst → JavaConst
  | .integral type, .integral _ value _ => wrapped type value
  | _, constant => constant

end JavaConst

/-! ### Expressions -/

/-- The type of a constant expression, and its value unless it divides by zero. -/
abbrev Meaning := ConstType × Option JavaConst

def javaLiteral : Literal → Option JavaConst
  | .int value => some (.wrapped .int value)
  | .long value => some (.wrapped .long value)
  | .char value => if value.toNat < 0x10000 then some (.wrapped .char value.toNat) else none
  | .boolean value => some (.boolean value)
  | .str value => some (.string (value.flatMap utf16))
  | .float | .double => none

def unaryType : UnaryOp → ConstType → Option ConstType
  | .plus, .integral type | .minus, .integral type | .bitNot, .integral type =>
      some (.integral type.promote)
  | .not, .boolean => some .boolean
  | _, _ => none

def unaryValue : UnaryOp → JavaConst → Option JavaConst
  | .plus, .integral type n _ => some (.wrapped type.promote n)
  | .minus, .integral type n _ => some (.wrapped type.promote (-n))
  | .bitNot, .integral type n _ => some (.wrapped type.promote (-n - 1))
  | .not, .boolean b => some (.boolean !b)
  | _, _ => none

/-- The distance of a shift: the low-order bits that the width of the left operand asks for. -/
def shiftDistance (type : IntegralType) (n : Int) : Nat := (n % type.bits).toNat

def integralType (op : BinaryOp) (a b : IntegralType) : Option ConstType :=
  match op with
  | .add | .sub | .mul | .div | .rem | .bitAnd | .bitXor | .bitOr =>
      some (.integral (a.promoteWith b))
  | .shl | .shr | .uShr => some (.integral a.promote)
  | .lt | .gt | .le | .ge | .eq | .ne => some .boolean
  | .and | .or => none

def integralValue (op : BinaryOp) (a : IntegralType) (n : Int) (b : IntegralType) (m : Int) :
    Option JavaConst :=
  let type := a.promoteWith b
  let left := a.promote
  let bitwise (f : BitVec 64 → BitVec 64 → BitVec 64) : Option JavaConst :=
    some (.wrapped type (f (BitVec.ofInt 64 n) (BitVec.ofInt 64 m)).toInt)
  match op with
  | .add => some (.wrapped type (n + m))
  | .sub => some (.wrapped type (n - m))
  | .mul => some (.wrapped type (n * m))
  | .div => if m = 0 then none else some (.wrapped type (n.tdiv m))
  | .rem => if m = 0 then none else some (.wrapped type (n.tmod m))
  | .shl => some (.wrapped left (n * 2 ^ shiftDistance left m))
  | .shr => some (.wrapped left (n / 2 ^ shiftDistance left m))
  | .uShr => some (.wrapped left (n % 2 ^ left.bits / 2 ^ shiftDistance left m))
  | .lt => some (.boolean (n < m))
  | .gt => some (.boolean (m < n))
  | .le => some (.boolean (n ≤ m))
  | .ge => some (.boolean (m ≤ n))
  | .eq => some (.boolean (n = m))
  | .ne => some (.boolean (n ≠ m))
  | .bitAnd => bitwise (· &&& ·)
  | .bitXor => bitwise (· ^^^ ·)
  | .bitOr => bitwise (· ||| ·)
  | .and | .or => none

def booleanValue (op : BinaryOp) (a b : Bool) : Option JavaConst :=
  match op with
  | .and | .bitAnd => some (.boolean (a && b))
  | .or | .bitOr => some (.boolean (a || b))
  | .eq => some (.boolean (a = b))
  | .ne | .bitXor => some (.boolean (a ≠ b))
  | _ => none

/-- `+` with an operand of type `String` is a concatenation. -/
def binaryType (op : BinaryOp) (a b : ConstType) : Option ConstType :=
  match op, a, b with
  | .add, .string, _ | .add, _, .string => some .string
  | op, .integral a, .integral b => integralType op a b
  | .and, .boolean, .boolean | .or, .boolean, .boolean | .eq, .boolean, .boolean
  | .ne, .boolean, .boolean | .bitAnd, .boolean, .boolean | .bitXor, .boolean, .boolean
  | .bitOr, .boolean, .boolean => some .boolean
  | _, _, _ => none

def binaryValue (op : BinaryOp) (a b : JavaConst) : Option JavaConst :=
  match op, a, b with
  | .add, .string units, b => some (.string (units ++ b.text))
  | .add, a, .string units => some (.string (a.text ++ units))
  | op, .integral a n _, .integral b m _ => integralValue op a n b m
  | op, .boolean a, .boolean b => booleanValue op a b
  | _, _, _ => none

/-- The constant is of type `int` and a value of the type. -/
def narrowsTo (type : IntegralType) : Option JavaConst → Bool
  | some (.integral .int n _) => type.isNarrow && decide (type.Holds n)
  | _ => false

/-- The type of a conditional expression, JLS §15.25.2. -/
def conditionalType : Meaning → Meaning → Option ConstType
  | (.boolean, _), (.boolean, _) => some .boolean
  | (.string, _), (.string, _) => some .string
  | (.integral a, left), (.integral b, right) =>
      if a = b then some (.integral a)
      else if a = .byte ∧ b = .short ∨ a = .short ∧ b = .byte then some (.integral .short)
      else if narrowsTo a right then some (.integral a)
      else if narrowsTo b left then some (.integral b)
      else some (.integral (a.promoteWith b))
  | _, _ => none

/-- The types that a constant expression can be cast to. -/
def castType : TypeRef → Option ConstType
  | .primitive .byte => some (.integral .byte)
  | .primitive .short => some (.integral .short)
  | .primitive .char => some (.integral .char)
  | .primitive .int => some (.integral .int)
  | .primitive .long => some (.integral .long)
  | .primitive .boolean => some .boolean
  | .reference name [] => if name.simpleName = ⟨"String".toList⟩ then some .string else none
  | _ => none

/-- The cast converts between the two types. -/
def castable : ConstType → ConstType → Bool
  | .integral _, .integral _ | .boolean, .boolean | .string, .string => true
  | _, _ => false

section

variable (bodies : BodyTree) (scope : Name → Option JavaConst)

def conditionalMeaning (cond then_ els : Meaning) : Option Meaning :=
  match cond with
  | (.boolean, test) =>
      (conditionalType then_ els).map fun type =>
        (type, test.bind fun test => then_.2.bind fun a => els.2.map fun b =>
          (test.choose a b).convert type)
  | _ => none

def meaningNode (visit : ExprId → Option Meaning) (id : ExprId) : Option Meaning :=
  match bodies.expr id with
  | .literal lit => (javaLiteral lit).map fun constant => (constant.type, some constant)
  | .paren inner => visit inner
  | .var name => (scope name).map fun constant => (constant.type, some constant)
  | .unary op operand =>
      (visit operand).bind fun (type, value) =>
        (unaryType op type).map fun type => (type, value.bind (unaryValue op))
  | .binary op lhs rhs =>
      (visit lhs).bind fun (a, left) => (visit rhs).bind fun (b, right) =>
        (binaryType op a b).map fun type =>
          (type, left.bind fun left => right.bind fun right => binaryValue op left right)
  | .conditional cond then_ els =>
      (visit cond).bind fun cond => (visit then_).bind fun then_ => (visit els).bind fun els =>
        conditionalMeaning cond then_ els
  | .cast ty operand =>
      (castType ty.ty).bind fun type => (visit operand).bind fun (from_, value) =>
        if castable from_ type then some (type, value.map (JavaConst.convert type)) else none
  | _ => none

/-- The type and value of a constant expression, where a simple name stands for the constant
variable in scope under it; `none` where the expression is no constant expression. -/
def meaning (id : ExprId) : Option Meaning :=
  tower (fun id => bodies.height (.expr id)) (meaningNode bodies scope) (fun _ => none) id

/-! ### Agreement -/

/-- The operands of the forms constant expressions are built from. -/
def operandsOf : ExprData → List ExprId
  | .paren inner => [inner]
  | .unary _ operand => [operand]
  | .binary _ lhs rhs => [lhs, rhs]
  | .conditional cond then_ els => [cond, then_, els]
  | .cast _ operand => [operand]
  | _ => []

/-- An operand at any depth. -/
def Within (id part : ExprId) : Prop :=
  Relation.ReflTransGen (fun outer operand => operand ∈ operandsOf (bodies.expr outer)) id part

/-- A minus sign over a literal. -/
def isNegatedLiteral (id : ExprId) : Bool :=
  match bodies.expr id with
  | .unary .minus operand =>
      match bodies.expr operand with
      | .literal _ => true
      | _ => false
  | _ => false

/-- An expression whose value the evaluation of `id` comes past. The digits behind a minus sign are
part of a negative literal and no value of their own. -/
def Intermediate (id part : ExprId) : Prop :=
  Relation.ReflTransGen
    (fun outer operand => isNegatedLiteral bodies outer = false ∧
      operand ∈ operandsOf (bodies.expr outer)) id part

/-- The evaluated constant is the value. -/
def Encodes : Const → JavaConst → Prop
  | .int v isLong, .integral type n _ => v.toInt = n ∧ isLong = decide (type = .long)
  | .bool b, .boolean c => b = c
  | .str s, .string units => s.flatMap utf16 = units
  | _, _ => False

variable (order : ConstLocals → ConstLocals) (consts : ConstLocals)

/-- Every expression that the evaluation comes past has the value of the language if it has one,
every `int` among them is a 32-bit number, and a division by zero has none. -/
structure FoldsLikeJava (id : ExprId) : Prop where
  value : ∀ part constant, Intermediate bodies id part →
    constValue bodies order consts part = some constant →
      ∃ exact : JavaConst, meaning bodies scope part = some (exact.type, some exact) ∧
        Encodes constant exact
  intRange : ∀ part v, Intermediate bodies id part →
    constValue bodies order consts part = some (.int v false) → IntegralType.int.Holds v.toInt
  zeroDivision : ∀ part type, Intermediate bodies id part →
    meaning bodies scope part = some (type, none) → constValue bodies order consts part = none

/-- The expression is built without casts, from literals and recorded names. -/
def Foldable (id : ExprId) : Prop :=
  ∀ part, Within bodies id part →
    (∀ ty operand, bodies.expr part ≠ .cast ty operand) ∧
    ∀ name, bodies.expr part = .var name → (constVar bodies order consts name).isSome

/-- Where the evaluation of one expression over exact operands is exact: an `int` literal is a
32-bit number, the constant recorded first under a name is the one in scope, a left shift of an
`int` stays in range, no `char` is concatenated, and a conditional of type `long` takes an operand
of type `long`. -/
def FitsHere (id : ExprId) : Prop :=
  match bodies.expr id with
  | .literal (.int value) => IntegralType.int.Holds (IntegralType.long.wrap value)
  | .var name => ∀ constant exact, constVar bodies order consts name = some constant →
      scope name = some exact → Encodes constant exact
  | .binary .shl lhs rhs => ∀ a n held b m held',
      meaning bodies scope lhs = some (.integral a, some (.integral a n held)) →
        meaning bodies scope rhs = some (.integral b, some (.integral b m held')) →
          a.promote = .int → IntegralType.int.Holds (n * 2 ^ shiftDistance .int m)
  | .binary .add lhs rhs => ∀ left right,
      meaning bodies scope lhs = some (left.type, some left) →
        meaning bodies scope rhs = some (right.type, some right) →
          (left.type = .string → right.type ≠ .integral .char) ∧
          (right.type = .string → left.type ≠ .integral .char)
  | .conditional cond then_ els => ∀ exact test a b,
      meaning bodies scope id = some (.integral .long, some exact) →
        meaning bodies scope cond = some (.boolean, some (.boolean test)) →
          meaning bodies scope then_ = some (a.type, some a) →
            meaning bodies scope els = some (b.type, some b) →
              (if test then a else b).type = .integral .long
  | _ => True

/-- Every expression that the evaluation comes past and folds fits. -/
def FoldsWithin (id : ExprId) : Prop :=
  ∀ part, Intermediate bodies id part → Foldable bodies order consts part →
    FitsHere bodies scope order consts part

/-! ### Concatenations -/

/-- An expression of type `String` in it is a literal, a name, a cast, or a `+` in any association.
The operands of other types are arbitrary. -/
def IsConcatenation (id : ExprId) : Prop :=
  ∀ part value, Within bodies id part → meaning bodies scope part = some (.string, value) →
    match bodies.expr part with
    | .literal _ | .var _ | .paren _ | .cast _ _ | .binary .add _ _ => True
    | _ => False

/-- A string that the evaluation returns is the value of the language. -/
def ConcatenatesLikeJava (id : ExprId) : Prop :=
  ∀ s, constValue bodies order consts id = some (.str s) →
    meaning bodies scope id = some (.string, some (.string (s.flatMap utf16)))

/-- Everything but the sums fits. -/
def OperandsFit (id : ExprId) : Prop :=
  ∀ part, Intermediate bodies id part → (∀ lhs rhs, bodies.expr part ≠ .binary .add lhs rhs) →
    FitsHere bodies scope order consts part

/-- No operand of a concatenation is of type `char`. -/
def NoCharOperand (id : ExprId) : Prop :=
  ∀ part lhs rhs a b, Within bodies id part → bodies.expr part = .binary .add lhs rhs →
    meaning bodies scope lhs = some a → meaning bodies scope rhs = some b →
      (a.1 = .string → b.1 ≠ .integral .char) ∧ (b.1 = .string → a.1 ≠ .integral .char)

end

end CaffeineLs.HirTy
