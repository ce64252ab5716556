/-
Module: CaffeineLs.HirTy.ConstEval
Purpose: The evaluation of constant expressions.
Trusted boundary: the order a hash map is iterated in is a parameter.
Main exports: Const, constUnary, constBinary
-/
import CaffeineLs.HirExpand.Body

namespace CaffeineLs.HirTy

open HirExpand

/-- The value of a constant expression. An `int`, `long` or `char` is kept in 64 bits; `isLong` is
the width that later arithmetic wraps at. -/
inductive Const where
  | int (v : BitVec 64) (isLong : Bool)
  | bool (b : Bool)
  | str (s : List Char)
deriving DecidableEq, Repr

/-- The textual form a string conversion yields. -/
def Const.text : Const → List Char
  | .int v _ => (toString v.toInt).toList
  | .bool b => (toString b).toList
  | .str s => s

/-- An operation at the promoted width: an `int` travels sign-extended. -/
def atWidth (isLong : Bool) (wide : BitVec 64 → BitVec 64 → BitVec 64)
    (narrow : BitVec 32 → BitVec 32 → BitVec 32) (l r : BitVec 64) : BitVec 64 :=
  if isLong then wide l r else (narrow (l.truncate 32) (r.truncate 32)).signExtend 64

/-- Wrapping division or remainder; a zero divisor makes the expression non-constant. A divisor whose
low 32 bits alone are zero makes the narrow division panic, and there is no value either. -/
def wrapDivRem (isLong isRem : Bool) (l r : BitVec 64) : Option (BitVec 64) :=
  if r = 0 then none
  else if !isLong && r.truncate 32 = 0#32 then none
  else if isRem then some (atWidth isLong BitVec.srem BitVec.srem l r)
  else some (atWidth isLong BitVec.sdiv BitVec.sdiv l r)

def shiftMask (isLong : Bool) : BitVec 64 := if isLong then 0x3f else 0x1f

/-- Unsigned right shift at the left operand's width. -/
def wrapUshr (isLong : Bool) (l dist : BitVec 64) : BitVec 64 :=
  let by_ := (dist &&& shiftMask isLong).toNat
  if isLong then l >>> by_ else ((l.truncate 32) >>> by_).signExtend 64

def constLiteral : Literal → Option Const
  | .int value => some (.int (BitVec.ofInt 64 value) false)
  | .long value => some (.int (BitVec.ofInt 64 value) true)
  | .char value => some (.int (BitVec.ofNat 64 value.toNat) false)
  | .boolean value => some (.bool value)
  | .str value => some (.str value)
  | .float | .double => none

def constUnary : UnaryOp → Const → Option Const
  | .plus, v => some v
  | .minus, .int v isLong => some (.int (atWidth isLong (fun _ r => -r) (fun _ r => -r) 0 v) isLong)
  | .bitNot, .int v isLong =>
      some (.int (atWidth isLong (fun _ r => ~~~r) (fun _ r => ~~~r) 0 v) isLong)
  | .not, .bool b => some (.bool !b)
  | _, _ => none

def constBools (op : BinaryOp) (l r : Bool) : Option Const :=
  match op with
  | .and | .bitAnd => some (.bool (l && r))
  | .or | .bitOr => some (.bool (l || r))
  | .eq => some (.bool (l == r))
  | .ne | .bitXor => some (.bool (l != r))
  | _ => none

/-- A shift keeps the left operand's width; every other operator works at the wider one. A left or
signed right shift is not narrowed again. -/
def constInts (op : BinaryOp) (l : BitVec 64) (lLong : Bool) (r : BitVec 64) (rLong : Bool) :
    Option Const :=
  let isLong := lLong || rLong
  let arith (wide : BitVec 64 → BitVec 64 → BitVec 64)
      (narrow : BitVec 32 → BitVec 32 → BitVec 32) : Option Const :=
    some (.int (atWidth isLong wide narrow l r) isLong)
  match op with
  | .add => arith (· + ·) (· + ·)
  | .sub => arith (· - ·) (· - ·)
  | .mul => arith (· * ·) (· * ·)
  | .div => (wrapDivRem isLong false l r).map fun v => .int v isLong
  | .rem => (wrapDivRem isLong true l r).map fun v => .int v isLong
  | .shl => some (.int (l <<< (r &&& shiftMask lLong).toNat) lLong)
  | .shr => some (.int (l.sshiftRight (r &&& shiftMask lLong).toNat) lLong)
  | .uShr => some (.int (wrapUshr lLong l r) lLong)
  | .lt => some (.bool (l.slt r))
  | .gt => some (.bool (r.slt l))
  | .le => some (.bool (l.sle r))
  | .ge => some (.bool (r.sle l))
  | .eq => some (.bool (l == r))
  | .ne => some (.bool (l != r))
  | .bitAnd => arith (· &&& ·) (· &&& ·)
  | .bitXor => arith (· ^^^ ·) (· ^^^ ·)
  | .bitOr => arith (· ||| ·) (· ||| ·)
  | .and | .or => none

/-- A string operand of `+` concatenates. -/
def constBinary (op : BinaryOp) (lhs rhs : Const) : Option Const :=
  match op, lhs, rhs with
  | .add, .str l, r => some (.str (l ++ r.text))
  | .add, l, .str r => some (.str (l.text ++ r))
  | op, .bool l, .bool r => constBools op l r
  | op, .int l lLong, .int r rLong => constInts op l lLong r rLong
  | _, _, _ => none

/-- The constant variables seen so far. -/
abbrev ConstLocals := List (LocalId × Const)

section

variable (bodies : BodyTree) (order : ConstLocals → ConstLocals) (consts : ConstLocals)

/-- A name is constant when a constant variable seen so far has it. -/
def constVar (name : Name) : Option Const :=
  ((order consts).find? fun entry => (bodies.binding entry.1).name = name).map Prod.snd

/-- `ConstEnv::eval`. A conditional is constant when both branches are. -/
def constEval : Nat → ExprId → Option Const
  | 0, _ => none
  | fuel + 1, id =>
      match bodies.expr id with
      | .literal lit => constLiteral lit
      | .paren inner => constEval fuel inner
      | .var name => constVar bodies order consts name
      | .unary op operand => (constEval fuel operand).bind (constUnary op)
      | .binary op lhs rhs =>
          (constEval fuel lhs).bind fun l => (constEval fuel rhs).bind fun r => constBinary op l r
      | .conditional cond then_ els =>
          match constEval fuel cond with
          | some (.bool b) =>
              (constEval fuel then_).bind fun t => (constEval fuel els).map fun e =>
                if b then t else e
          | _ => none
      | _ => none

def constValue (id : ExprId) : Option Const :=
  constEval bodies order consts (bodies.height (.expr id) + 1) id

def constBool (id : ExprId) : Option Bool :=
  match constValue bodies order consts id with
  | some (.bool b) => some b
  | _ => none

end

end CaffeineLs.HirTy
