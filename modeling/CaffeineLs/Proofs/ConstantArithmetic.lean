/-
Module: CaffeineLs.Proofs.ConstantArithmetic
Purpose: The operations on evaluated constants compute the values of the language.
Trusted boundary: none
Main exports: text_agrees, unary_agrees, shl_agrees_iff
-/
import CaffeineLs.HirTy.JavaConstants
import Mathlib.Tactic.Linarith

namespace CaffeineLs.HirTy

open HirExpand

/-! ### Numbers -/

namespace IntegralType

theorem wrap_of_holds {type : IntegralType} {n : Int} (held : type.Holds n) : type.wrap n = n := by
  obtain ⟨low, high⟩ := held
  unfold wrap
  rw [Int.emod_eq_of_lt (by omega) (by omega)]
  omega

theorem holds_iff_wrap {type : IntegralType} {n : Int} : type.Holds n ↔ type.wrap n = n := by
  constructor
  · exact wrap_of_holds
  · intro same
    exact same ▸ type.wrap_holds n

theorem wrap_int (n : Int) : IntegralType.int.wrap n = n.bmod (2 ^ 32) := by
  simp only [wrap, lowest, bits, Int.bmod_def]
  split <;> omega

theorem wrap_long (n : Int) : IntegralType.long.wrap n = n.bmod (2 ^ 64) := by
  simp only [wrap, lowest, bits, Int.bmod_def]
  split <;> omega

/-- The low 32 bits of the low 64 bits. -/
theorem wrap_int_long (n : Int) :
    IntegralType.int.wrap (IntegralType.long.wrap n) = IntegralType.int.wrap n := by
  simp only [wrap, lowest, bits]
  omega

theorem holds_promote {type : IntegralType} {n : Int} (held : type.Holds n) :
    type.promote.Holds n := by
  cases type <;> simp only [Holds, promote, lowest, bits] at held ⊢ <;> omega

/-- The width an operation of the evaluator works at. -/
def ofWidth (isLong : Bool) : IntegralType := if isLong then .long else .int

theorem ofWidth_promote (type : IntegralType) :
    ofWidth (decide (type = .long)) = type.promote := by
  cases type <;> rfl

theorem ofWidth_promoteWith (a b : IntegralType) :
    ofWidth (decide (a = .long) || decide (b = .long)) = a.promoteWith b := by
  cases a <;> cases b <;> rfl

end IntegralType

open IntegralType

/-- A machine word of 64 bits is a `long`. -/
theorem wrap_toInt_long (x : BitVec 64) : IntegralType.long.wrap x.toInt = x.toInt := by
  apply wrap_of_holds
  have low := x.le_toInt
  have high := x.toInt_lt
  simp only [Holds, lowest, bits]
  omega

theorem wrap_toInt_int (x : BitVec 32) : IntegralType.int.wrap x.toInt = x.toInt := by
  apply wrap_of_holds
  have low := x.le_toInt
  have high := x.toInt_lt
  simp only [Holds, lowest, bits]
  omega

/-- The low half of a word. -/
theorem narrow_toInt (x : BitVec 64) : (x.truncate 32).toInt = IntegralType.int.wrap x.toInt := by
  rw [BitVec.truncate_eq_setWidth, BitVec.toInt_setWidth, wrap_int, x.toInt_eq_toNat_bmod,
    Int.bmod_def, Int.bmod_def, Int.bmod_def]
  omega

theorem narrow_toInt_of_holds {x : BitVec 64} (held : IntegralType.int.Holds x.toInt) :
    (x.truncate 32).toInt = x.toInt := by
  rw [narrow_toInt, wrap_of_holds held]

theorem widen_toInt (x : BitVec 32) : (x.signExtend 64).toInt = x.toInt :=
  BitVec.toInt_signExtend_of_le (by decide)

/-- An operation that commutes with cutting words in half gives the low-order bits of its result at
either width. -/
theorem atWidth_toInt {isLong : Bool} {wide : BitVec 64 → BitVec 64 → BitVec 64}
    {narrow : BitVec 32 → BitVec 32 → BitVec 32}
    (commutes : ∀ l r, (wide l r).truncate 32 = narrow (l.truncate 32) (r.truncate 32))
    (l r : BitVec 64) :
    (atWidth isLong wide narrow l r).toInt = (ofWidth isLong).wrap (wide l r).toInt := by
  cases isLong with
  | true => exact (wrap_toInt_long _).symm
  | false =>
      simp only [atWidth, ofWidth, Bool.false_eq_true, if_false]
      rw [widen_toInt, ← commutes, narrow_toInt]

theorem wrap_ofWidth_long (isLong : Bool) (n : Int) :
    (ofWidth isLong).wrap (IntegralType.long.wrap n) = (ofWidth isLong).wrap n := by
  cases isLong with
  | true => exact wrap_of_holds (wrap_holds _ _)
  | false => exact wrap_int_long n

theorem toInt_shiftLeft_eq (l : BitVec 64) (k : Nat) :
    (l <<< k).toInt = IntegralType.long.wrap (l.toInt * 2 ^ k) := by
  rw [BitVec.toInt_shiftLeft, wrap_long, l.toInt_eq_toNat_bmod, Int.bmod_mul_bmod,
    Nat.shiftLeft_eq]
  push_cast
  rfl

/-- The mask of a shift takes the low-order bits of the distance. -/
theorem shiftMask_toNat {type : IntegralType} {r : BitVec 64} :
    (r &&& shiftMask (decide (type = .long))).toNat = shiftDistance type.promote r.toInt := by
  have whole := r.toInt_eq_toNat_bmod
  rw [Int.bmod_def] at whole
  have five : (r &&& 0x1f#64).toNat = r.toNat % 32 := by
    simp only [BitVec.toNat_and, BitVec.toNat_ofNat]
    exact Nat.and_two_pow_sub_one_eq_mod r.toNat 5
  have six : (r &&& 0x3f#64).toNat = r.toNat % 64 := by
    simp only [BitVec.toNat_and, BitVec.toNat_ofNat]
    exact Nat.and_two_pow_sub_one_eq_mod r.toNat 6
  have int : (r.toNat : Int) % 32 = r.toInt % 32 := by omega
  have long : (r.toNat : Int) % 64 = r.toInt % 64 := by omega
  cases type with
  | long =>
      calc (r &&& 0x3f#64).toNat = r.toNat % 64 := six
        _ = (r.toInt % 64).toNat := by omega
  | _ =>
      calc (r &&& 0x1f#64).toNat = r.toNat % 32 := five
        _ = (r.toInt % 32).toNat := by omega

/-! ### Text -/

/-- Everything but a `char` is converted to its text. -/
theorem text_agrees {constant : Const} {exact : JavaConst} (agree : Encodes constant exact)
    (noChar : exact.type ≠ .integral .char) : constant.text.flatMap utf16 = exact.text := by
  cases constant with
  | int v isLong =>
      cases exact with
      | integral type n held =>
          obtain ⟨rfl, -⟩ := agree
          cases type with
          | char => exact absurd rfl noChar
          | _ => rfl
      | _ => exact agree.elim
  | bool b =>
      cases exact with
      | boolean c => exact agree ▸ rfl
      | _ => exact agree.elim
  | str s =>
      cases exact with
      | string units => exact agree
      | _ => exact agree.elim

/-! ### Texts that drift apart -/

/-- Every character takes one code unit or two. -/
theorem utf16_ne_nil (c : Char) : utf16 c ≠ [] := by
  unfold utf16
  split <;> simp

theorem length_le_flatMap_utf16 (s : List Char) : s.length ≤ (s.flatMap utf16).length := by
  induction s with
  | nil => exact Nat.le_refl 0
  | cons c rest ih =>
      have one := List.length_pos_iff.mpr (utf16_ne_nil c)
      simp only [List.flatMap_cons, List.length_append, List.length_cons]
      omega

/-- A measure of code units under which two units outweigh one that is below the bound. -/
def unitWeight (bound : Nat) (units : List Nat) : Nat := (units.map (· + bound)).sum

@[simp]
theorem unitWeight_append (bound : Nat) (a b : List Nat) :
    unitWeight bound (a ++ b) = unitWeight bound a + unitWeight bound b := by
  simp [unitWeight]

@[simp]
theorem unitWeight_singleton (bound unit : Nat) : unitWeight bound [unit] = unit + bound := by
  simp [unitWeight]

theorem length_le_unitWeight (bound : Nat) (units : List Nat) :
    units.length * bound ≤ unitWeight bound units := by
  induction units with
  | nil => simp
  | cons unit rest ih =>
      simp only [unitWeight, List.map_cons, List.sum_cons, List.length_cons, Nat.succ_mul] at ih ⊢
      omega

/-- The evaluated text is the one of the language, or it outweighs it. -/
inductive Drifts (bound : Nat) (holds : Prop) (code java : List Nat) : Prop where
  | same (held : holds) (agree : code = java)
  | apart (failed : ¬holds) (heavier : unitWeight bound java < unitWeight bound code)

namespace Drifts

variable {bound : Nat} {p q : Prop} {a b c d : List Nat}

theorem append (left : Drifts bound p a b) (right : Drifts bound q c d) :
    Drifts bound (p ∧ q) (a ++ c) (b ++ d) := by
  cases left with
  | same held agree =>
      cases right with
      | same held' agree' => exact .same ⟨held, held'⟩ (by rw [agree, agree'])
      | apart failed heavier =>
          apply Drifts.apart (fun both => failed both.2)
          rw [unitWeight_append, unitWeight_append, agree]
          exact Nat.add_lt_add_left heavier _
  | apart failed heavier =>
      apply Drifts.apart (fun both => failed both.1)
      rw [unitWeight_append, unitWeight_append]
      cases right with
      | same _ agree => exact agree ▸ Nat.add_lt_add_right heavier _
      | apart _ heavier' => exact Nat.add_lt_add heavier heavier'

theorem congr (drifts : Drifts bound p a b) (iff : p ↔ q) : Drifts bound q a b := by
  cases drifts with
  | same held agree => exact .same (iff.mp held) agree
  | apart failed heavier => exact .apart (fun held => failed (iff.mpr held)) heavier

theorem agree_iff (drifts : Drifts bound p a b) : a = b ↔ p := by
  cases drifts with
  | same held agree => exact iff_of_true agree held
  | apart failed heavier =>
      apply iff_of_false _ failed
      rintro rfl
      exact Nat.lt_irrefl _ heavier

end Drifts

/-- The decimal digits of a number outweigh it. -/
theorem unit_lt_digits {bound n : Nat} (below : n < bound) :
    unitWeight bound [n] < unitWeight bound ((Nat.toDigits 10 n).flatMap utf16) := by
  rcases Nat.lt_or_ge n 10 with small | large
  · have digit : ∀ n < 10, (Nat.toDigits 10 n).flatMap utf16 = [n + 48] := by decide
    rw [digit n small, unitWeight_singleton, unitWeight_singleton]
    omega
  · have many : 2 ≤ (Nat.toDigits 10 n).length := by
      have some_ := @Nat.length_toDigits_pos 10 (n / 10)
      rw [Nat.toDigits_of_base_le (by decide) large, List.length_append, List.length_singleton]
      omega
    have units := length_le_flatMap_utf16 (Nat.toDigits 10 n)
    have heavy := length_le_unitWeight bound ((Nat.toDigits 10 n).flatMap utf16)
    have twice : 2 * bound ≤ ((Nat.toDigits 10 n).flatMap utf16).length * bound :=
      Nat.mul_le_mul_right bound (many.trans units)
    rw [unitWeight_singleton]
    omega

/-- A constant that is no string drifts when it is a `char`. -/
theorem text_drifts {c : Const} {x : JavaConst} (encodes : Encodes c x) :
    Drifts 0x10000 (x.type ≠ .integral .char) (c.text.flatMap utf16) x.text := by
  by_cases char : x.type = .integral .char
  · apply Drifts.apart (fun other => other char)
    cases x with
    | integral type n held =>
        obtain rfl : type = .char := by simpa [JavaConst.type] using char
        cases c with
        | int v isLong =>
            obtain ⟨same, -⟩ := encodes
            obtain ⟨low, high⟩ := held
            have unsigned : (n.toNat : Int) = n := Int.toNat_of_nonneg low
            have digits : (toString (n.toNat : Int)).toList = Nat.toDigits 10 n.toNat :=
              Nat.toList_repr
            simp only [Const.text, JavaConst.text, same]
            rw [← unsigned, digits, Int.toNat_natCast]
            apply unit_lt_digits
            simp only [lowest, bits] at high
            omega
        | _ => exact encodes.elim
    | _ => simp [JavaConst.type] at char
  · exact .same char (text_agrees encodes char)

/-! ### Operators -/

/-- A word that holds the low-order bits of a number at the width it is recorded with. -/
theorem encodes_wrapped {v : BitVec 64} {isLong : Bool} {type : IntegralType} {n : Int}
    (width : ofWidth isLong = type) (same : v.toInt = type.wrap n) :
    Encodes (.int v isLong) (.wrapped type n) := by
  obtain rfl := width
  refine ⟨same, ?_⟩
  cases isLong <;> rfl

/-- An operation at a width, when it commutes with cutting words in half and is the one of the
language but for the bits beyond 64. -/
theorem encodes_atWidth {isLong : Bool} {type : IntegralType} {n : Int} {l r : BitVec 64}
    {wide : BitVec 64 → BitVec 64 → BitVec 64} {narrow : BitVec 32 → BitVec 32 → BitVec 32}
    (width : ofWidth isLong = type)
    (commutes : ∀ l r, (wide l r).truncate 32 = narrow (l.truncate 32) (r.truncate 32))
    (exact_ : (wide l r).toInt = IntegralType.long.wrap n) :
    Encodes (.int (atWidth isLong wide narrow l r) isLong) (.wrapped type n) := by
  apply encodes_wrapped width
  rw [atWidth_toInt commutes, exact_, wrap_ofWidth_long, width]

theorem unary_agrees {op : UnaryOp} {constant : Const} {exact : JavaConst} {type : ConstType}
    (agree : Encodes constant exact) (typed : unaryType op exact.type = some type) :
    Option.Rel Encodes (constUnary op constant) (unaryValue op exact) := by
  cases constant with
  | int v isLong =>
      cases exact with
      | integral of_ n held =>
          obtain ⟨rfl, rfl⟩ := agree
          have width := ofWidth_promote of_
          cases op with
          | plus => exact .some (encodes_wrapped width (wrap_of_holds (holds_promote held)).symm)
          | minus =>
              apply Option.Rel.some
              apply encodes_atWidth width
              · intro _ r
                exact BitVec.setWidth_neg_of_le (by decide)
              · rw [BitVec.toInt_neg, wrap_long]
          | bitNot =>
              apply Option.Rel.some
              apply encodes_atWidth width
              · intro _ r
                exact BitVec.setWidth_not (by decide)
              · rw [BitVec.toInt_not, wrap_long, v.toInt_eq_toNat_bmod, Int.bmod_def, Int.bmod_def,
                  Int.bmod_def]
                omega
          | not | inc | dec => simp [unaryType, JavaConst.type] at typed
      | _ => exact agree.elim
  | bool b =>
      cases exact with
      | boolean c =>
          obtain rfl : b = c := agree
          cases op with
          | not => exact .some rfl
          | _ => simp [unaryType, JavaConst.type] at typed
      | _ => exact agree.elim
  | str s =>
      cases exact with
      | string units => cases op <;> simp [unaryType, JavaConst.type] at typed
      | _ => exact agree.elim

section Integers

variable {a b : IntegralType} {l r : BitVec 64}

/-- A shifted `int` fits 64 bits. -/
theorem shifted_holds {n m : Int} (held : IntegralType.int.Holds n) :
    IntegralType.long.Holds (n * 2 ^ shiftDistance .int m) := by
  have few : shiftDistance .int m < 32 := by
    simp only [shiftDistance, bits]
    omega
  have most : (2 : Int) ^ shiftDistance .int m ≤ 2 ^ 31 := by
    exact_mod_cast Nat.pow_le_pow_right (by decide) (by omega : shiftDistance .int m ≤ 31)
  have least : (0 : Int) < 2 ^ shiftDistance .int m := Int.pow_pos (by decide)
  generalize (2 : Int) ^ shiftDistance .int m = factor at most least ⊢
  simp only [Holds, lowest, bits] at held ⊢
  constructor <;> nlinarith

/-- A left shift is exact when the number it makes is of the left operand's width. -/
theorem shl_agrees_iff (left : a.Holds l.toInt) :
    Option.Rel Encodes (constInts .shl l (decide (a = .long)) r (decide (b = .long)))
        (integralValue .shl a l.toInt b r.toInt) ↔
      (a.promote = .int → IntegralType.int.Holds (l.toInt * 2 ^ shiftDistance .int r.toInt)) := by
  have shifted : (l <<< (r &&& shiftMask (decide (a = .long))).toNat).toInt =
      IntegralType.long.wrap (l.toInt * 2 ^ shiftDistance a.promote r.toInt) := by
    rw [toInt_shiftLeft_eq, shiftMask_toNat]
  have whole : Option.Rel Encodes (constInts .shl l (decide (a = .long)) r (decide (b = .long)))
      (integralValue .shl a l.toInt b r.toInt) ↔
      IntegralType.long.wrap (l.toInt * 2 ^ shiftDistance a.promote r.toInt) =
        a.promote.wrap (l.toInt * 2 ^ shiftDistance a.promote r.toInt) := by
    rw [← shifted]
    constructor
    · rintro ⟨⟨same, -⟩⟩
      exact same
    · intro same
      exact .some (encodes_wrapped (ofWidth_promote a) same)
  rw [whole]
  cases promoted : a.promote with
  | long => simp
  | int =>
      have held := holds_promote left
      rw [promoted] at held
      simp only [forall_const]
      rw [wrap_of_holds (shifted_holds held), holds_iff_wrap, eq_comm]
  | _ => cases a <;> simp [promote] at promoted

/-- A number shifted to the right stays in the range of a signed type. -/
theorem holds_shifted {type : IntegralType} {n : Int} (k : Nat) (held : type.promote.Holds n) :
    type.promote.Holds (n / 2 ^ k) := by
  have factor : (0 : Int) < 2 ^ k := Int.pow_pos (by decide)
  have signed : type.promote.lowest < 0 ∧ 0 < type.promote.lowest + 2 ^ type.promote.bits := by
    cases type <;> decide
  obtain ⟨low, high⟩ := held
  rcases lt_or_ge n 0 with negative | nonnegative
  · have least : n ≤ n / 2 ^ k := by
      rw [Int.le_ediv_iff_mul_le factor]
      nlinarith
    have most : n / 2 ^ k < 0 := Int.ediv_neg_of_neg_of_pos negative factor
    constructor <;> omega
  · have least : 0 ≤ n / 2 ^ k := Int.ediv_nonneg nonnegative factor.le
    have most : n / 2 ^ k ≤ n := Int.ediv_le_self _ nonnegative
    constructor <;> omega

theorem toInt_sshiftRight_eq (l : BitVec 64) (k : Nat) : (l.sshiftRight k).toInt = l.toInt / 2 ^ k := by
  rw [BitVec.toInt_sshiftRight, Int.shiftRight_eq_div_pow]
  push_cast
  rfl

/-- A word shifted without its sign. -/
theorem wrapUshr_toInt {isLong : Bool} {distance : BitVec 64} :
    (wrapUshr isLong l distance).toInt = (ofWidth isLong).wrap
      (l.toInt % 2 ^ (ofWidth isLong).bits / 2 ^ (distance &&& shiftMask isLong).toNat) := by
  simp only [wrapUshr]
  generalize (distance &&& shiftMask isLong).toNat = k
  have whole : (l.toNat : Int) % 2 ^ 64 = l.toInt % 2 ^ 64 := by
    rw [l.toInt_eq_toNat_bmod]
    exact (Int.bmod_emod).symm
  have small : (l.toNat : Int) < 2 ^ 64 := by exact_mod_cast l.isLt
  cases isLong with
  | true =>
      simp only [if_true, ofWidth, bits]
      rw [← whole, Int.emod_eq_of_lt (by omega) small, BitVec.toInt_eq_toNat_bmod,
        BitVec.toNat_ushiftRight, Nat.shiftRight_eq_div_pow, wrap_long]
      push_cast
      rfl
  | false =>
      have low : (l.toNat : Int) % 2 ^ 32 = l.toInt % 2 ^ 32 := by omega
      simp only [Bool.false_eq_true, if_false, ofWidth, bits]
      rw [widen_toInt, ← low, BitVec.toInt_eq_toNat_bmod, BitVec.toNat_ushiftRight,
        Nat.shiftRight_eq_div_pow, BitVec.truncate_eq_setWidth, BitVec.toNat_setWidth, wrap_int]
      push_cast
      rfl

/-- Both operands of an operation at 32 bits are numbers of 32 bits. -/
theorem holds_int_of_narrow (left : a.Holds l.toInt) (right : b.Holds r.toInt)
    (narrow : (decide (a = .long) || decide (b = .long)) = false) :
    IntegralType.int.Holds l.toInt ∧ IntegralType.int.Holds r.toInt := by
  have one {type : IntegralType} {n : Int} (short : type ≠ .long) (held : type.Holds n) :
      IntegralType.int.Holds n := by
    cases type <;> simp only [Holds, lowest, bits, ne_eq, not_true] at held short ⊢ <;> omega
  simp only [Bool.or_eq_false_iff, decide_eq_false_iff_not] at narrow
  exact ⟨one narrow.1 left, one narrow.2 right⟩

/-- Division and remainder of words, when they are those of numbers at both widths. -/
theorem divRem_agrees {isRem : Bool} {result : Int} (left : a.Holds l.toInt)
    (right : b.Holds r.toInt)
    (wide : ∀ x y : BitVec 64, x.toInt = l.toInt → y.toInt = r.toInt →
      (if isRem then x.srem y else x.sdiv y).toInt = IntegralType.long.wrap result)
    (narrow : ∀ x y : BitVec 32, x.toInt = l.toInt → y.toInt = r.toInt →
      (if isRem then x.srem y else x.sdiv y).toInt = IntegralType.int.wrap result) :
    Option.Rel Encodes
      ((wrapDivRem (decide (a = .long) || decide (b = .long)) isRem l r).map fun v =>
        .int v (decide (a = .long) || decide (b = .long)))
      (if r.toInt = 0 then none else some (.wrapped (a.promoteWith b) result)) := by
  have width := ofWidth_promoteWith a b
  have small := holds_int_of_narrow left right
  generalize (decide (a = .long) || decide (b = .long)) = isLong at *
  by_cases zero : r.toInt = 0
  · have none_ : r = 0 := BitVec.toInt_inj.mp (zero.trans BitVec.toInt_zero.symm)
    rw [if_pos zero]
    simp only [wrapDivRem, if_pos none_]
    exact .none
  · have divisor : r ≠ 0 := fun same => zero (same ▸ BitVec.toInt_zero)
    rw [if_neg zero]
    simp only [wrapDivRem, if_neg divisor]
    cases isLong with
    | true =>
        have exact_ := wide l r rfl rfl
        cases isRem <;> exact .some (encodes_wrapped width (width ▸ exact_))
    | false =>
        have low := narrow_toInt_of_holds (small rfl).1
        have high := narrow_toInt_of_holds (small rfl).2
        have kept : r.truncate 32 ≠ 0#32 := fun same => by
          rw [same] at high
          exact zero (high.symm.trans BitVec.toInt_zero)
        have exact_ := narrow _ _ low high
        simp only [Bool.not_false, Bool.true_and, decide_eq_true_eq, if_neg kept]
        cases isRem <;>
          exact .some (encodes_wrapped width (by rw [← width]; exact (widen_toInt _).trans exact_))

/-- Every other operator on integers computes the value of the language. -/
theorem ints_agree {op : BinaryOp} {type : ConstType} (other : op ≠ .shl) (left : a.Holds l.toInt)
    (right : b.Holds r.toInt) (typed : integralType op a b = some type) :
    Option.Rel Encodes (constInts op l (decide (a = .long)) r (decide (b = .long)))
      (integralValue op a l.toInt b r.toInt) := by
  have width := ofWidth_promoteWith a b
  cases op with
  | add =>
      apply Option.Rel.some
      apply encodes_atWidth width
      · intro l r
        exact BitVec.setWidth_add l r (by decide)
      · rw [BitVec.toInt_add, wrap_long]
  | sub =>
      apply Option.Rel.some
      apply encodes_atWidth width
      · intro l r
        simp only [BitVec.sub_eq_add_neg, BitVec.truncate_eq_setWidth]
        rw [BitVec.setWidth_add _ _ (by decide), BitVec.setWidth_neg_of_le (by decide)]
      · rw [BitVec.toInt_sub, wrap_long]
  | mul =>
      apply Option.Rel.some
      apply encodes_atWidth width
      · intro l r
        exact BitVec.setWidth_mul l r (by decide)
      · rw [BitVec.toInt_mul, wrap_long]
  | div =>
      apply divRem_agrees left right <;> intro x y low high
      · simp only [Bool.false_eq_true, if_false]
        rw [BitVec.toInt_sdiv, low, high, wrap_long]
      · simp only [Bool.false_eq_true, if_false]
        rw [BitVec.toInt_sdiv, low, high, wrap_int]
  | rem =>
      apply divRem_agrees left right <;> intro x y low high
      · simp only [if_true]
        rw [← wrap_toInt_long, BitVec.toInt_srem, low, high]
      · simp only [if_true]
        rw [← wrap_toInt_int, BitVec.toInt_srem, low, high]
  | shl => exact absurd rfl other
  | shr =>
      apply Option.Rel.some
      apply encodes_wrapped (ofWidth_promote a)
      rw [toInt_sshiftRight_eq, shiftMask_toNat, wrap_of_holds (holds_shifted _ (holds_promote left))]
  | uShr =>
      apply Option.Rel.some
      apply encodes_wrapped (ofWidth_promote a)
      rw [wrapUshr_toInt, shiftMask_toNat, ofWidth_promote]
  | lt => exact .some (by simp [Encodes, BitVec.slt_eq_decide])
  | gt => exact .some (by simp [Encodes, BitVec.slt_eq_decide])
  | le => exact .some (by simp [Encodes, BitVec.sle_eq_decide])
  | ge => exact .some (by simp [Encodes, BitVec.sle_eq_decide])
  | eq => exact .some (by simp [Encodes, BitVec.toInt_inj, beq_eq_decide])
  | ne => exact .some (by simp [Encodes, BitVec.toInt_inj, bne, beq_eq_decide])
  | bitAnd =>
      apply Option.Rel.some
      apply encodes_atWidth width
      · intro l r
        exact BitVec.setWidth_and
      · rw [BitVec.ofInt_toInt, BitVec.ofInt_toInt, wrap_toInt_long]
  | bitXor =>
      apply Option.Rel.some
      apply encodes_atWidth width
      · intro l r
        exact BitVec.setWidth_xor
      · rw [BitVec.ofInt_toInt, BitVec.ofInt_toInt, wrap_toInt_long]
  | bitOr =>
      apply Option.Rel.some
      apply encodes_atWidth width
      · intro l r
        exact BitVec.setWidth_or
      · rw [BitVec.ofInt_toInt, BitVec.ofInt_toInt, wrap_toInt_long]
  | and | or => simp [integralType] at typed

end Integers

/-! ### Any operands -/

theorem booleans_agree {op : BinaryOp} {type : ConstType} (a b : Bool)
    (typed : binaryType op .boolean .boolean = some type) :
    Option.Rel Encodes (constBools op a b) (booleanValue op a b) := by
  cases op <;> simp only [binaryType, reduceCtorEq] at typed <;>
    exact .some (by cases a <;> cases b <;> rfl)

/-- The operands of an operator that has a type: two integers, two booleans, or a concatenation. -/
theorem operand_cases {op : BinaryOp} {c d : Const} {x y : JavaConst} {type : ConstType}
    {P : Const → JavaConst → Const → JavaConst → Prop} (left : Encodes c x) (right : Encodes d y)
    (typed : binaryType op x.type y.type = some type)
    (ints : ∀ (l r : BitVec 64) (a b : IntegralType) (held : a.Holds l.toInt)
      (held' : b.Holds r.toInt), integralType op a b = some type →
      P (.int l (decide (a = .long))) (.integral a l.toInt held) (.int r (decide (b = .long)))
        (.integral b r.toInt held'))
    (bools : ∀ a b, binaryType op .boolean .boolean = some type →
      P (.bool a) (.boolean a) (.bool b) (.boolean b))
    (concat : op = .add → (x.type = .string ∨ y.type = .string) → P c x d y) : P c x d y := by
  by_cases string : x.type = .string ∨ y.type = .string
  · apply concat _ string
    rcases string with same | same <;> rw [same] at typed
    · cases op <;> first | rfl | (cases y <;> simp [binaryType, JavaConst.type] at typed)
    · cases op <;> first | rfl | (cases x <;> simp [binaryType, JavaConst.type] at typed)
  · cases c with
    | int l lLong =>
        cases x with
        | integral a n held =>
            obtain ⟨rfl, rfl⟩ := left
            cases d with
            | int r rLong =>
                cases y with
                | integral b m held' =>
                    obtain ⟨rfl, rfl⟩ := right
                    apply ints
                    cases op <;> simpa [binaryType, JavaConst.type] using typed
                | _ => exact right.elim
            | bool b =>
                cases y with
                | boolean b => cases op <;> simp [binaryType, JavaConst.type] at typed
                | _ => exact right.elim
            | str s =>
                cases y with
                | string units => exact absurd (.inr rfl) string
                | _ => exact right.elim
        | _ => exact left.elim
    | bool a =>
        cases x with
        | boolean a =>
            obtain rfl := left
            cases d with
            | int r rLong =>
                cases y with
                | integral b m held' => cases op <;> simp [binaryType, JavaConst.type] at typed
                | _ => exact right.elim
            | bool b =>
                cases y with
                | boolean b =>
                    obtain rfl := right
                    exact bools _ _ typed
                | _ => exact right.elim
            | str s =>
                cases y with
                | string units => exact absurd (.inr rfl) string
                | _ => exact right.elim
        | _ => exact left.elim
    | str s =>
        cases x with
        | string units => exact absurd (.inl rfl) string
        | _ => exact left.elim

theorem constBinary_ints {op : BinaryOp} {l r : BitVec 64} {lLong rLong : Bool} :
    constBinary op (.int l lLong) (.int r rLong) = constInts op l lLong r rLong := by
  cases op <;> rfl

theorem constBinary_bools {op : BinaryOp} {a b : Bool} :
    constBinary op (.bool a) (.bool b) = constBools op a b := by
  cases op <;> rfl

theorem binaryValue_integral {op : BinaryOp} {a b : IntegralType} {n m : Int} {held : a.Holds n}
    {held' : b.Holds m} :
    binaryValue op (.integral a n held) (.integral b m held') = integralValue op a n b m := by
  cases op <;> rfl

theorem binaryValue_boolean {op : BinaryOp} {a b : Bool} :
    binaryValue op (.boolean a) (.boolean b) = booleanValue op a b := by
  cases op <;> rfl

/-- A concatenation puts the texts of both operands together. -/
theorem constBinary_concat {c d : Const} {x y : JavaConst} (left : Encodes c x)
    (right : Encodes d y) (string : x.type = .string ∨ y.type = .string) :
    constBinary .add c d = some (.str (c.text ++ d.text)) ∧
      binaryValue .add x y = some (.string (x.text ++ y.text)) := by
  cases c <;> cases x <;> first | exact left.elim | skip
  all_goals cases d <;> cases y <;> first | exact right.elim | skip
  all_goals simp_all [JavaConst.type, constBinary, binaryValue, JavaConst.text, Const.text]

/-- An operator over evaluated constants gives the value of the language, when it shifts no `int`
out of range and concatenates no `char`. -/
theorem binary_agrees {op : BinaryOp} {c d : Const} {x y : JavaConst} {type : ConstType}
    (left : Encodes c x) (right : Encodes d y) (typed : binaryType op x.type y.type = some type)
    (inRange : op = .shl → ∀ a n held b m held', x = .integral a n held → y = .integral b m held' →
      a.promote = .int → IntegralType.int.Holds (n * 2 ^ shiftDistance .int m))
    (noChar : op = .add → (x.type = .string → y.type ≠ .integral .char) ∧
      (y.type = .string → x.type ≠ .integral .char)) :
    Option.Rel Encodes (constBinary op c d) (binaryValue op x y) := by
  revert inRange noChar
  apply operand_cases left right typed
  · intro l r a b held held' sort inRange _
    rw [constBinary_ints, binaryValue_integral]
    by_cases shift : op = .shl
    · subst shift
      exact (shl_agrees_iff held).mpr (inRange rfl a _ held b _ held' rfl rfl)
    · exact ints_agree shift held held' sort
  · intro a b sort _ _
    rw [constBinary_bools, binaryValue_boolean]
    exact booleans_agree a b sort
  · rintro rfl string - noChar
    obtain ⟨code, java⟩ := constBinary_concat left right string
    rw [code, java]
    apply Option.Rel.some
    have plain : x.type ≠ .integral .char ∧ y.type ≠ .integral .char := by
      rcases string with same | same
      · exact ⟨by simp [same], (noChar rfl).1 same⟩
      · exact ⟨(noChar rfl).2 same, by simp [same]⟩
    simp only [Encodes, List.flatMap_append]
    rw [text_agrees left plain.1, text_agrees right plain.2]

/-- Whether there is a value at all does not depend on the range of a shift or on a `char`. -/
theorem binary_isSome {op : BinaryOp} {c d : Const} {x y : JavaConst} {type : ConstType}
    (left : Encodes c x) (right : Encodes d y) (typed : binaryType op x.type y.type = some type) :
    (constBinary op c d).isSome = (binaryValue op x y).isSome := by
  have related {a : Option Const} {b : Option JavaConst} (rel : Option.Rel Encodes a b) :
      a.isSome = b.isSome := by
    cases rel <;> rfl
  apply operand_cases left right typed
  · intro l r a b held held' sort
    rw [constBinary_ints, binaryValue_integral]
    by_cases shift : op = .shl
    · subst shift
      rfl
    · exact related (ints_agree shift held held' sort)
  · intro a b sort
    rw [constBinary_bools, binaryValue_boolean]
    exact related (booleans_agree a b sort)
  · rintro rfl string
    obtain ⟨code, java⟩ := constBinary_concat left right string
    rw [code, java]
    rfl

end CaffeineLs.HirTy
