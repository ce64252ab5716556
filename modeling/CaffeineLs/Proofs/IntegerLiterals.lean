/-
Module: CaffeineLs.Proofs.IntegerLiterals
Purpose: Which integer literals get their Java value from the lowering and the constant evaluation.
Trusted boundary: none
Main exports: Reads, magnitude, valueIsJava_iff
-/
import CaffeineLs.HirDef.JavaLiterals
import CaffeineLs.HirTy.ConstEval
import CaffeineLs.Proofs.NumericGrammar

namespace CaffeineLs.HirDef

open HirTy
open JavaSyntax
open SourceText

/-! ### What a literal denotes -/

/-- The text is an integer literal of the radix, with the digits and the suffix. -/
inductive Reads : Text → Nat → Text → Text → Prop where
  | decimal {whole suffix : Text} : Digits isDecimalDigit whole →
      whole = ['0'] ∨ whole.head? ≠ some '0' → LongSuffix suffix →
      Reads (whole ++ suffix) 10 whole suffix
  | hex {x : Char} {whole suffix : Text} : HexLead x → Digits isHexDigit whole →
      LongSuffix suffix → Reads ('0' :: x :: (whole ++ suffix)) 16 whole suffix
  | octal {underscores whole suffix : Text} : (∀ c ∈ underscores, c = '_') →
      Digits isOctalDigit whole → LongSuffix suffix →
      Reads ('0' :: (underscores ++ whole ++ suffix)) 8 whole suffix
  | binary {b : Char} {whole suffix : Text} : BinaryLead b → Digits isBinaryDigit whole →
      LongSuffix suffix → Reads ('0' :: b :: (whole ++ suffix)) 2 whole suffix

/-- The number that digits write. -/
def numberOf (radix : Nat) (digits : Text) : Nat :=
  digits.foldl (fun value c => radix * value + hexValue c) 0

/-- The number that digits and underscores write. -/
def magnitude (radix : Nat) (whole : Text) : Nat := numberOf radix (whole.filter (· ≠ '_'))

/-- The bits of the literal's type. -/
def width (suffix : Text) : Nat := if suffix.isEmpty then 32 else 64

/-- The number is one the type has; the least decimal magnitude it has not is allowed as well, as the
operand of a unary minus. -/
def InRange (radix number : Nat) (suffix : Text) : Prop :=
  if radix = 10 then number ≤ 2 ^ (width suffix - 1) else number < 2 ^ width suffix

/-- The literal may stand under a unary minus only. -/
def OnlyNegated (radix number : Nat) (suffix : Text) : Prop :=
  radix = 10 ∧ number = 2 ^ (width suffix - 1)

/-- The two's complement reading at the width of the type. -/
def javaValue (number : Nat) (suffix : Text) : Const :=
  if suffix.isEmpty then .int ((BitVec.ofNat 32 number).signExtend 64) false
  else .int (BitVec.ofNat 64 number) true

/-- The evaluation gives the literal with the text its value; where it may stand under a minus only, it
gives the negation the least value of the type, which is what the number wraps to. -/
def ValueIsJava (raw : Text) (radix number : Nat) (suffix : Text) : Prop :=
  (OnlyNegated radix number suffix →
    (constLiteral (integerLiteral raw)).bind (constUnary .minus) = some (javaValue number suffix)) ∧
  (¬ OnlyNegated radix number suffix →
    constLiteral (integerLiteral raw) = some (javaValue number suffix))

/-! ### Texts without escapes -/

theorem getLast?_digits {p : Char → Bool} {whole : Text} (digits : Digits p whole) :
    ∃ init last, whole = init ++ [last] ∧ p last = true := by
  obtain ⟨some, chars, -, lastNot⟩ := digits
  obtain ⟨init, last, rfl⟩ := (List.eq_nil_or_concat whole).resolve_left some
  rw [List.concat_eq_append] at chars lastNot ⊢
  refine ⟨init, last, rfl, (chars last (by simp)).resolve_right ?_⟩
  intro underscore
  exact lastNot (by simp [underscore])

theorem not_longMark_of_hexdigit {c : Char} (hex : isAsciiHexdigit c = true) : isLongMark c = false := by
  by_contra mark
  rw [Bool.not_eq_false, isLongMark, Bool.or_eq_true, decide_eq_true_eq, decide_eq_true_eq] at mark
  rcases mark with rfl | rfl <;> exact absurd hex (by decide)

theorem not_longMark_of_hex {c : Char} (hex : isHexDigit c = true) : isLongMark c = false := by
  rw [isHexDigit, isDigit, Bool.and_eq_true] at hex
  exact not_longMark_of_hexdigit hex.1

section

variable (front : Text) {whole suffix : Text}

theorem rdropWhile_suffix (suffixed : LongSuffix suffix) (digits : Digits isHexDigit whole) :
    (front ++ (whole ++ suffix)).rdropWhile isLongMark = front ++ whole := by
  obtain ⟨init, last, rfl, hex⟩ := getLast?_digits digits
  have stops : ¬ isLongMark last = true := by
    rw [not_longMark_of_hex hex]
    exact Bool.false_ne_true
  have kept : (front ++ (init ++ [last])).rdropWhile isLongMark = front ++ (init ++ [last]) := by
    rw [← List.append_assoc]
    exact List.rdropWhile_concat_neg _ _ _ stops
  rcases suffixed with rfl | rfl | rfl
  · rw [List.append_nil, kept]
  · rw [← List.append_assoc, List.rdropWhile_concat_pos _ _ _ rfl, kept]
  · rw [← List.append_assoc, List.rdropWhile_concat_pos _ _ _ rfl, kept]

theorem getLast?_suffix (suffixed : LongSuffix suffix) (digits : Digits isHexDigit whole) :
    (front ++ (whole ++ suffix)).getLast?.any isLongMark = !suffix.isEmpty := by
  rcases suffixed with rfl | rfl | rfl
  · obtain ⟨init, last, rfl, hex⟩ := getLast?_digits digits
    simp [not_longMark_of_hex hex]
  · simp [isLongMark]
  · simp [isLongMark]

end

/-! ### Digits -/

theorem foldl_cast (radix : Nat) (digits : Text) (start : Nat) :
    digits.foldl (fun (value : Int) c => radix * value + hexValue c) start =
      ((digits.foldl (fun value c => radix * value + hexValue c) start : Nat) : Int) := by
  induction digits generalizing start with
  | nil => rfl
  | cons c digits ih =>
      rw [List.foldl_cons, List.foldl_cons, ← ih]
      push_cast
      rfl

theorem isHexDigit_of_isDigit {c : Char} {radix : Nat} (small : radix ≤ 16)
    (digit : isDigit c radix = true) : isHexDigit c = true := by
  rw [isDigit, Bool.and_eq_true, decide_eq_true_eq] at digit
  rw [isHexDigit, isDigit, Bool.and_eq_true, decide_eq_true_eq]
  exact ⟨digit.1, by omega⟩

/-- Digits without a sign have the value they write, if it fits. -/
theorem i64FromStrRadix_digits {radix : Nat} {digits : Text} (some : digits ≠ [])
    (each : ∀ c ∈ digits, isDigit c radix = true) :
    i64FromStrRadix digits radix =
      if numberOf radix digits < 2 ^ 63 then Option.some ((numberOf radix digits : Nat) : Int)
      else none := by
  obtain ⟨first, rest, rfl⟩ := List.exists_cons_of_ne_nil some
  have digit := each first List.mem_cons_self
  have hexdigit : isAsciiHexdigit first = true := by
    rw [isDigit, Bool.and_eq_true] at digit
    exact digit.1
  have noMinus : first ≠ '-' := by
    rintro rfl
    exact absurd hexdigit (by decide)
  have noPlus : first ≠ '+' := by
    rintro rfl
    exact absurd hexdigit (by decide)
  have all : (first :: rest).all (isDigit · radix) = true := List.all_eq_true.mpr each
  have cast : (first :: rest).foldl (fun (value : Int) c => radix * value + hexValue c) 0 =
      (numberOf radix (first :: rest) : Int) := foldl_cast radix (first :: rest) 0
  simp only [i64FromStrRadix, List.head?_cons, Option.some.injEq, noMinus, noPlus, decide_false,
    Bool.or_self, Bool.false_eq_true, if_false, all, List.isEmpty_cons, Bool.not_true, cast]
  generalize numberOf radix (first :: rest) = number
  have fits : (-2 ^ 63 ≤ (number : Int) ∧ (number : Int) < 2 ^ 63) ↔ number < 2 ^ 63 := by omega
  simp only [fits]

/-- What is no digit makes the number invalid. -/
theorem i64FromStrRadix_backslash {radix : Nat} {text : Text} (inside : '\\' ∈ text) :
    i64FromStrRadix text radix = none := by
  rw [i64FromStrRadix]
  have stays : ∀ b : Bool, (b = true → text.head? ≠ some '\\') →
      '\\' ∈ (if b then text.tail else text) := by
    intro b other
    cases b with
    | false => exact inside
    | true =>
        cases text with
        | nil => exact inside
        | cons first rest =>
            refine (List.mem_cons.mp inside).resolve_left ?_
            rintro rfl
            exact other rfl rfl
  have signed := stays (text.head? = some '-' || text.head? = some '+') (by
    intro sign backslash
    rw [backslash] at sign
    exact absurd sign (by decide))
  dsimp only
  rw [if_pos]
  rw [Bool.or_eq_true, Bool.not_eq_true', List.all_eq_false]
  exact Or.inr ⟨'\\', signed, by simp [isDigit, show isAsciiHexdigit '\\' = false by decide]⟩

/-! ### The value of the text -/

section

variable {whole suffix : Text}

theorem filter_digits {p : Char → Bool} (digits : Digits p whole) (noUnderscore : p '_' = false) :
    whole.filter (· ≠ '_') ≠ [] ∧ ∀ c ∈ whole.filter (· ≠ '_'), p c = true := by
  constructor
  · obtain ⟨init, last, rfl, digit⟩ := getLast?_digits digits
    have other : last ≠ '_' := by
      rintro rfl
      rw [noUnderscore] at digit
      cases digit
    intro nothing
    exact List.filter_eq_nil_iff.mp nothing last (by simp) (by simp [other])
  · intro c member
    obtain ⟨inside, other⟩ := List.mem_filter.mp member
    exact (digits.2.1 c inside).resolve_right (by simpa using other)

theorem stripLead_of_ne {a b c d : Char} {rest : Text} (other : a ≠ c ∨ b ≠ d) :
    stripLead [a, b] (c :: d :: rest) = none := by
  rw [stripLead, if_neg]
  simp only [List.isPrefixOf, Bool.and_eq_true, beq_iff_eq, Bool.and_true]
  rintro ⟨rfl, rfl⟩
  rcases other with other | other <;> exact other rfl

theorem stripLead_self {a b : Char} {rest : Text} : stripLead [a, b] (a :: b :: rest) = some rest := by
  simp [stripLead, List.isPrefixOf]

/-- The number as an `i64`. -/
def fitting (number : Nat) : Option Int := if number < 2 ^ 63 then some number else none

theorem digits_mono {p q : Char → Bool} (digits : Digits p whole) (weaker : ∀ c, p c = true → q c = true) :
    Digits q whole :=
  ⟨digits.1, fun c member => (digits.2.1 c member).imp_left (weaker c), digits.2.2⟩

theorem hexDigits {p : Char → Bool} (digits : Digits p whole)
    (weaker : ∀ c, p c = true → isHexDigit c = true) : Digits isHexDigit whole :=
  digits_mono digits weaker

/-- The digits of the text, once the suffix and the underscores are gone. -/
theorem stripped (front : Text) (suffixed : LongSuffix suffix) (digits : Digits isHexDigit whole) :
    ((front ++ (whole ++ suffix)).rdropWhile isLongMark).filter (· ≠ '_') =
      front.filter (· ≠ '_') ++ whole.filter (· ≠ '_') := by
  rw [rdropWhile_suffix front suffixed digits, List.filter_append]

theorem integerValue_hex {x : Char} (lead : HexLead x) {digits : Text} (some : digits ≠ [])
    (each : ∀ c ∈ digits, isDigit c 16 = true) :
    integerValue ('0' :: x :: digits) = fitting (numberOf 16 digits) := by
  have read := i64FromStrRadix_digits some each
  rcases lead with rfl | rfl
  · rw [integerValue, stripLead_self]
    exact read
  · rw [integerValue, stripLead_of_ne (Or.inr (by decide)), stripLead_self]
    exact read

theorem integerValue_binary {b : Char} (lead : BinaryLead b) {digits : Text} (some : digits ≠ [])
    (each : ∀ c ∈ digits, isDigit c 2 = true) :
    integerValue ('0' :: b :: digits) = fitting (numberOf 2 digits) := by
  have read := i64FromStrRadix_digits some each
  rcases lead with rfl | rfl
  · rw [integerValue, stripLead_of_ne (Or.inr (by decide)), stripLead_of_ne (Or.inr (by decide)),
      stripLead_self]
    exact read
  · rw [integerValue, stripLead_of_ne (Or.inr (by decide)), stripLead_of_ne (Or.inr (by decide)),
      stripLead_of_ne (Or.inr (by decide)), stripLead_self]
    exact read

/-- No radix is marked where the second character is a digit below 10. -/
theorem integerValue_unmarked {c d : Char} {rest : Text} (digit : c ≠ '0' ∨ isDigit d 10 = true) :
    integerValue (c :: d :: rest) =
      if c = '0' then i64FromStrRadix (c :: d :: rest) 8 else i64FromStrRadix (c :: d :: rest) 10 := by
  have none : ∀ mark : Char, isDigit mark 10 = false → stripLead ['0', mark] (c :: d :: rest) = none := by
    intro mark letter
    apply stripLead_of_ne
    rcases digit with other | digit
    · exact Or.inl (Ne.symm other)
    · right
      rintro rfl
      rw [letter] at digit
      cases digit
  have long : 1 < byteLen (c :: d :: rest) := by
    have first := c.utf8Size_pos
    have second := d.utf8Size_pos
    simp only [byteLen_cons]
    omega
  rw [integerValue, none 'x' (by decide), none 'X' (by decide), none 'b' (by decide),
    none 'B' (by decide)]
  simp only [Option.or_none, long, decide_true, Bool.true_and, List.head?_cons, Option.some.injEq,
    decide_eq_true_eq]

theorem integerValue_octal {digits : Text} (some : digits ≠ [])
    (each : ∀ c ∈ digits, isDigit c 8 = true) :
    integerValue ('0' :: digits) = fitting (numberOf 8 digits) := by
  obtain ⟨first, rest, rfl⟩ := List.exists_cons_of_ne_nil some
  have below : isDigit first 10 = true := by
    have octal := each first List.mem_cons_self
    rw [isDigit, Bool.and_eq_true, decide_eq_true_eq] at octal ⊢
    exact ⟨octal.1, by omega⟩
  have all : ∀ c ∈ '0' :: first :: rest, isDigit c 8 = true := by
    intro c member
    rcases List.mem_cons.mp member with rfl | member
    · decide
    · exact each c member
  rw [integerValue_unmarked (Or.inr below), if_pos rfl, i64FromStrRadix_digits (by simp) all]
  rfl

theorem integerValue_decimal {digits : Text} (nonempty : digits ≠ [])
    (each : ∀ c ∈ digits, isDigit c 10 = true) (lead : digits = ['0'] ∨ digits.head? ≠ some '0') :
    integerValue digits = fitting (numberOf 10 digits) := by
  have read := i64FromStrRadix_digits nonempty each
  match digits, nonempty with
  | [c], _ =>
      have digit := each c List.mem_cons_self
      rw [isDigit, Bool.and_eq_true] at digit
      have short : ¬ 1 < byteLen [c] := by
        rw [byteLen_cons, byteLen_nil, utf8Size_of_hexdigit digit.1]
        omega
      have none : ∀ mark : Char, stripLead ['0', mark] [c] = none := by
        intro mark
        simp [stripLead, List.isPrefixOf]
      rw [integerValue, none, none, none, none]
      simp only [Option.or_none, short, decide_false, Bool.false_and, Bool.false_eq_true, if_false]
      exact read
  | c :: d :: rest, _ =>
      have other : c ≠ '0' := by
        rintro rfl
        rcases lead with lead | lead
        · cases lead
        · exact lead rfl
      rw [integerValue_unmarked (Or.inl other), if_neg other]
      exact read

/-- The value of a literal's text. -/
theorem integerValue_reads {text : Text} {radix : Nat} (reads : Reads text radix whole suffix) :
    integerValue ((text.rdropWhile isLongMark).filter (· ≠ '_')) = fitting (magnitude radix whole) ∧
      text.getLast?.any isLongMark = !suffix.isEmpty := by
  cases reads with
  | decimal digits lead suffixed =>
      have hex := hexDigits digits fun c => isHexDigit_of_isDigit (by decide)
      have last := getLast?_suffix [] suffixed hex
      have front := stripped [] suffixed hex
      obtain ⟨nonempty, each⟩ := filter_digits digits (by decide)
      rw [List.nil_append] at last front
      rw [front, List.filter_nil, List.nil_append]
      refine ⟨integerValue_decimal nonempty each ?_, last⟩
      rcases lead with rfl | lead
      · exact Or.inl rfl
      · right
        -- The first character is a digit, and stays the first.
        obtain ⟨first, rest, rfl⟩ := List.exists_cons_of_ne_nil digits.1
        have other : first ≠ '_' := by
          rintro rfl
          exact digits.2.2.1 rfl
        rw [List.filter_cons_of_pos (by simpa using other)]
        exact lead
  | @hex x whole suffix lead digits suffixed =>
      have last := getLast?_suffix ['0', x] suffixed digits
      have front := stripped ['0', x] suffixed digits
      obtain ⟨nonempty, each⟩ := filter_digits digits (by decide)
      have kept : ['0', x].filter (· ≠ '_') = ['0', x] := by
        rcases lead with rfl | rfl <;> rfl
      rw [kept] at front
      exact ⟨front ▸ integerValue_hex lead nonempty each, last⟩
  | @octal underscores whole suffix only digits suffixed =>
      have octal : ∀ c, isOctalDigit c = true → isDigit c 8 = true := fun c isOctal =>
        isOctalDigit_eq ▸ isOctal
      have hex := hexDigits digits fun c isOctal => isHexDigit_of_isDigit (by decide) (octal c isOctal)
      have last := getLast?_suffix ('0' :: underscores) suffixed hex
      have front := stripped ('0' :: underscores) suffixed hex
      obtain ⟨nonempty, each⟩ := filter_digits digits (by decide)
      have kept : ('0' :: underscores).filter (· ≠ '_') = ['0'] := by
        rw [List.filter_cons_of_pos (by decide), List.filter_eq_nil_iff.mpr]
        intro c member
        simp [only c member]
      rw [kept] at front
      rw [List.cons_append] at front last
      rw [List.append_assoc]
      exact ⟨front ▸ integerValue_octal nonempty fun c member => octal c (each c member), last⟩
  | @binary b whole suffix lead digits suffixed =>
      have hex := hexDigits digits fun c => isHexDigit_of_isDigit (by decide)
      have last := getLast?_suffix ['0', b] suffixed hex
      have front := stripped ['0', b] suffixed hex
      obtain ⟨nonempty, each⟩ := filter_digits digits (by decide)
      have kept : ['0', b].filter (· ≠ '_') = ['0', b] := by
        rcases lead with rfl | rfl <;> rfl
      rw [kept] at front
      exact ⟨front ▸ integerValue_binary lead nonempty each, last⟩

end

/-! ### Texts with escapes -/

theorem mem_rdropWhile {p : Char → Bool} {c : Char} {text : Text} (inside : c ∈ text)
    (stays : p c = false) : c ∈ text.rdropWhile p := by
  rw [List.rdropWhile, List.mem_reverse]
  have split := List.takeWhile_append_dropWhile (p := p) (l := text.reverse)
  have member : c ∈ text.reverse.takeWhile p ++ text.reverse.dropWhile p := by
    rw [split]
    exact List.mem_reverse.mpr inside
  refine (List.mem_append.mp member).resolve_left ?_
  intro taken
  rw [List.mem_takeWhile_imp taken] at stays
  cases stays

theorem mem_stripLead {lead text rest : Text} (inside : '\\' ∈ text) (other : '\\' ∉ lead)
    (strips : stripLead lead text = some rest) : '\\' ∈ rest := by
  rw [stripLead] at strips
  split at strips
  · rename_i starts
    obtain ⟨tail, rfl⟩ := List.isPrefixOf_iff_prefix.mp starts
    rw [List.drop_left] at strips
    rw [← Option.some.inj strips]
    exact (List.mem_append.mp inside).resolve_left other
  · cases strips

/-- An escape leaves no value. -/
theorem integerValue_backslash {text : Text} (inside : '\\' ∈ text) : integerValue text = none := by
  have read := fun rest (within : '\\' ∈ rest) radix =>
    (i64FromStrRadix_backslash within : i64FromStrRadix rest radix = none)
  have either : ∀ {one two : Option Text} {rest : Text}, one.or two = some rest →
      one = some rest ∨ two = some rest := by
    intro one two rest found
    cases one with
    | none => exact Or.inr found
    | some _ => exact Or.inl found
  rw [integerValue]
  split
  · rename_i hex found
    rcases either found with found | found
    · exact read hex (mem_stripLead inside (by decide) found) 16
    · exact read hex (mem_stripLead inside (by decide) found) 16
  · split
    · rename_i oct found
      rcases either found with found | found
      · exact read oct (mem_stripLead inside (by decide) found) 2
      · exact read oct (mem_stripLead inside (by decide) found) 2
    · split
      · exact read text inside 8
      · exact read text inside 10

section

variable {chars : List LogicalChar}

/-- A text without a backslash is what it is read as. -/
theorem plain_of_no_backslash (plain : '\\' ∉ spelled chars) :
    spelled chars = chars.map LogicalChar.char := by
  induction chars with
  | nil => rfl
  | cons lc rest ih =>
      rw [spelled_cons, List.mem_append, not_or] at plain
      rw [spelled_cons, List.map_cons, ih plain.2]
      cases lc with
      | plain c => rfl
      | escape c tail => exact absurd List.mem_cons_self plain.1
      | illFormed len => exact absurd List.mem_cons_self plain.1

theorem hexdigit_of_spells {taken : Text} {c : Char} (spells : Spells taken c) :
    ∃ init last, taken = init ++ [last] ∧ isAsciiHexdigit last = true := by
  have single : ∀ {text : Text} {code : Nat}, Escapes text code →
      ∃ init last, text = init ++ [last] ∧ isAsciiHexdigit last = true := by
    rintro text code ⟨k, hex, rfl, four, digits, -⟩
    have nonempty : hex ≠ [] := by
      rintro rfl
      cases four
    obtain ⟨init, last, rfl⟩ := (List.eq_nil_or_concat hex).resolve_left nonempty
    rw [List.concat_eq_append] at digits ⊢
    refine ⟨'\\' :: (List.replicate (k + 1) 'u' ++ init), last, by simp, ?_⟩
    rw [List.all_append, Bool.and_eq_true] at digits
    simpa using digits.2
  rcases spells with ⟨code, escapes, -⟩ | ⟨high, low, codeHigh, codeLow, rfl, -, escapes, -⟩
  · exact single escapes
  · obtain ⟨init, last, rfl, hex⟩ := single escapes
    exact ⟨high ++ init, last, by simp, hex⟩

/-- The last character of a text is the last one it is read as, or no suffix. -/
theorem getLast?_spelled (decoded : Decoded chars) :
    (spelled chars).getLast?.any isLongMark = true →
      (spelled chars).getLast? = (chars.map LogicalChar.char).getLast? := by
  intro mark
  rcases List.eq_nil_or_concat chars with rfl | ⟨init, lc, rfl⟩
  · rfl
  · rw [List.concat_eq_append] at decoded mark ⊢
    have reads := decoded.drop.1
    rw [spelled_append, spelled_cons, spelled_nil, List.append_nil] at mark ⊢
    cases lc with
    | plain c => simp [LogicalChar.spelling, LogicalChar.char]
    | illFormed len =>
        simp [LogicalChar.spelling, isLongMark] at mark
    | escape c tail =>
        obtain ⟨front, last, same, hex⟩ := hexdigit_of_spells (reads.escapes c tail rfl).2
        rw [show (LogicalChar.escape c tail).spelling = front ++ [last] from same, ← List.append_assoc,
          List.getLast?_concat, Option.any_some] at mark
        rw [not_longMark_of_hexdigit hex] at mark
        cases mark

end

/-! ### The law -/

/-- The literal is written without escapes and its number is one that the type has, or it is the decimal
`2147483648`; or it is a zero whose suffix is no escape. -/
def Folds (raw : Text) (radix number : Nat) (suffix : Text) : Prop :=
  '\\' ∉ raw ∧ (if suffix.isEmpty then number < 2 ^ 31 ∨ radix = 10 else number < 2 ^ 63) ∨
    number = 0 ∧ (suffix ≠ [] → raw.getLast? = suffix.getLast?)

section

variable {raw : Text} {radix number : Nat} {suffix : Text}

/-- What is evaluated, by the value that the lowering found. -/
theorem evaluated (value : Option Int) (isLong : Bool)
    (parsed : integerValue ((raw.rdropWhile isLongMark).filter (· ≠ '_')) = value)
    (marked : raw.getLast?.any isLongMark = isLong) :
    constLiteral (integerLiteral raw) = some (.int (BitVec.ofInt 64 (value.getD 0)) isLong) := by
  simp only [integerLiteral, parsed, marked]
  cases isLong <;> rfl

theorem signExtend_eq_iff (small : number < 2 ^ 32) :
    BitVec.ofInt 64 number = (BitVec.ofNat 32 number).signExtend 64 ↔ number < 2 ^ 31 := by
  rw [← BitVec.toInt_inj, BitVec.toInt_signExtend_of_le (by decide), BitVec.toInt_ofInt,
    BitVec.toInt_eq_toNat_bmod, BitVec.toNat_ofNat, Nat.mod_eq_of_lt small]
  simp only [Int.bmod_def]
  omega

theorem zero_eq_signExtend_iff (small : number < 2 ^ 32) :
    BitVec.ofInt 64 0 = (BitVec.ofNat 32 number).signExtend 64 ↔ number = 0 := by
  rw [← BitVec.toInt_inj, BitVec.toInt_signExtend_of_le (by decide), BitVec.toInt_ofInt,
    BitVec.toInt_eq_toNat_bmod, BitVec.toNat_ofNat, Nat.mod_eq_of_lt small]
  simp only [Int.bmod_def]
  omega

theorem zero_eq_ofNat_iff (small : number < 2 ^ 64) :
    BitVec.ofInt 64 0 = BitVec.ofNat 64 number ↔ number = 0 := by
  rw [← BitVec.toNat_inj, BitVec.toNat_ofNat, Nat.mod_eq_of_lt small]
  exact eq_comm

/-- The numbers of a type. -/
theorem InRange.bound (inRange : InRange radix number suffix) : number < 2 ^ width suffix := by
  have positive : 0 < width suffix := by
    rw [width]
    split <;> omega
  rw [InRange] at inRange
  split at inRange
  · exact Nat.lt_of_le_of_lt inRange (Nat.pow_lt_pow_right (by omega) (by omega))
  · exact inRange

/-- An `int` with the value that its digits write. -/
theorem valueIsJava_int (inRange : InRange radix number [])
    (literal : constLiteral (integerLiteral raw) = some (.int (BitVec.ofInt 64 number) false)) :
    ValueIsJava raw radix number [] ↔ number < 2 ^ 31 ∨ radix = 10 := by
  have bound : number < 2 ^ 32 := inRange.bound
  rw [ValueIsJava, literal, Option.bind_some]
  by_cases negated : OnlyNegated radix number []
  · obtain ⟨decimal, least⟩ := negated
    subst decimal
    have same : number = 2 ^ 31 := least
    subst same
    exact iff_of_true ⟨fun _ => by decide, fun other => absurd ⟨rfl, rfl⟩ other⟩ (Or.inr rfl)
  · have folds : (number < 2 ^ 31 ∨ radix = 10) ↔ number < 2 ^ 31 := by
      refine ⟨fun either => either.elim id fun decimal => ?_, Or.inl⟩
      rw [InRange, if_pos decimal] at inRange
      have le : number ≤ 2 ^ 31 := inRange
      have ne : number ≠ 2 ^ 31 := fun same => negated ⟨decimal, same⟩
      omega
    rw [folds, ← signExtend_eq_iff bound]
    simp [negated, javaValue]

/-- A `long` with the value that its digits write. -/
theorem valueIsJava_long {c : Char} (small : number < 2 ^ 63)
    (literal : constLiteral (integerLiteral raw) = some (.int (BitVec.ofInt 64 number) true)) :
    ValueIsJava raw radix number [c] := by
  have plain : ¬ OnlyNegated radix number [c] := by
    intro ⟨_, least⟩
    have same : number = 2 ^ 63 := least
    omega
  refine ⟨fun negated => absurd negated plain, fun _ => ?_⟩
  rw [literal, javaValue]
  rfl

/-- A literal that became a zero. -/
theorem valueIsJava_zero {isLong : Bool} (inRange : InRange radix number suffix)
    (literal : constLiteral (integerLiteral raw) = some (.int (BitVec.ofInt 64 0) isLong)) :
    ValueIsJava raw radix number suffix ↔ number = 0 ∧ isLong = !suffix.isEmpty := by
  have bound := inRange.bound
  have right : some (Const.int (BitVec.ofInt 64 0) isLong) = some (javaValue number suffix) ↔
      number = 0 ∧ isLong = !suffix.isEmpty := by
    rw [javaValue]
    cases suffix with
    | nil => simp [← zero_eq_signExtend_iff bound]
    | cons c rest =>
        have wide : number < 2 ^ 64 := bound
        simp [← zero_eq_ofNat_iff wide]
  have negation : constUnary .minus (Const.int (BitVec.ofInt 64 0) isLong) =
      some (Const.int (BitVec.ofInt 64 0) isLong) := by
    cases isLong <;> decide
  rw [ValueIsJava, literal, Option.bind_some, negation, ← right]
  exact ⟨fun ⟨negated, plain⟩ => (Classical.em _).elim negated plain, fun same => ⟨fun _ => same, fun _ => same⟩⟩

end

/-- The literal ends in its suffix. -/
theorem Reads.ends {text : Text} {radix : Nat} {whole suffix : Text}
    (reads : Reads text radix whole suffix) :
    LongSuffix suffix ∧ ∃ front, text = front ++ suffix := by
  cases reads with
  | decimal _ _ suffixed => exact ⟨suffixed, _, rfl⟩
  | hex _ _ suffixed => exact ⟨suffixed, _ :: _ :: _, rfl⟩
  | octal _ _ suffixed => exact ⟨suffixed, _ :: _, rfl⟩
  | binary _ _ suffixed => exact ⟨suffixed, _ :: _ :: _, rfl⟩

/-- The last character of the text says `long` just if it is that of the suffix. -/
theorem mark_iff {chars : List LogicalChar} (decoded : Decoded chars) {radix : Nat}
    {whole suffix : Text} (reads : Reads (chars.map LogicalChar.char) radix whole suffix)
    (mark : (chars.map LogicalChar.char).getLast?.any isLongMark = !suffix.isEmpty) :
    (spelled chars).getLast?.any isLongMark = (!suffix.isEmpty) ↔
      (suffix ≠ [] → (spelled chars).getLast? = suffix.getLast?) := by
  have same := getLast?_spelled decoded
  obtain ⟨suffixed, front, text⟩ := reads.ends
  have ends : suffix ≠ [] → (chars.map LogicalChar.char).getLast? = suffix.getLast? := by
    intro nonempty
    rw [text, List.getLast?_append_of_ne_nil _ nonempty]
  cases suffix with
  | nil =>
      refine iff_of_true ?_ fun absurd => (absurd rfl).elim
      rw [List.isEmpty_nil, Bool.not_true, ← Bool.not_eq_true]
      intro long
      rw [← same long, long] at mark
      cases mark
  | cons c rest =>
      rw [List.isEmpty_cons, Bool.not_false]
      constructor
      · intro long nonempty
        rw [same long, ends nonempty]
      · intro spelledSo
        rw [spelledSo (List.cons_ne_nil _ _), ← ends (List.cons_ne_nil _ _)]
        exact mark

/-- The evaluation gives an integer literal its Java value just if it is written without escapes and its
number is in the signed range, or it is a zero. -/
theorem valueIsJava_iff {raw : Text} {chars : List LogicalChar} {radix : Nat} {whole suffix : Text}
    (decodes : decode raw = some chars)
    (reads : Reads (chars.map LogicalChar.char) radix whole suffix)
    (inRange : InRange radix (magnitude radix whole) suffix) :
    ValueIsJava raw radix (magnitude radix whole) suffix ↔
      Folds raw radix (magnitude radix whole) suffix := by
  obtain ⟨decoded, rfl⟩ := decode_eq_some.mp decodes
  obtain ⟨value, mark⟩ := integerValue_reads reads
  have bound := inRange.bound
  rw [Folds]
  generalize magnitude radix whole = number at value inRange bound ⊢
  by_cases escaped : '\\' ∈ spelled chars
  · have literal := evaluated none _
      (integerValue_backslash (List.mem_filter.mpr ⟨mem_rdropWhile escaped rfl, by decide⟩)) rfl
    rw [valueIsJava_zero inRange literal, mark_iff decoded reads mark]
    simp [escaped]
  · have text := plain_of_no_backslash escaped
    rw [← text] at value mark
    have literal := evaluated _ _ value mark
    rcases reads.ends.1 with rfl | long
    · have small : number < 2 ^ 32 := bound
      rw [fitting, if_pos (by omega), Option.getD_some] at literal
      rw [valueIsJava_int inRange literal]
      simp [escaped]
      omega
    · obtain ⟨c, rfl⟩ : ∃ c, suffix = [c] := by
        rcases long with rfl | rfl <;> exact ⟨_, rfl⟩
      by_cases small : number < 2 ^ 63
      · rw [fitting, if_pos small, Option.getD_some] at literal
        exact iff_of_true (valueIsJava_long small literal) (Or.inl ⟨escaped, small⟩)
      · rw [fitting, if_neg small, Option.getD_none] at literal
        rw [valueIsJava_zero inRange literal]
        simp only [List.isEmpty_cons, Bool.not_false, and_true, escaped, not_false_eq_true, true_and,
          Bool.false_eq_true, if_false, small, false_or]
        omega

/-- A mask below the sign bit. -/
theorem mask_value :
    ValueIsJava ['0', 'x', '7', '_', 'F', 'L'] 16 (magnitude 16 ['7', '_', 'F']) ['L'] ↔
      Folds ['0', 'x', '7', '_', 'F', 'L'] 16 (magnitude 16 ['7', '_', 'F']) ['L'] := by
  have digits : Digits isHexDigit ['7', '_', 'F'] := by
    refine ⟨by decide, ?_, by decide, by decide⟩
    intro c member
    simp only [List.mem_cons, List.not_mem_nil, or_false] at member
    rcases member with rfl | rfl | rfl
    · exact Or.inl (by decide)
    · exact Or.inr rfl
    · exact Or.inl (by decide)
  have decodes : decode ['0', 'x', '7', '_', 'F', 'L'] =
      some (['0', 'x', '7', '_', 'F', 'L'].map LogicalChar.plain) := by decide
  have inRange : InRange 16 (magnitude 16 ['7', '_', 'F']) ['L'] := by
    rw [InRange]
    decide
  exact valueIsJava_iff decodes (.hex (Or.inl rfl) digits (Or.inr (Or.inr rfl))) inRange

/-- `0xFFFFFFFF` is evaluated to `4294967295`. -/
theorem all_ones_unsigned :
    ¬ ∀ (raw : Text) (chars : List LogicalChar) (radix : Nat) (whole suffix : Text),
      decode raw = some chars → Reads (chars.map LogicalChar.char) radix whole suffix →
      InRange radix (magnitude radix whole) suffix →
      ValueIsJava raw radix (magnitude radix whole) suffix := by
  intro claim
  have digits : Digits isHexDigit (List.replicate 8 'F') := by
    refine ⟨by decide, fun c member => Or.inl ?_, by decide, by decide⟩
    rw [List.eq_of_mem_replicate member]
    decide
  have decodes : decode ('0' :: 'x' :: List.replicate 8 'F') =
      some (('0' :: 'x' :: List.replicate 8 'F').map LogicalChar.plain) := by decide
  have inRange : InRange 16 (magnitude 16 (List.replicate 8 'F')) [] := by
    rw [InRange]
    decide
  have value := claim _ _ 16 (List.replicate 8 'F') [] decodes
    (.hex (Or.inl rfl) digits (Or.inl rfl)) inRange
  have plain : ¬ OnlyNegated 16 (magnitude 16 (List.replicate 8 'F')) [] := fun negated =>
    absurd negated.1 (by decide)
  exact absurd (value.2 plain) (by decide)

end CaffeineLs.HirDef
