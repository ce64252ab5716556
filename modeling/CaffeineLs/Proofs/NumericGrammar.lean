/-
Module: CaffeineLs.Proofs.NumericGrammar
Purpose: The numeric literals of Java, and the wrong numbers that its lexer overlooks, in terms of
  the parts that `handle_number` reads.
Trusted boundary: none
Main exports: IntegerLiteral, FloatingPointLiteral, Overlooked
-/
import CaffeineLs.Proofs.NumberScanning

namespace CaffeineLs.JavaSyntax

open Imperative
open SourceText

/-! ### The literals of the language -/

def isDecimalDigit (c : Char) : Bool := isDigit c 10

def isHexDigit (c : Char) : Bool := isDigit c 16

def isBinaryDigit (c : Char) : Bool := isDigit c 2

def HexLead (c : Char) : Prop := c = 'x' ∨ c = 'X'

def BinaryLead (c : Char) : Prop := c = 'b' ∨ c = 'B'

/-- An optional `IntegerTypeSuffix`. -/
def LongSuffix (text : Text) : Prop := text = [] ∨ text = ['l'] ∨ text = ['L']

/-- A `FloatTypeSuffix`. -/
def FloatSuffix (text : Text) : Prop :=
  text = ['f'] ∨ text = ['F'] ∨ text = ['d'] ∨ text = ['D']

/-- An `IntegerLiteral`, JLS §3.10.1. -/
inductive IntegerLiteral : Text → Prop where
  | decimal {whole suffix : Text} : Digits isDecimalDigit whole →
      whole = ['0'] ∨ whole.head? ≠ some '0' → LongSuffix suffix →
      IntegerLiteral (whole ++ suffix)
  | hex {x : Char} {whole suffix : Text} : HexLead x → Digits isHexDigit whole →
      LongSuffix suffix → IntegerLiteral ('0' :: x :: (whole ++ suffix))
  | octal {underscores whole suffix : Text} : (∀ c ∈ underscores, c = '_') →
      Digits isOctalDigit whole → LongSuffix suffix →
      IntegerLiteral ('0' :: (underscores ++ whole ++ suffix))
  | binary {b : Char} {whole suffix : Text} : BinaryLead b → Digits isBinaryDigit whole →
      LongSuffix suffix → IntegerLiteral ('0' :: b :: (whole ++ suffix))

/-- An `ExponentPart`, or a `BinaryExponent`, JLS §3.10.2. -/
def ExponentPart (lower upper : Char) (text : Text) : Prop :=
  ∃ indicator sign digits, text = indicator :: (sign ++ digits) ∧
    (indicator = lower ∨ indicator = upper) ∧ Sign sign ∧ Digits isDecimalDigit digits

/-- A `FloatingPointLiteral`, JLS §3.10.2. -/
inductive FloatingPointLiteral : Text → Prop where
  | point {whole fraction exponent suffix : Text} : Digits isDecimalDigit whole →
      fraction = [] ∨ Digits isDecimalDigit fraction →
      exponent = [] ∨ ExponentPart 'e' 'E' exponent → suffix = [] ∨ FloatSuffix suffix →
      FloatingPointLiteral (whole ++ '.' :: (fraction ++ (exponent ++ suffix)))
  | leadingPoint {fraction exponent suffix : Text} : Digits isDecimalDigit fraction →
      exponent = [] ∨ ExponentPart 'e' 'E' exponent → suffix = [] ∨ FloatSuffix suffix →
      FloatingPointLiteral ('.' :: (fraction ++ (exponent ++ suffix)))
  | exponent {whole exponent suffix : Text} : Digits isDecimalDigit whole →
      ExponentPart 'e' 'E' exponent → suffix = [] ∨ FloatSuffix suffix →
      FloatingPointLiteral (whole ++ (exponent ++ suffix))
  | suffix {whole suffix : Text} : Digits isDecimalDigit whole → FloatSuffix suffix →
      FloatingPointLiteral (whole ++ suffix)
  | hex {x : Char} {whole point exponent suffix : Text} : HexLead x → Digits isHexDigit whole →
      point = [] ∨ point = ['.'] → ExponentPart 'p' 'P' exponent →
      suffix = [] ∨ FloatSuffix suffix →
      FloatingPointLiteral ('0' :: x :: (whole ++ (point ++ (exponent ++ suffix))))
  | hexPoint {x : Char} {whole fraction exponent suffix : Text} : HexLead x →
      whole = [] ∨ Digits isHexDigit whole → Digits isHexDigit fraction →
      ExponentPart 'p' 'P' exponent → suffix = [] ∨ FloatSuffix suffix →
      FloatingPointLiteral ('0' :: x :: (whole ++ '.' :: (fraction ++ (exponent ++ suffix))))

/-- Digits and underscores, with no underscore at the end. -/
def LooseDigits (p : Char → Bool) (text : Text) : Prop :=
  (∀ c ∈ text, p c = true ∨ c = '_') ∧ text.getLast? ≠ some '_'

/-- Digits before the point, or else after it. -/
def Significand (p : Char → Bool) (whole fraction : Text) : Prop :=
  FractionOk p fraction ∧
    (Digits p whole ∨ whole = [] ∧ ∃ digits, fraction = '.' :: digits ∧ Digits p digits)

/-- A number that is no literal, for which nothing is reported. -/
inductive Overlooked : Text → Prop where
  /-- A point or an exponent, and the suffix of a `long`. -/
  | decimal {whole fraction exponent suffix : Text} : Significand isDecimalDigit whole fraction →
      exponent = [] ∨ ExponentPart 'e' 'E' exponent → LongSuffix suffix → suffix ≠ [] →
      fraction ≠ [] ∨ exponent ≠ [] → Overlooked (whole ++ (fraction ++ (exponent ++ suffix)))
  /-- No digits, or an underscore before the first; a point without an exponent; or an exponent
  and the suffix of a `long`. -/
  | hex {x : Char} {whole fraction exponent suffix : Text} : HexLead x →
      LooseDigits isHexDigit whole → FractionOk isHexDigit fraction →
      exponent = [] ∨ ExponentPart 'p' 'P' exponent → LongSuffix suffix ∨ FloatSuffix suffix →
      (exponent = [] → LongSuffix suffix) →
      ¬ Significand isHexDigit whole fraction ∨ fraction ≠ [] ∧ exponent = [] ∨
        exponent ≠ [] ∧ LongSuffix suffix ∧ suffix ≠ [] →
      Overlooked ('0' :: x :: (whole ++ (fraction ++ (exponent ++ suffix))))
  /-- No digits, or an underscore before the first; or any of the parts of a float. -/
  | binary {b : Char} {whole fraction exponent suffix : Text} : BinaryLead b →
      LooseDigits isBinaryDigit whole → FractionOk isBinaryDigit fraction →
      exponent = [] ∨ ExponentPart 'e' 'E' exponent → LongSuffix suffix ∨ FloatSuffix suffix →
      ¬ Digits isBinaryDigit whole ∨ fraction ≠ [] ∨ exponent ≠ [] ∨ FloatSuffix suffix →
      Overlooked ('0' :: b :: (whole ++ (fraction ++ (exponent ++ suffix))))

/-! ### Characters -/

section Characters

variable {c : Char}

/-- A decidable property of finitely many characters, checked one by one. -/
theorem forall_mem_of_all {P : Char → Prop} [DecidablePred P] {cs : List Char}
    (checked : cs.all (fun c => decide (P c)) = true) : ∀ c ∈ cs, P c := by
  simpa using checked

theorem le_iff_toNat {low : Char} : low ≤ c ↔ low.toNat ≤ c.toNat := Iff.rfl

/-- The digits of a base without letters. -/
theorem isDigit_iff {base : Nat} (small : base ≤ 10) :
    isDigit c base = true ↔ 48 ≤ c.toNat ∧ c.toNat < 48 + base := by
  have zero : '0'.toNat = 48 := by decide
  have nine : '9'.toNat = 57 := by decide
  have lower : 'a'.toNat = 97 := by decide
  have upper : 'A'.toNat = 65 := by decide
  have lower' : 'f'.toNat = 102 := by decide
  have upper' : 'F'.toNat = 70 := by decide
  rw [isDigit, isAsciiHexdigit, isAsciiDigit, hexValue]
  simp only [isAsciiDigit, Bool.and_eq_true, Bool.or_eq_true, le_iff_toNat, decide_eq_true_eq, zero,
    nine, lower, upper, lower', upper']
  split
  · omega
  · split <;> omega

theorem isDecimalDigit_eq : isDecimalDigit c = isAsciiDigit c := by
  have zero : '0'.toNat = 48 := by decide
  have nine : '9'.toNat = 57 := by decide
  rw [Bool.eq_iff_iff, isDecimalDigit, isDigit_iff (by decide), isAsciiDigit]
  simp only [Bool.and_eq_true, le_iff_toNat, decide_eq_true_eq, zero, nine]
  omega

theorem isOctalDigit_eq : isOctalDigit c = isDigit c 8 := by
  have zero : '0'.toNat = 48 := by decide
  have seven : '7'.toNat = 55 := by decide
  rw [Bool.eq_iff_iff, isDigit_iff (by decide), isOctalDigit]
  simp only [Bool.and_eq_true, le_iff_toNat, decide_eq_true_eq, zero, seven]
  omega

/-- The two characters with the lower case `lower`. -/
theorem toAsciiLowercase_eq {lower upper : Char} (low : 97 ≤ lower.toNat ∧ lower.toNat ≤ 122)
    (pair : upper.toNat + 32 = lower.toNat) :
    toAsciiLowercase c = lower ↔ c = lower ∨ c = upper := by
  have first : 'A'.toNat = 65 := by decide
  have last : 'Z'.toNat = 90 := by decide
  rw [← Char.toNat_inj, ← Char.toNat_inj, ← Char.toNat_inj, toAsciiLowercase]
  split
  · rename_i big
    simp only [Bool.and_eq_true, decide_eq_true_eq, le_iff_toNat, first, last] at big
    have val : (Char.ofNat (c.toNat + 32)).toNat = c.toNat + 32 := by
      have valid : (c.toNat + 32).isValidChar := by
        left
        omega
      rw [Char.ofNat, dif_pos valid]
      rfl
    rw [val]
    omega
  · rename_i small
    simp only [Bool.and_eq_true, decide_eq_true_eq, le_iff_toNat, first, last] at small
    omega

theorem isExponentMarker_iff {base : Nat} : isExponentMarker base c = true ↔
    base ≠ 16 ∧ (c = 'e' ∨ c = 'E') ∨ base = 16 ∧ (c = 'p' ∨ c = 'P') := by
  have e : toAsciiLowercase c = 'e' ↔ c = 'e' ∨ c = 'E' :=
    toAsciiLowercase_eq (by decide) (by decide)
  have p : toAsciiLowercase c = 'p' ↔ c = 'p' ∨ c = 'P' :=
    toAsciiLowercase_eq (by decide) (by decide)
  simp [isExponentMarker, e, p]

theorem isLongSuffix_iff : isLongSuffix c = true ↔ c = 'l' ∨ c = 'L' := by
  rw [isLongSuffix, decide_eq_true_eq]
  exact toAsciiLowercase_eq (by decide) (by decide)

theorem isFloatSuffix_iff :
    isFloatSuffix c = true ↔ (c = 'f' ∨ c = 'F') ∨ (c = 'd' ∨ c = 'D') := by
  have f : toAsciiLowercase c = 'f' ↔ c = 'f' ∨ c = 'F' :=
    toAsciiLowercase_eq (by decide) (by decide)
  have d : toAsciiLowercase c = 'd' ↔ c = 'd' ∨ c = 'D' :=
    toAsciiLowercase_eq (by decide) (by decide)
  rw [isFloatSuffix, Bool.or_eq_true, decide_eq_true_eq, decide_eq_true_eq, f, d]

/-- An ASCII character that is no digit is no part of an integer. -/
theorem isIntegerChar_ascii {U : UnicodeTables} {base : Nat} (ascii : c.val < 128)
    (noDigit : isAsciiDigit c = false) (other : isDigit c base = false) :
    isIntegerChar U base c = false := by
  rw [isIntegerChar, U.isNumeric_ascii c ascii, noDigit, other]
  rfl

theorem isDigit_dot (base : Nat) : isDigit '.' base = false := by
  simp [isDigit, show isAsciiHexdigit '.' = false by decide]

end Characters

/-! ### The parts of a number are unique -/

/-- The text is a number of these parts. -/
structure Parts (U : UnicodeTables) (text : Text) (base : Nat)
    (whole fraction exponent suffix : Text) : Prop extends NumberShape U base whole fraction exponent suffix where
  led : ∃ lead, numberLead text = (lead, base) ∧
    text = lead ++ (whole ++ (fraction ++ (exponent ++ suffix)))

/-- The bases of numbers, and the texts that have them. -/
theorem numberLead_cases {text lead : Text} {base : Nat} (leads : numberLead text = (lead, base)) :
    (∃ x rest, HexLead x ∧ text = '0' :: x :: rest ∧ lead = ['0', x] ∧ base = 16) ∨
    (∃ b rest, BinaryLead b ∧ text = '0' :: b :: rest ∧ lead = ['0', b] ∧ base = 2) ∨
    (∃ c rest, (isDecimalDigit c = true ∨ c = '_') ∧ text = '0' :: c :: rest ∧ lead = ['0'] ∧
      base = 8) ∨
    ((∀ c rest, text = '0' :: c :: rest → isDecimalDigit c = false ∧ c ≠ '_') ∧ lead = [] ∧
      base = 10) := by
  unfold numberLead at leads
  split at leads
  · rename_i c rest
    split at leads
    · rename_i hex
      cases leads
      exact .inl ⟨c, rest, by simpa [HexLead] using hex, rfl, rfl, rfl⟩
    split at leads
    · rename_i binary
      cases leads
      exact .inr (.inl ⟨c, rest, by simpa [BinaryLead] using binary, rfl, rfl, rfl⟩)
    split at leads
    · rename_i octal
      cases leads
      refine .inr (.inr (.inl ⟨c, rest, ?_, rfl, rfl, rfl⟩))
      rw [isDecimalDigit_eq]
      simpa [or_comm] using octal
    · rename_i noOctal
      cases leads
      refine .inr (.inr (.inr ⟨?_, rfl, rfl⟩))
      intro c' rest' same
      cases same
      rw [isDecimalDigit_eq]
      simpa [and_comm] using noOctal
  · rename_i other
    cases leads
    exact .inr (.inr (.inr ⟨fun c rest same => absurd same (other c rest), rfl, rfl⟩))

/-- Where a run of characters ends is determined by what can follow it. -/
theorem run_unique {p : Char → Bool} {run run' rest rest' : Text} (only : ∀ c ∈ run, p c = true)
    (only' : ∀ c ∈ run', p c = true) (stops : ∀ c ∈ rest.head?, p c = false)
    (stops' : ∀ c ∈ rest'.head?, p c = false) (same : run ++ rest = run' ++ rest') :
    run = run' ∧ rest = rest' := by
  have taken : ∀ {run rest : Text}, (∀ c ∈ run, p c = true) → (∀ c ∈ rest.head?, p c = false) →
      (run ++ rest).takeWhile p = run := by
    intro run rest only stops
    rw [List.takeWhile_append_of_pos only]
    cases rest with
    | nil => simp
    | cons c rest => simp [stops c (by simp)]
  have runs : run = run' := by
    rw [← taken only stops, same, taken only' stops']
  exact ⟨runs, List.append_cancel_left (runs ▸ same)⟩

section Unique

variable {U : UnicodeTables} {text : Text} {base base' : Nat}
  {whole fraction exponent suffix whole' fraction' exponent' suffix' : Text} {c : Char}

/-- The bases of Java. -/
def IsBase (base : Nat) : Prop := base = 16 ∨ base = 2 ∨ base = 8 ∨ base = 10

theorem isBase_of_lead {lead : Text} (leads : numberLead text = (lead, base)) : IsBase base := by
  rcases numberLead_cases leads with ⟨_, _, _, _, _, rfl⟩ | ⟨_, _, _, _, _, rfl⟩ |
    ⟨_, _, _, _, _, rfl⟩ | ⟨_, _, rfl⟩ <;> simp [IsBase]

/-- A character that neither an integer nor a fraction goes on with. -/
def Halts (U : UnicodeTables) (base : Nat) (c : Char) : Prop :=
  isIntegerChar U (consumeBase base) c = false ∧ isDigit c (consumeBase base) = false ∧
    c ≠ '_' ∧ c ≠ '.'

theorem halts_of_ascii (ascii : c.val < 128) (noDigit : isAsciiDigit c = false)
    (other : isDigit c (consumeBase base) = false) (symbols : c ≠ '_' ∧ c ≠ '.') :
    Halts U base c :=
  ⟨isIntegerChar_ascii ascii noDigit other, other, symbols⟩

theorem halts_of_marker (isBase : IsBase base) (marker : isExponentMarker base c = true) :
    Halts U base c := by
  rcases isExponentMarker_iff.mp marker with ⟨noHex, rfl | rfl⟩ | ⟨rfl, rfl | rfl⟩
  · rcases isBase with rfl | rfl | rfl | rfl
    · exact absurd rfl noHex
    all_goals exact halts_of_ascii (by decide) (by decide) (by decide) (by decide)
  · rcases isBase with rfl | rfl | rfl | rfl
    · exact absurd rfl noHex
    all_goals exact halts_of_ascii (by decide) (by decide) (by decide) (by decide)
  · exact halts_of_ascii (by decide) (by decide) (by decide) (by decide)
  · exact halts_of_ascii (by decide) (by decide) (by decide) (by decide)

theorem suffix_cases (suffixes : isLongSuffix c = true ∨ isFloatSuffix c = true) :
    c ∈ ['l', 'L', 'f', 'F', 'd', 'D'] := by
  rw [isLongSuffix_iff, isFloatSuffix_iff] at suffixes
  rcases suffixes with (rfl | rfl) | (rfl | rfl) | (rfl | rfl) <;> decide

theorem halts_of_suffix (suffixes : isLongSuffix c = true ∨ isFloatSuffix c = true)
    (other : isDigit c (consumeBase base) = false) : Halts U base c := by
  have cases := suffix_cases suffixes
  have known : ∀ d ∈ ['l', 'L', 'f', 'F', 'd', 'D'],
      d.val < 128 ∧ isAsciiDigit d = false ∧ d ≠ '_' ∧ d ≠ '.' := forall_mem_of_all (by decide)
  rcases known c cases with ⟨ascii, noDigit, symbols⟩
  exact halts_of_ascii ascii noDigit other symbols

/-- What an exponent is made of. -/
def isExponentChar (base : Nat) (c : Char) : Bool :=
  isExponentMarker base c || c = '+' || c = '-' || isAsciiDigit c || c = '_'

theorem not_exponentChar (suffixes : isLongSuffix c = true ∨ isFloatSuffix c = true) :
    isExponentChar base c = false := by
  have cases := suffix_cases suffixes
  have known : ∀ d ∈ ['l', 'L', 'f', 'F', 'd', 'D'], d ≠ 'e' ∧ d ≠ 'E' ∧ d ≠ 'p' ∧ d ≠ 'P' ∧
      d ≠ '+' ∧ d ≠ '-' ∧ isAsciiDigit d = false ∧ d ≠ '_' := forall_mem_of_all (by decide)
  rcases known c cases with ⟨e, e', p, p', plus, minus, noDigit, underscore⟩
  have noMarker : isExponentMarker base c = false := by
    rw [← Bool.not_eq_true, isExponentMarker_iff]
    rintro (⟨-, isE | isE'⟩ | ⟨-, isP | isP'⟩)
    · exact e isE
    · exact e' isE'
    · exact p isP
    · exact p' isP'
  simp [isExponentChar, noMarker, plus, minus, noDigit, underscore]

namespace NumberShape

variable (shape : NumberShape U base whole fraction exponent suffix)
include shape

theorem of_suffix (inside : c ∈ suffix) : isLongSuffix c = true ∨ isFloatSuffix c = true := by
  rcases shape.suffixText with rfl | ⟨d, rfl, suffixes⟩
  · cases inside
  · obtain rfl := List.mem_singleton.mp inside
    exact suffixes

theorem of_exponent (inside : c ∈ exponent) : isExponentChar base c = true := by
  rcases shape.exponentText with rfl | ⟨marker, sign, digits, rfl, marks, signs, only⟩
  · cases inside
  · simp only [List.mem_cons, List.mem_append] at inside
    rcases inside with rfl | sign' | digit
    · simp [isExponentChar, marks]
    · rcases signs with rfl | rfl | rfl
      · cases sign'
      · simp [isExponentChar, List.mem_singleton.mp sign']
      · simp [isExponentChar, List.mem_singleton.mp sign']
    · rcases only c digit with digit | rfl
      · simp [isExponentChar, digit]
      · simp [isExponentChar]

/-- The integer and the fraction stop where the exponent or the suffix starts. -/
theorem stops (isBase : IsBase base) (first : c ∈ (exponent ++ suffix).head?) :
    Halts U base c := by
  rcases shape.exponentText with rfl | ⟨marker, sign, digits, rfl, marks, -⟩
  · have inside := List.mem_of_mem_head? first
    exact halts_of_suffix (shape.of_suffix inside) (shape.notDigit rfl c inside)
  · obtain rfl : marker = c := by simpa using first
    exact halts_of_marker isBase marks

theorem wholeStops (isBase : IsBase base) (first : c ∈ (fraction ++ (exponent ++ suffix)).head?) :
    (isIntegerChar U (consumeBase base) c || decide (c = '_')) = false := by
  rcases shape.fractionText with rfl | ⟨digits, rfl, -⟩
  · rcases shape.stops isBase first with ⟨noInteger, -, underscore, -⟩
    simp [noInteger, underscore]
  · obtain rfl : '.' = c := by simpa using first
    have noInteger : isIntegerChar U (consumeBase base) '.' = false :=
      isIntegerChar_ascii (by decide) (by decide) (isDigit_dot _)
    simp [noInteger]

/-- The parts are determined by the text after the prefix. -/
theorem unique (isBase : IsBase base)
    (shape' : NumberShape U base whole' fraction' exponent' suffix') (same : whole ++ (fraction ++ (exponent ++ suffix)) =
      whole' ++ (fraction' ++ (exponent' ++ suffix'))) :
    whole = whole' ∧ fraction = fraction' ∧ exponent = exponent' ∧ suffix = suffix' := by
  have wholes : ∀ {whole fraction exponent suffix : Text},
      NumberShape U base whole fraction exponent suffix →
      ∀ c ∈ whole, (isIntegerChar U (consumeBase base) c || decide (c = '_')) = true := by
    intro _ _ _ _ shape c inside
    simpa using shape.wholeText c inside
  have fractions : ∀ {whole fraction exponent suffix : Text},
      NumberShape U base whole fraction exponent suffix →
      ∀ c ∈ fraction,
      (isDigit c (consumeBase base) || decide (c = '_') || decide (c = '.')) = true := by
    intro _ _ _ _ shape c inside
    rcases shape.fractionText with rfl | ⟨digits, rfl, only⟩
    · cases inside
    · rcases List.mem_cons.mp inside with rfl | later
      · simp
      · rcases only c later with digit | rfl
        · simp [digit]
        · simp
  have fractionStops : ∀ {whole fraction exponent suffix : Text},
      NumberShape U base whole fraction exponent suffix → ∀ c ∈ (exponent ++ suffix).head?,
      (isDigit c (consumeBase base) || decide (c = '_') || decide (c = '.')) = false := by
    intro _ _ _ _ shape c first
    rcases shape.stops isBase first with ⟨-, noDigit, underscore, dot⟩
    simp [noDigit, underscore, dot]
  have exponentStops : ∀ {whole fraction exponent suffix : Text},
      NumberShape U base whole fraction exponent suffix → ∀ c ∈ suffix.head?,
      isExponentChar base c = false := by
    intro _ _ _ _ shape c first
    exact not_exponentChar (shape.of_suffix (List.mem_of_mem_head? first))
  rcases run_unique (wholes shape) (wholes shape') (fun _ => shape.wholeStops isBase)
    (fun _ => shape'.wholeStops isBase) same with ⟨rfl, same₁⟩
  rcases run_unique (fractions shape) (fractions shape') (fractionStops shape)
    (fractionStops shape') same₁ with ⟨rfl, same₂⟩
  rcases run_unique (fun _ => shape.of_exponent) (fun _ => shape'.of_exponent) (exponentStops shape)
    (exponentStops shape') same₂ with ⟨rfl, rfl⟩
  exact ⟨rfl, rfl, rfl, rfl⟩

end NumberShape

theorem Parts.unique (parts : Parts U text base whole fraction exponent suffix)
    (parts' : Parts U text base' whole' fraction' exponent' suffix') :
    base = base' ∧ whole = whole' ∧ fraction = fraction' ∧ exponent = exponent' ∧
      suffix = suffix' := by
  rcases parts.led with ⟨lead, leads, split⟩
  rcases parts'.led with ⟨lead', leads', split'⟩
  obtain ⟨rfl, rfl⟩ := Prod.mk.inj (leads.symm.trans leads')
  have same := List.append_cancel_left (split.symm.trans split')
  exact ⟨rfl, parts.unique (isBase_of_lead leads) parts'.toNumberShape same⟩

end Unique

/-! ### The parts of a literal -/

section LiteralParts

variable {U : UnicodeTables} {text : Text} {base : Nat} {whole fraction exponent suffix : Text}

theorem suffixText_iff : SuffixText suffix ↔ LongSuffix suffix ∨ FloatSuffix suffix := by
  constructor
  · rintro (rfl | ⟨c, rfl, suffixes⟩)
    · exact .inl (.inl rfl)
    · have cases := suffix_cases suffixes
      simp only [List.mem_cons, List.not_mem_nil, or_false] at cases
      rcases cases with rfl | rfl | rfl | rfl | rfl | rfl <;> simp [LongSuffix, FloatSuffix]
  · rintro ((rfl | rfl | rfl) | (rfl | rfl | rfl | rfl))
    · exact .inl rfl
    all_goals exact .inr ⟨_, rfl, by decide⟩

theorem exponentOk_iff {lower upper : Char}
    (markers : ∀ c, isExponentMarker base c = true ↔ c = lower ∨ c = upper) :
    ExponentOk base exponent ↔ exponent = [] ∨ ExponentPart lower upper exponent := by
  have digits : isDecimalDigit = isAsciiDigit := funext fun _ => isDecimalDigit_eq
  simp only [ExponentOk, ExponentPart, markers, digits]

theorem decimalExponent_iff (noHex : base ≠ 16) :
    ExponentOk base exponent ↔ exponent = [] ∨ ExponentPart 'e' 'E' exponent :=
  exponentOk_iff fun c => by simp [isExponentMarker_iff, noHex]

theorem hexExponent_iff :
    ExponentOk 16 exponent ↔ exponent = [] ∨ ExponentPart 'p' 'P' exponent :=
  exponentOk_iff fun c => by simp [isExponentMarker_iff]

theorem exponentPart_ne_nil {lower upper : Char} (part : ExponentPart lower upper exponent) :
    exponent ≠ [] := by
  rcases part with ⟨_, _, _, rfl, -⟩
  simp

/-- Parts that are right have the shape of parts. -/
theorem shape_of_ok (isBase : IsBase base)
    (wholeText : ∀ c ∈ whole, isDigit c (consumeBase base) = true ∨ c = '_')
    (fractionOk : FractionOk (isDigit · (consumeBase base)) fraction)
    (exponentOk : ExponentOk base exponent) (suffixes : LongSuffix suffix ∨ FloatSuffix suffix)
    (notDigit : exponent = [] → base = 16 → LongSuffix suffix) :
    NumberShape U base whole fraction exponent suffix where
  wholeText c inside := by
    rcases wholeText c inside with digit | underscore
    · exact .inl (by simp [isIntegerChar, digit])
    · exact .inr underscore
  fractionText := by
    rcases fractionOk with rfl | ⟨digits, rfl, rfl | right⟩
    · exact .inl rfl
    · exact .inr ⟨[], rfl, by simp⟩
    · exact .inr ⟨digits, rfl, right.2.1⟩
  exponentText := by
    rcases exponentOk with rfl | ⟨marker, sign, digits, rfl, marks, signs, right⟩
    · exact .inl rfl
    · exact .inr ⟨marker, sign, digits, rfl, marks, signs, right.2.1⟩
  suffixText := suffixText_iff.mpr suffixes
  notDigit nothing c inside := by
    by_cases hex : base = 16
    · have long := notDigit nothing hex
      subst hex
      rcases long with rfl | rfl | rfl
      · cases inside
      · rw [List.mem_singleton.mp inside]
        decide
      · rw [List.mem_singleton.mp inside]
        decide
    · have letters : ∀ d ∈ ['l', 'L', 'f', 'F', 'd', 'D'],
          isDigit d 10 = false ∧ isDigit d 2 = false := forall_mem_of_all (by decide)
      have known : c ∈ ['l', 'L', 'f', 'F', 'd', 'D'] := by
        rcases suffixText_iff.mpr suffixes with rfl | ⟨d, rfl, suffixes'⟩
        · cases inside
        · rw [List.mem_singleton.mp inside]
          exact suffix_cases suffixes'
      rcases isBase with rfl | rfl | rfl | rfl
      · exact absurd rfl hex
      · exact (letters c known).2
      · exact (letters c known).1
      · exact (letters c known).1

/-- The digits before the point, as a decimal number has them: those of an octal number start with
its prefix. -/
def DecimalWhole (base : Nat) (whole digits : Text) : Prop :=
  base = 10 ∧ digits = whole ∧ (whole = ['0'] ∨ whole.head? ≠ some '0') ∨
    base = 8 ∧ digits = '0' :: whole ∧ whole ≠ []

theorem numberLead_decimal
    (other : ∀ c rest, text = '0' :: c :: rest → c ∉ ['x', 'X', 'b', 'B', '_'] ∧
      isAsciiDigit c = false) : numberLead text = ([], 10) := by
  unfold numberLead
  split
  · rename_i c rest
    rcases other c rest rfl with ⟨noLetter, noDigit⟩
    simp only [List.mem_cons, List.not_mem_nil, or_false, not_or] at noLetter
    simp [noLetter, noDigit]
  · rfl

theorem numberLead_octal {c : Char} (digit : isDecimalDigit c = true ∨ c = '_') (rest : Text) :
    numberLead ('0' :: c :: rest) = (['0'], 8) := by
  rw [isDecimalDigit_eq] at digit
  have letters : ∀ d ∈ ['x', 'X', 'b', 'B'], ¬ (isAsciiDigit d = true ∨ d = '_') :=
    forall_mem_of_all (by decide)
  have noLetter : c ∉ ['x', 'X', 'b', 'B'] := fun inside => letters c inside digit
  simp only [List.mem_cons, List.not_mem_nil, or_false, not_or] at noLetter
  have octal : c = '_' ∨ isAsciiDigit c = true := digit.symm
  simp [numberLead, noLetter, octal]

theorem numberLead_hex {x : Char} (hex : HexLead x) (rest : Text) :
    numberLead ('0' :: x :: rest) = (['0', x], 16) := by
  rcases hex with rfl | rfl <;> rfl

theorem numberLead_binary {b : Char} (binary : BinaryLead b) (rest : Text) :
    numberLead ('0' :: b :: rest) = (['0', b], 2) := by
  rcases binary with rfl | rfl <;> rfl

/-- The parts of a decimal number, perhaps with the prefix of an octal one. -/
theorem decimal_parts {digits : Text}
    (right : Digits isDecimalDigit digits ∨ digits = [] ∧ fraction ≠ []) (fractionOk : FractionOk isDecimalDigit fraction) (exponentOk : ExponentOk 10 exponent)
    (suffixes : LongSuffix suffix ∨ FloatSuffix suffix) :
    ∃ base whole, DecimalWhole base whole digits ∧
      Parts U (digits ++ (fraction ++ (exponent ++ suffix))) base whole fraction exponent suffix := by
  have only : ∀ c ∈ digits, isDigit c 10 = true ∨ c = '_' := by
    rcases right with right | ⟨rfl, -⟩
    · exact right.2.1
    · simp
  -- What can follow the digits.
  have follows : ∀ c ∈ (fraction ++ (exponent ++ suffix)).head?,
      c ∉ ['x', 'X', 'b', 'B', '_'] ∧ isAsciiDigit c = false := by
    intro c first
    have known : ∀ d ∈ ['.', 'e', 'E', 'l', 'L', 'f', 'F', 'd', 'D'],
        d ∉ ['x', 'X', 'b', 'B', '_'] ∧ isAsciiDigit d = false := forall_mem_of_all (by decide)
    apply known
    rcases fractionOk with rfl | ⟨_, rfl, -⟩
    · rcases exponentOk with rfl | ⟨marker, _, _, rfl, marks, -⟩
      · have inside : c ∈ suffix := List.mem_of_mem_head? first
        rcases suffixText_iff.mpr suffixes with rfl | ⟨d, rfl, suffixes'⟩
        · cases inside
        · rw [List.mem_singleton.mp inside]
          exact List.mem_append_right ['.', 'e', 'E'] (suffix_cases suffixes')
      · obtain rfl : marker = c := by simpa using first
        rcases isExponentMarker_iff.mp marks with ⟨-, rfl | rfl⟩ | ⟨absurd, -⟩
        · decide
        · decide
        · cases absurd
    · obtain rfl : '.' = c := by simpa using first
      decide
  by_cases octal : ∃ c whole, digits = '0' :: c :: whole
  · rcases octal with ⟨c, whole, rfl⟩
    have later : ∀ d ∈ c :: whole, isDigit d 10 = true ∨ d = '_' := fun d inside =>
      only d (List.mem_cons_of_mem _ inside)
    have shape : NumberShape U 8 (c :: whole) fraction exponent suffix := by
      apply shape_of_ok (.inr (.inr (.inl rfl))) later fractionOk _ suffixes (by simp)
      rwa [decimalExponent_iff (by decide), ← decimalExponent_iff (by decide : 10 ≠ 16)]
    refine ⟨8, c :: whole, .inr ⟨rfl, rfl, by simp⟩, shape, ['0'], ?_, rfl⟩
    exact numberLead_octal (later c (by simp)) _
  · have shape : NumberShape U 10 digits fraction exponent suffix :=
      shape_of_ok (.inr (.inr (.inr rfl))) only fractionOk exponentOk suffixes (by simp)
    have starts : digits = ['0'] ∨ digits.head? ≠ some '0' := by
      rcases digits with _ | ⟨c, _ | ⟨d, whole⟩⟩
      · simp
      · by_cases zero : c = '0'
        · exact .inl (by rw [zero])
        · exact .inr (by simpa using zero)
      · right
        rintro zero
        obtain rfl : c = '0' := by simpa using zero
        exact octal ⟨d, whole, rfl⟩
    refine ⟨10, digits, .inl ⟨rfl, rfl, starts⟩, shape, [], ?_, rfl⟩
    apply numberLead_decimal
    intro c rest same
    rcases starts with rfl | noZero
    · have tail : fraction ++ (exponent ++ suffix) = c :: rest := (List.cons.inj same).2
      exact follows c (by rw [tail]; rfl)
    · rcases digits with _ | ⟨d, whole⟩
      · rcases right with right | ⟨-, some⟩
        · exact absurd rfl right.1
        · rcases fractionOk with rfl | ⟨_, rfl, -⟩
          · exact absurd rfl some
          · cases (List.cons.inj same).1
      · obtain rfl : d = '0' := (List.cons.inj same).1
        exact absurd rfl noZero

/-- The parts of a number with a prefix of two characters. -/
theorem prefixed_parts {c : Char} (leads : ∀ rest, numberLead ('0' :: c :: rest) = (['0', c], base))
    (isBase : IsBase base) (wholeText : ∀ c ∈ whole, isDigit c (consumeBase base) = true ∨ c = '_')
    (fractionOk : FractionOk (isDigit · (consumeBase base)) fraction)
    (exponentOk : ExponentOk base exponent) (suffixes : LongSuffix suffix ∨ FloatSuffix suffix)
    (notDigit : exponent = [] → base = 16 → LongSuffix suffix) :
    Parts U ('0' :: c :: (whole ++ (fraction ++ (exponent ++ suffix)))) base whole fraction exponent
      suffix :=
  ⟨shape_of_ok isBase wholeText fractionOk exponentOk suffixes notDigit, _, leads _, rfl⟩

/-- The text of a decimal number. -/
theorem Parts.text_decimal (parts : Parts U text base whole fraction exponent suffix) {digits : Text}
    (decimal : DecimalWhole base whole digits) :
    text = digits ++ (fraction ++ (exponent ++ suffix)) := by
  rcases parts.led with ⟨lead, leads, split⟩
  rcases numberLead_cases leads with ⟨_, _, _, _, _, hex⟩ | ⟨_, _, _, _, _, binary⟩ |
    ⟨_, _, _, _, rfl, octal⟩ | ⟨_, rfl, ten⟩
  · rcases decimal with ⟨rfl, -⟩ | ⟨rfl, -⟩ <;> cases hex
  · rcases decimal with ⟨rfl, -⟩ | ⟨rfl, -⟩ <;> cases binary
  · rcases decimal with ⟨rfl, -⟩ | ⟨-, rfl, -⟩
    · cases octal
    · exact split
  · rcases decimal with ⟨-, rfl, -⟩ | ⟨rfl, -⟩
    · exact split
    · cases ten

/-- The text of a hexadecimal number. -/
theorem Parts.text_hex (parts : Parts U text 16 whole fraction exponent suffix) :
    ∃ x, HexLead x ∧ text = '0' :: x :: (whole ++ (fraction ++ (exponent ++ suffix))) := by
  rcases parts.led with ⟨lead, leads, split⟩
  rcases numberLead_cases leads with ⟨x, _, hex, -, rfl, -⟩ | ⟨_, _, _, _, _, other⟩ |
    ⟨_, _, _, _, _, other⟩ | ⟨_, _, other⟩
  · exact ⟨x, hex, split⟩
  all_goals cases other

/-- The text of a binary number. -/
theorem Parts.text_binary (parts : Parts U text 2 whole fraction exponent suffix) :
    ∃ b, BinaryLead b ∧ text = '0' :: b :: (whole ++ (fraction ++ (exponent ++ suffix))) := by
  rcases parts.led with ⟨lead, leads, split⟩
  rcases numberLead_cases leads with ⟨_, _, _, _, _, other⟩ | ⟨b, _, binary, -, rfl, -⟩ |
    ⟨_, _, _, _, _, other⟩ | ⟨_, _, other⟩
  · cases other
  · exact ⟨b, binary, split⟩
  · cases other
  · cases other

/-- The parts of an `IntegerLiteral`. -/
def IntegerParts (base : Nat) (whole fraction exponent suffix : Text) : Prop :=
  fraction = [] ∧ exponent = [] ∧ LongSuffix suffix ∧
    (base = 10 ∧ Digits isDecimalDigit whole ∧ (whole = ['0'] ∨ whole.head? ≠ some '0') ∨
      base = 8 ∧ (∃ underscores digits, whole = underscores ++ digits ∧
        (∀ c ∈ underscores, c = '_') ∧ Digits isOctalDigit digits) ∨
      base = 16 ∧ Digits isHexDigit whole ∨ base = 2 ∧ Digits isBinaryDigit whole)

/-- The significand of a decimal number. -/
def DecimalSignificand (base : Nat) (whole fraction : Text) : Prop :=
  ∃ digits, DecimalWhole base whole digits ∧ Significand isDecimalDigit digits fraction

/-- The parts of a `FloatingPointLiteral`. -/
def FloatParts (base : Nat) (whole fraction exponent suffix : Text) : Prop :=
  (suffix = [] ∨ FloatSuffix suffix) ∧
    (DecimalSignificand base whole fraction ∧ ExponentOk 10 exponent ∧
        (fraction ≠ [] ∨ exponent ≠ [] ∨ suffix ≠ []) ∨
      base = 16 ∧ Significand isHexDigit whole fraction ∧ ExponentOk 16 exponent ∧ exponent ≠ [])

/-- The parts of an overlooked number. -/
def OverlookedParts (base : Nat) (whole fraction exponent suffix : Text) : Prop :=
  DecimalSignificand base whole fraction ∧ ExponentOk 10 exponent ∧ LongSuffix suffix ∧
      suffix ≠ [] ∧ (fraction ≠ [] ∨ exponent ≠ []) ∨
    base = 16 ∧ LooseDigits isHexDigit whole ∧ FractionOk isHexDigit fraction ∧
      ExponentOk 16 exponent ∧ (LongSuffix suffix ∨ FloatSuffix suffix) ∧
      (exponent = [] → LongSuffix suffix) ∧
      (¬ Significand isHexDigit whole fraction ∨ fraction ≠ [] ∧ exponent = [] ∨
        exponent ≠ [] ∧ LongSuffix suffix ∧ suffix ≠ []) ∨
    base = 2 ∧ LooseDigits isBinaryDigit whole ∧ FractionOk isBinaryDigit fraction ∧
      ExponentOk 2 exponent ∧ (LongSuffix suffix ∨ FloatSuffix suffix) ∧
      (¬ Digits isBinaryDigit whole ∨ fraction ≠ [] ∨ exponent ≠ [] ∨ FloatSuffix suffix)

theorem getLast?_append_of_some {front back : Text} (some : back ≠ []) :
    (front ++ back).getLast? = back.getLast? := by
  rw [List.getLast?_append, List.getLast?_eq_some_getLast some, Option.some_or]

theorem Significand.digits {p : Char → Bool} (significand : Significand p whole fraction) :
    Digits p whole ∨ whole = [] ∧ fraction ≠ [] := by
  rcases significand.2 with right | ⟨nothing, digits, rfl, -⟩
  · exact .inl right
  · exact .inr ⟨nothing, by simp⟩

/-- The parts of an integer literal are found in it. -/
theorem IntegerLiteral.parts (literal : IntegerLiteral text) :
    ∃ base whole fraction exponent suffix, Parts U text base whole fraction exponent suffix ∧
      IntegerParts base whole fraction exponent suffix := by
  cases literal with
  | @decimal digits suffix right starts long =>
      rcases decimal_parts (U := U) (.inl right) (.inl rfl) (.inl rfl) (.inl long) with
        ⟨base, whole, decimal, parts⟩
      refine ⟨base, whole, [], [], suffix, parts, rfl, rfl, long, ?_⟩
      rcases decimal with ⟨rfl, rfl, -⟩ | ⟨-, rfl, some⟩
      · exact .inl ⟨rfl, right, starts⟩
      · rcases starts with same | noZero
        · exact absurd (List.cons.inj same).2 some
        · exact absurd rfl noZero
  | @hex x whole suffix hex right long =>
      refine ⟨16, whole, [], [], suffix, ?_, rfl, rfl, long, .inr (.inr (.inl ⟨rfl, right⟩))⟩
      exact prefixed_parts (numberLead_hex hex) (.inl rfl) right.2.1 (.inl rfl) (.inl rfl)
        (.inl long) fun _ _ => long
  | @octal underscores digits suffix only right long =>
      have octal : ∀ c, isOctalDigit c = true → isDecimalDigit c = true := by
        intro c octal
        rw [isOctalDigit_eq, isDigit_iff (by decide)] at octal
        rw [isDecimalDigit, isDigit_iff (by decide)]
        omega
      have some : underscores ++ digits ≠ [] := by simp [right.1]
      have decimal : Digits isDecimalDigit ('0' :: (underscores ++ digits)) := by
        refine ⟨by simp, ?_, by simp, ?_⟩
        · intro c inside
          simp only [List.mem_cons, List.mem_append] at inside
          rcases inside with rfl | underscore | digit
          · exact .inl (by decide)
          · exact .inr (only c underscore)
          · exact (right.2.1 c digit).imp_left (octal c)
        · rw [← List.cons_append, getLast?_append_of_some right.1]
          exact right.2.2.2
      rcases decimal_parts (U := U) (.inl decimal) (.inl rfl) (.inl rfl) (.inl long) with
        ⟨base, whole, decimal, parts⟩
      have text : '0' :: (underscores ++ digits) ++ ([] ++ ([] ++ suffix)) =
          '0' :: (underscores ++ digits ++ suffix) := by simp
      rw [text] at parts
      refine ⟨base, whole, [], [], suffix, parts, rfl, rfl, long, ?_⟩
      rcases decimal with ⟨-, rfl, same | noZero⟩ | ⟨rfl, same, -⟩
      · exact absurd (List.cons.inj same).2 some
      · exact absurd rfl noZero
      · exact .inr (.inl ⟨rfl, underscores, digits, (List.cons.inj same).2.symm, only, right⟩)
  | @binary b whole suffix binary right long =>
      refine ⟨2, whole, [], [], suffix, ?_, rfl, rfl, long, .inr (.inr (.inr ⟨rfl, right⟩))⟩
      exact prefixed_parts (numberLead_binary binary) (.inr (.inl rfl)) right.2.1 (.inl rfl)
        (.inl rfl) (.inl long) fun _ _ => long

theorem integerLiteral_iff (parts : Parts U text base whole fraction exponent suffix) :
    IntegerLiteral text ↔ IntegerParts base whole fraction exponent suffix := by
  constructor
  · intro literal
    rcases literal.parts (U := U) with ⟨_, _, _, _, _, parts', right⟩
    rcases parts.unique parts' with ⟨rfl, rfl, rfl, rfl, rfl⟩
    exact right
  · rintro ⟨rfl, rfl, long, ⟨rfl, right, starts⟩ | ⟨rfl, underscores, digits, rfl, only, right⟩ |
      ⟨rfl, right⟩ | ⟨rfl, right⟩⟩
    · rw [parts.text_decimal (.inl ⟨rfl, rfl, starts⟩)]
      exact .decimal right starts long
    · rw [parts.text_decimal (.inr ⟨rfl, rfl, by simp [right.1]⟩)]
      exact .octal only right long
    · rcases parts.text_hex with ⟨x, hex, rfl⟩
      exact .hex hex right long
    · rcases parts.text_binary with ⟨b, binary, rfl⟩
      exact .binary binary right long

/-- The parts of a floating-point literal are found in it. -/
theorem FloatingPointLiteral.parts (literal : FloatingPointLiteral text) :
    ∃ base whole fraction exponent suffix, Parts U text base whole fraction exponent suffix ∧
      FloatParts base whole fraction exponent suffix := by
  -- The decimal literals.
  have decimal : ∀ {digits fraction exponent suffix : Text},
      Significand isDecimalDigit digits fraction →
      exponent = [] ∨ ExponentPart 'e' 'E' exponent → suffix = [] ∨ FloatSuffix suffix →
      fraction ≠ [] ∨ exponent ≠ [] ∨ suffix ≠ [] →
      ∃ base whole fraction' exponent' suffix',
        Parts U (digits ++ (fraction ++ (exponent ++ suffix))) base whole fraction' exponent' suffix' ∧
        FloatParts base whole fraction' exponent' suffix' := by
    intro digits fraction exponent suffix significand part float some
    have exponentOk : ExponentOk 10 exponent := (decimalExponent_iff (by decide)).mpr part
    have suffixes : LongSuffix suffix ∨ FloatSuffix suffix := float.imp_left .inl
    rcases decimal_parts (U := U) significand.digits significand.1 exponentOk suffixes with
      ⟨base, whole, decimal, parts⟩
    exact ⟨base, whole, _, _, _, parts, float,
      .inl ⟨⟨digits, decimal, significand⟩, exponentOk, some⟩⟩
  -- The hexadecimal literals.
  have hex : ∀ {x : Char} {whole fraction exponent suffix : Text}, HexLead x →
      Significand isHexDigit whole fraction → ExponentPart 'p' 'P' exponent →
      suffix = [] ∨ FloatSuffix suffix →
      ∃ base whole' fraction' exponent' suffix',
        Parts U ('0' :: x :: (whole ++ (fraction ++ (exponent ++ suffix)))) base whole' fraction'
          exponent' suffix' ∧ FloatParts base whole' fraction' exponent' suffix' := by
    intro x whole fraction exponent suffix hex significand part float
    have exponentOk : ExponentOk 16 exponent := hexExponent_iff.mpr (.inr part)
    have only : ∀ c ∈ whole, isHexDigit c = true ∨ c = '_' := by
      rcases significand.digits with right | ⟨rfl, -⟩
      · exact right.2.1
      · simp
    refine ⟨16, whole, fraction, exponent, suffix, ?_, float,
      .inr ⟨rfl, significand, exponentOk, exponentPart_ne_nil part⟩⟩
    exact prefixed_parts (numberLead_hex hex) (.inl rfl) only significand.1 exponentOk
      (float.imp_left .inl) fun nothing => absurd nothing (exponentPart_ne_nil part)
  cases literal with
  | @point whole fraction exponent suffix right digits part float =>
      exact decimal ⟨.inr ⟨fraction, rfl, digits⟩, .inl right⟩ part float (.inl (by simp))
  | @leadingPoint fraction exponent suffix digits part float =>
      exact @decimal [] _ exponent suffix
        ⟨.inr ⟨fraction, rfl, .inr digits⟩, .inr ⟨rfl, fraction, rfl, digits⟩⟩ part float
        (.inl (by simp))
  | @exponent whole exponent suffix right part float =>
      exact @decimal whole [] exponent suffix ⟨.inl rfl, .inl right⟩ (.inr part) float
        (.inr (.inl (exponentPart_ne_nil part)))
  | @suffix whole suffix right float =>
      apply @decimal whole [] [] suffix ⟨.inl rfl, .inl right⟩ (.inl rfl) (.inr float)
      rcases float with rfl | rfl | rfl | rfl <;> simp
  | @hex x whole point exponent suffix lead right point' part float =>
      refine hex lead ⟨?_, .inl right⟩ part float
      rcases point' with rfl | rfl
      · exact .inl rfl
      · exact .inr ⟨[], rfl, .inl rfl⟩
  | @hexPoint x whole fraction exponent suffix lead right digits part float =>
      apply @hex x whole ('.' :: fraction) exponent suffix lead
        ⟨.inr ⟨fraction, rfl, .inr digits⟩, ?_⟩ part float
      rcases right with rfl | right
      · exact .inr ⟨rfl, fraction, rfl, digits⟩
      · exact .inl right

theorem floatingPointLiteral_iff (parts : Parts U text base whole fraction exponent suffix) :
    FloatingPointLiteral text ↔ FloatParts base whole fraction exponent suffix := by
  constructor
  · intro literal
    rcases literal.parts (U := U) with ⟨_, _, _, _, _, parts', right⟩
    rcases parts.unique parts' with ⟨rfl, rfl, rfl, rfl, rfl⟩
    exact right
  · rintro ⟨float, ⟨⟨digits, decimal, significand⟩, exponentOk, some⟩ |
      ⟨rfl, significand, exponentOk, some⟩⟩
    · have part := (decimalExponent_iff (by decide)).mp exponentOk
      rw [parts.text_decimal decimal]
      rcases significand with ⟨fractionOk, right | ⟨rfl, fraction', rfl, right⟩⟩
      · rcases fractionOk with rfl | ⟨fraction', rfl, right'⟩
        · rcases part with rfl | part
          · rcases float with rfl | float
            · simp at some
            · exact .suffix right float
          · change FloatingPointLiteral (digits ++ (exponent ++ suffix))
            exact .exponent right part float
        · exact .point right right' part float
      · exact .leadingPoint right part float
    · have part := (hexExponent_iff.mp exponentOk).resolve_left some
      rcases parts.text_hex with ⟨x, hex, rfl⟩
      rcases significand with ⟨fractionOk, right | ⟨rfl, fraction', rfl, right⟩⟩
      · rcases fractionOk with rfl | ⟨fraction', rfl, rfl | right'⟩
        · exact @FloatingPointLiteral.hex x whole [] exponent suffix hex right (.inl rfl) part float
        · exact @FloatingPointLiteral.hex x whole ['.'] exponent suffix hex right (.inr rfl) part float
        · exact .hexPoint hex (.inr right) right' part float
      · exact @FloatingPointLiteral.hexPoint x [] fraction' exponent suffix hex (.inl rfl) right part float

/-- The parts of an overlooked number are found in it. -/
theorem Overlooked.parts (overlooked : Overlooked text) :
    ∃ base whole fraction exponent suffix, Parts U text base whole fraction exponent suffix ∧
      OverlookedParts base whole fraction exponent suffix := by
  cases overlooked with
  | @decimal digits fraction exponent suffix significand part long some float =>
      have exponentOk : ExponentOk 10 exponent := (decimalExponent_iff (by decide)).mpr part
      rcases decimal_parts (U := U) significand.digits significand.1 exponentOk (.inl long) with
        ⟨base, whole, decimal, parts⟩
      exact ⟨base, whole, _, _, _, parts,
        .inl ⟨⟨digits, decimal, significand⟩, exponentOk, long, some, float⟩⟩
  | @hex x whole fraction exponent suffix hex loose fractionOk part suffixes notDigit wrong =>
      have exponentOk : ExponentOk 16 exponent := hexExponent_iff.mpr part
      refine ⟨16, whole, fraction, exponent, suffix, ?_,
        .inr (.inl ⟨rfl, loose, fractionOk, exponentOk, suffixes, notDigit, wrong⟩)⟩
      exact prefixed_parts (numberLead_hex hex) (.inl rfl) loose.1 fractionOk exponentOk suffixes
        fun nothing _ => notDigit nothing
  | @binary b whole fraction exponent suffix binary loose fractionOk part suffixes wrong =>
      have exponentOk : ExponentOk 2 exponent := (decimalExponent_iff (by decide)).mpr part
      refine ⟨2, whole, fraction, exponent, suffix, ?_,
        .inr (.inr ⟨rfl, loose, fractionOk, exponentOk, suffixes, wrong⟩)⟩
      exact prefixed_parts (numberLead_binary binary) (.inr (.inl rfl)) loose.1 fractionOk exponentOk
        suffixes (by simp)

theorem overlooked_iff (parts : Parts U text base whole fraction exponent suffix) :
    Overlooked text ↔ OverlookedParts base whole fraction exponent suffix := by
  constructor
  · intro overlooked
    rcases overlooked.parts (U := U) with ⟨_, _, _, _, _, parts', wrong⟩
    rcases parts.unique parts' with ⟨rfl, rfl, rfl, rfl, rfl⟩
    exact wrong
  · rintro (⟨⟨digits, decimal, significand⟩, exponentOk, long, some, float⟩ |
      ⟨rfl, loose, fractionOk, exponentOk, suffixes, notDigit, wrong⟩ |
      ⟨rfl, loose, fractionOk, exponentOk, suffixes, wrong⟩)
    · rw [parts.text_decimal decimal]
      exact .decimal significand ((decimalExponent_iff (by decide)).mp exponentOk) long some float
    · rcases parts.text_hex with ⟨x, hex, rfl⟩
      exact .hex hex loose fractionOk (hexExponent_iff.mp exponentOk) suffixes notDigit wrong
    · rcases parts.text_binary with ⟨b, binary, rfl⟩
      exact .binary binary loose fractionOk ((decimalExponent_iff (by decide)).mp exponentOk)
        suffixes wrong

/-! ### What is reported -/

theorem floatSuffix_iff (suffixes : LongSuffix suffix ∨ FloatSuffix suffix) :
    suffix.any isFloatSuffix = true ↔ FloatSuffix suffix := by
  rcases suffixes with (rfl | rfl | rfl) | (rfl | rfl | rfl | rfl) <;>
    simp [FloatSuffix, isFloatSuffix, toAsciiLowercase]

theorem not_floatSuffix (long : LongSuffix suffix) : ¬ FloatSuffix suffix := by
  rcases long with rfl | rfl | rfl <;> simp [FloatSuffix]

theorem isFloat_iff (suffixes : LongSuffix suffix ∨ FloatSuffix suffix) :
    isFloat fraction exponent suffix = true ↔
      fraction ≠ [] ∨ exponent ≠ [] ∨ FloatSuffix suffix := by
  rw [isFloat, Bool.or_eq_true, Bool.or_eq_true, floatSuffix_iff suffixes, or_assoc]
  simp

/-- No character of the integer part is reported when all of them can be consumed as digits. -/
theorem noForeign_iff (isBase : IsBase base) :
    whole.any (isForeign base) = false ↔
      ∀ c ∈ whole, isDigit c (consumeBase base) = true ∨ c = '_' := by
  have each : ∀ c, isForeign base c = false ↔ isDigit c (consumeBase base) = true ∨ c = '_' := by
    intro c
    by_cases octal : base = 8
    · subst octal
      have small : isDigit c 8 = true → isDigit c 10 = true := by
        rw [isDigit_iff (by decide), isDigit_iff (by decide)]
        omega
      have decimal : isDigit c 10 = isAsciiDigit c := isDecimalDigit_eq
      change _ ↔ isDigit c 10 = true ∨ c = '_'
      by_cases underscore : c = '_'
      · simp [isForeign, underscore]
      · cases inRange : isDigit c 8 with
        | true => simp [isForeign, inRange, small inRange]
        | false => simp [isForeign, isInvalidOctalDigit, inRange, underscore, decimal]
    · have same : consumeBase base = base := if_neg octal
      have regular : isInvalidOctalDigit base c = false := by simp [isInvalidOctalDigit, octal]
      by_cases underscore : c = '_'
      · simp [isForeign, underscore]
      · simp [isForeign, regular, underscore, same]
  rw [List.any_eq_false]
  constructor
  · intro none c inside
    exact (each c).mp (by simpa using none c inside)
  · intro only c inside
    simpa using (each c).mpr (only c inside)

theorem DecimalWhole.subset {digits : Text} (decimal : DecimalWhole base whole digits) :
    (∀ c ∈ whole, c ∈ digits) ∧ (digits.getLast? ≠ some '_' → whole.getLast? ≠ some '_') := by
  rcases decimal with ⟨-, rfl, -⟩ | ⟨-, rfl, nonempty⟩
  · exact ⟨fun _ => id, id⟩
  · refine ⟨fun c inside => List.mem_cons_of_mem _ inside, ?_⟩
    rcases List.exists_cons_of_ne_nil nonempty with ⟨c, others, rfl⟩
    rw [List.getLast?_cons_cons]
    exact id

theorem DecimalWhole.bases {digits : Text} (decimal : DecimalWhole base whole digits) :
    IsBase base ∧ consumeBase base = 10 ∧ base ≠ 16 := by
  rcases decimal with ⟨rfl, -⟩ | ⟨rfl, -⟩
  · exact ⟨.inr (.inr (.inr rfl)), rfl, by decide⟩
  · exact ⟨.inr (.inr (.inl rfl)), rfl, by decide⟩

/-- Nothing is reported for a decimal number that looks like a float. -/
theorem decimal_unreported (significand : DecimalSignificand base whole fraction)
    (exponentOk : ExponentOk 10 exponent) (float : isFloat fraction exponent suffix = true) :
    Unreported base whole fraction exponent suffix := by
  rcases significand with ⟨digits, decimal, significand⟩
  rcases decimal.bases with ⟨isBase, ten, noHex⟩
  have only : (∀ c ∈ digits, isDigit c 10 = true ∨ c = '_') ∧ digits.getLast? ≠ some '_' := by
    rcases significand.digits with right | ⟨rfl, -⟩
    · exact ⟨right.2.1, right.2.2.2⟩
    · simp
  refine ⟨(noForeign_iff isBase).mpr ?_, decimal.subset.2 only.2, ?_, ?_, ?_⟩
  · intro c inside
    rw [ten]
    exact only.1 c (decimal.subset.1 c inside)
  · rw [ten]
    exact significand.1
  · rwa [decimalExponent_iff noHex, ← decimalExponent_iff (by decide : 10 ≠ 16)]
  · intro _ noFloat
    rw [float] at noFloat
    cases noFloat

/-- Nothing is reported for a number with a prefix when its parts are right. -/
theorem prefixed_unreported (isBase : IsBase base) (noOctal : base ≠ 8)
    (loose : LooseDigits (isDigit · base) whole) (fractionOk : FractionOk (isDigit · base) fraction)
    (exponentOk : ExponentOk base exponent) : Unreported base whole fraction exponent suffix := by
  have same : consumeBase base = base := if_neg noOctal
  refine ⟨(noForeign_iff isBase).mpr ?_, loose.2, ?_, exponentOk, fun octal => absurd octal noOctal⟩
  · rw [same]
    exact loose.1
  · rw [same]
    exact fractionOk

theorem Digits.loose {p : Char → Bool} (right : Digits p whole) : LooseDigits p whole :=
  ⟨right.2.1, right.2.2.2⟩

/-- An integer literal is not reported, and is no float. -/
theorem IntegerParts.unreported (right : IntegerParts base whole fraction exponent suffix) :
    Unreported base whole fraction exponent suffix ∧ isFloat fraction exponent suffix = false := by
  rcases right with ⟨rfl, rfl, long, cases⟩
  have noFloat : isFloat [] [] suffix = false := by
    rw [← Bool.not_eq_true, isFloat_iff (.inl long)]
    simp [not_floatSuffix long]
  refine ⟨?_, noFloat⟩
  rcases cases with ⟨rfl, right, -⟩ | ⟨rfl, underscores, digits, rfl, only, right⟩ | ⟨rfl, right⟩ |
    ⟨rfl, right⟩
  · exact prefixed_unreported (.inr (.inr (.inr rfl))) (by decide) right.loose (.inl rfl) (.inl rfl)
  · have octal : ∀ c ∈ underscores ++ digits, isDigit c 8 = true ∨ c = '_' := by
      intro c inside
      rcases List.mem_append.mp inside with underscore | digit
      · exact .inr (only c underscore)
      · rw [← isOctalDigit_eq]
        exact right.2.1 c digit
    refine ⟨(noForeign_iff (.inr (.inr (.inl rfl)))).mpr ?_, ?_, .inl rfl, .inl rfl, ?_⟩
    · intro c inside
      refine (octal c inside).imp_left ?_
      change isDigit c 8 = true → isDigit c 10 = true
      rw [isDigit_iff (by decide), isDigit_iff (by decide)]
      omega
    · rw [getLast?_append_of_some right.1]
      exact right.2.2.2
    · intro _ _
      rw [List.any_eq_false]
      intro c inside
      rcases octal c inside with digit | rfl
      · simp [isInvalidOctalDigit, digit]
      · simp [isInvalidOctalDigit, isAsciiDigit]
  · exact prefixed_unreported (.inl rfl) (by decide) right.loose (.inl rfl) (.inl rfl)
  · exact prefixed_unreported (.inr (.inl rfl)) (by decide) right.loose (.inl rfl) (.inl rfl)

theorem Significand.loose {p : Char → Bool} (significand : Significand p whole fraction) :
    LooseDigits p whole := by
  rcases significand.digits with right | ⟨rfl, -⟩
  · exact right.loose
  · simp [LooseDigits]

/-- A floating-point literal is not reported, and is a float. -/
theorem FloatParts.unreported (right : FloatParts base whole fraction exponent suffix) :
    Unreported base whole fraction exponent suffix ∧ isFloat fraction exponent suffix = true := by
  rcases right with ⟨float, cases⟩
  have isFloat' : isFloat fraction exponent suffix = true := by
    rw [isFloat_iff (float.imp_left .inl)]
    rcases cases with ⟨-, -, fraction' | exponent' | some⟩ | ⟨-, -, -, exponent'⟩
    · exact .inl fraction'
    · exact .inr (.inl exponent')
    · exact .inr (.inr (float.resolve_left some))
    · exact .inr (.inl exponent')
  refine ⟨?_, isFloat'⟩
  rcases cases with ⟨significand, exponentOk, -⟩ | ⟨rfl, significand, exponentOk, -⟩
  · exact decimal_unreported significand exponentOk isFloat'
  · exact prefixed_unreported (.inl rfl) (by decide) significand.loose significand.1 exponentOk

/-- An overlooked number is not reported. -/
theorem OverlookedParts.unreported (wrong : OverlookedParts base whole fraction exponent suffix) :
    Unreported base whole fraction exponent suffix := by
  rcases wrong with ⟨significand, exponentOk, long, -, float⟩ | ⟨rfl, loose, fractionOk, exponentOk, -⟩ |
    ⟨rfl, loose, fractionOk, exponentOk, -⟩
  · apply decimal_unreported significand exponentOk
    rw [isFloat_iff (.inl long), ← or_assoc]
    exact .inl float
  · exact prefixed_unreported (.inl rfl) (by decide) loose fractionOk exponentOk
  · exact prefixed_unreported (.inr (.inl rfl)) (by decide) loose fractionOk exponentOk

/-- An overlooked number is no literal. -/
theorem OverlookedParts.not_literal (wrong : OverlookedParts base whole fraction exponent suffix) :
    ¬ IntegerParts base whole fraction exponent suffix ∧
      ¬ FloatParts base whole fraction exponent suffix := by
  have noLong : LongSuffix suffix → suffix ≠ [] → ¬ (suffix = [] ∨ FloatSuffix suffix) := by
    rintro long some (nothing | float)
    · exact some nothing
    · exact not_floatSuffix long float
  rcases wrong with ⟨significand, -, long, some, float⟩ |
    ⟨rfl, -, -, -, suffixes, notDigit, wrong⟩ | ⟨rfl, -, -, -, suffixes, wrong⟩
  · constructor
    · rintro ⟨rfl, rfl, -⟩
      simp at float
    · rintro ⟨float', -⟩
      exact noLong long some float'
  · constructor
    · rintro ⟨rfl, rfl, long, cases⟩
      have right : Digits isHexDigit whole := by simpa using cases
      rcases wrong with wrong | ⟨absurd, -⟩ | ⟨absurd, -⟩
      · exact wrong ⟨.inl rfl, .inl right⟩
      · exact absurd rfl
      · exact absurd rfl
    · rintro ⟨float', ⟨⟨digits, decimal, -⟩, -⟩ | ⟨-, significand, -, some⟩⟩
      · exact decimal.bases.2.2 rfl
      · rcases wrong with wrong | ⟨-, nothing⟩ | ⟨-, long, some'⟩
        · exact wrong significand
        · exact some nothing
        · exact noLong long some' float'
  · constructor
    · rintro ⟨rfl, rfl, long, cases⟩
      have right : Digits isBinaryDigit whole := by simpa using cases
      rcases wrong with wrong | absurd | absurd | float
      · exact wrong right
      · exact absurd rfl
      · exact absurd rfl
      · exact not_floatSuffix long float
    · rintro ⟨-, ⟨⟨digits, decimal, -⟩, -⟩ | ⟨absurd, -⟩⟩
      · rcases decimal with ⟨absurd, -⟩ | ⟨absurd, -⟩ <;> cases absurd
      · cases absurd

end LiteralParts

end CaffeineLs.JavaSyntax
