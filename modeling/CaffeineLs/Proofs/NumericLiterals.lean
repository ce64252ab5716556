/-
Module: CaffeineLs.Proofs.NumericLiterals
Purpose: The Java lexer reports exactly the numbers that are no literals, and tells floating-point
  literals from integers, except for five kinds of wrong numbers that it overlooks.
Trusted boundary: none
Main exports: handleNumber_text, LogicalHead.extends, number_reported_iff
-/
import CaffeineLs.Proofs.NumericGrammar
import CaffeineLs.Proofs.TokenTranslation

namespace CaffeineLs.JavaSyntax

open Imperative
open SourceText

section LiteralParts

variable {U : UnicodeTables} {text : Text} {base : Nat} {whole fraction exponent suffix : Text}

/-! ### Every number is a literal, overlooked or reported -/

/-- A digit, or a point and a digit. -/
def StartsNumber (text : Text) : Prop :=
  (∃ c rest, text = c :: rest ∧ isAsciiDigit c = true) ∨
    ∃ c rest, text = '.' :: c :: rest ∧ isAsciiDigit c = true

/-- A character that a run goes on with does not stop it. -/
theorem Stops.not_cons {p : Char → Bool} {c : Char} {rest : Text} (stops : Stops p (c :: rest))
    (taken : p c = true ∨ c = '_') : False := by
  rcases taken with taken | underscore
  · have stopped : p c = false := stops.1
    rw [stopped] at taken
    cases taken
  · exact stops.2 underscore

theorem isIntegerChar_of_digit {c : Char} (digit : isDecimalDigit c = true) :
    isIntegerChar U 10 c = true := by
  rw [isIntegerChar, Bool.or_eq_true]
  exact .inr digit

variable {after lead : Text}

/-- What was read for a number's parts is the text of these parts. -/
theorem parts_of_read
    (leads : numberLead (lead ++ (whole ++ (fraction ++ (exponent ++ suffix))) ++ after) =
      (lead, base))
    (shape : NumberShape U base whole fraction exponent suffix)
    (maximal : Maximal U base fraction exponent suffix after) :
    Parts U (lead ++ (whole ++ (fraction ++ (exponent ++ suffix)))) base whole fraction exponent
      suffix := by
  refine ⟨shape, lead, ?_, rfl⟩
  rcases numberLead_cases leads with ⟨x, _, hex, -, rfl, rfl⟩ | ⟨b, _, binary, -, rfl, rfl⟩ |
    ⟨c, rest, digit, split, rfl, rfl⟩ | ⟨other, rfl, rfl⟩
  · exact numberLead_hex hex _
  · exact numberLead_binary binary _
  · cases whole with
    | nil =>
        -- The digit after the prefix would have been read.
        have ahead : fraction ++ (exponent ++ (suffix ++ after)) = c :: rest := by
          simpa using split
        have stops := maximal.wholeStops
        rw [ahead] at stops
        exact (stops.not_cons (digit.imp_left isIntegerChar_of_digit)).elim
    | cons d whole =>
        obtain rfl : d = c := by simpa using (List.cons.inj (List.cons.inj split).2).1
        exact numberLead_octal digit _
  · revert leads
    generalize whole ++ (fraction ++ (exponent ++ suffix)) = text
    intro leads
    rcases text with _ | ⟨c, _ | ⟨d, rest⟩⟩
    · rfl
    · unfold numberLead
      split
      · rename_i same
        cases same
      · rfl
    · by_cases zero : c = '0'
      · subst zero
        exact leads
      · unfold numberLead
        split
        · rename_i same
          exact absurd (List.cons.inj same).1 zero
        · rfl

/-- A decimal number for which nothing is reported has digits. -/
theorem decimalSignificand_of_read
    (starts : StartsNumber (lead ++ (whole ++ (fraction ++ (exponent ++ suffix))) ++ after))
    (leads : numberLead (lead ++ (whole ++ (fraction ++ (exponent ++ suffix))) ++ after) =
      (lead, base))
    (maximal : Maximal U base fraction exponent suffix after) (decimal : base = 10 ∨ base = 8)
    (unreported : Unreported base whole fraction exponent suffix) :
    DecimalSignificand base whole fraction := by
  have isBase := isBase_of_lead leads
  have ten : consumeBase base = 10 := by rcases decimal with rfl | rfl <;> rfl
  have only : ∀ c ∈ whole, isDecimalDigit c = true ∨ c = '_' := by
    have only := (noForeign_iff isBase).mp unreported.noForeign
    rw [ten] at only
    exact only
  have fractionOk : FractionOk isDecimalDigit fraction := by
    have ok := unreported.fractionOk
    rw [ten] at ok
    exact ok
  have wholeStops := maximal.wholeStops
  have fractionStops := maximal.fractionStops
  rw [ten] at wholeStops fractionStops
  rcases numberLead_cases leads with ⟨_, _, _, _, _, rfl⟩ | ⟨_, _, _, _, _, rfl⟩ |
    ⟨c, rest, digit, split, rfl, rfl⟩ | ⟨other, rfl, rfl⟩
  · simp at decimal
  · simp at decimal
  · have some : whole ≠ [] := by
      rintro rfl
      have ahead : fraction ++ (exponent ++ (suffix ++ after)) = c :: rest := by simpa using split
      rw [ahead] at wholeStops
      exact wholeStops.not_cons (digit.imp_left isIntegerChar_of_digit)
    refine ⟨'0' :: whole, .inr ⟨rfl, rfl, some⟩, fractionOk, .inl ⟨by simp, ?_, by simp, ?_⟩⟩
    · intro d inside
      rcases List.mem_cons.mp inside with rfl | inside
      · exact .inl (by decide)
      · exact only d inside
    · rw [← List.singleton_append, getLast?_append_of_some some]
      exact unreported.noUnderscore
  · simp only [List.nil_append, List.append_assoc] at starts other
    rcases whole with _ | ⟨c, whole⟩
    · rw [List.nil_append] at starts
      refine ⟨[], .inl ⟨rfl, rfl, .inr (by simp)⟩, fractionOk, .inr ⟨rfl, ?_⟩⟩
      rcases starts with ⟨c, rest, ahead, digit⟩ | ⟨c, rest, ahead, digit⟩
      · rw [← isDecimalDigit_eq] at digit
        rw [ahead] at wholeStops
        exact (wholeStops.not_cons (.inl (isIntegerChar_of_digit digit))).elim
      · rcases fractionOk with rfl | ⟨digits, rfl, rfl | right⟩
        · exact absurd (by rw [List.nil_append] at ahead; rw [ahead]; rfl) (maximal.noDot rfl)
        · have ahead' : exponent ++ (suffix ++ after) = c :: rest := by simpa using ahead
          rw [← isDecimalDigit_eq] at digit
          rw [ahead'] at fractionStops
          exact (fractionStops.not_cons (.inl digit)).elim
        · exact ⟨digits, rfl, right⟩
    · have first : isDecimalDigit c = true := by
        rcases starts with ⟨d, rest, ahead, digit⟩ | ⟨d, rest, ahead, -⟩
        · rw [isDecimalDigit_eq, (List.cons.inj ahead).1]
          exact digit
        · rcases only c (by simp) with digit | rfl
          · exact digit
          · cases (List.cons.inj ahead).1
      have right : Digits isDecimalDigit (c :: whole) := by
        refine ⟨by simp, only, ?_, unreported.noUnderscore⟩
        rintro underscore
        obtain rfl : c = '_' := by simpa using underscore
        exact absurd first (by decide)
      refine ⟨c :: whole, .inl ⟨rfl, rfl, ?_⟩, fractionOk, .inl right⟩
      by_cases zero : c = '0'
      · subst zero
        left
        cases whole with
        | nil => rfl
        | cons d whole =>
            rcases other d _ rfl with ⟨noDigit, noUnderscore⟩
            rcases only d (by simp) with digit | underscore
            · rw [noDigit] at digit
              cases digit
            · exact absurd underscore noUnderscore
      · exact .inr (by simpa using zero)

/-- The digits of an octal number in range. -/
theorem octal_of_range (some : whole ≠ []) (last : whole.getLast? ≠ Option.some '_')
    (only : ∀ c ∈ whole, isOctalDigit c = true ∨ c = '_') :
    ∃ underscores digits, whole = underscores ++ digits ∧ (∀ c ∈ underscores, c = '_') ∧
      Digits isOctalDigit digits := by
  have split := List.takeWhile_append_dropWhile (p := fun c => decide (c = '_')) (l := whole)
  have underscores : ∀ c ∈ whole.takeWhile fun c => decide (c = '_'), c = '_' := fun c inside => by
    simpa using List.mem_takeWhile_imp inside
  have more : whole.dropWhile (fun c => decide (c = '_')) ≠ [] := by
    intro nothing
    rw [nothing, List.append_nil] at split
    rcases List.exists_cons_of_ne_nil some with ⟨c, others, rfl⟩
    apply last
    rw [split] at underscores
    rw [List.getLast?_eq_some_getLast some]
    exact congrArg Option.some (underscores _ (List.getLast_mem some))
  refine ⟨_, _, split.symm, underscores, more, ?_, ?_, ?_⟩
  · intro c inside
    exact only c (split ▸ List.mem_append_right _ inside)
  · intro first
    have stop := List.head?_dropWhile_not (fun c => decide (c = '_')) whole
    rw [first] at stop
    simp at stop
  · rw [← getLast?_append_of_some more, split]
    exact last

/-- A decimal number for which nothing is reported is a literal, or has the suffix of a `long`. -/
theorem decimal_classified (significand : DecimalSignificand base whole fraction)
    (unreported : Unreported base whole fraction exponent suffix)
    (suffixes : LongSuffix suffix ∨ FloatSuffix suffix) :
    IntegerParts base whole fraction exponent suffix ∨
      FloatParts base whole fraction exponent suffix ∨
      OverlookedParts base whole fraction exponent suffix := by
  rcases significand with ⟨digits, decimal, significand⟩
  have exponentOk : ExponentOk 10 exponent := by
    rw [decimalExponent_iff (by decide), ← decimalExponent_iff decimal.bases.2.2]
    exact unreported.exponentOk
  by_cases float : fraction ≠ [] ∨ exponent ≠ []
  · rcases suffixes with long | float'
    · by_cases nothing : suffix = []
      · refine .inr (.inl ⟨.inl nothing, .inl ⟨⟨digits, decimal, significand⟩, exponentOk, ?_⟩⟩)
        exact float.imp_right .inl
      · exact .inr (.inr (.inl ⟨⟨digits, decimal, significand⟩, exponentOk, long, nothing, float⟩))
    · refine .inr (.inl ⟨.inr float', .inl ⟨⟨digits, decimal, significand⟩, exponentOk, ?_⟩⟩)
      exact float.imp_right .inl
  · obtain ⟨rfl, rfl⟩ : fraction = [] ∧ exponent = [] := by simpa [not_or] using float
    have right : Digits isDecimalDigit digits := by
      rcases significand.digits with right | ⟨-, some⟩
      · exact right
      · exact absurd rfl some
    rcases suffixes with long | float'
    · refine .inl ⟨rfl, rfl, long, ?_⟩
      rcases decimal with ⟨rfl, rfl, starts⟩ | ⟨rfl, rfl, some⟩
      · exact .inl ⟨rfl, right, starts⟩
      · have noFloat : isFloat [] [] suffix = false := by
          rw [← Bool.not_eq_true, isFloat_iff (.inl long)]
          simp [not_floatSuffix long]
        have inRange := unreported.octal rfl noFloat
        rw [List.any_eq_false] at inRange
        refine .inr (.inl ⟨rfl, octal_of_range some unreported.noUnderscore ?_⟩)
        intro c inside
        rcases right.2.1 c (List.mem_cons_of_mem _ inside) with digit | underscore
        · left
          have ascii : isAsciiDigit c = true := isDecimalDigit_eq ▸ digit
          have range := inRange c inside
          rw [isOctalDigit_eq]
          simpa [isInvalidOctalDigit, ascii] using range
        · exact .inr underscore
    · refine .inr (.inl ⟨.inr float', .inl ⟨⟨digits, decimal, significand⟩, exponentOk, ?_⟩⟩)
      right
      right
      rintro rfl
      exact not_floatSuffix (.inl rfl) float'

/-- A number for which nothing is reported is a literal or overlooked. -/
theorem classified
    (starts : StartsNumber (lead ++ (whole ++ (fraction ++ (exponent ++ suffix))) ++ after))
    (leads : numberLead (lead ++ (whole ++ (fraction ++ (exponent ++ suffix))) ++ after) =
      (lead, base))
    (shape : NumberShape U base whole fraction exponent suffix)
    (maximal : Maximal U base fraction exponent suffix after)
    (unreported : Unreported base whole fraction exponent suffix) :
    IntegerParts base whole fraction exponent suffix ∨
      FloatParts base whole fraction exponent suffix ∨
      OverlookedParts base whole fraction exponent suffix := by
  have isBase := isBase_of_lead leads
  have suffixes := suffixText_iff.mp shape.suffixText
  have only := (noForeign_iff isBase).mp unreported.noForeign
  have decimal : base = 10 ∨ base = 8 → DecimalSignificand base whole fraction := fun decimal =>
    decimalSignificand_of_read starts leads maximal decimal unreported
  rcases isBase with rfl | rfl | rfl | rfl
  · have loose : LooseDigits isHexDigit whole := ⟨only, unreported.noUnderscore⟩
    have notDigit : exponent = [] → LongSuffix suffix := by
      intro nothing
      rcases suffixes with long | float
      · exact long
      · have outside := shape.notDigit nothing
        rcases float with rfl | rfl | rfl | rfl <;>
          exact absurd (outside _ (List.mem_singleton_self _)) (by decide)
    by_cases significand : Significand isHexDigit whole fraction
    · by_cases nothing : exponent = []
      · by_cases point : fraction = []
        · subst point nothing
          refine .inl ⟨rfl, rfl, notDigit rfl, .inr (.inr (.inl ⟨rfl, ?_⟩))⟩
          rcases significand.digits with right | ⟨-, some⟩
          · exact right
          · exact absurd rfl some
        · exact .inr (.inr (.inr (.inl ⟨rfl, loose, unreported.fractionOk, unreported.exponentOk,
            suffixes, notDigit, .inr (.inl ⟨point, nothing⟩)⟩)))
      · have float : suffix = [] ∨ FloatSuffix suffix → FloatParts 16 whole fraction exponent suffix :=
          fun float => ⟨float, .inr ⟨rfl, significand, unreported.exponentOk, nothing⟩⟩
        rcases suffixes with long | float'
        · by_cases none : suffix = []
          · exact .inr (.inl (float (.inl none)))
          · exact .inr (.inr (.inr (.inl ⟨rfl, loose, unreported.fractionOk, unreported.exponentOk,
              .inl long, notDigit, .inr (.inr ⟨nothing, long, none⟩)⟩)))
        · exact .inr (.inl (float (.inr float')))
    · exact .inr (.inr (.inr (.inl ⟨rfl, loose, unreported.fractionOk, unreported.exponentOk,
        suffixes, notDigit, .inl significand⟩)))
  · have loose : LooseDigits isBinaryDigit whole := ⟨only, unreported.noUnderscore⟩
    by_cases wrong : ¬ Digits isBinaryDigit whole ∨ fraction ≠ [] ∨ exponent ≠ [] ∨ FloatSuffix suffix
    · exact .inr (.inr (.inr (.inr ⟨rfl, loose, unreported.fractionOk, unreported.exponentOk,
        suffixes, wrong⟩)))
    · simp only [not_or, not_not] at wrong
      rcases wrong with ⟨right, rfl, rfl, noFloat⟩
      exact .inl ⟨rfl, rfl, suffixes.resolve_right noFloat, .inr (.inr (.inr ⟨rfl, right⟩))⟩
  · exact decimal_classified (decimal (.inr rfl)) unreported suffixes
  · exact decimal_classified (decimal (.inl rfl)) unreported suffixes

/-! ### What looks like a float -/

/-- The text starts with the prefix of a hexadecimal number. -/
def HexText (text : Text) : Prop := ∃ x rest, HexLead x ∧ text = '0' :: x :: rest

/-- The text has a point, or a letter that no integer of its base has. -/
def LooksFloat (text : Text) : Prop :=
  '.' ∈ text ∨ HexText text ∧ (∃ c ∈ text, c = 'p' ∨ c = 'P') ∨
    ¬ HexText text ∧ ∃ c ∈ text, c ∈ ['e', 'E', 'f', 'F', 'd', 'D']

theorem Parts.hexText_iff (parts : Parts U text base whole fraction exponent suffix) :
    HexText text ↔ base = 16 := by
  rcases parts.led with ⟨lead, leads, -⟩
  constructor
  · rintro ⟨x, rest, hex, rfl⟩
    rw [numberLead_hex hex] at leads
    exact (Prod.mk.inj leads).2.symm
  · rintro rfl
    rcases numberLead_cases leads with ⟨x, rest, hex, split, -⟩ | ⟨_, _, _, _, _, other⟩ |
      ⟨_, _, _, _, _, other⟩ | ⟨_, _, other⟩
    · exact ⟨x, rest, hex, split⟩
    all_goals cases other

/-- A character that is in neither the prefix nor the integer part. -/
theorem Parts.float_of_mark (parts : Parts U text base whole fraction exponent suffix) {c : Char}
    (inside : c ∈ text) (noLead : c ∉ ['0', 'x', 'X', 'b', 'B'])
    (noInteger : isIntegerChar U (consumeBase base) c = false) (noUnderscore : c ≠ '_')
    (noLong : c ≠ 'l' ∧ c ≠ 'L') : fraction ≠ [] ∨ exponent ≠ [] ∨ FloatSuffix suffix := by
  rcases parts.led with ⟨lead, leads, rfl⟩
  simp only [List.mem_append] at inside
  rcases inside with prefix' | integer | fraction' | exponent' | suffix'
  · have known : ∀ d ∈ lead, d ∈ ['0', 'x', 'X', 'b', 'B'] := by
      rcases numberLead_cases leads with ⟨_, _, rfl | rfl, _, rfl, _⟩ | ⟨_, _, rfl | rfl, _, rfl, _⟩ |
        ⟨_, _, _, _, rfl, _⟩ | ⟨_, rfl, _⟩ <;> exact forall_mem_of_all (by decide)
    exact absurd (known c prefix') noLead
  · rcases parts.wholeText c integer with taken | underscore
    · rw [noInteger] at taken
      cases taken
    · exact absurd underscore noUnderscore
  · exact .inl (List.ne_nil_of_mem fraction')
  · exact .inr (.inl (List.ne_nil_of_mem exponent'))
  · right
    right
    rcases suffixText_iff.mp parts.suffixText with long | float
    · rcases long with rfl | rfl | rfl
      · cases suffix'
      · exact absurd (List.mem_singleton.mp suffix') noLong.1
      · exact absurd (List.mem_singleton.mp suffix') noLong.2
    · exact float

theorem looksFloat_iff (parts : Parts U text base whole fraction exponent suffix) :
    LooksFloat text ↔ isFloat fraction exponent suffix = true := by
  have suffixes := suffixText_iff.mp parts.suffixText
  rw [isFloat_iff suffixes, LooksFloat, parts.hexText_iff]
  have isBase : IsBase base := by
    rcases parts.led with ⟨_, leads, -⟩
    exact isBase_of_lead leads
  have within : ∀ c, c ∈ fraction ∨ c ∈ exponent ∨ c ∈ suffix → c ∈ text := by
    rcases parts.led with ⟨lead, -, rfl⟩
    intro c inside
    simp only [List.mem_append]
    exact .inr (.inr inside)
  constructor
  · rintro (dot | ⟨rfl, c, inside, mark⟩ | ⟨noHex, c, inside, mark⟩)
    · exact parts.float_of_mark dot (by decide)
        (isIntegerChar_ascii (by decide) (by decide) (isDigit_dot _)) (by decide) (by decide)
    · apply parts.float_of_mark inside
      · rcases mark with rfl | rfl <;> decide
      · rcases mark with rfl | rfl <;> exact isIntegerChar_ascii (by decide) (by decide) (by decide)
      · rcases mark with rfl | rfl <;> decide
      · rcases mark with rfl | rfl <;> decide
    · have known : ∀ d ∈ ['e', 'E', 'f', 'F', 'd', 'D'], d ∉ ['0', 'x', 'X', 'b', 'B'] ∧
          d.val < 128 ∧ isAsciiDigit d = false ∧ isDigit d 10 = false ∧ isDigit d 2 = false ∧
          d ≠ '_' ∧ d ≠ 'l' ∧ d ≠ 'L' := forall_mem_of_all (by decide)
      rcases known c mark with ⟨noLead, ascii, noDigit, noDecimal, noBinary, underscore, long⟩
      apply parts.float_of_mark inside noLead (isIntegerChar_ascii ascii noDigit _) underscore long
      rcases isBase with rfl | rfl | rfl | rfl
      · exact absurd rfl noHex
      · exact noBinary
      · exact noDecimal
      · exact noDecimal
  · have marker : exponent ≠ [] → ∃ c ∈ text, isExponentMarker base c = true := by
      intro some
      rcases parts.exponentText with nothing | ⟨c, sign, digits, rfl, marks, -⟩
      · exact absurd nothing some
      · exact ⟨c, within c (.inr (.inl (by simp))), marks⟩
    rintro (point | some | float)
    · rcases parts.fractionText with nothing | ⟨digits, rfl, -⟩
      · exact absurd nothing point
      · exact .inl (within '.' (.inl (by simp)))
    · rcases marker some with ⟨c, inside, marks⟩
      rcases isExponentMarker_iff.mp marks with ⟨noHex, rfl | rfl⟩ | ⟨hex, mark⟩
      · exact .inr (.inr ⟨noHex, _, inside, by decide⟩)
      · exact .inr (.inr ⟨noHex, _, inside, by decide⟩)
      · exact .inr (.inl ⟨hex, c, inside, mark⟩)
    · by_cases hex : base = 16
      · -- Before an exponent the suffix would be one more digit.
        subst hex
        have some : exponent ≠ [] := by
          intro nothing
          have outside := parts.notDigit nothing
          rcases float with rfl | rfl | rfl | rfl <;>
            exact absurd (outside _ (List.mem_singleton_self _)) (by decide)
        rcases marker some with ⟨c, inside, marks⟩
        rcases isExponentMarker_iff.mp marks with ⟨noHex, -⟩ | ⟨-, mark⟩
        · exact absurd rfl noHex
        · exact .inr (.inl ⟨rfl, c, inside, mark⟩)
      · refine .inr (.inr ⟨hex, ?_⟩)
        rcases float with rfl | rfl | rfl | rfl <;>
          exact ⟨_, within _ (.inr (.inr (List.mem_singleton_self _))), by decide⟩

/-- What was read for a number is a literal or not, and is reported or not. -/
theorem handleNumber_text {t t' : LogicalLexer} {u : Unit}
    (starts : StartsNumber (charsOf t.rest))
    (returns : Returns logicalMachine (handleNumber U) t u t') :
    ∃ text new token, charsOf t.rest = text ++ charsOf t'.rest ∧ t'.errors = t.errors ++ new ∧
      (∀ e ∈ new, e.kind = .invalidNumber) ∧ t'.tokens = t.tokens ++ [token] ∧
      (new = [] ↔ IntegerLiteral text ∨ FloatingPointLiteral text ∨ Overlooked text) ∧
      (Overlooked text → ¬ (IntegerLiteral text ∨ FloatingPointLiteral text)) ∧
      (token.kind = .floatLiteral ↔ LooksFloat text) ∧
      (IntegerLiteral text → ¬ LooksFloat text) ∧ (FloatingPointLiteral text → LooksFloat text) := by
  rcases handleNumber_reads returns with
    ⟨base, lead, whole, fraction, exponent, suffix, read, leads, shape, maximal,
      ⟨new, grown, kinds, reported⟩, token, tokens, kind⟩
  rw [read] at starts leads
  have parts := parts_of_read leads shape maximal
  refine ⟨_, new, token, read, grown, kinds, tokens, ?_⟩
  rw [integerLiteral_iff parts, floatingPointLiteral_iff parts, overlooked_iff parts,
    looksFloat_iff parts, kind]
  refine ⟨?_, ?_, ?_, ?_, ?_⟩
  · rw [← not_iff_not, ← ne_eq, reported, not_iff_not]
    constructor
    · exact classified starts leads shape maximal
    · rintro (integer | float | wrong)
      · exact integer.unreported.1
      · exact float.unreported.1
      · exact wrong.unreported
  · rintro wrong (integer | float)
    · exact wrong.not_literal.1 integer
    · exact wrong.not_literal.2 float
  · cases isFloat fraction exponent suffix <;> simp
  · intro integer
    rw [integer.unreported.2]
    simp
  · exact fun float => float.unreported.2

end LiteralParts

/-! ### Runs only add tokens and errors -/

/-- What `t` has emitted and reported is still there in `t'`. -/
def LogicalLexer.Extends (t t' : LogicalLexer) : Prop :=
  t.tokens <+: t'.tokens ∧ t.errors <+: t'.errors

theorem LogicalLexer.Extends.exec {first t t' : LogicalLexer} {β : Type} {o : LexOp β} {b : β}
    (extended : first.Extends t) (steps : logicalMachine.exec o t = .ok (b, t')) :
    first.Extends t' := by
  cases acts_of_exec steps with
  | emits token => exact ⟨extended.1.trans (List.prefix_append _ _), extended.2⟩
  | reports new => exact ⟨extended.1, extended.2.trans (List.prefix_append _ _)⟩
  | stays | reads | matched | begins | switches => exact extended

theorem LogicalLexer.Extends.returns {first t t' : LogicalLexer} {α : Type} {x : Lex α} {a : α}
    (extended : first.Extends t) (returns : Returns logicalMachine x t a t') : first.Extends t' :=
  returns.keeps (first.Extends ·) (fun _ _ _ _ extended => extended.exec) extended

/-- What a loop head has emitted and reported is there at the end of the run. -/
theorem LogicalHead.extends {U : UnicodeTables} {chars : List LogicalChar} {decoded : Decoded chars}
    {t final : LogicalLexer} (head : LogicalHead U chars decoded t)
    (returns : Returns logicalMachine (scanTokens U) (.new chars decoded) () final) :
    t.Extends final := by
  rcases scanTokens_ends returns with ⟨first, last, prologue, loop, -, -, epilogue, -⟩
  have passes : Returns logicalMachine (scanLoop U) t () last := by
    apply Heads.returns LogicalLexer.concrete_reads _ loop
    induction head with
    | first begins => exact .first (begins.unique prologue).2
    | next _ goes step ih => exact .next ih goes step
  have start : t.Extends t := ⟨List.prefix_rfl, List.prefix_rfl⟩
  exact (start.returns passes).returns epilogue

/-! ### The law -/

/-- Scanning the source from `l` to `l'`, the text is read as a number. -/
structure ReadsNumber (U : UnicodeTables) (source : Text) (l l' : Lexer) (text : Text) : Prop where
  head : LoopHead U source l
  starts : (∃ c, l.reader.peekN 0 = .ok c ∧ isAsciiDigit c = true) ∨
    l.reader.peekN 0 = .ok '.' ∧ ∃ c, l.reader.peekN 1 = .ok c ∧ isAsciiDigit c = true
  step : Returns machine (scanNextToken U) l () l'
  delivers : l.reader.Delivers l'.reader.current text

section Law

variable {U : UnicodeTables} {chars : List LogicalChar} {decoded : Decoded chars}

/-- A step at the start of a number is `handle_number`. -/
theorem handleNumber_of_step {t t' : LogicalLexer} (starts : StartsNumber (charsOf t.rest))
    (step : Returns logicalMachine (scanNextToken U) t () t') :
    Returns logicalMachine (handleNumber U) t.newToken () t' := by
  have numeric : ∀ {c : Char}, isAsciiDigit c = true → U.isNumeric c = true := by
    intro c digit
    have ascii : c.val < 128 := by
      simp only [isAsciiDigit, Bool.and_eq_true, decide_eq_true_eq, le_iff_toNat] at digit
      have nine : '9'.toNat = 57 := by decide
      rw [UInt32.lt_iff_toNat_lt]
      change c.toNat < 128
      omega
    rw [U.isNumeric_ascii c ascii, digit]
  rcases returns_op.mp step with ⟨_, t₁, fresh, later⟩
  cases fresh
  have first := returns_peekN.mp later
  have look : ∀ n, LogicalLexer.look t.newToken.rest n = (charsOf t.rest).getD n '\x00' :=
    fun _ => rfl
  rw [look] at first
  rcases starts with ⟨c, rest, ahead, digit⟩ | ⟨c, rest, ahead, digit⟩
  · rw [ahead, List.getD_cons_zero] at first
    have other : ∀ d ∈ ['.', '{', '}'], c ≠ d := by
      rintro d inside rfl
      have known : ∀ d ∈ ['.', '{', '}'], isAsciiDigit d = false := forall_mem_of_all (by decide)
      rw [known c inside] at digit
      cases digit
    rwa [if_neg (other '.' (by simp)), if_neg (other '{' (by simp)), if_neg (other '}' (by simp)),
      if_pos (numeric digit)] at first
  · rw [ahead, List.getD_cons_zero, if_pos rfl] at first
    have second := returns_peekN.mp first
    rw [look, ahead, List.getD_cons_succ, List.getD_cons_zero, if_pos (numeric digit)] at second
    exact second

theorem startsNumber_of_peekN {t : LogicalLexer}
    (starts : (∃ c, t.concrete.reader.peekN 0 = .ok c ∧ isAsciiDigit c = true) ∨
      t.concrete.reader.peekN 0 = .ok '.' ∧
        ∃ c, t.concrete.reader.peekN 1 = .ok c ∧ isAsciiDigit c = true) :
    StartsNumber (charsOf t.rest) := by
  have look : ∀ n, LogicalLexer.look t.rest n = (charsOf t.rest).getD n '\x00' := fun _ => rfl
  have real : isAsciiDigit '\x00' = false := by decide
  simp only [t.concrete_peekN, look, Except.ok.injEq] at starts
  rcases starts with ⟨c, first, digit⟩ | ⟨dot, c, second, digit⟩
  · rcases ahead : charsOf t.rest with _ | ⟨d, rest⟩
    · rw [ahead, List.getD_nil] at first
      rw [← first, real] at digit
      cases digit
    · rw [ahead, List.getD_cons_zero] at first
      exact .inl ⟨d, rest, rfl, first ▸ digit⟩
  · rcases ahead : charsOf t.rest with _ | ⟨d, _ | ⟨e, rest⟩⟩
    · rw [ahead, List.getD_nil] at dot
      cases dot
    · rw [ahead, List.getD_cons_succ, List.getD_nil] at second
      rw [← second, real] at digit
      cases digit
    · rw [ahead, List.getD_cons_zero] at dot
      rw [ahead, List.getD_cons_succ, List.getD_cons_zero] at second
      exact .inr ⟨e, rest, by rw [dot], second ▸ digit⟩

end Law

/-- What `lex` returns for a number. -/
theorem number_of_lex {U : UnicodeTables} {fuel : Nat} {source text : Text} {tokens : List Token}
    {errors : List LexicalError} {l l' : Lexer} (lexed : lex U fuel source = some (tokens, errors))
    (reads : ReadsNumber U source l l' text) :
    ∃ new token, l'.errors = l.errors ++ new ∧ l'.tokens = l.tokens ++ [token] ∧ token ∈ tokens ∧
      (∀ e ∈ new, e ∈ errors ∧ e.kind = .invalidNumber) ∧
      (new = [] ↔ IntegerLiteral text ∨ FloatingPointLiteral text ∨ Overlooked text) ∧
      (Overlooked text → ¬ (IntegerLiteral text ∨ FloatingPointLiteral text)) ∧
      (token.kind = .floatLiteral ↔ LooksFloat text) ∧
      (IntegerLiteral text → ¬ LooksFloat text) ∧ (FloatingPointLiteral text → LooksFloat text) := by
  rcases lex_eq_some.mp lexed with ⟨final, runs, rfl, rfl⟩
  have returns : Returns machine (scanTokens U) (.new source) () final := ⟨fuel, runs⟩
  rcases decodes_of_returns returns with ⟨chars, decodes⟩
  rcases decode_eq_some.mp decodes with ⟨decoded, rfl⟩
  rw [← LogicalLexer.concrete_new decoded] at returns
  rcases machine_image.returns.mp returns with ⟨last, returns', rfl⟩
  rcases (loopHead_image decoded).mp reads.head with ⟨t, head, rfl⟩
  rcases machine_image.returns.mp reads.step with ⟨t', step, rfl⟩
  have starts := startsNumber_of_peekN reads.starts
  have more : t.rest ≠ [] := by
    intro nothing
    rw [nothing] at starts
    rcases starts with ⟨_, _, absurd, -⟩ | ⟨_, _, absurd, -⟩ <;> cases absurd
  have readStarts : StartsNumber (charsOf t.newToken.rest) := starts
  rcases handleNumber_text readStarts (handleNumber_of_step starts step) with
    ⟨text', new, token, read, grown, kinds, tokens, known⟩
  obtain ⟨consumed, -, rest, done, -⟩ := (scanNextToken_consumes more).of_returns step
  have same : text = text' := by
    rw [reads.delivers.unique (delivers_step head step rest done)]
    have ahead : charsOf t.newToken.rest = charsOf consumed ++ charsOf t'.rest := by
      rw [show t.newToken.rest = consumed ++ t'.rest from rest]
      exact List.map_append
    exact List.append_cancel_right (ahead.symm.trans read)
  subst same
  have goes : (!t.concrete.reader.isAtEnd) = true := by
    rw [not_atEnd.mpr more]
    rfl
  have kept := LogicalHead.extends (head.next goes step) returns'
  refine ⟨new, token, grown, tokens, ?_, ?_, known⟩
  · exact kept.1.subset (tokens ▸ List.mem_append_right _ (List.mem_singleton_self token))
  · intro e inside
    exact ⟨kept.2.subset (grown ▸ List.mem_append_right _ inside), kinds e inside⟩

/-- A number is reported exactly when it is no literal, unless it is overlooked; and it becomes a
float exactly when it is one, unless it only looks like one. -/
theorem number_reported_iff {U : UnicodeTables} {fuel : Nat} {source text : Text}
    {tokens : List Token} {errors : List LexicalError} {l l' : Lexer}
    (lexed : lex U fuel source = some (tokens, errors)) (reads : ReadsNumber U source l l' text) :
    ∃ new token, l'.errors = l.errors ++ new ∧ l'.tokens = l.tokens ++ [token] ∧
      token ∈ tokens ∧ (∀ e ∈ new, e ∈ errors) ∧
      (((∃ e ∈ new, e.kind = .invalidNumber) ↔
          ¬ (IntegerLiteral text ∨ FloatingPointLiteral text)) ↔ ¬ Overlooked text) ∧
      ((token.kind = .floatLiteral ↔ FloatingPointLiteral text) ↔
        (LooksFloat text → FloatingPointLiteral text)) ∧
      (IntegerLiteral text ∨ FloatingPointLiteral text →
        (token.kind = .floatLiteral ↔ FloatingPointLiteral text)) := by
  rcases number_of_lex lexed reads with
    ⟨new, token, grown, emitted, inside, reported, silent, wrong, kind, integer, float⟩
  have some : (∃ e ∈ new, e.kind = .invalidNumber) ↔ new ≠ [] := by
    constructor
    · rintro ⟨e, here, -⟩
      exact List.ne_nil_of_mem here
    · intro nonempty
      rcases List.exists_mem_of_ne_nil new nonempty with ⟨e, here⟩
      exact ⟨e, here, (reported e here).2⟩
  refine ⟨new, token, grown, emitted, inside, fun e here => (reported e here).1, ?_, ?_, ?_⟩
  · rw [some, ne_eq, silent]
    constructor
    · intro right overlooked
      exact right.mpr (wrong overlooked) (.inr (.inr overlooked))
    · intro noticed
      rw [not_iff_not, ← or_assoc, or_iff_left noticed]
  · rw [kind]
    exact ⟨fun right => right.mp, fun right => ⟨right, float⟩⟩
  · rw [kind]
    rintro (isInteger | isFloat)
    · exact ⟨fun looks => absurd looks (integer isInteger), float⟩
    · exact ⟨fun _ => isFloat, float⟩

/-- The lexer after a source that is one integer to it. -/
def integerAlone (source : Text) : Lexer :=
  { reader := { source := source, start := 0, current := byteLen source, errors := [] },
    tokens := [⟨.integerLiteral, source, 0⟩], errors := [],
    templates := { mode := .normal, templateStack := [] } }

theorem reads_one : ReadsNumber latin1 ['1'] (.new ['1']) (integerAlone ['1']) ['1'] where
  head := .first ⟨3, by decide⟩
  starts := .inl ⟨'1', by decide, by decide⟩
  step := ⟨9, by decide⟩
  delivers := .advance (by decide) rfl (.done rfl)

/-- An integer literal is not reported. -/
theorem one_not_reported :
    ∃ new token, (integerAlone ['1']).errors = (Lexer.new ['1']).errors ++ new ∧
      (integerAlone ['1']).tokens = (Lexer.new ['1']).tokens ++ [token] ∧
      token ∈ [⟨.integerLiteral, ['1'], 0⟩, ⟨.eof, [], 1⟩] ∧ (∀ e ∈ new, e ∈ []) ∧
      (((∃ e ∈ new, e.kind = .invalidNumber) ↔
          ¬ (IntegerLiteral ['1'] ∨ FloatingPointLiteral ['1'])) ↔ ¬ Overlooked ['1']) ∧
      ((token.kind = .floatLiteral ↔ FloatingPointLiteral ['1']) ↔
        (LooksFloat ['1'] → FloatingPointLiteral ['1'])) ∧
      (IntegerLiteral ['1'] ∨ FloatingPointLiteral ['1'] →
        (token.kind = .floatLiteral ↔ FloatingPointLiteral ['1'])) := by
  have lexed : lex latin1 9 ['1'] = some ([⟨.integerLiteral, ['1'], 0⟩, ⟨.eof, [], 1⟩], []) := by
    decide
  exact number_reported_iff lexed reads_one

/-- A prefix without digits is no literal, and nothing is reported for it. -/
theorem hexPrefix_overlooked :
    (∃ tokens, lex latin1 9 ['0', 'x'] = some (tokens, [])) ∧
      ReadsNumber latin1 ['0', 'x'] (.new ['0', 'x']) (integerAlone ['0', 'x']) ['0', 'x'] ∧
      (integerAlone ['0', 'x']).errors = [] ∧
      ¬ (IntegerLiteral ['0', 'x'] ∨ FloatingPointLiteral ['0', 'x']) := by
  have lexed : lex latin1 9 ['0', 'x'] =
      some ([⟨.integerLiteral, ['0', 'x'], 0⟩, ⟨.eof, [], 2⟩], []) := by decide
  have reads : ReadsNumber latin1 ['0', 'x'] (.new ['0', 'x']) (integerAlone ['0', 'x']) ['0', 'x'] :=
    { head := .first ⟨3, by decide⟩
      starts := .inl ⟨'0', by decide, by decide⟩
      step := ⟨9, by decide⟩
      delivers := .advance (by decide) rfl (.advance (by decide) rfl (.done rfl)) }
  have overlooked : Overlooked ['0', 'x'] := by
    have noDigits : ¬ Significand isHexDigit [] [] := by
      rintro ⟨-, ⟨nonempty, -⟩ | ⟨-, _, absurd, -⟩⟩
      · exact nonempty rfl
      · cases absurd
    exact @Overlooked.hex 'x' [] [] [] [] (.inl rfl) ⟨by simp, by simp⟩ (.inl rfl) (.inl rfl)
      (.inl (.inl rfl)) (fun _ => .inl rfl) (.inl noDigits)
  rcases number_of_lex lexed reads with ⟨_, _, -, -, -, -, -, wrong, -⟩
  exact ⟨⟨_, lexed⟩, reads, rfl, wrong overlooked⟩

end CaffeineLs.JavaSyntax
