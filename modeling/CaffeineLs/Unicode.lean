/-
Module: CaffeineLs.Unicode
Purpose: The character tables the two lexers consult: general categories come from a
  third-party crate, `is_numeric` from the standard library. They are parameters of the model.
Trusted boundary: the documented facts on ASCII carried by `UnicodeTables`
Main exports: GeneralCategory, UnicodeTables, latin1
-/
import Mathlib.Tactic.Common

namespace CaffeineLs

/-- The Unicode general categories. -/
inductive GeneralCategory where
  | uppercaseLetter | lowercaseLetter | titlecaseLetter | modifierLetter | otherLetter
  | nonspacingMark | spacingMark | enclosingMark
  | decimalNumber | letterNumber | otherNumber
  | connectorPunctuation | dashPunctuation | openPunctuation | closePunctuation
  | initialPunctuation | finalPunctuation | otherPunctuation
  | mathSymbol | currencySymbol | modifierSymbol | otherSymbol
  | spaceSeparator | lineSeparator | paragraphSeparator
  | control | format | surrogate | privateUse | unassigned
deriving Repr, Inhabited, DecidableEq

/-- `char::is_ascii_digit`. -/
def isAsciiDigit (c : Char) : Bool := '0' ≤ c && c ≤ '9'

/-- `char::is_ascii_hexdigit`. -/
def isAsciiHexdigit (c : Char) : Bool :=
  isAsciiDigit c || ('a' ≤ c && c ≤ 'f') || ('A' ≤ c && c ≤ 'F')

/-- General categories of the ASCII characters. -/
def asciiCategory (c : Char) : GeneralCategory :=
  if c.toNat < 0x20 || c.toNat = 0x7F then .control
  else if 'A' ≤ c && c ≤ 'Z' then .uppercaseLetter
  else if 'a' ≤ c && c ≤ 'z' then .lowercaseLetter
  else if isAsciiDigit c then .decimalNumber
  else if c = ' ' then .spaceSeparator
  else if c = '_' then .connectorPunctuation
  else if c = '-' then .dashPunctuation
  else if ['(', '[', '{'].contains c then .openPunctuation
  else if [')', ']', '}'].contains c then .closePunctuation
  else if ['+', '<', '=', '>', '|', '~'].contains c then .mathSymbol
  else if c = '$' then .currencySymbol
  else if ['^', '`'].contains c then .modifierSymbol
  else .otherPunctuation

/-- The tables behind `get_general_category` and `char::is_numeric`, with their values on
ASCII. -/
structure UnicodeTables where
  generalCategory : Char → GeneralCategory
  isNumeric : Char → Bool
  generalCategory_ascii : ∀ c : Char, c.val < 128 → generalCategory c = asciiCategory c
  isNumeric_ascii : ∀ c : Char, c.val < 128 → isNumeric c = isAsciiDigit c

theorem UnicodeTables.generalCategory_nul (U : UnicodeTables) :
    U.generalCategory '\x00' = .control :=
  U.generalCategory_ascii '\x00' (by decide)

/-- General categories of the first 256 code points. -/
def latin1Category (c : Char) : GeneralCategory :=
  if c.val < 128 then asciiCategory c
  else if c.toNat < 0xA0 then .control
  else if 0xC0 ≤ c.toNat && c.toNat ≤ 0xDE && c.toNat ≠ 0xD7 then .uppercaseLetter
  else if c = 'µ' || (0xDF ≤ c.toNat && c.toNat ≤ 0xFF && c.toNat ≠ 0xF7) then .lowercaseLetter
  else if c = 'ª' || c = 'º' then .otherLetter
  else if ['²', '³', '¹', '¼', '½', '¾'].contains c then .otherNumber
  else if c = '«' then .initialPunctuation
  else if c = '»' then .finalPunctuation
  else if ['¬', '±', '×', '÷'].contains c then .mathSymbol
  else if ['¢', '£', '¤', '¥'].contains c then .currencySymbol
  else if ['¨', '¯', '´', '¸'].contains c then .modifierSymbol
  else if ['¦', '©', '®', '°'].contains c then .otherSymbol
  else if c.toNat = 0xA0 then .spaceSeparator
  else if c.toNat = 0xAD then .format
  else if c.toNat < 0x100 then .otherPunctuation
  else .unassigned

/-- The tables cut down to the first 256 code points, where they are complete. -/
def latin1 : UnicodeTables where
  generalCategory := latin1Category
  isNumeric c := isAsciiDigit c || ['²', '³', '¹', '¼', '½', '¾'].contains c
  isNumeric_ascii c ascii := by
    have outside : ['²', '³', '¹', '¼', '½', '¾'].contains c = false := by
      by_contra inside
      simp only [Bool.not_eq_false, List.contains_iff_mem, List.mem_cons, List.not_mem_nil,
        or_false] at inside
      rcases inside with rfl | rfl | rfl | rfl | rfl | rfl <;> exact absurd ascii (by decide)
    rw [outside, Bool.or_false]
  generalCategory_ascii c ascii := by simp [latin1Category, ascii]

end CaffeineLs
