/-
Module: CaffeineLs.Proofs.ModifiedUtf8
Purpose: Modified UTF-8 as the class reader decodes it: the inverse of the encoding on strings, and
  on code units as far as their surrogates are paired.
Trusted boundary: none
Main exports: encodeUnits, utf16, decodeModifiedUtf8_inverts
-/
import CaffeineLs.RustAsm.CodeReader
import CaffeineLs.RustAsm.ClassBytes

namespace CaffeineLs.RustAsm

/-! ### Code units -/

/-- A UTF-16 code unit in modified UTF-8: a zero takes two bytes, a surrogate three. -/
def encodeUnit (unit : UInt16) : List UInt8 :=
  let code := unit.toNat
  if code ≠ 0 ∧ code ≤ 0x7F then [UInt8.ofNat code]
  else if code ≤ 0x7FF then
    [UInt8.ofNat (0xC0 + code / 64 % 32), UInt8.ofNat (0x80 + code % 64)]
  else
    [UInt8.ofNat (0xE0 + code / 4096 % 16), UInt8.ofNat (0x80 + code / 64 % 64),
      UInt8.ofNat (0x80 + code % 64)]

def encodeUnits (units : List UInt16) : List UInt8 := units.flatMap encodeUnit

theorem toNat_ofNat_byte {n : Nat} (small : n < 256) : (UInt8.ofNat n).toNat = n := by
  rw [UInt8.toNat_ofNat']
  exact Nat.mod_eq_of_lt small

theorem toNat_ofNat_unit {n : Nat} (small : n < 65536) : (UInt16.ofNat n).toNat = n := by
  rw [UInt16.toNat_ofNat']
  exact Nat.mod_eq_of_lt small

theorem isContinuation_iff {byte : UInt8} :
    isContinuation byte = true ↔ 0x80 ≤ byte.toNat ∧ byte.toNat < 0xC0 := by
  simp [isContinuation, UInt8.le_iff_toNat_le, UInt8.lt_iff_toNat_lt]

/-! ### The bytes of one unit -/

theorem decodeUnits_one {byte : UInt8} (ascii : byte.toNat < 0x80) (rest : List UInt8) :
    decodeUnits (byte :: rest) = (decodeUnits rest).map (byte.toNat :: ·) := by
  have here : byte < 0x80 := UInt8.lt_iff_toNat_lt.mpr ascii
  rw [decodeUnits.eq_def]
  simp only [if_pos here]
  cases decodeUnits rest <;> rfl

theorem decodeUnits_two {byte byte2 : UInt8} (leads : 0xC0 ≤ byte.toNat ∧ byte.toNat < 0xE0)
    (continues : isContinuation byte2 = true) (rest : List UInt8) :
    decodeUnits (byte :: byte2 :: rest) =
      (decodeUnits rest).map ((byte.toNat % 32 * 64 + byte2.toNat % 64) :: ·) := by
  have notAscii : ¬ byte < 0x80 := by
    rw [UInt8.lt_iff_toNat_lt, Nat.not_lt]
    exact Nat.le_trans (by decide) leads.1
  have here : 0xC0 ≤ byte ∧ byte < 0xE0 :=
    ⟨UInt8.le_iff_toNat_le.mpr leads.1, UInt8.lt_iff_toNat_lt.mpr leads.2⟩
  rw [decodeUnits, if_neg notAscii, if_pos here]
  simp only [continues]
  cases decodeUnits rest <;> rfl

theorem decodeUnits_three {byte byte2 byte3 : UInt8}
    (leads : 0xE0 ≤ byte.toNat ∧ byte.toNat < 0xF0) (continues : isContinuation byte2 = true)
    (continues' : isContinuation byte3 = true) (rest : List UInt8) :
    decodeUnits (byte :: byte2 :: byte3 :: rest) =
      (decodeUnits rest).map
        ((byte.toNat % 16 * 4096 + byte2.toNat % 64 * 64 + byte3.toNat % 64) :: ·) := by
  have notAscii : ¬ byte < 0x80 := by
    rw [UInt8.lt_iff_toNat_lt, Nat.not_lt]
    exact Nat.le_trans (by decide) leads.1
  have notTwo : ¬ (0xC0 ≤ byte ∧ byte < 0xE0) := by
    rw [not_and, UInt8.lt_iff_toNat_lt, Nat.not_lt]
    exact fun _ => leads.1
  have here : 0xE0 ≤ byte ∧ byte < 0xF0 :=
    ⟨UInt8.le_iff_toNat_le.mpr leads.1, UInt8.lt_iff_toNat_lt.mpr leads.2⟩
  rw [decodeUnits, if_neg notAscii, if_neg notTwo, if_pos here]
  simp only [continues, continues']
  cases decodeUnits rest <;> rfl

theorem isContinuation_low (n : Nat) : isContinuation (UInt8.ofNat (0x80 + n % 64)) = true := by
  rw [isContinuation_iff, toNat_ofNat_byte (by omega)]
  omega

/-- The decoder reads an encoded unit back. -/
theorem decodeUnits_encodeUnit (unit : UInt16) (rest : List UInt8) :
    decodeUnits (encodeUnit unit ++ rest) = (decodeUnits rest).map (unit.toNat :: ·) := by
  have bounded : unit.toNat < 65536 := unit.toNat_lt
  unfold encodeUnit
  generalize unit.toNat = code at bounded
  by_cases ascii : code ≠ 0 ∧ code ≤ 0x7F
  · have byte := toNat_ofNat_byte (n := code) (by omega)
    simp only [if_pos ascii, List.singleton_append]
    rw [decodeUnits_one (by omega), byte]
  · simp only [if_neg ascii]
    have low := toNat_ofNat_byte (n := 0x80 + code % 64) (by omega)
    by_cases short : code ≤ 0x7FF
    · have lead := toNat_ofNat_byte (n := 0xC0 + code / 64 % 32) (by omega)
      have value : (0xC0 + code / 64 % 32) % 32 * 64 + (0x80 + code % 64) % 64 = code := by omega
      simp only [if_pos short, List.cons_append, List.nil_append]
      rw [decodeUnits_two (by omega) (isContinuation_low code), lead, low, value]
    · have lead := toNat_ofNat_byte (n := 0xE0 + code / 4096 % 16) (by omega)
      have middle := toNat_ofNat_byte (n := 0x80 + code / 64 % 64) (by omega)
      have value : (0xE0 + code / 4096 % 16) % 16 * 4096 + (0x80 + code / 64 % 64) % 64 * 64 +
          (0x80 + code % 64) % 64 = code := by omega
      simp only [if_neg short, List.cons_append, List.nil_append]
      rw [decodeUnits_three (by omega) (isContinuation_low (code / 64)) (isContinuation_low code),
        lead, middle, low, value]

theorem decodeUnits_encodeUnits (units : List UInt16) :
    decodeUnits (encodeUnits units) = .ok (units.map UInt16.toNat) := by
  induction units with
  | nil => rfl
  | cons unit units ih =>
      rw [encodeUnits, List.flatMap_cons, decodeUnits_encodeUnit]
      rw [encodeUnits] at ih
      rw [ih]
      rfl

/-! ### Strings as code units -/

def isHighSurrogate (unit : UInt16) : Bool := 0xD800 ≤ unit && unit < 0xDC00

def isLowSurrogate (unit : UInt16) : Bool := 0xDC00 ≤ unit && unit < 0xE000

/-- A high surrogate stands before a low one, and a low one behind a high one. -/
inductive WellPaired : List UInt16 → Prop where
  | nil : WellPaired []
  | unit {u : UInt16} {units : List UInt16} (noHigh : isHighSurrogate u = false)
      (noLow : isLowSurrogate u = false) (rest : WellPaired units) : WellPaired (u :: units)
  | pair {high low : UInt16} {units : List UInt16} (isHigh : isHighSurrogate high = true)
      (isLow : isLowSurrogate low = true) (rest : WellPaired units) :
      WellPaired (high :: low :: units)

/-- A char in UTF-16. -/
def utf16Char (c : Char) : List UInt16 :=
  if c.toNat ≤ 0xFFFF then [UInt16.ofNat c.toNat]
  else
    [UInt16.ofNat (0xD800 + (c.toNat - 0x10000) / 1024),
      UInt16.ofNat (0xDC00 + (c.toNat - 0x10000) % 1024)]

def utf16 (s : String) : List UInt16 := s.toList.flatMap utf16Char

theorem char_valid (c : Char) : c.toNat < 0xD800 ∨ 0xDFFF < c.toNat ∧ c.toNat < 0x110000 := c.valid

theorem encodeUnit_ofNat {code : Nat} (small : code < 65536) (long : 0x7FF < code) :
    encodeUnit (UInt16.ofNat code) =
      [UInt8.ofNat (0xE0 + code / 4096 % 16), UInt8.ofNat (0x80 + code / 64 % 64),
        UInt8.ofNat (0x80 + code % 64)] := by
  have value : (UInt16.ofNat code).toNat = code := toNat_ofNat_unit small
  unfold encodeUnit
  simp only [value]
  rw [if_neg (by omega), if_neg (by omega)]

/-- The writer encodes a char as its code units. -/
theorem encodeChar_eq (c : Char) : encodeChar c = encodeUnits (utf16Char c) := by
  have valid := char_valid c
  unfold encodeChar utf16Char
  generalize c.toNat = code at valid
  simp only
  by_cases basic : code ≤ 0xFFFF
  · have value : (UInt16.ofNat code).toNat = code := toNat_ofNat_unit (by omega)
    simp only [if_pos basic, encodeUnits, List.flatMap_singleton]
    unfold encodeUnit
    simp only [value]
    by_cases zero : code = 0
    · subst zero
      rfl
    · by_cases ascii : code ≤ 0x7F
      · rw [if_neg zero, if_pos ascii, if_pos ⟨zero, ascii⟩]
      · have notAscii : ¬ (code ≠ 0 ∧ code ≤ 0x7F) := fun both => ascii both.2
        rw [if_neg zero, if_neg ascii, if_neg notAscii]
  · have high : (code - 0x10000) / 1024 % 1024 = (code - 0x10000) / 1024 :=
      Nat.mod_eq_of_lt (by omega)
    rw [if_neg (by omega), if_neg (by omega), if_neg (by omega), if_neg basic, if_neg basic, high,
      encodeUnits, List.flatMap_cons, List.flatMap_singleton, encodeUnit_ofNat (by omega) (by omega),
      encodeUnit_ofNat (by omega) (by omega)]

theorem encodeModifiedUtf8_eq (s : String) : encodeModifiedUtf8 s = encodeUnits (utf16 s) := by
  rw [encodeModifiedUtf8, encodeUnits, utf16, List.flatMap_assoc]
  exact congrArg (fun f => s.toList.flatMap f) (funext encodeChar_eq)

/-! ### Code units as strings -/

theorem surrogates_iff (u : UInt16) :
    (isHighSurrogate u = true ↔ 0xD800 ≤ u.toNat ∧ u.toNat < 0xDC00) ∧
      (isLowSurrogate u = true ↔ 0xDC00 ≤ u.toNat ∧ u.toNat < 0xE000) := by
  simp [isHighSurrogate, isLowSurrogate, UInt16.le_iff_toNat_le, UInt16.lt_iff_toNat_lt]

/-- The code units of a string are read as that string. -/
theorem fromUtf16_utf16Char (c : Char) (units : List Nat) :
    fromUtf16 ((utf16Char c).map UInt16.toNat ++ units) = (fromUtf16 units).map (c :: ·) := by
  have valid := char_valid c
  have back : Char.ofNat c.toNat = c := Char.ofNat_toNat c
  unfold utf16Char
  by_cases basic : c.toNat ≤ 0xFFFF
  · have value : (UInt16.ofNat c.toNat).toNat = c.toNat := toNat_ofNat_unit (by omega)
    rw [if_pos basic, List.map_singleton, value, List.singleton_append, fromUtf16.eq_def]
    simp only
    rw [if_pos (by omega), back]
  · have high : (UInt16.ofNat (0xD800 + (c.toNat - 0x10000) / 1024)).toNat =
        0xD800 + (c.toNat - 0x10000) / 1024 := toNat_ofNat_unit (by omega)
    have low : (UInt16.ofNat (0xDC00 + (c.toNat - 0x10000) % 1024)).toNat =
        0xDC00 + (c.toNat - 0x10000) % 1024 := toNat_ofNat_unit (by omega)
    have value : 0x10000 + (0xD800 + (c.toNat - 0x10000) / 1024 - 0xD800) * 1024 +
        (0xDC00 + (c.toNat - 0x10000) % 1024 - 0xDC00) = c.toNat := by omega
    rw [if_neg basic, List.map_cons, List.map_singleton, high, low, List.cons_append,
      List.singleton_append, fromUtf16.eq_def]
    simp only
    rw [if_neg (by omega), if_neg (by omega), if_pos (by omega), value, back]

theorem fromUtf16_utf16 (chars : List Char) :
    fromUtf16 ((chars.flatMap utf16Char).map UInt16.toNat) = some chars := by
  induction chars with
  | nil => rfl
  | cons c chars ih =>
      rw [List.flatMap_cons, List.map_append, fromUtf16_utf16Char, ih, Option.map_some]

/-- Paired code units are those of a string. -/
theorem WellPaired.exists_chars {units : List UInt16} (paired : WellPaired units) :
    ∃ chars : List Char, chars.flatMap utf16Char = units := by
  induction paired with
  | nil => exact ⟨[], rfl⟩
  | @unit u units noHigh noLow _ ih =>
      obtain ⟨chars, rfl⟩ := ih
      have bounded : u.toNat < 65536 := u.toNat_lt
      rw [← Bool.not_eq_true, (surrogates_iff u).1] at noHigh
      rw [← Bool.not_eq_true, (surrogates_iff u).2] at noLow
      have valid : u.toNat.isValidChar := by
        unfold Nat.isValidChar
        omega
      refine ⟨Char.ofNat u.toNat :: chars, ?_⟩
      have value : (Char.ofNat u.toNat).toNat = u.toNat := by
        rw [Char.ofNat, dif_pos valid]
        rfl
      rw [List.flatMap_cons, utf16Char, value, if_pos (by omega), UInt16.ofNat_toNat]
      rfl
  | @pair high low units isHigh isLow _ ih =>
      obtain ⟨chars, rfl⟩ := ih
      rw [(surrogates_iff high).1] at isHigh
      rw [(surrogates_iff low).2] at isLow
      let code := 0x10000 + (high.toNat - 0xD800) * 1024 + (low.toNat - 0xDC00)
      have valid : code.isValidChar := by
        unfold Nat.isValidChar
        omega
      refine ⟨Char.ofNat code :: chars, ?_⟩
      have value : (Char.ofNat code).toNat = code := by
        rw [Char.ofNat, dif_pos valid]
        rfl
      have first : 0xD800 + (code - 0x10000) / 1024 = high.toNat := by omega
      have second : 0xDC00 + (code - 0x10000) % 1024 = low.toNat := by omega
      rw [List.flatMap_cons, utf16Char, value, if_neg (by omega), first, second,
        UInt16.ofNat_toNat, UInt16.ofNat_toNat]
      rfl

/-- What is read as a string is paired. -/
theorem wellPaired_of_fromUtf16 : ∀ units : List UInt16,
    (fromUtf16 (units.map UInt16.toNat)).isSome → WellPaired units
  | [], _ => .nil
  | u :: units, reads => by
      have high := (surrogates_iff u).1
      have low := (surrogates_iff u).2
      rw [List.map_cons, fromUtf16.eq_def] at reads
      simp only at reads
      by_cases plain : u.toNat < 0xD800 ∨ 0xE000 ≤ u.toNat
      · rw [if_pos plain, Option.isSome_map] at reads
        have noHigh : isHighSurrogate u = false := by
          rw [← Bool.not_eq_true, high]
          omega
        have noLow : isLowSurrogate u = false := by
          rw [← Bool.not_eq_true, low]
          omega
        exact .unit noHigh noLow (wellPaired_of_fromUtf16 units reads)
      · rw [if_neg plain] at reads
        by_cases second : 0xDC00 ≤ u.toNat
        · rw [if_pos second] at reads
          cases reads
        · rw [if_neg second] at reads
          cases units with
          | nil => cases reads
          | cons v units =>
              simp only [List.map_cons] at reads
              by_cases follows : 0xDC00 ≤ v.toNat ∧ v.toNat < 0xE000
              · rw [if_pos follows, Option.isSome_map] at reads
                exact .pair (high.mpr (by omega)) ((surrogates_iff v).2.mpr follows)
                  (wellPaired_of_fromUtf16 units reads)
              · rw [if_neg follows] at reads
                cases reads

/-! ### Decoding -/

/-- What the decoder makes of encoded code units. -/
theorem decodeModifiedUtf8_encodeUnits (units : List UInt16) :
    decodeModifiedUtf8 (encodeUnits units) =
      match fromUtf16 (units.map UInt16.toNat) with
      | some chars => .ok (String.ofList chars)
      | none => .error (.utf8Error "invalid utf16") := by
  rw [decodeModifiedUtf8, decodeUnits_encodeUnits]
  rfl

theorem decodeModifiedUtf8_paired {units : List UInt16} (paired : WellPaired units) :
    ∃ s, utf16 s = units ∧ decodeModifiedUtf8 (encodeUnits units) = .ok s := by
  obtain ⟨chars, rfl⟩ := paired.exists_chars
  refine ⟨String.ofList chars, ?_, ?_⟩
  · rw [utf16, String.toList_ofList]
  · rw [decodeModifiedUtf8_encodeUnits, fromUtf16_utf16]

theorem decodeModifiedUtf8_unpaired {units : List UInt16} (unpaired : ¬ WellPaired units) :
    decodeModifiedUtf8 (encodeUnits units) = .error (.utf8Error "invalid utf16") := by
  have none_ : fromUtf16 (units.map UInt16.toNat) = none := by
    rw [← Option.not_isSome_iff_eq_none]
    exact fun reads => unpaired (wellPaired_of_fromUtf16 units reads)
  rw [decodeModifiedUtf8_encodeUnits, none_]

/-- Decoding inverts the encoding of strings. On the encoding of code units it gives the string they
are the units of, and an error exactly where a surrogate among them stands alone. -/
theorem decodeModifiedUtf8_inverts :
    (∀ s, decodeModifiedUtf8 (encodeModifiedUtf8 s) = .ok s) ∧
      ∀ units, (WellPaired units →
          ∃ s, utf16 s = units ∧ decodeModifiedUtf8 (encodeUnits units) = .ok s) ∧
        (¬ WellPaired units →
          decodeModifiedUtf8 (encodeUnits units) = .error (.utf8Error "invalid utf16")) := by
  constructor
  · intro s
    rw [encodeModifiedUtf8_eq, decodeModifiedUtf8_encodeUnits, utf16, fromUtf16_utf16]
    simp only [String.ofList_toList]
  · exact fun units => ⟨decodeModifiedUtf8_paired, decodeModifiedUtf8_unpaired⟩

/-- A constant of one unpaired surrogate is not decoded. -/
theorem unpaired_surrogate_rejected :
    ¬ ∀ units, ∃ s, decodeModifiedUtf8 (encodeUnits units) = .ok s := by
  intro always
  obtain ⟨s, decoded⟩ := always [0xD800]
  have rejected : decodeModifiedUtf8 (encodeUnits [0xD800]) =
      .error (.utf8Error "invalid utf16") := rfl
  rw [rejected] at decoded
  cases decoded

end CaffeineLs.RustAsm
