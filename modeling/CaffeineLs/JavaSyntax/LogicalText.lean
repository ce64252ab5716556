/-
Module: CaffeineLs.JavaSyntax.LogicalText
Purpose: The Java source as the characters its reader sees, each with its spelling: what the
  classification of a character depends on, and the decoding of a source.
Trusted boundary: none
Main exports: LogicalChar, spelled, Decoded
-/
import CaffeineLs.JavaSyntax.Reader
import Mathlib.Data.List.TakeWhile

namespace CaffeineLs.JavaSyntax

open SourceText

/-! ### Logical characters -/

/-- A character of the source with the text that spells it. -/
inductive LogicalChar where
  | plain (c : Char)
  /-- An escape, or a pair of them: a backslash and `tail`. -/
  | escape (c : Char) (tail : Text)
  /-- The backslash of an ill-formed escape of `len` bytes. -/
  | illFormed (len : Nat)
deriving DecidableEq

namespace LogicalChar

def char : LogicalChar → Char
  | plain c => c
  | escape c _ => c
  | illFormed _ => '\\'

def spelling : LogicalChar → Text
  | plain c => [c]
  | escape _ tail => '\\' :: tail
  | illFormed _ => ['\\']

/-- What the reader's scan finds at this character. -/
def scan : LogicalChar → ScanResult
  | plain c => .char c c.utf8Size
  | escape c tail => .char c (byteLen ('\\' :: tail))
  | illFormed len => .invalidEscape len

theorem spelling_ne_nil (lc : LogicalChar) : lc.spelling ≠ [] := by
  cases lc <;> simp [spelling]

@[simp] theorem scan_logicalChar (lc : LogicalChar) : lc.scan.logicalChar = lc.char := by
  cases lc <;> rfl

@[simp] theorem scan_logicalLen (lc : LogicalChar) :
    lc.scan.logicalLen = byteLen lc.spelling := by
  cases lc with
  | plain c => simp [scan, ScanResult.logicalLen, spelling]
  | escape c tail => rfl
  | illFormed len => rfl

end LogicalChar

/-- The text that spells the characters. -/
def spelled (chars : List LogicalChar) : Text := chars.flatMap LogicalChar.spelling

@[simp] theorem spelled_nil : spelled [] = [] := rfl

@[simp] theorem spelled_cons (lc : LogicalChar) (chars : List LogicalChar) :
    spelled (lc :: chars) = lc.spelling ++ spelled chars := rfl

@[simp] theorem spelled_append (xs ys : List LogicalChar) :
    spelled (xs ++ ys) = spelled xs ++ spelled ys := by
  simp [spelled]

theorem spelled_eq_nil {chars : List LogicalChar} : spelled chars = [] ↔ chars = [] := by
  cases chars with
  | nil => simp
  | cons lc rest => simp [lc.spelling_ne_nil]

/-! ### What the classification of a character depends on -/

def trailingBackslashes (before : Text) : Nat := (before.reverse.takeWhile (· = '\\')).length

/-- An escape can start after `before`. -/
def EvenBefore (before : Text) : Prop := trailingBackslashes before % 2 = 0

theorem evenBefore_nil : EvenBefore [] := rfl

theorem evenBefore_snoc {before : Text} {c : Char} (other : c ≠ '\\') :
    EvenBefore (before ++ [c]) := by
  simp [EvenBefore, trailingBackslashes, other]

/-- The text of one escape, and the code it denotes. -/
def Escapes (taken : Text) (code : Nat) : Prop :=
  ∃ k hex, taken = '\\' :: (List.replicate (k + 1) 'u' ++ hex) ∧ hex.length = 4 ∧
    hex.all isAsciiHexdigit = true ∧ code = fromHex hex

/-- The code unit at the start of `rest`, when `before` is the text before it. -/
def codeUnit (before : Text) : Text → Except Panic (Except Nat (Nat × Nat))
  | [] => .ok (.ok (0, 0))
  | c :: cs =>
      if c ≠ '\\' then
        .ok (.ok (c.toNat, c.utf8Size))
      else if trailingBackslashes before % 2 ≠ 0 then
        .ok (.ok ('\\'.toNat, 1))
      else if cs.head? ≠ some 'u' then
        .ok (.ok ('\\'.toNat, 1))
      else
        let us := cs.takeWhile (· = 'u')
        let digits := cs.dropWhile (· = 'u')
        if byteLen digits < 4 then
          .ok (.error (1 + us.length + byteLen digits))
        else
          match sliceTo? digits 4 with
          | none => .error .badSlice
          | some hexStr =>
              if hexStr.all isAsciiHexdigit then
                .ok (.ok (fromHex hexStr, 1 + us.length + 4))
              else
                .ok (.error (1 + us.length + 4))

theorem byteLen_takeWhile_u (cs : Text) :
    byteLen (cs.takeWhile (· = 'u')) = (cs.takeWhile (· = 'u')).length := by
  induction cs with
  | nil => rfl
  | cons c cs ih =>
      by_cases isU : c = 'u'
      · subst isU
        simp only [List.takeWhile_cons, decide_true, if_true, byteLen_cons, ih, List.length_cons]
        have : Char.utf8Size 'u' = 1 := by decide
        omega
      · simp [isU]

theorem scanCodeUnit_append (before rest : Text) :
    SourceReader.scanCodeUnit (before ++ rest) (byteLen before) = codeUnit before rest := by
  cases rest with
  | nil => simp [SourceReader.scanCodeUnit, codeUnit]
  | cons c cs =>
      have positive := c.utf8Size_pos
      have preceding : SourceReader.countPrecedingBackslashes (before ++ c :: cs) (byteLen before) =
          trailingBackslashes before := by
        simp [SourceReader.countPrecedingBackslashes, trailingBackslashes]
      rw [SourceReader.scanCodeUnit, if_neg (by simp; omega), sliceFrom?_append, preceding]
      simp only [codeUnit]
      by_cases other : c ≠ '\\'
      · simp [other]
      · obtain rfl : c = '\\' := by simpa using other
        have size : Char.utf8Size '\\' = 1 := by decide
        have split : cs = cs.takeWhile (· = 'u') ++ cs.dropWhile (· = 'u') :=
          (List.takeWhile_append_dropWhile).symm
        have us := byteLen_takeWhile_u cs
        have total : byteLen cs = (cs.takeWhile (· = 'u')).length + byteLen (cs.dropWhile (· = 'u')) := by
          conv_lhs => rw [split]
          rw [byteLen_append, us]
        have whole : byteLen (before ++ '\\' :: cs) =
            byteLen before + (1 + ((cs.takeWhile (· = 'u')).length +
              byteLen (cs.dropWhile (· = 'u')))) := by
          rw [byteLen_append, byteLen_cons, size, total]
        have sliced : ∀ n, slice? (before ++ '\\' :: cs)
            (byteLen before + 1 + (cs.takeWhile (· = 'u')).length)
            (byteLen before + 1 + (cs.takeWhile (· = 'u')).length + n) =
              sliceTo? (cs.dropWhile (· = 'u')) n := by
          intro n
          have here := sliceFrom?_append (before ++ '\\' :: cs.takeWhile (· = 'u'))
            (cs.dropWhile (· = 'u'))
          simp only [byteLen_append, byteLen_cons, us, size, List.append_assoc, List.cons_append,
            ← split, ← Nat.add_assoc] at here
          rw [slice?, if_pos (by omega), here]
          simp
        rw [whole, sliced]
        simp only [ne_eq, not_true_eq_false, if_false]
        congr 1
        congr 1
        by_cases short : byteLen (cs.dropWhile (· = 'u')) < 4
        · rw [if_pos short, if_pos (by omega)]
          congr 2
          omega
        · rw [if_neg short, if_neg (by omega)]
          have len : byteLen before + 1 + (cs.takeWhile (· = 'u')).length + 4 - byteLen before =
              1 + (cs.takeWhile (· = 'u')).length + 4 := by omega
          cases sliceTo? (cs.dropWhile (· = 'u')) 4 <;> simp only [len]

theorem utf8Size_of_hexdigit {c : Char} (hex : isAsciiHexdigit c = true) : c.utf8Size = 1 := by
  apply Char.utf8Size_eq_one_iff.mpr
  simp only [isAsciiHexdigit, isAsciiDigit, Bool.or_eq_true, Bool.and_eq_true,
    decide_eq_true_eq, Char.le_def] at hex
  have z : ('9' : Char).val ≤ 127 := by decide
  have f : ('f' : Char).val ≤ 127 := by decide
  have g : ('F' : Char).val ≤ 127 := by decide
  rcases hex with (digit | lower) | upper
  · exact UInt32.le_trans digit.2 z
  · exact UInt32.le_trans lower.2 f
  · exact UInt32.le_trans upper.2 g

theorem byteLen_of_hexdigits {text : Text} (hex : text.all isAsciiHexdigit = true) :
    byteLen text = text.length := by
  induction text with
  | nil => rfl
  | cons c cs ih =>
      simp only [List.all_cons, Bool.and_eq_true] at hex
      rw [byteLen_cons, ih hex.2, utf8Size_of_hexdigit hex.1, List.length_cons]
      omega

theorem byteLen_replicate_u (k : Nat) : byteLen (List.replicate k 'u') = k := by
  induction k with
  | zero => rfl
  | succ k ih =>
      have size : Char.utf8Size 'u' = 1 := by decide
      rw [List.replicate_succ, byteLen_cons, ih, size]
      omega

/-- The `u`s of an escape end where its digits start. -/
theorem span_us {k : Nat} {digits : Text} (start : digits.head? ≠ some 'u') :
    (List.replicate k 'u' ++ digits).takeWhile (· = 'u') = List.replicate k 'u' ∧
      (List.replicate k 'u' ++ digits).dropWhile (· = 'u') = digits := by
  have us : ∀ c ∈ List.replicate k 'u', decide (c = 'u') = true := by simp
  have stops : digits.takeWhile (· = 'u') = [] ∧ digits.dropWhile (· = 'u') = digits := by
    cases digits with
    | nil => simp
    | cons d ds =>
        have other : d ≠ 'u' := by simpa using start
        simp [other]
  rw [List.takeWhile_append_of_pos us, List.dropWhile_append_of_pos us, stops.1, stops.2]
  simp

/-- What an escape is read as depends on its digits alone. -/
theorem codeUnit_escape {before : Text} {k : Nat} {digits : Text} (even : EvenBefore before)
    (start : digits.head? ≠ some 'u') :
    codeUnit before ('\\' :: (List.replicate (k + 1) 'u' ++ digits)) =
      if byteLen digits < 4 then .ok (.error (k + 2 + byteLen digits))
      else match sliceTo? digits 4 with
        | none => .error .badSlice
        | some hexStr =>
            if hexStr.all isAsciiHexdigit then .ok (.ok (fromHex hexStr, k + 2 + 4))
            else .ok (.error (k + 2 + 4)) := by
  have head : (List.replicate (k + 1) 'u' ++ digits).head? = some 'u' := by
    simp [List.replicate_succ]
  have shift : 1 + (k + 1) = k + 2 := by omega
  rw [codeUnit]
  simp only [ne_eq, not_true_eq_false, if_false, head, (span_us start).1, (span_us start).2,
    List.length_replicate, shift]
  rw [if_neg (by simpa [EvenBefore] using even)]

/-- What is not the start of an escape is one character. -/
theorem codeUnit_cases (before : Text) (c : Char) (cs : Text) :
    codeUnit before (c :: cs) = .ok (.ok (c.toNat, c.utf8Size)) ∨
      ∃ k digits, c :: cs = '\\' :: (List.replicate (k + 1) 'u' ++ digits) ∧ EvenBefore before ∧
        digits.head? ≠ some 'u' := by
  by_cases backslash : c = '\\'
  · subst backslash
    have size : Char.utf8Size '\\' = 1 := by decide
    by_cases even : trailingBackslashes before % 2 = 0
    · by_cases starts : cs.head? = some 'u'
      · right
        have us : cs.takeWhile (· = 'u') = List.replicate (cs.takeWhile (· = 'u')).length 'u' := by
          apply List.eq_replicate_iff.mpr
          exact ⟨rfl, fun b inside => by simpa using List.mem_takeWhile_imp inside⟩
        have some : (cs.takeWhile (· = 'u')).length ≠ 0 := by
          cases cs with
          | nil => simp at starts
          | cons d ds =>
              have isU : d = 'u' := by simpa using starts
              simp [isU]
        rcases Nat.exists_eq_succ_of_ne_zero some with ⟨k, length⟩
        refine ⟨k, cs.dropWhile (· = 'u'), ?_, even, ?_⟩
        · change '\\' :: cs = '\\' :: (List.replicate k.succ 'u' ++ _)
          rw [← length, ← us, List.takeWhile_append_dropWhile]
        · intro again
          have other := List.head?_dropWhile_not (fun c => decide (c = 'u')) cs
          rw [again] at other
          simp at other
      · left
        rw [codeUnit, if_neg (by simp), if_neg (by simpa using even), if_pos starts, size]
    · left
      rw [codeUnit, if_neg (by simp), if_pos even, size]
  · left
    rw [codeUnit, if_pos backslash]

/-- The text a code unit is read from: one character, or an escape where one can start. -/
theorem codeUnit_eq_ok {before rest : Text} {code len : Nat} (more : rest ≠ [])
    (unit : codeUnit before rest = .ok (.ok (code, len))) :
    ∃ taken after, rest = taken ++ after ∧ len = byteLen taken ∧
      ((∃ c, taken = [c] ∧ code = c.toNat) ∨ (EvenBefore before ∧ Escapes taken code)) := by
  rcases List.exists_cons_of_ne_nil more with ⟨c, cs, rfl⟩
  rcases codeUnit_cases before c cs with alone | ⟨k, digits, same, even, start⟩
  · rw [alone] at unit
    cases unit
    exact ⟨[c], cs, rfl, by simp, .inl ⟨c, rfl, rfl⟩⟩
  · rw [same, codeUnit_escape even start] at unit
    by_cases short : byteLen digits < 4
    · rw [if_pos short] at unit
      cases unit
    rw [if_neg short] at unit
    cases cut : sliceTo? digits 4 with
    | none => simp [cut] at unit
    | some hexStr =>
        simp only [cut] at unit
        rcases sliceTo?_eq_some cut with ⟨after, rfl, four⟩
        by_cases hex : hexStr.all isAsciiHexdigit = true
        · rw [if_pos hex] at unit
          cases unit
          have size : Char.utf8Size '\\' = 1 := by decide
          refine ⟨'\\' :: (List.replicate (k + 1) 'u' ++ hexStr), after, ?_, ?_,
            .inr ⟨even, k, hexStr, rfl, ?_, hex, rfl⟩⟩
          · rw [same, List.cons_append, List.append_assoc]
          · rw [byteLen_cons, byteLen_append, byteLen_replicate_u, ← four, size]
            omega
          · rw [← byteLen_of_hexdigits hex, ← four]
        · rw [if_neg hex] at unit
          cases unit

/-- An escape is read as what it denotes, whatever follows it. -/
theorem codeUnit_of_escapes {before taken : Text} {code : Nat} (even : EvenBefore before)
    (escapes : Escapes taken code) (after : Text) :
    codeUnit before (taken ++ after) = .ok (.ok (code, byteLen taken)) := by
  rcases escapes with ⟨k, hex, rfl, four, digits, rfl⟩
  have bytes := byteLen_of_hexdigits digits
  have size : Char.utf8Size '\\' = 1 := by decide
  have start : (hex ++ after).head? ≠ some 'u' := by
    cases hex with
    | nil => simp at four
    | cons h hs =>
        rw [List.all_cons, Bool.and_eq_true] at digits
        intro isU
        cases isU
        exact absurd digits.1 (by decide)
  have cut : sliceTo? (hex ++ after) 4 = some hex := by
    rw [← four, ← bytes]
    exact sliceTo?_append hex after
  have long : ¬ byteLen (hex ++ after) < 4 := by
    rw [byteLen_append]
    omega
  have total : 1 + (k + 1 + 4) = k + 2 + 4 := by omega
  rw [List.cons_append, List.append_assoc, codeUnit_escape even start, if_neg long, cut]
  simp only [digits, if_true, byteLen_cons, byteLen_append, byteLen_replicate_u, bytes, four, size,
    total]

theorem codeUnit_eq_error {before rest : Text} {len : Nat}
    (unit : codeUnit before rest = .ok (.error len)) :
    (∃ cs, rest = '\\' :: cs) ∧ len ≤ byteLen rest := by
  cases rest with
  | nil => simp [codeUnit] at unit
  | cons c cs =>
      rcases codeUnit_cases before c cs with alone | ⟨k, digits, same, even, start⟩
      · rw [alone] at unit
        cases unit
      · have size : Char.utf8Size '\\' = 1 := by decide
        rw [same] at unit ⊢
        refine ⟨⟨_, rfl⟩, ?_⟩
        rw [codeUnit_escape even start] at unit
        simp only [byteLen_cons, byteLen_append, byteLen_replicate_u, size]
        by_cases short : byteLen digits < 4
        · rw [if_pos short] at unit
          cases unit
          omega
        · rw [if_neg short] at unit
          split at unit
          · cases unit
          · split at unit <;> cases unit
            omega

/-- The text of an escape, or of two that make up a surrogate pair, and the character it is. -/
def Spells (taken : Text) (c : Char) : Prop :=
  (∃ code, Escapes taken code ∧ charFromU32 code = some c) ∨
  ∃ high low codeHigh codeLow, taken = high ++ low ∧ Escapes high codeHigh ∧ Escapes low codeLow ∧
    charFromU32 codeHigh = none ∧ (0xD800 ≤ codeHigh ∧ codeHigh ≤ 0xDBFF) ∧
    (0xDC00 ≤ codeLow ∧ codeLow ≤ 0xDFFF) ∧
    c = Char.ofNat ((0x10000 + ((codeHigh - 0xD800) <<< 10)) ||| (codeLow - 0xDC00))

theorem Escapes.exists_tail {taken : Text} {code : Nat} (escapes : Escapes taken code) :
    ∃ tail, taken = '\\' :: tail ∧ tail ≠ [] := by
  rcases escapes with ⟨k, hex, rfl, -⟩
  exact ⟨_, rfl, by simp [List.replicate_succ]⟩

/-- A backslash can be followed by an escape after an escape: it ends in a digit. -/
theorem Escapes.evenBefore {taken : Text} {code : Nat} (escapes : Escapes taken code)
    (before : Text) : EvenBefore (before ++ taken) := by
  rcases escapes with ⟨k, hex, rfl, four, digits, -⟩
  have some : hex ≠ [] := by
    rintro rfl
    simp at four
  rcases List.eq_nil_or_concat hex with rfl | ⟨init, last, rfl⟩
  · exact absurd rfl some
  · have digit : isAsciiHexdigit last = true := by
      simp only [List.concat_eq_append, List.all_append, List.all_cons, List.all_nil,
        Bool.and_true, Bool.and_eq_true] at digits
      exact digits.2
    have other : last ≠ '\\' := by
      rintro rfl
      exact absurd digit (by decide)
    have snoc : before ++ '\\' :: (List.replicate (k + 1) 'u' ++ init.concat last) =
        (before ++ '\\' :: (List.replicate (k + 1) 'u' ++ init)) ++ [last] := by
      simp
    rw [snoc]
    exact evenBefore_snoc other

theorem Spells.exists_tail {taken : Text} {c : Char} (spells : Spells taken c) :
    ∃ tail, taken = '\\' :: tail ∧ tail ≠ [] := by
  rcases spells with ⟨code, escapes, -⟩ | ⟨high, low, codeHigh, codeLow, rfl, escapes, -⟩
  · exact escapes.exists_tail
  · rcases escapes.exists_tail with ⟨tail, rfl, some⟩
    exact ⟨tail ++ low, rfl, by simp [some]⟩

theorem Spells.evenBefore {taken : Text} {c : Char} (spells : Spells taken c) (before : Text) :
    EvenBefore (before ++ taken) := by
  rcases spells with ⟨code, escapes, -⟩ | ⟨high, low, codeHigh, codeLow, rfl, -, escapes, -⟩
  · exact escapes.evenBefore before
  · rw [← List.append_assoc]
    exact escapes.evenBefore (before ++ high)

/-- An escape is scanned as the character it spells, whatever follows it. -/
theorem scanAt_of_spells {before taken after : Text} {c : Char} (even : EvenBefore before)
    (spells : Spells taken c) :
    SourceReader.scanAt (before ++ (taken ++ after)) (byteLen before) =
      .ok (.char c (byteLen taken)) := by
  rcases spells with ⟨code, escapes, valid⟩ |
    ⟨high, low, codeHigh, codeLow, rfl, first, second, invalid, high', low', rfl⟩
  · rw [SourceReader.scanAt, scanCodeUnit_append, codeUnit_of_escapes even escapes after]
    simp only [bind, Except.bind, valid]
    rfl
  · have later := codeUnit_of_escapes (first.evenBefore before) second after
    rw [← scanCodeUnit_append, byteLen_append, List.append_assoc] at later
    rw [SourceReader.scanAt, scanCodeUnit_append, List.append_assoc,
      codeUnit_of_escapes even first _]
    simp only [bind, Except.bind, invalid]
    rw [if_pos (by simpa using high'), later]
    simp only [low', decide_true, byteLen_append]
    rfl

theorem charFromU32_toNat (c : Char) : charFromU32 c.toNat = some c := by
  have valid : c.toNat.isValidChar := c.valid
  rw [charFromU32, if_pos valid, Char.ofNat_toNat]

theorem scanAt_plain {before after : Text} {c : Char} (other : c ≠ '\\') :
    SourceReader.scanAt (before ++ c :: after) (byteLen before) = .ok (.char c c.utf8Size) := by
  rw [SourceReader.scanAt, scanCodeUnit_append, codeUnit, if_pos other]
  simp only [bind, Except.bind, charFromU32_toNat]
  rfl

/-- The character `lc` is what the reader sees between `before` and `after`. -/
structure LogicalChar.Reads (before : Text) (lc : LogicalChar) (after : Text) : Prop where
  scans : SourceReader.scanAt (before ++ (lc.spelling ++ after)) (byteLen before) = .ok lc.scan
  fits : ∀ len, lc = .illFormed len → len ≤ byteLen (lc.spelling ++ after)
  escapes : ∀ c tail, lc = .escape c tail → EvenBefore before ∧ Spells ('\\' :: tail) c

/-- Where the reader's scan succeeds it finds a character. -/
theorem scanAt_eq_ok {before rest : Text} {scan : ScanResult} (more : rest ≠ [])
    (scans : SourceReader.scanAt (before ++ rest) (byteLen before) = .ok scan) :
    ∃ (lc : LogicalChar) (after : Text), rest = lc.spelling ++ after ∧ lc.scan = scan ∧
      lc.Reads before after := by
  have found : ∀ (lc : LogicalChar) (after : Text), rest = lc.spelling ++ after → lc.scan = scan →
      (∀ len, lc = .illFormed len → len ≤ byteLen rest) →
      (∀ c tail, lc = .escape c tail → EvenBefore before ∧ Spells ('\\' :: tail) c) →
      ∃ (lc : LogicalChar) (after : Text), rest = lc.spelling ++ after ∧ lc.scan = scan ∧
        lc.Reads before after := by
    intro lc after split same fits escapes
    exact ⟨lc, after, split, same, by rw [← split, same]; exact scans, split ▸ fits, escapes⟩
  rw [SourceReader.scanAt, scanCodeUnit_append] at scans
  cases unit : codeUnit before rest with
  | error e => simp [unit, bind, Except.bind] at scans
  | ok unit₁ =>
  cases unit₁ with
  | error len =>
      simp only [unit, bind, Except.bind, pure, Except.pure, Except.ok.injEq] at scans
      rcases codeUnit_eq_error unit with ⟨⟨cs, start⟩, short⟩
      apply found (.illFormed len) cs start scans
      · intro len' same
        cases same
        exact short
      · intro c tail same
        cases same
  | ok pair =>
  rcases pair with ⟨code, len⟩
  rcases codeUnit_eq_ok more unit with ⟨taken, after, split, size, here⟩
  simp only [unit, bind, Except.bind, pure, Except.pure] at scans
  cases valid : charFromU32 code with
  | some c =>
      simp only [valid, Except.ok.injEq] at scans
      rcases here with ⟨c', rfl, rfl⟩ | ⟨even, escapes⟩
      · rw [charFromU32_toNat] at valid
        cases valid
        apply found (.plain c) after split (by rw [← scans, size]; simp [LogicalChar.scan])
        · intro len' same
          cases same
        · intro c' tail same
          cases same
      · rcases escapes.exists_tail with ⟨tail, rfl, -⟩
        apply found (.escape c tail) after split (by rw [← scans, size]; rfl)
        · intro len' same
          cases same
        · intro c' tail' same
          cases same
          exact ⟨even, .inl ⟨code, escapes, valid⟩⟩
  | none =>
      rcases here with ⟨c', rfl, rfl⟩ | ⟨even, escapes⟩
      · rw [charFromU32_toNat] at valid
        cases valid
      rcases escapes.exists_tail with ⟨tail, start, -⟩
      -- A lone surrogate: its backslash stands for itself.
      have lone : ScanResult.invalidEscape len = scan → ∃ (lc : LogicalChar) (after : Text),
          rest = lc.spelling ++ after ∧ lc.scan = scan ∧ lc.Reads before after := by
        intro same
        apply found (.illFormed len) (tail ++ after) (by rw [split, start]; rfl) same
        · intro len' same'
          cases same'
          rw [size, split, byteLen_append]
          exact Nat.le_add_right _ _
        · intro c tail' same'
          cases same'
      simp only [valid] at scans
      split at scans
      · rename_i high
        rw [split, ← List.append_assoc, size, ← byteLen_append, scanCodeUnit_append] at scans
        cases unit₂ : codeUnit (before ++ taken) after with
        | error e => simp [unit₂] at scans
        | ok unit₂' =>
        cases unit₂' with
        | error len₂ =>
            simp only [unit₂, Except.ok.injEq] at scans
            exact lone (size ▸ scans)
        | ok pair₂ =>
        rcases pair₂ with ⟨code₂, len₂⟩
        simp only [unit₂] at scans
        split at scans
        · rename_i low
          simp only [Bool.and_eq_true, decide_eq_true_eq] at high low
          have more₂ : after ≠ [] := by
            rintro rfl
            simp only [codeUnit, Except.ok.injEq, Prod.mk.injEq] at unit₂
            omega
          rcases codeUnit_eq_ok more₂ unit₂ with ⟨taken₂, after₂, split₂, size₂, here₂⟩
          rcases here₂ with ⟨c', -, rfl⟩ | ⟨even₂, escapes₂⟩
          · have notSurrogate : c'.toNat.isValidChar := c'.valid
            simp only [Nat.isValidChar] at notSurrogate
            omega
          · simp only [Except.ok.injEq] at scans
            apply found (.escape _ (tail ++ taken₂)) after₂
              (by rw [split, start, split₂]; simp [LogicalChar.spelling])
              (by
                rw [← scans, size₂, ← byteLen_append, start]
                rfl)
            · intro len' same
              cases same
            · intro c tail' same
              cases same
              refine ⟨even, .inr ⟨taken, taken₂, code, code₂, ?_, escapes, escapes₂, valid, high, low,
                rfl⟩⟩
              rw [start, List.cons_append]
        · simp only [Except.ok.injEq] at scans
          exact lone (size ▸ scans)
      · simp only [Except.ok.injEq] at scans
        exact lone scans

/-- What stepping over a scanned character changes. -/
theorem SourceReader.skip_eq_ok {r r' : SourceReader} {scan : ScanResult} (skips : r.skip scan = .ok r') :
    r'.source = r.source ∧ r'.current = r.current + scan.logicalLen := by
  cases scan with
  | char c len =>
      cases skips
      exact ⟨rfl, rfl⟩
  | invalidEscape len =>
      simp only [SourceReader.skip, bind, Except.bind] at skips
      split at skips
      · cases skips
      · cases skips
        exact ⟨rfl, rfl⟩

/-- Stepping aborts only over an ill-formed escape whose end does not fit. -/
theorem SourceReader.skip_total {r : SourceReader} {scan : ScanResult} :
    (∃ r', r.skip scan = .ok r') ↔
      ∀ len, scan = .invalidEscape len → u32 r.current + u32 len < 2 ^ 32 := by
  cases scan with
  | char c len => simp [SourceReader.skip]
  | invalidEscape len =>
      simp only [SourceReader.skip, UnicodeEscapeError.new, ScanResult.invalidEscape.injEq, forall_eq']
      by_cases fits : u32 r.current + u32 len < 2 ^ 32
      · rw [if_pos fits]
        exact ⟨fun _ => fits, fun _ => ⟨_, rfl⟩⟩
      · rw [if_neg fits]
        constructor
        · rintro ⟨r', skips⟩
          cases skips
        · exact fun fits' => absurd fits' fits

/-! ### Decoded texts -/

/-- The characters are what the reader sees, one after the other, when it stands after
`before`. -/
def DecodedAfter : Text → List LogicalChar → Prop
  | _, [] => True
  | before, lc :: rest => lc.Reads before (spelled rest) ∧ DecodedAfter (before ++ lc.spelling) rest

abbrev Decoded (chars : List LogicalChar) : Prop := DecodedAfter [] chars

theorem DecodedAfter.drop {before : Text} {xs ys : List LogicalChar}
    (decoded : DecodedAfter before (xs ++ ys)) : DecodedAfter (before ++ spelled xs) ys := by
  induction xs generalizing before with
  | nil => simpa using decoded
  | cons lc xs ih =>
      have later := ih decoded.2
      simpa [List.append_assoc] using later

/-- The character a scan stands for at the start of `rest`. -/
def charOf (rest : Text) : ScanResult → LogicalChar
  | .char c len =>
      if rest.head? = some c && c.utf8Size = len then
        .plain c
      else
        .escape c ((sliceTo? rest len).getD []).tail
  | .invalidEscape len => .illFormed len

theorem LogicalChar.Reads.charOf {before after : Text} {lc : LogicalChar}
    (reads : lc.Reads before after) : charOf (lc.spelling ++ after) lc.scan = lc := by
  cases lc with
  | plain c => simp [JavaSyntax.charOf, spelling, scan]
  | illFormed len => rfl
  | escape c tail =>
      have spells := (reads.escapes c tail rfl).2
      rcases spells.exists_tail with ⟨tail', same, some⟩
      have long : 0 < byteLen tail := by
        cases same
        exact byteLen_pos_of_ne_nil some
      have cut : sliceTo? ('\\' :: (tail ++ after)) (byteLen ('\\' :: tail)) = .some ('\\' :: tail) :=
        sliceTo?_append ('\\' :: tail) after
      have size : Char.utf8Size '\\' = 1 := by decide
      simp only [JavaSyntax.charOf, spelling, scan, List.cons_append, List.head?_cons, cut]
      rw [if_neg]
      · rfl
      · simp only [Option.some.injEq, Bool.and_eq_true, decide_eq_true_eq, not_and]
        intro isBackslash
        subst isBackslash
        simp only [byteLen_cons, size]
        omega

/-- The characters from byte `offset` on; nothing when a scan aborts. -/
def decodeFrom (source : Text) : Nat → Nat → Option (List LogicalChar)
  | 0, offset => if byteLen source ≤ offset then some [] else none
  | fuel + 1, offset =>
      if byteLen source ≤ offset then
        some []
      else
        match SourceReader.scanAt source offset, sliceFrom? source offset with
        | .ok scan, some rest =>
            (decodeFrom source fuel (offset + scan.logicalLen)).map (charOf rest scan :: ·)
        | _, _ => none

/-- The characters of a source. -/
def decode (source : Text) : Option (List LogicalChar) := decodeFrom source (byteLen source) 0

theorem decodeFrom_complete {before : Text} {chars : List LogicalChar} {fuel : Nat}
    (decoded : DecodedAfter before chars) (enough : chars.length ≤ fuel) :
    decodeFrom (before ++ spelled chars) fuel (byteLen before) = some chars := by
  induction chars generalizing before fuel with
  | nil => cases fuel <;> simp [decodeFrom]
  | cons lc rest ih =>
      rcases Nat.exists_eq_succ_of_ne_zero (n := fuel) (by simp at enough; omega) with ⟨n, rfl⟩
      have later := ih decoded.2 (by simpa using enough)
      have some := byteLen_pos_of_ne_nil lc.spelling_ne_nil
      rw [decodeFrom, if_neg (by simp; omega), sliceFrom?_append, spelled_cons, decoded.1.scans]
      simp only [LogicalChar.scan_logicalLen, decoded.1.charOf]
      rw [← byteLen_append, ← List.append_assoc, later]
      rfl

theorem decodeFrom_sound {before rest : Text} {chars : List LogicalChar} {fuel : Nat}
    (decodes : decodeFrom (before ++ rest) fuel (byteLen before) = some chars) :
    spelled chars = rest ∧ DecodedAfter before chars := by
  have ended : byteLen (before ++ rest) ≤ byteLen before → rest = [] := by
    intro le
    rw [byteLen_append] at le
    exact byteLen_eq_zero.mp (by omega)
  induction fuel generalizing before rest chars with
  | zero =>
      rw [decodeFrom] at decodes
      split at decodes
      · rename_i le
        cases decodes
        exact ⟨(ended le).symm, trivial⟩
      · simp at decodes
  | succ fuel ih =>
      rw [decodeFrom] at decodes
      split at decodes
      · rename_i le
        cases decodes
        exact ⟨(ended le).symm, trivial⟩
      · rename_i more
        have nonempty : rest ≠ [] := by
          rintro rfl
          simp at more
        rw [sliceFrom?_append] at decodes
        cases scans : SourceReader.scanAt (before ++ rest) (byteLen before) with
        | error e => simp [scans] at decodes
        | ok scan =>
            rcases scanAt_eq_ok nonempty scans with ⟨lc, after, rfl, rfl, reads⟩
            rw [scans] at decodes
            simp only [reads.charOf, LogicalChar.scan_logicalLen, Option.map_eq_some_iff] at decodes
            rcases decodes with ⟨others, later, rfl⟩
            rw [← byteLen_append, ← List.append_assoc] at later
            rcases ih later (by
              intro le
              rw [byteLen_append] at le
              exact byteLen_eq_zero.mp (by omega)) with ⟨rfl, decoded⟩
            exact ⟨rfl, reads, decoded⟩

theorem length_le_spelled (chars : List LogicalChar) : chars.length ≤ byteLen (spelled chars) := by
  induction chars with
  | nil => simp
  | cons lc rest ih =>
      have := byteLen_pos_of_ne_nil lc.spelling_ne_nil
      simp only [List.length_cons, spelled_cons, byteLen_append]
      omega

/-- Decoding finds exactly the characters the reader sees. -/
theorem decode_eq_some {source : Text} {chars : List LogicalChar} :
    decode source = some chars ↔ Decoded chars ∧ spelled chars = source := by
  constructor
  · intro decodes
    have here : decodeFrom ([] ++ source) (byteLen source) (byteLen []) = some chars := decodes
    exact (decodeFrom_sound here).symm
  · intro ⟨decoded, same⟩
    subst same
    exact decodeFrom_complete decoded (length_le_spelled chars)

/-! ### Translated texts -/

/-- Characters other than the backslash are read the same elsewhere. -/
theorem DecodedAfter.elsewhere {before before' : Text} {ys zs : List LogicalChar}
    (decoded : DecodedAfter before (ys ++ zs)) (other : ∀ lc ∈ ys, lc.char ≠ '\\')
    (even : EvenBefore before') : DecodedAfter before' ys := by
  induction ys generalizing before before' with
  | nil => trivial
  | cons lc ys ih =>
      have notBackslash := other lc (by simp)
      have others : ∀ text, EvenBefore text → DecodedAfter text ys := fun text even =>
        ih decoded.2 (fun lc' inside => other lc' (by simp [inside])) even
      cases lc with
      | plain c =>
          refine ⟨⟨scanAt_plain notBackslash, ?_, ?_⟩, others _ (evenBefore_snoc notBackslash)⟩
          · intro len same
            cases same
          · intro c' tail same
            cases same
      | escape c tail =>
          have spells := (decoded.1.escapes c tail rfl).2
          refine ⟨⟨scanAt_of_spells even spells, ?_, ?_⟩, others _ (spells.evenBefore before')⟩
          · intro len same
            cases same
          · intro c' tail' same
            cases same
            exact ⟨even, spells⟩
      | illFormed len => exact absurd rfl notBackslash

/-- The end of every ill-formed escape fits in 32 bits, when the characters start at byte
`offset`. -/
def EscapesFit : Nat → List LogicalChar → Prop
  | _, [] => True
  | offset, lc :: rest =>
      (∀ len, lc = .illFormed len → u32 offset + u32 len < 2 ^ 32) ∧
        EscapesFit (offset + byteLen lc.spelling) rest

theorem escapesFit_append {offset : Nat} {xs ys : List LogicalChar} :
    EscapesFit offset (xs ++ ys) ↔
      EscapesFit offset xs ∧ EscapesFit (offset + byteLen (spelled xs)) ys := by
  induction xs generalizing offset with
  | nil => simp [EscapesFit]
  | cons lc xs ih =>
      simp only [List.cons_append, EscapesFit, ih, spelled_cons, byteLen_append, Nat.add_assoc,
        and_assoc]

theorem escapesFit_of_formed {offset : Nat} {chars : List LogicalChar}
    (formed : ∀ len, .illFormed len ∉ chars) : EscapesFit offset chars := by
  induction chars generalizing offset with
  | nil => trivial
  | cons lc rest ih =>
      constructor
      · intro len same
        exact absurd (by simp [same]) (formed len)
      · exact ih fun len inside => formed len (by simp [inside])

/-- Reading to the end gives the characters, and aborts only at an escape whose end does not
fit. -/
theorem drain_eq_ok {before out : Text} {chars : List LogicalChar} {r : SourceReader} {n : Nat}
    (source : r.source = before ++ spelled chars) (current : r.current = byteLen before)
    (decoded : DecodedAfter before chars) (enough : chars.length ≤ n) :
    (∃ r', r.drain n = .ok (out, r')) ↔
      EscapesFit (byteLen before) chars ∧ out = chars.map LogicalChar.char := by
  induction chars generalizing before r n out with
  | nil =>
      have ended : r.isAtEnd = true := by simp [SourceReader.isAtEnd, source, current]
      have drained : r.drain n = .ok ([], r) := by cases n <;> simp [SourceReader.drain, ended]
      rw [drained]
      simp [EscapesFit, eq_comm]
  | cons lc rest ih =>
      rcases Nat.exists_eq_succ_of_ne_zero (n := n) (by simp at enough; omega) with ⟨m, rfl⟩
      have some := byteLen_pos_of_ne_nil lc.spelling_ne_nil
      have more : ¬ r.isAtEnd = true := by
        simp [SourceReader.isAtEnd, source, current]
        omega
      have scans := decoded.1.scans
      rw [← spelled_cons, ← source, ← current] at scans
      have round : r.drain (m + 1) = (r.skip lc.scan).bind fun r' =>
          (r'.drain m).bind fun others => .ok (lc.char :: others.1, others.2) := by
        rw [SourceReader.drain, if_neg more, SourceReader.advance, scans]
        simp only [bind, Except.bind, pure, Except.pure, LogicalChar.scan_logicalChar]
        cases r.skip lc.scan <;> rfl
      have fits : (∃ r', r.skip lc.scan = .ok r') ↔
          ∀ len, lc = .illFormed len → u32 (byteLen before) + u32 len < 2 ^ 32 := by
        rw [SourceReader.skip_total, current]
        cases lc <;> simp [LogicalChar.scan]
      rw [round, EscapesFit, ← fits, ← byteLen_append, and_assoc]
      cases skips : r.skip lc.scan with
      | error e => simp [Except.bind]
      | ok r₁ =>
          rcases SourceReader.skip_eq_ok skips with ⟨source₁, current₁⟩
          rw [source, spelled_cons, ← List.append_assoc] at source₁
          rw [current, LogicalChar.scan_logicalLen, ← byteLen_append] at current₁
          have later : ∀ out', (∃ r', r₁.drain m = .ok (out', r')) ↔ _ := fun out' =>
            ih source₁ current₁ decoded.2 (by simpa using enough)
          simp only [Except.bind, Except.ok.injEq, exists_eq', true_and, List.map_cons]
          cases drained : r₁.drain m with
          | error e =>
              have never : ¬ ∃ r', r₁.drain m = .ok (rest.map LogicalChar.char, r') := by
                simp [drained]
              rw [later] at never
              simp only [reduceCtorEq, exists_false, false_iff]
              exact fun fits => never ⟨fits.1, rfl⟩
          | ok others =>
              rcases others with ⟨out', last⟩
              have here := (later out').mp ⟨last, drained⟩
              simp only [Except.ok.injEq, Prod.mk.injEq, exists_and_left, exists_eq', and_true,
                here.2, here.1, true_and]
              exact eq_comm

/-- A decoded text translates to its characters, unless the end of an escape does not fit. -/
theorem translate_decoded {chars : List LogicalChar} {out : Text} (decoded : Decoded chars) :
    translateUnicodeEscapes (spelled chars) = .ok out ↔
      EscapesFit 0 chars ∧ out = chars.map LogicalChar.char := by
  have source : (SourceReader.new (spelled chars)).source = [] ++ spelled chars := rfl
  have drains :
      (∃ r', (SourceReader.new (spelled chars)).drain (byteLen (spelled chars)) = .ok (out, r')) ↔
        EscapesFit 0 chars ∧ out = chars.map LogicalChar.char :=
    drain_eq_ok source rfl decoded (length_le_spelled chars)
  rw [translateUnicodeEscapes]
  split
  · rw [← drains]
    cases (SourceReader.new (spelled chars)).drain (byteLen (spelled chars)) with
    | error e => simp [bind, Except.bind]
    | ok drained =>
        rcases drained with ⟨out', last⟩
        simp [bind, Except.bind, pure, Except.pure]
  · rename_i noBackslash
    have plain : ∀ lc ∈ chars, ∃ c, lc = .plain c := by
      intro lc inside
      have absent : '\\' ∉ lc.spelling := by
        intro backslash
        apply noBackslash
        simp only [List.contains_iff_mem, spelled, List.mem_flatMap]
        exact ⟨lc, inside, backslash⟩
      cases lc with
      | plain c => exact ⟨c, rfl⟩
      | escape c tail => simp [LogicalChar.spelling] at absent
      | illFormed len => simp [LogicalChar.spelling] at absent
    have formed : ∀ len, LogicalChar.illFormed len ∉ chars := by
      intro len inside
      rcases plain _ inside with ⟨c, same⟩
      cases same
    have text : spelled chars = chars.map LogicalChar.char := by
      clear formed noBackslash source decoded drains
      induction chars with
      | nil => rfl
      | cons lc chars ih =>
          rcases plain lc (by simp) with ⟨c, rfl⟩
          rw [spelled_cons, ih fun lc' inside => plain lc' (by simp [inside])]
          rfl
    rw [text, and_iff_right (escapesFit_of_formed formed)]
    simp [pure, Except.pure, eq_comm]

/-- The text of a lexeme without backslashes translates to its characters. -/
theorem translate_lexeme {xs ys zs : List LogicalChar} (decoded : Decoded (xs ++ (ys ++ zs)))
    (other : ∀ lc ∈ ys, lc.char ≠ '\\') :
    translateUnicodeEscapes (spelled ys) = .ok (ys.map LogicalChar.char) := by
  apply (translate_decoded (decoded.drop.elsewhere other evenBefore_nil)).mpr
  exact ⟨escapesFit_of_formed fun len inside => other _ inside rfl, rfl⟩

end CaffeineLs.JavaSyntax
