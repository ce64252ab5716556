/-
Module: CaffeineLs.Proofs.EscapeScanning
Purpose: The Java reader aborts nowhere exactly when the four bytes after the `u`s of an escape
  never end inside a character and no ill-formed escape lies across a multiple of 4 GiB.
Trusted boundary: none
Main exports: CutsCharacter, WrapsRange, reader_total_iff
-/
import CaffeineLs.JavaSyntax.LogicalText

namespace CaffeineLs.JavaSyntax

open SourceText

/-! ### What the reader stumbles over -/

/-- `rest` starts with an escape, and the four bytes after its `u`s end inside a character. -/
def CutAt (before rest : Text) : Prop :=
  ∃ k digits, rest = '\\' :: (List.replicate (k + 1) 'u' ++ digits) ∧ EvenBefore before ∧
    digits.head? ≠ some 'u' ∧ 4 ≤ byteLen digits ∧
    ∀ taken after, digits = taken ++ after → byteLen taken ≠ 4

def CutsCharacter (source : Text) : Prop :=
  ∃ before rest, source = before ++ rest ∧ CutAt before rest

/-- `rest` starts with an ill-formed escape of so many bytes, as JLS §3.3 has it. -/
inductive IllFormed (before : Text) : Text → Nat → Prop where
  /-- The source ends before the fourth digit. -/
  | short {k : Nat} {digits : Text} : EvenBefore before → digits.head? ≠ some 'u' →
      byteLen digits < 4 →
      IllFormed before ('\\' :: (List.replicate (k + 1) 'u' ++ digits)) (k + 2 + byteLen digits)
  /-- The four bytes are not all hexadecimal digits. -/
  | digits {k : Nat} {taken after : Text} : EvenBefore before → taken.head? ≠ some 'u' →
      byteLen taken = 4 → taken.all isAsciiHexdigit = false →
      IllFormed before ('\\' :: (List.replicate (k + 1) 'u' ++ (taken ++ after))) (k + 2 + 4)
  /-- The digits denote a surrogate, which no escape for the other half of a pair follows. -/
  | surrogate {taken after : Text} {code : Nat} : EvenBefore before → Escapes taken code →
      ¬ code.isValidChar →
      (∀ low codeLow after', after = low ++ after' → Escapes low codeLow →
        0xD800 ≤ code → code ≤ 0xDBFF → 0xDC00 ≤ codeLow → ¬ codeLow ≤ 0xDFFF) →
      IllFormed before (taken ++ after) (byteLen taken)

/-- The end of an ill-formed escape does not fit in 32 bits where its start is cut to them. -/
def WrapsRange (source : Text) : Prop :=
  ∃ before rest len, source = before ++ rest ∧ IllFormed before rest len ∧
    2 ^ 32 ≤ u32 (byteLen before) + u32 len

/-! ### Code units -/

section

variable {before rest : Text}

/-- Reading a code unit aborts exactly where the window of an escape cuts a character. -/
theorem codeUnit_aborts_iff : (∃ e, codeUnit before rest = .error e) ↔ CutAt before rest := by
  constructor
  · rintro ⟨e, aborts⟩
    cases rest with
    | nil => cases aborts
    | cons c cs =>
        rcases codeUnit_cases before c cs with alone | ⟨k, digits, same, even, start⟩
        · rw [alone] at aborts
          cases aborts
        · rw [same, codeUnit_escape even start] at aborts
          refine ⟨k, digits, same, even, start, ?_⟩
          by_cases short : byteLen digits < 4
          · rw [if_pos short] at aborts
            cases aborts
          · rw [if_neg short] at aborts
            cases cut : sliceTo? digits 4 with
            | none => exact ⟨by omega, sliceTo?_eq_none.mp cut⟩
            | some hexStr =>
                simp only [cut] at aborts
                split at aborts <;> cases aborts
  · rintro ⟨k, digits, rfl, even, start, long, cut⟩
    rw [codeUnit_escape even start, if_neg (by omega), sliceTo?_eq_none.mpr cut]
    exact ⟨_, rfl⟩

theorem illFormed_of_codeUnit {len : Nat} (unit : codeUnit before rest = .ok (.error len)) :
    IllFormed before rest len := by
  cases rest with
  | nil => cases unit
  | cons c cs =>
      rcases codeUnit_cases before c cs with alone | ⟨k, digits, same, even, start⟩
      · rw [alone] at unit
        cases unit
      · rw [same] at unit ⊢
        rw [codeUnit_escape even start] at unit
        by_cases short : byteLen digits < 4
        · rw [if_pos short] at unit
          cases unit
          exact .short even start short
        · rw [if_neg short] at unit
          cases cut : sliceTo? digits 4 with
          | none => simp [cut] at unit
          | some taken =>
              simp only [cut] at unit
              rcases sliceTo?_eq_some cut with ⟨after, rfl, four⟩
              by_cases hex : taken.all isAsciiHexdigit = true
              · rw [if_pos hex] at unit
                cases unit
              · rw [if_neg hex] at unit
                cases unit
                have start' : taken.head? ≠ some 'u' := by
                  cases taken with
                  | nil => simp
                  | cons d ds => simpa using start
                exact .digits even start' four.symm (by simpa using hex)

/-- Where the scan succeeds, it finds an ill-formed escape exactly if there is one. -/
theorem illFormed_iff {scan : ScanResult} {len : Nat}
    (scans : SourceReader.scanAt (before ++ rest) (byteLen before) = .ok scan) :
    IllFormed before rest len ↔ scan = .invalidEscape len := by
  constructor
  · intro ill
    rw [SourceReader.scanAt, scanCodeUnit_append] at scans
    cases ill with
    | short even start short =>
        rw [codeUnit_escape even start, if_pos short] at scans
        cases scans
        rfl
    | digits even start four hex =>
        rename_i k taken after
        have start' : (taken ++ after).head? ≠ some 'u' := by
          cases taken with
          | nil => simp at four
          | cons d ds => simpa using start
        have cut : sliceTo? (taken ++ after) 4 = some taken := four ▸ sliceTo?_append taken after
        have long : ¬ byteLen (taken ++ after) < 4 := by
          rw [byteLen_append]
          omega
        rw [codeUnit_escape even start', if_neg long, cut] at scans
        simp only [hex, Bool.false_eq_true, if_false] at scans
        cases scans
        rfl
    | surrogate even escapes invalid alone =>
        rename_i taken after code
        have none : charFromU32 code = .none := if_neg invalid
        rw [codeUnit_of_escapes even escapes after] at scans
        simp only [bind, Except.bind, none] at scans
        split at scans
        · rename_i high
          simp only [Bool.and_eq_true, decide_eq_true_eq] at high
          rw [← List.append_assoc, ← byteLen_append, scanCodeUnit_append] at scans
          cases unit : codeUnit (before ++ taken) after with
          | error e => simp [unit] at scans
          | ok unit₁ =>
          cases unit₁ with
          | error len₂ =>
              simp only [unit] at scans
              cases scans
              rfl
          | ok pair =>
          rcases pair with ⟨code₂, len₂⟩
          simp only [unit] at scans
          split at scans
          · rename_i low
            simp only [Bool.and_eq_true, decide_eq_true_eq] at low
            have more : after ≠ [] := by
              rintro rfl
              cases unit
              omega
            rcases codeUnit_eq_ok more unit with ⟨taken₂, after₂, split₂, -, ⟨c, -, rfl⟩ | ⟨-, escapes₂⟩⟩
            · have valid : c.toNat.isValidChar := c.valid
              simp only [Nat.isValidChar] at valid
              omega
            · exact absurd low.2 (alone taken₂ code₂ after₂ split₂ escapes₂ high.1 high.2 low.1)
          · cases scans
            rfl
        · cases scans
          rfl
  · rintro rfl
    rw [SourceReader.scanAt, scanCodeUnit_append] at scans
    cases unit : codeUnit before rest with
    | error e => simp [unit, bind, Except.bind] at scans
    | ok unit₁ =>
    cases unit₁ with
    | error len₁ =>
        simp only [unit, bind, Except.bind] at scans
        cases scans
        exact illFormed_of_codeUnit unit
    | ok pair =>
    rcases pair with ⟨code, len₁⟩
    simp only [unit, bind, Except.bind] at scans
    cases valid : charFromU32 code with
    | some c =>
        simp only [valid] at scans
        cases scans
    | none =>
        simp only [valid] at scans
        have invalid : ¬ code.isValidChar := by
          intro isValid
          simp [charFromU32, isValid] at valid
        have more : rest ≠ [] := by
          rintro rfl
          cases unit
          exact absurd (by decide) invalid
        rcases codeUnit_eq_ok more unit with ⟨taken, after, rfl, rfl, ⟨c, -, rfl⟩ | ⟨even, escapes⟩⟩
        · exact absurd c.valid invalid
        -- A surrogate on its own: no escape for a low one can follow, or it would have been read.
        have later : ∀ low codeLow after', after = low ++ after' → Escapes low codeLow →
            codeUnit (before ++ taken) after = .ok (.ok (codeLow, byteLen low)) := by
          rintro low codeLow after' rfl escapesLow
          exact codeUnit_of_escapes (escapes.evenBefore before) escapesLow after'
        have size : len = byteLen taken ∧ ∀ low codeLow after', after = low ++ after' →
            Escapes low codeLow → 0xD800 ≤ code → code ≤ 0xDBFF → 0xDC00 ≤ codeLow →
              ¬ codeLow ≤ 0xDFFF := by
          split at scans
          · rw [← List.append_assoc, ← byteLen_append, scanCodeUnit_append] at scans
            cases unit₂ : codeUnit (before ++ taken) after with
            | error e => simp [unit₂] at scans
            | ok unit₂' =>
            cases unit₂' with
            | error len₂ =>
                simp only [unit₂] at scans
                cases scans
                refine ⟨rfl, fun low codeLow after' same escapesLow => ?_⟩
                have read := later low codeLow after' same escapesLow
                rw [unit₂] at read
                cases read
            | ok pair₂ =>
            rcases pair₂ with ⟨code₂, len₂⟩
            simp only [unit₂] at scans
            split at scans
            · cases scans
            · rename_i notLow
              cases scans
              refine ⟨rfl, fun low codeLow after' same escapesLow _ _ least most => ?_⟩
              have read := later low codeLow after' same escapesLow
              rw [unit₂] at read
              cases read
              exact notLow (by simp [least, most])
          · rename_i notHigh
            cases scans
            exact ⟨rfl, fun _ _ _ _ _ least most => absurd (by simp [least, most]) notHigh⟩
        rcases size with ⟨rfl, alone⟩
        exact .surrogate even escapes invalid alone

/-- A scan reads a code unit, and a second one after the escape for a high surrogate. -/
theorem scanAt_of_units {unit : Except Nat (Nat × Nat)} (reads : codeUnit before rest = .ok unit)
    (second : ∀ taken after code, rest = taken ++ after → EvenBefore before → Escapes taken code →
      charFromU32 code = none → 0xD800 ≤ code ∧ code ≤ 0xDBFF →
      ∃ unit', codeUnit (before ++ taken) after = .ok unit') :
    ∃ scan, SourceReader.scanAt (before ++ rest) (byteLen before) = .ok scan := by
  rw [SourceReader.scanAt, scanCodeUnit_append, reads]
  cases unit with
  | error len => exact ⟨_, rfl⟩
  | ok pair =>
  rcases pair with ⟨code, len⟩
  simp only [bind, Except.bind]
  cases valid : charFromU32 code with
  | some c => exact ⟨_, rfl⟩
  | none =>
      have more : rest ≠ [] := by
        rintro rfl
        cases reads
        simp [charFromU32] at valid
      simp only
      split
      · rename_i high
        rcases codeUnit_eq_ok more reads with ⟨taken, after, rfl, rfl, ⟨c, -, rfl⟩ | ⟨even, escapes⟩⟩
        · rw [charFromU32_toNat] at valid
          cases valid
        rcases second taken after code rfl even escapes valid (by simpa using high) with
          ⟨unit₂, reads₂⟩
        rw [← List.append_assoc, ← byteLen_append, scanCodeUnit_append, reads₂]
        cases unit₂ with
        | error len₂ => exact ⟨_, rfl⟩
        | ok pair₂ =>
            simp only
            split <;> exact ⟨_, rfl⟩
      · exact ⟨_, rfl⟩

/-- A scan aborts only where the window of an escape cuts a character. -/
theorem scanAt_total {source : Text} (whole : ¬ CutsCharacter source)
    (split : source = before ++ rest) :
    ∃ scan, SourceReader.scanAt source (byteLen before) = .ok scan := by
  have units : ∀ before' rest', source = before' ++ rest' →
      ∃ unit, codeUnit before' rest' = .ok unit := by
    intro before' rest' split'
    cases unit : codeUnit before' rest' with
    | ok found => exact ⟨found, rfl⟩
    | error e => exact absurd ⟨before', rest', split', codeUnit_aborts_iff.mp ⟨e, unit⟩⟩ whole
  rcases units before rest split with ⟨unit, reads⟩
  rw [split]
  apply scanAt_of_units reads
  rintro taken after code rfl - - - -
  exact units (before ++ taken) after (by rw [split, List.append_assoc])

end

/-! ### Reader positions -/

namespace SourceReader

/-- One call of an operation that changes the reader. -/
inductive Calls : SourceReader → SourceReader → Prop where
  | newToken {r : SourceReader} : Calls r r.newToken
  | advance {r r' : SourceReader} {c : Char} : r.advance = .ok (c, r') → Calls r r'
  | advanceIfMatches {r r' : SourceReader} {expected : Char} {matched : Bool} :
      r.advanceIfMatches expected = .ok (matched, r') → Calls r r'
  | advanceIfMatchesStr {r r' : SourceReader} {expected : Text} {matched : Bool} :
      r.advanceIfMatchesStr expected = .ok (matched, r') → Calls r r'

/-- The readers that calls lead to from the start of the source. -/
inductive Reachable (source : Text) : SourceReader → Prop where
  | new : Reachable source (.new source)
  | call {r r' : SourceReader} : Reachable source r → r.Calls r' → Reachable source r'

/-- The cursor is at a character boundary, not past the end. -/
def AtBoundary (r : SourceReader) : Prop :=
  ∃ before rest, r.source = before ++ rest ∧ r.current = byteLen before

/-- The cursor is at a boundary, no scan at or after it aborts, and neither does `advance`. -/
structure Safe (r : SourceReader) : Prop where
  boundary : r.AtBoundary
  scans : ∃ scan, scanAt r.source r.current = .ok scan
  peeks : ∀ n, ∃ c, r.peekN n = .ok c
  advances : ∃ c r', r.advance = .ok (c, r')

/-- A scan takes the cursor from a boundary to a boundary. -/
theorem boundary_of_scan {before rest : Text} {scan : ScanResult}
    (scans : scanAt (before ++ rest) (byteLen before) = .ok scan) :
    ∃ taken after, rest = taken ++ after ∧
      byteLen before + scan.logicalLen = byteLen (before ++ taken) := by
  by_cases more : rest = []
  · subst more
    rw [scanAt, scanCodeUnit_append] at scans
    cases scans
    exact ⟨[], [], rfl, by simp [ScanResult.logicalLen]⟩
  · rcases scanAt_eq_ok more scans with ⟨lc, after, rfl, rfl, -⟩
    exact ⟨lc.spelling, after, rfl, by simp⟩

theorem AtBoundary.skip {r r' : SourceReader} {scan : ScanResult} (boundary : r.AtBoundary)
    (scans : scanAt r.source r.current = .ok scan) (skips : r.skip scan = .ok r') :
    r'.source = r.source ∧ r'.AtBoundary := by
  rcases boundary with ⟨before, rest, source, current⟩
  rcases skip_eq_ok skips with ⟨same, further⟩
  rw [source, current] at scans
  rcases boundary_of_scan scans with ⟨taken, after, rfl, stands⟩
  refine ⟨same, before ++ taken, after, ?_, ?_⟩
  · rw [same, source, List.append_assoc]
  · rw [further, current, stands]

/-- Every call keeps the cursor at a boundary. -/
theorem AtBoundary.calls {r r' : SourceReader} (boundary : r.AtBoundary) (calls : r.Calls r') :
    r'.source = r.source ∧ r'.AtBoundary := by
  cases calls with
  | newToken => exact ⟨rfl, boundary⟩
  | advance advances =>
      rw [SourceReader.advance] at advances
      cases scans : scanAt r.source r.current with
      | error e => simp [scans, bind, Except.bind] at advances
      | ok scan =>
          cases skips : r.skip scan with
          | error e => simp [scans, skips, bind, Except.bind] at advances
          | ok next =>
              simp only [scans, skips, bind, Except.bind] at advances
              cases advances
              exact boundary.skip scans skips
  | advanceIfMatches advances =>
      rename_i expected matched
      rw [SourceReader.advanceIfMatches] at advances
      cases scans : scanAt r.source r.current with
      | error e => simp [scans, bind, Except.bind] at advances
      | ok scan =>
          simp only [scans, bind, Except.bind] at advances
          by_cases sees : scan.logicalChar = expected
          · rw [if_pos sees] at advances
            cases skips : r.skip scan with
            | error e => simp [skips] at advances
            | ok next =>
                simp only [skips] at advances
                cases advances
                exact boundary.skip scans skips
          · rw [if_neg sees] at advances
            cases advances
            exact ⟨rfl, boundary⟩
  | advanceIfMatchesStr advances =>
      rename_i expected matched
      rcases boundary with ⟨before, rest, source, current⟩
      rw [SourceReader.advanceIfMatchesStr, isAt, source, current, sliceFrom?_append] at advances
      simp only [bind, Except.bind] at advances
      by_cases stands : expected.isPrefixOf rest = true
      · rw [if_pos stands] at advances
        cases advances
        rcases List.isPrefixOf_iff_prefix.mp stands with ⟨after, rfl⟩
        exact ⟨source.symm, before ++ expected, after, by simp, by simp⟩
      · rw [if_neg stands] at advances
        cases advances
        exact ⟨rfl, before, rest, source, current⟩

theorem Reachable.boundary {source : Text} {r : SourceReader} (reached : Reachable source r) :
    r.source = source ∧ r.AtBoundary := by
  induction reached with
  | new => exact ⟨rfl, [], source, rfl, rfl⟩
  | call _ calls ih =>
      rcases ih.2.calls calls with ⟨same, boundary⟩
      exact ⟨same.trans ih.1, boundary⟩

/-- Raw text up to any boundary can be stepped over. -/
theorem reachable_at (before rest : Text) :
    ∃ r, Reachable (before ++ rest) r ∧ r.source = before ++ rest ∧ r.current = byteLen before := by
  let start := SourceReader.new (before ++ rest)
  have stands : before.isPrefixOf (before ++ rest) = true :=
    List.isPrefixOf_iff_prefix.mpr ⟨rest, rfl⟩
  have steps : start.advanceIfMatchesStr before =
      .ok (true, { start with current := 0 + byteLen before }) := by
    simp only [start, SourceReader.advanceIfMatchesStr, isAt, SourceReader.new, sliceFrom?_zero,
      bind, Except.bind, stands, if_true]
    rfl
  exact ⟨_, .call .new (.advanceIfMatchesStr steps), rfl, Nat.zero_add _⟩

theorem advance_total {r : SourceReader} {scan : ScanResult}
    (scans : scanAt r.source r.current = .ok scan) :
    (∃ c r', r.advance = .ok (c, r')) ↔ ∃ r', r.skip scan = .ok r' := by
  rw [SourceReader.advance, scans]
  cases skips : r.skip scan with
  | error e => simp [skips, bind, Except.bind]
  | ok next =>
      have steps : (do
          let scan ← (Except.ok scan : Except Panic ScanResult)
          let r' ← r.skip scan
          return (scan.logicalChar, r')) = .ok (scan.logicalChar, next) := by
        simp only [bind, Except.bind, skips]
        rfl
      exact ⟨fun _ => ⟨next, rfl⟩, fun _ => ⟨_, _, steps⟩⟩

theorem charAfter_total {source before rest : Text} (whole : ¬ CutsCharacter source)
    (split : source = before ++ rest) (n : Nat) :
    ∃ c, charAfter source (byteLen before) n = .ok c := by
  induction n generalizing before rest with
  | zero =>
      rcases scanAt_total whole split with ⟨scan, scans⟩
      exact ⟨scan.logicalChar, by rw [charAfter, scans]; rfl⟩
  | succ n ih =>
      rcases scanAt_total whole split with ⟨scan, scans⟩
      have here := scans
      rw [split] at here
      rcases boundary_of_scan here with ⟨taken, after, rfl, stands⟩
      have split' : source = (before ++ taken) ++ after := by simp [split]
      rcases ih split' with ⟨c, found⟩
      by_cases stuck : scan.logicalLen = 0
      · exact ⟨'\x00', by rw [charAfter, scans]; simp only [bind, Except.bind, stuck]; rfl⟩
      · refine ⟨c, ?_⟩
        rw [charAfter, scans]
        simp only [bind, Except.bind, if_neg stuck, stands]
        exact found

/-- At a boundary nothing aborts, when no window cuts a character and every end fits. -/
theorem AtBoundary.safe {r : SourceReader} (boundary : r.AtBoundary)
    (whole : ¬ CutsCharacter r.source) (fits : ¬ WrapsRange r.source) : r.Safe := by
  rcases boundary with ⟨before, rest, source, current⟩
  rcases scanAt_total whole source with ⟨scan, scans⟩
  refine ⟨⟨before, rest, source, current⟩, ⟨scan, current ▸ scans⟩, ?_, ?_⟩
  · intro n
    rw [peekN, current]
    exact charAfter_total whole source n
  · apply (advance_total (current ▸ scans)).mpr
    apply skip_total.mpr
    rintro len rfl
    by_contra wraps
    have ill := (illFormed_iff (source ▸ scans)).mpr rfl
    exact fits ⟨before, rest, len, source, ill, by rw [← current]; omega⟩

/-- Draining the reader does not abort. -/
theorem AtBoundary.drain {r : SourceReader} (boundary : r.AtBoundary)
    (whole : ¬ CutsCharacter r.source) (fits : ¬ WrapsRange r.source) (n : Nat) :
    ∃ cs r', r.drain n = .ok (cs, r') := by
  induction n generalizing r with
  | zero => exact ⟨[], r, rfl⟩
  | succ n ih =>
      by_cases ended : r.isAtEnd = true
      · exact ⟨[], r, by rw [SourceReader.drain, if_pos ended]⟩
      · rcases (boundary.safe whole fits).advances with ⟨c, next, advances⟩
        rcases boundary.calls (.advance advances) with ⟨same, boundary'⟩
        rcases ih boundary' (same ▸ whole) (same ▸ fits) with ⟨cs, last, drains⟩
        refine ⟨c :: cs, last, ?_⟩
        rw [SourceReader.drain, if_neg ended]
        simp only [bind, Except.bind, advances, drains]
        rfl

end SourceReader

/-! ### The law -/

/-- The reader of a source aborts nowhere, and the source can be translated, exactly when no
escape's window cuts a character and no ill-formed escape has an end that does not fit. -/
theorem reader_total_iff (source : Text) :
    ((∀ r, SourceReader.Reachable source r → r.Safe) ∧
      ∃ chars, translateUnicodeEscapes source = .ok chars) ↔
    ¬ CutsCharacter source ∧ ¬ WrapsRange source := by
  constructor
  · rintro ⟨safe, -⟩
    constructor
    · rintro ⟨before, rest, rfl, cut⟩
      rcases SourceReader.reachable_at before rest with ⟨r, reached, source, current⟩
      rcases (safe r reached).scans with ⟨scan, scans⟩
      rcases codeUnit_aborts_iff.mpr cut with ⟨e, aborts⟩
      rw [source, current, SourceReader.scanAt, scanCodeUnit_append, aborts] at scans
      cases scans
    · rintro ⟨before, rest, len, rfl, ill, wraps⟩
      rcases SourceReader.reachable_at before rest with ⟨r, reached, source, current⟩
      rcases (safe r reached).scans with ⟨scan, scans⟩
      have skips := (SourceReader.advance_total scans).mp (safe r reached).advances
      rw [source, current] at scans
      have fits := SourceReader.skip_total.mp skips len ((illFormed_iff scans).mp ill)
      rw [current] at fits
      omega
  · rintro ⟨whole, fits⟩
    constructor
    · intro r reached
      rcases reached.boundary with ⟨rfl, boundary⟩
      exact boundary.safe whole fits
    · rw [translateUnicodeEscapes]
      split
      · have start : (SourceReader.new source).AtBoundary := ⟨[], source, rfl, rfl⟩
        rcases start.drain whole fits (byteLen source) with ⟨cs, last, drains⟩
        exact ⟨cs, by rw [drains]; rfl⟩
      · exact ⟨source, rfl⟩

/-- The last of the four bytes is the first of the two that encode `é`. -/
theorem reader_aborts :
    ¬ ((∀ r, SourceReader.Reachable ['\\', 'u', '1', '2', '3', 'é'] r → r.Safe) ∧
      ∃ chars, translateUnicodeEscapes ['\\', 'u', '1', '2', '3', 'é'] = .ok chars) := by
  rintro ⟨-, chars, translates⟩
  have aborts : translateUnicodeEscapes ['\\', 'u', '1', '2', '3', 'é'] = .error .badSlice := by
    decide
  rw [aborts] at translates
  cases translates

end CaffeineLs.JavaSyntax
