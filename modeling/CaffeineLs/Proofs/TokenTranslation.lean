/-
Module: CaffeineLs.Proofs.TokenTranslation
Purpose: The text of a token translates on its own to the characters the lexer was given while it
  scanned the token, exactly when no ill-formed escape in it lies across a multiple of 4 GiB.
Trusted boundary: none
Main exports: Emits, SourceReader.Delivers, token_translates_iff
-/
import CaffeineLs.Proofs.EscapeScanning
import CaffeineLs.Proofs.JavaLexemes

namespace CaffeineLs.JavaSyntax

open Imperative
open SourceText

/-! ### Tokens and the characters delivered for them -/

/-- Scanning the source emits the token, while the reader goes from `first` to `last`. -/
inductive Emits (U : UnicodeTables) (source : Text) : Token → SourceReader → SourceReader → Prop where
  | scanned {token : Token} {l l' : Lexer} : LoopHead U source l → l.reader.isAtEnd = false →
      Returns machine (scanNextToken U) l () l' → l'.tokens = l.tokens ++ [token] →
      Emits U source token l.reader l'.reader
  | ended {token : Token} {l l' : Lexer} : LoopHead U source l → l.reader.isAtEnd = true →
      Returns machine scanEpilogue l () l' → l'.tokens = l.tokens ++ [token] →
      Emits U source token l.reader l'.reader

/-- The characters that `advance` delivers up to byte `last`. -/
inductive SourceReader.Delivers (last : Nat) : SourceReader → Text → Prop where
  | done {r : SourceReader} : r.current = last → Delivers last r []
  | advance {r r' : SourceReader} {c : Char} {chars : Text} : r.current < last →
      r.advance = .ok (c, r') → Delivers last r' chars → Delivers last r (c :: chars)

/-- What is delivered is determined by where the reader stands. -/
theorem SourceReader.Delivers.unique {last : Nat} {r : SourceReader} {chars chars' : Text}
    (delivers : r.Delivers last chars) (delivers' : r.Delivers last chars') : chars = chars' := by
  induction delivers generalizing chars' with
  | done here =>
      cases delivers' with
      | done => rfl
      | advance short => omega
  | advance short advances _ ih =>
      cases delivers' with
      | done here => omega
      | advance _ advances' later =>
          cases advances.symm.trans advances'
          exact congrArg _ (ih later)

/-- The end of an ill-formed escape in the text, counted from the text's start, does not fit in 32
bits. -/
def Overflows (text : Text) : Prop := ∃ chars, decode text = some chars ∧ ¬ EscapesFit 0 chars

/-! ### Reading a part of a text on its own -/

section

variable {before before' rest after : Text}

theorem evenBefore_backslash : EvenBefore (before ++ ['\\']) ↔ ¬ EvenBefore before := by
  simp only [EvenBefore, trailingBackslashes, List.reverse_append, List.reverse_singleton,
    List.singleton_append, List.takeWhile_cons, decide_true, if_true, List.length_cons]
  omega

/-- Where an escape can start depends on the same text after texts of the same parity. -/
theorem evenBefore_append_congr (same : EvenBefore before' ↔ EvenBefore before) (text : Text) :
    EvenBefore (before' ++ text) ↔ EvenBefore (before ++ text) := by
  induction text generalizing before before' with
  | nil => simpa using same
  | cons c cs ih =>
      have next : EvenBefore (before' ++ [c]) ↔ EvenBefore (before ++ [c]) := by
        by_cases backslash : c = '\\'
        · rw [backslash, evenBefore_backslash, evenBefore_backslash, same]
        · exact iff_of_true (evenBefore_snoc backslash) (evenBefore_snoc backslash)
      simpa using ih next

/-- A window that cuts a character on its own cuts it in every longer text. -/
theorem CutAt.ahead (cut : CutAt before' rest) (even : EvenBefore before' → EvenBefore before) :
    CutAt before (rest ++ after) := by
  rcases cut with ⟨k, digits, rfl, even', start, four, cut⟩
  have some : digits ≠ [] := by
    rintro rfl
    simp at four
  refine ⟨k, digits ++ after, by simp, even even', ?_, ?_, ?_⟩
  · rcases List.exists_cons_of_ne_nil some with ⟨d, ds, rfl⟩
    simpa using start
  · rw [byteLen_append]
    omega
  · intro taken after' same whole
    rcases List.append_eq_append_iff.mp same with ⟨extra, rfl, -⟩ | ⟨extra, rfl, -⟩
    · have nothing : extra = [] := by
        apply byteLen_eq_zero.mp
        have total := byteLen_append digits extra
        omega
      subst nothing
      exact cut digits [] (by simp) (by simpa using whole)
    · exact cut taken extra rfl whole

/-- A code unit that can be read can be read without the text that follows. -/
theorem codeUnit_ahead {unit : Except Nat (Nat × Nat)}
    (even : EvenBefore before' → EvenBefore before)
    (reads : codeUnit before (rest ++ after) = .ok unit) :
    ∃ unit', codeUnit before' rest = .ok unit' := by
  cases alone : codeUnit before' rest with
  | ok unit' => exact ⟨unit', rfl⟩
  | error e =>
      have cut : CutAt before (rest ++ after) := (codeUnit_aborts_iff.mp ⟨e, alone⟩).ahead even
      rcases codeUnit_aborts_iff.mpr cut with ⟨e', aborts⟩
      rw [reads] at aborts
      cases aborts

/-- A scan that succeeds succeeds without the text that follows. -/
theorem scanAt_ahead {scan : ScanResult} (even : EvenBefore before' ↔ EvenBefore before)
    (scans : SourceReader.scanAt (before ++ (rest ++ after)) (byteLen before) = .ok scan) :
    ∃ scan', SourceReader.scanAt (before' ++ rest) (byteLen before') = .ok scan' := by
  rw [SourceReader.scanAt, scanCodeUnit_append] at scans
  cases unit : codeUnit before (rest ++ after) with
  | error e => simp [unit, bind, Except.bind] at scans
  | ok unit₁ =>
  rcases codeUnit_ahead even.mp unit with ⟨alone, reads⟩
  apply scanAt_of_units reads
  rintro taken after' code rfl even' escapes invalid high
  have context := codeUnit_of_escapes (even.mp even') escapes (after' ++ after)
  rw [← List.append_assoc, unit] at context
  cases context
  simp only [unit, bind, Except.bind, invalid] at scans
  rw [if_pos (by simpa using high), List.append_assoc, ← List.append_assoc, ← byteLen_append,
    scanCodeUnit_append] at scans
  cases second : codeUnit (before ++ taken) (after' ++ after) with
  | error e => simp [second] at scans
  | ok unit₂ =>
      exact codeUnit_ahead (fun _ => escapes.evenBefore before) second

/-- A character is read on its own, as itself or as the backslash it is anyway. -/
theorem LogicalChar.Reads.alone {lc : LogicalChar} (even : EvenBefore before' ↔ EvenBefore before)
    (reads : lc.Reads before (rest ++ after)) :
    ∃ lc' : LogicalChar, lc'.Reads before' rest ∧ lc'.spelling = lc.spelling ∧ lc'.char = lc.char := by
  -- The characters spelled as a single backslash.
  have backslash : lc.spelling = ['\\'] → lc.char = '\\' → lc.scan.logicalLen = 1 →
      ∃ lc' : LogicalChar, lc'.Reads before' rest ∧ lc'.spelling = lc.spelling ∧
        lc'.char = lc.char := by
    intro spelling char len
    have context := reads.scans
    rw [← List.append_assoc lc.spelling] at context
    rcases scanAt_ahead even context with ⟨scan', scans⟩
    have some : lc.spelling ++ rest ≠ [] := by simp [spelling]
    rcases scanAt_eq_ok some scans with ⟨lc', after', split, rfl, reads'⟩
    rw [spelling] at split ⊢
    rw [char]
    cases lc' with
    | plain c =>
        obtain ⟨rfl, rfl⟩ : c = '\\' ∧ after' = rest := by
          simpa [LogicalChar.spelling, eq_comm] using split
        exact ⟨_, reads', rfl, rfl⟩
    | illFormed len' =>
        obtain rfl : after' = rest := by simpa [LogicalChar.spelling, eq_comm] using split
        exact ⟨_, reads', rfl, rfl⟩
    | escape c tail =>
        rcases reads'.escapes c tail rfl with ⟨even', spells⟩
        rcases spells.exists_tail with ⟨tail', same, long⟩
        have inside : lc.spelling ++ (rest ++ after) = ('\\' :: tail) ++ (after' ++ after) := by
          rw [spelling, ← List.append_assoc, split, List.append_assoc]
          rfl
        have scans' := reads.scans
        rw [inside, scanAt_of_spells (even.mp even') spells] at scans'
        have scanned := Except.ok.inj scans'
        rw [← scanned] at len
        cases same
        have := byteLen_pos_of_ne_nil long
        simp [ScanResult.logicalLen, show Char.utf8Size '\\' = 1 by decide] at len
        omega
  cases lc with
  | plain c =>
      by_cases isBackslash : c = '\\'
      · subst isBackslash
        exact backslash rfl rfl (by decide)
      · exact ⟨.plain c, reads_plain isBackslash, rfl, rfl⟩
  | illFormed len => exact backslash rfl rfl rfl
  | escape c tail =>
      rcases reads.escapes c tail rfl with ⟨even', spells⟩
      have here := even.mpr even'
      refine ⟨.escape c tail, ⟨scanAt_of_spells here spells, ?_, ?_⟩, rfl, rfl⟩
      · intro len same
        cases same
      · intro c' tail' same
        cases same
        exact ⟨here, spells⟩

/-- After `before`, the text of the characters decodes to characters that look the same. -/
def DecodesAlike (before : Text) (chars : List LogicalChar) : Prop :=
  ∃ chars', DecodedAfter before chars' ∧ spelled chars' = spelled chars ∧
    charsOf chars' = charsOf chars

theorem DecodesAlike.cons {lc lc' : LogicalChar} {chars : List LogicalChar}
    (reads : lc'.Reads before (spelled chars)) (spelling : lc'.spelling = lc.spelling)
    (char : lc'.char = lc.char) (later : DecodesAlike (before ++ lc.spelling) chars) :
    DecodesAlike before (lc :: chars) := by
  rcases later with ⟨chars', decoded, text, alike⟩
  refine ⟨lc' :: chars', ⟨text ▸ reads, spelling ▸ decoded⟩, ?_, ?_⟩
  · rw [spelled_cons, spelled_cons, spelling, text]
  · rw [charsOf_cons, charsOf_cons, char, alike]

/-- A part of a decoded text decodes alike after a text of the same parity. -/
theorem DecodedAfter.alone {ys zs : List LogicalChar}
    (even : EvenBefore before' ↔ EvenBefore before) (decoded : DecodedAfter before (ys ++ zs)) :
    DecodesAlike before' ys := by
  induction ys generalizing before before' with
  | nil => exact ⟨[], trivial, rfl, rfl⟩
  | cons lc ys ih =>
      have first : lc.Reads before (spelled ys ++ spelled zs) := spelled_append ys zs ▸ decoded.1
      rcases first.alone even with ⟨lc', reads, spelling, char⟩
      exact .cons reads spelling char (ih (evenBefore_append_congr even lc.spelling) decoded.2)

/-- A part of a decoded text decodes alike on its own, when it does not go on after a backslash it
starts with. -/
theorem decode_part {xs ys zs : List LogicalChar} (decoded : Decoded (xs ++ (ys ++ zs)))
    (single : ∀ lc others, ys = lc :: others → lc.char = '\\' → others = []) :
    DecodesAlike [] ys := by
  have context : DecodedAfter (spelled xs) (ys ++ zs) := decoded.drop
  have nil : EvenBefore [] := evenBefore_nil
  have backslash : DecodesAlike [] [.plain '\\'] := by
    refine ⟨[.plain '\\'], ⟨⟨rfl, ?_, ?_⟩, trivial⟩, rfl, rfl⟩
    · intro len same
      cases same
    · intro c tail same
      cases same
  cases ys with
  | nil => exact ⟨[], trivial, rfl, rfl⟩
  | cons lc ys =>
      cases lc with
      | escape c tail =>
          -- An escape stands after an even number of backslashes, like the start of a text.
          have even := (context.1.escapes c tail rfl).1
          exact context.alone (iff_of_true nil even)
      | illFormed len =>
          obtain rfl := single _ ys rfl rfl
          exact backslash
      | plain c =>
          by_cases isBackslash : c = '\\'
          · subst isBackslash
            obtain rfl := single _ ys rfl rfl
            exact backslash
          · have after : ∀ text, EvenBefore (text ++ [c]) := fun text => evenBefore_snoc isBackslash
            exact .cons (reads_plain isBackslash) rfl rfl
              (DecodedAfter.alone (iff_of_true (after []) (after (spelled xs))) context.2)

end

/-! ### What a run has read -/

namespace LogicalLexer

/-- The escapes read so far were recorded, so their ends fit. -/
def Recorded (t : LogicalLexer) : Prop := EscapesFit 0 t.done

/-- Every operation records what it reads. -/
theorem Recorded.exec {t t' : LogicalLexer} {β : Type} {o : LexOp β} {b : β}
    (recorded : t.Recorded) (steps : logicalMachine.exec o t = .ok (b, t')) : t'.Recorded := by
  cases acts_of_exec steps with
  | @reads lc cs escapeErrors rest records =>
      have done : (t.move 1 escapeErrors).done = t.done ++ [lc] := by
        simp [LogicalLexer.done, move, rest]
      rw [Recorded, done, escapesFit_append, Nat.zero_add]
      refine ⟨recorded, ?_, trivial⟩
      rintro len rfl
      by_contra wraps
      have range : UnicodeEscapeError.new t.current len = .error .badRange := if_neg wraps
      rw [recordEscape, range] at records
      cases records
  | @matched expected stands =>
      have done : (t.move expected.text.length t.escapeErrors).done =
          t.done ++ expected.text.map LogicalChar.plain := by
        rw [← take_of_isAtRaw stands, LogicalLexer.done, LogicalLexer.done, List.append_assoc]
        rfl
      rw [Recorded, done, escapesFit_append]
      exact ⟨recorded, escapesFit_of_formed (by simp)⟩
  | begins =>
      have done : t.newToken.done = t.done := by simp [LogicalLexer.newToken, LogicalLexer.done]
      rwa [Recorded, done]
  | stays | emits | reports | switches => exact recorded

theorem Recorded.returns {t t' : LogicalLexer} {α : Type} {x : Lex α} {a : α}
    (recorded : t.Recorded) (returns : Returns logicalMachine x t a t') : t'.Recorded :=
  returns.keeps Recorded (fun _ _ _ _ kept => kept.exec) recorded

/-- The reader delivers the characters ahead, up to where it has recorded them. -/
theorem delivers_of_decoded {before : Text} {ys zs : List LogicalChar} {r : SourceReader}
    (source : r.source = before ++ spelled (ys ++ zs)) (current : r.current = byteLen before)
    (decoded : DecodedAfter before (ys ++ zs)) (fits : EscapesFit (byteLen before) ys) :
    r.Delivers (byteLen (before ++ spelled ys)) (charsOf ys) := by
  induction ys generalizing before r with
  | nil => exact .done (by simp [current])
  | cons lc ys ih =>
      have some := byteLen_pos_of_ne_nil lc.spelling_ne_nil
      have scans : SourceReader.scanAt r.source r.current = .ok lc.scan := by
        rw [source, current]
        exact decoded.1.scans
      obtain ⟨r', skips⟩ : ∃ r', r.skip lc.scan = .ok r' := by
        apply SourceReader.skip_total.mpr
        intro len ill
        rw [current]
        apply fits.1 len
        cases lc <;> cases ill
        rfl
      have advances : r.advance = .ok (lc.char, r') := by
        rw [SourceReader.advance, scans]
        simp only [bind, Except.bind, skips, LogicalChar.scan_logicalChar]
        rfl
      rcases SourceReader.skip_eq_ok skips with ⟨source', current'⟩
      have further : r'.current = byteLen (before ++ lc.spelling) := by
        rw [current', current, LogicalChar.scan_logicalLen, byteLen_append]
      have whole : r'.source = before ++ lc.spelling ++ spelled (ys ++ zs) := by
        rw [source', source, List.append_assoc]
        rfl
      have later := ih whole further decoded.2 (byteLen_append before _ ▸ fits.2)
      rw [spelled_cons, ← List.append_assoc]
      refine .advance ?_ advances later
      rw [current]
      simp only [byteLen_append]
      omega

end LogicalLexer

section Tokens

variable {U : UnicodeTables} {chars : List LogicalChar} {decoded : Decoded chars}

theorem LogicalHead.recorded {t : LogicalLexer} (head : LogicalHead U chars decoded t) :
    t.Recorded := by
  induction head with
  | first prologue =>
      have start : (LogicalLexer.new chars decoded).Recorded := trivial
      exact start.returns prologue
  | next _ _ step ih => exact ih.returns step

/-- A token that starts with a backslash is that backslash. -/
theorem scanNextToken_backslash {t : LogicalLexer} {lc : LogicalChar} {cs : List LogicalChar}
    (rest : t.rest = lc :: cs) (backslash : lc.char = '\\') :
    Wp logicalMachine (Wraps t.size) (scanNextToken U) (fun _ t' => t'.rest = cs) t := by
  have ahead : t.newToken.rest = lc :: cs := rest
  have noDigit : ¬ U.isNumeric '\\' = true := by
    rw [U.isNumeric_ascii '\\' (by decide)]
    decide
  have noStart : isJavaIdentifierStart U '\\' = false := by
    have category := U.generalCategory_ascii '\\' (by decide)
    rw [show asciiCategory '\\' = .otherPunctuation by decide] at category
    simp [isJavaIdentifierStart, category]
  have unknown : dispatchConsumed U '\\' = (do
      completeToken .unknown
      reportError (.unexpectedChar '\\')) := by
    simp [dispatchConsumed, noStart, isJavaWhitespace]
  have size : t.newToken.size = t.size := by
    simp [LogicalLexer.size, LogicalLexer.newToken]
  rw [← size]
  apply (wp_perform (b := ()) rfl).mpr
  apply wp_peekN.mpr
  rw [ahead, LogicalLexer.look_cons_zero, backslash]
  rw [if_neg (by decide), if_neg (by decide), if_neg (by decide), if_neg noDigit]
  apply wp_advance ahead
  intro t₁ _ _ rest₁ _ _
  rw [backslash, unknown]
  apply (wp_perform (b := ()) rfl).mpr
  apply (idle_reportError (t₁.completeToken .unknown)).mono
  rintro _ t₂ ⟨_, _, rest₂, _⟩
  exact rest₂.trans rest₁

/-- The characters that a scanning step consumes were delivered for it. -/
theorem delivers_step {t t' : LogicalLexer} (head : LogicalHead U chars decoded t)
    (step : Returns logicalMachine (scanNextToken U) t () t') {consumed : List LogicalChar}
    (rest : t.rest = consumed ++ t'.rest) (done : t'.done = t.done ++ consumed) :
    t.concrete.reader.Delivers t'.concrete.reader.current (charsOf consumed) := by
  have whole : Decoded (t.done ++ (consumed ++ t'.rest)) := by
    have all := t.decoded
    rwa [← List.append_assoc, rest] at all
  have fits : EscapesFit 0 (t.done ++ consumed) := done ▸ head.recorded.returns step
  rw [escapesFit_append, Nat.zero_add] at fits
  have source : t.concrete.reader.source = spelled t.done ++ spelled (consumed ++ t'.rest) := by
    rw [t.concrete_source, rest]
  have delivers := LogicalLexer.delivers_of_decoded source t.concrete_current whole.drop fits.2
  rwa [← spelled_append, ← done] at delivers

/-- What a scanning step emits and delivers. -/
theorem emits_scanned {t t' : LogicalLexer} {token : Token} (head : LogicalHead U chars decoded t)
    (more : t.rest ≠ []) (step : Returns logicalMachine (scanNextToken U) t () t')
    (tokens : t'.tokens = t.tokens ++ [token]) :
    ∃ ys, DecodesAlike [] ys ∧ token.lexeme = spelled ys ∧
      t.concrete.reader.Delivers t'.concrete.reader.current (charsOf ys) := by
  obtain ⟨consumed, some, rest, done, cover⟩ := (scanNextToken_consumes more).of_returns step
  split at cover
  · rw [cover] at tokens
    simp at tokens
  · rcases cover with ⟨tokenType, cover⟩
    rw [cover] at tokens
    obtain rfl : Token.new tokenType (spelled consumed) t.current = token := by simpa using tokens
    have whole : Decoded (t.done ++ (consumed ++ t'.rest)) := by
      have all := t.decoded
      rwa [← List.append_assoc, rest] at all
    refine ⟨consumed, decode_part whole ?_, rfl, ?_⟩
    · rintro lc others rfl backslash
      have stands := (scanNextToken_backslash rest backslash).of_returns step
      simpa using stands
    · exact delivers_step head step rest done

end Tokens

/-! ### The law -/

/-- Whenever the token is emitted, its text translates to what `advance` delivered for it. -/
def TranslatesAlone (U : UnicodeTables) (source : Text) (token : Token) : Prop :=
  ∀ first last, Emits U source token first last →
    ∃ chars, first.Delivers last.current chars ∧ translateUnicodeEscapes token.lexeme = .ok chars

theorem translates_of_decodesAlike {ys : List LogicalChar} (alike : DecodesAlike [] ys)
    {out : Text} : translateUnicodeEscapes (spelled ys) = .ok out ↔
      ¬ Overflows (spelled ys) ∧ out = charsOf ys := by
  rcases alike with ⟨ys', decoded, text, chars⟩
  have decodes : decode (spelled ys) = some ys' := decode_eq_some.mpr ⟨decoded, text⟩
  have fits : ¬ Overflows (spelled ys) ↔ EscapesFit 0 ys' := by
    rw [Overflows, decodes]
    simp
  rw [fits, ← text, translate_decoded decoded, ← chars]
  rfl

section

variable {U : UnicodeTables} {chars : List LogicalChar} {decoded : Decoded chars}

theorem not_atEnd {t : LogicalLexer} : t.concrete.reader.isAtEnd = false ↔ t.rest ≠ [] := by
  rw [t.concrete_isAtEnd]
  simp

/-- The text of an emitted token decodes alike on its own, and the characters were delivered. -/
theorem Emits.decodesAlike (decoded : Decoded chars) {token : Token} {first last : SourceReader}
    (emits : Emits U (spelled chars) token first last) :
    ∃ ys, DecodesAlike [] ys ∧ token.lexeme = spelled ys ∧
      first.Delivers last.current (charsOf ys) := by
  cases emits with
  | scanned head more step tokens =>
      rcases (loopHead_image decoded).mp head with ⟨t, head', rfl⟩
      rcases machine_image.returns.mp step with ⟨t', step', rfl⟩
      exact emits_scanned head' (not_atEnd.mp more) step' tokens
  | ended head atEnd step tokens =>
      rcases (loopHead_image decoded).mp head with ⟨t, head', rfl⟩
      rcases machine_image.returns.mp step with ⟨t', step', rfl⟩
      rcases (scanEpilogue_wp t).of_returns step' with ⟨tokens', done⟩
      have here : t.concrete.reader.current = t'.concrete.reader.current := by
        rw [t.concrete_current, t'.concrete_current, done]
      have same : t.tokens ++ [Token.new .eof [] t.current] = t.tokens ++ [token] :=
        tokens'.symm.trans tokens
      obtain rfl : Token.new .eof [] t.current = token := by simpa using same
      exact ⟨[], ⟨[], trivial, rfl, rfl⟩, rfl, .done here⟩

/-- Every token of a loop head was emitted. -/
theorem LogicalHead.emitted {t : LogicalLexer} (head : LogicalHead U chars decoded t)
    {token : Token} (inside : token ∈ t.tokens) :
    ∃ first last, Emits U (spelled chars) token first last := by
  induction head with
  | first prologue =>
      rw [((scanPrologue_wp decoded).of_returns prologue).2.1] at inside
      simp at inside
  | next head goes step ih =>
      rename_i t t'
      have more := LogicalLexer.rest_ne_nil goes
      obtain ⟨consumed, -, -, -, cover⟩ := (scanNextToken_consumes more).of_returns step
      split at cover
      · exact ih (cover ▸ inside)
      · rcases cover with ⟨tokenType, cover⟩
        rw [cover, List.mem_append, List.mem_singleton] at inside
        rcases inside with earlier | rfl
        · exact ih earlier
        · exact ⟨_, _, .scanned ((loopHead_image decoded).mpr ⟨t, head, rfl⟩) (not_atEnd.mpr more)
            (machine_image.returns.mpr ⟨t', step, rfl⟩) cover⟩

end

/-- Every token that `lex` returns was emitted by its scan. -/
theorem emitted_of_lex {U : UnicodeTables} {fuel : Nat} {source : Text} {tokens : List Token}
    {errors : List LexicalError} {token : Token} (lexed : lex U fuel source = some (tokens, errors))
    (inside : token ∈ tokens) : ∃ first last, Emits U source token first last := by
  rcases lex_eq_some.mp lexed with ⟨final, runs, rfl, rfl⟩
  have returns : Returns machine (scanTokens U) (.new source) () final := ⟨fuel, runs⟩
  rcases decodes_of_returns returns with ⟨chars, decodes⟩
  rcases decode_eq_some.mp decodes with ⟨decoded, rfl⟩
  rw [← LogicalLexer.concrete_new decoded] at returns
  rcases machine_image.returns.mp returns with ⟨t, returns', rfl⟩
  rcases scanTokens_ends returns' with ⟨-, last, -, -, head, done, epilogue, tokens⟩
  change token ∈ t.tokens at inside
  rw [tokens, List.mem_append, List.mem_singleton] at inside
  rcases inside with earlier | rfl
  · exact head.emitted earlier
  · refine ⟨_, _, .ended ((loopHead_image decoded).mpr ⟨last, head, rfl⟩) ?_
      (machine_image.returns.mpr ⟨t, epilogue, rfl⟩) tokens⟩
    have ended : last.rest = [] := by
      have whole := head.reads.1
      rw [done] at whole
      simpa using whole
    rw [last.concrete_isAtEnd, ended]
    rfl

/-- The text of a returned token translates to what was delivered for it, unless it overflows. -/
theorem translatesAlone_iff {U : UnicodeTables} {fuel : Nat} {source : Text} {tokens : List Token}
    {errors : List LexicalError} {token : Token} (lexed : lex U fuel source = some (tokens, errors))
    (inside : token ∈ tokens) : TranslatesAlone U source token ↔ ¬ Overflows token.lexeme := by
  rcases lex_eq_some.mp lexed with ⟨final, runs, -, -⟩
  rcases decodes_of_returns ⟨fuel, runs⟩ with ⟨chars, decodes⟩
  rcases decode_eq_some.mp decodes with ⟨decoded, rfl⟩
  constructor
  · intro alone
    rcases emitted_of_lex lexed inside with ⟨first, last, emits⟩
    rcases alone first last emits with ⟨out, -, translates⟩
    rcases emits.decodesAlike decoded with ⟨ys, alike, lexeme, -⟩
    rw [lexeme] at translates ⊢
    exact ((translates_of_decodesAlike alike).mp translates).1
  · intro fits first last emits
    rcases emits.decodesAlike decoded with ⟨ys, alike, lexeme, delivers⟩
    rw [lexeme] at fits ⊢
    exact ⟨charsOf ys, delivers, (translates_of_decodesAlike alike).mpr ⟨fits, rfl⟩⟩

/-- A token that `lex` returns was emitted by its scan, and its text translates on its own to what
was delivered for it exactly when no ill-formed escape in it has an end, counted from the token's
start, that does not fit in 32 bits. -/
theorem token_translates_iff {U : UnicodeTables} {fuel : Nat} {source : Text} {tokens : List Token}
    {errors : List LexicalError} {token : Token} (lexed : lex U fuel source = some (tokens, errors))
    (inside : token ∈ tokens) :
    (∃ first last, Emits U source token first last) ∧
      (TranslatesAlone U source token ↔ ¬ Overflows token.lexeme) :=
  ⟨emitted_of_lex lexed inside, translatesAlone_iff lexed inside⟩

/-- An identifier on its own. -/
theorem identifier_translates :
    (∃ first last, Emits latin1 ['a'] ⟨.identifier, ['a'], 0⟩ first last) ∧
      (TranslatesAlone latin1 ['a'] ⟨.identifier, ['a'], 0⟩ ↔ ¬ Overflows ['a']) := by
  have lexed : lex latin1 6 ['a'] = some ([⟨.identifier, ['a'], 0⟩, ⟨.eof, [], 1⟩], []) := by decide
  exact token_translates_iff lexed (by simp)

/-! ### A comment of 4 GiB -/

section Comment

variable {α β : Type} {bad : Panic → Prop} {t : LogicalLexer} {lc : LogicalChar}
  {cs : List LogicalChar}

/-- An operation that consumes a character whose end fits. -/
theorem wp_take_fits {o : LexOp β} {b : β} {k : β → Lex α} {ends : α → LogicalLexer → Prop}
    (exec : logicalMachine.exec o t = t.take.map fun t' => (b, t')) (rest : t.rest = lc :: cs)
    (fits : ∀ len, lc = .illFormed len → u32 t.current + u32 len < 2 ^ 32)
    (others : ∀ t', t'.before = t.before → t'.lexeme = t.lexeme ++ [lc] → t'.rest = cs →
      t'.tokens = t.tokens → t'.templates = t.templates → Wp logicalMachine bad (k b) ends t') :
    Wp logicalMachine bad (.op o k) ends t := by
  obtain ⟨escapeErrors, recorded⟩ : ∃ escapeErrors, t.recordEscape lc = .ok escapeErrors := by
    cases lc with
    | plain c => exact ⟨_, rfl⟩
    | escape c tail => exact ⟨_, rfl⟩
    | illFormed len =>
        have range : UnicodeEscapeError.new t.current len =
            .ok { first := u32 t.current, last := u32 t.current + u32 len } := if_pos (fits len rfl)
        exact ⟨_, by rw [LogicalLexer.recordEscape, range]; rfl⟩
  rw [LogicalLexer.take_eq rest, recorded] at exec
  apply (wp_op exec).mpr
  apply others (t.move 1 escapeErrors) rfl _ _ rfl rfl
  · simp [LogicalLexer.move, rest]
  · simp [LogicalLexer.move, rest]

theorem wp_advance_plain {k : Char → Lex α} {ends : α → LogicalLexer → Prop} {c : Char}
    (rest : t.rest = .plain c :: cs)
    (others : ∀ t', t'.before = t.before → t'.lexeme = t.lexeme ++ [.plain c] → t'.rest = cs →
      t'.tokens = t.tokens → t'.templates = t.templates → Wp logicalMachine bad (k c) ends t') :
    Wp logicalMachine bad (advance >>= k) ends t := by
  apply wp_take_fits _ rest (by simp) others
  change Except.map _ _ = _
  rw [rest]
  rfl

theorem wp_matches_plain {k : Bool → Lex α} {ends : α → LogicalLexer → Prop} {c : Char}
    (rest : t.rest = .plain c :: cs)
    (others : ∀ t', t'.before = t.before → t'.lexeme = t.lexeme ++ [.plain c] → t'.rest = cs →
      t'.tokens = t.tokens → t'.templates = t.templates → Wp logicalMachine bad (k true) ends t') :
    Wp logicalMachine bad (advanceIfMatches c >>= k) ends t := by
  apply wp_take_fits _ rest (by simp) others
  apply if_pos
  rw [rest]
  rfl

theorem wp_matches_other {k : Bool → Lex α} {ends : α → LogicalLexer → Prop} {c : Char}
    (other : LogicalLexer.look t.rest 0 ≠ c) (others : Wp logicalMachine bad (k false) ends t) :
    Wp logicalMachine bad (advanceIfMatches c >>= k) ends t :=
  (wp_perform (if_neg other)).mpr others

/-- What `handleSlash` does in a comment up to the end of the line. -/
def commentLine : Lex Unit :=
  Prog.whileDo
    (do
      let c ← peek
      if c ≠ '\n' && c ≠ '\r' then
        return !(← isAtEnd)
      else
        return false)
    (do
      let _ ← advance)

/-- A line without an end is read to the end of the source. -/
theorem commentLine_wp (line : ∀ lc ∈ t.rest, lc.char ≠ '\n' ∧ lc.char ≠ '\r')
    (fits : EscapesFit t.current t.rest) :
    Wp logicalMachine bad commentLine (fun _ t' => t'.before = t.before ∧
      t'.lexeme = t.lexeme ++ t.rest ∧ t'.rest = [] ∧ t'.tokens = t.tokens ∧
        t'.templates = t.templates) t := by
  apply Wp.whileDo (fun t' => t'.before = t.before ∧ t'.lexeme ++ t'.rest = t.lexeme ++ t.rest ∧
    (∀ lc ∈ t'.rest, lc.char ≠ '\n' ∧ lc.char ≠ '\r') ∧ EscapesFit t'.current t'.rest ∧
    t'.tokens = t.tokens ∧ t'.templates = t.templates) (fun t' => t'.rest.length) _
    ⟨rfl, rfl, line, fits, rfl, rfl⟩
  intro t' ⟨before, whole, line', fits', tokens, templates⟩
  apply wp_peekN.mpr
  cases rest : t'.rest with
  | nil =>
      rw [rest, List.append_nil] at whole
      rw [LogicalLexer.look_nil, if_pos (by decide)]
      apply wp_isAtEnd.mpr
      apply wp_pure.mpr
      rw [rest]
      exact ⟨before, whole, rfl, tokens, templates⟩
  | cons lc cs =>
      have here := line' lc (by simp [rest])
      rw [LogicalLexer.look_cons_zero, if_pos (by simp [here])]
      apply wp_isAtEnd.mpr
      apply wp_pure.mpr
      rw [rest] at fits' ⊢
      apply wp_take_fits (b := lc.char) (k := fun _ => .pure ()) _ rest fits'.1
      · intro t'' before' lexeme' rest' tokens' templates'
        have further : t''.current = t'.current + byteLen lc.spelling := by
          simp [LogicalLexer.current, LogicalLexer.done, before', lexeme']
          omega
        apply wp_pure.mpr
        refine ⟨⟨before'.trans before, ?_, ?_, ?_, tokens'.trans tokens,
          templates'.trans templates⟩, by simp [rest']⟩
        · rw [lexeme', rest', ← whole, rest, List.append_assoc]
          rfl
        · intro lc' inside
          exact line' lc' (by rw [rest]; exact List.mem_cons_of_mem _ (rest' ▸ inside))
        · rw [further, rest']
          exact fits'.2
      · change Except.map _ _ = _
        rw [rest]
        rfl

/-- A step over a comment emits its text. -/
theorem comment_step {ys : List LogicalChar} (rest : t.rest = .plain '/' :: .plain '/' :: ys)
    (comment : LogicalLexer.look ys 0 ≠ '/') (line : ∀ lc ∈ ys, lc.char ≠ '\n' ∧ lc.char ≠ '\r')
    (fits : EscapesFit (t.current + 2) ys) :
    Wp logicalMachine bad (scanNextToken latin1) (fun _ t' => t'.rest = [] ∧
      t'.templates = t.templates ∧ ∃ token ∈ t'.tokens, token.lexeme = '/' :: '/' :: spelled ys) t := by
  have ahead : t.newToken.rest = .plain '/' :: .plain '/' :: ys := rest
  have slash : dispatchConsumed latin1 '/' = handleSlash := rfl
  apply (wp_perform (b := ()) rfl).mpr
  apply wp_peekN.mpr
  rw [ahead, LogicalLexer.look_cons_zero]
  change Wp _ _ (if '/' = '.' then _ else _) _ _
  rw [if_neg (by decide), if_neg (by decide), if_neg (by decide), if_neg (by decide)]
  apply wp_advance_plain ahead
  intro t₁ before₁ lexeme₁ rest₁ tokens₁ templates₁
  rw [slash]
  apply wp_matches_plain rest₁
  intro t₂ before₂ lexeme₂ rest₂ tokens₂ templates₂
  have lexeme : t₂.lexeme = [.plain '/', .plain '/'] := by
    rw [lexeme₂, lexeme₁]
    rfl
  have current : t₂.current = t.current + 2 := by
    have before : t₂.before = t.before ++ t.lexeme := by
      rw [before₂, before₁]
      rfl
    rw [LogicalLexer.current, LogicalLexer.done, before, lexeme, LogicalLexer.current,
      LogicalLexer.done, spelled_append, byteLen_append]
    rfl
  rw [if_pos rfl]
  apply wp_matches_other (rest₂ ▸ comment)
  apply wp_bind.mpr
  apply (commentLine_wp (t := t₂) (rest₂ ▸ line) (by rw [current, rest₂]; exact fits)).mono
  rintro _ t₃ ⟨before₃, lexeme₃, rest₃, tokens₃, templates₃⟩
  apply (wp_op (b := ()) rfl).mpr
  apply wp_pure.mpr
  refine ⟨rest₃, ?_, _, List.mem_append_right _ (List.mem_singleton_self _), ?_⟩
  · exact templates₃.trans (templates₂.trans templates₁)
  · change spelled t₃.lexeme = _
    rw [lexeme₃, lexeme, rest₂]
    rfl

/-- A source of a byte-order mark and one comment is scanned to its end. -/
theorem comment_scans {ys : List LogicalChar}
    (decoded : Decoded (.plain '\uFEFF' :: .plain '/' :: .plain '/' :: ys))
    (comment : LogicalLexer.look ys 0 ≠ '/')
    (line : ∀ lc ∈ ys, lc.char ≠ '\n' ∧ lc.char ≠ '\r') (fits : EscapesFit 5 ys) :
    Wp logicalMachine (fun _ => False) (scanTokens latin1) (fun _ t =>
      ∃ token ∈ t.tokens, token.lexeme = '/' :: '/' :: spelled ys) (.new _ decoded) := by
  apply wp_bind.mpr
  apply wp_peekN.mpr
  change Wp _ _ (if '\uFEFF' = '\uFEFF' then _ else _) _ _
  rw [if_pos rfl]
  apply wp_advance_plain rfl
  intro t before lexeme rest tokens templates
  apply wp_pure.mpr
  have current : t.current = 3 := by
    rw [LogicalLexer.current, LogicalLexer.done, before, lexeme]
    rfl
  apply wp_bind.mpr
  -- Before the comment, or after it.
  apply Wp.whileDo (fun t' => t' = t ∨ (t'.rest = [] ∧ t'.templates = t.templates ∧
    ∃ token ∈ t'.tokens, token.lexeme = '/' :: '/' :: spelled ys)) (fun t' => t'.rest.length) _
    (.inl rfl)
  intro t' stands
  apply wp_isAtEnd.mpr
  apply wp_pure.mpr
  rcases stands with rfl | ⟨rest', templates', found⟩
  · have more : t'.rest.isEmpty = false := by rw [rest]; rfl
    rw [more]
    apply (comment_step rest comment line (by rw [current]; exact fits)).mono
    rintro _ t'' ⟨rest'', templates'', found⟩
    exact ⟨.inr ⟨rest'', templates'', found⟩, by rw [rest'', rest]; simp⟩
  · rw [rest']
    apply wp_getTemplates.mpr
    rw [templates', templates]
    apply (wp_op (b := ()) rfl).mpr
    apply (wp_op (b := ()) rfl).mpr
    apply wp_pure.mpr
    rcases found with ⟨token, inside, lexeme⟩
    exact ⟨token, List.mem_append_left _ inside, lexeme⟩

/-- A byte-order mark and a line comment that ends in an unfinished escape. -/
def longComment (n : Nat) : Text :=
  '\uFEFF' :: '/' :: '/' :: (List.replicate n 'a' ++ ['\\', 'u'])

/-- The characters of the comment after its slashes. -/
def longCommentChars (n : Nat) : List LogicalChar :=
  (List.replicate n 'a').map .plain ++ [.illFormed 2, .plain 'u']

theorem byteLen_replicate_a (n : Nat) : byteLen (List.replicate n 'a') = n := by
  induction n with
  | zero => rfl
  | succ n ih =>
      have size : Char.utf8Size 'a' = 1 := by decide
      rw [List.replicate_succ, byteLen_cons, ih, size]
      omega

/-- The unfinished escape after the comment's text is ill-formed. -/
theorem longComment_decoded (before : Text) (n : Nat) :
    DecodedAfter (before ++ ['/']) (longCommentChars n) := by
  apply DecodedAfter.prepend_plain (by simp)
  have even : EvenBefore (before ++ ['/'] ++ List.replicate n 'a') := by
    cases n with
    | zero => simpa using evenBefore_snoc (by decide)
    | succ n =>
        rw [List.replicate_succ', ← List.append_assoc]
        exact evenBefore_snoc (by decide)
  generalize before ++ ['/'] ++ List.replicate n 'a' = text at even
  have unit : codeUnit text ('\\' :: (List.replicate 1 'u' ++ [])) = .ok (.error 2) :=
    codeUnit_escape even (by simp)
  have illFormed : (LogicalChar.illFormed 2).Reads text ['u'] := by
    refine ⟨?_, ?_, ?_⟩
    · change SourceReader.scanAt (text ++ ('\\' :: (List.replicate 1 'u' ++ []))) _ = _
      rw [SourceReader.scanAt, scanCodeUnit_append, unit]
      rfl
    · intro len same
      cases same
      decide
    · intro c tail same
      cases same
  exact ⟨illFormed, reads_plain (by decide), trivial⟩

theorem longComment_fits {offset n : Nat} :
    EscapesFit offset (longCommentChars n) ↔ u32 (offset + n) + 2 < 2 ^ 32 := by
  have plain : EscapesFit offset ((List.replicate n 'a').map LogicalChar.plain) :=
    escapesFit_of_formed (by simp)
  have two : u32 2 = 2 := by decide
  rw [longCommentChars, escapesFit_append, LogicalLexer.spelled_plain, byteLen_replicate_a,
    and_iff_right plain]
  simp [EscapesFit, two]

theorem longComment_spelled (n : Nat) :
    spelled (longCommentChars n) = List.replicate n 'a' ++ ['\\', 'u'] := by
  rw [longCommentChars, spelled_append, LogicalLexer.spelled_plain]
  rfl

/-- In a comment of 4 GiB the unfinished escape ends at byte `2 ^ 32`, counted from the comment's
start, but at byte 3 of the second 4 GiB of the source. -/
theorem long_comment_not_translated :
    ∃ fuel tokens errors, lex latin1 fuel (longComment (2 ^ 32 - 4)) = some (tokens, errors) ∧
      ∃ token ∈ tokens, ¬ TranslatesAlone latin1 (longComment (2 ^ 32 - 4)) token := by
  generalize size : 2 ^ 32 - 4 = n
  have others : ∀ lc ∈ longCommentChars n, lc.char ≠ '\n' ∧ lc.char ≠ '\r' ∧ lc.char ≠ '/' := by
    intro lc inside
    simp only [longCommentChars, List.mem_append, List.mem_map, List.mem_replicate, List.mem_cons,
      List.not_mem_nil, or_false] at inside
    rcases inside with ⟨c, ⟨-, rfl⟩, rfl⟩ | rfl | rfl <;> decide
  have slashes : ∀ before : Text, DecodedAfter before
      (.plain '/' :: .plain '/' :: longCommentChars n) := by
    intro before
    have rest := longComment_decoded (before ++ ['/']) n
    exact ⟨reads_plain (by decide), reads_plain (by decide), rest⟩
  have decoded : Decoded (.plain '\uFEFF' :: .plain '/' :: .plain '/' :: longCommentChars n) :=
    ⟨reads_plain (by decide), slashes _⟩
  have comment : LogicalLexer.look (longCommentChars n) 0 ≠ '/' := by
    rcases List.exists_cons_of_ne_nil (l := longCommentChars n) (by simp [longCommentChars]) with
      ⟨lc, cs, same⟩
    rw [same, LogicalLexer.look_cons_zero]
    exact (others lc (by simp [same])).2.2
  have fits : EscapesFit 5 (longCommentChars n) := by
    rw [longComment_fits, ← size]
    decide
  have text : spelled (.plain '\uFEFF' :: .plain '/' :: .plain '/' :: longCommentChars n) =
      longComment n := by
    rw [spelled_cons, spelled_cons, spelled_cons, longComment_spelled]
    rfl
  have line : ∀ lc ∈ longCommentChars n, lc.char ≠ '\n' ∧ lc.char ≠ '\r' := fun lc inside =>
    ⟨(others lc inside).1, (others lc inside).2.1⟩
  rcases (comment_scans decoded comment line fits).ends with ⟨_, t, returns, token, inside, lexeme⟩ | ⟨_, _, never⟩
  · rcases machine_image.returns.mpr ⟨t, returns, rfl⟩ with ⟨fuel, runs⟩
    rw [LogicalLexer.concrete_new decoded, text] at runs
    have lexed := lex_eq_some.mpr ⟨t.concrete, runs, rfl, rfl⟩
    refine ⟨fuel, _, _, lexed, token, inside, ?_⟩
    rw [translatesAlone_iff lexed inside, not_not, lexeme]
    refine ⟨_, decode_eq_some.mpr ⟨slashes [], rfl⟩, ?_⟩
    rintro ⟨-, -, wraps⟩
    rw [show 0 + byteLen (LogicalChar.plain '/').spelling + byteLen (LogicalChar.plain '/').spelling
      = 2 by decide, longComment_fits, ← size] at wraps
    exact absurd wraps (by decide)
  · exact never.elim

end Comment

end CaffeineLs.JavaSyntax
