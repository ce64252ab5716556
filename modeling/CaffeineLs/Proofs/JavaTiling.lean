/-
Module: CaffeineLs.Proofs.JavaTiling
Purpose: The tokens of the Java lexer tile the source exactly when the source can be read to its
  end, has no byte-order mark, is shorter than 4 GiB and no scanning step loses its text.
Trusted boundary: none
Main exports: LoopHead, LogicalHead.tilesSoFar, lex_tiles_source_iff
-/
import CaffeineLs.Proofs.JavaLiterals
import CaffeineLs.Lib.Tiling

namespace CaffeineLs.JavaSyntax

open Imperative
open SourceText

/-! ### What the law depends on -/

/-- The source starts with a byte-order mark, perhaps an escaped one. -/
def startsWithBom (source : Text) : Bool := (SourceReader.new source).peekN 0 = .ok '\uFEFF'

/-- The loop of `scan_tokens` comes to this lexer. -/
abbrev LoopHead (U : UnicodeTables) (source : Text) : Lexer → Prop :=
  Heads machine (fun l => !l.reader.isAtEnd) (scanNextToken U)
    fun l => Returns machine scanPrologue (.new source) () l

/-- The next scanning step loses the text it consumes. -/
def Lexer.loses (l : Lexer) : Bool :=
  match decodeFrom l.reader.source (byteLen l.reader.source) l.reader.current with
  | some rest => losesText l.templates rest
  | none => false

/-- The same loop on logical characters. -/
abbrev LogicalHead (U : UnicodeTables) (chars : List LogicalChar) (decoded : Decoded chars) :
    LogicalLexer → Prop :=
  Heads logicalMachine (fun t => !t.concrete.reader.isAtEnd) (scanNextToken U)
    fun t => Returns logicalMachine scanPrologue (.new chars decoded) () t

namespace LogicalLexer

variable (t : LogicalLexer)

theorem concrete_new {chars : List LogicalChar} (decoded : Decoded chars) :
    (LogicalLexer.new chars decoded).concrete = .new (spelled chars) := rfl

/-- Decoding from the cursor gives what is ahead. -/
theorem concrete_loses : t.concrete.loses = losesText t.templates t.rest := by
  have enough : t.rest.length ≤ byteLen (spelled t.done ++ spelled t.rest) := by
    have := length_le_spelled t.rest
    rw [byteLen_append]
    omega
  rw [Lexer.loses, t.concrete_source, t.concrete_current, decodeFrom_complete t.decoded_rest enough]
  rfl

theorem concrete_reads (t : LogicalLexer) :
    Returns logicalMachine (do return !(← isAtEnd)) t (!t.concrete.reader.isAtEnd) t := by
  rw [t.concrete_isAtEnd]
  exact returns_op.mpr ⟨_, t, rfl, returns_pure.mpr ⟨rfl, rfl⟩⟩

theorem rest_ne_nil {t : LogicalLexer} (goes : (!t.concrete.reader.isAtEnd) = true) :
    t.rest ≠ [] := by
  rw [t.concrete_isAtEnd] at goes
  simpa using goes

/-- The tokens cut up the text before the cursor. -/
def TilesSoFar : Prop :=
  textOf Token.lexeme t.tokens = spelled t.done ∧
    OffsetsFrom Token.lexeme Token.offset u32 0 t.tokens

/-- The bytes in tokens. -/
def covered : Nat := byteLen (textOf Token.lexeme t.tokens)

/-- Some text before the cursor is in no token. -/
def Lost : Prop := t.covered < t.current

/-- From `t` to `t'` some text is consumed; it is one token, unless it is lost. -/
def Consumes (t t' : LogicalLexer) : Prop :=
  ∃ consumed, consumed ≠ [] ∧ t.rest = consumed ++ t'.rest ∧ t'.done = t.done ++ consumed ∧
    if losesText t.templates t.rest then t'.tokens = t.tokens
    else ∃ tokenType, t'.tokens = t.tokens ++ [Token.new tokenType (spelled consumed) t.current]

theorem Consumes.current {t t' : LogicalLexer} (consumes : t.Consumes t') : t.current < t'.current := by
  obtain ⟨consumed, some, -, done, -⟩ := consumes
  have := byteLen_pos_of_ne_nil (mt spelled_eq_nil.mp some)
  rw [LogicalLexer.current, LogicalLexer.current, done, spelled_append, byteLen_append]
  omega

/-- A step that loses nothing keeps the tiling. -/
theorem Consumes.tiles {t t' : LogicalLexer} (consumes : t.Consumes t') (tiles : t.TilesSoFar)
    (keeps : losesText t.templates t.rest = false) : t'.TilesSoFar := by
  obtain ⟨consumed, -, -, done, cover⟩ := consumes
  obtain ⟨text, offsets⟩ := tiles
  rw [keeps] at cover
  obtain ⟨tokenType, tokens⟩ := cover
  constructor
  · rw [tokens, done, spelled_append, textOf_append, text]
    simp [Token.new]
  · rw [tokens]
    apply offsetsFrom_append.mpr
    apply And.intro offsets
    apply offsetsFrom_singleton.mpr
    rw [text, Nat.zero_add]
    rfl

/-- What a step adds to the tokens is what it consumes, or nothing. -/
theorem Consumes.covered {t t' : LogicalLexer} (consumes : t.Consumes t') :
    t'.covered + t.current ≤ t.covered + t'.current ∧
      (losesText t.templates t.rest = true → t'.covered + t.current < t.covered + t'.current) := by
  have further := consumes.current
  obtain ⟨consumed, -, -, done, cover⟩ := consumes
  by_cases loses : losesText t.templates t.rest = true
  · rw [if_pos loses] at cover
    have same : t'.covered = t.covered := by rw [LogicalLexer.covered, cover, LogicalLexer.covered]
    rw [same]
    exact ⟨by omega, fun _ => by omega⟩
  · rw [if_neg loses] at cover
    obtain ⟨tokenType, tokens⟩ := cover
    have added : t'.covered = t.covered + byteLen (spelled consumed) := by
      simp [LogicalLexer.covered, tokens, Token.new]
    have moved : t'.current = t.current + byteLen (spelled consumed) := by
      simp [LogicalLexer.current, done]
    rw [added, moved]
    exact ⟨by omega, fun lost => absurd lost loses⟩

end LogicalLexer

variable {U : UnicodeTables} {chars : List LogicalChar} {decoded : Decoded chars}

/-! ### The parts of a run -/

/-- What the prologue does: it consumes a byte-order mark without a token. -/
theorem scanPrologue_wp (decoded : Decoded chars) :
    Wp logicalMachine (Wraps (byteLen (spelled chars))) scanPrologue (fun _ t =>
      t.done ++ t.rest = chars ∧ t.tokens = [] ∧
        (t.done = [] ↔ LogicalLexer.look chars 0 ≠ '\uFEFF')) (.new chars decoded) := by
  have size : (LogicalLexer.new chars decoded).size = byteLen (spelled chars) := rfl
  apply wp_peekN.mpr
  by_cases bom : LogicalLexer.look chars 0 = '\uFEFF'
  · have some := ne_nil_of_look bom (by decide)
    obtain ⟨lc, cs, rfl⟩ := List.exists_cons_of_ne_nil some
    rw [← size]
    change Wp _ _ (if LogicalLexer.look (lc :: cs) 0 = '\uFEFF' then _ else _) _ _
    rw [if_pos bom]
    apply wp_advance rfl
    intro t' before lexeme rest tokens _
    apply wp_pure.mpr
    have done : t'.done = [lc] := by
      rw [LogicalLexer.done, before, lexeme]
      rfl
    refine ⟨by rw [done, rest]; rfl, tokens, ?_⟩
    rw [done]
    simp [bom]
  · change Wp _ _ (if LogicalLexer.look chars 0 = '\uFEFF' then _ else _) _ _
    rw [if_neg bom]
    apply wp_pure.mpr
    exact ⟨rfl, rfl, by simp [LogicalLexer.new, LogicalLexer.done, bom]⟩

/-- A scanning step consumes some text, and covers it unless it loses it. -/
theorem scanNextToken_consumes {t : LogicalLexer} (more : t.rest ≠ []) :
    Wp logicalMachine (Wraps t.size) (scanNextToken U) (fun _ t' => t.Consumes t') t := by
  apply (scanNextToken_step U t more).mono
  intro _ t' ⟨new, ⟨before, ⟨consumed, lexeme, rest⟩, tokens⟩, shorter, cover⟩
  have fresh : t'.lexeme = consumed := lexeme
  have ahead : t.rest = consumed ++ t'.rest := rest
  have past : t'.before = t.done := before
  have known : t'.tokens = t.tokens ++ new := tokens
  refine ⟨consumed, ?_, ahead, by rw [LogicalLexer.done, past, fresh], ?_⟩
  · rintro rfl
    rw [ahead] at shorter
    simp at shorter
  · cases loses : losesText t.templates t.rest with
    | true =>
        have nothing : new = [] := by simpa [CoveredIf, loses] using cover
        simp [known, nothing]
    | false =>
        have token : Covered t' new := by simpa [CoveredIf, loses] using cover
        obtain ⟨tokenType, rfl⟩ := token
        refine ⟨tokenType, ?_⟩
        rw [known, fresh, LogicalLexer.start, past]
        rfl

/-- The end-of-file token stands at the cursor. -/
theorem scanEpilogue_wp (t : LogicalLexer) :
    Wp logicalMachine (Wraps t.size) scanEpilogue (fun _ t' =>
      t'.tokens = t.tokens ++ [Token.new .eof [] t.current] ∧ t'.done = t.done) t := by
  apply wp_getTemplates.mpr
  apply wp_bind.mpr
  apply (idle_reportIf t).mono
  intro _ t' ⟨before, lexeme, _, tokens⟩
  apply (wp_perform (b := ()) rfl).mpr
  apply (wp_op (b := ()) rfl).mpr
  apply wp_pure.mpr
  have done : t'.done = t.done := by rw [LogicalLexer.done, LogicalLexer.done, before, lexeme]
  change t'.tokens ++ _ = _ ∧ t'.done = t.done
  refine ⟨?_, done⟩
  rw [tokens, LogicalLexer.current, done]
  rfl

/-! ### Every loop head -/

/-- The loop heads of the byte-level lexer are the images of the logical ones. -/
theorem loopHead_image (decoded : Decoded chars) {l : Lexer} :
    LoopHead U (spelled chars) l ↔ ∃ t, LogicalHead U chars decoded t ∧ t.concrete = l :=
  machine_image.heads fun _ => LogicalLexer.concrete_new decoded ▸ machine_image.returns

/-- A loop head has read some of the characters, and never holds more than it read. -/
theorem LogicalHead.reads {t : LogicalLexer} (head : LogicalHead U chars decoded t) :
    t.done ++ t.rest = chars ∧ t.covered ≤ t.current := by
  induction head with
  | first prologue =>
      obtain ⟨whole, tokens, -⟩ := (scanPrologue_wp decoded).of_returns prologue
      exact ⟨whole, by simp [LogicalLexer.covered, tokens]⟩
  | next _ goes step ih =>
      have consumes := (scanNextToken_consumes (LogicalLexer.rest_ne_nil goes)).of_returns step
      have within := consumes.covered.1
      obtain ⟨consumed, -, rest, done, -⟩ := consumes
      refine ⟨?_, by omega⟩
      rw [done, List.append_assoc, ← rest]
      exact ih.1

theorem LogicalHead.size {t : LogicalLexer} (head : LogicalHead U chars decoded t) :
    t.size = byteLen (spelled chars) := by
  rw [← head.reads.1, LogicalLexer.size, LogicalLexer.done, List.append_assoc]

/-- Without a byte-order mark and lost text, every loop head has tiled its past. -/
theorem LogicalHead.tilesSoFar (noBom : LogicalLexer.look chars 0 ≠ '\uFEFF')
    (keeps : ∀ t, LogicalHead U chars decoded t → t.rest ≠ [] → losesText t.templates t.rest = false)
    {t : LogicalLexer} (head : LogicalHead U chars decoded t) : t.TilesSoFar := by
  induction head with
  | first prologue =>
      obtain ⟨-, tokens, start⟩ := (scanPrologue_wp decoded).of_returns prologue
      rw [LogicalLexer.TilesSoFar, tokens, start.mpr noBom]
      exact ⟨rfl, offsetsFrom_nil⟩
  | next head goes step ih =>
      have more := LogicalLexer.rest_ne_nil goes
      have consumes := (scanNextToken_consumes more).of_returns step
      exact consumes.tiles ih (keeps _ head more)

/-- Text that is lost stays lost. -/
theorem lost_of_loop {t t' : LogicalLexer} (head : LogicalHead U chars decoded t) (lost : t.Lost)
    (returns : Returns logicalMachine (scanLoop U) t () t') : t'.Lost := by
  apply (head.ends LogicalLexer.concrete_reads LogicalLexer.Lost _ lost returns).2.2
  intro t t' _ goes lost step
  have consumes := (scanNextToken_consumes (LogicalLexer.rest_ne_nil goes)).of_returns step
  have within := consumes.covered.1
  unfold LogicalLexer.Lost at *
  omega

/-! ### The whole run -/

/-- The lexer returns on every source that can be read to its end, unless it is so long that an
error's range wraps around. -/
theorem scanTokens_wp (U : UnicodeTables) (decoded : Decoded chars) :
    Wp logicalMachine (Wraps (byteLen (spelled chars))) (scanTokens U) (fun _ _ => True)
      (.new chars decoded) := by
  apply wp_bind.mpr
  apply (scanPrologue_wp decoded).with_returns.mono
  intro _ t ⟨prologue, _⟩
  have start : LogicalHead U chars decoded t := .first prologue
  apply wp_bind.mpr
  apply Wp.whileDo (LogicalHead U chars decoded) (fun t => t.rest.length) _ start
  intro t head
  apply Returns.wp t.concrete_reads
  cases goes : (!t.concrete.reader.isAtEnd) with
  | false =>
      apply (scanEpilogue_wp t).mono_bad (fun _ wraps => head.size ▸ wraps) |>.mono
      exact fun _ _ _ => trivial
  | true =>
      have step := scanNextToken_consumes (U := U) (LogicalLexer.rest_ne_nil goes)
      apply (step.with_returns.mono_bad fun _ wraps => head.size ▸ wraps).mono
      intro _ t' ⟨step, consumed, nonempty, rest, _⟩
      apply And.intro (head.next goes step)
      have := List.length_pos_iff.mpr nonempty
      rw [rest, List.length_append]
      omega

/-- A returning run: the prologue, the loop up to a head at the end, and the end-of-file token. -/
theorem scanTokens_ends {final : LogicalLexer}
    (returns : Returns logicalMachine (scanTokens U) (.new chars decoded) () final) :
    ∃ first last, Returns logicalMachine scanPrologue (.new chars decoded) () first ∧
      Returns logicalMachine (scanLoop U) first () last ∧ LogicalHead U chars decoded last ∧
      last.done = chars ∧ Returns logicalMachine scanEpilogue last () final ∧
      final.tokens = last.tokens ++ [Token.new .eof [] (byteLen (spelled chars))] := by
  obtain ⟨_, first, prologue, others⟩ := returns_bind.mp returns
  obtain ⟨_, last, loop, epilogue⟩ := returns_bind.mp others
  have start : LogicalHead U chars decoded first := .first prologue
  obtain ⟨head, ended, -⟩ :=
    start.ends LogicalLexer.concrete_reads (fun _ => True) (fun _ _ _ _ _ _ => trivial) trivial loop
  have nothing : last.rest = [] := by
    rw [last.concrete_isAtEnd] at ended
    simpa using ended
  have done : last.done = chars := by
    rw [← LogicalHead.reads head |>.1, nothing, List.append_nil]
  refine ⟨first, last, prologue, loop, head, done, epilogue, ?_⟩
  rw [← done]
  exact ((scanEpilogue_wp last).of_returns epilogue).1

/-- The law for a source that can be read to its end. -/
theorem logical_tiles_iff (U : UnicodeTables) (decoded : Decoded chars) :
    (∃ final, Returns logicalMachine (scanTokens U) (.new chars decoded) () final ∧
      Tiles Token.lexeme Token.offset final.tokens (spelled chars)) ↔
    LogicalLexer.look chars 0 ≠ '\uFEFF' ∧ byteLen (spelled chars) < 2 ^ 32 ∧
      ∀ t, LogicalHead U chars decoded t → t.rest ≠ [] → losesText t.templates t.rest = false := by
  have sized : ∀ {last final : LogicalLexer}, LogicalHead U chars decoded last →
      last.done = chars → final.tokens = last.tokens ++ [Token.new .eof [] (byteLen (spelled chars))] →
      LogicalLexer.look chars 0 ≠ '\uFEFF' →
      (∀ t, LogicalHead U chars decoded t → t.rest ≠ [] → losesText t.templates t.rest = false) →
      (Tiles Token.lexeme Token.offset final.tokens (spelled chars) ↔
        byteLen (spelled chars) < 2 ^ 32) := by
    intro last final head done tokens noBom keeps
    obtain ⟨text, offsets⟩ := head.tilesSoFar noBom keeps
    rw [done] at text
    rw [tokens]
    apply tiles_iff_of_last _ rfl text (by decide)
    apply offsetsFrom_append.mpr
    apply And.intro offsets
    apply offsetsFrom_singleton.mpr
    rw [text, Nat.zero_add]
    rfl
  constructor
  · rintro ⟨final, returns, tiles⟩
    obtain ⟨first, last, prologue, loop, head, done, -, tokens⟩ := scanTokens_ends returns
    have notLost : ¬ last.Lost := by
      intro lost
      have covered : last.covered = byteLen (spelled chars) := by
        rw [← tiles.1, tokens]
        simp [LogicalLexer.covered, Token.new]
      rw [LogicalLexer.Lost, covered, LogicalLexer.current, done] at lost
      exact Nat.lt_irrefl _ lost
    have noBom : LogicalLexer.look chars 0 ≠ '\uFEFF' := by
      intro bom
      obtain ⟨-, none, start⟩ := (scanPrologue_wp decoded).of_returns prologue
      have some : first.done ≠ [] := fun nothing => start.mp nothing bom
      have := byteLen_pos_of_ne_nil (mt spelled_eq_nil.mp some)
      apply notLost (lost_of_loop (.first prologue) _ loop)
      rw [LogicalLexer.Lost, LogicalLexer.covered, none]
      exact this
    have keeps : ∀ t, LogicalHead U chars decoded t → t.rest ≠ [] →
        losesText t.templates t.rest = false := by
      intro t head more
      by_contra loses
      have goes : (!t.concrete.reader.isAtEnd) = true := by
        rw [t.concrete_isAtEnd]
        simpa using more
      have passes : Returns logicalMachine (scanLoop U) t () last := by
        apply Heads.returns LogicalLexer.concrete_reads _ loop
        clear loses goes more
        induction head with
        | first begins => exact .first (begins.unique prologue).2
        | next _ goes step ih => exact .next ih goes step
      obtain ⟨t', step, others⟩ : ∃ t', Returns logicalMachine (scanNextToken U) t () t' ∧
          Returns logicalMachine (scanLoop U) t' () last := by
        have later := (returns_whileReads LogicalLexer.concrete_reads).mp passes
        rwa [if_pos goes] at later
      have strict := ((scanNextToken_consumes more).of_returns step).covered.2 (by simpa using loses)
      have within := head.reads.2
      apply notLost (lost_of_loop (head.next goes step) _ others)
      unfold LogicalLexer.Lost
      omega
    exact ⟨noBom, (sized head done tokens noBom keeps).mp tiles, keeps⟩
  · rintro ⟨noBom, small, keeps⟩
    rcases (scanTokens_wp U decoded).ends with ⟨_, final, returns, -⟩ | ⟨_, -, -, long⟩
    · obtain ⟨first, last, -, -, head, done, -, tokens⟩ := scanTokens_ends returns
      exact ⟨final, returns, (sized head done tokens noBom keeps).mpr small⟩
    · omega

/-! ### Sources that cannot be read to their end -/

theorem reads_plain {before after : Text} {c : Char} (other : c ≠ '\\') :
    (LogicalChar.plain c).Reads before after where
  scans := scanAt_plain other
  fits := by simp
  escapes := by simp

theorem DecodedAfter.prepend_plain {before text : Text} (other : '\\' ∉ text)
    (decoded : DecodedAfter (before ++ text) chars) :
    DecodedAfter before (text.map LogicalChar.plain ++ chars) := by
  induction text generalizing before with
  | nil => simpa using decoded
  | cons c cs ih =>
      have notBackslash : c ≠ '\\' := fun same => other (by simp [same])
      have later : DecodedAfter ((before ++ [c]) ++ cs) chars := by simpa using decoded
      exact ⟨reads_plain notBackslash, ih (fun inside => other (by simp [inside])) later⟩

/-- A scan before the end stands at a character boundary. -/
theorem sliceFrom?_of_scanAt {source : Text} {offset : Nat} {scan : ScanResult}
    (more : ¬ byteLen source ≤ offset) (scans : SourceReader.scanAt source offset = .ok scan) :
    ∃ rest, sliceFrom? source offset = some rest := by
  cases sliced : sliceFrom? source offset with
  | some rest => exact ⟨rest, rfl⟩
  | none =>
      rw [SourceReader.scanAt, SourceReader.scanCodeUnit, if_neg more, sliced] at scans
      cases scans

/-- Where a scan succeeds and the text after it can be read, the text can be read. -/
theorem decodeFrom_of_scanAt {source : Text} {offset : Nat} {scan : ScanResult}
    (scans : SourceReader.scanAt source offset = .ok scan) {fuel : Nat} {rest : List LogicalChar}
    (later : decodeFrom source fuel (offset + scan.logicalLen) = some rest) :
    ∃ fuel chars, decodeFrom source fuel offset = some chars := by
  by_cases ended : byteLen source ≤ offset
  · exact ⟨0, [], by rw [decodeFrom, if_pos ended]⟩
  · obtain ⟨ahead, sliced⟩ := sliceFrom?_of_scanAt ended scans
    refine ⟨fuel + 1, charOf ahead scan :: rest, ?_⟩
    rw [decodeFrom, if_neg ended, scans, sliced]
    simp only [later, Option.map_some]

/-- Raw text can be read when the text after it can. -/
theorem decodeFrom_of_isAt {r : SourceReader} {expected : Text} (other : '\\' ∉ expected)
    (stands : r.isAt expected = .ok true) {fuel : Nat} {rest : List LogicalChar}
    (later : decodeFrom r.source fuel (r.current + byteLen expected) = some rest) :
    ∃ fuel chars, decodeFrom r.source fuel r.current = some chars := by
  unfold SourceReader.isAt at stands
  cases sliced : sliceFrom? r.source r.current with
  | none => simp [sliced] at stands
  | some ahead =>
      rw [sliced] at stands
      obtain ⟨before, source, current⟩ := sliceFrom?_eq_some sliced
      obtain ⟨after, rfl⟩ := List.isPrefixOf_iff_prefix.mp (Except.ok.inj stands)
      rw [source, current, ← byteLen_append, ← List.append_assoc] at later
      obtain ⟨rfl, decoded⟩ := decodeFrom_sound later
      refine ⟨(expected.map LogicalChar.plain ++ rest).length, expected.map LogicalChar.plain ++ rest,
        ?_⟩
      have whole := decodeFrom_complete (decoded.prepend_plain other) (Nat.le_refl _)
      rw [spelled_append, LogicalLexer.spelled_plain] at whole
      rw [source, current, whole]

/-- Nothing can be read from the cursor to the end of the source. -/
def Unreadable (source : Text) (l : Lexer) : Prop :=
  l.reader.source = source ∧ ∀ fuel chars, decodeFrom source fuel l.reader.current ≠ some chars

/-- What an operation may do to the cursor: nothing, a step over a character, or one over raw
text. -/
def SourceReader.Moves (r r' : SourceReader) : Prop :=
  r'.source = r.source ∧
    (r'.current = r.current ∨
      (∃ scan, SourceReader.scanAt r.source r.current = .ok scan ∧
        r'.current = r.current + scan.logicalLen) ∨
      ∃ expected : RawText, r.isAt expected.text = .ok true ∧
        r'.current = r.current + byteLen expected.text)

theorem SourceReader.Moves.skip {r r' : SourceReader} {scan : ScanResult}
    (scans : SourceReader.scanAt r.source r.current = .ok scan) (skips : r.skip scan = .ok r') :
    r.Moves r' :=
  ⟨(SourceReader.skip_eq_ok skips).1, .inr (.inl ⟨scan, scans, (SourceReader.skip_eq_ok skips).2⟩)⟩

theorem exec_reader {β : Type} {o : LexOp β} {l l' : Lexer} {b : β}
    (steps : machine.exec o l = .ok (b, l')) : l.reader.Moves l'.reader := by
  have stays : l.reader.Moves l.reader := ⟨rfl, .inl rfl⟩
  change LexOp.exec o l = .ok (b, l') at steps
  cases o with
  | peekN n =>
      simp only [LexOp.exec, bind, Except.bind] at steps
      split at steps <;> cases steps
      exact stays
  | advance =>
      simp only [LexOp.exec, SourceReader.advance, bind, Except.bind] at steps
      cases scans : SourceReader.scanAt l.reader.source l.reader.current with
      | error e => simp [scans] at steps
      | ok scan =>
          cases skips : l.reader.skip scan with
          | error e => simp [scans, skips] at steps
          | ok r' =>
              simp only [scans, skips] at steps
              cases steps
              exact .skip scans skips
  | advanceIfMatches expected =>
      simp only [LexOp.exec, SourceReader.advanceIfMatches, bind, Except.bind] at steps
      cases scans : SourceReader.scanAt l.reader.source l.reader.current with
      | error e => simp [scans] at steps
      | ok scan =>
          simp only [scans] at steps
          by_cases sees : scan.logicalChar = expected
          · cases skips : l.reader.skip scan with
            | error e => simp [sees, skips] at steps
            | ok r' =>
                simp only [sees, if_true, skips] at steps
                cases steps
                exact .skip scans skips
          · simp only [sees, if_false] at steps
            cases steps
            exact stays
  | advanceIfMatchesStr expected =>
      simp only [LexOp.exec, SourceReader.advanceIfMatchesStr, bind, Except.bind] at steps
      cases stands : l.reader.isAt expected.text with
      | error e => simp [stands] at steps
      | ok matched =>
          cases matched with
          | false =>
              simp only [stands] at steps
              cases steps
              exact stays
          | true =>
              simp only [stands, if_true] at steps
              cases steps
              exact ⟨rfl, .inr (.inr ⟨expected, stands, rfl⟩)⟩
  | newToken =>
      cases steps
      exact ⟨rfl, .inl rfl⟩
  | currentTokenLexeme =>
      simp only [LexOp.exec, bind, Except.bind] at steps
      split at steps <;> cases steps
      exact stays
  | completeToken tokenType =>
      simp only [LexOp.exec, Lexer.completeToken, bind, Except.bind] at steps
      cases raw : l.reader.currentTokenLexemeRaw <;> rw [raw] at steps <;> cases steps
      exact stays
  | reportError errorType =>
      simp only [LexOp.exec, Lexer.reportError, bind, Except.bind] at steps
      split at steps
      · cases steps
      · rename_i reported
        split at reported <;> cases reported
        cases steps
        exact stays
  | isAtEnd | completeEof | collectEscapeErrors | getTemplates | setTemplates =>
      cases steps
      exact stays

/-- No operation gets the lexer past the place that cannot be read. -/
theorem Unreadable.exec {source : Text} {β : Type} {o : LexOp β} {l l' : Lexer} {b : β}
    (unreadable : Unreadable source l) (steps : machine.exec o l = .ok (b, l')) :
    Unreadable source l' := by
  obtain ⟨same, never⟩ := unreadable
  obtain ⟨source', stays | ⟨scan, scans, further⟩ | ⟨expected, stands, further⟩⟩ := exec_reader steps
  · refine ⟨source'.trans same, ?_⟩
    rw [stays]
    exact never
  · refine ⟨source'.trans same, fun fuel chars reads => ?_⟩
    rw [further] at reads
    obtain ⟨fuel', chars', reads'⟩ := decodeFrom_of_scanAt (same ▸ scans) reads
    exact never fuel' chars' reads'
  · refine ⟨source'.trans same, fun fuel chars reads => ?_⟩
    rw [← same, further] at reads
    rw [← same] at never
    obtain ⟨fuel', chars', reads'⟩ :=
      decodeFrom_of_isAt (LogicalLexer.rawText_plain expected) stands reads
    exact never fuel' chars' reads'

/-- A source on which the lexer returns can be read to its end. -/
theorem decodes_of_returns {source : Text} {final : Lexer}
    (returns : Returns machine (scanTokens U) (.new source) () final) :
    ∃ chars, decode source = some chars := by
  by_contra unreadable
  have reads : ∀ l, Returns machine (do return !(← isAtEnd)) l (!l.reader.isAtEnd) l :=
    fun l => returns_op.mpr ⟨_, l, rfl, returns_pure.mpr ⟨rfl, rfl⟩⟩
  have never : ∀ fuel chars, decodeFrom source fuel 0 ≠ some chars := by
    intro fuel chars decodes
    have here : decodeFrom ([] ++ source) fuel (byteLen []) = some chars := decodes
    obtain ⟨same, decoded⟩ := decodeFrom_sound here
    exact unreadable ⟨chars, decode_eq_some.mpr ⟨decoded, same⟩⟩
  obtain ⟨_, first, prologue, others⟩ := returns_bind.mp returns
  obtain ⟨_, last, loop, -⟩ := returns_bind.mp others
  have start : Unreadable source (.new source) := ⟨rfl, never⟩
  have stuck : Unreadable source last := by
    apply loop.keeps (Unreadable source) fun _ _ _ _ kept => kept.exec
    exact prologue.keeps (Unreadable source) (fun _ _ _ _ kept => kept.exec) start
  have head : Heads machine (fun l => !l.reader.isAtEnd) (scanNextToken U) (· = first) first :=
    .first rfl
  obtain ⟨-, ended, -⟩ := head.ends reads (fun _ => True) (fun _ _ _ _ _ _ => trivial) trivial loop
  have beyond : byteLen source ≤ last.reader.current := by
    simpa [SourceReader.isAtEnd, stuck.1] using ended
  exact stuck.2 0 [] (by rw [decodeFrom, if_pos beyond])

/-! ### The law -/

theorem lex_eq_some {fuel : Nat} {source : Text} {tokens : List Token} {errors : List LexicalError} :
    lex U fuel source = some (tokens, errors) ↔
      ∃ final, (scanTokens U).run machine fuel (.new source) = .done () final ∧
        final.tokens = tokens ∧ final.errors = errors := by
  unfold lex
  split
  · rename_i l runs
    rw [runs]
    simp
  · rename_i other
    simp only [reduceCtorEq, false_iff]
    intro ⟨final, runs, _⟩
    exact other () final runs

/-- The tokens of `lex` tile the source exactly when the source can be read to its end, has no
byte-order mark, is shorter than 4 GiB, and the scanning never stands at a SUB character or at a
literal that does not close. -/
theorem lex_tiles_source_iff (U : UnicodeTables) (source : Text) :
    (∃ fuel tokens errors, lex U fuel source = some (tokens, errors) ∧
      Tiles Token.lexeme Token.offset tokens source) ↔
    (∃ chars, decode source = some chars) ∧ startsWithBom source = false ∧
      byteLen source < 2 ^ 32 ∧
      ∀ l, LoopHead U source l → l.reader.isAtEnd = false → l.loses = false := by
  have returned : (∃ fuel tokens errors, lex U fuel source = some (tokens, errors) ∧
      Tiles Token.lexeme Token.offset tokens source) ↔
      ∃ final, Returns machine (scanTokens U) (.new source) () final ∧
        Tiles Token.lexeme Token.offset final.tokens source := by
    constructor
    · rintro ⟨fuel, tokens, errors, runs, tiles⟩
      obtain ⟨final, returns, rfl, -⟩ := lex_eq_some.mp runs
      exact ⟨final, ⟨fuel, returns⟩, tiles⟩
    · rintro ⟨final, ⟨fuel, returns⟩, tiles⟩
      exact ⟨fuel, _, _, lex_eq_some.mpr ⟨final, returns, rfl, rfl⟩, tiles⟩
  rw [returned]
  by_cases decodes : ∃ chars, decode source = some chars
  · rw [and_iff_right decodes]
    obtain ⟨chars, decodes⟩ := decodes
    obtain ⟨decoded, rfl⟩ := decode_eq_some.mp decodes
    have start := LogicalLexer.concrete_new decoded
    have bom : startsWithBom (spelled chars) = false ↔ LogicalLexer.look chars 0 ≠ '\uFEFF' := by
      have peeked := (LogicalLexer.new chars decoded).concrete_peekN 0
      rw [start] at peeked
      change decide ((SourceReader.new (spelled chars)).peekN 0 = .ok '\uFEFF') = false ↔ _
      rw [show (SourceReader.new (spelled chars)).peekN 0 = _ from peeked]
      simp [LogicalLexer.new]
    have heads : (∀ l, LoopHead U (spelled chars) l → l.reader.isAtEnd = false → l.loses = false) ↔
        ∀ t, LogicalHead U chars decoded t → t.rest ≠ [] → losesText t.templates t.rest = false := by
      constructor
      · intro keeps t head more
        rw [← t.concrete_loses]
        apply keeps t.concrete ((loopHead_image decoded).mpr ⟨t, head, rfl⟩)
        rw [t.concrete_isAtEnd]
        simpa using more
      · intro keeps l head more
        obtain ⟨t, head', rfl⟩ := (loopHead_image decoded).mp head
        rw [t.concrete_loses]
        apply keeps t head'
        rw [t.concrete_isAtEnd] at more
        simpa using more
    rw [bom, heads, ← logical_tiles_iff U decoded, ← start]
    constructor
    · rintro ⟨final, returns, tiles⟩
      obtain ⟨t, returns', rfl⟩ := machine_image.returns.mp returns
      exact ⟨t, returns', tiles⟩
    · rintro ⟨t, returns, tiles⟩
      exact ⟨t.concrete, machine_image.returns.mpr ⟨t, returns, rfl⟩, tiles⟩
  · constructor
    · rintro ⟨final, returns, _⟩
      exact absurd (decodes_of_returns returns) decodes
    · exact fun conditions => absurd conditions.1 decodes

/-- A source below 4 GiB is lexed exactly when it can be read to its end: no literal, comment, template
or other character makes the lexer run forever or abort. -/
theorem lex_halts_iff (U : UnicodeTables) (source : Text) (short : byteLen source < 2 ^ 32) :
    (∃ fuel tokens errors, lex U fuel source = some (tokens, errors)) ↔
      ∃ chars, decode source = some chars := by
  constructor
  · intro ⟨fuel, tokens, errors, lexed⟩
    obtain ⟨final, runs, -, -⟩ := lex_eq_some.mp lexed
    exact decodes_of_returns ⟨fuel, runs⟩
  · intro ⟨chars, decodes⟩
    obtain ⟨decoded, rfl⟩ := decode_eq_some.mp decodes
    rcases (scanTokens_wp U decoded).ends with ⟨_, t, returns, -⟩ | ⟨_, -, -, long⟩
    · obtain ⟨fuel, runs⟩ := machine_image.returns.mpr ⟨t, returns, rfl⟩
      rw [LogicalLexer.concrete_new decoded] at runs
      exact ⟨fuel, _, _, lex_eq_some.mpr ⟨_, runs, rfl, rfl⟩⟩
    · omega

/-- A template that does not close is lexed. -/
theorem lex_halts_on_open_template :
    ∃ fuel tokens errors, lex latin1 fuel ['"', '\\', '{', 'x'] = some (tokens, errors) :=
  (lex_halts_iff latin1 ['"', '\\', '{', 'x'] (by decide)).mpr ⟨_, rfl⟩

/-- An unterminated character literal is in no token. -/
theorem lex_drops_open_char :
    ∃ tokens errors, lex latin1 6 ['\'', 'a'] = some (tokens, errors) ∧
      ¬ Tiles Token.lexeme Token.offset tokens ['\'', 'a'] := by
  refine ⟨[⟨.eof, [], 2⟩], [⟨.unterminatedChar, 0, 2⟩], by decide, ?_⟩
  intro ⟨text, _⟩
  exact absurd text (by decide)

end CaffeineLs.JavaSyntax
