/-
Module: CaffeineLs.Proofs.JavaEscapes
Purpose: Two spellings of the same logical characters: the Java lexer gives them the same tokens
  and errors when the texts it matches byte by byte are matched alike in both.
Trusted boundary: none
Main exports: logicalStream, RawMatchesAgree, lex_alike
-/
import CaffeineLs.Proofs.JavaLexemes

namespace CaffeineLs.JavaSyntax

open Imperative
open SourceText

/-! ### Logical characters -/

/-- What `advance` returns from the start of a source to its end, and the escape errors it
records. -/
def logicalStream (source : Text) : Except Panic (Text × List UnicodeEscapeError) := do
  let (chars, r) ← (SourceReader.new source).drain (byteLen source)
  return (chars, r.errors)

/-- The logical characters a lexer has ahead. -/
def Lexer.remaining (l : Lexer) : Except Panic Text :=
  (l.reader.drain (byteLen l.reader.source)).map Prod.fst

/-- Where the lexers of two sources come to the same byte-by-byte match with the same characters
ahead, it succeeds in both or in neither. -/
def RawMatchesAgree (U : UnicodeTables) (source source' : Text) : Prop :=
  ∀ (expected : RawText) (l l' : Lexer) (b b' : Bool),
    Meets machine (.advanceIfMatchesStr expected) l (scanTokens U) (.new source) →
    Meets machine (.advanceIfMatchesStr expected) l' (scanTokens U) (.new source') →
    l.remaining = l'.remaining →
    l.reader.isAt expected.text = .ok b → l'.reader.isAt expected.text = .ok b' → b = b'

/-- No ill-formed escape. -/
def WellFormed (chars : List LogicalChar) : Prop := ∀ len, LogicalChar.illFormed len ∉ chars

theorem SourceReader.drain_errors {n : Nat} {r r' : SourceReader} {chars : Text}
    (drained : r.drain n = .ok (chars, r')) : ∃ more, r'.errors = r.errors ++ more := by
  induction n generalizing r chars with
  | zero =>
      cases drained
      exact ⟨[], by simp⟩
  | succ n ih =>
      rw [SourceReader.drain] at drained
      split at drained
      · cases drained
        exact ⟨[], by simp⟩
      · simp only [SourceReader.advance, bind, Except.bind] at drained
        cases scans : SourceReader.scanAt r.source r.current with
        | error e => simp [scans] at drained
        | ok scan =>
            cases skips : r.skip scan with
            | error e => simp [scans, skips] at drained
            | ok r₁ =>
                cases later : r₁.drain n with
                | error e => simp [scans, skips, pure, Except.pure, later] at drained
                | ok result =>
                    simp only [scans, skips, pure, Except.pure, later, Except.ok.injEq,
                      Prod.mk.injEq] at drained
                    obtain ⟨-, rfl⟩ := drained
                    obtain ⟨more, grown⟩ := ih later
                    cases scan with
                    | char c len =>
                        cases skips
                        exact ⟨more, grown⟩
                    | invalidEscape len =>
                        simp only [SourceReader.skip, bind, Except.bind] at skips
                        split at skips
                        · cases skips
                        · cases skips
                          exact ⟨_, by rw [grown, List.append_assoc]⟩

/-- A source read to its end without an escape error is decoded, without ill-formed escapes. -/
theorem decoded_of_drain {before rest : Text} {r r' : SourceReader} {n : Nat} {chars : Text}
    (source : r.source = before ++ rest) (current : r.current = byteLen before)
    (enough : byteLen rest ≤ n) (drained : r.drain n = .ok (chars, r'))
    (clean : r'.errors = r.errors) :
    ∃ lcs, spelled lcs = rest ∧ DecodedAfter before lcs ∧ charsOf lcs = chars ∧ WellFormed lcs := by
  have ended : r.isAtEnd = true ↔ rest = [] := by
    simp only [SourceReader.isAtEnd, source, current, byteLen_append, decide_eq_true_eq]
    rw [← byteLen_eq_zero]
    omega
  induction n generalizing before rest r chars with
  | zero =>
      have nothing : rest = [] := byteLen_eq_zero.mp (by omega)
      cases drained
      exact ⟨[], nothing.symm, trivial, rfl, by simp [WellFormed]⟩
  | succ n ih =>
      rw [SourceReader.drain] at drained
      split at drained
      · rename_i atEnd
        cases drained
        exact ⟨[], (ended.mp atEnd).symm, trivial, rfl, by simp [WellFormed]⟩
      · rename_i more
        have some : rest ≠ [] := mt ended.mpr more
        simp only [SourceReader.advance, bind, Except.bind] at drained
        cases scans : SourceReader.scanAt r.source r.current with
        | error e => simp [scans] at drained
        | ok scan =>
            cases skips : r.skip scan with
            | error e => simp [scans, skips] at drained
            | ok r₁ =>
                cases later : r₁.drain n with
                | error e => simp [scans, skips, pure, Except.pure, later] at drained
                | ok result =>
                    simp only [scans, skips, pure, Except.pure, later, Except.ok.injEq,
                      Prod.mk.injEq] at drained
                    obtain ⟨rfl, rfl⟩ := drained
                    rw [source, current] at scans
                    obtain ⟨lc, after, rfl, rfl, reads⟩ := scanAt_eq_ok some scans
                    obtain ⟨source₁, current₁⟩ := SourceReader.skip_eq_ok skips
                    obtain ⟨grown, errors⟩ := SourceReader.drain_errors later
                    have formed : (∀ len, lc ≠ .illFormed len) ∧ r₁.errors = r.errors := by
                      cases lc with
                      | plain c =>
                          cases skips
                          simp
                      | escape c tail =>
                          cases skips
                          simp
                      | illFormed len =>
                          simp only [LogicalChar.scan, SourceReader.skip, bind, Except.bind] at skips
                          split at skips
                          · cases skips
                          · cases skips
                            rw [errors, List.append_assoc] at clean
                            simp at clean
                    have size := byteLen_pos_of_ne_nil lc.spelling_ne_nil
                    rw [byteLen_append] at enough
                    have here : r₁.current = byteLen (before ++ lc.spelling) := by
                      rw [current₁, current, LogicalChar.scan_logicalLen, byteLen_append]
                    have whole : r₁.source = (before ++ lc.spelling) ++ after := by
                      rw [source₁, source, List.append_assoc]
                    obtain ⟨lcs, same, decoded, chars, others⟩ := ih whole here (by omega) later
                      (clean.trans formed.2.symm) (by
                        simp only [SourceReader.isAtEnd, whole, here, byteLen_append,
                          decide_eq_true_eq]
                        rw [← byteLen_eq_zero]
                        omega)
                    refine ⟨lc :: lcs, by rw [spelled_cons, same], ⟨same ▸ reads, decoded⟩, ?_, ?_⟩
                    · rw [charsOf_cons, chars, LogicalChar.scan_logicalChar]
                    · intro len inside
                      rcases List.mem_cons.mp inside with first | rest
                      · exact formed.1 len first.symm
                      · exact others len rest

/-! ### Lexers that differ in the spelling -/

/-- Two lexers at the same logical characters, with tokens and errors of the same kinds. -/
structure Alike (t t' : LogicalLexer) : Prop where
  rest : charsOf t.rest = charsOf t'.rest
  lexeme : charsOf t.lexeme = charsOf t'.lexeme
  formed : WellFormed t.rest ∧ WellFormed t'.rest
  escapeErrors : t.escapeErrors = [] ∧ t'.escapeErrors = []
  tokens : t.tokens.map Token.kind = t'.tokens.map Token.kind
  errors : t.errors.map LexicalError.kind = t'.errors.map LexicalError.kind
  templates : t.templates = t'.templates

namespace LogicalLexer

variable {t t' : LogicalLexer}

theorem take_of_formed (formed : WellFormed t.rest) : t.take = .ok (t.move 1 t.escapeErrors) := by
  cases rest : t.rest with
  | nil =>
      rw [take_nil rest]
      have still : t.move 1 t.escapeErrors = t := by
        cases t
        cases rest
        simp [move]
      rw [still]
  | cons lc cs =>
      rw [take_eq rest]
      cases lc with
      | plain c => rfl
      | escape c tail => rfl
      | illFormed len => exact absurd (by simp [rest]) (formed len)

theorem concrete_remaining (formed : WellFormed t.rest) :
    t.concrete.remaining = .ok (charsOf t.rest) := by
  have enough : t.rest.length ≤ byteLen t.concrete.reader.source := by
    have := length_le_spelled t.rest
    rw [t.concrete_source, byteLen_append]
    omega
  obtain ⟨r', drained⟩ :=
    (drain_eq_ok t.concrete_source t.concrete_current t.decoded_rest enough).mpr
      ⟨escapesFit_of_formed formed, rfl⟩
  rw [Lexer.remaining, drained]
  rfl

end LogicalLexer

namespace Alike

variable {t t' : LogicalLexer} (alike : Alike t t')

include alike

theorem look (n : Nat) : LogicalLexer.look t.rest n = LogicalLexer.look t'.rest n := by
  change (charsOf t.rest).getD n _ = (charsOf t'.rest).getD n _
  rw [alike.rest]

theorem move (n : Nat) : Alike (t.move n t.escapeErrors) (t'.move n t'.escapeErrors) where
  rest := by
    have dropped := congrArg (List.drop n) alike.rest
    simpa [charsOf, LogicalLexer.move] using dropped
  lexeme := by
    have taken := congrArg (List.take n) alike.rest
    simp only [charsOf, LogicalLexer.move, List.map_append, List.map_take] at *
    rw [taken]
    exact congrArg (· ++ _) alike.lexeme
  formed :=
    ⟨fun len inside => alike.formed.1 len (List.mem_of_mem_drop inside),
      fun len inside => alike.formed.2 len (List.mem_of_mem_drop inside)⟩
  escapeErrors := alike.escapeErrors
  tokens := alike.tokens
  errors := alike.errors
  templates := alike.templates

theorem reported {error error' : LexicalError} (same : error.kind = error'.kind) :
    Alike { t with errors := t.errors ++ [error] } { t' with errors := t'.errors ++ [error'] } where
  rest := alike.rest
  lexeme := alike.lexeme
  formed := alike.formed
  escapeErrors := alike.escapeErrors
  tokens := alike.tokens
  errors := by simp [alike.errors, same]
  templates := alike.templates

theorem completed {token token' : Token} (same : token.kind = token'.kind) :
    Alike { t with tokens := t.tokens ++ [token] } { t' with tokens := t'.tokens ++ [token'] } where
  rest := alike.rest
  lexeme := alike.lexeme
  formed := alike.formed
  escapeErrors := alike.escapeErrors
  tokens := by simp [alike.tokens, same]
  errors := alike.errors
  templates := alike.templates

end Alike

/-- Alike lexers answer every operation they come to alike, when they match raw text alike. -/
theorem agree_of_alike {U : UnicodeTables} {β : Type} {o : LexOp β} {t₀ t₀' t t' : LogicalLexer}
    (met : Meets logicalMachine o t (scanTokens U) t₀)
    (met' : Meets logicalMachine o t' (scanTokens U) t₀') (alike : Alike t t')
    (raw : ∀ expected, Meets logicalMachine (.advanceIfMatchesStr expected) t (scanTokens U) t₀ →
      Meets logicalMachine (.advanceIfMatchesStr expected) t' (scanTokens U) t₀' →
      t.isAtRaw expected = t'.isAtRaw expected) :
    Agree logicalMachine logicalMachine Alike o t t' := by
  intro b s b' s' steps steps'
  change LogicalLexer.exec o t = .ok (b, s) at steps
  change LogicalLexer.exec o t' = .ok (b', s') at steps'
  cases o with
  | peekN n =>
      cases steps
      cases steps'
      exact ⟨alike.look n, alike⟩
  | advance =>
      simp only [LogicalLexer.exec, LogicalLexer.take_of_formed alike.formed.1,
        LogicalLexer.take_of_formed alike.formed.2] at steps steps'
      cases steps
      cases steps'
      exact ⟨alike.look 0, alike.move 1⟩
  | advanceIfMatches expected =>
      simp only [LogicalLexer.exec, alike.look 0, LogicalLexer.take_of_formed alike.formed.1,
        LogicalLexer.take_of_formed alike.formed.2] at steps steps'
      split at steps
      · rename_i sees
        rw [if_pos sees] at steps'
        cases steps
        cases steps'
        exact ⟨rfl, alike.move 1⟩
      · rename_i sees
        rw [if_neg sees] at steps'
        cases steps
        cases steps'
        exact ⟨rfl, alike⟩
  | advanceIfMatchesStr expected =>
      have same := raw expected met met'
      simp only [LogicalLexer.exec, same] at steps steps'
      split at steps
      · rename_i stands
        rw [if_pos stands] at steps'
        cases steps
        cases steps'
        exact ⟨rfl, alike.move _⟩
      · rename_i stands
        rw [if_neg stands] at steps'
        cases steps
        cases steps'
        exact ⟨rfl, alike⟩
  | isAtEnd =>
      cases steps
      cases steps'
      have empty := congrArg List.isEmpty alike.rest
      exact ⟨by simpa [charsOf] using empty, alike⟩
  | newToken =>
      cases steps
      cases steps'
      exact ⟨rfl, alike.rest, rfl, alike.formed, alike.escapeErrors, alike.tokens, alike.errors,
        alike.templates⟩
  | currentTokenLexeme =>
      have read : LogicalLexer.exec .currentTokenLexeme t = _ :=
        exec_currentTokenLexeme (scanTokens_meets met)
      have read' : LogicalLexer.exec .currentTokenLexeme t' = _ :=
        exec_currentTokenLexeme (scanTokens_meets met')
      rw [read] at steps
      rw [read'] at steps'
      cases steps
      cases steps'
      exact ⟨alike.lexeme, alike⟩
  | completeToken tokenType =>
      cases steps
      cases steps'
      exact ⟨rfl, alike.completed rfl⟩
  | completeEof =>
      cases steps
      cases steps'
      exact ⟨rfl, alike.completed rfl⟩
  | reportError errorType =>
      simp only [LogicalLexer.exec, LogicalLexer.reportError] at steps steps'
      split at steps <;> cases steps
      split at steps' <;> cases steps'
      exact ⟨rfl, alike.reported rfl⟩
  | collectEscapeErrors =>
      cases steps
      cases steps'
      refine ⟨rfl, alike.rest, alike.lexeme, alike.formed, alike.escapeErrors, alike.tokens, ?_,
        alike.templates⟩
      simp [LogicalLexer.collectEscapeErrors, alike.escapeErrors, alike.errors]
  | getTemplates =>
      cases steps
      cases steps'
      exact ⟨alike.templates, alike⟩
  | setTemplates templates =>
      cases steps
      cases steps'
      exact ⟨rfl, alike.rest, alike.lexeme, alike.formed, alike.escapeErrors, alike.tokens,
        alike.errors, rfl⟩

/-! ### Transparency -/

variable {U : UnicodeTables}

theorem decoded_of_stream {source chars : Text} (stream : logicalStream source = .ok (chars, [])) :
    ∃ lcs, spelled lcs = source ∧ Decoded lcs ∧ charsOf lcs = chars ∧ WellFormed lcs := by
  simp only [logicalStream, bind, Except.bind] at stream
  split at stream
  · cases stream
  · rename_i result drained
    obtain ⟨cs, r'⟩ := result
    simp only [pure, Except.pure, Except.ok.injEq, Prod.mk.injEq] at stream
    obtain ⟨rfl, clean⟩ := stream
    have start : (SourceReader.new source).source = [] ++ source := rfl
    exact decoded_of_drain start rfl (Nat.le_refl _) drained clean

/-- A source without escape errors is lexed, if it is shorter than 4 GiB. -/
theorem lex_returns {source chars : Text} (stream : logicalStream source = .ok (chars, []))
    (short : byteLen source < 2 ^ 32) : ∃ fuel tokens errors, lex U fuel source = some (tokens, errors) := by
  obtain ⟨lcs, rfl, decoded, -, -⟩ := decoded_of_stream stream
  rcases (scanTokens_wp U decoded).ends with ⟨_, t, returns, -⟩ | ⟨_, -, -, long⟩
  · obtain ⟨fuel, runs⟩ := machine_image.returns.mpr ⟨t, returns, rfl⟩
    rw [LogicalLexer.concrete_new decoded] at runs
    exact ⟨fuel, _, _, lex_eq_some.mpr ⟨_, runs, rfl, rfl⟩⟩
  · omega

/-- Two sources with the same logical characters and no escape errors get tokens and errors of the
same kinds, when wherever both come to a byte-by-byte match they match alike. -/
theorem lex_alike (U : UnicodeTables) (source source' chars : Text)
    (stream : logicalStream source = .ok (chars, [])) (stream' : logicalStream source' = .ok (chars, []))
    (raw : RawMatchesAgree U source source') :
    (byteLen source < 2 ^ 32 → ∃ fuel tokens errors, lex U fuel source = some (tokens, errors)) ∧
    (byteLen source' < 2 ^ 32 → ∃ fuel tokens errors, lex U fuel source' = some (tokens, errors)) ∧
    ∀ fuel fuel' tokens tokens' errors errors', lex U fuel source = some (tokens, errors) →
      lex U fuel' source' = some (tokens', errors') →
      tokens.map Token.kind = tokens'.map Token.kind ∧
        errors.map LexicalError.kind = errors'.map LexicalError.kind := by
  refine ⟨lex_returns stream, lex_returns stream', ?_⟩
  intro fuel fuel' tokens tokens' errors errors' lexed lexed'
  obtain ⟨final, runs, rfl, rfl⟩ := lex_eq_some.mp lexed
  obtain ⟨final', runs', rfl, rfl⟩ := lex_eq_some.mp lexed'
  obtain ⟨lcs, rfl, decoded, same, formed⟩ := decoded_of_stream stream
  obtain ⟨lcs', rfl, decoded', same', formed'⟩ := decoded_of_stream stream'
  rw [← LogicalLexer.concrete_new decoded] at runs
  rw [← LogicalLexer.concrete_new decoded'] at runs'
  obtain ⟨t, returns, rfl⟩ := machine_image.returns.mp ⟨fuel, runs⟩
  obtain ⟨t', returns', rfl⟩ := machine_image.returns.mp ⟨fuel', runs'⟩
  have start : Alike (.new lcs decoded) (.new lcs' decoded') :=
    ⟨same.trans same'.symm, rfl, ⟨formed, formed'⟩, ⟨rfl, rfl⟩, rfl, rfl, rfl⟩
  have along : AgreeAlong logicalMachine logicalMachine Alike (scanTokens U) (.new lcs decoded)
      (.new lcs' decoded') := by
    intro β o s s' met met' alike
    apply agree_of_alike met met' alike
    intro expected here here'
    have ahead : s.concrete.remaining = s'.concrete.remaining := by
      rw [LogicalLexer.concrete_remaining alike.formed.1,
        LogicalLexer.concrete_remaining alike.formed.2, alike.rest]
    exact raw expected _ _ _ _ (machine_image.meets here) (machine_image.meets here') ahead
      (s.concrete_isAt expected) (s'.concrete_isAt expected)
  have ends := (along.returns (fun p => nomatch p) start returns returns').2
  exact ⟨ends.tokens, ends.errors⟩

/-- Text without the characters of any raw match is matched nowhere. -/
theorem not_isAt_of_absent {source : Text}
    (absent : ∀ expected : RawText, ∀ c ∈ expected.text, c ∉ source) {l : Lexer}
    (same : l.reader.source = source) (expected : RawText) :
    l.reader.isAt expected.text ≠ .ok true := by
  intro stands
  unfold SourceReader.isAt at stands
  cases sliced : sliceFrom? l.reader.source l.reader.current with
  | none => simp [sliced] at stands
  | some ahead =>
      rw [sliced] at stands
      obtain ⟨before, split, -⟩ := sliceFrom?_eq_some sliced
      obtain ⟨after, rfl⟩ := List.isPrefixOf_iff_prefix.mp (Except.ok.inj stands)
      obtain ⟨c, cs, first⟩ : ∃ c cs, expected.text = c :: cs := by
        cases expected <;> exact ⟨_, _, rfl⟩
      apply absent expected c (by simp [first])
      rw [← same, split, first]
      simp

/-- Without the characters of a raw match in either source, the spelling makes no difference. -/
theorem rawMatchesAgree_of_absent {source source' : Text}
    (absent : ∀ expected : RawText, ∀ c ∈ expected.text, c ∉ source)
    (absent' : ∀ expected : RawText, ∀ c ∈ expected.text, c ∉ source') :
    RawMatchesAgree U source source' := by
  have kept : ∀ {text : Text} {expected : RawText} {l : Lexer},
      Meets machine (.advanceIfMatchesStr expected) l (scanTokens U) (.new text) →
      l.reader.source = text := by
    intro text expected l met
    apply met.keeps (fun l => l.reader.source = text) _ rfl
    intro β o l b l' same steps
    exact (exec_reader steps).1.trans same
  intro expected l l' b b' met met' _ matched matched'
  have unmatched := not_isAt_of_absent absent (kept met) expected
  have unmatched' := not_isAt_of_absent absent' (kept met') expected
  rw [matched] at unmatched
  rw [matched'] at unmatched'
  cases b <;> cases b' <;> simp at *

/-- An escaped letter is an identifier like the letter itself. -/
theorem lex_alike_letter :
    [⟨.identifier, ['a'], 0⟩, ⟨.eof, [], 1⟩].map Token.kind =
      [⟨.identifier, ['\\', 'u', '0', '0', '6', '1'], 0⟩, ⟨.eof, [], 6⟩].map Token.kind := by
  have absent : ∀ expected : RawText, ∀ c ∈ expected.text, c ∉ ['a'] := by
    intro expected
    cases expected <;> simp [RawText.text]
  have absent' : ∀ expected : RawText, ∀ c ∈ expected.text,
      c ∉ ['\\', 'u', '0', '0', '6', '1'] := by
    intro expected
    cases expected <;> simp [RawText.text]
  have alike := lex_alike latin1 ['a'] ['\\', 'u', '0', '0', '6', '1'] ['a'] rfl rfl
    (rawMatchesAgree_of_absent absent absent')
  exact (alike.2.2 6 6 _ _ [] [] rfl rfl).1

/-- The second character of `==` is matched byte by byte: escaped, it is a token of its own. -/
theorem lex_differs_on_escaped_equal :
    logicalStream ['=', '='] = .ok (['=', '='], []) ∧
    logicalStream ['=', '\\', 'u', '0', '0', '3', 'd'] = .ok (['=', '='], []) ∧
    ∃ tokens tokens', lex latin1 6 ['=', '='] = some (tokens, []) ∧
      lex latin1 6 ['=', '\\', 'u', '0', '0', '3', 'd'] = some (tokens', []) ∧
      tokens.map Token.kind ≠ tokens'.map Token.kind := by
  have one : lex latin1 6 ['=', '='] = some ([⟨.equalEqual, ['=', '='], 0⟩, ⟨.eof, [], 2⟩], []) :=
    rfl
  have two : lex latin1 6 ['=', '\\', 'u', '0', '0', '3', 'd'] = some ([⟨.equal, ['='], 0⟩,
      ⟨.equal, ['\\', 'u', '0', '0', '3', 'd'], 1⟩, ⟨.eof, [], 7⟩], []) := rfl
  exact ⟨rfl, rfl, _, _, one, two, by decide⟩

end CaffeineLs.JavaSyntax
