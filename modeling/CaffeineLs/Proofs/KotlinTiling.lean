/-
Module: CaffeineLs.Proofs.KotlinTiling
Purpose: The tokens of the Kotlin lexer tile the source exactly when there is no byte-order mark,
  no character is dropped and the offsets fit their width.
Trusted boundary: none
Main exports: LoopHead.tilesSoFar, LoopHead.within, lex_tiles_iff
-/
import CaffeineLs.Proofs.KotlinTermination

namespace CaffeineLs.KotlinSyntax

open Imperative
open SourceText

/-- The tokens cut up the text before the cursor. -/
def Lexer.TilesSoFar (source : Text) (l : Lexer) : Prop :=
  ∃ p : Position, l.reader = p.reader ∧ p.done ++ p.rest = source ∧ l.nesting.Ok ∧
    Cover 0 p.done l.tokens

/-- The bytes in tokens. -/
def Lexer.covered (l : Lexer) : Nat := byteLen (textOf Token.lexeme l.tokens)

/-- Some text before the cursor is in no token. -/
def Lexer.Lost (l : Lexer) : Prop := l.covered < l.reader.current

variable {U : UnicodeTables} {source : Text}

/-- A step that moves keeps the tiling. -/
theorem tilesSoFar_step {l l' : Lexer} (tiles : l.TilesSoFar source)
    (more : l.reader.isAtEnd = false) (goes : l.stalls U = false) (known : l.drops U = false)
    (step : Returns machine (scanNextToken U) l () l') : l'.TilesSoFar source := by
  obtain ⟨p, here, whole, ok, cover⟩ := tiles
  have some := Position.more_of_not_atEnd here more
  obtain ⟨q, consumed, new, rest, done, here', tokens, ok', moved⟩ :=
    (scanNextToken_moves here ok some goes known).of_returns step
  refine ⟨q, here', by rw [done, ← whole, rest, List.append_assoc], ok', ?_⟩
  rw [tokens, done]
  rcases moved with ⟨-, cover', -⟩ | ⟨rfl, rfl, -⟩
  · exact cover.append (by simpa using cover')
  · simpa using cover

/-- What a step adds to the tokens is no more than what it consumes, and a dropped character is
consumed without a token. -/
theorem covered_step {l l' : Lexer} (inv : l.Inv source) (more : l.reader.isAtEnd = false)
    (goes : l.stalls U = false) (step : Returns machine (scanNextToken U) l () l') :
    l'.covered + l.reader.current ≤ l.covered + l'.reader.current ∧
      (l.drops U = true → l'.covered + l.reader.current < l.covered + l'.reader.current) := by
  obtain ⟨p, here, whole, ok⟩ := inv
  have some := Position.more_of_not_atEnd here more
  have further : ∀ {q : Position} {consumed : Text}, l'.reader = q.reader →
      q.done = p.done ++ consumed → l'.reader.current = l.reader.current + byteLen consumed := by
    intro q consumed here' done
    simp [here, here', Position.reader_current, done]
  cases drops : l.drops U with
  | true =>
      obtain ⟨q, consumed, new, -, done, here', tokens, -, nonempty, rfl, -⟩ :=
        (scanNextToken_drops here ok some drops).of_returns step
      have := byteLen_pos_of_ne_nil nonempty
      have same : l'.covered = l.covered := by simp [Lexer.covered, tokens]
      rw [further here' done, same]
      omega
  | false =>
      obtain ⟨q, consumed, new, -, done, here', tokens, -, moved⟩ :=
        (scanNextToken_moves here ok some goes drops).of_returns step
      have added : l'.covered = l.covered + byteLen consumed := by
        rcases moved with ⟨-, cover, -⟩ | ⟨rfl, rfl, -⟩
        · simp [Lexer.covered, tokens, cover.1]
        · simp [Lexer.covered, tokens]
      rw [further here' done, added]
      exact ⟨by omega, by simp⟩

/-- After the prologue everything is in a token, unless there was a byte-order mark. -/
theorem covered_prologue {l : Lexer} (prologue : Returns machine scanPrologue (.new source) () l) :
    if startsWithBom source then l.Lost else l.covered = l.reader.current := by
  obtain ⟨q, consumed, new, -, done, here, tokens, -, cover⟩ :=
    (scanPrologue_wp source).of_returns prologue
  have current : l.reader.current = byteLen consumed := by
    rw [here, q.reader_current, done]
    rfl
  have covered : l.covered = byteLen (textOf Token.lexeme new) := by
    simp [Lexer.covered, tokens, Lexer.new]
  rw [Lexer.Lost, current, covered]
  split at cover
  · rename_i bom
    rw [if_pos bom]
    exact cover
  · rename_i noBom
    rw [if_neg noBom, cover.1]

section Runs

variable (goes : ∀ l, LoopHead U source l → l.reader.isAtEnd = false → l.stalls U = false)

include goes

/-- Without a byte-order mark and dropped characters every loop head has tiled its past. -/
theorem LoopHead.tilesSoFar (noBom : startsWithBom source = false)
    (known : ∀ l, LoopHead U source l → l.reader.isAtEnd = false → l.drops U = false) {l : Lexer}
    (head : LoopHead U source l) : l.TilesSoFar source := by
  induction head with
  | first prologue =>
      have inv := (LoopHead.first (U := U) prologue).inv
      obtain ⟨q, consumed, new, rest, done, here, tokens, nesting, cover⟩ :=
        (scanPrologue_wp source).of_returns prologue
      have start : q.done = consumed := done
      have whole : source = consumed ++ q.rest := rest
      rw [noBom] at cover
      obtain ⟨-, -, -, ok⟩ := inv
      refine ⟨q, here, by rw [start, whole], ok, ?_⟩
      rw [tokens, start]
      exact cover
  | next head more step ih =>
      exact tilesSoFar_step ih more (goes _ head more) (known _ head more) step

/-- The tokens never hold more than was consumed. -/
theorem LoopHead.within {l : Lexer} (head : LoopHead U source l) :
    l.covered ≤ l.reader.current := by
  induction head with
  | @first l prologue =>
      have start := covered_prologue prologue
      split at start
      · exact Nat.le_of_lt start
      · exact Nat.le_of_eq start
  | @next l l' head more step ih =>
      have := (covered_step head.inv more (goes _ head more) step).1
      omega

/-- Text that is lost stays lost. -/
theorem lost_of_loop {l l' : Lexer} (head : LoopHead U source l) (lost : l.Lost)
    (returns : Returns machine (scanLoop U) l () l') : l'.Lost := by
  refine (scanLoop_keeps Lexer.Lost (fun l l' head more lost step => ?_) head lost returns).2.2
  have := (covered_step head.inv more (goes _ head more) step).1
  unfold Lexer.Lost at *
  omega

end Runs

theorem current_of_atEnd {l : Lexer} (inv : l.Inv source) (ended : l.reader.isAtEnd = true) :
    l.reader.current = byteLen source := by
  obtain ⟨same, within⟩ := inv.source_eq
  have beyond : byteLen source ≤ l.reader.current := by
    simpa [SourceReader.isAtEnd, same] using ended
  omega

theorem lex_eq_some {fuel : Nat} {tokens : List Token} {errors : List LexicalError}
    (returns : lex U fuel source = some (tokens, errors)) :
    ∃ final, Returns machine (scanTokens U) (.new source) () final ∧ final.tokens = tokens := by
  unfold lex at returns
  split at returns
  · rename_i l runs
    simp only [Option.some.injEq, Prod.mk.injEq] at returns
    exact ⟨l, ⟨fuel, runs⟩, returns.1⟩
  · simp at returns

/-- Whenever `lex` returns, its tokens tile the source exactly when the source has no byte-order
mark, is shorter than 4 GiB, and the scanning never stands, in the default mode, at a character
it reports as unexpected. -/
theorem lex_tiles_iff (U : UnicodeTables) (fuel : Nat) (source : Text) (tokens : List Token)
    (errors : List LexicalError) (returns : lex U fuel source = some (tokens, errors)) :
    Tiles Token.lexeme Token.offset tokens source ↔
      startsWithBom source = false ∧ byteLen source < 2 ^ 32 ∧
        ∀ l, LoopHead U source l → l.reader.isAtEnd = false → l.drops U = false := by
  obtain ⟨final, run, rfl⟩ := lex_eq_some returns
  have goes : ∀ l, LoopHead U source l → l.reader.isAtEnd = false → l.stalls U = false :=
    fun l => not_stalls_of_halts run.halts
  obtain ⟨first, last, prologue, loop, head, ended, rfl⟩ := scanTokens_ends run
  have current := current_of_atEnd head.inv ended
  have notLost : Tiles Token.lexeme Token.offset last.completeEof.tokens source → ¬ last.Lost := by
    rintro ⟨text, -⟩ lost
    have covered : last.covered = byteLen source := by
      rw [← text]
      simp [Lexer.covered, Lexer.completeEof, Token.new]
    rw [Lexer.Lost, covered, current] at lost
    exact Nat.lt_irrefl _ lost
  have last_tiles : startsWithBom source = false →
      (∀ l, LoopHead U source l → l.reader.isAtEnd = false → l.drops U = false) →
      (Tiles Token.lexeme Token.offset last.completeEof.tokens source ↔ byteLen source < 2 ^ 32) := by
    intro noBom known
    obtain ⟨p, here, whole, -, text, offsets⟩ := head.tilesSoFar goes noBom known
    have nothing : p.rest = [] := by simpa [here, p.reader_isAtEnd] using ended
    have done : p.done = source := by simpa [nothing] using whole
    refine tiles_iff_of_last (offsetsFrom_append.mpr ⟨offsets, offsetsFrom_singleton.mpr ?_⟩) rfl
      (text.trans done) (by decide)
    simp [Token.new, u32, text, done, current]
  constructor
  · intro tiles
    have noBom : startsWithBom source = false := by
      by_contra bom
      have lost := covered_prologue prologue
      rw [if_pos (by simpa using bom)] at lost
      exact notLost tiles (lost_of_loop goes (.first prologue) lost loop)
    have known : ∀ l, LoopHead U source l → l.reader.isAtEnd = false → l.drops U = false := by
      intro l head' more
      by_contra drops
      have others := head'.returns prologue loop
      rw [returns_scanLoop, more] at others
      obtain ⟨l', step, others⟩ := others
      have within := head'.within goes
      have lost := (covered_step head'.inv more (goes l head' more) step).2 (by simpa using drops)
      refine notLost tiles (lost_of_loop goes (head'.next more step) ?_ others)
      unfold Lexer.Lost
      omega
    exact ⟨noBom, (last_tiles noBom known).mp tiles, known⟩
  · rintro ⟨noBom, small, known⟩
    exact (last_tiles noBom known).mpr small

theorem lex_tiles_plus :
    Tiles Token.lexeme Token.offset
        [⟨.identifier, ['a'], 0⟩, ⟨.plus, ['+'], 1⟩, ⟨.identifier, ['b'], 2⟩, ⟨.eof, [], 3⟩]
        ['a', '+', 'b'] ↔
      startsWithBom ['a', '+', 'b'] = false ∧ byteLen ['a', '+', 'b'] < 2 ^ 32 ∧
        ∀ l, LoopHead latin1 ['a', '+', 'b'] l → l.reader.isAtEnd = false →
          l.drops latin1 = false :=
  lex_tiles_iff latin1 6 ['a', '+', 'b'] _ [] (by decide)

/-- The text of a character reported as unexpected is in no token. -/
theorem lex_drops_hash :
    ∃ tokens errors, lex latin1 6 ['a', '#', 'b'] = some (tokens, errors) ∧
      ¬ Tiles Token.lexeme Token.offset tokens ['a', '#', 'b'] := by
  refine ⟨[⟨.identifier, ['a'], 0⟩, ⟨.identifier, ['b'], 2⟩, ⟨.eof, [], 3⟩],
    [⟨.unexpectedChar '#', 1, 2⟩], by decide, ?_⟩
  rintro ⟨text, -⟩
  exact absurd text (by decide)

end CaffeineLs.KotlinSyntax
