/-
Module: CaffeineLs.Proofs.KotlinTermination
Purpose: The Kotlin lexer terminates exactly on the sources on which its loop never comes to a
  numeric character that is no ASCII digit.
Trusted boundary: none
Main exports: scanTokens_diverges, scanNextToken_progress_iff, scanTokens_terminates_iff
-/
import CaffeineLs.Proofs.KotlinRuns

namespace CaffeineLs.KotlinSyntax

open Imperative
open SourceText

/-- Whenever the scanning step returns, it has advanced the reader or left a mode. -/
def StepProgresses (U : UnicodeTables) (l : Lexer) : Prop :=
  ∀ l', Returns machine (scanNextToken U) l () l' →
    l.reader.current < l'.reader.current ∨
      l'.nesting.modeStack.length < l.nesting.modeStack.length

theorem Position.reader_current (p : Position) : p.reader.current = byteLen p.done := by
  simp [Position.reader, Position.done]

theorem Position.more_of_not_atEnd {p : Position} {l : Lexer} (here : l.reader = p.reader)
    (more : l.reader.isAtEnd = false) : p.rest ≠ [] := by
  rw [here, p.reader_isAtEnd] at more
  simpa using more

/-- At a stalling character the step returns to the same place, in the same mode. -/
theorem stalls_again {U : UnicodeTables} {source : Text} {l : Lexer} (inv : l.Inv source)
    (more : l.reader.isAtEnd = false) (stalls : l.stalls U = true) :
    ∃ l', Returns machine (scanNextToken U) l () l' ∧ l'.Inv source ∧
      l'.reader.current = l.reader.current ∧ l'.reader.isAtEnd = false ∧
      l'.nesting = l.nesting ∧ l'.stalls U = true := by
  rcases inv with ⟨p, here, whole, ok⟩
  have some := Position.more_of_not_atEnd here more
  rcases (scanNextToken_stalls here some stalls).ends with
    ⟨_, l', step, here', nesting⟩ | ⟨e, -, never⟩
  · rcases List.exists_cons_of_ne_nil some with ⟨c, cs, split⟩
    have ahead : p.fresh.rest = c :: cs := split
    refine ⟨l', step, ⟨p.fresh, here', ?_, nesting ▸ ok⟩, ?_, ?_, nesting, ?_⟩
    · simpa [Position.done, Position.fresh] using whole
    · rw [here, here', Position.reader_current, Position.reader_current]
      simp [Position.done, Position.fresh]
    · rw [here', Position.reader_isAtEnd, ahead]
      rfl
    · have mode : l'.mode = l.mode := by rw [Lexer.mode, nesting, Lexer.mode]
      rw [Lexer.stalls, defaultAt_eq here split] at stalls
      rw [Lexer.stalls, defaultAt_eq here' ahead, mode]
      exact stalls
  · exact never.elim

/-- The loop never leaves a stalling character. -/
theorem scanLoop_diverges {U : UnicodeTables} {source : Text} {l : Lexer} (inv : l.Inv source)
    (more : l.reader.isAtEnd = false) (stalls : l.stalls U = true) :
    Diverges machine (scanLoop U) l := by
  apply Diverges.of_invariant
    (fun _ l => l.Inv source ∧ l.reader.isAtEnd = false ∧ l.stalls U = true) _
    ⟨inv, more, stalls⟩
  intro _ l ⟨inv, more, stalls⟩
  rcases stalls_again inv more stalls with ⟨l', step, inv', -, more', -, stalls'⟩
  exact ⟨(), l', returns_round more step, inv', more', stalls'⟩

/-- A loop head that does not stall progresses. -/
theorem progresses_of_not_stalls {U : UnicodeTables} {source : Text} {l : Lexer}
    (inv : l.Inv source) (more : l.reader.isAtEnd = false) (goes : l.stalls U = false) :
    Wp machine (Wraps l) (scanNextToken U) (fun _ l' => l'.Inv source ∧
      (l.reader.current < l'.reader.current ∧
        l'.nesting.modeStack.length ≤ l.nesting.modeStack.length + 1 ∨
      l'.reader.current = l.reader.current ∧
        l'.nesting.modeStack.length < l.nesting.modeStack.length)) l := by
  rcases inv with ⟨p, here, whole, ok⟩
  have some := Position.more_of_not_atEnd here more
  have further : ∀ {q : Position} {l' : Lexer} {consumed : Text}, l'.reader = q.reader →
      q.done = p.done ++ consumed → l'.reader.current = l.reader.current + byteLen consumed := by
    intro q l' consumed here' done
    simp [here, here', Position.reader_current, done]
  cases drops : l.drops U with
  | true =>
      apply (scanNextToken_drops here ok some drops).mono
      intro _ l' steps
      refine ⟨steps.inv whole, ?_⟩
      rcases steps with ⟨q, consumed, new, -, done, here', -, -, nonempty, -, height⟩
      have := byteLen_pos_of_ne_nil nonempty
      exact .inl ⟨by rw [further here' done]; omega, by omega⟩
  | false =>
      apply (scanNextToken_moves here ok some goes drops).mono
      intro _ l' steps
      refine ⟨steps.inv whole, ?_⟩
      rcases steps with ⟨q, consumed, new, -, done, here', -, -, moved⟩
      rcases moved with ⟨nonempty, -, height⟩ | ⟨rfl, -, lower⟩
      · have := byteLen_pos_of_ne_nil nonempty
        exact .inl ⟨by rw [further here' done]; omega, height⟩
      · exact .inr ⟨by simpa using further here' done, lower⟩

/-- A scanning step from a loop head makes progress exactly where it does not stall. -/
theorem stepProgresses_iff {U : UnicodeTables} {source : Text} {l : Lexer}
    (head : LoopHead U source l) (more : l.reader.isAtEnd = false) :
    StepProgresses U l ↔ l.stalls U = false := by
  constructor
  · intro progresses
    by_contra stalls
    rcases stalls_again head.inv more (by simpa using stalls) with
      ⟨l', step, -, current, -, nesting, -⟩
    have progress := progresses l' step
    rw [nesting, current] at progress
    omega
  · intro goes l' step
    have progress := ((progresses_of_not_stalls head.inv more goes).of_returns step).2
    omega

/-- A loop head's distance from the end: twice the bytes ahead and the modes still open. -/
def Lexer.distance (l : Lexer) : Nat :=
  2 * (byteLen l.reader.source - l.reader.current) + l.nesting.modeStack.length

theorem Lexer.Inv.source_eq {source : Text} {l : Lexer} (inv : l.Inv source) :
    l.reader.source = source ∧ l.reader.current ≤ byteLen source := by
  rcases inv with ⟨p, here, rfl, -⟩
  simp [here, Position.reader, Position.done]

/-- Where no loop head stalls, the loop returns, unless an error's range wraps around. -/
theorem scanLoop_wp {U : UnicodeTables} {source : Text}
    (goes : ∀ l, LoopHead U source l → l.reader.isAtEnd = false → l.stalls U = false) {l : Lexer}
    (head : LoopHead U source l) :
    Wp machine (fun _ => 2 ^ 32 ≤ byteLen source) (scanLoop U) (fun _ _ => True) l := by
  apply Wp.whileDo (LoopHead U source) Lexer.distance _ head
  intro l head
  apply Returns.wp (returns_notAtEnd.mpr ⟨rfl, rfl⟩)
  cases ended : l.reader.isAtEnd with
  | true => trivial
  | false =>
      have steps := (progresses_of_not_stalls head.inv ended (goes l head ended)).with_returns
      apply (steps.mono_bad fun e wraps => head.inv.source_eq.1 ▸ wraps.2).mono
      intro _ l' ⟨step, inv', progress⟩
      refine ⟨head.next ended step, ?_⟩
      rcases head.inv.source_eq with ⟨source₁, within⟩
      rcases inv'.source_eq with ⟨source₂, within'⟩
      have before : l.reader.current < byteLen source := by
        simpa [SourceReader.isAtEnd, source₁] using ended
      simp only [Lexer.distance, source₁, source₂]
      omega

theorem scanTokens_wp {U : UnicodeTables} {source : Text}
    (goes : ∀ l, LoopHead U source l → l.reader.isAtEnd = false → l.stalls U = false) :
    Wp machine (fun _ => 2 ^ 32 ≤ byteLen source) (scanTokens U) (fun _ _ => True)
      (.new source) := by
  apply wp_bind.mpr
  apply ((scanPrologue_wp source).with_returns.mono_bad fun _ wraps => wraps.2).mono
  intro _ l ⟨prologue, _⟩
  apply wp_bind.mpr
  apply (scanLoop_wp goes (.first prologue)).mono
  intro _ l' _
  exact (wp_op (b := ()) rfl).mpr (wp_pure.mpr trivial)

/-- A run that halts comes to no stalling character. -/
theorem not_stalls_of_halts {U : UnicodeTables} {source : Text} {l : Lexer}
    (halts : Halts machine (scanTokens U) (.new source)) (head : LoopHead U source l)
    (more : l.reader.isAtEnd = false) : l.stalls U = false := by
  by_contra stalls
  exact (scanLoop_diverges head.inv more (by simpa using stalls)).not_halts (head.halts halts)

/-- `scan_tokens` terminates exactly on the sources whose scanning never stands, in the default
mode, at a numeric character that is no ASCII digit; and a single scanning step advances the
reader or shortens the mode stack exactly where it does not stand at one. -/
theorem scanTokens_terminates_iff (U : UnicodeTables) (source : Text) :
    (Halts machine (scanTokens U) (.new source) ↔
      ∀ l, LoopHead U source l → l.reader.isAtEnd = false → l.stalls U = false) ∧
    ∀ l, LoopHead U source l → l.reader.isAtEnd = false →
      (StepProgresses U l ↔ l.stalls U = false) := by
  constructor
  · constructor
    · intro halts l head more
      exact not_stalls_of_halts halts head more
    · intro goes
      exact (scanTokens_wp goes).halts
  · intro l head more
    exact stepProgresses_iff head more

/-- On `½` the lexer runs forever, completing empty integer literals. -/
theorem scanTokens_diverges_on_vulgar_half :
    Diverges machine (scanTokens latin1) (.new ['½']) := by
  have prologue : Returns machine scanPrologue (.new ['½']) () (.new ['½']) := ⟨0, by decide⟩
  have head : LoopHead latin1 ['½'] (.new ['½']) := .first prologue
  have loop : Diverges machine (scanLoop latin1) (.new ['½']) :=
    scanLoop_diverges head.inv (by decide) (by decide)
  exact Diverges.bind_right prologue loop.bind_left

end CaffeineLs.KotlinSyntax
