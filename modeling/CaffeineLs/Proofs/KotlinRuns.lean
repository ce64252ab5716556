/-
Module: CaffeineLs.Proofs.KotlinRuns
Purpose: The scanning step as the scanning loop takes it, and the states the loop comes to.
Trusted boundary: none
Main exports: Lexer.stalls, Lexer.drops, scanNextToken_moves
-/
import CaffeineLs.Proofs.KotlinModes

namespace CaffeineLs.KotlinSyntax

open Imperative
open SourceText

/-- The mode the next token is scanned in. -/
def Lexer.mode (l : Lexer) : LexerMode := l.nesting.modeStack.headD .default

/-- The lexer is in the default mode at a character that satisfies `p`. -/
def Lexer.defaultAt (l : Lexer) (p : Char → Bool) : Bool :=
  l.mode = .default &&
    match l.reader.peekN 0 with
    | .ok c => p c
    | .error _ => false

/-- The next scanning step consumes nothing and leaves no mode. -/
def Lexer.stalls (U : UnicodeTables) (l : Lexer) : Bool := l.defaultAt (isStalling U)

/-- The next scanning step reports a character and completes no token for it. -/
def Lexer.drops (U : UnicodeTables) (l : Lexer) : Bool := l.defaultAt (isUnexpected U)

theorem defaultAt_eq {l : Lexer} {p : Position} {c : Char} {cs : Text} (here : l.reader = p.reader)
    (rest : p.rest = c :: cs) (q : Char → Bool) :
    l.defaultAt q = (decide (l.mode = .default) && q c) := by
  rw [Lexer.defaultAt, here, p.reader_peekN, rest]
  rfl

/-- One call of `scan_next_token` from `p`: what it consumed, and what it did for it. -/
def Steps (p : Position) (l : Lexer) (post : Text → List Token → Stacks → Prop) (l' : Lexer) : Prop :=
  ∃ (q : Position) (consumed : Text) (new : List Token), p.rest = consumed ++ q.rest ∧
    q.done = p.done ++ consumed ∧ l'.reader = q.reader ∧ l'.tokens = l.tokens ++ new ∧
    l'.nesting.Ok ∧ post consumed new l'.nesting

/-- Closing an open string at the end of the input only shortens the mode stack. -/
theorem closeStringAtEnd_wp {p : Position} {l : Lexer} (here : l.reader = p.reader)
    (ok : l.nesting.Ok) :
    Wp machine (Wraps l) closeStringAtEnd (fun _ l' => l'.reader = l.reader ∧ l'.tokens = l.tokens ∧
      l'.nesting.Ok ∧ l'.nesting.modeStack.length ≤ l.nesting.modeStack.length ∧
      (p.rest ≠ [] → l' = l)) l := by
  refine wp_bind.mpr ((isAtEnd_reads p l here).mono ?_)
  rintro ended l' ⟨rfl, rfl⟩
  refine wp_ite.mpr ?_
  split
  · rename_i atEnd
    have nothing : p.rest = [] := List.isEmpty_iff.mp atEnd
    refine wp_getStacks.mpr ?_
    split
    · rcases reportError_cases here .unterminatedString with
        ⟨l'', reports, reader, tokens, nesting⟩ | ⟨aborts, wraps⟩
      · apply (wp_perform reports).mpr
        apply ((popMode_restacks l'' (nesting ▸ ok)).mono_bad fun _ => False.elim).mono
        intro _ l₃ ⟨reader', tokens', ok', height⟩
        refine ⟨reader'.trans reader, tokens'.trans tokens, ok', ?_,
          fun some => absurd nothing some⟩
        rw [height, nesting]
        exact Nat.sub_le _ _
      · exact (wp_op_error aborts).mpr wraps
    · exact wp_pure.mpr ⟨rfl, rfl, ok, Nat.le_refl _, fun _ => rfl⟩
  · exact wp_pure.mpr ⟨rfl, rfl, ok, Nat.le_refl _, fun _ => rfl⟩

theorem Position.reader_source (p : Position) : p.reader.source = p.done ++ p.rest := by
  simp [Position.reader, Position.done]

theorem wraps_of_same_source {l l' : Lexer} (same : l'.reader.source = l.reader.source) (e : Panic)
    (wraps : Wraps l' e) : Wraps l e :=
  ⟨wraps.1, same ▸ wraps.2⟩

/-- A step of the mode's own routine is one of `scan_next_token`. -/
theorem scanNextToken_of_mode {U : UnicodeTables} {p : Position} {l : Lexer}
    {preP : Position → Prop} {post : Nat → Text → List Token → Stacks → Stacks → Prop}
    {post' : Text → List Token → Stacks → Prop} (here : l.reader = p.reader) (ok : l.nesting.Ok)
    (step : Step preP (scanMode U l.mode) post) (holds : preP p.fresh)
    (after : ∀ consumed new s s', post (byteLen p.done) consumed new l.nesting s →
      s'.modeStack.length ≤ s.modeStack.length →
      (∀ rest, p.rest = consumed ++ rest → rest ≠ [] → s' = s) → post' consumed new s') :
    Wp machine (Wraps l) (scanNextToken U) (fun _ => Steps p l post') l := by
  refine (wp_perform (b := ()) rfl).mpr (wp_getStacks.mpr (wp_bind.mpr ?_))
  have fresh : l.reader.newToken = p.fresh.reader := here ▸ p.reader_newToken
  apply (step p.fresh { l with reader := l.reader.newToken } fresh holds ok).mono
  intro _ l' ⟨q, consumed, new, rest, done, here', tokens, ok', ends⟩
  have split : p.rest = consumed ++ q.rest := rest
  have done' : q.done = p.done ++ consumed := done
  have source : l'.reader.source = l.reader.source := by
    rw [here, here', Position.reader_source, Position.reader_source, done', split,
      List.append_assoc]
  apply ((closeStringAtEnd_wp here' ok').mono_bad (wraps_of_same_source source)).mono
  intro _ l'' ⟨reader, tokens', ok'', lower, same⟩
  refine ⟨q, consumed, new, split, done, reader.trans here', tokens'.trans tokens, ok'', ?_⟩
  refine after consumed new l'.nesting l''.nesting ends lower ?_
  intro rest' split' some
  rw [same (by rwa [List.append_cancel_left (split.symm.trans split')])]

/-- The effect of a scanning step that does its duty: it consumes and covers, or leaves a mode. -/
def Progress (p : Position) (l : Lexer) (consumed : Text) (new : List Token) (s : Stacks) : Prop :=
  (consumed ≠ [] ∧ Cover (byteLen p.done) consumed new ∧
    s.modeStack.length ≤ l.nesting.modeStack.length + 1) ∨
  (consumed = [] ∧ new = [] ∧ s.modeStack.length < l.nesting.modeStack.length)

theorem scanNextToken_moves {U : UnicodeTables} {p : Position} {l : Lexer}
    (here : l.reader = p.reader) (ok : l.nesting.Ok) (more : p.rest ≠ [])
    (goes : l.stalls U = false) (known : l.drops U = false) :
    Wp machine (Wraps l) (scanNextToken U) (fun _ => Steps p l (Progress p l)) l := by
  cases mode : l.mode with
  | default =>
      obtain ⟨c, cs, rest⟩ := List.exists_cons_of_ne_nil more
      rw [Lexer.stalls, defaultAt_eq here rest] at goes
      rw [Lexer.drops, defaultAt_eq here rest] at known
      have step : Step (fun q => q.rest = c :: cs) (scanMode U l.mode) Covers := by
        rw [mode]
        refine step_reads (peekN_reads 0) fun d => ?_
        rintro q m here' ⟨rest', sees⟩ ok'
        obtain rfl : c = d := by simpa [rest'] using sees
        exact dispatchDefault_step U (by simpa [mode] using goes) (by simpa [mode] using known)
          q m here' ⟨cs, rest'⟩ ok'
      refine scanNextToken_of_mode here ok step rest ?_
      rintro consumed new s s' ⟨some, cover, height⟩ lower -
      exact .inl ⟨some, cover, by omega⟩
  | string isRaw dollarDepth =>
      have step : Step (fun p => On More p ∧ p.lexeme = []) (scanMode U l.mode) Moved := by
        rw [mode]
        exact scanStringMode_step U isRaw dollarDepth
      have tall : 0 < l.nesting.modeStack.length := by
        cases modes : l.nesting.modeStack with
        | nil => simp [Lexer.mode, modes] at mode
        | cons m ms => simp
      refine scanNextToken_of_mode here ok step ⟨more, rfl⟩ ?_
      rintro consumed new s s' (⟨some, cover, height⟩ | ⟨⟨none, noNew⟩, height⟩) lower -
      · exact .inl ⟨some, cover, by omega⟩
      · exact .inr ⟨none, noNew, by omega⟩

theorem handleOther_consumes {c : Char} (unknown : c ∉ loneChars) : Consumes (At c) handleOther := by
  intro n
  refine walks_advance (fun rest holds => ?_) fun d => ?_
  · obtain ⟨cs, rfl⟩ := holds.1
    simp
  by_cases same : d = c
  · subst same
    simp only [loneChars, List.mem_cons, List.not_mem_nil, or_false, not_or] at unknown
    simp only [unknown, if_false]
    have report : Passes Anywhere (reportError (.unexpectedChar d)) := passes_reportError
    exact (report.shrinks n).mono (fun rest holds => ⟨trivial, by have := holds.2; simp at this; omega⟩)
      fun _ _ _ ends => ⟨ends.1.1, ends.2⟩
  · refine walks_absurd ?_
    rintro rest ⟨⟨cs, split⟩, -⟩
    exact same (List.cons.inj split).1

/-- A routine that consumes and adds no token loses text. -/
theorem Consumes.step {pre : Text → Prop} {x : Lex Unit} (consumes : Consumes pre x) :
    Step (On pre) x fun _ consumed new s s' => consumed ≠ [] ∧ new = [] ∧ s' = s := by
  intro p l here holds ok
  refine (consumes p.rest.length p l here ⟨holds, rfl⟩).mono ?_
  rintro _ l' ⟨q, new, ahead, ⟨none, shorter⟩, here', tokens, nesting⟩
  exact ⟨q, q.lexeme, new, ahead.consumed.1, ahead.consumed.2, here', tokens, nesting ▸ ok,
    ahead.lexeme_ne_nil shorter, none, nesting⟩

theorem scanNextToken_drops {U : UnicodeTables} {p : Position} {l : Lexer}
    (here : l.reader = p.reader) (ok : l.nesting.Ok) (more : p.rest ≠ [])
    (drops : l.drops U = true) :
    Wp machine (Wraps l) (scanNextToken U) (fun _ => Steps p l fun consumed new s =>
      consumed ≠ [] ∧ new = [] ∧ s.modeStack.length ≤ l.nesting.modeStack.length) l := by
  obtain ⟨c, cs, rest⟩ := List.exists_cons_of_ne_nil more
  simp only [Lexer.drops, defaultAt_eq here rest, Bool.and_eq_true, decide_eq_true_eq] at drops
  obtain ⟨mode, unexpected⟩ := drops
  obtain ⟨dispatch, unknown⟩ := dispatchDefault_of_unexpected unexpected
  have step : Step (fun q => q.rest = c :: cs) (scanMode U l.mode) fun _ consumed new s s' =>
      consumed ≠ [] ∧ new = [] ∧ s' = s := by
    rw [mode]
    refine step_reads (peekN_reads 0) fun d => ?_
    rintro q m here' ⟨rest', sees⟩ ok'
    obtain rfl : c = d := by simpa [rest'] using sees
    rw [dispatch]
    exact (handleOther_consumes unknown).step q m here' ⟨cs, rest'⟩ ok'
  refine scanNextToken_of_mode here ok step rest ?_
  rintro consumed new s s' ⟨some, none, rfl⟩ lower -
  exact ⟨some, none, lower⟩

/-- At a stalling character the step adds a token and changes nothing else. -/
theorem scanNextToken_stalls {U : UnicodeTables} {p : Position} {l : Lexer}
    (here : l.reader = p.reader) (more : p.rest ≠ []) (stalls : l.stalls U = true) :
    Wp machine (fun _ => False) (scanNextToken U)
      (fun _ l' => l'.reader = p.fresh.reader ∧ l'.nesting = l.nesting) l := by
  rcases List.exists_cons_of_ne_nil more with ⟨c, cs, rest⟩
  simp only [Lexer.stalls, defaultAt_eq here rest, Bool.and_eq_true, decide_eq_true_eq] at stalls
  rcases stalls with ⟨mode, stalling⟩
  have top : l.nesting.modeStack.headD .default = .default := mode
  have fresh : l.reader.newToken = p.fresh.reader := here ▸ p.reader_newToken
  have ahead : p.fresh.rest = c :: cs := rest
  apply (wp_perform (b := ()) rfl).mpr
  apply wp_getStacks.mpr
  rw [show scanMode U _ = scanDefaultMode U from congrArg (scanMode U) top]
  apply wp_bind.mpr
  have first : look p.fresh.rest 0 = c := by rw [ahead]; rfl
  apply (wp_peekN (p := p.fresh) fresh).mpr
  rw [first, dispatchDefault_of_stalling stalling]
  apply handleNumber_stays (p := p.fresh) fresh (first ▸ stalling)
  intro t
  apply (wp_isAtEnd (p := p.fresh) fresh).mpr
  rw [ahead]
  exact wp_pure.mpr ⟨fresh, rfl⟩

/-! ### The states at the head of the scanning loop -/

/-- The lexer comes to `l` at the head of its scanning loop. -/
inductive LoopHead (U : UnicodeTables) (source : Text) : Lexer → Prop where
  | first {l : Lexer} (prologue : Returns machine scanPrologue (.new source) () l) :
      LoopHead U source l
  | next {l l' : Lexer} (head : LoopHead U source l) (more : l.reader.isAtEnd = false)
      (step : Returns machine (scanNextToken U) l () l') : LoopHead U source l'

/-- The reader stands between two characters of the source and no template is at depth zero. -/
def Lexer.Inv (source : Text) (l : Lexer) : Prop :=
  ∃ p : Position, l.reader = p.reader ∧ p.done ++ p.rest = source ∧ l.nesting.Ok

/-- What the prologue's routines do: they consume some text and add tokens. -/
def Begins (p : Position) (l : Lexer) (post : Text → List Token → Prop) (l' : Lexer) : Prop :=
  ∃ (q : Position) (consumed : Text) (new : List Token), p.rest = consumed ++ q.rest ∧
    q.done = p.done ++ consumed ∧ l'.reader = q.reader ∧ l'.tokens = l.tokens ++ new ∧
    l'.nesting = l.nesting ∧ post consumed new

theorem scanShebang_wp {p : Position} {l : Lexer} (here : l.reader = p.reader) :
    Wp machine (Wraps l) scanShebang (fun _ => Begins p l (Cover (byteLen p.done))) l := by
  refine (wp_peekN here).mpr ((wp_peekN here).mpr (wp_ite.mpr ?_))
  split
  · refine (wp_perform (b := ()) rfl).mpr ?_
    have line : Completes Anywhere (advanceWhile (fun c => !isKotlinNewline c) >>= fun _ =>
        completeToken .shebangLine) := walks_bind advanceWhile_passes fun _ => completes_token
    have fresh : l.reader.newToken = p.fresh.reader := here ▸ p.reader_newToken
    refine (line p.fresh { l with reader := l.reader.newToken } fresh trivial).mono ?_
    rintro _ l' ⟨q, new, ahead, covered, here', tokens, nesting⟩
    exact ⟨q, q.lexeme, new, ahead.consumed.1, ahead.consumed.2, here', tokens, nesting,
      covered.cover ahead⟩
  · exact wp_pure.mpr ⟨p, [], [], rfl, by simp, here, by simp, rfl, rfl, offsetsFrom_nil⟩

/-- A byte-order mark starts the source. -/
def startsWithBom (source : Text) : Bool := source.head? = some '\uFEFF'

/-- The position at the start of the source. -/
def Position.start (source : Text) : Position := { before := [], lexeme := [], rest := source }

theorem Lexer.new_reader (source : Text) :
    (Lexer.new source).reader = (Position.start source).reader := by
  simp [Lexer.new, SourceReader.new, Position.start, Position.reader]

/-- The prologue covers what it consumes, except for a byte-order mark. -/
theorem scanPrologue_wp (source : Text) :
    Wp machine (Wraps (.new source)) scanPrologue (fun _ => Begins (.start source) (.new source) fun consumed new =>
      if startsWithBom source then byteLen (textOf Token.lexeme new) < byteLen consumed
      else Cover 0 consumed new) (.new source) := by
  have here := Lexer.new_reader source
  refine (wp_peekN here).mpr (wp_ite.mpr ?_)
  cases source with
  | nil =>
      rw [if_neg (by decide)]
      refine (scanShebang_wp here).mono ?_
      rintro _ l' ⟨q, consumed, new, rest, done, here', tokens, nesting, cover⟩
      exact ⟨q, consumed, new, rest, done, here', tokens, nesting, cover⟩
  | cons c cs =>
      split
      · rename_i bom
        have mark : c = '\uFEFF' := bom
        refine (wp_advance here rfl).mpr ((scanShebang_wp rfl).mono ?_)
        rintro _ l' ⟨q, consumed, new, rest, done, here', tokens, nesting, cover⟩
        refine ⟨q, c :: consumed, new, congrArg (c :: ·) rest, done, here', tokens, nesting, ?_⟩
        have marked : startsWithBom (c :: cs) = true := by simp [startsWithBom, mark]
        simp only [marked, if_true, cover.1, byteLen_cons]
        have := c.utf8Size_pos
        omega
      · rename_i noBom
        have other : c ≠ '\uFEFF' := noBom
        refine (scanShebang_wp here).mono ?_
        rintro _ l' ⟨q, consumed, new, rest, done, here', tokens, nesting, cover⟩
        refine ⟨q, consumed, new, rest, done, here', tokens, nesting, ?_⟩
        have unmarked : startsWithBom (c :: cs) = false := by simp [startsWithBom, other]
        simp only [unmarked, Bool.false_eq_true, if_false]
        exact cover

theorem Steps.inv {source : Text} {p : Position} {l l' : Lexer}
    {post : Text → List Token → Stacks → Prop} (whole : p.done ++ p.rest = source)
    (steps : Steps p l post l') : l'.Inv source := by
  obtain ⟨q, consumed, new, rest, done, here, -, ok, -⟩ := steps
  exact ⟨q, here, by rw [done, ← whole, rest, List.append_assoc], ok⟩

/-- Every scanning step from a loop head returns, to a state at a character boundary. -/
theorem scanNextToken_inv {U : UnicodeTables} {source : Text} {l : Lexer} (inv : l.Inv source)
    (more : l.reader.isAtEnd = false) :
    Wp machine (Wraps l) (scanNextToken U) (fun _ l' => l'.Inv source) l := by
  obtain ⟨p, here, whole, ok⟩ := inv
  have some : p.rest ≠ [] := by
    rw [here, p.reader_isAtEnd] at more
    simpa using more
  cases stalls : l.stalls U with
  | true =>
      apply ((scanNextToken_stalls here some stalls).mono_bad fun _ => False.elim).mono
      intro _ l' ⟨here', nesting⟩
      exact ⟨p.fresh, here', by simpa [Position.done, Position.fresh] using whole, nesting ▸ ok⟩
  | false =>
      cases drops : l.drops U with
      | true => exact (scanNextToken_drops here ok some drops).mono fun _ _ steps => steps.inv whole
      | false =>
          exact (scanNextToken_moves here ok some stalls drops).mono fun _ _ steps =>
            steps.inv whole

theorem LoopHead.inv {U : UnicodeTables} {source : Text} {l : Lexer} (head : LoopHead U source l) :
    l.Inv source := by
  induction head with
  | first prologue =>
      obtain ⟨q, consumed, new, rest, done, here, -, nesting, -⟩ :=
        (scanPrologue_wp source).of_returns prologue
      have split : source = consumed ++ q.rest := rest
      have start : q.done = consumed := done
      refine ⟨q, here, by rw [start, split], ?_⟩
      rw [nesting]
      intro depth known
      simp [Lexer.new] at known
  | next head more step ih => exact (scanNextToken_inv ih more).of_returns step

/-! ### The scanning loop -/

theorem returns_notAtEnd {l l' : Lexer} {b : Bool} :
    Returns machine (do return !(← isAtEnd)) l b l' ↔ b = !l.reader.isAtEnd ∧ l = l' := by
  refine returns_op.trans ⟨?_, ?_⟩
  · rintro ⟨_, _, steps, ends⟩
    cases steps
    obtain ⟨rfl, rfl⟩ := returns_pure.mp ends
    exact ⟨rfl, rfl⟩
  · rintro ⟨rfl, rfl⟩
    exact ⟨_, _, rfl, returns_pure.mpr ⟨rfl, rfl⟩⟩

theorem returns_scanLoop {U : UnicodeTables} {l l' : Lexer} :
    Returns machine (scanLoop U) l () l' ↔
      if l.reader.isAtEnd then l = l'
      else ∃ l₁, Returns machine (scanNextToken U) l () l₁ ∧ Returns machine (scanLoop U) l₁ () l' := by
  rw [scanLoop, returns_whileDo]
  simp only [returns_notAtEnd]
  cases ended : l.reader.isAtEnd with
  | true => simp
  | false => simp

/-- A run of the loop that returns ends at a loop head at the end of the source, and keeps what
every step keeps. -/
theorem scanLoop_keeps {U : UnicodeTables} {source : Text} {l l' : Lexer} (inv : Lexer → Prop)
    (step : ∀ l l', LoopHead U source l → l.reader.isAtEnd = false → inv l →
      Returns machine (scanNextToken U) l () l' → inv l')
    (head : LoopHead U source l) (start : inv l) (returns : Returns machine (scanLoop U) l () l') :
    LoopHead U source l' ∧ l'.reader.isAtEnd = true ∧ inv l' := by
  obtain ⟨_, l₁, _, l₂, ⟨head₁, kept⟩, last, ends⟩ := returns.loop_leaves
    (fun _ l => LoopHead U source l ∧ inv l)
    (by
      rintro _ l _ l' ⟨head, holds⟩ round
      obtain ⟨b, l₁, cond, rest⟩ := returns_bind.mp round
      obtain ⟨rfl, rfl⟩ := returns_notAtEnd.mp cond
      cases ended : l.reader.isAtEnd with
      | true =>
          rw [ended] at rest
          simpa using (returns_pure.mp rest).1
      | false =>
          rw [ended] at rest
          obtain ⟨_, l₂, scanned, last⟩ := returns_bind.mp rest
          obtain ⟨-, rfl⟩ := returns_pure.mp last
          exact ⟨head.next ended scanned, step l l₂ head ended holds scanned⟩)
    ⟨head, start⟩
  obtain ⟨-, rfl⟩ := returns_pure.mp ends
  obtain ⟨b, l₃, cond, rest⟩ := returns_bind.mp last
  obtain ⟨rfl, rfl⟩ := returns_notAtEnd.mp cond
  cases ended : l₁.reader.isAtEnd with
  | true =>
      rw [ended] at rest
      obtain ⟨-, rfl⟩ := returns_pure.mp rest
      exact ⟨head₁, ended, kept⟩
  | false =>
      rw [ended] at rest
      obtain ⟨_, l₂, step, last⟩ := returns_bind.mp rest
      simpa using (returns_pure.mp last).1

/-- A returning run passes through every loop head. -/
theorem LoopHead.returns {U : UnicodeTables} {source : Text} {l first last : Lexer}
    (head : LoopHead U source l) (prologue : Returns machine scanPrologue (.new source) () first)
    (loop : Returns machine (scanLoop U) first () last) : Returns machine (scanLoop U) l () last := by
  induction head with
  | first prologue' =>
      obtain ⟨-, rfl⟩ := prologue.unique prologue'
      exact loop
  | next head more step ih =>
      rw [returns_scanLoop, more] at ih
      obtain ⟨l₁, next, others⟩ := ih
      obtain ⟨-, rfl⟩ := next.unique step
      exact others

/-- The round of the scanning loop that a step makes. -/
theorem returns_round {U : UnicodeTables} {l l' : Lexer} (more : l.reader.isAtEnd = false)
    (step : Returns machine (scanNextToken U) l () l') :
    Returns machine (do
      if ← (do return !(← isAtEnd)) then
        scanNextToken U
        return .inl ()
      else
        return .inr () : Lex (Unit ⊕ Unit)) l (.inl ()) l' :=
  returns_bind.mpr ⟨true, l, returns_notAtEnd.mpr ⟨by simp [more], rfl⟩,
    returns_bind.mpr ⟨(), l', step, returns_pure.mpr ⟨rfl, rfl⟩⟩⟩

/-- A halting run passes through every loop head. -/
theorem LoopHead.halts {U : UnicodeTables} {source : Text} {l : Lexer} (head : LoopHead U source l)
    (halts : Halts machine (scanTokens U) (.new source)) : Halts machine (scanLoop U) l := by
  induction head with
  | first prologue => exact (halts.bind_right prologue).bind_left
  | next head more step ih => exact ih.loop_next (returns_round more step)

/-- A returning run: the loop from the prologue's end to a loop head at the end of the source. -/
theorem scanTokens_ends {U : UnicodeTables} {source : Text} {final : Lexer}
    (returns : Returns machine (scanTokens U) (.new source) () final) :
    ∃ first last, Returns machine scanPrologue (.new source) () first ∧
      Returns machine (scanLoop U) first () last ∧ LoopHead U source last ∧
      last.reader.isAtEnd = true ∧ final = last.completeEof := by
  obtain ⟨_, first, prologue, rest⟩ := returns_bind.mp returns
  obtain ⟨_, last, loop, eof⟩ := returns_bind.mp rest
  obtain ⟨head, ended, -⟩ := scanLoop_keeps (fun _ => True) (fun _ _ _ _ _ _ => trivial)
    (.first prologue) trivial loop
  obtain ⟨_, l, steps, done⟩ := returns_op.mp eof
  obtain ⟨-, rfl⟩ := returns_pure.mp done
  cases steps
  exact ⟨first, last, prologue, loop, head, ended, rfl⟩

end CaffeineLs.KotlinSyntax
