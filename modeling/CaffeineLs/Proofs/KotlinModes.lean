/-
Module: CaffeineLs.Proofs.KotlinModes
Purpose: One call of the Kotlin lexer's scanning step, in both modes: it moves, covering what
  it consumed, unless it stands at a character that the step drops or cannot get past.
Trusted boundary: none
Main exports: Stalls, Drops, scanNextToken_moves
-/
import CaffeineLs.Proofs.KotlinScanning

namespace CaffeineLs.KotlinSyntax

open Imperative
open SourceText

/-! ### What the text ahead shows -/

/-- The number of characters at the start of `rest` that equal `c`. -/
def runLength (c : Char) : Text → Nat
  | [] => 0
  | d :: rest => if d = c then runLength c rest + 1 else 0

theorem look_of_lt_runLength {c : Char} {rest : Text} {i : Nat} (within : i < runLength c rest) :
    look rest i = c := by
  induction rest generalizing i with
  | nil => simp [runLength] at within
  | cons d rest ih =>
      rw [runLength] at within
      split at within
      · rename_i same
        cases i with
        | zero => simpa using same
        | succ i => exact ih (by omega)
      · omega

theorem look_runLength_ne {c : Char} (real : c ≠ '\x00') (rest : Text) :
    look rest (runLength c rest) ≠ c := by
  induction rest with
  | nil => simpa [runLength] using real.symm
  | cons d rest ih =>
      rw [runLength]
      split
      · simpa using ih
      · simpa using ‹¬ d = c›

/-- The character after `n` dollars, when there are that many. -/
def templateIn (n : Nat) (rest : Text) : Option Char :=
  if ∀ i < n, look rest i = '$' then some (look rest n) else none

variable {α β : Type}

/-- A routine that only looks: it returns what `value` says of the text ahead. -/
def Reads (x : Lex α) (value : Text → α) : Prop :=
  ∀ (p : Position) (l : Lexer), l.reader = p.reader →
    Wp machine (Wraps l) x (fun a l' => a = value p.rest ∧ l' = l) l

theorem walks_reads {pre : Text → Prop} {post : β → Position → List Token → Prop} {x : Lex α}
    {value : Text → α} {k : α → Lex β} (reads : Reads x value)
    (walks : ∀ a, Walks (fun rest => pre rest ∧ value rest = a) (k a) post) :
    Walks pre (x >>= k) post := by
  intro p l here holds
  refine wp_bind.mpr ((reads p l here).mono ?_)
  rintro a l' ⟨rfl, rfl⟩
  exact walks _ p l' here ⟨holds, rfl⟩

theorem wp_peekN {bad : Panic → Prop} {n : Nat} {k : Char → Lex α} {post : α → Lexer → Prop}
    {p : Position} {l : Lexer} (here : l.reader = p.reader) :
    Wp machine bad (peekN n >>= k) post l ↔ Wp machine bad (k (look p.rest n)) post l := by
  refine wp_perform ?_
  show LexOp.exec (.peekN n) l = _
  simp [LexOp.exec, here, p.reader_peekN, bind, Except.bind, pure, Except.pure]

theorem countRun_reads {c : Char} (real : c ≠ '\x00') : Reads (countRun c) (runLength c) := by
  intro p l here
  refine Wp.loop (fun count l' => l' = l ∧ count ≤ runLength c p.rest)
    (fun count _ => runLength c p.rest - count) ?_ ⟨rfl, Nat.zero_le _⟩
  rintro count l' ⟨rfl, within⟩
  refine (wp_peekN here).mpr (wp_ite.mpr ?_)
  rcases Nat.lt_or_eq_of_le within with less | rfl
  · rw [if_pos (look_of_lt_runLength less)]
    exact wp_pure.mpr ⟨⟨rfl, less⟩, by omega⟩
  · rw [if_neg (look_runLength_ne real p.rest)]
    exact wp_pure.mpr (wp_pure.mpr ⟨rfl, rfl⟩)

theorem dollarsAhead_reads (n i : Nat) :
    Reads (dollarsAhead n i) fun rest => decide (∀ j < n, look rest (i + j) = '$') := by
  induction n generalizing i with
  | zero =>
      intro p l here
      exact wp_pure.mpr ⟨by simp, rfl⟩
  | succ n ih =>
      intro p l here
      refine (wp_peekN here).mpr (wp_ite.mpr ?_)
      split
      · rename_i other
        refine wp_pure.mpr ⟨?_, rfl⟩
        symm
        simp only [decide_eq_false_iff_not]
        exact fun all => other (all 0 (by omega))
      · rename_i dollar
        refine (ih (i + 1) p l here).mono ?_
        rintro a l' ⟨rfl, rfl⟩
        refine ⟨?_, rfl⟩
        simp only [decide_eq_decide]
        constructor
        · intro all j within
          cases j with
          | zero => simpa using dollar
          | succ j => simpa [Nat.add_assoc, Nat.add_comm 1] using all j (by omega)
        · intro all j within
          simpa [Nat.add_assoc, Nat.add_comm 1] using all (j + 1) (by omega)

theorem templateAhead_reads (n : Nat) : Reads (templateAhead n) (templateIn n) := by
  intro p l here
  refine wp_bind.mpr ((dollarsAhead_reads n 0 p l here).mono ?_)
  rintro b l' ⟨rfl, rfl⟩
  refine wp_ite.mpr ?_
  simp only [Nat.zero_add, decide_eq_true_eq]
  split
  · rename_i dollars
    exact (wp_peekN here).mpr (wp_pure.mpr ⟨by rw [templateIn, if_pos dollars], rfl⟩)
  · rename_i others
    exact wp_pure.mpr ⟨by rw [templateIn, if_neg others], rfl⟩

/-- Advancing over characters that were seen. -/
theorem advanceTimes_scans (post : Text → Prop) (n : Nat) :
    Scans (fun rest => (∀ i < n, look rest i ≠ '\x00') ∧ post (rest.drop n)) (advanceTimes n)
      fun _ rest => post rest := by
  induction n with
  | zero => exact walks_pure fun q holds => ⟨rfl, by simpa using holds.2⟩
  | succ n ih =>
      refine walks_advance (fun rest holds => ?_) fun c => ih.mono (fun rest holds => ?_)
        fun _ _ _ ends => ends
      · exact ne_nil_of_look rfl (holds.1 0 (by omega))
      · exact ⟨fun i within => by simpa using holds.1 (i + 1) (by omega), by simpa using holds.2⟩

/-! ### Steps -/

/-- No template is open at depth zero. -/
def Stacks.Ok (s : Stacks) : Prop := ∀ depth ∈ s.templateBraceDepths, 0 < depth

/-- The text up to the cursor. -/
def Position.done (p : Position) : Text := p.before ++ p.lexeme

/-- Tokens that cut up `consumed`, which stands at byte `pos`. -/
def Cover (pos : Nat) (consumed : Text) (new : List Token) : Prop :=
  textOf Token.lexeme new = consumed ∧ OffsetsFrom Token.lexeme Token.offset u32 pos new

/-- The text a routine consumed from byte `pos` on is some text, and its tokens cut it up; at
most one mode was entered. -/
structure Covers (pos : Nat) (consumed : Text) (new : List Token) (s s' : Stacks) : Prop where
  some : consumed ≠ []
  cover : Cover pos consumed new
  height : s'.modeStack.length ≤ s.modeStack.length + 1

/-- Nothing is consumed, but a mode is left. -/
structure Pops (consumed : Text) (new : List Token) (s s' : Stacks) : Prop where
  none : consumed = [] ∧ new = []
  height : s'.modeStack.length = s.modeStack.length - 1

/-- What a scanning step does when it does its duty. -/
def Moved (pos : Nat) (consumed : Text) (new : List Token) (s s' : Stacks) : Prop :=
  Covers pos consumed new s s' ∨ Pops consumed new s s'

/-- From a position that satisfies `pre`, the routine returns, and the text it consumed since the
token start, the tokens it added and the stacks satisfy `post`. -/
def Step (pre : Position → Prop) (x : Lex Unit)
    (post : Nat → Text → List Token → Stacks → Stacks → Prop) : Prop :=
  ∀ (p : Position) (l : Lexer), l.reader = p.reader → pre p → l.nesting.Ok →
    Wp machine (Wraps l) x (fun _ l' => ∃ (q : Position) (consumed : Text) (new : List Token),
      p.lexeme ++ p.rest = consumed ++ q.rest ∧ q.done = p.before ++ consumed ∧
      l'.reader = q.reader ∧ l'.tokens = l.tokens ++ new ∧ l'.nesting.Ok ∧
      post (byteLen p.before) consumed new l.nesting l'.nesting) l

/-- A condition on the text ahead of a position. -/
def On (pre : Text → Prop) (p : Position) : Prop := pre p.rest

/-- A routine that only touches the stacks. -/
def Restacks (x : Lex Unit) (change : Stacks → Stacks → Prop) : Prop :=
  ∀ l : Lexer, l.nesting.Ok → Wp machine (fun _ => False) x (fun _ l' => l'.reader = l.reader ∧
    l'.tokens = l.tokens ∧ l'.nesting.Ok ∧ change l.nesting l'.nesting) l

/-- At most one mode more. -/
def Grows (s s' : Stacks) : Prop := s'.modeStack.length ≤ s.modeStack.length + 1

theorem wp_getStacks {bad : Panic → Prop} {k : Stacks → Lex α} {post : α → Lexer → Prop}
    {l : Lexer} :
    Wp machine bad (getStacks >>= k) post l ↔ Wp machine bad (k l.nesting) post l :=
  wp_perform rfl

theorem wp_setStacks {bad : Panic → Prop} {s : Stacks} {post : Unit → Lexer → Prop} {l : Lexer} :
    Wp machine bad (setStacks s) post l ↔ post () { l with nesting := s } :=
  (wp_op (b := ()) rfl).trans wp_pure

theorem pushMode_restacks (mode : LexerMode) : Restacks (pushMode mode) Grows := by
  intro l ok
  exact wp_getStacks.mpr (wp_setStacks.mpr ⟨rfl, rfl, ok, Nat.le_refl _⟩)

theorem popMode_restacks :
    Restacks popMode fun s s' => s'.modeStack.length = s.modeStack.length - 1 := by
  intro l ok
  exact wp_getStacks.mpr (wp_setStacks.mpr ⟨rfl, rfl, ok, by simp⟩)

theorem enterTemplate_restacks : Restacks enterTemplate Grows := by
  intro l ok
  refine wp_getStacks.mpr (wp_setStacks.mpr ⟨rfl, rfl, ?_, Nat.le_refl _⟩)
  intro depth known
  rcases List.mem_cons.mp known with rfl | old
  · exact Nat.one_pos
  · exact ok depth old

theorem enterBrace_restacks : Restacks enterBrace Grows := by
  intro l ok
  refine wp_getStacks.mpr ?_
  cases opened : l.nesting.templateBraceDepths with
  | nil => exact wp_pure.mpr ⟨rfl, rfl, ok, Nat.le_succ _⟩
  | cons depth depths =>
      refine wp_setStacks.mpr ⟨rfl, rfl, ?_, Nat.le_succ _⟩
      intro d known
      rcases List.mem_cons.mp known with rfl | old
      · omega
      · exact ok d (by simp_all)

theorem leaveBrace_restacks : Restacks leaveBrace Grows := by
  intro l ok
  refine wp_getStacks.mpr ?_
  cases opened : l.nesting.templateBraceDepths with
  | nil => exact wp_pure.mpr ⟨rfl, rfl, ok, Nat.le_succ _⟩
  | cons depth depths =>
      have others : ∀ d ∈ depths, 0 < d := fun d old => ok d (by simp_all)
      match depth with
      | 0 => exact absurd (ok 0 (by simp_all)) (by omega)
      | 1 => exact wp_setStacks.mpr ⟨rfl, rfl, others, by simp [Grows]; omega⟩
      | depth + 2 =>
          refine wp_setStacks.mpr ⟨rfl, rfl, ?_, Nat.le_succ _⟩
          intro d known
          rcases List.mem_cons.mp known with rfl | old
          · omega
          · exact others d old

/-! ### Rules for steps -/

section Rules

variable {pre : Text → Prop} {preP : Position → Prop}
  {post : Nat → Text → List Token → Stacks → Stacks → Prop}

theorem Position.Ahead.consumed {p q : Position} (ahead : p.Ahead q) :
    p.lexeme ++ p.rest = q.lexeme ++ q.rest ∧ q.done = p.before ++ q.lexeme := by
  obtain ⟨consumed, before, lexeme, rest⟩ := ahead
  exact ⟨by simp [rest, lexeme], by rw [Position.done, before]⟩

theorem Covered.cover {p q : Position} {new : List Token} (covered : Covered q new)
    (ahead : p.Ahead q) : Cover (byteLen p.before) q.lexeme new := by
  obtain ⟨kind, rfl⟩ := covered
  obtain ⟨_, before, -, -⟩ := ahead
  exact ⟨by simp [Token.new], offsetsFrom_singleton.mpr (by simp [Token.new, before])⟩

theorem Position.Ahead.lexeme_ne_nil {p q : Position} (ahead : p.Ahead q)
    (shorter : q.rest.length < p.rest.length) : q.lexeme ≠ [] := by
  obtain ⟨consumed, -, lexeme, rest⟩ := ahead
  intro none
  obtain ⟨-, rfl⟩ : p.lexeme = [] ∧ consumed = [] := by simpa [lexeme] using none
  simp [rest] at shorter

theorem Step.mono {x : Lex Unit} {pre' : Position → Prop} (step : Step preP x post)
    (stronger : ∀ p, pre' p → preP p) : Step pre' x post :=
  fun p l here holds ok => step p l here (stronger p holds) ok

theorem step_reads {x : Lex α} {value : Text → α} {k : α → Lex Unit} (reads : Reads x value)
    (step : ∀ a, Step (fun p => preP p ∧ value p.rest = a) (k a) post) :
    Step preP (x >>= k) post := by
  intro p l here holds ok
  refine wp_bind.mpr ((reads p l here).mono ?_)
  rintro a l' ⟨rfl, rfl⟩
  exact step _ p l' here ⟨holds, rfl⟩ ok

theorem peekN_reads (n : Nat) : Reads (peekN n) fun rest => look rest n :=
  fun _ l here =>
    show Wp machine (Wraps l) (peekN n >>= pure) _ l from (wp_peekN here).mpr (wp_pure.mpr ⟨rfl, rfl⟩)

theorem step_ite {c : Prop} [Decidable c] {x y : Lex Unit} (yes : c → Step preP x post)
    (no : ¬ c → Step preP y post) : Step preP (if c then x else y) post := by
  split
  · exact yes ‹_›
  · exact no ‹_›

/-- Some more text of the token, and then a step. -/
theorem step_scan {x : Lex α} {k : α → Lex Unit} {mid : α → Text → Prop}
    (scans : Scans pre x mid) (step : ∀ a, Step (On (mid a)) (k a) post) :
    Step (On pre) (x >>= k) post := by
  intro p l here holds ok
  refine wp_bind.mpr ((scans p l here holds).mono ?_)
  rintro a l' ⟨q, _, ahead, ⟨rfl, holds'⟩, here', tokens, nesting⟩
  apply ((step a q l' here' holds' (nesting ▸ ok)).mono_bad (ahead.wraps here here')).mono
  intro _ l'' ⟨q', consumed, new, rest, done, here'', tokens', ok', ends⟩
  obtain ⟨more, before, lexeme, rest'⟩ := ahead
  refine ⟨q', consumed, new, ?_, before ▸ done, here'', by simp [tokens', tokens], ok', ?_⟩
  · rw [← rest, lexeme, rest', List.append_assoc]
  · rw [← before, ← nesting]
    exact ends

/-- A routine that completes one token after it consumed something. -/
theorem Advances.step {x : Lex Unit} (advances : Advances pre x) : Step (On pre) x Covers := by
  intro p l here holds ok
  refine (advances p.rest.length p l here ⟨holds, rfl⟩).mono ?_
  rintro _ l' ⟨q, new, ahead, ⟨covered, shorter⟩, here', tokens, nesting⟩
  refine ⟨q, q.lexeme, new, ahead.consumed.1, ahead.consumed.2, here', tokens, nesting ▸ ok, ?_⟩
  refine ⟨ahead.lexeme_ne_nil shorter, covered.cover ahead, ?_⟩
  rw [nesting]
  exact Nat.le_succ _

/-- A token first, the stacks after it. -/
theorem step_token_stacks {x y : Lex Unit} (advances : Advances pre x) (restacks : Restacks y Grows) :
    Step (On pre) (x >>= fun _ => y) Covers := by
  intro p l here holds ok
  refine wp_bind.mpr ((advances p.rest.length p l here ⟨holds, rfl⟩).mono ?_)
  rintro _ l' ⟨q, new, ahead, ⟨covered, shorter⟩, here', tokens, nesting⟩
  apply ((restacks l' (nesting ▸ ok)).mono_bad fun _ => False.elim).mono
  intro _ l'' ⟨reader, tokens', ok', grows⟩
  refine ⟨q, q.lexeme, new, ahead.consumed.1, ahead.consumed.2, reader.trans here',
    tokens'.trans tokens, ok', ?_⟩
  refine ⟨ahead.lexeme_ne_nil shorter, covered.cover ahead, ?_⟩
  rw [← nesting]
  exact grows

/-- Some text, the stacks, and then the token. -/
theorem step_stacks_token {x : Lex α} {y : Lex Unit} {kind : SyntaxKind}
    (consumes : Consumes pre x) (restacks : Restacks y Grows) :
    Step (On pre) (x >>= fun _ => y >>= fun _ => completeToken kind) Covers := by
  have token : Completes Anywhere (completeToken kind) := completes_token
  intro p l here holds ok
  refine wp_bind.mpr ((consumes p.rest.length p l here ⟨holds, rfl⟩).mono ?_)
  rintro _ l' ⟨q, _, ahead, ⟨rfl, shorter⟩, here', tokens, nesting⟩
  apply wp_bind.mpr
  apply ((restacks l' (nesting ▸ ok)).mono_bad fun _ => False.elim).mono
  intro _ l'' ⟨reader, tokens', ok', grows⟩
  have here'' : l''.reader = q.reader := reader.trans here'
  apply ((token q l'' here'' trivial).mono_bad (ahead.wraps here here'')).mono
  intro _ l₃ ⟨q', new, ahead', covered, here₃, tokens₃, nesting₃⟩
  have whole := ahead.trans ahead'
  refine ⟨q', q'.lexeme, new, whole.consumed.1, whole.consumed.2, here₃,
    by simp [tokens₃, tokens', tokens], nesting₃ ▸ ok', ?_⟩
  refine ⟨whole.lexeme_ne_nil ?_, covered.cover whole, ?_⟩
  · exact Nat.lt_of_le_of_lt ahead'.rest_length_le shorter
  · rw [nesting₃, ← nesting]
    exact grows

theorem Cover.append {pos : Nat} {xs ys : Text} {new new' : List Token} (one : Cover pos xs new)
    (two : Cover (pos + byteLen xs) ys new') : Cover pos (xs ++ ys) (new ++ new') := by
  obtain ⟨text, offsets⟩ := one
  obtain ⟨text', offsets'⟩ := two
  exact ⟨by simp [text, text'], offsetsFrom_append.mpr ⟨offsets, text ▸ offsets'⟩⟩

/-- One token, and then a step from a fresh token start. -/
theorem step_token_step {x y : Lex Unit} (mid : Text → Prop)
    (completes : Walks pre x fun _ q new => Covered q new ∧ mid q.rest)
    (step : Step (fun p => On mid p ∧ p.lexeme = []) y Covers) :
    Step (On pre) (x >>= fun _ => newToken >>= fun _ => y) Covers := by
  intro p l here holds ok
  refine wp_bind.mpr ((completes p l here holds).mono ?_)
  rintro _ l' ⟨q, new, ahead, ⟨covered, holds'⟩, here', tokens, nesting⟩
  refine (wp_perform (b := ()) rfl).mpr ?_
  have fresh : l'.reader.newToken = q.fresh.reader := here' ▸ q.reader_newToken
  have same : l'.reader.newToken.source = l.reader.source := by
    rw [here, ← ahead.source, ← here']
    rfl
  apply ((step q.fresh { l' with reader := l'.reader.newToken } fresh ⟨holds', rfl⟩
    (nesting ▸ ok)).mono_bad fun _ wraps => ⟨wraps.1, same ▸ wraps.2⟩).mono
  intro _ l'' ⟨q', consumed, new', rest, done, here'', tokens', ok', covers⟩
  have cover := covered.cover ahead
  obtain ⟨rest₁, done₁⟩ := ahead.consumed
  refine ⟨q', q.lexeme ++ consumed, new ++ new', ?_, ?_, here'', by simp [tokens', tokens], ok',
    ?_, cover.append ?_, ?_⟩
  · rw [rest₁, List.append_assoc, ← rest]
    rfl
  · have done₂ : q.before ++ q.lexeme = p.before ++ q.lexeme := done₁
    simpa [Position.fresh, done₂] using done
  · simp [covers.some]
  · have done₂ : q.before ++ q.lexeme = p.before ++ q.lexeme := done₁
    have place : byteLen q.fresh.before = byteLen p.before + byteLen q.lexeme := by
      simp only [Position.fresh, done₂, byteLen_append]
    exact place ▸ covers.cover
  · rw [← nesting]
    exact covers.height

end Rules

theorem handleLeftBrace_step : Step (On More) handleLeftBrace Covers :=
  step_stacks_token (consumes_advance fun _ => id) enterBrace_restacks

theorem handleRightBrace_step : Step (On More) handleRightBrace Covers := by
  have token : Advances More (advance >>= fun _ => completeToken .rBrace) :=
    advances_advance (fun _ => id) fun _ => completes_token
  exact step_token_stacks token leaveBrace_restacks

theorem advanceTimes_consumes (n : Nat) :
    Consumes (fun rest => ∀ i < n + 1, look rest i ≠ '\x00') (advanceTimes (n + 1)) := by
  intro m
  refine (advanceTimes_scans (fun rest => rest.length < m) (n + 1)).mono ?_
    fun _ _ _ ends => ends
  rintro rest ⟨seen, rfl⟩
  have some : rest ≠ [] := ne_nil_of_look rfl (seen 0 (by omega))
  have : 0 < rest.length := List.length_pos_iff.mpr some
  exact ⟨seen, by simp; omega⟩

theorem look_drop (rest : Text) (n i : Nat) : look (rest.drop n) i = look rest (n + i) := by
  simp [look, List.getD]

/-! ### Opening and closing strings -/

theorem step_on {x : Lex Unit} {pre : Text → Prop} {preP : Position → Prop}
    {post : Nat → Text → List Token → Stacks → Stacks → Prop} (step : Step (On pre) x post)
    (stronger : ∀ p, preP p → pre p.rest) : Step preP x post :=
  step.mono stronger

/-- The opening quotes, once the dollars before them are consumed. -/
theorem openQuotes_step (dollarCount : Nat) :
    Step (On fun rest => look rest 0 = '"') (do
      if (← peekNext) = '"' && (← peekN 2) = '"' then
        advanceTimes 3
        pushMode (.string true (max 1 dollarCount))
        completeToken .openRawQuote
      else
        let _ ← advance
        pushMode (.string false (max 1 dollarCount))
        completeToken .openQuote) Covers := by
  refine step_reads (peekN_reads 1) fun c => step_reads (peekN_reads 2) fun d => ?_
  refine step_ite (fun raw => ?_) fun _ => ?_
  · refine step_on (step_stacks_token (advanceTimes_consumes 2) (pushMode_restacks _)) ?_
    rintro p ⟨⟨first, second⟩, third⟩ i within
    simp only [Bool.and_eq_true, decide_eq_true_eq] at raw
    have quote : look p.rest i = '"' := by
      match i, within with
      | 0, _ => exact first
      | 1, _ => exact second.trans raw.1
      | 2, _ => exact third.trans raw.2
    simp [quote]
  · refine step_on (step_stacks_token (consumes_advance fun _ => id) (pushMode_restacks _)) ?_
    rintro p ⟨⟨first, -⟩, -⟩
    exact ne_nil_of_look first (by decide)

theorem handleDollarOrQuote_step : Step (On More) handleDollarOrQuote Covers := by
  refine step_reads (countRun_reads (by decide)) fun n => step_reads (peekN_reads n) fun c => ?_
  refine step_ite (fun quote => ?_) fun _ => ?_
  · refine step_on (step_scan (advanceTimes_scans (fun rest => look rest 0 = '"') n) fun _ =>
      openQuotes_step n) ?_
    rintro p ⟨⟨-, rfl⟩, sees⟩
    refine ⟨fun i within => ?_, by simpa [look_drop, quote] using sees⟩
    rw [look_of_lt_runLength within]
    decide
  · have dollar : Advances More (advance >>= fun _ => completeToken .dollar) :=
      advances_advance (fun _ => id) fun _ => completes_token
    exact step_on dollar.step fun p holds => holds.1.1

theorem step_newToken {y : Lex Unit} (mid : Text → Prop)
    {post : Nat → Text → List Token → Stacks → Stacks → Prop}
    (step : Step (fun p => mid p.rest ∧ p.lexeme = []) y post) :
    Step (fun p => mid p.rest ∧ p.lexeme = []) (newToken >>= fun _ => y) post := by
  rintro p l here ⟨holds, fresh⟩ ok
  refine (wp_perform (b := ()) rfl).mpr ?_
  have same : p.fresh = p := by
    cases p
    cases fresh
    simp [Position.fresh]
  have reader : l.reader.newToken = p.reader := by rw [here, p.reader_newToken, same]
  exact step p { l with reader := l.reader.newToken } reader ⟨holds, fresh⟩ ok

theorem popMode_grows : Restacks popMode Grows := fun l ok =>
  (popMode_restacks l ok).mono fun _ _ ends =>
    ⟨ends.1, ends.2.1, ends.2.2.1, by simp only [Grows, ends.2.2.2]; omega⟩

/-- The text ahead starts with `n` quotes. -/
def Quotes (n : Nat) (rest : Text) : Prop := ∀ i < n, look rest i = '"'

theorem rawQuotes_step :
    Step (On (Quotes 3)) (do
      advanceTimes 3
      popMode
      completeToken .closeRawQuote) Covers :=
  step_on (step_stacks_token (advanceTimes_consumes 2) popMode_grows) fun p quotes i within => by
    simp [quotes i within]

/-- The closing quotes of a raw string, and the quotes of content before them. -/
theorem closeRawString_step (run : Nat) (closes : 3 ≤ run) :
    Step (fun p => On (Quotes run) p ∧ p.lexeme = []) (closeRawString run) Covers := by
  obtain ⟨extra, rfl⟩ : ∃ extra, run = extra + 3 := ⟨run - 3, by omega⟩
  rw [closeRawString, Nat.add_sub_cancel]
  have closing : Step (fun p => On (Quotes 3) p ∧ p.lexeme = []) _ Covers :=
    rawQuotes_step.mono fun p holds => holds.1
  cases extra with
  | zero => exact (step_newToken (Quotes 3) closing).mono fun p holds => by simpa [On] using holds
  | succ n =>
      have content : Walks (Quotes (n + 1 + 3)) (quoteContent (n + 1))
          fun _ q new => Covered q new ∧ Quotes 3 q.rest := by
        have quotes := advanceTimes_scans (Quotes 3) (n + 1)
        refine (walks_bind quotes fun _ => walks_ite (fun _ => walks_token)
          fun none => absurd (Nat.succ_pos n) none).mono ?_ fun _ _ _ ends => ends
        intro rest seen
        exact ⟨fun i within => by simp [seen i (by omega)],
          fun i within => by simpa [look_drop] using seen (n + 1 + i) (by omega)⟩
      exact step_on (step_token_step (Quotes 3) content closing) fun p holds => holds.1

/-! ### Templates and text -/

theorem templateIn_eq_some {n : Nat} {rest : Text} {c : Char} :
    templateIn n rest = some c ↔ (∀ i < n, look rest i = '$') ∧ look rest n = c := by
  rw [templateIn]
  split
  · rename_i dollars
    simp only [Option.some.injEq]
    exact ⟨fun sees => ⟨dollars, sees⟩, fun holds => holds.2⟩
  · rename_i others
    simp only [reduceCtorEq, false_iff]
    exact fun holds => others holds.1

/-- The dollars of a template, when `c` follows them. -/
theorem dollars_scans (n : Nat) (c : Char) :
    Scans (fun rest => templateIn n rest = some c) (advanceTimes n) fun _ rest =>
      look rest 0 = c := by
  refine (advanceTimes_scans (fun rest => look rest 0 = c) n).mono (fun rest opens => ?_)
    fun _ _ _ ends => ends
  obtain ⟨dollars, sees⟩ := templateIn_eq_some.mp opens
  exact ⟨fun i within => by simp [dollars i within], by simpa [look_drop] using sees⟩

theorem openTemplateExpr_step (n : Nat) :
    Step (On fun rest => templateIn n rest = some '{') (openTemplateExpr n) Covers := by
  have token : Advances (fun rest => look rest 0 = '{')
      (advance >>= fun _ => completeToken .templateExprStart) :=
    advances_advance (fun _ sees => ne_nil_of_look sees (by decide)) fun _ => completes_token
  exact step_scan (dollars_scans n '{') fun _ => step_token_stacks token enterTemplate_restacks

theorem isKotlinIdentifierStart_ne_nul {U : UnicodeTables} {c : Char}
    (starts : isKotlinIdentifierStart U c = true) : c ≠ '\x00' := by
  rintro rfl
  simp [isKotlinIdentifierStart, UnicodeTables.isUnicodeLetter, U.generalCategory_nul] at starts

/-- The name of a short template. -/
theorem shortName_advances (U : UnicodeTables) (c : Char)
    (starts : isKotlinIdentifierStart U c = true ∨ c = '`') :
    Advances (fun rest => look rest 0 = c) (do
      if (← peek) = '`' then
        handleBacktickIdentifier
      else
        advanceWhile (isKotlinIdentifierPart U)
        completeToken .identifier) := by
  have more : ∀ rest, look rest 0 = c → ∃ cs, rest = c :: cs := by
    intro rest sees
    have real : c ≠ '\x00' := by
      rcases starts with letter | rfl
      · exact isKotlinIdentifierStart_ne_nul letter
      · decide
    obtain ⟨d, cs, rfl⟩ := List.exists_cons_of_ne_nil (ne_nil_of_look sees real)
    exact ⟨cs, by simpa using sees⟩
  refine fun n => walks_peek fun d => walks_ite (fun _ => ?_) fun other => ?_
  · refine (handleBacktickIdentifier_advances n).mono (fun rest holds => ?_) fun _ _ _ ends => ends
    obtain ⟨cs, rfl⟩ := more rest holds.1.1
    exact ⟨by simp [More], holds.1.2⟩
  · have name : Consumes (fun rest => look rest 0 = c ∧ look rest 0 = d)
        (advanceWhile (isKotlinIdentifierPart U)) := by
      refine advanceWhile_consumes fun rest holds => ?_
      obtain ⟨cs, rfl⟩ := more rest holds.1
      have same : c = d := by simpa using holds.2
      rcases starts with letter | rfl
      · exact ⟨c, cs, rfl, by simp [isKotlinIdentifierPart, letter]⟩
      · exact absurd same.symm other
    exact (advances_bind name (fun _ => completes_token) n).mono
      (fun rest holds => ⟨⟨holds.1.1, holds.2⟩, holds.1.2⟩) fun _ _ _ ends => ends

theorem shortTemplate_step (U : UnicodeTables) (n : Nat) (c : Char)
    (starts : isKotlinIdentifierStart U c = true ∨ c = '`') :
    Step (On fun rest => templateIn n rest = some c) (shortTemplate U n) Covers :=
  step_scan (dollars_scans n c) fun _ => step_token_step (fun rest => look rest 0 = c) walks_token
    (step_on (shortName_advances U c starts).step fun _ holds => holds.1)

/-- Whether string text ends here: at the closing quotes, at the line end or an escape, or at a
template. -/
def stopsText (U : UnicodeTables) (isRaw : Bool) (dollarDepth : Nat) (rest : Text) : Bool :=
  (isRaw && look rest 0 = '"' && look rest 1 = '"' && look rest 2 = '"') ||
  (!isRaw && (look rest 0 = '"' || isKotlinNewline (look rest 0) || look rest 0 = '\\')) ||
  (look rest 0 = '$' && (templateIn dollarDepth rest).any fun c =>
    c = '{' || isKotlinIdentifierStart U c || c = '`')

theorem reads_ite {c : Prop} [Decidable c] {x y : Lex α} {f g : Text → α} (yes : Reads x f)
    (no : Reads y g) : Reads (if c then x else y) fun rest => if c then f rest else g rest := by
  split
  · exact yes
  · exact no

theorem reads_pure (a : α) : Reads (pure a) fun _ => a := fun _ _ _ => wp_pure.mpr ⟨rfl, rfl⟩

theorem stringTextRound_scans (U : UnicodeTables) (isRaw : Bool) (dollarDepth : Nat)
    (consumedText : Bool) (n : Nat) :
    Scans (fun rest => rest.length = n) (stringTextRound U isRaw dollarDepth consumedText)
      fun r rest =>
        match r with
        | .inl again => again = true ∧ rest.length < n
        | .inr done => done = consumedText := by
  have leave : ∀ {pre : Text → Prop}, Scans pre (pure (.inr consumedText) : Lex (Bool ⊕ Bool))
      fun r rest =>
        match r with
        | .inl again => again = true ∧ rest.length < n
        | .inr done => done = consumedText := walks_pure fun _ _ => ⟨rfl, rfl⟩
  refine walks_isAtEnd leave <| walks_peek fun next => walks_peekN fun _ => walks_peekN fun _ => ?_
  refine walks_ite (fun _ => leave) fun _ => ?_
  refine walks_reads (reads_ite (templateAhead_reads _) (reads_pure _)) fun _ => ?_
  refine walks_ite (fun _ => leave) fun _ => walks_advance (fun _ holds => holds.1.1.1.1.2) fun _ => ?_
  refine walks_pure fun q holds => ⟨rfl, rfl, ?_⟩
  have := holds.1.1.1.1.1
  simp at this
  omega

theorem stringTextRound_first (U : UnicodeTables) (isRaw : Bool) (dollarDepth : Nat)
    (consumedText : Bool) (n : Nat) :
    Scans (fun rest => (rest ≠ [] ∧ stopsText U isRaw dollarDepth rest = false) ∧ rest.length = n)
      (stringTextRound U isRaw dollarDepth consumedText)
      fun r rest => ∃ again, r = .inl again ∧ again = true ∧ rest.length < n := by
  refine walks_isAtEnd (walks_absurd fun _ holds => holds.1.1.1 holds.2) <|
    walks_peek fun next => walks_peekN fun _ => walks_peekN fun _ => ?_
  refine walks_ite (fun ends => walks_absurd ?_) fun _ => ?_
  · rintro rest ⟨⟨⟨⟨⟨⟨-, goes⟩, -⟩, -⟩, first⟩, second⟩, third⟩
    rw [stopsText, first, second, third, ends, Bool.true_or] at goes
    exact absurd goes (by decide)
  refine walks_reads (reads_ite (templateAhead_reads _) (reads_pure _)) fun template => ?_
  refine walks_ite (fun interpolates => walks_absurd ?_) fun _ => ?_
  · rintro rest ⟨⟨⟨⟨⟨⟨⟨-, goes⟩, -⟩, -⟩, first⟩, -⟩, -⟩, rfl⟩
    split at interpolates
    · rename_i dollar
      rw [stopsText, interpolates, first, dollar] at goes
      simp at goes
    · simp at interpolates
  · refine walks_advance (fun _ holds => holds.1.1.1.1.2) fun _ => walks_pure fun q holds => ?_
    have length := holds.1.1.1.1.1.2
    exact ⟨rfl, true, rfl, rfl, by simp at length; omega⟩

theorem scanStringText_advances (U : UnicodeTables) (isRaw : Bool) (dollarDepth : Nat) :
    Advances (fun rest => rest ≠ [] ∧ stopsText U isRaw dollarDepth rest = false)
      (scanStringText U isRaw dollarDepth) := by
  intro n
  have text := scans_loop_first (· = true) (· = true)
    (fun c n taken => (stringTextRound_scans U isRaw dollarDepth c n).mono (fun _ => id)
      fun r q new ends => ⟨ends.1, ?_⟩)
    (stringTextRound_first U isRaw dollarDepth false n)
  · refine walks_bind text fun done => ?_
    cases done with
    | false => exact walks_absurd fun _ holds => absurd holds.1 (by decide)
    | true =>
        have token : Completes Anywhere (completeToken .stringContent) := completes_token
        exact (token.shrinks n).mono (fun _ holds => ⟨trivial, holds.2⟩) fun _ _ _ ends => ends
  · have := ends.2
    cases r with
    | inl again => exact this
    | inr b => exact this.trans taken

/-- What is known of a string's text once its closing quotes are ruled out. -/
structure InString (isRaw : Bool) (c : Char) (rest : Text) : Prop where
  sees : ∃ cs, rest = c :: cs
  raw : isRaw = true → runLength '"' rest < 3
  standard : isRaw = false → c ≠ '"' ∧ isKotlinNewline c = false

theorem runLength_three {c : Char} {rest : Text} (real : c ≠ '\x00') (first : look rest 0 = c)
    (second : look rest 1 = c) (third : look rest 2 = c) : 3 ≤ runLength c rest := by
  by_contra short
  have stop := look_runLength_ne real rest
  have : runLength c rest = 0 ∨ runLength c rest = 1 ∨ runLength c rest = 2 := by omega
  rcases this with zero | one | two
  · exact stop (zero ▸ first)
  · exact stop (one ▸ second)
  · exact stop (two ▸ third)

/-- In a string, text goes on unless an escape or a template starts. -/
theorem InString.stopsText_eq_false {U : UnicodeTables} {isRaw : Bool} {n : Nat} {c : Char}
    {rest : Text} (inside : InString isRaw c rest) (escape : ¬ (!isRaw && c = '\\') = true)
    (template : ∀ d, c = '$' → templateIn n rest = some d →
      ¬ (d = '{' || isKotlinIdentifierStart U d || d = '`') = true) :
    stopsText U isRaw n rest = false := by
  obtain ⟨⟨cs, rfl⟩, raw, standard⟩ := inside
  by_contra stops
  simp only [stopsText, Bool.not_eq_false, Bool.or_eq_true, Bool.and_eq_true, decide_eq_true_eq]
    at stops
  simp only [look_cons_zero] at stops
  rcases stops with (quotes | ends) | opens
  · have := raw quotes.1.1.1
    have long : 3 ≤ runLength '"' (c :: cs) :=
      runLength_three (by decide) quotes.1.1.2 quotes.1.2 quotes.2
    omega
  · have plain : isRaw = false := by simpa using ends.1
    obtain ⟨noQuote, noNewline⟩ := standard plain
    rcases ends.2 with (quote | newline) | backslash
    · exact noQuote quote
    · simp [noNewline] at newline
    · exact escape (by simp [plain, backslash])
  · obtain ⟨dollar, opens⟩ := opens
    obtain ⟨d, found, starts⟩ := (Option.any_eq_true _ _).mp opens
    exact template d dollar found starts

theorem scanStringBody_step (U : UnicodeTables) (isRaw : Bool) (n : Nat) (c : Char) :
    Step (On (InString isRaw c)) (scanStringBody U isRaw n c) Covers := by
  have more : ∀ {rest}, InString isRaw c rest → rest ≠ [] := by
    rintro rest ⟨⟨cs, rfl⟩, -, -⟩
    simp
  refine step_ite (fun escape => ?_) fun escape => ?_
  · have token : Advances More (consumeEscapeSequence >>= fun _ => completeToken .escapeSequence) :=
      advances_bind consumeEscapeSequence_consumes fun _ => completes_token
    exact step_on token.step fun _ => more
  refine step_reads (reads_ite (templateAhead_reads n) (reads_pure none)) fun template => ?_
  have text : (∀ d, template = some d →
        ¬ (d = '{' || isKotlinIdentifierStart U d || d = '`') = true) →
      Step (fun p => On (InString isRaw c) p ∧
        (if c = '$' then templateIn n p.rest else none) = template)
        (scanStringText U isRaw n) Covers := by
    intro plain
    refine step_on (scanStringText_advances U isRaw n).step ?_
    rintro p ⟨inside, rfl⟩
    refine ⟨more inside, inside.stopsText_eq_false escape fun d dollar found => plain d ?_⟩
    rw [if_pos dollar, found]
  have opens : ∀ {p : Position} {d : Char},
      (if c = '$' then templateIn n p.rest else none) = some d → templateIn n p.rest = some d := by
    intro p d found
    split at found
    · exact found
    · simp at found
  cases template with
  | none => exact text (by simp)
  | some d =>
      refine step_ite (fun brace => ?_) fun noBrace => step_ite (fun name => ?_) fun noName => ?_
      · exact step_on (openTemplateExpr_step n) fun p holds => opens (brace ▸ holds.2)
      · refine step_on (shortTemplate_step U n d (by simpa using name)) fun p holds =>
          opens holds.2
      · refine text fun d' same => ?_
        cases same
        simp_all

theorem isAtEnd_reads : Reads isAtEnd List.isEmpty := by
  intro p l here
  have reads : LexOp.exec .isAtEnd l = .ok (p.rest.isEmpty, l) := by
    simp [LexOp.exec, here, p.reader_isAtEnd]
  exact (wp_op reads).mpr (wp_pure.mpr ⟨rfl, rfl⟩)

theorem step_absurd {x : Lex Unit} {pre : Position → Prop}
    {post : Nat → Text → List Token → Stacks → Stacks → Prop} (never : ∀ p, ¬ pre p) :
    Step pre x post :=
  fun p _ _ holds => absurd holds (never p)

theorem Step.moved {x : Lex Unit} {pre : Position → Prop} (step : Step pre x Covers) :
    Step pre x Moved := by
  intro p l here holds ok
  refine (step p l here holds ok).mono ?_
  rintro _ l' ⟨q, consumed, new, rest, done, reader, tokens, ok', covers⟩
  exact ⟨q, consumed, new, rest, done, reader, tokens, ok', .inl covers⟩

/-- An unterminated string is left at the line end, with nothing consumed. -/
theorem unterminated_step :
    Step (fun p => p.lexeme = []) (do
      reportError .unterminatedString
      popMode) Moved := by
  intro p l here fresh ok
  rcases reportError_cases here .unterminatedString with
    ⟨l', reports, reader, tokens, nesting⟩ | ⟨aborts, wraps⟩
  · apply (wp_perform reports).mpr
    apply ((popMode_restacks l' (nesting ▸ ok)).mono_bad fun _ => False.elim).mono
    intro _ l'' ⟨reader', tokens', ok', height⟩
    refine ⟨p, [], [], by simp [fresh], by simp [Position.done, fresh],
      reader'.trans (reader.trans here), by simp [tokens', tokens], ok', .inr ⟨⟨rfl, rfl⟩, ?_⟩⟩
    rw [height, nesting]
  · exact (wp_op_error aborts).mpr wraps

/-- The string modes: outside the closing quotes and the line ends they cover what they read. -/
theorem scanStringMode_step (U : UnicodeTables) (isRaw : Bool) (dollarDepth : Nat) :
    Step (fun p => On More p ∧ p.lexeme = []) (scanStringMode U isRaw dollarDepth) Moved := by
  have sees : ∀ {p : Position} {c : Char}, p.rest.isEmpty = false → look p.rest 0 = c →
      ∃ cs, p.rest = c :: cs := by
    intro p c some first
    cases rest : p.rest with
    | nil => simp [rest] at some
    | cons d cs => exact ⟨cs, by simpa [rest] using first⟩
  refine step_reads isAtEnd_reads fun ended => step_ite (fun atEnd => ?_) fun inside => ?_
  · refine step_absurd ?_
    rintro p ⟨⟨more, -⟩, rfl⟩
    exact more (List.isEmpty_iff.mp atEnd)
  have some : ended = false := by simpa using inside
  subst some
  refine step_reads (peekN_reads 0) fun c => step_ite (fun raw => ?_) fun standard => ?_
  · refine step_reads (countRun_reads (by decide)) fun run => step_ite (fun closes => ?_)
      fun goes => ?_
    · refine (closeRawString_step run closes).moved.mono ?_
      rintro p ⟨⟨⟨⟨-, fresh⟩, -⟩, -⟩, rfl⟩
      exact ⟨fun i within => look_of_lt_runLength within, fresh⟩
    · refine (scanStringBody_step U isRaw dollarDepth c).moved.mono ?_
      rintro p ⟨⟨⟨-, more⟩, first⟩, rfl⟩
      exact ⟨sees more first, fun _ => by omega, by simp [raw]⟩
  · refine step_ite (fun quote => ?_) fun noQuote => step_ite (fun _ => ?_) fun noNewline => ?_
    · have closing : Step (On More) (advance >>= fun _ => popMode >>= fun _ =>
          completeToken .closeQuote) Covers :=
        step_stacks_token (consumes_advance fun _ => id) popMode_grows
      exact closing.moved.mono fun p holds => holds.1.1.1
    · exact unterminated_step.mono fun p holds => holds.1.1.2
    · refine (scanStringBody_step U isRaw dollarDepth c).moved.mono ?_
      rintro p ⟨⟨-, more⟩, first⟩
      exact ⟨sees more first, fun raw => absurd raw standard, fun _ => ⟨noQuote, by simpa using noNewline⟩⟩

/-! ### The default mode -/

/-- A character that selects `handle_number` although no digit loop takes it. -/
def isStalling (U : UnicodeTables) (c : Char) : Bool := U.isNumeric c && !isAsciiDigit c

/-- The characters that select a handler of their own. -/
def dispatchedChars : List Char :=
  ['{', '}', '$', '"', '\'', '+', '-', '*', '/', '%', '`', ':', '?', '!', '<', '>', '=', '&', '|',
    '.', '\n', '\r', ' ', '\t', '\x0c']

/-- The characters that are a token by themselves, taken last. -/
def loneChars : List Char := ['(', ')', '[', ']', ',', ';', '$', '@']

/-- A character that nothing recognizes. -/
def isUnexpected (U : UnicodeTables) (c : Char) : Bool :=
  !(dispatchedChars ++ loneChars).contains c && !U.isNumeric c && !isKotlinIdentifierStart U c

/-- The text ahead starts with `c`. -/
def At (c : Char) (rest : Text) : Prop := ∃ cs, rest = c :: cs

theorem handleOther_advances (c : Char) (known : c ∈ loneChars) :
    Advances (At c) handleOther := by
  intro n
  refine walks_advance (fun rest holds => ?_) fun d => ?_
  · obtain ⟨cs, rfl⟩ := holds.1
    simp
  have token : ∀ {kind : SyntaxKind}, Walks (fun rest => At c (d :: rest) ∧ (d :: rest).length = n)
      (completeToken kind) fun _ q new => Covered q new ∧ q.rest.length < n := by
    intro kind
    have plain : Completes Anywhere (completeToken kind) := completes_token
    exact (plain.shrinks n).mono (fun rest holds => ⟨trivial, by have := holds.2; simp at this; omega⟩)
      fun _ _ _ ends => ends
  iterate 8 refine walks_ite (fun _ => token) fun _ => ?_
  refine walks_absurd ?_
  rintro rest ⟨⟨cs, same⟩, -⟩
  obtain ⟨rfl, -⟩ := List.cons.inj same
  simp_all [loneChars]

theorem dispatchDefault_step (U : UnicodeTables) {c : Char} (goes : isStalling U c = false)
    (known : isUnexpected U c = false) : Step (On (At c)) (dispatchDefault U c) Covers := by
  have more : ∀ rest, At c rest → More rest := by
    rintro rest ⟨cs, rfl⟩
    simp [More]
  have only : ∀ {x : Lex Unit}, Advances More x → Step (On (At c)) x Covers :=
    fun advances => step_on advances.step fun p => more p.rest
  refine step_ite (fun _ => step_on handleLeftBrace_step fun p => more p.rest) fun _ => ?_
  refine step_ite (fun _ => step_on handleRightBrace_step fun p => more p.rest) fun _ => ?_
  refine step_ite (fun _ => step_on handleDollarOrQuote_step fun p => more p.rest) fun _ => ?_
  refine step_ite (fun _ => only handleCharLiteral_advances) fun _ => ?_
  refine step_ite (fun _ => only handlePlus_advances) fun _ => ?_
  refine step_ite (fun _ => only handleMinus_advances) fun _ => ?_
  refine step_ite (fun _ => only handleStar_advances) fun _ => ?_
  refine step_ite (fun _ => only handleSlash_advances) fun _ => ?_
  refine step_ite (fun _ => only handleModulo_advances) fun _ => ?_
  refine step_ite (fun _ => only handleBacktickIdentifier_advances) fun _ => ?_
  refine step_ite (fun _ => only handleColon_advances) fun _ => ?_
  refine step_ite (fun _ => only handleQuestion_advances) fun _ => ?_
  refine step_ite (fun _ => only (handleBang_advances U)) fun _ => ?_
  refine step_ite (fun _ => only handleLess_advances) fun _ => ?_
  refine step_ite (fun _ => only handleGreater_advances) fun _ => ?_
  refine step_ite (fun _ => only handleEqual_advances) fun _ => ?_
  refine step_ite (fun _ => only handleAnd_advances) fun _ => ?_
  refine step_ite (fun _ => only handleOr_advances) fun _ => ?_
  refine step_ite (fun _ => only handleDot_advances) fun _ => ?_
  refine step_ite (fun numeric => ?_) fun notNumeric => step_ite (fun newline => ?_) fun _ =>
    step_ite (fun blank => ?_) fun _ => step_ite (fun letter => ?_) fun notLetter => ?_
  · refine step_on handleNumber_advances.step ?_
    rintro p ⟨cs, rest⟩
    exact ⟨c, cs, rest, by simpa [isStalling, numeric] using goes⟩
  · refine step_on handleNewline_advances.step ?_
    rintro p ⟨cs, rest⟩
    exact ⟨c, cs, rest, newline⟩
  · refine step_on handleHorizontalWhitespace_advances.step ?_
    rintro p ⟨cs, rest⟩
    exact ⟨c, cs, rest, blank⟩
  · refine step_on (handleIdentifier_advances U).step ?_
    rintro p ⟨cs, rest⟩
    exact ⟨c, cs, rest, by simp [isKotlinIdentifierPart, letter]⟩
  · refine (handleOther_advances c ?_).step
    have mark : c ∉ dispatchedChars → c ∈ loneChars := by
      simpa [isUnexpected, notNumeric, notLetter] using known
    refine mark fun dispatched => ?_
    simp only [dispatchedChars, List.mem_cons, List.not_mem_nil, or_false] at dispatched
    grind [isKotlinNewline]

theorem dispatchDefault_of_unexpected {U : UnicodeTables} {c : Char}
    (unexpected : isUnexpected U c = true) :
    dispatchDefault U c = handleOther ∧ c ∉ loneChars := by
  simp only [isUnexpected, List.contains_eq_mem, List.mem_append, Bool.and_eq_true,
    Bool.not_eq_true', decide_eq_false_iff_not, not_or] at unexpected
  obtain ⟨⟨⟨notDispatched, notLone⟩, notNumeric⟩, notLetter⟩ := unexpected
  simp only [dispatchedChars, List.mem_cons, List.not_mem_nil, or_false, not_or] at notDispatched
  refine ⟨?_, notLone⟩
  simp [dispatchDefault, isKotlinNewline, notDispatched, notNumeric, notLetter]

theorem isStalling_ne {U : UnicodeTables} {c : Char} (stalling : isStalling U c = true) :
    128 ≤ c.val.toNat := by
  by_contra small
  simp only [isStalling, Bool.and_eq_true, Bool.not_eq_true'] at stalling
  have ascii := U.isNumeric_ascii c (UInt32.lt_iff_toNat_lt.mpr (by simpa using small))
  rw [ascii, stalling.2] at stalling
  exact absurd stalling.1 (by decide)

theorem dispatchDefault_of_stalling {U : UnicodeTables} {c : Char}
    (stalling : isStalling U c = true) : dispatchDefault U c = handleNumber := by
  have large := isStalling_ne stalling
  have other : ∀ d : Char, d.val.toNat < 128 → c ≠ d := by
    rintro d small rfl
    omega
  have numeric : U.isNumeric c = true := by
    simp only [isStalling, Bool.and_eq_true] at stalling
    exact stalling.1
  simp [dispatchDefault, numeric, other]

/-! ### A number that is none -/

section NoNumber

variable {bad : Panic → Prop} {p : Position} {l : Lexer}

theorem wp_isAtEnd {k : Bool → Lex α} {post : α → Lexer → Prop} (here : l.reader = p.reader) :
    Wp machine bad (isAtEnd >>= k) post l ↔ Wp machine bad (k p.rest.isEmpty) post l := by
  refine wp_perform ?_
  show LexOp.exec .isAtEnd l = _
  simp [LexOp.exec, here, p.reader_isAtEnd]

theorem wp_completeToken {kind : SyntaxKind} {post : Unit → Lexer → Prop}
    (here : l.reader = p.reader) :
    Wp machine bad (completeToken kind) post l ↔
      post () { l with tokens := l.tokens ++ [Token.new kind p.lexeme (byteLen p.before)] } := by
  have text : l.reader.currentLexeme = .ok p.lexeme := here ▸ p.reader_currentLexeme
  have first : l.reader.start = byteLen p.before := by rw [here]; rfl
  have completes : LexOp.exec (.completeToken kind) l =
      .ok ((), { l with tokens := l.tokens ++ [Token.new kind p.lexeme (byteLen p.before)] }) := by
    simp [LexOp.exec, Lexer.completeToken, text, first, bind, Except.bind, pure, Except.pure]
  exact (wp_op completes).trans wp_pure

theorem consumeDigits_stays {isValidDigit : Char → Bool} {post : Nat × Bool → Lexer → Prop}
    (here : l.reader = p.reader) (noDigit : isValidDigit (look p.rest 0) = false)
    (noUnderscore : look p.rest 0 ≠ '_') (ends : post (0, false) l) :
    Wp machine bad (consumeDigits isValidDigit) post l := by
  apply wp_loop
  apply (wp_isAtEnd here).mpr
  by_cases ended : p.rest.isEmpty = true
  · rw [if_pos ended]
    exact wp_pure.mpr (wp_pure.mpr ends)
  · rw [if_neg ended]
    apply (wp_peekN here).mpr
    rw [noDigit, if_neg (by decide), if_neg noUnderscore]
    exact wp_pure.mpr (wp_pure.mpr ends)

theorem consumeFraction_stays {post : Bool × Bool → Lexer → Prop} (here : l.reader = p.reader)
    (noDot : look p.rest 0 ≠ '.') (ends : post (false, false) l) :
    Wp machine bad (consumeFraction false) post l := by
  apply (wp_peekN here).mpr
  rw [if_neg noDot]
  exact wp_pure.mpr ends

theorem consumeExponent_stays {post : Bool × Bool → Lexer → Prop} (here : l.reader = p.reader)
    (noExponent : look p.rest 0 ≠ 'e' ∧ look p.rest 0 ≠ 'E') (ends : post (false, false) l) :
    Wp machine bad (consumeExponent false) post l := by
  apply (wp_peekN here).mpr
  rw [if_neg (by simp [noExponent])]
  exact wp_pure.mpr ends

theorem consumeIntSuffixes_stays {post : Unit → Lexer → Prop} (here : l.reader = p.reader)
    (noSuffix : ∀ c ∈ ['u', 'U', 'L', 'l'], look p.rest 0 ≠ c) (ends : post () l) :
    Wp machine bad consumeIntSuffixes post l := by
  apply (wp_peekN here).mpr
  rw [if_neg (by simp [noSuffix]), if_neg (noSuffix _ (by simp)), if_neg (noSuffix _ (by simp))]
  exact wp_pure.mpr ends

/-- On a numeric character that is no ASCII digit the number handler completes a token and stays
where it is. -/
theorem handleNumber_stays {U : UnicodeTables} {post : Unit → Lexer → Prop}
    (here : l.reader = p.reader) (stalling : isStalling U (look p.rest 0) = true)
    (ends : ∀ t, post () { l with tokens := l.tokens ++ [t] }) :
    Wp machine bad handleNumber post l := by
  have other : ∀ d : Char, d.val.toNat < 128 → look p.rest 0 ≠ d := by
    intro d small same
    have large := isStalling_ne stalling
    rw [same] at large
    omega
  have noDigit : isAsciiDigit (look p.rest 0) = false := by
    simp only [isStalling, Bool.and_eq_true, Bool.not_eq_true'] at stalling
    exact stalling.2
  apply (wp_peekN here).mpr
  rw [if_neg (other _ (by decide))]
  apply wp_bind.mpr
  apply consumeDigits_stays here noDigit (other _ (by decide))
  apply wp_bind.mpr
  apply consumeFraction_stays here (other _ (by decide))
  apply wp_bind.mpr
  apply consumeExponent_stays here ⟨other _ (by decide), other _ (by decide)⟩
  apply (wp_peekN here).mpr
  show Wp machine bad (if (decide (look p.rest 0 = 'f') || decide (look p.rest 0 = 'F')) = true then
    _ else _) post l
  rw [if_neg (by simp [other])]
  apply wp_bind.mpr
  apply consumeIntSuffixes_stays here
  · intro c known
    simp only [List.mem_cons, List.not_mem_nil, or_false] at known
    rcases known with rfl | rfl | rfl | rfl <;> exact other _ (by decide)
  · exact (wp_completeToken here).mpr (ends _)

end NoNumber

end CaffeineLs.KotlinSyntax
