/-
Module: CaffeineLs.Proofs.KotlinScanning
Purpose: What each scanning routine of the Kotlin lexer does to the reader and the token list:
  it returns, never leaves the text, and covers what it consumed by one token.
Trusted boundary: none
Main exports: Position, Walks, Scans
-/
import CaffeineLs.KotlinSyntax.Lexer
import CaffeineLs.Lib.ProgramLogic
import CaffeineLs.Lib.Tiling

namespace CaffeineLs.KotlinSyntax

open Imperative
open SourceText

/-! ### Positions at character boundaries -/

/-- The source cut in three: up to the token start, the token so far, and what is ahead. -/
structure Position where
  before : Text
  lexeme : Text
  rest : Text

namespace Position

/-- The reader that stands here. -/
def reader (p : Position) : SourceReader :=
  { source := p.before ++ (p.lexeme ++ p.rest),
    current := byteLen p.before + byteLen p.lexeme,
    start := byteLen p.before }

/-- The position a token later: the token so far belongs to the past. -/
def fresh (p : Position) : Position :=
  { before := p.before ++ p.lexeme, lexeme := [], rest := p.rest }

/-- `q` is `p` after some characters more of the same token. -/
def Ahead (p q : Position) : Prop :=
  ∃ consumed, q.before = p.before ∧ q.lexeme = p.lexeme ++ consumed ∧ p.rest = consumed ++ q.rest

theorem Ahead.refl (p : Position) : Ahead p p := ⟨[], by simp⟩

theorem Ahead.trans {p q r : Position} (one : Ahead p q) (two : Ahead q r) : Ahead p r := by
  obtain ⟨xs, before₁, lexeme₁, rest₁⟩ := one
  obtain ⟨ys, before₂, lexeme₂, rest₂⟩ := two
  exact ⟨xs ++ ys, by simp [before₁, before₂], by simp [lexeme₁, lexeme₂],
    by simp [rest₁, rest₂]⟩

theorem Ahead.rest_length_le {p q : Position} (ahead : Ahead p q) :
    q.rest.length ≤ p.rest.length := by
  obtain ⟨xs, -, -, rest⟩ := ahead
  simp [rest]

end Position

/-- The character a reader sees `n` places ahead of `rest`. -/
def look (rest : Text) (n : Nat) : Char := rest.getD n '\x00'

@[simp] theorem look_nil (n : Nat) : look [] n = '\x00' := by simp [look]

@[simp] theorem look_cons_zero (c : Char) (rest : Text) : look (c :: rest) 0 = c := rfl

@[simp] theorem look_cons_succ (c : Char) (rest : Text) (n : Nat) :
    look (c :: rest) (n + 1) = look rest n := by simp [look]

theorem ne_nil_of_look {rest : Text} {n : Nat} {c : Char} (sees : look rest n = c)
    (real : c ≠ '\x00') : rest ≠ [] := by
  rintro rfl
  exact real (by simpa using sees.symm)

theorem charAfter_append (before rest : Text) (n : Nat) :
    SourceReader.charAfter (before ++ rest) (byteLen before) n = .ok (look rest n) := by
  induction n generalizing before rest with
  | zero =>
      unfold SourceReader.charAfter
      rw [sliceFrom?_append]
      cases rest <;> rfl
  | succ n ih =>
      unfold SourceReader.charAfter
      rw [sliceFrom?_append]
      cases rest with
      | nil => simp
      | cons c cs =>
          have next := ih (before ++ [c]) cs
          simpa using next

namespace Position

theorem reader_peekN (p : Position) (n : Nat) : p.reader.peekN n = .ok (look p.rest n) := by
  have here := charAfter_append (p.before ++ p.lexeme) p.rest n
  simpa [SourceReader.peekN, reader] using here

theorem reader_isAtEnd (p : Position) : p.reader.isAtEnd = p.rest.isEmpty := by
  cases rest : p.rest with
  | nil => simp [SourceReader.isAtEnd, reader, rest]
  | cons c cs =>
      have := c.utf8Size_pos
      simp [SourceReader.isAtEnd, reader, rest]
      omega

theorem reader_newToken (p : Position) : p.reader.newToken = p.fresh.reader := by
  simp [SourceReader.newToken, reader, fresh]

theorem reader_currentLexeme (p : Position) : p.reader.currentLexeme = .ok p.lexeme := by
  simp [SourceReader.currentLexeme, reader, slice?_append]

theorem reader_advance {p : Position} {c : Char} {cs : Text} (rest : p.rest = c :: cs) :
    p.reader.advance = .ok (c, reader { p with lexeme := p.lexeme ++ [c], rest := cs }) := by
  have peeked := p.reader_peekN 0
  rw [rest, look_cons_zero] at peeked
  rw [SourceReader.advance, peeked]
  simp [reader, rest, bind, Except.bind, pure, Except.pure, Nat.add_assoc]

end Position

/-! ### Routines that stay within one token -/

/-- The one reason for which a routine may abort from `l`: the source is so long that the ends of
an error's range, cut to 32 bits, are out of order. -/
def Wraps (l : Lexer) (e : Panic) : Prop := e = .badRange ∧ 2 ^ 32 ≤ byteLen l.reader.source

theorem Position.reader_source_length (p : Position) :
    p.reader.current ≤ byteLen p.reader.source := by
  simp [Position.reader]

theorem Position.Ahead.source {p q : Position} (ahead : p.Ahead q) :
    q.reader.source = p.reader.source := by
  rcases ahead with ⟨consumed, before, lexeme, rest⟩
  simp [Position.reader, before, lexeme, rest]

theorem Position.Ahead.wraps {p q : Position} {l l' : Lexer} (ahead : p.Ahead q)
    (here : l.reader = p.reader) (here' : l'.reader = q.reader) (e : Panic) (wraps : Wraps l' e) :
    Wraps l e := by
  rw [Wraps, here', ahead.source, ← here] at wraps
  exact wraps

variable {α β γ : Type}

/-- From every position whose text ahead satisfies `pre`, the routine returns further ahead in
the same token, and the value, the new position and the tokens it added satisfy `post`. -/
def Walks (pre : Text → Prop) (x : Lex α) (post : α → Position → List Token → Prop) : Prop :=
  ∀ (p : Position) (l : Lexer), l.reader = p.reader → pre p.rest →
    Wp machine (Wraps l) x (fun a l' => ∃ q new, p.Ahead q ∧ post a q new ∧ l'.reader = q.reader ∧
      l'.tokens = l.tokens ++ new ∧ l'.nesting = l.nesting) l

/-- A routine that adds no token and ends where `post` holds. -/
def Scans (pre : Text → Prop) (x : Lex α) (post : α → Text → Prop) : Prop :=
  Walks pre x fun a q new => new = [] ∧ post a q.rest

/-- The one token that covers the position's lexeme. -/
def Covered (q : Position) (new : List Token) : Prop :=
  ∃ kind, new = [Token.new kind q.lexeme (byteLen q.before)]

/-- A routine that completes the current token. -/
def Completes (pre : Text → Prop) (x : Lex Unit) : Prop :=
  Walks pre x fun _ => Covered

/-- A routine that completes the current token and has consumed something for it. -/
def Advances (pre : Text → Prop) (x : Lex Unit) : Prop :=
  ∀ n, Walks (fun rest => pre rest ∧ rest.length = n) x
    fun _ q new => Covered q new ∧ q.rest.length < n

/-- A routine that adds no token. -/
abbrev Passes (pre : Text → Prop) (x : Lex α) : Prop := Scans pre x fun _ _ => True

/-- A routine that adds no token and consumes at least one character. -/
def Consumes (pre : Text → Prop) (x : Lex α) : Prop :=
  ∀ n, Scans (fun rest => pre rest ∧ rest.length = n) x fun _ rest => rest.length < n

/-- No condition on the text ahead. -/
def Anywhere : Text → Prop := fun _ => True

/-- The text goes on. -/
def More (rest : Text) : Prop := rest ≠ []

/-- The text ahead starts with a character that satisfies `p`. -/
def StartsWith (p : Char → Bool) (rest : Text) : Prop := ∃ c cs, rest = c :: cs ∧ p c = true

theorem StartsWith.more {p : Char → Bool} {rest : Text} (starts : StartsWith p rest) :
    More rest := by
  obtain ⟨c, cs, rfl, -⟩ := starts
  simp [More]

section Rules

variable {pre pre' : Text → Prop} {post post' : α → Position → List Token → Prop}
  {postβ : β → Position → List Token → Prop}

theorem Walks.mono {x : Lex α} (walks : Walks pre x post) (stronger : ∀ rest, pre' rest → pre rest)
    (weaker : ∀ a q new, post a q new → post' a q new) : Walks pre' x post' := by
  intro p l here holds
  refine (walks p l here (stronger _ holds)).mono ?_
  rintro a l' ⟨q, new, ahead, ends, rest⟩
  exact ⟨q, new, ahead, weaker a q new ends, rest⟩

theorem Walks.of_anywhere {x : Lex α} (walks : Walks Anywhere x post) : Walks pre x post :=
  walks.mono (fun _ _ => trivial) fun _ _ _ ends => ends

theorem Passes.of_anywhere {x : Lex α} (passes : Passes Anywhere x) : Passes pre x :=
  Walks.of_anywhere passes

/-- Scanning only shortens the text ahead. -/
theorem Walks.shrinks {x : Lex α} (walks : Walks pre x post) (n : Nat) :
    Walks (fun rest => pre rest ∧ rest.length < n) x
      fun a q new => post a q new ∧ q.rest.length < n := by
  intro p l here holds
  refine (walks p l here holds.1).mono ?_
  rintro a l' ⟨q, new, ahead, ends, rest⟩
  exact ⟨q, new, ahead, ⟨ends, by have := ahead.rest_length_le; omega⟩, rest⟩

theorem walks_absurd {x : Lex α} (never : ∀ rest, ¬ pre rest) : Walks pre x post :=
  fun p _ _ holds => absurd holds (never p.rest)

theorem walks_pure {a : α} (ends : ∀ q : Position, pre q.rest → post a q []) :
    Walks pre (pure a) post := by
  intro p l here holds
  exact wp_pure.mpr ⟨p, [], .refl p, ends p holds, here, by simp, rfl⟩

theorem walks_peekN {n : Nat} {k : Char → Lex α}
    (walks : ∀ c, Walks (fun rest => pre rest ∧ look rest n = c) (k c) post) :
    Walks pre (peekN n >>= k) post := by
  intro p l here holds
  have reads : LexOp.exec (.peekN n) l = .ok (look p.rest n, l) := by
    simp [LexOp.exec, here, p.reader_peekN, bind, Except.bind, pure, Except.pure]
  exact (wp_perform reads).mpr (walks _ p l here ⟨holds, rfl⟩)

theorem walks_peek {k : Char → Lex α}
    (walks : ∀ c, Walks (fun rest => pre rest ∧ look rest 0 = c) (k c) post) :
    Walks pre (peek >>= k) post :=
  walks_peekN walks

theorem walks_isAtEnd {k : Bool → Lex α}
    (end_ : Walks (fun rest => pre rest ∧ rest = []) (k true) post)
    (more : Walks (fun rest => pre rest ∧ rest ≠ []) (k false) post) :
    Walks pre (isAtEnd >>= k) post := by
  intro p l here holds
  have reads : LexOp.exec .isAtEnd l = .ok (p.rest.isEmpty, l) := by
    simp [LexOp.exec, here, p.reader_isAtEnd]
  refine (wp_perform reads).mpr ?_
  cases rest : p.rest with
  | nil => exact end_ p l here ⟨holds, rest⟩
  | cons c cs => exact more p l here ⟨holds, by simp [rest]⟩

theorem walks_currentLexeme {k : Text → Lex α} (walks : ∀ text, Walks pre (k text) post) :
    Walks pre (currentLexeme >>= k) post := by
  intro p l here holds
  have reads : LexOp.exec .currentLexeme l = .ok (p.lexeme, l) := by
    simp [LexOp.exec, here, p.reader_currentLexeme, bind, Except.bind, pure, Except.pure]
  exact (wp_perform reads).mpr (walks _ p l here holds)

/-- Reporting an error succeeds, or the source is too long for its range. -/
theorem reportError_cases {p : Position} {l : Lexer} (here : l.reader = p.reader)
    (kind : LexicalErrorKind) :
    (∃ l', LexOp.exec (.reportError kind) l = .ok ((), l') ∧ l'.reader = l.reader ∧
        l'.tokens = l.tokens ∧ l'.nesting = l.nesting) ∨
      LexOp.exec (.reportError kind) l = .error .badRange ∧ Wraps l .badRange := by
  by_cases ordered : u32 l.reader.start ≤ u32 l.reader.current
  · left
    let l' : Lexer := { l with errors := l.errors ++
      [{ kind := kind, first := u32 l.reader.start, last := u32 l.reader.current }] }
    have reports : l.reportError kind = .ok l' := if_pos ordered
    refine ⟨l', ?_, rfl, rfl, rfl⟩
    simp only [LexOp.exec, reports, bind, Except.bind, pure, Except.pure]
  · right
    constructor
    · simp only [LexOp.exec, Lexer.reportError, if_neg ordered, bind, Except.bind]
    · refine ⟨rfl, ?_⟩
      by_contra short
      have within := p.reader_source_length
      have before : p.reader.start ≤ p.reader.current := by simp [Position.reader]
      rw [here] at ordered short
      rw [u32, u32, Nat.mod_eq_of_lt (by omega), Nat.mod_eq_of_lt (by omega)] at ordered
      exact ordered before

theorem walks_reportError {kind : LexicalErrorKind} {k : Unit → Lex α}
    (walks : Walks pre (k ()) post) : Walks pre (reportError kind >>= k) post := by
  intro p l here holds
  rcases reportError_cases here kind with ⟨l', reports, reader, tokens, nesting⟩ | ⟨aborts, wraps⟩
  · have here' : l'.reader = p.reader := reader.trans here
    apply (wp_perform reports).mpr
    have same : ∀ e, Wraps l' e → Wraps l e := (Position.Ahead.refl p).wraps here here'
    apply ((walks p l' here' holds).mono_bad same).mono
    intro a l'' ⟨q, new, ahead, ends, here'', tokens', nesting'⟩
    exact ⟨q, new, ahead, ends, here'', tokens ▸ tokens', nesting'.trans nesting⟩
  · exact (wp_op_error aborts).mpr wraps

/-- The position one character further in the same token. -/
def Position.past (p : Position) (c : Char) (cs : Text) : Position :=
  { p with lexeme := p.lexeme ++ [c], rest := cs }

theorem wp_advance {bad : Panic → Prop} {k : Char → Lex α} {ends : α → Lexer → Prop} {p : Position}
    {l : Lexer} {c : Char} {cs : Text} (here : l.reader = p.reader) (rest : p.rest = c :: cs) :
    Wp machine bad (advance >>= k) ends l ↔
      Wp machine bad (k c) ends { l with reader := (p.past c cs).reader } := by
  refine wp_perform ?_
  show LexOp.exec .advance l = _
  simp [LexOp.exec, here, Position.reader_advance rest, Position.past, bind, Except.bind, pure,
    Except.pure]

/-- The reader may advance where the text goes on. -/
theorem walks_advance {k : Char → Lex α} (more : ∀ rest, pre rest → rest ≠ [])
    (walks : ∀ c, Walks (fun rest => pre (c :: rest)) (k c) post) :
    Walks pre (advance >>= k) post := by
  intro p l here holds
  obtain ⟨c, cs, rest⟩ := List.exists_cons_of_ne_nil (more _ holds)
  have passed : p.Ahead (p.past c cs) := ⟨[c], by simp [Position.past, rest]⟩
  rw [rest] at holds
  apply (wp_advance here rest).mpr
  apply ((walks c (p.past c cs) _ rfl holds).mono_bad (passed.wraps here rfl)).mono
  intro a l' ⟨r, new, ahead, others⟩
  exact ⟨r, new, passed.trans ahead, others⟩

theorem walks_bind {x : Lex α} {k : α → Lex β} {mid : α → Text → Prop} (first : Scans pre x mid)
    (walks : ∀ a, Walks (mid a) (k a) postβ) : Walks pre (x >>= k) postβ := by
  intro p l here holds
  refine wp_bind.mpr ((first p l here holds).mono ?_)
  intro a l' ⟨q, _, ahead, ⟨nothing, holds'⟩, here', tokens, nesting⟩
  cases nothing
  apply ((walks a q l' here' holds').mono_bad (ahead.wraps here here')).mono
  intro b l'' ⟨q', new, ahead', ends, here'', tokens', nesting'⟩
  exact ⟨q', new, ahead.trans ahead', ends, here'', by simp [tokens', tokens],
    nesting'.trans nesting⟩

theorem walks_ite {c : Prop} [Decidable c] {x y : Lex α} (yes : c → Walks pre x post)
    (no : ¬ c → Walks pre y post) : Walks pre (if c then x else y) post := by
  split
  · exact yes ‹_›
  · exact no ‹_›

/-- `if c == k { advance(); … }` after `c` was peeked. -/
theorem walks_onChar {c k : Char} {x y : Lex α} (real : k ≠ '\x00') (yes : Walks Anywhere x post)
    (no : Walks (fun rest => pre rest ∧ look rest 0 = c) y post) :
    Walks (fun rest => pre rest ∧ look rest 0 = c)
      (if c = k then advance >>= fun _ => x else y) post := by
  refine walks_ite (fun same => ?_) fun _ => no
  exact walks_advance (fun rest sees => ne_nil_of_look sees.2 (same ▸ real)) fun _ =>
    yes.of_anywhere

/-- The same with an error reported first. -/
theorem walks_onCharReport {c k : Char} {kind : LexicalErrorKind} {x y : Lex α} (real : k ≠ '\x00')
    (yes : Walks Anywhere x post) (no : Walks (fun rest => pre rest ∧ look rest 0 = c) y post) :
    Walks (fun rest => pre rest ∧ look rest 0 = c)
      (if c = k then reportError kind >>= fun _ => advance >>= fun _ => x else y) post := by
  refine walks_ite (fun same => walks_reportError ?_) fun _ => no
  exact walks_advance (fun rest sees => ne_nil_of_look sees.2 (same ▸ real)) fun _ =>
    yes.of_anywhere

/-- The same for a set of characters. -/
theorem walks_onChars (p : Char → Bool) {c : Char} {x y : Lex α} (real : p '\x00' = false)
    (yes : Walks Anywhere x post) (no : Walks (fun rest => pre rest ∧ look rest 0 = c) y post) :
    Walks (fun rest => pre rest ∧ look rest 0 = c)
      (if p c then advance >>= fun _ => x else y) post := by
  refine walks_ite (fun holds => ?_) fun _ => no
  refine walks_advance (fun rest sees => ne_nil_of_look sees.2 ?_) fun _ => yes.of_anywhere
  rintro rfl
  simp [real] at holds

/-- `if peek() == k { advance(); … }`. -/
theorem walks_ifChar {k : Char} {x y : Lex α} (real : k ≠ '\x00') (yes : Walks Anywhere x post)
    (no : Walks Anywhere y post) :
    Walks pre (peek >>= fun c => if c = k then advance >>= fun _ => x else y) post :=
  walks_peek fun _ => walks_onChar real yes no.of_anywhere

/-- A routine that advances first and then completes the token. -/
theorem advances_advance {k : Char → Lex Unit} (more : ∀ rest, pre rest → rest ≠ [])
    (completes : ∀ c, Completes Anywhere (k c)) : Advances pre (advance >>= k) := by
  intro n
  refine walks_advance (fun rest holds => more rest holds.1) fun c => ?_
  exact ((completes c).shrinks n).mono (fun rest holds => ⟨trivial, by simp at holds; omega⟩)
    fun _ _ _ ends => ends

theorem Advances.completes {x : Lex Unit} (advances : Advances pre x) : Completes pre x := by
  intro p l here holds
  refine (advances p.rest.length p l here ⟨holds, rfl⟩).mono ?_
  rintro _ l' ⟨q, new, ahead, ends, others⟩
  exact ⟨q, new, ahead, ends.1, others⟩

theorem walks_token {kind : SyntaxKind} :
    Walks pre (completeToken kind) fun _ q new => Covered q new ∧ pre q.rest := by
  intro p l here holds
  have completes : LexOp.exec (.completeToken kind) l =
      .ok ((), { l with
        tokens := l.tokens ++ [Token.new kind p.lexeme (byteLen p.before)] }) := by
    have text : l.reader.currentLexeme = .ok p.lexeme := here ▸ p.reader_currentLexeme
    have first : l.reader.start = byteLen p.before := by rw [here]; rfl
    simp [LexOp.exec, Lexer.completeToken, text, first, bind, Except.bind, pure, Except.pure]
  refine (wp_op completes).mpr (wp_pure.mpr ?_)
  exact ⟨p, _, .refl p, ⟨⟨kind, rfl⟩, holds⟩, here, rfl, rfl⟩

theorem completes_token {kind : SyntaxKind} : Completes pre (completeToken kind) :=
  walks_token.mono (fun _ => id) fun _ _ _ ends => ends.1

/-! ### Loops within one token -/

/-- A loop whose rounds, from carried values that satisfy `inv`, add no token and consume a
character whenever they ask for another round. -/
theorem scans_loop {body : γ → Lex (γ ⊕ β)} {c : γ} (inv : γ → Prop) (leaves : β → Prop)
    (round : ∀ c n, inv c → Scans (fun rest => rest.length = n) (body c) fun r rest =>
      match r with
      | .inl c' => inv c' ∧ rest.length < n
      | .inr b => leaves b)
    (start : inv c) : Scans pre (.loop body c .pure) fun b _ => leaves b := by
  intro p l here _
  refine Wp.loop
    (fun c l' => inv c ∧ ∃ q, p.Ahead q ∧ l'.reader = q.reader ∧ l'.tokens = l.tokens ∧
      l'.nesting = l.nesting)
    (fun _ l' => byteLen l'.reader.source - l'.reader.current) ?_
    ⟨start, p, .refl p, here, rfl, rfl⟩
  rintro c l' ⟨holds, q, ahead, here', tokens, nesting⟩
  apply ((round c q.rest.length holds q l' here' rfl).mono_bad (ahead.wraps here here')).mono
  intro r l'' ⟨q', new, ahead', ⟨nothing, ends⟩, here'', tokens', nesting'⟩
  cases nothing
  have kept : l''.tokens = l.tokens ∧ l''.nesting = l.nesting :=
    ⟨by simp [tokens', tokens], nesting'.trans nesting⟩
  cases r with
  | inr b => exact wp_pure.mpr ⟨q', [], ahead.trans ahead', ⟨rfl, ends⟩, here'', by simp [kept]⟩
  | inl c' =>
      refine ⟨⟨ends.1, q', ahead.trans ahead', here'', kept⟩, ?_⟩
      obtain ⟨consumed, before, lexeme, rest⟩ := ahead'
      have nonempty : consumed ≠ [] := by
        rintro rfl
        simp [rest] at ends
      have := byteLen_pos_of_ne_nil nonempty
      simp only [here', here'', Position.reader, before, lexeme, rest, byteLen_append]
      omega

/-- When the first round asks for another one, the loop consumes something. -/
theorem scans_loop_first {body : γ → Lex (γ ⊕ β)} {c : γ} {n : Nat} (inv : γ → Prop)
    (leaves : β → Prop)
    (round : ∀ c n, inv c → Scans (fun rest => rest.length = n) (body c) fun r rest =>
      match r with
      | .inl c' => inv c' ∧ rest.length < n
      | .inr b => leaves b)
    (first : Scans pre (body c) fun r rest => ∃ c', r = .inl c' ∧ inv c' ∧ rest.length < n) :
    Scans pre (.loop body c .pure) fun b rest => leaves b ∧ rest.length < n := by
  intro p l here holds
  apply wp_loop
  apply (first p l here holds).mono
  rintro r l' ⟨q, new, ahead, ⟨rfl, c', rfl, kept, shorter⟩, here', tokens, nesting⟩
  have others : Scans Anywhere (.loop body c' .pure) fun b _ => leaves b :=
    scans_loop inv leaves round kept
  apply ((others.shrinks n q l' here' ⟨trivial, shorter⟩).mono_bad (ahead.wraps here here')).mono
  rintro b l'' ⟨q', new, ahead', ⟨⟨rfl, left⟩, shorter'⟩, here'', tokens', nesting'⟩
  exact ⟨q', [], ahead.trans ahead', ⟨rfl, left, shorter'⟩, here'', by simp [tokens', tokens],
    nesting'.trans nesting⟩

/-- A round that adds no token and consumes a character whenever it asks for another round. -/
def Round (body : γ → Lex (γ ⊕ β)) : Prop :=
  ∀ c n, Scans (fun rest => rest.length = n) (body c) fun r rest => r.isLeft → rest.length < n

theorem passes_loop {body : γ → Lex (γ ⊕ β)} {c : γ} (round : Round body) :
    Passes pre (.loop body c .pure) := by
  refine scans_loop (fun _ => True) (fun _ => True) (fun c n _ => ?_) trivial
  refine (round c n).mono (fun _ => id) fun r q new ends => ⟨ends.1, ?_⟩
  cases r with
  | inl c' => exact ⟨trivial, ends.2 rfl⟩
  | inr b => trivial

theorem notAtEndAnd_scans {p : Char → Bool} :
    Scans pre (notAtEndAnd p) fun b rest => pre rest ∧ (b = true ↔ StartsWith p rest) := by
  refine walks_isAtEnd (walks_pure fun q holds => ⟨rfl, holds.1, ?_⟩) (walks_peek fun c =>
    walks_pure fun q holds => ⟨rfl, holds.1.1, ?_⟩)
  · simp [StartsWith, holds.2]
  · obtain ⟨d, ds, rest⟩ := List.exists_cons_of_ne_nil holds.1.2
    have sees : d = c := by simpa [rest] using holds.2
    simp [StartsWith, rest, sees]

theorem Consumes.passes {x : Lex α} (consumes : Consumes pre' x)
    (stronger : ∀ rest, pre rest → pre' rest) : Passes pre x := by
  intro p l here holds
  refine (consumes p.rest.length p l here ⟨stronger _ holds, rfl⟩).mono ?_
  rintro _ l' ⟨q, new, ahead, ⟨rfl, -⟩, others⟩
  exact ⟨q, [], ahead, ⟨rfl, trivial⟩, others⟩

/-- A loop that starts with a full round consumes something. -/
theorem consumes_loop {body : γ → Lex (γ ⊕ β)} {c : γ} (round : Round body)
    (first : Scans pre (body c) fun r _ => r.isLeft) : Consumes pre (.loop body c .pure) := by
  intro n
  refine (scans_loop_first (fun _ => True) (fun _ => True) (fun c n _ => (round c n).mono
    (fun _ => id) fun r _ _ ends => ⟨ends.1, ?_⟩) ?_).mono (fun _ => id)
    fun _ _ _ ends => ⟨ends.1, ends.2.2⟩
  · cases r with
    | inl c' => exact ⟨trivial, ends.2 rfl⟩
    | inr b => trivial
  · intro p l here holds
    refine ((first p l here holds.1).and (round c n p l here holds.2)).mono ?_
    rintro r l' ⟨⟨-, -, -, ⟨-, left⟩, -⟩, q, new, ahead, ⟨none, shorter⟩, others⟩
    obtain ⟨c', rfl⟩ := Sum.isLeft_iff.mp left
    exact ⟨q, new, ahead, ⟨none, c', rfl, trivial, shorter rfl⟩, others⟩

theorem consumes_advance (more : ∀ rest, pre rest → rest ≠ []) : Consumes pre advance :=
  fun n => walks_advance (k := .pure) (fun rest holds => more rest holds.1) fun c =>
    walks_pure fun q holds => ⟨rfl, by have := holds.2; simp at this; omega⟩

/-- A round that leaves the loop. -/
theorem round_leave {b : β} {n : Nat} :
    Scans pre (pure (.inr b : γ ⊕ β)) fun r rest => r.isLeft → rest.length < n :=
  walks_pure fun _ _ => ⟨rfl, by simp⟩

/-- A round that advances, whatever it does then. -/
theorem round_advance {n : Nat} {k : Char → Lex (γ ⊕ β)}
    (more : ∀ rest, pre rest → rest ≠ [] ∧ rest.length = n)
    (others : ∀ c, Passes Anywhere (k c)) :
    Scans pre (advance >>= k) fun r rest => r.isLeft → rest.length < n := by
  refine walks_advance (fun rest holds => (more rest holds).1) fun c => ?_
  refine ((others c).shrinks n).mono (fun rest holds => ⟨trivial, ?_⟩)
    fun _ _ _ ends => ⟨ends.1.1, fun _ => ends.2⟩
  have := (more _ holds).2
  simp at this
  omega

/-- The rounds of a `while` that looks at the next character. -/
theorem round_whileNotAtEndAnd {p : Char → Bool} {body : Lex Unit}
    (consumes : Consumes (StartsWith p) body) :
    Round fun _ : Unit => do
      if ← notAtEndAnd p then
        body
        return (.inl () : Unit ⊕ Unit)
      else
        return .inr () := by
  intro _ n
  refine walks_bind notAtEndAnd_scans fun b => walks_ite (fun goes => ?_) fun _ =>
    walks_pure fun q _ => ⟨rfl, by simp⟩
  have once : Scans (fun rest => rest.length = n ∧ (b = true ↔ StartsWith p rest)) body
      fun _ rest => rest.length < n :=
    (consumes n).mono (fun rest holds => ⟨holds.2.mp goes, holds.1⟩) fun _ _ _ ends => ends
  exact walks_bind once fun _ => walks_pure fun q shorter => ⟨rfl, fun _ => shorter⟩

theorem first_whileNotAtEndAnd {p : Char → Bool} {body : Lex Unit}
    (consumes : Consumes (StartsWith p) body) (starts : ∀ rest, pre rest → StartsWith p rest) :
    Scans pre (do
      if ← notAtEndAnd p then
        body
        return (.inl () : Unit ⊕ Unit)
      else
        return .inr ()) fun r _ => r.isLeft := by
  refine walks_bind notAtEndAnd_scans fun b => walks_ite (fun goes => ?_) fun stops => ?_
  · exact walks_bind (consumes.passes fun rest holds => starts rest holds.1) fun _ =>
      walks_pure fun _ _ => ⟨rfl, rfl⟩
  · intro q l here holds
    exact absurd (holds.2.mpr (starts _ holds.1)) stops

theorem consumes_advance_bind {k : Char → Lex α} (more : ∀ rest, pre rest → rest ≠ [])
    (others : ∀ c, Passes Anywhere (k c)) : Consumes pre (advance >>= k) :=
  fun n => walks_bind (consumes_advance more n) fun c =>
    ((others c).shrinks n).mono (fun _ shorter => ⟨trivial, shorter⟩)
      fun _ _ _ ends => ⟨ends.1.1, ends.2⟩

theorem consumes_peek {k : Char → Lex α}
    (consumes : ∀ c, Consumes (fun rest => pre rest ∧ look rest 0 = c) (k c)) :
    Consumes pre (peek >>= k) :=
  fun n => walks_peek fun c => (consumes c n).mono (fun _ holds => ⟨⟨holds.1.1, holds.2⟩, holds.1.2⟩)
    fun _ _ _ ends => ends

theorem consumes_ite {c : Prop} [Decidable c] {x y : Lex α} (yes : c → Consumes pre x)
    (no : ¬ c → Consumes pre y) : Consumes pre (if c then x else y) :=
  fun n => walks_ite (fun holds => yes holds n) fun fails => no fails n

theorem passes_pure {a : α} : Passes pre (pure a) := walks_pure fun _ _ => ⟨rfl, trivial⟩

theorem passes_reportError {kind : LexicalErrorKind} : Passes pre (reportError kind) :=
  show Walks pre (reportError kind >>= pure) _ from walks_reportError passes_pure

theorem advanceWhile_passes {p : Char → Bool} : Passes pre (advanceWhile p) :=
  passes_loop (round_whileNotAtEndAnd (consumes_advance_bind (fun _ => StartsWith.more) fun _ => passes_pure))

theorem advanceWhile_consumes {p : Char → Bool} (starts : ∀ rest, pre rest → StartsWith p rest) :
    Consumes pre (advanceWhile p) :=
  have once := consumes_advance_bind (fun _ => StartsWith.more) fun _ => passes_pure
  consumes_loop (round_whileNotAtEndAnd once) (first_whileNotAtEndAnd once starts)

/-- Completing the token after a loop that started with a full round. -/
theorem advances_bind {x : Lex α} {k : α → Lex Unit}
    (consumes : Consumes pre x)
    (completes : ∀ a, Completes Anywhere (k a)) : Advances pre (x >>= k) := by
  intro n
  exact walks_bind (consumes n) fun a =>
    ((completes a).shrinks n).mono (fun rest shorter => ⟨trivial, shorter⟩) fun _ _ _ ends => ends

end Rules

/-! ### Blanks, names and literals -/

theorem handleHorizontalWhitespace_advances :
    Advances (StartsWith fun c => c = ' ' || c = '\t' || c = '\x0c') handleHorizontalWhitespace :=
  advances_bind (advanceWhile_consumes fun _ => id) fun _ => completes_token

/-- One line end: `\n`, `\r` or `\r\n`. -/
theorem newline_consumes :
    Consumes (StartsWith fun c => c = '\n' || c = '\r') (do
      let c ← peek
      if c = '\n' then
        let _ ← advance
      else
        let _ ← advance
        if (← peek) = '\n' then
          let _ ← advance) := by
  refine consumes_peek fun c => consumes_ite (fun _ => ?_) fun _ => ?_
  · exact consumes_advance_bind (fun _ holds => holds.1.more) fun _ => passes_pure
  · exact consumes_advance_bind (fun _ holds => holds.1.more) fun _ =>
      walks_ifChar (by decide) passes_pure passes_pure

theorem handleNewline_advances : Advances (StartsWith isKotlinNewline) handleNewline :=
  advances_bind
    (consumes_loop (round_whileNotAtEndAnd newline_consumes)
      (first_whileNotAtEndAnd newline_consumes fun _ => id))
    fun _ => completes_token

theorem handleIdentifier_advances (U : UnicodeTables) :
    Advances (StartsWith (isKotlinIdentifierPart U)) (handleIdentifier U) :=
  advances_bind (advanceWhile_consumes fun _ => id) fun _ =>
    walks_currentLexeme fun _ => walks_ite
      (fun _ => walks_ifChar (by decide) completes_token completes_token)
      (fun _ => completes_token)

/-- `if condition { report_error(kind) }` before the rest of a routine. -/
theorem walks_reportIf {pre : Text → Prop} {post : α → Position → List Token → Prop} {c : Prop}
    [Decidable c] {kind : LexicalErrorKind} {k : Unit → Lex α} (walks : Walks pre (k ()) post) :
    Walks pre (if c then reportError kind >>= k else k ()) post :=
  walks_ite (fun _ => walks_reportError walks) fun _ => walks

theorem consumeDigits_round (isValidDigit : Char → Bool) :
    Round fun (digitCount, lastWasUnderscore) => (do
      if ← isAtEnd then
        return .inr (digitCount, lastWasUnderscore)
      else
        let c ← peek
        if isValidDigit c then
          let _ ← advance
          return .inl (digitCount + 1, false)
        else if c = '_' then
          let _ ← advance
          return .inl (digitCount, true)
        else
          return .inr (digitCount, lastWasUnderscore) : Lex ((Nat × Bool) ⊕ (Nat × Bool))) :=
  fun (_, _) _ => walks_isAtEnd round_leave <| walks_peek fun _ => walks_ite
    (fun _ => round_advance (fun _ holds => ⟨holds.1.2, holds.1.1⟩) fun _ => passes_pure)
    fun _ => walks_ite
      (fun _ => round_advance (fun _ holds => ⟨holds.1.2, holds.1.1⟩) fun _ => passes_pure)
      fun _ => round_leave

theorem consumeDigits_passes {pre : Text → Prop} {isValidDigit : Char → Bool} :
    Passes pre (consumeDigits isValidDigit) :=
  passes_loop (consumeDigits_round isValidDigit)

theorem consumeDigits_consumes (isValidDigit : Char → Bool) :
    Consumes (StartsWith isValidDigit) (consumeDigits isValidDigit) := by
  refine consumes_loop (consumeDigits_round isValidDigit) ?_
  refine walks_isAtEnd ?_ (walks_peek fun c => walks_ite (fun _ => ?_) fun invalid => ?_)
  · exact fun p l _ holds => absurd holds.2 holds.1.more
  · exact walks_advance (fun _ holds => holds.1.2) fun _ => walks_pure fun _ _ => ⟨rfl, rfl⟩
  · rintro p l - ⟨⟨⟨d, ds, rest, valid⟩, -⟩, sees⟩
    rw [rest, look_cons_zero] at sees
    exact absurd (sees ▸ valid) invalid

/-- The sign of an exponent and its digits. -/
theorem exponentRest_passes {pre : Text → Prop} :
    Passes pre (do
      let sign ← peek
      if sign = '+' || sign = '-' then
        let _ ← advance
      if (← peek) = '_' then
        reportError .illegalUnderscore
      let (expDigits, endedWithUnderscore) ← consumeDigits isAsciiDigit
      if expDigits = 0 then
        reportError .missingExponentDigits
      return (true, endedWithUnderscore)) := by
  have digits : Passes Anywhere (do
      if (← peek) = '_' then
        reportError .illegalUnderscore
      let (expDigits, endedWithUnderscore) ← consumeDigits isAsciiDigit
      if expDigits = 0 then
        reportError .missingExponentDigits
      return (true, endedWithUnderscore)) :=
    walks_peek fun _ => walks_reportIf <| walks_bind consumeDigits_passes fun (_, _) =>
      walks_reportIf passes_pure
  exact walks_peek fun _ =>
    walks_onChars (fun sign => sign = '+' || sign = '-') (by decide) digits digits.of_anywhere

theorem consumeExponent_passes {pre : Text → Prop} (lastWasUnderscore : Bool) :
    Passes pre (consumeExponent lastWasUnderscore) := by
  refine walks_peek fun c => walks_ite (fun exponent => walks_reportIf ?_) fun _ => passes_pure
  refine walks_advance (fun _ sees => ne_nil_of_look sees.2 ?_) fun _ => exponentRest_passes
  rintro rfl
  simp at exponent

theorem handleLeadingDotFloat_completes : Completes Anywhere handleLeadingDotFloat := by
  refine walks_bind consumeDigits_passes fun (_, _) => ?_
  refine walks_bind (consumeExponent_passes _) fun (_, _) => walks_reportIf ?_
  exact walks_peek fun _ => 
    walks_onChars (fun c => c = 'f' || c = 'F') (by decide) completes_token completes_token

theorem consumeIntSuffixes_passes {pre : Text → Prop} : Passes pre consumeIntSuffixes := by
  have long : Passes Anywhere (do
      let next ← peek
      if next = 'L' then
        let _ ← advance
      else if next = 'l' then
        reportError .wrongLongSuffixCase
        let _ ← advance) :=
    walks_peek fun _ => walks_onChar (by decide) passes_pure <|
      walks_onCharReport (by decide) passes_pure passes_pure
  exact walks_peek fun _ => walks_onChars (fun c => c = 'u' || c = 'U') (by decide) long <|
    walks_onChar (by decide) passes_pure <| walks_onCharReport (by decide) passes_pure passes_pure

theorem handleRadixLiteral_completes (isValidDigit : Char → Bool) :
    Completes Anywhere (handleRadixLiteral isValidDigit) :=
  walks_peek fun _ => walks_reportIf <| walks_bind consumeDigits_passes fun (_, _) =>
    walks_reportIf <| walks_reportIf <| walks_bind consumeIntSuffixes_passes fun _ =>
      completes_token

theorem consumeFraction_passes {pre : Text → Prop} (lastWasUnderscore : Bool) :
    Passes pre (consumeFraction lastWasUnderscore) := by
  refine walks_peek fun c => walks_ite (fun dot => ?_) fun _ => passes_pure
  refine walks_peekN fun next => walks_ite (fun _ => walks_reportIf ?_) fun _ => passes_pure
  refine walks_advance (fun _ sees => ne_nil_of_look sees.1.2 (dot ▸ by decide)) fun _ => ?_
  exact walks_peek fun _ => walks_reportIf <| walks_bind consumeDigits_passes fun (_, _) =>
    passes_pure

/-- What follows the integer digits of a decimal literal. -/
theorem decimalRest_completes (afterInteger : Bool) :
    Completes Anywhere (do
      let (hasFraction, afterFraction) ← consumeFraction afterInteger
      let (hasExponent, lastWasUnderscore) ← consumeExponent afterFraction
      if lastWasUnderscore then
        reportError .illegalUnderscore
      let c ← peek
      if hasFraction || hasExponent then
        if c = 'f' || c = 'F' then
          let _ ← advance
        completeToken .floatLiteral
      else if c = 'f' || c = 'F' then
        let _ ← advance
        completeToken .floatLiteral
      else
        consumeIntSuffixes
        completeToken .integerLiteral) := by
  refine walks_bind (consumeFraction_passes _) fun (_, _) => ?_
  refine walks_bind (consumeExponent_passes _) fun (_, _) => walks_reportIf ?_
  refine walks_peek fun c => walks_ite (fun _ => ?_) fun _ => ?_
  · exact walks_onChars (fun c => c = 'f' || c = 'F') (by decide) completes_token completes_token
  · exact walks_onChars (fun c => c = 'f' || c = 'F') (by decide) completes_token <|
      walks_bind consumeIntSuffixes_passes fun _ => completes_token

theorem handleDecimalOrFloat_advances : Advances (StartsWith isAsciiDigit) handleDecimalOrFloat :=
  advances_bind (consumeDigits_consumes isAsciiDigit) fun (_, _) => decimalRest_completes _

/-- Two characters that were seen, and then the rest of the token. -/
theorem advances_two {pre : Text → Prop} {x : Lex Unit} (completes : Completes Anywhere x)
    (more : ∀ rest, pre rest → ∃ c d cs, rest = c :: d :: cs) :
    Advances pre (advance >>= fun _ => advance >>= fun _ => x) := by
  intro n
  refine walks_advance (fun rest holds => ?_) fun c => walks_advance (fun rest holds => ?_) fun d => ?_
  · obtain ⟨c, d, cs, rfl⟩ := more rest holds.1
    simp
  · obtain ⟨c, d, cs, same⟩ := more _ holds.1
    rintro rfl
    simp at same
  · exact (completes.shrinks n).mono (fun rest holds => ⟨trivial, by simp at holds; omega⟩)
      fun _ _ _ ends => ends

theorem two_of_look {rest : Text} {c d : Char} (first : look rest 0 = c) (real : c ≠ '\x00')
    (second : look rest 1 = d) (real' : d ≠ '\x00') : ∃ c d cs, rest = c :: d :: cs := by
  obtain ⟨c', cs, rfl⟩ := List.exists_cons_of_ne_nil (ne_nil_of_look first real)
  have next : look cs 0 = d := second
  obtain ⟨d', ds, rfl⟩ := List.exists_cons_of_ne_nil (ne_nil_of_look next real')
  exact ⟨c', d', ds, rfl⟩

theorem handleNumber_advances : Advances (StartsWith isAsciiDigit) handleNumber := by
  intro n
  refine walks_peek fun c => walks_ite (fun zero => walks_peekN fun next => ?_) fun _ => ?_
  · have prefix_ : ∀ {x : Lex Unit} (p : Char → Bool), p '\x00' = false → p next →
        Completes Anywhere x →
        Walks (fun rest => ((StartsWith isAsciiDigit rest ∧ rest.length = n) ∧ look rest 0 = c) ∧
          look rest 1 = next) (advance >>= fun _ => advance >>= fun _ => x)
          fun _ q new => Covered q new ∧ q.rest.length < n := by
      intro x p real is completes
      have two : Advances (fun rest => look rest 0 = c ∧ look rest 1 = next) _ :=
        advances_two completes fun rest sees => two_of_look sees.1 (zero ▸ by decide) sees.2
          (by rintro rfl; simp [real] at is)
      exact (two n).mono (fun rest holds => ⟨⟨holds.1.2, holds.2⟩, holds.1.1.2⟩)
        fun _ _ _ ends => ends
    refine walks_ite (fun hex => ?_) fun _ => walks_ite (fun binary => ?_) fun _ => ?_
    · exact prefix_ (fun c => c = 'x' || c = 'X') (by decide) hex (handleRadixLiteral_completes _)
    · exact prefix_ (fun c => c = 'b' || c = 'B') (by decide) binary
        (handleRadixLiteral_completes _)
    · exact walks_reportIf ((handleDecimalOrFloat_advances n).mono (fun _ holds => holds.1.1)
        fun _ _ _ ends => ends)
  · exact (handleDecimalOrFloat_advances n).mono (fun _ holds => holds.1) fun _ _ _ ends => ends

/-- The four digits of a `\u` escape, or fewer. -/
theorem hexDigits_passes {pre : Text → Prop} (n : Nat) : Passes pre (hexDigits n) := by
  induction n generalizing pre with
  | zero => exact passes_pure
  | succ n ih =>
      refine walks_peek fun c => walks_ite (fun _ => passes_pure) fun digit => ?_
      refine walks_advance (fun _ sees => ne_nil_of_look sees.2 ?_) fun _ => ih
      rintro rfl
      exact digit (by decide)

theorem consumeEscapeSequence_consumes : Consumes More consumeEscapeSequence := by
  refine consumes_advance_bind (fun _ => id) fun _ => walks_peek fun c => ?_
  refine walks_onChars (fun c => ['t', 'b', 'n', 'r', '\'', '"', '\\', '$'].contains c) (by decide)
    passes_pure ?_
  refine walks_onChar (by decide) (walks_bind (hexDigits_passes 4) fun _ => walks_ite (fun _ => passes_reportError) fun _ => passes_pure)
    (walks_reportError ?_)
  refine walks_isAtEnd passes_pure ?_
  exact walks_advance (fun _ holds => holds.2) fun _ => passes_pure

/-- The characters of a literal up to its end. -/
theorem literalRest_passes {pre : Text → Prop} (p : Char → Bool) (init : Bool) :
    Passes pre (Prog.loop (β := Bool) (γ := Bool)
      (fun tooManyChars => do
        if ← notAtEndAnd p then
          let _ ← advance
          return .inl true
        else
          return .inr tooManyChars)
      init .pure : Lex Bool) :=
  passes_loop fun _ _ => walks_bind notAtEndAnd_scans fun _ => walks_ite
    (fun goes => round_advance (fun _ holds => ⟨(holds.2.mp goes).more, holds.1⟩)
      fun _ => passes_pure)
    fun _ => round_leave

theorem handleCharLiteral_advances : Advances More handleCharLiteral := by
  have close : Completes Anywhere (do
      let tooManyChars ← Prog.loop (β := Bool) (γ := Bool)
        (fun tooManyChars => do
          if ← notAtEndAnd (fun c => c ≠ '\'' && !isKotlinNewline c) then
            let _ ← advance
            return .inl true
          else
            return .inr tooManyChars)
        false .pure
      if (← peek) = '\'' then
        let _ ← advance
        if tooManyChars then
          reportError .tooManyCharsInCharLiteral
      else
        reportError .unterminatedCharLiteral
      completeToken .charLiteral) := by
    refine walks_bind (literalRest_passes _ _) fun _ => walks_peek fun c => ?_
    exact walks_onChar (by decide) (walks_reportIf completes_token)
      (walks_reportError completes_token)
  refine advances_advance (fun _ => id) fun _ => walks_peek fun c => ?_
  refine walks_onCharReport (by decide) completes_token ?_
  refine walks_isAtEnd close.of_anywhere (walks_peek fun c' => walks_ite (fun _ => ?_) fun _ => ?_)
  · exact walks_bind (consumeEscapeSequence_consumes.passes fun _ holds => holds.1.2) fun _ =>
      close.of_anywhere
  · exact walks_advance (fun _ holds => holds.1.2) fun _ => close.of_anywhere

theorem handleBacktickIdentifier_advances : Advances More handleBacktickIdentifier := by
  have name : Passes Anywhere (Prog.loop (β := Unit) (γ := Unit)
      (fun _ => do
        if ← notAtEndAnd (· ≠ '`') then
          if isKotlinNewline (← peek) then
            reportError .unterminatedIdentifier
            return .inr ()
          else
            let _ ← advance
            return .inl ()
        else
          return .inr ())
      () .pure : Lex Unit) :=
    passes_loop fun _ _ => walks_bind notAtEndAnd_scans fun _ => walks_ite
      (fun goes => walks_peek fun _ => walks_ite (fun _ => walks_reportError round_leave) fun _ =>
        round_advance (fun _ holds => ⟨(holds.1.2.mp goes).more, holds.1.1⟩) fun _ => passes_pure)
      fun _ => round_leave
  refine advances_advance (fun _ => id) fun _ => walks_peek fun c => ?_
  refine walks_onCharReport (by decide) completes_token (walks_bind name.of_anywhere fun _ => ?_)
  refine walks_isAtEnd (walks_reportError completes_token) (walks_peek fun c' => ?_)
  exact walks_onChar (by decide) completes_token completes_token

/-! ### Operators and comments -/

theorem handleDot_advances : Advances More handleDot :=
  advances_advance (fun _ => id) fun _ => walks_peek fun _ =>
    walks_onChar (by decide) (walks_ifChar (by decide) completes_token completes_token) <|
      walks_ite (fun _ => handleLeadingDotFloat_completes.of_anywhere) fun _ => completes_token

theorem handleEqual_advances : Advances More handleEqual :=
  advances_advance (fun _ => id) fun _ =>
    walks_ifChar (by decide) (walks_ifChar (by decide) completes_token completes_token)
      completes_token

theorem handleColon_advances : Advances More handleColon :=
  advances_advance (fun _ => id) fun _ =>
    walks_ifChar (by decide) completes_token completes_token

theorem handleQuestion_advances : Advances More handleQuestion :=
  advances_advance (fun _ => id) fun _ => walks_peek fun _ =>
    walks_onChar (by decide) completes_token <|
      walks_onChar (by decide) completes_token completes_token

theorem handleLess_advances : Advances More handleLess :=
  advances_advance (fun _ => id) fun _ =>
    walks_ifChar (by decide) completes_token completes_token

theorem handleGreater_advances : Advances More handleGreater :=
  advances_advance (fun _ => id) fun _ =>
    walks_ifChar (by decide) completes_token completes_token

theorem handleAnd_advances : Advances More handleAnd :=
  advances_advance (fun _ => id) fun _ =>
    walks_ifChar (by decide) completes_token completes_token

theorem handleOr_advances : Advances More handleOr :=
  advances_advance (fun _ => id) fun _ =>
    walks_ifChar (by decide) completes_token (walks_reportError completes_token)

theorem handlePlus_advances : Advances More handlePlus :=
  advances_advance (fun _ => id) fun _ => walks_peek fun _ =>
    walks_onChar (by decide) completes_token <|
      walks_onChar (by decide) completes_token completes_token

theorem handleMinus_advances : Advances More handleMinus :=
  advances_advance (fun _ => id) fun _ => walks_peek fun _ =>
    walks_onChar (by decide) completes_token <|
      walks_onChar (by decide) completes_token <|
        walks_onChar (by decide) completes_token completes_token

theorem handleStar_advances : Advances More handleStar :=
  advances_advance (fun _ => id) fun _ =>
    walks_ifChar (by decide) completes_token completes_token

theorem handleModulo_advances : Advances More handleModulo :=
  advances_advance (fun _ => id) fun _ =>
    walks_ifChar (by decide) completes_token completes_token

/-- `!in` and `!is` are only taken when both letters were seen. -/
theorem handleBang_advances (U : UnicodeTables) : Advances More (handleBang U) := by
  refine advances_advance (fun _ => id) fun _ => walks_peek fun c => ?_
  refine walks_onChar (by decide) (walks_ifChar (by decide) completes_token completes_token) ?_
  refine walks_onChar (by decide) completes_token ?_
  refine walks_ite (fun letter => walks_peekN fun next => walks_peekN fun _ => ?_)
    fun _ => completes_token
  have two : ∀ {d : Char} {b : Bool} {kind : SyntaxKind}, d ≠ '\x00' →
      (next = d && b) = true →
      Completes (fun rest => look rest 0 = c ∧ look rest 1 = next)
        (advance >>= fun _ => advance >>= fun _ => completeToken kind) := by
    intro d b kind real same
    obtain ⟨rfl, -⟩ : next = d ∧ b = true := by simpa using same
    exact (advances_two completes_token fun rest sees =>
      two_of_look sees.1 (letter ▸ by decide) sees.2 real).completes
  refine walks_ite (fun same => ?_) fun _ => walks_peekN fun _ => walks_ite (fun same => ?_) fun _ =>
    completes_token
  · exact (two (by decide) same).mono (fun _ holds => ⟨holds.1.1.2, holds.1.2⟩)
      fun _ _ _ ends => ends
  · exact (two (by decide) same).mono (fun _ holds => ⟨holds.1.1.1.2, holds.1.1.2⟩)
      fun _ _ _ ends => ends

theorem processLineComment_completes : Completes Anywhere processLineComment :=
  walks_bind advanceWhile_passes fun _ => completes_token

theorem blockCommentRest_passes {pre : Text → Prop} (depth : Nat) :
    Passes pre (blockCommentRest depth) := by
  refine passes_loop fun depth n => walks_ite (fun _ => round_leave) fun _ =>
    walks_isAtEnd round_leave <| walks_peek fun c => ?_
  refine round_advance (fun _ holds => ⟨holds.1.2, holds.1.1⟩) fun _ => ?_
  refine walks_ite (fun _ => ?_) fun _ => walks_ite (fun _ => ?_) fun _ => passes_pure
  · exact walks_ifChar (by decide) passes_pure passes_pure
  · exact walks_ifChar (by decide) passes_pure passes_pure

theorem processBlockComment_completes : Completes Anywhere processBlockComment := by
  have opening : Passes Anywhere (do
      if (← peek) = '*' then
        let _ ← advance
        if (← peek) = '/' then
          let _ ← advance
          return (0, false)
        else
          return (1, true)
      else
        return (1, false) : Lex (Nat × Bool)) :=
    walks_ifChar (by decide) (walks_ifChar (by decide) passes_pure passes_pure) passes_pure
  exact walks_bind opening fun (_, _) => walks_bind (blockCommentRest_passes _) fun _ =>
    walks_reportIf <| walks_ite (fun _ => completes_token) fun _ => completes_token

theorem handleSlash_advances : Advances More handleSlash :=
  advances_advance (fun _ => id) fun _ => walks_peek fun _ =>
    walks_onChar (by decide) processLineComment_completes <|
      walks_onChar (by decide) processBlockComment_completes <|
        walks_onChar (by decide) completes_token completes_token

end CaffeineLs.KotlinSyntax
