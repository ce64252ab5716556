/-
Module: CaffeineLs.Proofs.JavaScanning
Purpose: The Java lexer on logical characters as a scanner, and the handlers that always cover
  what they consumed by one token.
Trusted boundary: none
Main exports: scanner, Walks, Completes
-/
import CaffeineLs.JavaSyntax.LogicalLexer
import CaffeineLs.Lib.Scanning

namespace CaffeineLs.JavaSyntax

open Imperative
open Imperative.Scanner
open SourceText

/-! ### The lexer as a scanner -/

/-- The one reason to abort on a decoded source of `size` bytes: it is so long that a range, cut to
32 bits, is not well formed. -/
def Wraps (size : Nat) (e : Panic) : Prop := e = .badRange ∧ 2 ^ 32 ≤ size

namespace LogicalLexer

def size (t : LogicalLexer) : Nat := byteLen (spelled (t.before ++ (t.lexeme ++ t.rest)))

/-- From `t` the current token grows and the tokens `new` are completed. -/
def Reaches (t : LogicalLexer) (new : List Token) (t' : LogicalLexer) : Prop :=
  t'.before = t.before ∧ (∃ consumed, t'.lexeme = t.lexeme ++ consumed ∧
    t.rest = consumed ++ t'.rest) ∧ t'.tokens = t.tokens ++ new

theorem Reaches.size {t t' : LogicalLexer} {new : List Token} (reaches : t.Reaches new t') :
    t'.size = t.size := by
  rcases reaches with ⟨before, ⟨consumed, lexeme, rest⟩, -⟩
  simp only [LogicalLexer.size, before, lexeme, rest, List.append_assoc]

/-- Nothing is consumed and no token is completed. -/
def Same (t t' : LogicalLexer) : Prop :=
  t'.before = t.before ∧ t'.lexeme = t.lexeme ∧ t'.rest = t.rest ∧ t'.tokens = t.tokens

theorem Same.reaches {t t' : LogicalLexer} (same : t.Same t') : t.Reaches [] t' :=
  ⟨same.1, ⟨[], by simp [same.2.1], by simp [same.2.2.1]⟩, by simp [same.2.2.2]⟩

theorem start_le_current (t : LogicalLexer) : t.start ≤ t.current := by
  simp [start, current, done]

theorem current_add_rest (t : LogicalLexer) : t.current + byteLen (spelled t.rest) = t.size := by
  simp [current, done, size, Nat.add_assoc]

end LogicalLexer

/-- The lexer on logical characters, as a scanner. -/
def scanner : Scanner logicalMachine LogicalChar Token where
  rest := LogicalLexer.rest
  bad t := Wraps t.size
  Reaches := LogicalLexer.Reaches
  refl t := ⟨rfl, ⟨[], by simp⟩, by simp⟩
  trans := by
    intro t t' t'' xs ys one two
    rcases one with ⟨before, ⟨consumed, lexeme, rest⟩, tokens⟩
    rcases two with ⟨before', ⟨consumed', lexeme', rest'⟩, tokens'⟩
    exact ⟨before'.trans before, ⟨consumed ++ consumed', by simp [lexeme', lexeme],
      by simp [rest, rest']⟩, by simp [tokens', tokens]⟩
  shortens := by
    intro t t' xs reaches
    rcases reaches with ⟨-, ⟨consumed, -, rest⟩, -⟩
    simp [rest]
  bad_of := by
    intro t t' xs e reaches wraps
    exact reaches.size ▸ wraps

abbrev Walks {α : Type} (pre : List LogicalChar → Prop) (x : Lex α)
    (post : α → LogicalLexer → List Token → Prop) : Prop :=
  scanner.Walks pre x post

abbrev Scans {α : Type} (pre : List LogicalChar → Prop) (x : Lex α)
    (post : α → List LogicalChar → Prop) : Prop :=
  scanner.Scans pre x post

/-- A routine that completes no token. -/
abbrev Passes {α : Type} (x : Lex α) : Prop := scanner.Passes x

/-- The one token that covers the current lexeme. -/
def Covered (t : LogicalLexer) (new : List Token) : Prop :=
  ∃ tokenType, new = [Token.new tokenType (spelled t.lexeme) t.start]

/-- A routine that completes the current token. -/
abbrev Completes (x : Lex Unit) : Prop := Walks Anywhere x fun _ => Covered

/-- A routine that consumes nothing and completes no token. -/
def Idle {α : Type} (x : Lex α) : Prop :=
  ∀ t, Wp logicalMachine (Wraps t.size) x (fun _ t' => t.Same t') t

/-! ### The primitive operations -/

section Operations

variable {α β : Type} {pre : List LogicalChar → Prop}
  {post : α → LogicalLexer → List Token → Prop}

open LogicalLexer

theorem Idle.passes {x : Lex α} (idle : Idle x) : Passes x := by
  intro t _
  apply (idle t).mono
  intro a t' same
  exact ⟨[], same.reaches, rfl, trivial⟩

theorem wp_peekN {bad : Panic → Prop} {n : Nat} {k : Char → Lex α} {t : LogicalLexer}
    {ends : α → LogicalLexer → Prop} :
    Wp logicalMachine bad (peekN n >>= k) ends t ↔
      Wp logicalMachine bad (k (look t.rest n)) ends t :=
  wp_perform rfl

theorem wp_isAtEnd {bad : Panic → Prop} {k : Bool → Lex α} {t : LogicalLexer}
    {ends : α → LogicalLexer → Prop} :
    Wp logicalMachine bad (isAtEnd >>= k) ends t ↔
      Wp logicalMachine bad (k t.rest.isEmpty) ends t :=
  wp_perform rfl

theorem wp_getTemplates {bad : Panic → Prop} {k : Templates → Lex α} {t : LogicalLexer}
    {ends : α → LogicalLexer → Prop} :
    Wp logicalMachine bad (getTemplates >>= k) ends t ↔
      Wp logicalMachine bad (k t.templates) ends t :=
  wp_perform rfl

theorem walks_peekN {n : Nat} {k : Char → Lex α}
    (walks : ∀ c, Walks (fun rest => pre rest ∧ look rest n = c) (k c) post) :
    Walks pre (peekN n >>= k) post := by
  intro t holds
  exact wp_peekN.mpr (walks _ t ⟨holds, rfl⟩)

theorem walks_peek {k : Char → Lex α}
    (walks : ∀ c, Walks (fun rest => pre rest ∧ look rest 0 = c) (k c) post) :
    Walks pre (peek >>= k) post :=
  walks_peekN walks

theorem walks_isAtEnd {k : Bool → Lex α}
    (ended : Walks (fun rest => pre rest ∧ rest = []) (k true) post)
    (more : Walks (fun rest => pre rest ∧ rest ≠ []) (k false) post) :
    Walks pre (isAtEnd >>= k) post := by
  intro t holds
  apply wp_isAtEnd.mpr
  cases rest : t.rest with
  | nil => exact ended t ⟨holds, rest⟩
  | cons lc cs => exact more t ⟨holds, by simp [scanner, rest]⟩

theorem passes_peekN {n : Nat} : Passes (peekN n) := by
  intro t _
  have here : logicalMachine.exec (.peekN n) t = .ok (look t.rest n, t) := rfl
  exact (wp_op here).mpr (wp_pure.mpr ⟨[], scanner.refl t, rfl, trivial⟩)

/-- Recording an ill-formed escape succeeds, or the source is too long. -/
theorem recordEscape_cases {t : LogicalLexer} {lc : LogicalChar} {cs : List LogicalChar}
    (rest : t.rest = lc :: cs) :
    (∃ escapeErrors, t.recordEscape lc = .ok escapeErrors) ∨
      t.recordEscape lc = .error .badRange ∧ 2 ^ 32 ≤ t.size := by
  cases lc with
  | plain c => exact .inl ⟨_, rfl⟩
  | escape c tail => exact .inl ⟨_, rfl⟩
  | illFormed len =>
      by_cases fits : u32 t.current + u32 len < 2 ^ 32
      · left
        have range : UnicodeEscapeError.new t.current len =
            .ok { first := u32 t.current, last := u32 t.current + u32 len } := if_pos fits
        exact ⟨_, by rw [recordEscape, range]; rfl⟩
      · right
        constructor
        · have range : UnicodeEscapeError.new t.current len = .error .badRange := if_neg fits
          rw [recordEscape, range]
          rfl
        · by_contra short
          have decoded := t.decoded_rest
          rw [rest] at decoded
          have within := decoded.1.fits len rfl
          have whole := t.current_add_rest
          rw [rest, spelled_cons] at whole
          rw [u32, u32, Nat.mod_eq_of_lt (by omega), Nat.mod_eq_of_lt (by omega)] at fits
          omega

/-- Consuming a character. -/
theorem take_cases {t : LogicalLexer} {lc : LogicalChar} {cs : List LogicalChar}
    (rest : t.rest = lc :: cs) :
    (∃ t', t.take = .ok t' ∧ t'.before = t.before ∧ t'.lexeme = t.lexeme ++ [lc] ∧ t'.rest = cs ∧
        t'.tokens = t.tokens ∧ t'.templates = t.templates) ∨
      t.take = .error .badRange ∧ 2 ^ 32 ≤ t.size := by
  rw [take_eq rest]
  rcases recordEscape_cases rest with ⟨escapeErrors, recorded⟩ | ⟨aborts, long⟩
  · left
    rw [recorded]
    exact ⟨_, rfl, rfl, by simp [move, rest], by simp [move, rest], rfl, rfl⟩
  · right
    rw [aborts]
    exact ⟨rfl, long⟩

theorem take_nil {t : LogicalLexer} (rest : t.rest = []) : t.take = .ok t := by
  unfold LogicalLexer.take
  split
  · rfl
  · rename_i some
    rw [rest] at some
    cases some

/-- An operation that consumes a character. -/
theorem wp_take {t : LogicalLexer} {o : LexOp β} {b : β} {k : β → Lex α}
    {ends : α → LogicalLexer → Prop} {lc : LogicalChar} {cs : List LogicalChar}
    (exec : logicalMachine.exec o t = t.take.map fun t' => (b, t')) (rest : t.rest = lc :: cs)
    (others : ∀ t', t'.before = t.before → t'.lexeme = t.lexeme ++ [lc] → t'.rest = cs →
      t'.tokens = t.tokens → t'.templates = t.templates →
      Wp logicalMachine (Wraps t'.size) (k b) ends t') :
    Wp logicalMachine (Wraps t.size) (.op o k) ends t := by
  rcases take_cases rest with ⟨t', taken, before, lexeme, rest', tokens, templates⟩ | ⟨aborts, long⟩
  · rw [taken] at exec
    apply (wp_op exec).mpr
    apply (others t' before lexeme rest' tokens templates).mono_bad
    intro e wraps
    have same : t'.size = t.size := by
      simp [LogicalLexer.size, before, lexeme, rest', rest]
    exact same ▸ wraps
  · rw [aborts] at exec
    exact (wp_op_error exec).mpr ⟨rfl, long⟩

theorem wp_advance {t : LogicalLexer} {k : Char → Lex α} {ends : α → LogicalLexer → Prop}
    {lc : LogicalChar} {cs : List LogicalChar} (rest : t.rest = lc :: cs)
    (others : ∀ t', t'.before = t.before → t'.lexeme = t.lexeme ++ [lc] → t'.rest = cs →
      t'.tokens = t.tokens → t'.templates = t.templates →
      Wp logicalMachine (Wraps t'.size) (k lc.char) ends t') :
    Wp logicalMachine (Wraps t.size) (advance >>= k) ends t := by
  apply wp_take _ rest others
  change Except.map _ _ = _
  rw [rest, look_cons_zero]

theorem walks_advance {k : Char → Lex α} (more : ∀ rest, pre rest → rest ≠ [])
    (walks : ∀ c, Walks (fun rest => ∃ lc : LogicalChar, lc.char = c ∧ pre (lc :: rest)) (k c) post) :
    Walks pre (advance >>= k) post := by
  intro t holds
  rcases List.exists_cons_of_ne_nil (more _ holds) with ⟨lc, cs, rest⟩
  have ahead : t.rest = lc :: cs := rest
  apply wp_advance ahead
  intro t' before lexeme rest' tokens _
  have holds' : pre (lc :: t'.rest) := by
    rw [rest', ← rest]
    exact holds
  apply (walks lc.char t' ⟨lc, rfl, holds'⟩).mono
  intro a t'' ⟨new, ⟨before', ⟨consumed, lexeme', rest''⟩, tokens'⟩, ends⟩
  refine ⟨new, ⟨before'.trans before, ⟨lc :: consumed, by simp [lexeme', lexeme], ?_⟩,
    by rw [tokens', tokens]⟩, ends⟩
  rw [ahead, ← rest', rest'', List.cons_append]

/-- An operation that may consume a character passes on. -/
theorem passes_take {o : LexOp β} (takes : ∀ t, ∃ b, logicalMachine.exec o t = .ok (b, t) ∨
    logicalMachine.exec o t = t.take.map fun t' => (b, t')) : Passes (.perform o) := by
  intro t _
  rcases takes t with ⟨b, stays | consumes⟩
  · exact (wp_op stays).mpr (wp_pure.mpr ⟨[], scanner.refl t, rfl, trivial⟩)
  cases rest : t.rest with
  | nil =>
      rw [take_nil rest] at consumes
      exact (wp_op consumes).mpr (wp_pure.mpr ⟨[], scanner.refl t, rfl, trivial⟩)
  | cons lc cs =>
      apply wp_take consumes rest
      intro t' before lexeme rest' tokens _
      exact wp_pure.mpr ⟨[], ⟨before, ⟨[lc], lexeme, by rw [rest, rest']; rfl⟩, by simp [tokens]⟩, rfl,
        trivial⟩

theorem passes_advance : Passes advance :=
  passes_take fun t => ⟨look t.rest 0, .inr rfl⟩

theorem passes_advanceIfMatches {expected : Char} : Passes (advanceIfMatches expected) := by
  apply passes_take
  intro t
  by_cases sees : look t.rest 0 = expected
  · exact ⟨true, .inr (if_pos sees)⟩
  · exact ⟨false, .inl (if_neg sees)⟩

theorem wp_advanceIfMatchesStr {bad : Panic → Prop} {expected : RawText} {k : Bool → Lex α}
    {t : LogicalLexer} {ends : α → LogicalLexer → Prop} :
    Wp logicalMachine bad (advanceIfMatchesStr expected >>= k) ends t ↔
      Wp logicalMachine bad (k (t.isAtRaw expected)) ends
        (if t.isAtRaw expected then t.move expected.text.length t.escapeErrors else t) := by
  apply wp_perform
  change (if t.isAtRaw expected then _ else _) = _
  cases t.isAtRaw expected <;> rfl

theorem move_reaches {t : LogicalLexer} {n : Nat} :
    t.Reaches [] (t.move n t.escapeErrors) :=
  ⟨rfl, ⟨t.rest.take n, rfl, (List.take_append_drop n t.rest).symm⟩, by simp [move]⟩

theorem passes_advanceIfMatchesStr {expected : RawText} : Passes (advanceIfMatchesStr expected) := by
  intro t _
  have silent : Wp logicalMachine (Wraps t.size) (advanceIfMatchesStr expected >>= .pure)
      (fun _ t' => ∃ new, t.Reaches new t' ∧ new = [] ∧ True) t := by
    apply wp_advanceIfMatchesStr.mpr
    apply wp_pure.mpr
    split
    · exact ⟨[], move_reaches, rfl, trivial⟩
    · exact ⟨[], scanner.refl t, rfl, trivial⟩
  exact silent

theorem idle_pure {a : α} : Idle (pure a : Lex α) :=
  fun _ => wp_pure.mpr ⟨rfl, rfl, rfl, rfl⟩

theorem idle_bind {x : Lex α} {g : α → Lex β} (first : Idle x) (others : ∀ a, Idle (g a)) :
    Idle (x >>= g) := by
  intro t
  apply wp_bind.mpr
  apply (first t).mono
  intro a t' same
  apply ((others a t').mono_bad ?_).mono
  · intro b t'' same'
    exact ⟨same'.1.trans same.1, same'.2.1.trans same.2.1, same'.2.2.1.trans same.2.2.1,
      same'.2.2.2.trans same.2.2.2⟩
  · intro e wraps
    exact same.reaches.size ▸ wraps

theorem idle_reportError {errorType : LexicalErrorKind} : Idle (reportError errorType) := by
  intro t
  by_cases ordered : u32 t.start ≤ u32 t.current
  · have exec : logicalMachine.exec (.reportError errorType) t = .ok ((), { t with errors := t.errors ++
        [{ kind := errorType, first := u32 t.start, last := u32 t.current }] }) := by
      change Except.map _ (t.reportError errorType) = _
      rw [LogicalLexer.reportError, if_pos ordered]
      rfl
    exact (wp_op exec).mpr (wp_pure.mpr ⟨rfl, rfl, rfl, rfl⟩)
  · have exec : logicalMachine.exec (.reportError errorType) t = .error .badRange := by
      change Except.map _ (t.reportError errorType) = _
      rw [LogicalLexer.reportError, if_neg ordered]
      rfl
    apply (wp_op_error exec).mpr
    refine ⟨rfl, ?_⟩
    by_contra short
    have whole := t.current_add_rest
    have le := t.start_le_current
    rw [u32, u32, Nat.mod_eq_of_lt (by omega), Nat.mod_eq_of_lt (by omega)] at ordered
    exact ordered le

theorem idle_reportIf {wrong : Bool} {errorType : LexicalErrorKind} :
    Idle (reportIf wrong errorType) := by
  rw [reportIf]
  split
  · exact idle_reportError
  · exact idle_pure

theorem idle_setTemplates {templates : Templates} : Idle (setTemplates templates) := by
  intro t
  have here : logicalMachine.exec (.setTemplates templates) t = .ok ((), { t with templates := templates }) :=
    rfl
  exact (wp_op here).mpr (wp_pure.mpr ⟨rfl, rfl, rfl, rfl⟩)

theorem idle_getTemplates : Idle getTemplates := by
  intro t
  have here : logicalMachine.exec .getTemplates t = .ok (t.templates, t) := rfl
  exact (wp_op here).mpr (wp_pure.mpr ⟨rfl, rfl, rfl, rfl⟩)

theorem idle_setMode {mode : LexerMode} : Idle (setMode mode) :=
  idle_bind idle_getTemplates fun _ => idle_setTemplates

theorem walks_token {tokenType : SyntaxKind} :
    Walks pre (completeToken tokenType) fun _ => Covered := by
  intro t _
  have here : logicalMachine.exec (.completeToken tokenType) t = .ok ((), t.completeToken tokenType) := rfl
  apply (wp_op here).mpr
  exact wp_pure.mpr ⟨_, ⟨rfl, ⟨[], by simp [LogicalLexer.completeToken]⟩, rfl⟩, tokenType, rfl⟩

theorem completes_token {tokenType : SyntaxKind} : Completes (completeToken tokenType) :=
  walks_token

theorem completes_bind {x : Lex α} {g : α → Lex Unit} (first : Passes x)
    (others : ∀ a, Completes (g a)) : Completes (x >>= g) :=
  walks_bind first others

theorem completes_ite {c : Prop} [Decidable c] {x y : Lex Unit} (yes : Completes x)
    (no : Completes y) : Completes (if c then x else y) :=
  walks_ite (fun _ => yes) fun _ => no

/-- An idle routine may follow a completed token. -/
theorem walks_then_idle {x : Lex α} {g : α → Lex Unit} {covered : LogicalLexer → List Token → Prop}
    (walks : Walks pre x fun _ => covered) (others : ∀ a, Idle (g a))
    (kept : ∀ t t' new, t.Same t' → covered t new → covered t' new) :
    Walks pre (x >>= g) fun _ => covered := by
  intro t holds
  apply wp_bind.mpr
  apply (walks t holds).mono
  intro a t' ⟨new, reaches, ends⟩
  apply ((others a t').mono_bad fun e => scanner.bad_of reaches).mono
  intro _ t'' same
  exact ⟨new, by simpa using scanner.trans reaches same.reaches, kept t' t'' new same ends⟩

theorem Covered.same {t t' : LogicalLexer} {new : List Token} (same : t.Same t')
    (covered : Covered t new) : Covered t' new := by
  rcases covered with ⟨tokenType, rfl⟩
  exact ⟨tokenType, by rw [same.2.1, start, start, same.1]⟩

end Operations

/-! ### Rounds of the loops -/

section Rounds

variable {α β γ : Type} {pre : List LogicalChar → Prop}

open LogicalLexer

theorem passes_ite {c : Prop} [Decidable c] {x y : Lex α} (yes : Passes x) (no : Passes y) :
    Passes (if c then x else y) :=
  walks_ite (fun _ => yes) fun _ => no

theorem ne_nil_of_look {rest : List LogicalChar} {n : Nat} {c : Char} (sees : look rest n = c)
    (real : c ≠ '\x00') : rest ≠ [] := by
  rintro rfl
  exact real (by simpa using sees.symm)

/-- A round that advances, whatever it does then. -/
theorem round_advance {ahead : List LogicalChar} {k : Char → Lex (γ ⊕ β)}
    (more : ∀ rest, pre rest → rest ≠ [] ∧ rest = ahead) (others : ∀ c, Passes (k c)) :
    Scans pre (advance >>= k) fun r rest => r.isLeft → rest.length < ahead.length := by
  apply walks_advance fun rest holds => (more rest holds).1
  intro c
  apply ((others c).shrinks ahead.length).mono
  · intro rest ⟨lc, _, holds⟩
    rw [← (more _ holds).2]
    exact ⟨trivial, by simp⟩
  · intro r t new ends
    exact ⟨ends.1.1, fun _ => ends.2⟩

theorem round_leave {b : β} {n : Nat} :
    Scans pre (pure (.inr b : γ ⊕ β)) fun r rest => r.isLeft → rest.length < n :=
  walks_pure fun _ _ => ⟨rfl, by simp⟩

/-- A round of a `while` that advances where its condition, which reads only, sees a
character. -/
theorem round_while {cond : Lex Bool}
    (reads : ∀ ahead, Scans (· = ahead) cond fun b rest => rest = ahead ∧ (b = true → rest ≠ [])) :
    scanner.Round (do
      if ← cond then
        let _ ← advance
        return (.inl () : Unit ⊕ Unit)
      else
        return .inr ()) := by
  intro ahead
  apply walks_bind (reads ahead)
  intro b
  apply walks_ite _ fun _ => round_leave
  intro goes
  exact round_advance (fun rest holds => ⟨holds.2 goes, holds.1⟩) fun _ => passes_pure

theorem passes_advanceWhile {p : Char → Bool} (real : p '\x00' = false) :
    Passes (advanceWhile p) := by
  apply passes_loop fun _ => round_while _
  intro _ ahead
  apply walks_peek
  intro c
  apply walks_pure
  intro t ⟨same, sees⟩
  refine ⟨rfl, same, fun goes => ne_nil_of_look sees ?_⟩
  rintro rfl
  rw [real] at goes
  cases goes

theorem round_digits {p : Char → Bool} (real : p '\x00' = false) (carried : Bool × Bool) :
    scanner.Round (digitRound p carried) := by
  intro ahead
  rcases carried with ⟨hasDigits, lastWasUnderscore⟩
  have consumes : ∀ {c : Char} {next : Bool × Bool}, c ≠ '\x00' →
      Scans (fun rest => rest = ahead ∧ look rest 0 = c)
        (advance >>= fun _ => pure (.inl next : (Bool × Bool) ⊕ (Bool × Bool)))
        fun r rest => r.isLeft → rest.length < ahead.length := fun {c next} nonzero =>
    round_advance (fun rest holds => ⟨ne_nil_of_look holds.2 nonzero, holds.1⟩) fun _ => passes_pure
  apply walks_peek
  intro c
  apply walks_ite
  · intro digit
    apply consumes
    rintro rfl
    rw [real] at digit
    cases digit
  · intro _
    apply walks_ite _ fun _ => round_leave
    intro underscore
    exact consumes (by rw [underscore]; decide)

theorem isNumeric_nul (U : UnicodeTables) : U.isNumeric '\x00' = false := by
  rw [U.isNumeric_ascii '\x00' (by decide)]
  decide

theorem isDigit_nul (base : Nat) : isDigit '\x00' base = false := by
  simp [isDigit, show isAsciiHexdigit '\x00' = false by decide]

/-- What an idle routine is placed before sees the same text. -/
theorem walks_idle {x : Lex α} {g : α → Lex β} {post : β → LogicalLexer → List Token → Prop}
    (idle : Idle x) (others : ∀ a, Walks pre (g a) post) : Walks pre (x >>= g) post := by
  have keeps : Scans pre x fun _ rest => pre rest := by
    intro t holds
    apply (idle t).mono
    intro a t' same
    refine ⟨[], same.reaches, rfl, ?_⟩
    rw [show scanner.rest t' = t.rest from same.2.2.1]
    exact holds
  exact walks_bind keeps others

/-- A round of the integer part consumes a character, or leaves at one that is not numeric. -/
theorem integerRound_scans (U : UnicodeTables) (numBase consumeBase : Nat) (carried : Bool × Bool)
    (ahead : List LogicalChar) :
    Scans (· = ahead) (integerRound U numBase consumeBase carried) fun r rest =>
      match r with
      | .inl _ => rest.length < ahead.length
      | .inr _ => rest = ahead ∧ U.isNumeric (look rest 0) = false := by
  rcases carried with ⟨hasInvalidOctalDigit, lastWasUnderscore⟩
  apply walks_peek
  intro c
  have consumes : ∀ next : Bool × Bool, c ≠ '\x00' →
      Scans (fun rest => rest = ahead ∧ look rest 0 = c)
        (advance >>= fun _ => pure (.inl next : (Bool × Bool) ⊕ (Bool × Bool))) fun r rest =>
          match r with
          | .inl _ => rest.length < ahead.length
          | .inr _ => rest = ahead ∧ U.isNumeric (look rest 0) = false := by
    intro next real
    apply walks_advance fun rest holds => ne_nil_of_look holds.2 real
    intro d
    apply walks_pure
    intro t ⟨lc, _, same, _⟩
    exact ⟨rfl, by rw [← same]; simp⟩
  apply walks_ite
  · intro digit
    have real : c ≠ '\x00' := by
      rintro rfl
      simp [isNumeric_nul, isDigit_nul] at digit
    apply walks_ite
    · intro _
      apply walks_ite
      · exact fun _ => consumes _ real
      · exact fun _ => walks_idle idle_reportError fun _ => consumes _ real
    · exact fun _ => consumes _ real
  · intro noDigit
    apply walks_ite
    · intro underscore
      exact consumes _ (by rw [underscore]; decide)
    · intro _
      apply walks_pure
      intro t ⟨same, sees⟩
      refine ⟨rfl, same, ?_⟩
      rw [show look (scanner.rest t) 0 = c from sees]
      simp only [Bool.or_eq_true, not_or] at noDigit
      simpa using noDigit.1

theorem round_comment : scanner.Round (commentRound ()) := by
  intro ahead
  apply walks_isAtEnd
  · exact round_leave
  · have stays : ∀ {b : Bool}, b = false →
        Scans (fun rest : List LogicalChar => rest = ahead ∧ rest ≠ []) (if b then
          return (.inr true : Unit ⊕ Bool)
        else do
          let _ ← advance
          return .inl ()) fun r rest => r.isLeft → rest.length < ahead.length := by
      intro b no
      subst no
      exact round_advance (fun rest holds => ⟨holds.2, holds.1⟩) fun _ => passes_pure
    intro t holds
    apply wp_advanceIfMatchesStr.mpr
    cases stands : t.isAtRaw .commentEnd with
    | true => exact wp_pure.mpr ⟨[], move_reaches, rfl, by simp⟩
    | false => exact stays rfl t holds

end Rounds

/-! ### Handlers that always complete their token -/

section Handlers

open LogicalLexer

variable (U : UnicodeTables)

theorem handleWhitespace_completes : Completes handleWhitespace :=
  completes_bind (passes_advanceWhile (by decide)) fun _ => completes_token

theorem exponentDigits_passes : Passes (do
    reportIf ((← peek) = '_') .invalidNumber
    let (hasExpDigits, lastWasUnderscore) ←
      Prog.loop (digitRound isAsciiDigit) (false, false) .pure
    reportIf (!hasExpDigits || lastWasUnderscore) .invalidNumber
    return true) := by
  apply passes_bind passes_peekN
  intro next
  apply passes_bind idle_reportIf.passes
  intro _
  apply passes_bind (passes_loop (round_digits (by decide)))
  rintro ⟨hasExpDigits, lastWasUnderscore⟩
  exact passes_bind idle_reportIf.passes fun _ => passes_pure

theorem handleExponent_passes (numBase : Nat) : Passes (handleExponent numBase) := by
  apply passes_bind passes_peekN
  intro c
  apply passes_ite _ passes_pure
  apply passes_bind passes_advance
  intro _
  apply passes_bind passes_peekN
  intro sign
  apply passes_ite
  · exact passes_bind passes_advance fun _ => exponentDigits_passes
  · exact exponentDigits_passes

theorem handleSuffix_passes : Passes handleSuffix := by
  apply passes_bind passes_peekN
  intro c
  apply passes_ite _ passes_pure
  exact passes_bind passes_advance fun _ => passes_pure

/-- Advancing at a character shortens what is ahead. -/
theorem advance_shrinks {α : Type} {pre : List LogicalChar → Prop} {k : Char → Lex α} {n : Nat}
    (more : ∀ rest, pre rest → rest ≠ [] ∧ rest.length ≤ n) (others : ∀ c, Passes (k c)) :
    Scans pre (advance >>= k) fun _ rest => rest.length < n := by
  apply walks_advance fun rest holds => (more rest holds).1
  intro c
  apply ((others c).shrinks n).mono
  · intro rest ⟨lc, _, holds⟩
    have length := (more _ holds).2
    simp only [List.length_cons] at length
    exact ⟨trivial, by omega⟩
  · intro a t new ends
    exact ⟨ends.1.1, ends.2⟩

/-- Something of a text of length `n` is consumed, or its first character satisfies `p`. -/
def Near (n : Nat) (p : Char → Prop) (rest : List LogicalChar) : Prop :=
  rest.length < n ∨ rest.length = n ∧ p (look rest 0)

theorem Near.length_le {n : Nat} {p : Char → Prop} {rest : List LogicalChar} (near : Near n p rest) :
    rest.length ≤ n := by
  rcases near with shorter | ⟨same, -⟩ <;> omega

theorem numberBase_near (n : Nat) (p : Char → Prop) :
    Scans (Near n p) numberBase fun _ => Near n p := by
  have shorter : ∀ {pre : List LogicalChar → Prop} {x : Lex Nat},
      Scans pre x (fun _ rest => rest.length < n) → Scans pre x fun _ => Near n p :=
    fun scans => scans.weaken fun _ _ => .inl
  have stays : ∀ {pre : List LogicalChar → Prop} {base : Nat}, (∀ rest, pre rest → Near n p rest) →
      Scans pre (pure base) fun _ => Near n p :=
    fun near => walks_pure fun _ holds => ⟨rfl, near _ holds⟩
  apply walks_peek
  intro c
  apply walks_ite _ fun _ => stays fun _ holds => holds.1
  intro zero
  apply walks_peekN
  intro next
  have more : ∀ rest : List LogicalChar, ((Near n p rest ∧ look rest 0 = c) ∧ look rest 1 = next) →
      rest ≠ [] ∧ rest.length ≤ n :=
    fun rest holds => ⟨ne_nil_of_look holds.1.2 (by rw [zero]; decide), holds.1.1.length_le⟩
  have skip : ∀ base : Nat, Scans
      (fun rest => (Near n p rest ∧ look rest 0 = c) ∧ look rest 1 = next)
      (advance >>= fun _ => advance >>= fun _ => pure base) fun _ => Near n p :=
    fun base => shorter (advance_shrinks more fun _ => passes_bind passes_advance fun _ => passes_pure)
  apply walks_ite fun _ => skip 16
  intro _
  apply walks_ite fun _ => skip 2
  intro _
  apply walks_ite
  · exact fun _ => shorter (advance_shrinks more fun _ => passes_pure)
  · exact fun _ => stays fun _ holds => holds.1.1

theorem handleFraction_near (n consumeBase : Nat) :
    Scans (Near n (· = '.')) (handleFraction consumeBase) fun _ rest => rest.length < n := by
  apply walks_peek
  intro c
  apply walks_ite
  · intro dot
    apply advance_shrinks
    · intro rest ⟨near, sees⟩
      exact ⟨ne_nil_of_look sees (by rw [dot]; decide), near.length_le⟩
    · intro _
      apply passes_bind passes_peekN
      intro next
      apply passes_bind idle_reportIf.passes
      intro _
      apply passes_bind (passes_loop (round_digits (isDigit_nul consumeBase)))
      intro (_, lastWasUnderscore)
      exact passes_bind idle_reportIf.passes fun _ => passes_pure
  · intro noDot
    apply walks_pure
    intro t ⟨near, sees⟩
    rcases near with shorter | ⟨-, dot⟩
    · exact ⟨rfl, shorter⟩
    · exact absurd (sees.symm.trans dot) noDot

/-- A number covers what it consumed, and something when it starts with a numeric character or
a dot. -/
theorem handleNumber_consumes (n : Nat) :
    Walks (Near n fun c => U.isNumeric c = true ∨ c = '.') (handleNumber U) fun _ t new =>
      Covered t new ∧ t.rest.length < n := by
  apply walks_bind (numberBase_near n _)
  intro numBase
  have integer : Scans (Near n fun c => U.isNumeric c = true ∨ c = '.')
      (.loop (integerRound U numBase (if numBase = 8 then 10 else numBase)) (false, false) .pure)
      fun _ => Near n (· = '.') := by
    apply walks_loop (fun _ => Near n fun c => U.isNumeric c = true ∨ c = '.') _ fun _ near => near
    intro carried rest near
    apply (integerRound_scans U _ _ carried rest).mono fun _ same => same
    intro r t new ⟨nothing, ends⟩
    cases r with
    | inl carried' => exact ⟨nothing, .inl (Nat.lt_of_lt_of_le ends near.length_le), ends⟩
    | inr carried' =>
        refine ⟨nothing, ?_⟩
        rcases ends with ⟨same, noDigit⟩
        rcases near with shorter | ⟨length, digit | dot⟩
        · exact .inl (same ▸ shorter)
        · rw [same, digit] at noDigit
          cases noDigit
        · exact .inr (same ▸ ⟨length, dot⟩)
  apply walks_bind integer
  intro (hasInvalidOctalDigit, lastWasUnderscore)
  apply walks_idle idle_reportIf
  intro _
  apply walks_bind (handleFraction_near n _)
  intro isFraction
  have others : Completes (do
      let isExponent ← handleExponent numBase
      let isFloatSuffix ← handleSuffix
      let isFloat := isFraction || isExponent || isFloatSuffix
      reportIf (numBase = 8 && hasInvalidOctalDigit && !isFloat) .invalidNumber
      completeToken (if isFloat then .floatLiteral else .integerLiteral)) := by
    apply completes_bind (handleExponent_passes numBase)
    intro isExponent
    apply completes_bind handleSuffix_passes
    intro isFloatSuffix
    exact completes_bind idle_reportIf.passes fun _ => completes_token
  exact (others.shrinks n).mono (fun _ shorter => ⟨trivial, shorter⟩) fun _ _ _ ends => ends

theorem handleOperator_completes (continuations : List (Char × SyntaxKind)) (alone : SyntaxKind) :
    Completes (handleOperator continuations alone) := by
  induction continuations with
  | nil => exact completes_token
  | cons head others ih =>
      apply completes_bind passes_advanceIfMatches
      intro matched
      exact completes_ite completes_token ih

theorem handleLess_completes : Completes handleLess := by
  apply completes_bind passes_advanceIfMatches
  intro equal
  apply completes_ite completes_token
  apply completes_bind passes_advanceIfMatches
  intro less
  exact completes_ite (handleOperator_completes _ _) completes_token

theorem handleGreater_completes : Completes handleGreater := by
  apply completes_bind passes_advanceIfMatches
  intro equal
  apply completes_ite completes_token
  apply completes_bind passes_advanceIfMatches
  intro greater
  apply completes_ite _ completes_token
  apply completes_bind passes_advanceIfMatches
  intro greater'
  exact completes_ite (handleOperator_completes _ _) (handleOperator_completes _ _)

theorem handleEq_completes : Completes handleEq := by
  apply completes_bind passes_advanceIfMatchesStr
  intro equal
  exact completes_ite completes_token completes_token

theorem handleSlash_completes : Completes handleSlash := by
  apply completes_bind passes_advanceIfMatches
  intro slash
  apply completes_ite
  · apply completes_bind passes_advanceIfMatches
    intro javadoc
    have line : Passes (Prog.whileDo
        (do
          let c ← peek
          if c ≠ '\n' && c ≠ '\r' then
            return !(← isAtEnd)
          else
            return false)
        (do
          let _ ← advance)) := by
      apply passes_loop fun _ => round_while _
      intro _ ahead
      apply walks_peek
      intro c
      apply walks_ite
      · intro _
        apply walks_isAtEnd
        · exact walks_pure fun t holds => ⟨rfl, holds.1.1, by simp⟩
        · exact walks_pure fun t holds => ⟨rfl, holds.1.1, fun _ => holds.2⟩
      · intro _
        exact walks_pure fun t holds => ⟨rfl, holds.1, by simp⟩
    exact completes_bind line fun _ => completes_token
  · apply completes_bind passes_advanceIfMatches
    intro star
    apply completes_ite _ (handleOperator_completes _ _)
    have comment : ∀ isJavadoc : Bool, Completes (do
        let hasTerminated ← Prog.loop commentRound () .pure
        reportIf (!hasTerminated) .unterminatedComment
        completeToken (if isJavadoc then .javadoc else .blockComment)) := by
      intro isJavadoc
      apply completes_bind (passes_loop fun _ => round_comment)
      intro hasTerminated
      exact completes_bind idle_reportIf.passes fun _ => completes_token
    apply completes_bind passes_peekN
    intro c
    apply completes_ite _ (comment false)
    apply completes_bind passes_peekN
    intro next
    exact comment _

/-- The lexeme of an identifier has no backslash. -/
theorem identifier_lexeme (t : LogicalLexer) (start : ∀ lc ∈ t.lexeme, lc.char ≠ '\\') :
    Wp logicalMachine (Wraps t.size) (advanceWhileMore (isJavaIdentifierPart U))
      (fun _ t' => t.Reaches [] t' ∧ ∀ lc ∈ t'.lexeme, lc.char ≠ '\\') t := by
  have part : isJavaIdentifierPart U '\\' = false := by
    have category := U.generalCategory_ascii '\\' (by decide)
    rw [show asciiCategory '\\' = .otherPunctuation by decide] at category
    simp [isJavaIdentifierPart, isJavaIdentifierStart, isJavaIdentifierIgnorable, category]
  apply Wp.whileDo (fun t' => t.Reaches [] t' ∧ ∀ lc ∈ t'.lexeme, lc.char ≠ '\\')
    (fun t' => t'.rest.length) _ ⟨scanner.refl t, start⟩
  intro t' ⟨reaches, others⟩
  apply wp_isAtEnd.mpr
  cases rest : t'.rest with
  | nil => exact wp_pure.mpr (by simpa using ⟨reaches, others⟩)
  | cons lc cs =>
      apply wp_peekN.mpr
      apply wp_pure.mpr
      rw [rest, look_cons_zero]
      split
      · rename_i isPart
        apply Wp.mono_bad _ fun e => scanner.bad_of reaches
        apply wp_advance (k := fun _ => .pure ()) rest
        intro t'' before lexeme rest' tokens _
        have consumed : t'.Reaches [] t'' :=
          ⟨before, ⟨[lc], lexeme, by rw [rest, rest']; rfl⟩, by simp [tokens]⟩
        refine wp_pure.mpr ⟨⟨scanner.trans reaches consumed, ?_⟩, by simp [rest']⟩
        intro lc' inside
        rw [lexeme, List.mem_append, List.mem_singleton] at inside
        rcases inside with earlier | rfl
        · exact others lc' earlier
        · intro backslash
          rw [backslash, part] at isPart
          cases isPart
      · exact ⟨reaches, others⟩

/-- A lexeme without a backslash is read as its characters. -/
theorem exec_currentTokenLexeme {t : LogicalLexer} (others : ∀ lc ∈ t.lexeme, lc.char ≠ '\\') :
    logicalMachine.exec .currentTokenLexeme t = .ok (t.lexeme.map LogicalChar.char, t) := by
  change Except.map _ _ = _
  rw [translate_lexeme t.decoded others]
  rfl

theorem handleIdentifier_completes (t : LogicalLexer) (start : ∀ lc ∈ t.lexeme, lc.char ≠ '\\') :
    Wp logicalMachine (Wraps t.size) (handleIdentifier U)
      (fun _ t' => ∃ new, t.Reaches new t' ∧ Covered t' new) t := by
  apply wp_bind.mpr
  apply (identifier_lexeme U t start).mono
  intro _ t' ⟨reaches, others⟩
  apply (wp_perform (exec_currentTokenLexeme others)).mpr
  apply (completes_token t' trivial).mono_bad (fun e => scanner.bad_of reaches) |>.mono
  intro _ t'' ⟨new, reaches', covered⟩
  exact ⟨new, scanner.trans reaches reaches', covered⟩

end Handlers

end CaffeineLs.JavaSyntax
