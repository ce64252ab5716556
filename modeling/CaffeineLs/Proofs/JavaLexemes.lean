/-
Module: CaffeineLs.Proofs.JavaLexemes
Purpose: Where the Java lexer reads the text of its current token: only in identifiers, whose
  lexemes have no backslash.
Trusted boundary: none
Main exports: Blind, NoBackslash, scanTokens_meets
-/
import CaffeineLs.Proofs.JavaTiling

namespace CaffeineLs.JavaSyntax

open Imperative

/-! ### Only identifiers read their lexeme -/

def LexOp.readsLexeme : {β : Type} → LexOp β → Prop
  | _, .currentTokenLexeme => True
  | _, _ => False

/-- A routine that does not read the current lexeme. -/
abbrev Blind {α : Type} (x : Lex α) : Prop := x.Avoids LexOp.readsLexeme

section Blind

variable {α β γ : Type}

theorem blind_ite {c : Prop} [Decidable c] {x y : Lex α} (yes : Blind x) (no : Blind y) :
    Blind (if c then x else y) := by
  split
  · exact yes
  · exact no

theorem blind_advance {k : Char → Lex α} (others : ∀ c, Blind (k c)) : Blind (advance >>= k) :=
  avoids_bind (avoids_perform id) others

theorem blind_peekN {n : Nat} {k : Char → Lex α} (others : ∀ c, Blind (k c)) :
    Blind (peekN n >>= k) :=
  avoids_bind (avoids_perform id) others

theorem blind_isAtEnd {k : Bool → Lex α} (others : ∀ b, Blind (k b)) : Blind (isAtEnd >>= k) :=
  avoids_bind (avoids_perform id) others

theorem blind_matches {expected : Char} {k : Bool → Lex α} (others : ∀ b, Blind (k b)) :
    Blind (advanceIfMatches expected >>= k) :=
  avoids_bind (avoids_perform id) others

theorem blind_matchesStr {expected : RawText} {k : Bool → Lex α} (others : ∀ b, Blind (k b)) :
    Blind (advanceIfMatchesStr expected >>= k) :=
  avoids_bind (avoids_perform id) others

theorem blind_getTemplates {k : Templates → Lex α} (others : ∀ b, Blind (k b)) :
    Blind (getTemplates >>= k) :=
  avoids_bind (avoids_perform id) others

theorem blind_completeToken {tokenType : SyntaxKind} : Blind (completeToken tokenType) :=
  avoids_perform id

theorem blind_reportError {errorType : LexicalErrorKind} : Blind (reportError errorType) :=
  avoids_perform id

theorem blind_reportIf {wrong : Bool} {errorType : LexicalErrorKind} :
    Blind (reportIf wrong errorType) :=
  blind_ite blind_reportError avoids_pure

theorem blind_setTemplates {templates : Templates} : Blind (setTemplates templates) :=
  avoids_perform id

theorem blind_setMode {mode : LexerMode} : Blind (setMode mode) :=
  blind_getTemplates fun _ => blind_setTemplates

theorem blind_skip : Blind (do let _ ← advance : Lex Unit) :=
  blind_advance fun _ => avoids_pure

theorem blind_advanceWhile {p : Char → Bool} : Blind (advanceWhile p) :=
  avoids_whileDo (blind_peekN fun _ => avoids_pure) blind_skip

theorem blind_advanceWhileMore {p : Char → Bool} : Blind (advanceWhileMore p) := by
  apply avoids_whileDo
  · apply blind_isAtEnd
    intro b
    apply blind_ite avoids_pure
    exact blind_peekN fun _ => avoids_pure
  · exact blind_skip

theorem blind_digitRound {p : Char → Bool} (carried : Bool × Bool) : Blind (digitRound p carried) := by
  apply blind_peekN
  intro c
  apply blind_ite (blind_advance fun _ => avoids_pure)
  exact blind_ite (blind_advance fun _ => avoids_pure) avoids_pure

theorem blind_digits {p : Char → Bool} {k : Bool × Bool → Lex α} (others : ∀ b, Blind (k b)) :
    Blind (.loop (digitRound p) (false, false) .pure >>= k) :=
  avoids_bind (avoids_loop blind_digitRound) others

variable (U : UnicodeTables)

theorem blind_integerRound (numBase consumeBase : Nat) (carried : Bool × Bool) :
    Blind (integerRound U numBase consumeBase carried) := by
  apply blind_peekN
  intro c
  apply blind_ite
  · have turn : ∀ b : Bool, Blind (advance >>= fun _ =>
        (pure (.inl (b, false)) : Lex ((Bool × Bool) ⊕ (Bool × Bool)))) :=
      fun _ => blind_advance fun _ => avoids_pure
    apply blind_ite _ (turn _)
    exact blind_ite (turn _) (avoids_bind blind_reportError fun _ => turn _)
  · exact blind_ite (blind_advance fun _ => avoids_pure) avoids_pure

theorem blind_exponentDigits : Blind (do
    reportIf ((← peek) = '_') .invalidNumber
    let (hasExpDigits, lastWasUnderscore) ← .loop (digitRound isAsciiDigit) (false, false) .pure
    reportIf (!hasExpDigits || lastWasUnderscore) .invalidNumber
    return true : Lex Bool) := by
  apply blind_peekN
  intro _
  apply avoids_bind blind_reportIf
  intro _
  apply blind_digits
  intro _
  exact avoids_bind blind_reportIf fun _ => avoids_pure

theorem blind_handleNumber : Blind (handleNumber U) := by
  have base : Blind numberBase := by
    have two : ∀ b : Nat, Blind (advance >>= fun _ => advance >>= fun _ => pure b) :=
      fun _ => blind_advance fun _ => blind_advance fun _ => avoids_pure
    apply blind_peekN
    intro c
    apply blind_ite _ avoids_pure
    apply blind_peekN
    intro next
    apply blind_ite (two _)
    apply blind_ite (two _)
    exact blind_ite (blind_advance fun _ => avoids_pure) avoids_pure
  have fraction : ∀ b, Blind (handleFraction b) := by
    intro b
    apply blind_peekN
    intro c
    apply blind_ite _ avoids_pure
    apply blind_advance
    intro _
    apply blind_peekN
    intro _
    apply avoids_bind blind_reportIf
    intro _
    apply blind_digits
    intro _
    exact avoids_bind blind_reportIf fun _ => avoids_pure
  have exponent : ∀ b, Blind (handleExponent b) := by
    intro b
    apply blind_peekN
    intro c
    apply blind_ite _ avoids_pure
    apply blind_advance
    intro _
    apply blind_peekN
    intro sign
    exact blind_ite (blind_advance fun _ => blind_exponentDigits) blind_exponentDigits
  have suffix : Blind handleSuffix := by
    apply blind_peekN
    intro c
    exact blind_ite (blind_advance fun _ => avoids_pure) avoids_pure
  apply avoids_bind base
  intro numBase
  apply avoids_bind (avoids_loop (blind_integerRound U numBase _))
  intro _
  apply avoids_bind blind_reportIf
  intro _
  apply avoids_bind (fraction _)
  intro _
  apply avoids_bind (exponent _)
  intro _
  apply avoids_bind suffix
  intro _
  exact avoids_bind blind_reportIf fun _ => blind_completeToken

theorem blind_handleDot : Blind (handleDot U) := by
  apply blind_peekN
  intro c
  apply blind_ite (blind_handleNumber U)
  apply blind_matchesStr
  intro matched
  apply blind_ite blind_completeToken
  exact blind_advance fun _ => blind_completeToken

theorem blind_handleOperator (continuations : List (Char × SyntaxKind)) (alone : SyntaxKind) :
    Blind (handleOperator continuations alone) := by
  induction continuations with
  | nil => exact blind_completeToken
  | cons first others ih => exact blind_matches fun _ => blind_ite blind_completeToken ih

theorem blind_handleLess : Blind handleLess := by
  apply blind_matches
  intro _
  apply blind_ite blind_completeToken
  apply blind_matches
  intro _
  exact blind_ite (blind_handleOperator _ _) blind_completeToken

theorem blind_handleGreater : Blind handleGreater := by
  apply blind_matches
  intro _
  apply blind_ite blind_completeToken
  apply blind_matches
  intro _
  apply blind_ite _ blind_completeToken
  apply blind_matches
  intro _
  exact blind_ite (blind_handleOperator _ _) (blind_handleOperator _ _)

theorem blind_handleEq : Blind handleEq :=
  blind_matchesStr fun _ => blind_ite blind_completeToken blind_completeToken

theorem blind_handleSlash : Blind handleSlash := by
  apply blind_matches
  intro _
  apply blind_ite
  · apply blind_matches
    intro _
    apply avoids_bind (avoids_whileDo _ blind_skip) fun _ => blind_completeToken
    apply blind_peekN
    intro _
    exact blind_ite (blind_isAtEnd fun _ => avoids_pure) avoids_pure
  · apply blind_matches
    intro _
    apply blind_ite _ (blind_handleOperator _ _)
    have comment : ∀ isJavadoc : Bool, Blind (do
        let hasTerminated ← .loop commentRound () .pure
        reportIf (!hasTerminated) .unterminatedComment
        completeToken (if isJavadoc then .javadoc else .blockComment) : Lex Unit) := by
      intro isJavadoc
      apply avoids_bind
      · apply avoids_loop
        intro _
        apply blind_isAtEnd
        intro _
        apply blind_ite avoids_pure
        apply blind_matchesStr
        intro _
        exact blind_ite avoids_pure (blind_advance fun _ => avoids_pure)
      · intro _
        exact avoids_bind blind_reportIf fun _ => blind_completeToken
    apply blind_peekN
    intro _
    exact blind_ite (blind_peekN fun _ => comment _) (comment _)

theorem blind_consumeEscapeSequence (isTextBlock : Bool) :
    Blind (consumeEscapeSequence isTextBlock) := by
  have leave : ∀ b : Bool, Blind (advance >>= fun _ => (pure b : Lex Bool)) :=
    fun _ => blind_advance fun _ => avoids_pure
  apply blind_advance
  intro _
  apply blind_isAtEnd
  intro _
  apply blind_ite avoids_pure
  apply blind_peekN
  intro _
  apply blind_ite (leave _)
  apply blind_ite (leave _)
  apply blind_ite _ (leave _)
  apply blind_advance
  intro _
  apply blind_peekN
  intro _
  apply blind_ite _ avoids_pure
  apply blind_advance
  intro _
  apply blind_ite _ avoids_pure
  apply blind_peekN
  intro _
  exact blind_ite (leave _) avoids_pure

theorem blind_handleCharLiteral : Blind handleCharLiteral := by
  apply avoids_bind
  · apply avoids_loop
    intro (count, hasError)
    apply blind_isAtEnd
    intro _
    apply blind_ite avoids_pure
    apply blind_peekN
    intro _
    apply blind_ite avoids_pure
    apply blind_ite (avoids_bind blind_reportError fun _ => avoids_pure)
    apply blind_ite
    · apply avoids_bind (blind_consumeEscapeSequence _)
      intro _
      exact blind_ite avoids_pure (avoids_bind blind_reportError fun _ => avoids_pure)
    · exact blind_advance fun _ => avoids_pure
  · intro left
    cases left with
    | none => exact avoids_pure
    | some counted =>
        apply blind_isAtEnd
        intro _
        apply blind_ite blind_reportError
        apply blind_advance
        intro _
        exact avoids_bind blind_reportIf fun _ => blind_completeToken

theorem blind_isTemplateClose (kind : TemplateKind) : Blind (isTemplateClose kind) := by
  cases kind with
  | string => exact blind_peekN fun _ => avoids_pure
  | textBlock =>
      apply blind_peekN
      intro _
      apply blind_ite _ avoids_pure
      apply blind_peekN
      intro _
      exact blind_ite (blind_peekN fun _ => avoids_pure) avoids_pure

theorem blind_consumeTemplateClose (kind : TemplateKind) : Blind (consumeTemplateClose kind) := by
  cases kind with
  | string => exact blind_skip
  | textBlock => exact blind_advance fun _ => blind_advance fun _ => blind_skip

theorem blind_emitQuotedTerminalToken (kind : TemplateKind) (role : TemplateChunkRole) :
    Blind (emitQuotedTerminalToken kind role) := by
  cases role with
  | fullLiteral => exact blind_completeToken
  | continuation =>
      apply blind_getTemplates
      intro _
      apply blind_ite
      · exact avoids_bind blind_setMode fun _ => blind_completeToken
      · exact blind_completeToken

theorem blind_openTemplate (kind : TemplateKind) (role : TemplateChunkRole) :
    Blind (openTemplate kind role) := by
  have token : Blind (emitTemplateOpenToken kind role) := by
    cases role <;> exact blind_completeToken
  apply blind_advance
  intro _
  apply blind_advance
  intro _
  apply avoids_bind token
  intro _
  exact blind_getTemplates fun _ => blind_setTemplates

theorem blind_reportLineEnd (role : TemplateChunkRole) : Blind (reportLineEnd role) := by
  cases role with
  | fullLiteral => exact blind_reportError
  | continuation => exact avoids_bind blind_reportError fun _ => blind_setMode

theorem blind_reportUnterminated (kind : TemplateKind) (role : TemplateChunkRole) :
    Blind (reportUnterminated kind role) := by
  cases role with
  | fullLiteral => cases kind <;> exact blind_reportError
  | continuation => cases kind <;> exact avoids_bind blind_reportError fun _ => blind_setMode

theorem blind_quotedRound (kind : TemplateKind) (role : TemplateChunkRole) (u : Unit) :
    Blind (quotedRound kind role u) := by
  apply blind_isAtEnd
  intro _
  apply blind_ite avoids_pure
  apply avoids_bind (blind_isTemplateClose kind)
  intro _
  apply blind_ite
  · apply avoids_bind (blind_consumeTemplateClose kind)
    intro _
    exact avoids_bind (blind_emitQuotedTerminalToken kind role) fun _ => avoids_pure
  · apply blind_peekN
    intro _
    apply blind_ite (avoids_bind (blind_reportLineEnd role) fun _ => avoids_pure)
    apply blind_ite
    · apply blind_peekN
      intro _
      apply blind_ite (avoids_bind (blind_openTemplate kind role) fun _ => avoids_pure)
      apply avoids_bind (blind_consumeEscapeSequence _)
      intro _
      exact avoids_bind blind_reportIf fun _ => avoids_pure
    · exact blind_advance fun _ => avoids_pure

theorem blind_scanQuotedContent (kind : TemplateKind) (role : TemplateChunkRole) :
    Blind (scanQuotedContent kind role) := by
  have content : Blind (do
      if ← .loop (quotedRound kind role) () .pure then
        reportUnterminated kind role : Lex Unit) := by
    apply avoids_bind (avoids_loop (blind_quotedRound kind role))
    exact fun _ => blind_ite (blind_reportUnterminated kind role) avoids_pure
  have opening : Blind scanTextBlockOpen := by
    apply avoids_bind blind_advanceWhile
    intro _
    exact blind_peekN fun _ => blind_reportIf
  exact blind_ite (avoids_bind opening fun _ => content) content

theorem blind_handleQuote : Blind handleQuote := by
  apply blind_matchesStr
  intro _
  exact blind_ite (blind_scanQuotedContent _ _) (blind_scanQuotedContent _ _)

theorem blind_brace {tokenType : SyntaxKind} : Blind (advance >>= fun _ => completeToken tokenType) :=
  blind_advance fun _ => blind_completeToken

theorem blind_handleLeftBrace : Blind handleLeftBrace := by
  apply blind_getTemplates
  intro templates
  split
  · exact avoids_bind blind_setTemplates fun _ => blind_brace
  · exact blind_brace

theorem blind_handleRightBrace : Blind handleRightBrace := by
  apply blind_getTemplates
  intro templates
  split
  · exact blind_brace
  · exact avoids_bind blind_setMode fun _ => blind_brace
  · apply blind_ite
    · exact avoids_bind blind_setTemplates fun _ => blind_brace
    · apply blind_advance
      intro _
      apply avoids_bind blind_setTemplates
      exact fun _ => blind_scanQuotedContent _ _

theorem blind_handleSub : Blind handleSub := by
  apply blind_isAtEnd
  intro _
  exact blind_ite blind_reportError avoids_pure

theorem blind_scanPrologue : Blind scanPrologue := by
  apply blind_peekN
  intro _
  exact blind_ite blind_skip avoids_pure

theorem blind_scanEpilogue : Blind scanEpilogue := by
  apply blind_getTemplates
  intro _
  apply avoids_bind blind_reportIf
  intro _
  apply avoids_bind (avoids_perform id)
  exact fun _ => avoids_perform id

end Blind

section Lexemes

variable {U : UnicodeTables} {t t' : LogicalLexer}

theorem Blind.not_meets {α : Type} {x : Lex α} (blind : Blind x) :
    ¬ Meets logicalMachine .currentTokenLexeme t' x t :=
  Prog.Avoids.not_meets (fun p => nomatch p) (by trivial) blind

/-- After a blind routine, the lexeme is read by what follows. -/
theorem Blind.meets_bind {α β : Type} {x : Lex α} {g : α → Lex β} (blind : Blind x)
    (meets : Meets logicalMachine .currentTokenLexeme t' (x >>= g) t) :
    ∃ a t₁, Returns logicalMachine x t a t₁ ∧ Meets logicalMachine .currentTokenLexeme t' (g a) t₁ := by
  rcases meets.of_bind with first | later
  · exact absurd first blind.not_meets
  · exact later

/-- No backslash, however it is spelled. -/
def NoBackslash (chars : List LogicalChar) : Prop := ∀ lc ∈ chars, lc.char ≠ '\\'

theorem identifierStart_ne_backslash {c : Char} (starts : isJavaIdentifierStart U c = true) :
    c ≠ '\\' := by
  rintro rfl
  have category := U.generalCategory_ascii '\\' (by decide)
  rw [show asciiCategory '\\' = .otherPunctuation by decide] at category
  rw [isJavaIdentifierStart, category] at starts
  cases starts

theorem handleIdentifier_meets (start : NoBackslash t.lexeme)
    (meets : Meets logicalMachine .currentTokenLexeme t' (handleIdentifier U) t) :
    NoBackslash t'.lexeme := by
  obtain ⟨_, t₁, scanned, later⟩ := Blind.meets_bind blind_advanceWhileMore meets
  have others := ((identifier_lexeme U t start).of_returns scanned).2
  rcases Meets.of_bind later with here | ⟨_, _, -, after⟩
  · cases here with
    | here => exact others
    | op _ after => exact absurd after meets_pure
  · exact absurd after blind_completeToken.not_meets

/-- What is met in a branch is not met in a blind one. -/
theorem Blind.meets_else {α : Type} {c : Prop} [Decidable c] {x y : Lex α} (blind : Blind x)
    (meets : Meets logicalMachine .currentTokenLexeme t' (if c then x else y) t) :
    Meets logicalMachine .currentTokenLexeme t' y t := by
  by_cases holds : c
  · rw [if_pos holds] at meets
    exact absurd meets blind.not_meets
  · rw [if_neg holds] at meets
    exact meets

theorem dispatchConsumed_meets {c : Char}
    (start : isJavaIdentifierStart U c = true → NoBackslash t.lexeme)
    (meets : Meets logicalMachine .currentTokenLexeme t' (dispatchConsumed U c) t) :
    NoBackslash t'.lexeme := by
  have token : ∀ {tokenType : SyntaxKind}, Blind (completeToken tokenType) := blind_completeToken
  have operator := blind_handleOperator
  have others := token.meets_else (token.meets_else (token.meets_else meets))
  have others := token.meets_else (token.meets_else (token.meets_else others))
  have others := token.meets_else (token.meets_else ((operator _ _).meets_else others))
  have others := (operator _ _).meets_else ((operator _ _).meets_else others)
  have others := (operator _ _).meets_else ((operator _ _).meets_else others)
  have others := blind_handleGreater.meets_else (blind_handleLess.meets_else others)
  have others := blind_handleCharLiteral.meets_else (blind_handleEq.meets_else others)
  have others := blind_handleQuote.meets_else (blind_handleSlash.meets_else others)
  have others := (operator _ _).meets_else ((operator _ _).meets_else others)
  have others := (operator _ _).meets_else ((operator _ _).meets_else others)
  have others := blind_handleSub.meets_else (token.meets_else others)
  have whitespace : Blind handleWhitespace :=
    avoids_bind blind_advanceWhile fun _ => blind_completeToken
  have others := whitespace.meets_else others
  by_cases starts : isJavaIdentifierStart U c = true
  · rw [if_pos starts] at others
    exact handleIdentifier_meets (start starts) others
  · rw [if_neg starts] at others
    have unknown : Blind (completeToken .unknown >>= fun _ => reportError (.unexpectedChar c)) :=
      avoids_bind blind_completeToken fun _ => blind_reportError
    exact absurd others unknown.not_meets

/-- Wherever the lexer reads the current lexeme, it has no backslash. -/
theorem scanNextToken_meets
    (meets : Meets logicalMachine .currentTokenLexeme t' (scanNextToken U) t) :
    NoBackslash t'.lexeme := by
  obtain ⟨_, t₁, fresh, later⟩ := Blind.meets_bind (avoids_perform id) meets
  obtain ⟨_, _, same, last⟩ := returns_op.mp fresh
  cases same
  rcases returns_pure.mp last with ⟨-, rfl⟩
  obtain ⟨c, t₂, peeked, later⟩ := Blind.meets_bind (avoids_perform id) later
  obtain ⟨_, _, same, last⟩ := returns_op.mp peeked
  cases same
  rcases returns_pure.mp last with ⟨rfl, rfl⟩
  split at later
  · exact absurd later (blind_handleDot U).not_meets
  split at later
  · exact absurd later blind_handleLeftBrace.not_meets
  split at later
  · exact absurd later blind_handleRightBrace.not_meets
  split at later
  · exact absurd later (blind_handleNumber U).not_meets
  obtain ⟨c, t₂, advanced, later⟩ := Blind.meets_bind (avoids_perform id) later
  apply dispatchConsumed_meets _ later
  intro starts
  obtain ⟨_, t₃, taken, last⟩ := returns_op.mp advanced
  rcases returns_pure.mp last with ⟨rfl, rfl⟩
  change t.newToken.take.map _ = _ at taken
  cases took : t.newToken.take with
  | error e => simp [took, Except.map] at taken
  | ok t₂ =>
      rw [took] at taken
      cases taken
      unfold LogicalLexer.take at took
      split at took
      · cases took
        simp [LogicalLexer.newToken, NoBackslash]
      · rename_i lc cs rest
        cases recorded : t.newToken.recordEscape lc with
        | error e => simp [recorded, Except.map] at took
        | ok escapeErrors =>
            rw [recorded] at took
            cases took
            rw [rest] at starts
            intro lc' inside
            have same : lc' = lc := by
              simpa [LogicalLexer.move, LogicalLexer.newToken, show t.rest = lc :: cs from rest] using inside
            rw [same]
            exact identifierStart_ne_backslash starts

theorem scanTokens_meets (meets : Meets logicalMachine .currentTokenLexeme t' (scanTokens U) t) :
    NoBackslash t'.lexeme := by
  obtain ⟨_, t₁, -, later⟩ := Blind.meets_bind blind_scanPrologue meets
  rcases Meets.of_bind later with loop | ⟨_, _, -, after⟩
  · obtain ⟨t₂, cond | body⟩ := loop.of_whileDo
    · exact absurd cond (Blind.not_meets (blind_isAtEnd fun _ => avoids_pure))
    · exact scanNextToken_meets body
  · exact absurd after blind_scanEpilogue.not_meets

end Lexemes

end CaffeineLs.JavaSyntax
