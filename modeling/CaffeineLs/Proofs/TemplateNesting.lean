/-
Module: CaffeineLs.Proofs.TemplateNesting
Purpose: The two stacks of the Kotlin lexer are always the picture of one list of open templates,
  and the brace that closes a template is the one that balances it.
Trusted boundary: none
Main exports: Template, Nesting, templates_nest
-/
import CaffeineLs.Lib.Footprint
import CaffeineLs.Proofs.KotlinRuns

namespace CaffeineLs.KotlinSyntax

open Imperative
open SourceText

/-! ### Routines that leave the stacks alone -/

/-- A token that opens a level of braces, or closes one. -/
inductive Brace where
  | template
  | opens
  | closes
deriving DecidableEq

def brace : SyntaxKind → Option Brace
  | .templateExprStart => some .template
  | .lBrace => some .opens
  | .rBrace => some .closes
  | _ => none

/-- The operations that leave the stacks alone and complete no brace. -/
def LexOp.Plain : (β : Type) → LexOp β → Prop
  | _, .completeToken kind => brace kind = none
  | _, .setStacks _ => False
  | _, _ => True

abbrev Plain {α : Type} (x : Lex α) : Prop := x.Uses LexOp.Plain

section Plain

attribute [local simp] LexOp.Plain

variable {α : Type}

theorem notAtEndAnd_plain {p : Char → Bool} : Plain (notAtEndAnd p) := by
  simp [notAtEndAnd, isAtEnd, peek, peekN, LexOp.Plain]

theorem advance_plain : Plain advance := by simp [advance, LexOp.Plain]

theorem peekN_plain (n : Nat) : Plain (peekN n) := by simp [peekN, LexOp.Plain]

theorem advanceWhile_plain {p : Char → Bool} : Plain (advanceWhile p) :=
  uses_whileDo notAtEndAnd_plain (uses_bind advance_plain fun _ => trivial)

theorem advanceTimes_plain (n : Nat) : Plain (advanceTimes n) := by
  induction n with
  | zero => trivial
  | succ n ih => exact uses_bind advance_plain fun _ => ih

theorem completeToken_plain {kind : SyntaxKind} (plain : brace kind = none) :
    Plain (completeToken kind) := by
  simpa [completeToken, LexOp.Plain] using plain

theorem reportError_plain {kind : LexicalErrorKind} : Plain (reportError kind) := by
  simp [reportError, LexOp.Plain]

theorem handleHorizontalWhitespace_plain : Plain handleHorizontalWhitespace :=
  uses_bind advanceWhile_plain fun _ => completeToken_plain rfl

theorem handleNewline_plain : Plain handleNewline := by
  apply uses_bind
  · apply uses_whileDo notAtEndAnd_plain
    simp [peek, peekN, advance, LexOp.Plain]
  · exact fun _ => completeToken_plain rfl

theorem keywordKind_plain (text : String) : brace (keywordKind text) = none := by
  unfold keywordKind
  split <;> rfl

theorem handleIdentifier_plain (U : UnicodeTables) : Plain (handleIdentifier U) := by
  apply uses_bind advanceWhile_plain
  intro _
  simp [currentLexeme, peek, peekN, advance, completeToken, LexOp.Plain, keywordKind_plain]
  simp [brace]

theorem handleBacktickIdentifier_plain : Plain handleBacktickIdentifier := by
  apply uses_bind advance_plain
  intro _
  apply uses_bind (by simp [peek, peekN, LexOp.Plain])
  intro c
  apply uses_ite.mpr
  constructor
  · intro _
    simp [reportError, advance, completeToken, LexOp.Plain, brace]
  · intro _
    apply uses_bind
    · apply uses_loop
      intro _
      apply uses_bind notAtEndAnd_plain
      intro goes
      simp [peek, peekN, advance, reportError, LexOp.Plain]
    · intro _
      simp [isAtEnd, peek, peekN, reportError, advance, completeToken, LexOp.Plain, brace]

theorem hexDigits_plain (n : Nat) : Plain (hexDigits n) := by
  induction n with
  | zero => trivial
  | succ n ih => simp [hexDigits, peek, peekN, advance, LexOp.Plain, ih]

theorem consumeEscapeSequence_plain : Plain consumeEscapeSequence := by
  have digits : Plain (do
      let valid ← hexDigits 4
      if !valid then
        reportError .unsupportedEscapeSequence) := by
    apply uses_bind (hexDigits_plain 4)
    intro valid
    simp [reportError, LexOp.Plain]
  simpa [consumeEscapeSequence, peek, peekN, advance, isAtEnd, reportError, LexOp.Plain] using
    fun _ _ _ _ _ _ _ _ _ _ => digits

theorem handleCharLiteral_plain : Plain handleCharLiteral := by
  have rest : Plain (do
      let tooManyChars ← Prog.loop (β := Bool) (γ := Bool)
        (fun tooManyChars => do
          if ← notAtEndAnd (fun c => c ≠ '\'' && !isKotlinNewline c) then
            let _ ← advance
            return .inl true
          else
            return .inr tooManyChars)
        false .pure
      if (← peek) = '\'' then
        let _ ← advance
        if tooManyChars then
          reportError .tooManyCharsInCharLiteral
      else
        reportError .unterminatedCharLiteral
      completeToken .charLiteral) := by
    apply uses_bind
    · apply uses_loop
      intro tooManyChars
      apply uses_bind notAtEndAnd_plain
      intro goes
      simp [advance, LexOp.Plain]
    · intro tooManyChars
      simp [peek, peekN, advance, reportError, completeToken, LexOp.Plain, brace]
  apply uses_bind advance_plain
  intro _
  apply uses_bind (by simp [peek, peekN, LexOp.Plain])
  intro c
  apply uses_ite.mpr
  constructor
  · intro _
    simp [reportError, advance, completeToken, LexOp.Plain, brace]
  · intro _
    apply uses_bind (by simp [isAtEnd, LexOp.Plain])
    intro ended
    apply uses_ite.mpr
    constructor
    · intro _
      apply uses_bind (by simp [peek, peekN, LexOp.Plain])
      intro d
      apply uses_ite.mpr
      exact ⟨fun _ => uses_bind consumeEscapeSequence_plain fun _ => rest,
        fun _ => uses_bind advance_plain fun _ => rest⟩
    · exact fun _ => rest

theorem consumeDigits_plain {isValidDigit : Char → Bool} : Plain (consumeDigits isValidDigit) := by
  apply uses_loop
  intro (count, underscore)
  simp [isAtEnd, peek, peekN, advance, LexOp.Plain]

theorem consumeExponent_plain (lastWasUnderscore : Bool) : Plain (consumeExponent lastWasUnderscore) := by
  simp [consumeExponent, peek, peekN, advance, reportError, LexOp.Plain, uses_bind consumeDigits_plain]

theorem consumeFraction_plain (lastWasUnderscore : Bool) : Plain (consumeFraction lastWasUnderscore) := by
  simp [consumeFraction, peek, peekN, peekNext, advance, reportError, LexOp.Plain,
    uses_bind consumeDigits_plain]

theorem consumeIntSuffixes_plain : Plain consumeIntSuffixes := by
  simp [consumeIntSuffixes, peek, peekN, advance, reportError, LexOp.Plain]

theorem handleLeadingDotFloat_plain : Plain handleLeadingDotFloat := by
  apply uses_bind consumeDigits_plain
  intro (_, afterDigits)
  apply uses_bind (consumeExponent_plain afterDigits)
  intro (_, lastWasUnderscore)
  simp [peek, peekN, advance, reportError, completeToken, LexOp.Plain, brace]

theorem handleRadixLiteral_plain (isValidDigit : Char → Bool) :
    Plain (handleRadixLiteral isValidDigit) := by
  have rest : Plain (do
      consumeIntSuffixes
      completeToken .integerLiteral) :=
    uses_bind consumeIntSuffixes_plain fun _ => completeToken_plain rfl
  simp [handleRadixLiteral, peek, peekN, reportError, LexOp.Plain, uses_bind consumeDigits_plain, rest]

theorem handleDecimalOrFloat_plain : Plain handleDecimalOrFloat := by
  apply uses_bind consumeDigits_plain
  intro (_, afterInteger)
  apply uses_bind (consumeFraction_plain afterInteger)
  intro (hasFraction, afterFraction)
  apply uses_bind (consumeExponent_plain afterFraction)
  intro (hasExponent, lastWasUnderscore)
  simp [peek, peekN, advance, reportError, completeToken, LexOp.Plain, brace,
    uses_bind consumeIntSuffixes_plain]

theorem handleNumber_plain : Plain handleNumber := by
  simp [handleNumber, peek, peekN, peekNext, advance, reportError, LexOp.Plain,
    handleRadixLiteral_plain, handleDecimalOrFloat_plain]

theorem handleDot_plain : Plain handleDot := by
  simp [handleDot, peek, peekN, advance, completeToken, LexOp.Plain, brace,
    handleLeadingDotFloat_plain]

theorem handleEqual_plain : Plain handleEqual := by
  simp [handleEqual, peek, peekN, advance, completeToken, LexOp.Plain, brace]

theorem handleColon_plain : Plain handleColon := by
  simp [handleColon, peek, peekN, advance, completeToken, LexOp.Plain, brace]

theorem handleQuestion_plain : Plain handleQuestion := by
  simp [handleQuestion, peek, peekN, advance, completeToken, LexOp.Plain, brace]

theorem handleBang_plain (U : UnicodeTables) : Plain (handleBang U) := by
  simp [handleBang, peek, peekN, peekNext, advance, completeToken, LexOp.Plain, brace]

theorem handleLess_plain : Plain handleLess := by
  simp [handleLess, peek, peekN, advance, completeToken, LexOp.Plain, brace]

theorem handleGreater_plain : Plain handleGreater := by
  simp [handleGreater, peek, peekN, advance, completeToken, LexOp.Plain, brace]

theorem handleAnd_plain : Plain handleAnd := by
  simp [handleAnd, peek, peekN, advance, completeToken, LexOp.Plain, brace]

theorem handleOr_plain : Plain handleOr := by
  simp [handleOr, peek, peekN, advance, reportError, completeToken, LexOp.Plain, brace]

theorem handlePlus_plain : Plain handlePlus := by
  simp [handlePlus, peek, peekN, advance, completeToken, LexOp.Plain, brace]

theorem handleMinus_plain : Plain handleMinus := by
  simp [handleMinus, peek, peekN, advance, completeToken, LexOp.Plain, brace]

theorem handleStar_plain : Plain handleStar := by
  simp [handleStar, peek, peekN, advance, completeToken, LexOp.Plain, brace]

theorem handleModulo_plain : Plain handleModulo := by
  simp [handleModulo, peek, peekN, advance, completeToken, LexOp.Plain, brace]

theorem processLineComment_plain : Plain processLineComment :=
  uses_bind advanceWhile_plain fun _ => completeToken_plain rfl

theorem blockCommentRest_plain (depth : Nat) : Plain (blockCommentRest depth) := by
  apply uses_loop
  intro depth
  simp [isAtEnd, peek, peekN, advance, LexOp.Plain]

theorem processBlockComment_plain : Plain processBlockComment := by
  apply uses_bind
  · simp [peek, peekN, advance, LexOp.Plain]
  · intro (startDepth, isKdoc)
    apply uses_bind (blockCommentRest_plain startDepth)
    intro depth
    simp [reportError, completeToken, LexOp.Plain, brace]

theorem handleSlash_plain : Plain handleSlash := by
  simp [handleSlash, peek, peekN, advance, completeToken, LexOp.Plain, brace,
    processLineComment_plain, processBlockComment_plain]

theorem handleOther_plain : Plain handleOther := by
  simp [handleOther, advance, reportError, completeToken, LexOp.Plain, brace]

/-! ### Routines of the string mode that do the same -/

theorem countRun_plain (c : Char) : Plain (countRun c) := by
  apply uses_loop
  intro count
  simp [peekN, LexOp.Plain]

theorem dollarsAhead_plain (n i : Nat) : Plain (dollarsAhead n i) := by
  induction n generalizing i with
  | zero => trivial
  | succ n ih => simp [dollarsAhead, peekN, LexOp.Plain, ih]

theorem templateAhead_plain (n : Nat) : Plain (templateAhead n) := by
  apply uses_bind (dollarsAhead_plain n 0)
  intro _
  simp [peekN, LexOp.Plain]

/-- The look for a template, where a dollar shows that there may be one. -/
theorem template_plain (c : Char) (n : Nat) :
    Plain (if c = '$' then templateAhead n else pure none) :=
  uses_ite.mpr ⟨fun _ => templateAhead_plain n, fun _ => trivial⟩

theorem stringTextRound_plain (U : UnicodeTables) (isRaw : Bool) (dollarDepth : Nat)
    (consumedText : Bool) : Plain (stringTextRound U isRaw dollarDepth consumedText) := by
  have ends : ∀ c, Plain (do
      let template ← (if c = '$' then templateAhead dollarDepth else pure none)
      if template.any fun c => c = '{' || isKotlinIdentifierStart U c || c = '`' then
        return .inr consumedText
      else
        let _ ← advance
        return .inl true : Lex (Bool ⊕ Bool)) := by
    intro c
    apply uses_bind (template_plain c dollarDepth)
    intro template
    simp [advance, LexOp.Plain]
  simp only [advance] at ends
  simpa [stringTextRound, isAtEnd, peek, peekN, peekNext, advance, LexOp.Plain] using
    fun c _ _ _ _ => ends c

theorem scanStringText_plain (U : UnicodeTables) (isRaw : Bool) (dollarDepth : Nat) :
    Plain (scanStringText U isRaw dollarDepth) := by
  apply uses_bind
  · exact uses_loop (stringTextRound_plain U isRaw dollarDepth)
  · intro _
    simp [completeToken, LexOp.Plain, brace]

theorem shortTemplate_plain (U : UnicodeTables) (dollarDepth : Nat) :
    Plain (shortTemplate U dollarDepth) := by
  apply uses_bind (advanceTimes_plain dollarDepth)
  intro _
  simp [completeToken, newToken, peek, peekN, LexOp.Plain, brace,
    handleBacktickIdentifier_plain, uses_bind advanceWhile_plain]

theorem quoteContent_plain (extra : Nat) : Plain (quoteContent extra) := by
  apply uses_bind (advanceTimes_plain extra)
  intro _
  simp [completeToken, LexOp.Plain, brace]

/-- Every character but a brace, a quote and a dollar has a routine that keeps the stacks. -/
theorem dispatchDefault_plain (U : UnicodeTables) {c : Char}
    (other : c ≠ '{' ∧ c ≠ '}' ∧ c ≠ '$' ∧ c ≠ '"') : Plain (dispatchDefault U c) := by
  obtain ⟨left, right, dollar, quote⟩ := other
  simp [dispatchDefault, left, right, dollar, quote, handleCharLiteral_plain, handlePlus_plain,
    handleMinus_plain, handleStar_plain, handleSlash_plain, handleModulo_plain,
    handleBacktickIdentifier_plain, handleColon_plain, handleQuestion_plain, handleBang_plain,
    handleLess_plain, handleGreater_plain, handleEqual_plain, handleAnd_plain, handleOr_plain,
    handleDot_plain, handleNumber_plain, handleNewline_plain, handleHorizontalWhitespace_plain,
    handleIdentifier_plain, handleOther_plain]

end Plain

/-! ### What runs do to the stacks -/

/-- The braces among the tokens. -/
def bracesOf (tokens : List Token) : List Brace := tokens.filterMap fun token => brace token.kind

theorem bracesOf_append (tokens new : List Token) :
    bracesOf (tokens ++ new) = bracesOf tokens ++ bracesOf new :=
  List.filterMap_append

/-- The braces among the tokens that are in `l'` and not yet in `l`. -/
def Braces (l l' : Lexer) (braces : List Brace) : Prop :=
  ∃ new, l'.tokens = l.tokens ++ new ∧ bracesOf new = braces

theorem Braces.refl (l : Lexer) : Braces l l [] := ⟨[], by simp, rfl⟩

theorem Braces.trans {l₁ l₂ l₃ : Lexer} {bs bs' : List Brace} (one : Braces l₁ l₂ bs)
    (two : Braces l₂ l₃ bs') : Braces l₁ l₃ (bs ++ bs') := by
  rcases one with ⟨new, tokens, rfl⟩
  rcases two with ⟨new', tokens', rfl⟩
  exact ⟨new ++ new', by rw [tokens', tokens, List.append_assoc], bracesOf_append new new'⟩

/-- From `l` to `l'` the stacks stay as they are, and no token is a brace. -/
def Keeps (l l' : Lexer) : Prop := l'.nesting = l.nesting ∧ Braces l l' []

variable {α β : Type} {l l' : Lexer}

theorem Keeps.refl (l : Lexer) : Keeps l l := ⟨rfl, .refl l⟩

theorem Keeps.trans {l'' : Lexer} (one : Keeps l l') (two : Keeps l' l'') : Keeps l l'' :=
  ⟨two.1.trans one.1, one.2.trans two.2⟩

theorem Plain.exec {o : LexOp β} {b : β} (plain : LexOp.Plain β o)
    (steps : machine.exec o l = .ok (b, l')) : Keeps l l' := by
  have stays : ∀ {l'' : Lexer}, l''.nesting = l.nesting → l''.tokens = l.tokens → Keeps l l'' := by
    intro l'' nesting tokens
    exact ⟨nesting, [], by simp [tokens], rfl⟩
  change LexOp.exec o l = .ok (b, l') at steps
  cases o with
  | peekN n =>
      simp only [LexOp.exec, bind, Except.bind] at steps
      split at steps <;> cases steps
      exact stays rfl rfl
  | advance =>
      simp only [LexOp.exec, SourceReader.advance, bind, Except.bind] at steps
      cases sees : l.reader.peekN 0 <;> simp only [sees] at steps <;> cases steps
      exact stays rfl rfl
  | currentLexeme =>
      simp only [LexOp.exec, bind, Except.bind] at steps
      split at steps <;> cases steps
      exact stays rfl rfl
  | completeToken kind =>
      simp only [LexOp.exec, Lexer.completeToken, bind, Except.bind] at steps
      cases raw : l.reader.currentLexeme <;> simp only [raw] at steps <;> cases steps
      have isPlain : brace kind = none := plain
      exact ⟨rfl, _, rfl, by simp [bracesOf, Token.new, isPlain]⟩
  | completeEof =>
      cases steps
      exact ⟨rfl, _, rfl, rfl⟩
  | reportError kind =>
      simp only [LexOp.exec, Lexer.reportError, bind, Except.bind] at steps
      split at steps
      · cases steps
      · rename_i reported
        split at reported <;> cases reported
        cases steps
        exact stays rfl rfl
  | setStacks nesting => exact plain.elim
  | underflow => cases steps
  | isAtEnd | newToken | getStacks =>
      cases steps
      exact stays rfl rfl

/-- A plain routine keeps the stacks and completes no brace. -/
theorem Plain.returns {x : Lex α} {a : α} (plain : Plain x) (returns : Returns machine x l a l') : Keeps l l' := by
  have step : ∀ (β : Type) (o : LexOp β) (m : Lexer) (b : β) (m' : Lexer), LexOp.Plain β o →
      Keeps l m → machine.exec o m = .ok (b, m') → Keeps l m' :=
    fun _ _ _ _ _ isPlain kept steps => kept.trans (Plain.exec isPlain steps)
  exact Returns.keeps_of_uses step (fun _ f => nomatch f) plain (.refl l) returns

theorem returns_getStacks {k : Stacks → Lex α} {a : α} :
    Returns machine (getStacks >>= k) l a l' ↔ Returns machine (k l.nesting) l a l' := by
  apply returns_op.trans
  constructor
  · rintro ⟨_, _, steps, rest⟩
    cases steps
    exact rest
  · exact fun rest => ⟨_, _, rfl, rest⟩

theorem returns_setStacks {s : Stacks} (returns : Returns machine (setStacks s) l () l') :
    l' = { l with nesting := s } := by
  rcases returns_op.mp returns with ⟨_, _, steps, rest⟩
  cases steps
  exact (returns_pure.mp rest).2.symm

theorem returns_completeToken {kind : SyntaxKind}
    (returns : Returns machine (completeToken kind) l () l') :
    l'.nesting = l.nesting ∧ Braces l l' (brace kind).toList := by
  rcases returns_op.mp returns with ⟨_, l₁, steps, rest⟩
  rcases returns_pure.mp rest with ⟨-, rfl⟩
  change LexOp.exec (.completeToken kind) l = _ at steps
  simp only [LexOp.exec, Lexer.completeToken, bind, Except.bind] at steps
  cases raw : l.reader.currentLexeme <;> simp only [raw] at steps <;> cases steps
  refine ⟨rfl, _, rfl, ?_⟩
  simp only [bracesOf, Token.new, List.filterMap_cons, List.filterMap_nil]
  cases brace kind <;> rfl

/-! ### The nesting that the stacks picture -/

/-- An open template expression: the string it is in, and the braces that are open inside it. -/
structure Template where
  isRaw : Bool
  dollarDepth : Nat
  inside : Nat

/-- The open templates, innermost first, and the string that is open inside the innermost. -/
structure Nesting where
  templates : List Template
  string : Option (Bool × Nat)

namespace Nesting

/-- Each open template is a default mode on the mode of its string. -/
def modes (n : Nesting) : List LexerMode :=
  (n.string.map fun s => LexerMode.string s.1 s.2).toList ++
    (n.templates.flatMap fun t => [.default, .string t.isRaw t.dollarDepth]) ++ [.default]

/-- Each depth counts the brace of the template itself too. -/
def asStacks (n : Nesting) : Stacks :=
  { modeStack := n.modes, templateBraceDepths := n.templates.map fun t => t.inside + 1 }

end Nesting

/-- What one scanning step can do to the nesting, with the braces it completes for it. -/
inductive Effect : Nesting → List Brace → Nesting → Prop where
  | stay {n : Nesting} : Effect n [] n
  /-- Outside of all templates braces are not counted. -/
  | uncounted {b : Brace} : b ≠ .template → Effect ⟨[], none⟩ [b] ⟨[], none⟩
  | deepen {isRaw : Bool} {dollarDepth inside : Nat} {ts : List Template} :
      Effect ⟨⟨isRaw, dollarDepth, inside⟩ :: ts, none⟩ [.opens]
        ⟨⟨isRaw, dollarDepth, inside + 1⟩ :: ts, none⟩
  | leave {isRaw : Bool} {dollarDepth inside : Nat} {ts : List Template} :
      Effect ⟨⟨isRaw, dollarDepth, inside + 1⟩ :: ts, none⟩ [.closes]
        ⟨⟨isRaw, dollarDepth, inside⟩ :: ts, none⟩
  /-- The last brace of a template leads back to its string. -/
  | closeTemplate {isRaw : Bool} {dollarDepth : Nat} {ts : List Template} :
      Effect ⟨⟨isRaw, dollarDepth, 0⟩ :: ts, none⟩ [.closes] ⟨ts, some (isRaw, dollarDepth)⟩
  | openTemplate {isRaw : Bool} {dollarDepth : Nat} {ts : List Template} :
      Effect ⟨ts, some (isRaw, dollarDepth)⟩ [.template] ⟨⟨isRaw, dollarDepth, 0⟩ :: ts, none⟩
  | openString {ts : List Template} {s : Bool × Nat} : Effect ⟨ts, none⟩ [] ⟨ts, some s⟩
  | closeString {ts : List Template} {s : Bool × Nat} : Effect ⟨ts, some s⟩ [] ⟨ts, none⟩

/-- From `l`, where the stacks picture `n`, to `l'` the nesting has one of the effects. -/
def Acts (n : Nesting) (l l' : Lexer) : Prop :=
  ∃ bs n', Braces l l' bs ∧ l'.nesting = n'.asStacks ∧ Effect n bs n'

theorem Keeps.acts {n : Nesting} (nested : l.nesting = n.asStacks) (keeps : Keeps l l') : Acts n l l' :=
  ⟨[], n, keeps.2, keeps.1.trans nested, .stay⟩

/-- What comes before and keeps the stacks changes no effect. -/
theorem Keeps.before {n : Nesting} {l'' : Lexer} (keeps : Keeps l l') (acts : Acts n l' l'') :
    Acts n l l'' := by
  rcases acts with ⟨bs, n', adds, pictured, effect⟩
  exact ⟨bs, n', keeps.2.trans adds, pictured, effect⟩

theorem handleLeftBrace_acts {ts : List Template} (nested : l.nesting = Nesting.asStacks ⟨ts, none⟩)
    (returns : Returns machine handleLeftBrace l () l') : Acts ⟨ts, none⟩ l l' := by
  rcases returns_bind.mp returns with ⟨_, l₁, moves, returns⟩
  rcases returns_bind.mp returns with ⟨_, l₂, enters, completes⟩
  rcases advance_plain.returns moves with ⟨same, before⟩
  rcases returns_completeToken completes with ⟨same', token⟩
  have entered := returns_getStacks.mp enters
  rw [same, nested] at entered
  cases ts with
  | nil =>
      rcases returns_pure.mp entered with ⟨-, rfl⟩
      exact ⟨[.opens], ⟨[], none⟩, before.trans token, (same'.trans same).trans nested, .uncounted nofun⟩
  | cons t ts =>
      have pushed := returns_setStacks entered
      subst pushed
      exact ⟨[.opens], _, before.trans token, same', .deepen⟩

theorem handleRightBrace_acts {ts : List Template} (nested : l.nesting = Nesting.asStacks ⟨ts, none⟩)
    (returns : Returns machine handleRightBrace l () l') : Acts ⟨ts, none⟩ l l' := by
  rcases returns_bind.mp returns with ⟨_, l₁, moves, returns⟩
  rcases returns_bind.mp returns with ⟨_, l₂, completes, leaves⟩
  rcases advance_plain.returns moves with ⟨same, before⟩
  rcases returns_completeToken completes with ⟨same', token⟩
  have left := returns_getStacks.mp leaves
  rw [same', same, nested] at left
  cases ts with
  | nil =>
      rcases returns_pure.mp left with ⟨-, rfl⟩
      exact ⟨[.closes], ⟨[], none⟩, before.trans token, (same'.trans same).trans nested, .uncounted nofun⟩
  | cons t ts =>
      rcases t with ⟨isRaw, dollarDepth, inside⟩
      cases inside with
      | zero =>
          have popped := returns_setStacks left
          subst popped
          exact ⟨[.closes], ⟨ts, some (isRaw, dollarDepth)⟩, before.trans token, rfl, .closeTemplate⟩
      | succ inside =>
          have popped := returns_setStacks left
          subst popped
          exact ⟨[.closes], ⟨⟨isRaw, dollarDepth, inside⟩ :: ts, none⟩, before.trans token, rfl,
            .leave⟩

theorem pushMode_returns {mode : LexerMode} (returns : Returns machine (pushMode mode) l () l') :
    l' = { l with nesting := { l.nesting with modeStack := mode :: l.nesting.modeStack } } :=
  returns_setStacks (returns_getStacks.mp returns)

theorem popMode_returns (returns : Returns machine popMode l () l') :
    l' = { l with nesting := { l.nesting with modeStack := l.nesting.modeStack.tail } } :=
  returns_setStacks (returns_getStacks.mp returns)

/-- Quotes that were read, the string they open, and their token. -/
theorem openString_acts {ts : List Template} {isRaw : Bool} {dollarDepth : Nat}
    {quotes : Lex α} {kind : SyntaxKind} (nested : l.nesting = Nesting.asStacks ⟨ts, none⟩)
    (plain : Plain quotes) (none : brace kind = .none)
    (returns : Returns machine (quotes >>= fun _ => pushMode (.string isRaw dollarDepth) >>= fun _ =>
      completeToken kind) l () l') : Acts ⟨ts, .none⟩ l l' := by
  rcases returns_bind.mp returns with ⟨_, l₁, reads, returns⟩
  rcases returns_bind.mp returns with ⟨_, l₂, pushes, completes⟩
  rcases plain.returns reads with ⟨same, before⟩
  have pushed := pushMode_returns pushes
  subst pushed
  rcases returns_completeToken completes with ⟨same', token⟩
  rw [none] at token
  refine ⟨[], ⟨ts, some (isRaw, dollarDepth)⟩, before.trans token, ?_, .openString⟩
  rw [same', same, nested]
  rfl

theorem handleDollarOrQuote_acts {ts : List Template}
    (nested : l.nesting = Nesting.asStacks ⟨ts, none⟩)
    (returns : Returns machine handleDollarOrQuote l () l') : Acts ⟨ts, none⟩ l l' := by
  rcases returns_bind.mp returns with ⟨dollarCount, l₁, counts, returns⟩
  rcases returns_bind.mp returns with ⟨c, l₂, looks, returns⟩
  have start : Keeps l l₂ := ((countRun_plain '$').returns counts).trans
    ((peekN_plain dollarCount).returns looks)
  have nested₂ : l₂.nesting = Nesting.asStacks ⟨ts, none⟩ := start.1.trans nested
  apply start.before
  by_cases quote : c = '"'
  · rw [if_pos quote] at returns
    rcases returns_bind.mp returns with ⟨_, l₃, dollars, returns⟩
    rcases returns_bind.mp returns with ⟨second, l₄, looks₂, returns⟩
    rcases returns_bind.mp returns with ⟨third, l₅, looks₃, returns⟩
    have quotes : Keeps l₂ l₅ := (((advanceTimes_plain dollarCount).returns dollars).trans
      ((peekN_plain 1).returns looks₂)).trans ((peekN_plain 2).returns looks₃)
    apply quotes.before
    by_cases raw : (decide (second = '"') && decide (third = '"')) = true
    · rw [if_pos raw] at returns
      exact openString_acts (quotes.1.trans nested₂) (advanceTimes_plain 3) rfl returns
    · rw [if_neg raw] at returns
      exact openString_acts (quotes.1.trans nested₂) advance_plain rfl returns
  · rw [if_neg quote] at returns
    apply Keeps.acts nested₂
    exact Plain.returns (x := advance >>= fun _ => completeToken .dollar)
      (uses_bind advance_plain fun _ => completeToken_plain rfl) returns

theorem closeRawString_acts {ts : List Template} {s : Bool × Nat} {run : Nat}
    (nested : l.nesting = Nesting.asStacks ⟨ts, some s⟩)
    (returns : Returns machine (closeRawString run) l () l') : Acts ⟨ts, some s⟩ l l' := by
  rcases returns_bind.mp returns with ⟨_, l₁, content, returns⟩
  rcases returns_bind.mp returns with ⟨_, l₂, starts, returns⟩
  rcases returns_bind.mp returns with ⟨_, l₃, quotes, returns⟩
  rcases returns_bind.mp returns with ⟨_, l₄, pops, completes⟩
  have newToken_plain : Plain newToken := by simp [newToken, LexOp.Plain]
  have start : Keeps l l₃ := (((quoteContent_plain _).returns content).trans
    (newToken_plain.returns starts)).trans ((advanceTimes_plain 3).returns quotes)
  apply start.before
  have popped := popMode_returns pops
  subst popped
  rcases returns_completeToken completes with ⟨same, token⟩
  refine ⟨[], ⟨ts, none⟩, token, ?_, .closeString⟩
  rw [same, start.1, nested]
  rfl

theorem popMode_acts {ts : List Template} {s : Bool × Nat}
    (nested : l.nesting = Nesting.asStacks ⟨ts, some s⟩) (returns : Returns machine popMode l () l') :
    Acts ⟨ts, some s⟩ l l' := by
  have popped := popMode_returns returns
  subst popped
  refine ⟨[], ⟨ts, none⟩, ⟨[], by simp, rfl⟩, ?_, .closeString⟩
  rw [nested]
  rfl

theorem closeQuote_acts {ts : List Template} {s : Bool × Nat}
    (nested : l.nesting = Nesting.asStacks ⟨ts, some s⟩)
    (returns : Returns machine (popMode >>= fun _ => completeToken .closeQuote) l () l') :
    Acts ⟨ts, some s⟩ l l' := by
  rcases returns_bind.mp returns with ⟨_, l₁, pops, completes⟩
  rcases popMode_acts nested pops with ⟨bs, n', adds, pictured, effect⟩
  rcases returns_completeToken completes with ⟨same, token⟩
  have all := adds.trans token
  rw [show (brace .closeQuote).toList = [] from rfl, List.append_nil] at all
  exact ⟨bs, n', all, same.trans pictured, effect⟩

theorem openTemplateExpr_acts {ts : List Template} {isRaw : Bool} {dollarDepth n : Nat}
    (nested : l.nesting = Nesting.asStacks ⟨ts, some (isRaw, dollarDepth)⟩)
    (returns : Returns machine (openTemplateExpr n) l () l') :
    Acts ⟨ts, some (isRaw, dollarDepth)⟩ l l' := by
  rcases returns_bind.mp returns with ⟨_, l₁, dollars, returns⟩
  rcases returns_bind.mp returns with ⟨_, l₂, moves, returns⟩
  rcases returns_bind.mp returns with ⟨_, l₃, completes, enters⟩
  have start : Keeps l l₂ := ((advanceTimes_plain n).returns dollars).trans
    (advance_plain.returns moves)
  apply start.before
  rcases returns_completeToken completes with ⟨same, token⟩
  have pushes := returns_op.mp enters
  rcases pushes with ⟨_, _, reads, sets⟩
  cases reads
  have entered := returns_setStacks sets
  subst entered
  refine ⟨[.template], ⟨⟨isRaw, dollarDepth, 0⟩ :: ts, none⟩, token, ?_, .openTemplate⟩
  rw [same, start.1, nested]
  rfl

theorem scanStringBody_acts (U : UnicodeTables) {ts : List Template} {isRaw : Bool}
    {dollarDepth : Nat} {c : Char}
    (nested : l.nesting = Nesting.asStacks ⟨ts, some (isRaw, dollarDepth)⟩)
    (returns : Returns machine (scanStringBody U isRaw dollarDepth c) l () l') :
    Acts ⟨ts, some (isRaw, dollarDepth)⟩ l l' := by
  rw [scanStringBody] at returns
  split at returns
  · apply Keeps.acts nested
    exact Plain.returns (uses_bind consumeEscapeSequence_plain fun _ => completeToken_plain rfl)
      returns
  · rcases returns_bind.mp returns with ⟨template, l₁, looks, returns⟩
    have start := (template_plain c dollarDepth).returns looks
    apply start.before
    have nested₁ := start.1.trans nested
    split at returns
    · exact ((scanStringText_plain U isRaw dollarDepth).returns returns).acts nested₁
    · split at returns
      · exact openTemplateExpr_acts nested₁ returns
      · split at returns
        · exact ((shortTemplate_plain U dollarDepth).returns returns).acts nested₁
        · exact ((scanStringText_plain U isRaw dollarDepth).returns returns).acts nested₁

theorem scanStringMode_acts (U : UnicodeTables) {ts : List Template} {isRaw : Bool}
    {dollarDepth : Nat} (nested : l.nesting = Nesting.asStacks ⟨ts, some (isRaw, dollarDepth)⟩)
    (returns : Returns machine (scanStringMode U isRaw dollarDepth) l () l') :
    Acts ⟨ts, some (isRaw, dollarDepth)⟩ l l' := by
  have reports : ∀ {m m' : Lexer}, m.nesting = Nesting.asStacks ⟨ts, some (isRaw, dollarDepth)⟩ →
      Returns machine (reportError .unterminatedString >>= fun _ => popMode) m () m' →
      Acts ⟨ts, some (isRaw, dollarDepth)⟩ m m' := by
    intro m m' nested returns
    rcases returns_bind.mp returns with ⟨_, m₁, reported, pops⟩
    have start := reportError_plain.returns reported
    exact start.before (popMode_acts (start.1.trans nested) pops)
  rcases returns_bind.mp returns with ⟨ended, l₁, asks, returns⟩
  have isAtEnd_plain : Plain isAtEnd := by simp [isAtEnd, LexOp.Plain]
  have start := isAtEnd_plain.returns asks
  apply start.before
  have nested₁ := start.1.trans nested
  split at returns
  · exact reports nested₁ returns
  · rcases returns_bind.mp returns with ⟨c, l₂, looks, returns⟩
    have seen := (peekN_plain 0).returns looks
    apply seen.before
    have nested₂ := seen.1.trans nested₁
    split at returns
    · rcases returns_bind.mp returns with ⟨run, l₃, counts, returns⟩
      have counted := (countRun_plain '"').returns counts
      apply counted.before
      have nested₃ := counted.1.trans nested₂
      split at returns
      · exact closeRawString_acts nested₃ returns
      · exact scanStringBody_acts U nested₃ returns
    · split at returns
      · rcases returns_bind.mp returns with ⟨_, l₃, moves, returns⟩
        have moved := advance_plain.returns moves
        apply moved.before
        exact closeQuote_acts (moved.1.trans nested₂) returns
      · split at returns
        · exact reports nested₂ returns
        · exact scanStringBody_acts U nested₂ returns

theorem scanDefaultMode_acts (U : UnicodeTables) {ts : List Template}
    (nested : l.nesting = Nesting.asStacks ⟨ts, none⟩)
    (returns : Returns machine (scanDefaultMode U) l () l') : Acts ⟨ts, none⟩ l l' := by
  rcases returns_bind.mp returns with ⟨c, l₁, looks, returns⟩
  have seen := (peekN_plain 0).returns looks
  apply seen.before
  have nested₁ := seen.1.trans nested
  by_cases left : c = '{'
  · subst left
    exact handleLeftBrace_acts nested₁ returns
  by_cases right : c = '}'
  · subst right
    exact handleRightBrace_acts nested₁ returns
  by_cases quote : c = '$' ∨ c = '"'
  · have opens : dispatchDefault U c = handleDollarOrQuote := by
      rcases quote with rfl | rfl <;> simp [dispatchDefault]
    rw [opens] at returns
    exact handleDollarOrQuote_acts nested₁ returns
  · have others : c ≠ '$' ∧ c ≠ '"' := not_or.mp quote
    exact ((dispatchDefault_plain U ⟨left, right, others⟩).returns returns).acts nested₁

/-! ### The scanning step -/

/-- The mode the next token is scanned in is that of the open string. -/
theorem headD_modes (n : Nesting) :
    n.asStacks.modeStack.headD .default =
      match n.string with
      | some s => .string s.1 s.2
      | none => .default := by
  rcases n with ⟨ts, s⟩
  cases s with
  | some s => rfl
  | none => cases ts <;> rfl

/-- The string that is open is closed, at the end of the input. -/
def Nesting.atEnd (n : Nesting) : Nesting := { n with string := none }

/-- Closing an open string at the end of the input. -/
theorem closeStringAtEnd_returns {n : Nesting} (nested : l.nesting = n.asStacks)
    (returns : Returns machine closeStringAtEnd l () l') :
    Braces l l' [] ∧ l'.nesting = (if l.reader.isAtEnd then n.atEnd else n).asStacks := by
  rcases returns_bind.mp returns with ⟨ended, l₁, asks, returns⟩
  rcases returns_op.mp asks with ⟨_, _, steps, last⟩
  cases steps
  rcases returns_pure.mp last with ⟨rfl, rfl⟩
  by_cases ended : l.reader.isAtEnd = true
  · rw [if_pos ended] at returns ⊢
    have inMode := returns_getStacks.mp returns
    rcases n with ⟨ts, s⟩
    cases s with
    | none =>
        have stays : l' = l := by
          rw [nested] at inMode
          cases ts <;> exact (returns_pure.mp inMode).2.symm
        subst stays
        exact ⟨.refl _, nested⟩
    | some s =>
        rw [nested] at inMode
        rcases returns_bind.mp inMode with ⟨_, l₂, reported, pops⟩
        have start := reportError_plain.returns reported
        have popped := popMode_returns pops
        subst popped
        refine ⟨start.2, ?_⟩
        change Stacks.mk _ _ = _
        rw [start.1, nested]
        rfl
  · rw [if_neg ended] at returns ⊢
    rcases returns_pure.mp returns with ⟨-, rfl⟩
    exact ⟨.refl l, nested⟩

/-- The operations that leave the cursor where it is. -/
def LexOp.Still : (β : Type) → LexOp β → Prop
  | _, .advance => False
  | _, .newToken => False
  | _, _ => True

theorem closeStringAtEnd_reader (returns : Returns machine closeStringAtEnd l () l') :
    l'.reader = l.reader := by
  have step : ∀ (β : Type) (o : LexOp β) (m : Lexer) (b : β) (m' : Lexer), LexOp.Still β o →
      m.reader = l.reader → machine.exec o m = .ok (b, m') → m'.reader = l.reader := by
    intro β o m b m' still same steps
    rw [← same]
    change LexOp.exec o m = .ok (b, m') at steps
    cases o with
    | advance => exact still.elim
    | newToken => exact still.elim
    | peekN n =>
        simp only [LexOp.exec, bind, Except.bind] at steps
        split at steps <;> cases steps
        rfl
    | currentLexeme =>
        simp only [LexOp.exec, bind, Except.bind] at steps
        split at steps <;> cases steps
        rfl
    | completeToken kind =>
        simp only [LexOp.exec, Lexer.completeToken, bind, Except.bind] at steps
        cases raw : m.reader.currentLexeme <;> simp only [raw] at steps <;> cases steps
        rfl
    | reportError kind =>
        simp only [LexOp.exec, Lexer.reportError, bind, Except.bind] at steps
        split at steps
        · cases steps
        · rename_i reported
          split at reported <;> cases reported
          cases steps
          rfl
    | underflow => cases steps
    | isAtEnd | completeEof | getStacks | setStacks _ =>
        cases steps
        rfl
  have uses : (closeStringAtEnd : Lex Unit).Uses LexOp.Still := by
    simp only [closeStringAtEnd, isAtEnd, getStacks, reportError, popMode, setStacks, uses_op,
      Prog.op_bind, leaf_bind, uses_ite, LexOp.Still, true_and]
    intro ended
    refine ⟨fun _ nesting => ?_, fun _ => trivial⟩
    split <;> simp [LexOp.Still]
  have noCalls : ∀ (β : Type) (f : NoFn β), (machine.body f).Uses LexOp.Still := by
    intro β f
    cases f
  exact Returns.keeps_of_uses step noCalls uses rfl returns

/-- A scanning step has one of the effects; after it a string that the input leaves open is
closed. -/
theorem scanNextToken_acts (U : UnicodeTables) {n : Nesting} (nested : l.nesting = n.asStacks)
    (returns : Returns machine (scanNextToken U) l () l') :
    ∃ bs n', Braces l l' bs ∧ Effect n bs n' ∧
      l'.nesting = (if l'.reader.isAtEnd then n'.atEnd else n').asStacks := by
  rcases returns_bind.mp returns with ⟨_, l₁, starts, returns⟩
  have newToken_plain : Plain newToken := by simp [newToken, LexOp.Plain]
  have start := newToken_plain.returns starts
  have nested₁ := start.1.trans nested
  have scans := returns_getStacks.mp returns
  rcases returns_bind.mp scans with ⟨_, l₂, scans, closes⟩
  have acts : Acts n l₁ l₂ := by
    rw [nested₁, headD_modes] at scans
    rcases n with ⟨ts, s⟩
    cases s with
    | none => exact scanDefaultMode_acts U nested₁ scans
    | some s => exact scanStringMode_acts U nested₁ scans
  rcases acts with ⟨bs, n', adds, pictured, effect⟩
  rcases closeStringAtEnd_returns pictured closes with ⟨nothing, ended⟩
  have same : l'.reader.isAtEnd = l₂.reader.isAtEnd := by rw [closeStringAtEnd_reader closes]
  have all := (start.2.trans adds).trans nothing
  rw [List.nil_append, List.append_nil] at all
  exact ⟨bs, n', all, effect, same ▸ ended⟩

/-- Every loop head's stacks are the picture of some nesting. -/
theorem LoopHead.nested {U : UnicodeTables} {source : Text} (head : LoopHead U source l) :
    ∃ n : Nesting, l.nesting = n.asStacks := by
  induction head with
  | first prologue =>
      have plain : Plain scanPrologue := by
        have shebang : Plain scanShebang := by
          simp [scanShebang, peek, peekN, peekNext, newToken, completeToken, LexOp.Plain, brace,
            uses_bind advanceWhile_plain]
        simp [scanPrologue, peek, peekN, advance, LexOp.Plain, shebang]
      refine ⟨⟨[], none⟩, ?_⟩
      rw [(plain.returns prologue).1]
      rfl
  | next head more step ih =>
      rcases ih with ⟨n, nested⟩
      rcases scanNextToken_acts U nested step with ⟨bs, n', -, -, pictured⟩
      exact ⟨_, pictured⟩

/-! ### The brace that closes a template -/

/-- The number of braces that are open after these, of `depth` before them; nothing when one
closes that was not opened. -/
def openAfter : Nat → List Brace → Option Nat
  | depth, [] => some depth
  | depth, .template :: bs => openAfter (depth + 1) bs
  | depth, .opens :: bs => openAfter (depth + 1) bs
  | 0, .closes :: _ => none
  | depth + 1, .closes :: bs => openAfter depth bs

theorem openAfter_append (depth : Nat) (bs bs' : List Brace) :
    openAfter depth (bs ++ bs') = (openAfter depth bs).bind (openAfter · bs') := by
  induction bs generalizing depth with
  | nil => rfl
  | cons b bs ih =>
      cases b with
      | template => exact ih (depth + 1)
      | opens => exact ih (depth + 1)
      | closes =>
          cases depth with
          | zero => rfl
          | succ depth => exact ih depth

/-- The braces that are open in the templates, those of the templates themselves too. -/
def openIn (ts : List Template) : Nat := (ts.map fun t => t.inside + 1).sum

/-- The template that was opened in the string `s` on the templates `below` is still open, and
`depth` braces are open inside it. -/
def StillOpen (s : Bool × Nat) (below : List Template) (depth : Nat) (n : Nesting) : Prop :=
  ∃ above inside, n.templates = above ++ ⟨s.1, s.2, inside⟩ :: below ∧ openIn above + inside = depth

/-- One effect on an open template: it stays open, or its brace closes it. -/
theorem Effect.stillOpen {n n' : Nesting} {bs : List Brace} {s : Bool × Nat}
    {below : List Template} {depth : Nat} (effect : Effect n bs n')
    (isOpen : StillOpen s below depth n) :
    (∃ depth', openAfter depth bs = some depth' ∧ StillOpen s below depth' n') ∨
      openAfter depth bs = none ∧ bs = [.closes] ∧ n' = ⟨below, some s⟩ := by
  rcases isOpen with ⟨above, inside, templates, rfl⟩
  cases effect with
  | stay => exact .inl ⟨_, rfl, above, inside, templates, rfl⟩
  | openString => exact .inl ⟨_, rfl, above, inside, templates, rfl⟩
  | closeString => exact .inl ⟨_, rfl, above, inside, templates, rfl⟩
  | uncounted _ => simp at templates
  | openTemplate =>
      rename_i isRaw dollarDepth ts
      refine .inl ⟨_, rfl, ⟨isRaw, dollarDepth, 0⟩ :: above, inside, ?_, ?_⟩
      · simpa using templates
      · simp [openIn]
        omega
  | deepen =>
      rename_i isRaw dollarDepth k ts
      cases above with
      | nil =>
          cases templates
          exact .inl ⟨_, rfl, [], inside + 1, rfl, by simp [openIn]⟩
      | cons t above =>
          cases templates
          refine .inl ⟨_, rfl, ⟨isRaw, dollarDepth, k + 1⟩ :: above, inside, rfl, ?_⟩
          simp [openIn]
          omega
  | leave =>
      rename_i isRaw dollarDepth k ts
      cases above with
      | nil =>
          cases templates
          refine .inl ⟨k, ?_, [], k, rfl, by simp [openIn]⟩
          simp [openIn, openAfter]
      | cons t above =>
          cases templates
          refine .inl ⟨k + 1 + openIn above + inside, ?_, ⟨isRaw, dollarDepth, k⟩ :: above, inside,
            rfl, by simp [openIn]⟩
          have counted : openIn (⟨isRaw, dollarDepth, k + 1⟩ :: above) + inside =
              (k + 1 + openIn above + inside) + 1 := by
            simp [openIn]
            omega
          rw [counted]
          rfl
  | closeTemplate =>
      rename_i isRaw dollarDepth ts
      cases above with
      | nil =>
          cases templates
          exact .inr ⟨rfl, rfl, rfl⟩
      | cons t above =>
          cases templates
          refine .inl ⟨openIn above + inside, ?_, above, inside, rfl, rfl⟩
          have counted : openIn (⟨isRaw, dollarDepth, 0⟩ :: above) + inside =
              (openIn above + inside) + 1 := by
            simp [openIn]
            omega
          rw [counted]
          rfl

/-- The states that scanning steps lead to from `l₁`. -/
inductive Later (U : UnicodeTables) (l₁ : Lexer) : Lexer → Prop where
  | here : Later U l₁ l₁
  | next {l l' : Lexer} : Later U l₁ l → l.reader.isAtEnd = false →
      Returns machine (scanNextToken U) l () l' → Later U l₁ l'

theorem StillOpen.ended {s : Bool × Nat} {below : List Template} {depth : Nat} {n : Nesting}
    (isOpen : StillOpen s below depth n) (c : Prop) [Decidable c] :
    StillOpen s below depth (if c then n.atEnd else n) := by
  by_cases holds : c
  · rw [if_pos holds]
    exact isOpen
  · rw [if_neg holds]
    exact isOpen

/-- While the braces of the tokens since it was opened balance, the template is open. -/
theorem Later.stillOpen {U : UnicodeTables} {l₁ : Lexer} {s : Bool × Nat} {below : List Template}
    (opened : l₁.nesting = Nesting.asStacks ⟨⟨s.1, s.2, 0⟩ :: below, none⟩) (later : Later U l₁ l) :
    ∃ (new : List Token) (n : Nesting), l.tokens = l₁.tokens ++ new ∧ l.nesting = n.asStacks ∧
      ∀ depth, openAfter 0 (bracesOf new) = some depth → StillOpen s below depth n := by
  induction later with
  | here =>
      refine ⟨[], _, by simp, opened, fun depth same => ⟨[], 0, rfl, ?_⟩⟩
      cases same
      rfl
  | next _ goes step ih =>
      rcases ih with ⟨new, n, tokens, nested, stays⟩
      rcases scanNextToken_acts U nested step with ⟨bs, n', ⟨new', tokens', rfl⟩, effect, pictured⟩
      refine ⟨new ++ new', _, by rw [tokens', tokens, List.append_assoc], pictured, ?_⟩
      intro depth balanced
      rw [bracesOf_append, openAfter_append] at balanced
      rcases Option.bind_eq_some_iff.mp balanced with ⟨depth₀, before, after⟩
      rcases effect.stillOpen (stays depth₀ before) with ⟨depth', counted, still⟩ | ⟨closed, -⟩
      · rw [after] at counted
        cases counted
        exact still.ended _
      · rw [closed] at after
        cases after

/-- The step with which the braces stop balancing completes the closing brace of the template, and
leads back to its string. -/
theorem Later.closes {U : UnicodeTables} {l₁ : Lexer} {s : Bool × Nat} {below : List Template}
    (opened : l₁.nesting = Nesting.asStacks ⟨⟨s.1, s.2, 0⟩ :: below, none⟩) (later : Later U l₁ l)
    (step : Returns machine (scanNextToken U) l () l') {new new' : List Token} {depth : Nat}
    (tokens : l.tokens = l₁.tokens ++ new) (tokens' : l'.tokens = l.tokens ++ new')
    (balanced : openAfter 0 (bracesOf new) = some depth)
    (unbalanced : openAfter 0 (bracesOf (new ++ new')) = none) :
    bracesOf new' = [.closes] ∧
      l'.nesting = Nesting.asStacks ⟨below, if l'.reader.isAtEnd then none else some s⟩ := by
  rcases later.stillOpen opened with ⟨_, n, same, nested, stays⟩
  obtain rfl := List.append_cancel_left (tokens.symm.trans same)
  rcases scanNextToken_acts U nested step with ⟨bs, n', ⟨_, same', rfl⟩, effect, pictured⟩
  obtain rfl := List.append_cancel_left (tokens'.symm.trans same')
  rw [bracesOf_append, openAfter_append, balanced] at unbalanced
  rcases effect.stillOpen (stays depth balanced) with ⟨depth', counted, -⟩ | ⟨-, closes, rfl⟩
  · change openAfter depth (bracesOf new') = none at unbalanced
    rw [counted] at unbalanced
    cases unbalanced
  · refine ⟨closes, ?_⟩
    rw [pictured]
    by_cases ended : l'.reader.isAtEnd = true
    · rw [if_pos ended, if_pos ended]
      rfl
    · rw [if_neg ended, if_neg ended]

/-- The step that completes a `${` stands in a string, and opens a template on it. -/
theorem opens_template {U : UnicodeTables} {n : Nesting} {token : Token}
    (nested : l.nesting = n.asStacks) (step : Returns machine (scanNextToken U) l () l')
    (tokens : l'.tokens = l.tokens ++ [token]) (isTemplate : token.kind = .templateExprStart) :
    ∃ s below, n = ⟨below, some s⟩ ∧
      l'.nesting = Nesting.asStacks ⟨⟨s.1, s.2, 0⟩ :: below, none⟩ := by
  rcases scanNextToken_acts U nested step with ⟨bs, n', ⟨new, same, braces⟩, effect, pictured⟩
  obtain rfl := List.append_cancel_left (tokens.symm.trans same)
  have template : bs = [.template] := by
    rw [← braces]
    simp [bracesOf, brace, isTemplate]
  subst template
  cases effect with
  | uncounted other => exact absurd rfl other
  | openTemplate =>
      rename_i isRaw dollarDepth ts
      refine ⟨(isRaw, dollarDepth), ts, rfl, ?_⟩
      rw [pictured]
      split <;> rfl

/-! ### The law -/

/-- At every loop head the stacks are the default mode, a pair of modes for each open template,
which has a positive depth, and perhaps a string; no depth underflows; and a template that `${`
opened stays open exactly while the braces completed since then balance, after which its string
goes on, unless the input is at its end. -/
theorem templates_nest (U : UnicodeTables) (source : Text) :
    (∀ l, LoopHead U source l → ∃ n : Nesting, l.nesting = n.asStacks) ∧
    (∀ l, LoopHead U source l → l.reader.isAtEnd = false →
      ¬ Panics machine (scanNextToken U) l .subtractOverflow) ∧
    ∀ l₀ l₁ token, LoopHead U source l₀ → Returns machine (scanNextToken U) l₀ () l₁ →
      l₁.tokens = l₀.tokens ++ [token] → token.kind = .templateExprStart →
      ∃ s below, l₀.nesting = Nesting.asStacks ⟨below, some s⟩ ∧
        (∀ l new depth, Later U l₁ l → l.tokens = l₁.tokens ++ new →
          openAfter 0 (bracesOf new) = some depth →
            ∃ n : Nesting, l.nesting = n.asStacks ∧ StillOpen s below depth n) ∧
        ∀ l l' new new' depth, Later U l₁ l → Returns machine (scanNextToken U) l () l' →
          l.tokens = l₁.tokens ++ new → l'.tokens = l.tokens ++ new' →
          openAfter 0 (bracesOf new) = some depth →
          openAfter 0 (bracesOf (new ++ new')) = none →
            bracesOf new' = [.closes] ∧
              l'.nesting = Nesting.asStacks ⟨below, if l'.reader.isAtEnd then none else some s⟩ := by
  refine ⟨fun l head => head.nested, fun l head more panics => ?_, ?_⟩
  · have wraps := (scanNextToken_inv head.inv more).of_panics panics
    cases wraps.1
  · intro l₀ l₁ token head step tokens isTemplate
    rcases head.nested with ⟨n, nested⟩
    rcases opens_template nested step tokens isTemplate with ⟨s, below, rfl, opened⟩
    refine ⟨s, below, nested, ?_, ?_⟩
    · intro l new depth later since balanced
      rcases later.stillOpen opened with ⟨_, n, same, pictured, stays⟩
      obtain rfl := List.append_cancel_left (since.symm.trans same)
      exact ⟨n, pictured, stays depth balanced⟩
    · intro l l' new new' depth later step' since since' balanced unbalanced
      exact later.closes opened step' since since' balanced unbalanced

end CaffeineLs.KotlinSyntax
