/-
Module: CaffeineLs.Proofs.JavaLiterals
Purpose: Character literals, strings, text blocks and templates: they get a token exactly when
  they close; what a scanning step of the Java lexer covers and what it loses.
Trusted boundary: none
Main exports: charLiteralCloses, quotedCloses, losesText
-/
import CaffeineLs.Proofs.JavaScanning

namespace CaffeineLs.JavaSyntax

open Imperative
open Imperative.Scanner

/-! ### When a literal closes -/

/-- The text after the opening quote of a character literal closes it before the line ends; an
escape skips a character. -/
def charLiteralCloses : List Char → Bool
  | [] => false
  | c :: rest =>
      if c = '\'' then true
      else if isNewline c then false
      else if c = '\\' then
        match rest with
        | [] => false
        | _ :: rest' => charLiteralCloses rest'
      else charLiteralCloses rest

/-- The closing delimiter of quoted content stands ahead. -/
def closesHere : TemplateKind → List Char → Bool
  | .string, c :: _ => c = '"'
  | .textBlock, c :: d :: e :: _ => c = '"' && d = '"' && e = '"'
  | _, _ => false

/-- Quoted content ends: its closing delimiter or an embedded expression comes, in a string before
the line ends; an escape skips a character. -/
def quotedCloses (kind : TemplateKind) : List Char → Bool
  | [] => false
  | c :: rest =>
      if closesHere kind (c :: rest) then true
      else if !kind.allowsNewline && isNewline c then false
      else if c = '\\' then
        match rest with
        | [] => false
        | d :: rest' => if d = '{' then true else quotedCloses kind rest'
      else quotedCloses kind rest

section Quoted

open LogicalLexer

variable {α : Type}

/-- The characters of a text. -/
def charsOf (rest : List LogicalChar) : List Char := rest.map LogicalChar.char

@[simp] theorem charsOf_nil : charsOf [] = [] := rfl

@[simp] theorem charsOf_cons (lc : LogicalChar) (rest : List LogicalChar) :
    charsOf (lc :: rest) = lc.char :: charsOf rest := rfl

theorem look_eq_cons {rest : List LogicalChar} {c : Char} (sees : look rest 0 = c) (more : rest ≠ []) :
    ∃ lc cs, rest = lc :: cs ∧ lc.char = c := by
  rcases List.exists_cons_of_ne_nil more with ⟨lc, cs, rfl⟩
  exact ⟨lc, cs, rfl, sees⟩

theorem octal_plain {c : Char} (octal : isOctalDigit c = true) :
    c ≠ '\'' ∧ c ≠ '"' ∧ c ≠ '\\' ∧ isNewline c = false := by
  refine ⟨?_, ?_, ?_, ?_⟩
  · rintro rfl
    exact absurd octal (by decide)
  · rintro rfl
    exact absurd octal (by decide)
  · rintro rfl
    exact absurd octal (by decide)
  · simp only [isNewline, Bool.or_eq_false_iff, decide_eq_false_iff_not]
    constructor <;> rintro rfl <;> exact absurd octal (by decide)

/-- An escape sequence consumes a backslash, the character after it and perhaps octal digits; a
predicate that octal digits do not change holds after it as it does two characters on. -/
theorem consumeEscapeSequence_scans (f : List Char → Bool)
    (octal : ∀ c rest, isOctalDigit c = true → f (c :: rest) = f rest) (isTextBlock : Bool)
    (b : Bool) (n : Nat) :
    Scans (fun rest => rest ≠ [] ∧ rest.length ≤ n ∧ f (charsOf rest.tail.tail) = b)
      (consumeEscapeSequence isTextBlock) fun _ rest => rest.length < n ∧ f (charsOf rest) = b := by
  have leave : ∀ {a : Bool}, Scans (fun rest => rest.length < n ∧ f (charsOf rest) = b)
      (pure a : Lex Bool) fun _ rest => rest.length < n ∧ f (charsOf rest) = b :=
    walks_pure fun _ holds => ⟨rfl, holds⟩
  have digit : ∀ {c : Char} {k : Char → Lex Bool}, isOctalDigit c = true →
      (∀ c, Scans (fun rest => rest.length < n ∧ f (charsOf rest) = b) (k c)
        fun _ rest => rest.length < n ∧ f (charsOf rest) = b) →
      Scans (fun rest => (rest.length < n ∧ f (charsOf rest) = b) ∧ look rest 0 = c)
        (advance >>= k) fun _ rest => rest.length < n ∧ f (charsOf rest) = b := by
    intro c k isOctal others
    apply walks_advance
    · intro rest ⟨_, sees⟩
      apply ne_nil_of_look sees
      rintro rfl
      exact absurd isOctal (by decide)
    · intro c'
      apply (others c').strengthen
      intro rest ⟨lc, _, ⟨short, ends⟩, sees⟩
      have same : lc.char = c := sees
      rw [charsOf_cons, octal lc.char _ (by rw [same]; exact isOctal)] at ends
      simp only [List.length_cons] at short
      exact ⟨by omega, ends⟩
  apply walks_advance fun rest holds => holds.1
  intro backslash
  apply walks_isAtEnd
  · apply walks_pure
    intro t ⟨⟨lc, _, _, short, ends⟩, ended⟩
    rw [ended] at short ends
    exact ⟨rfl, by rw [ended]; exact ⟨short, ends⟩⟩
  · apply walks_peek
    intro c
    have second : ∀ {k : Char → Lex Bool}, (∀ c, Scans
        (fun rest => rest.length < n ∧ f (charsOf rest) = b) (k c)
        fun _ rest => rest.length < n ∧ f (charsOf rest) = b) →
        Scans (fun rest => ((∃ lc : LogicalChar, lc.char = backslash ∧ lc :: rest ≠ [] ∧
          (lc :: rest).length ≤ n ∧ f (charsOf (lc :: rest).tail.tail) = b) ∧ rest ≠ []) ∧
            look rest 0 = c) (advance >>= k)
          fun _ rest => rest.length < n ∧ f (charsOf rest) = b := by
      intro k others
      apply walks_advance fun rest holds => holds.1.2
      intro c'
      apply (others c').strengthen
      intro rest ⟨lc, _, ⟨⟨lc', _, _, short, ends⟩, _⟩, _⟩
      simp only [List.length_cons] at short
      exact ⟨by omega, ends⟩
    apply walks_ite fun _ => second fun _ => leave
    intro _
    apply walks_ite fun _ => second fun _ => leave
    intro _
    apply walks_ite
    · intro isOctal
      apply second
      intro firstDigit
      apply walks_peek
      intro c'
      have stop : ∀ {c : Char}, Scans
          (fun rest => (rest.length < n ∧ f (charsOf rest) = b) ∧ look rest 0 = c)
          (pure true : Lex Bool) fun _ rest => rest.length < n ∧ f (charsOf rest) = b :=
        walks_pure fun _ holds => ⟨rfl, holds.1⟩
      apply walks_ite _ fun _ => stop
      intro isOctal'
      apply digit isOctal'
      intro _
      apply walks_ite _ fun _ => leave
      intro _
      apply walks_peek
      intro c''
      apply walks_ite _ fun _ => stop
      exact fun isOctal'' => digit isOctal'' fun _ => leave
    · exact fun _ => second fun _ => leave

/-! #### Character literals -/

theorem charLiteralCloses_cons (c : Char) (rest : List Char) :
    charLiteralCloses (c :: rest) =
      if c = '\'' then true
      else if isNewline c then false
      else if c = '\\' then charLiteralCloses rest.tail
      else charLiteralCloses rest := by
  rw [charLiteralCloses.eq_def]
  cases rest <;> rfl

theorem charLiteralCloses_octal (c : Char) (rest : List Char) (octal : isOctalDigit c = true) :
    charLiteralCloses (c :: rest) = charLiteralCloses rest := by
  have plain := octal_plain octal
  rw [charLiteralCloses_cons, if_neg plain.1, if_neg (by simp [plain.2.2.2]), if_neg plain.2.2.1]

/-- What the round that leaves the loop of a character literal has found. -/
def CharLeft (b : Bool) (left : Option (Nat × Bool)) (rest : List LogicalChar) : Prop :=
  match left with
  | none => b = false
  | some _ => (b = true ↔ rest ≠ [])

theorem charRound_walks (b : Bool) (carried : Nat × Bool) (ahead : List LogicalChar)
    (closes : charLiteralCloses (charsOf ahead) = b) :
    Scans (· = ahead) (charRound carried) fun r rest =>
      match r with
      | .inl _ => charLiteralCloses (charsOf rest) = b ∧ rest.length < ahead.length
      | .inr left => CharLeft b left rest := by
  rcases carried with ⟨logicalCharCount, hasError⟩
  apply walks_isAtEnd
  · apply walks_pure
    intro t ⟨same, ended⟩
    refine ⟨rfl, ?_⟩
    rw [← same, ended] at closes
    simp [CharLeft, ended, ← closes, charLiteralCloses]
  · apply walks_peek
    intro c
    have start : ∀ rest : List LogicalChar, (rest = ahead ∧ rest ≠ []) ∧ look rest 0 = c →
        ∃ lc cs, ahead = lc :: cs ∧ lc.char = c := by
      intro rest ⟨⟨same, more⟩, sees⟩
      rw [← same]
      exact look_eq_cons sees more
    apply walks_ite
    · intro quote
      apply walks_pure
      intro t holds
      rcases start _ holds with ⟨lc, cs, rfl, sees⟩
      refine ⟨rfl, ?_⟩
      rw [charsOf_cons, sees, quote, charLiteralCloses_cons, if_pos rfl] at closes
      simpa [CharLeft, ← closes] using holds.1.2
    · intro noQuote
      apply walks_ite
      · intro newline
        apply walks_idle idle_reportError
        intro _
        apply walks_pure
        intro t holds
        rcases start _ holds with ⟨lc, cs, rfl, sees⟩
        refine ⟨rfl, ?_⟩
        rw [charsOf_cons, sees, charLiteralCloses_cons, if_neg noQuote, if_pos newline] at closes
        exact closes.symm
      · intro noNewline
        apply walks_ite
        · intro backslash
          have escaped : Scans (fun rest => (rest = ahead ∧ rest ≠ []) ∧ look rest 0 = c)
              (consumeEscapeSequence false) fun _ rest =>
                rest.length < ahead.length ∧ charLiteralCloses (charsOf rest) = b := by
            apply (consumeEscapeSequence_scans charLiteralCloses charLiteralCloses_octal false b
              ahead.length).strengthen
            intro rest holds
            rcases start _ holds with ⟨lc, cs, split, sees⟩
            have same : rest = ahead := holds.1.1
            subst same
            refine ⟨holds.1.2, Nat.le_refl _, ?_⟩
            rw [split, charsOf_cons, sees, charLiteralCloses_cons, if_neg noQuote, if_neg noNewline,
              if_pos backslash] at closes
            rw [← closes, split]
            simp [charsOf]
          apply walks_bind escaped
          intro isValid
          apply walks_ite
          · exact fun _ => walks_pure fun _ holds => ⟨rfl, holds.2, holds.1⟩
          · exact fun _ => walks_idle idle_reportError fun _ =>
              walks_pure fun _ holds => ⟨rfl, holds.2, holds.1⟩
        · intro noBackslash
          apply walks_advance fun rest holds => holds.1.2
          intro c'
          apply walks_pure
          intro t ⟨lc, _, ⟨same, _⟩, sees⟩
          have sees' : lc.char = c := sees
          refine ⟨rfl, ?_⟩
          rw [← same, charsOf_cons, sees', charLiteralCloses_cons, if_neg noQuote, if_neg noNewline,
            if_neg noBackslash] at closes
          exact ⟨closes, by rw [← same]; simp⟩

/-- A character literal gets its token exactly when it closes. -/
theorem handleCharLiteral_walks (b : Bool) :
    Walks (fun rest => charLiteralCloses (charsOf rest) = b) handleCharLiteral fun _ t new =>
      if b then Covered t new else new = [] := by
  have looped : Scans (fun rest => charLiteralCloses (charsOf rest) = b)
      (.loop charRound (0, false) .pure) (CharLeft b) := by
    apply walks_loop (fun _ rest => charLiteralCloses (charsOf rest) = b) _ fun _ closes => closes
    intro carried ahead closes
    apply (charRound_walks b carried ahead closes).mono fun _ same => same
    intro r t new ends
    cases r with
    | inl carried' => exact ends
    | inr left => exact ends
  apply walks_bind looped
  intro left
  cases left with
  | none =>
      apply walks_pure
      intro t holds
      have never : b = false := holds
      simp [never]
  | some carried =>
      rcases carried with ⟨logicalCharCount, hasError⟩
      apply walks_isAtEnd
      · have never : ∀ rest : List LogicalChar,
            (CharLeft b (some (logicalCharCount, hasError)) rest ∧ rest = []) → b = false := by
          intro rest ⟨closes, ended⟩
          have closes' : b = true ↔ rest ≠ [] := closes
          simpa [ended] using closes'
        intro t holds
        apply (idle_reportError t).mono
        intro _ t' same
        exact ⟨[], same.reaches, by simp [never _ holds]⟩
      · have closed : Completes (do
            let _ ← advance
            reportIf (!hasError && logicalCharCount ≠ 1) .invalidChar
            completeToken .charLiteral) := by
          apply completes_bind passes_advance
          intro _
          exact completes_bind idle_reportIf.passes fun _ => completes_token
        intro t holds
        have always : b = true := holds.1.mpr holds.2
        apply (closed t trivial).mono
        intro _ t' ⟨new, reaches, covered⟩
        exact ⟨new, reaches, by simpa [always] using covered⟩

/-! #### Strings, text blocks and templates -/

theorem quotedCloses_cons (kind : TemplateKind) (c : Char) (rest : List Char) :
    quotedCloses kind (c :: rest) =
      if closesHere kind (c :: rest) then true
      else if !kind.allowsNewline && isNewline c then false
      else if c = '\\' then
        if rest.headD '\x00' = '{' then true else quotedCloses kind rest.tail
      else quotedCloses kind rest := by
  rw [quotedCloses.eq_def]
  cases rest <;> rfl

theorem closesHere_of_other {kind : TemplateKind} {c : Char} (rest : List Char) (other : c ≠ '"') :
    closesHere kind (c :: rest) = false := by
  cases kind with
  | string => simp [closesHere, other]
  | textBlock =>
      rcases rest with _ | ⟨d, _ | ⟨e, rest⟩⟩
      · rfl
      · rfl
      · simp [closesHere, other]

theorem quotedCloses_octal (kind : TemplateKind) (c : Char) (rest : List Char)
    (octal : isOctalDigit c = true) : quotedCloses kind (c :: rest) = quotedCloses kind rest := by
  have plain := octal_plain octal
  rw [quotedCloses_cons, closesHere_of_other rest plain.2.1, if_neg (by simp),
    if_neg (by simp [plain.2.2.2]), if_neg plain.2.2.1]

theorem closesHere_string (ahead : List LogicalChar) :
    closesHere .string (charsOf ahead) = decide (look ahead 0 = '"') := by
  cases ahead <;> rfl

theorem closesHere_textBlock (ahead : List LogicalChar) :
    closesHere .textBlock (charsOf ahead) =
      (decide (look ahead 0 = '"') && decide (look ahead 1 = '"') && decide (look ahead 2 = '"')) := by
  rcases ahead with _ | ⟨a, _ | ⟨b, _ | ⟨c, rest⟩⟩⟩
  · rfl
  · simp [closesHere]
  · simp [closesHere]
  · rfl

theorem isTemplateClose_scans (kind : TemplateKind) (ahead : List LogicalChar) :
    Scans (· = ahead) (isTemplateClose kind) fun close rest =>
      rest = ahead ∧ close = closesHere kind (charsOf ahead) := by
  cases kind with
  | string =>
      apply walks_peek
      intro c
      apply walks_pure
      intro t ⟨same, sees⟩
      rw [same] at sees
      exact ⟨rfl, same, by rw [closesHere_string, sees]⟩
  | textBlock =>
      apply walks_peek
      intro c
      apply walks_ite
      · intro first
        apply walks_peekN
        intro d
        apply walks_ite
        · intro second
          apply walks_peekN
          intro e
          apply walks_pure
          intro t ⟨⟨⟨same, sees⟩, sees'⟩, sees''⟩
          rw [same] at sees sees' sees''
          exact ⟨rfl, same, by rw [closesHere_textBlock, sees, sees', sees'', first, second]; simp⟩
        · intro noSecond
          apply walks_pure
          intro t ⟨⟨same, _⟩, sees'⟩
          rw [same] at sees'
          exact ⟨rfl, same, by rw [closesHere_textBlock, sees']; simp [noSecond]⟩
      · intro noFirst
        apply walks_pure
        intro t ⟨same, sees⟩
        rw [same] at sees
        exact ⟨rfl, same, by rw [closesHere_textBlock, sees]; simp [noFirst]⟩

theorem consumeTemplateClose_passes (kind : TemplateKind) : Passes (consumeTemplateClose kind) := by
  cases kind with
  | string => exact passes_bind passes_advance fun _ => passes_pure
  | textBlock =>
      apply passes_bind passes_advance
      intro _
      apply passes_bind passes_advance
      intro _
      exact passes_bind passes_advance fun _ => passes_pure

theorem emitQuotedTerminalToken_completes (kind : TemplateKind) (role : TemplateChunkRole) :
    Completes (emitQuotedTerminalToken kind role) := by
  cases role with
  | fullLiteral => exact completes_token
  | continuation =>
      apply completes_bind idle_getTemplates.passes
      intro templates
      apply completes_ite _ completes_token
      exact completes_bind idle_setMode.passes fun _ => completes_token

theorem openTemplate_completes (kind : TemplateKind) (role : TemplateChunkRole) :
    Completes (openTemplate kind role) := by
  have emits : Completes (emitTemplateOpenToken kind role) := by
    cases role <;> exact completes_token
  apply completes_bind passes_advance
  intro _
  apply completes_bind passes_advance
  intro _
  exact walks_then_idle emits (fun _ => idle_bind idle_getTemplates fun _ => idle_setTemplates)
    fun _ _ _ => Covered.same

theorem reportLineEnd_idle (role : TemplateChunkRole) : Idle (reportLineEnd role) := by
  cases role with
  | fullLiteral => exact idle_reportError
  | continuation => exact idle_bind idle_reportError fun _ => idle_setMode

theorem reportUnterminated_idle (kind : TemplateKind) (role : TemplateChunkRole) :
    Idle (reportUnterminated kind role) := by
  cases role with
  | fullLiteral => cases kind <;> exact idle_reportError
  | continuation => cases kind <;> exact idle_bind idle_reportError fun _ => idle_setMode

/-- The token of quoted content, if it closes. -/
def CoveredIf (b : Bool) (t : LogicalLexer) (new : List Token) : Prop :=
  if b then Covered t new else new = []

theorem CoveredIf.same {b : Bool} {t t' : LogicalLexer} {new : List Token} (same : t.Same t')
    (covered : CoveredIf b t new) : CoveredIf b t' new := by
  cases b with
  | true => exact Covered.same same covered
  | false => exact covered

theorem walks_completed (kind : TemplateKind) {b : Bool} (ahead : List LogicalChar)
    {pre : List LogicalChar → Prop} {x : Lex Unit} (always : b = true) (completes : Completes x) :
    Walks pre (x >>= fun _ => pure (.inr false : Unit ⊕ Bool)) fun r t new =>
      match r with
      | .inl _ => new = [] ∧ quotedCloses kind (charsOf t.rest) = b ∧ t.rest.length < ahead.length
      | .inr _ => CoveredIf b t new := by
  apply walks_map
  apply completes.mono fun _ _ => trivial
  intro _ t new covered
  simpa [CoveredIf, always] using covered

theorem quotedRound_walks (kind : TemplateKind) (role : TemplateChunkRole) (b : Bool)
    (u : Unit) (ahead : List LogicalChar) (closes : quotedCloses kind (charsOf ahead) = b) :
    Walks (· = ahead) (quotedRound kind role u) fun r t new =>
      match r with
      | .inl _ => new = [] ∧ quotedCloses kind (charsOf t.rest) = b ∧ t.rest.length < ahead.length
      | .inr _ => CoveredIf b t new := by
  apply walks_isAtEnd
  · apply walks_pure
    rintro t ⟨same, ended⟩
    rw [← same, ended] at closes
    simp [CoveredIf, ← closes, quotedCloses]
  · have reads : Scans (fun rest => rest = ahead ∧ rest ≠ []) (isTemplateClose kind)
        fun close rest => (rest = ahead ∧ rest ≠ []) ∧ close = closesHere kind (charsOf ahead) := by
      rintro t ⟨same, more⟩
      apply (isTemplateClose_scans kind ahead t same).mono
      rintro close t' ⟨new, reaches, nothing, same', closed⟩
      refine ⟨new, reaches, nothing, ⟨same', ?_⟩, closed⟩
      rw [same', ← same]
      exact more
    apply walks_bind reads
    intro close
    apply walks_ite
    · rintro closed t ⟨⟨same, more⟩, here⟩
      have always : b = true := by
        rcases List.exists_cons_of_ne_nil more with ⟨lc, cs, split⟩
        rw [← same, split, charsOf_cons, quotedCloses_cons, ← charsOf_cons, ← split, same, ← here,
          closed] at closes
        simpa using closes.symm
      exact walks_bind (consumeTemplateClose_passes kind)
        (fun _ => walks_completed kind ahead always (emitQuotedTerminalToken_completes kind role)) t trivial
    · intro open_
      apply walks_peek
      intro c
      have start : ∀ rest : List LogicalChar, (((rest = ahead ∧ rest ≠ []) ∧
          close = closesHere kind (charsOf ahead)) ∧ look rest 0 = c) →
          ∃ lc cs, ahead = lc :: cs ∧ lc.char = c ∧
            (if !kind.allowsNewline && isNewline c then false
              else if c = '\\' then
                if look ahead 1 = '{' then true else quotedCloses kind (charsOf ahead.tail.tail)
              else quotedCloses kind (charsOf ahead.tail)) = b := by
        rintro rest ⟨⟨⟨same, more⟩, here⟩, sees⟩
        rcases look_eq_cons sees more with ⟨lc, cs, split, char⟩
        rw [same] at split
        refine ⟨lc, cs, split, char, ?_⟩
        rw [split, charsOf_cons, quotedCloses_cons, ← charsOf_cons, ← split, ← here,
          if_neg open_, char] at closes
        rw [← closes, split]
        cases cs <;> simp [look, charsOf]
      apply walks_ite
      · intro newline
        apply walks_idle (reportLineEnd_idle role)
        intro _
        apply walks_pure
        intro t holds
        rcases start _ holds with ⟨lc, cs, _, _, never⟩
        rw [if_pos newline] at never
        simp [CoveredIf, ← never]
      · intro noNewline
        apply walks_ite
        · intro backslash
          apply walks_peekN
          intro d
          apply walks_ite
          · intro brace t holds
            rcases start _ holds.1 with ⟨lc, cs, _, _, always⟩
            have same : t.rest = ahead := holds.1.1.1.1
            have sees : look t.rest 1 = d := holds.2
            rw [if_neg noNewline, if_pos backslash, ← same, sees, if_pos brace] at always
            have emitted : Walks Anywhere (openTemplate kind role >>= fun _ =>
                pure (.inr false : Unit ⊕ Bool)) _ :=
              walks_completed kind ahead always.symm (openTemplate_completes kind role)
            exact emitted t trivial
          · intro noBrace
            have escaped : Scans (fun rest => (((rest = ahead ∧ rest ≠ []) ∧
                close = closesHere kind (charsOf ahead)) ∧ look rest 0 = c) ∧ look rest 1 = d)
                (consumeEscapeSequence (kind = .textBlock)) fun _ rest =>
                  rest.length < ahead.length ∧ quotedCloses kind (charsOf rest) = b := by
              apply (consumeEscapeSequence_scans (quotedCloses kind) (quotedCloses_octal kind) _ b
                ahead.length).strengthen
              intro rest holds
              rcases start _ holds.1 with ⟨lc, cs, split, sees, later⟩
              have same : rest = ahead := holds.1.1.1.1
              have sees' : look rest 1 = d := holds.2
              rw [if_neg noNewline, if_pos backslash, ← same, sees', if_neg noBrace] at later
              exact ⟨holds.1.1.1.2, Nat.le_of_eq (congrArg _ same), later⟩
            apply walks_bind escaped
            intro isValid
            apply walks_idle idle_reportIf
            intro _
            exact walks_pure fun _ holds => ⟨rfl, holds.2, holds.1⟩
        · intro noBackslash
          apply walks_advance fun rest holds => holds.1.1.2
          intro c'
          apply walks_pure
          rintro t ⟨lc, _, holds⟩
          rcases start _ holds with ⟨lc', cs, split, _, later⟩
          have same : lc :: t.rest = ahead := holds.1.1.1
          rw [if_neg noNewline, if_neg noBackslash, ← same] at later
          exact ⟨rfl, later, by rw [← same]; simp⟩

/-- Skipping the blanks after the opening delimiter of a text block changes nothing. -/
theorem scanTextBlockOpen_scans (b : Bool) :
    Scans (fun rest => quotedCloses .textBlock (charsOf rest) = b) scanTextBlockOpen
      fun _ rest => quotedCloses .textBlock (charsOf rest) = b := by
  have blanks : Scans (fun rest => quotedCloses .textBlock (charsOf rest) = b)
      (advanceWhile fun c => c = ' ' || c = '\t' || c = '\x0c')
      fun _ rest => quotedCloses .textBlock (charsOf rest) = b := by
    apply walks_loop (fun _ rest => quotedCloses .textBlock (charsOf rest) = b) _
      fun _ closes => closes
    intro _ ahead closes
    apply walks_peek
    intro c
    apply walks_ite
    · intro blank
      have plain : c ≠ '\x00' ∧ c ≠ '"' ∧ c ≠ '\\' := by
        simp only [Bool.or_eq_true, decide_eq_true_eq] at blank
        rcases blank with (rfl | rfl) | rfl <;> decide
      apply walks_advance fun rest holds => ne_nil_of_look holds.2 plain.1
      intro c'
      apply walks_pure
      intro t ⟨lc, _, same, sees⟩
      have char : lc.char = c := sees
      rw [← same, charsOf_cons, char, quotedCloses_cons, closesHere_of_other _ plain.2.1,
        if_neg (by simp), if_neg (by simp [TemplateKind.allowsNewline]), if_neg plain.2.2] at closes
      exact ⟨rfl, closes, by rw [← same]; simp⟩
    · intro _
      exact walks_pure fun t holds => ⟨rfl, by rw [holds.1]; exact closes⟩
  apply walks_bind blanks
  intro _
  apply walks_peek
  intro nextChar t holds
  apply (idle_reportIf t).mono
  intro _ t' same
  refine ⟨[], same.reaches, rfl, ?_⟩
  rw [show scanner.rest t' = t.rest from same.2.2.1]
  exact holds.1

/-- Quoted content gets its token exactly when it closes. -/
theorem scanQuotedContent_walks (kind : TemplateKind) (role : TemplateChunkRole) (b : Bool) :
    Walks (fun rest => quotedCloses kind (charsOf rest) = b) (scanQuotedContent kind role)
      fun _ => CoveredIf b := by
  have looped : Walks (fun rest => quotedCloses kind (charsOf rest) = b)
      (.loop (quotedRound kind role) () .pure) fun _ => CoveredIf b := by
    apply walks_loop (fun _ rest => quotedCloses kind (charsOf rest) = b) _ fun _ closes => closes
    intro u ahead closes
    apply (quotedRound_walks kind role b u ahead closes).mono fun _ same => same
    intro r t new ends
    cases r <;> exact ends
  have content : Walks (fun rest => quotedCloses kind (charsOf rest) = b) (do
      if ← .loop (quotedRound kind role) () .pure then
        reportUnterminated kind role) fun _ => CoveredIf b := by
    apply walks_then_idle looped _ fun _ _ _ => CoveredIf.same
    intro ended
    split
    · exact reportUnterminated_idle kind role
    · exact idle_pure
  rw [scanQuotedContent]
  split
  · rename_i opens
    have textBlock : kind = .textBlock := by
      simp only [Bool.and_eq_true, decide_eq_true_eq] at opens
      exact opens.1
    subst textBlock
    exact walks_bind (scanTextBlockOpen_scans b) fun _ => content
  · exact content

end Quoted

/-! ### A scanning step -/

/-- The text ahead starts with something that gets no token: a SUB character, or a literal that
does not close. -/
def losesText (templates : Templates) : List LogicalChar → Bool
  | [] => false
  | lc :: rest =>
      if lc.char = '\x1a' then true
      else if lc.char = '\'' then !charLiteralCloses (charsOf rest)
      else if lc.char = '"' then
        if (RawText.quotes.text.map LogicalChar.plain).isPrefixOf rest then
          !quotedCloses .textBlock (charsOf (rest.drop 2))
        else
          !quotedCloses .string (charsOf rest)
      else if lc.char = '}' then
        match templates.mode, templates.templateStack with
        | .templateExpression, ctx :: _ =>
            ctx.braceDepth = 0 && !quotedCloses ctx.kind (charsOf rest)
        | _, _ => false
      else false

section Step

open LogicalLexer

variable (U : UnicodeTables)

/-- The routine ends the token begun before `t`: it covers it when `b`, and else loses it. -/
def Ends (b : Bool) (x : Lex Unit) (t : LogicalLexer) : Prop :=
  Wp logicalMachine (Wraps t.size) x (fun _ t' => ∃ new, t.Reaches new t' ∧ CoveredIf b t' new) t

variable {b : Bool} {t : LogicalLexer}

theorem Completes.ends {x : Lex Unit} (completes : Completes x) : Ends true x t :=
  completes t trivial

theorem ends_ite {c : Prop} [Decidable c] {x y : Lex Unit} (yes : c → Ends b x t)
    (no : ¬ c → Ends b y t) : Ends b (if c then x else y) t := by
  split
  · exact yes ‹_›
  · exact no ‹_›

/-- The same for a routine that consumes something. -/
def EndsFurther (b : Bool) (x : Lex Unit) (t : LogicalLexer) : Prop :=
  Wp logicalMachine (Wraps t.size) x (fun _ t' => ∃ new, t.Reaches new t' ∧
    t'.rest.length < t.rest.length ∧ CoveredIf b t' new) t

theorem Ends.after_advance {lc : LogicalChar} {cs : List LogicalChar} {k : Char → Lex Unit}
    (rest : t.rest = lc :: cs) (others : ∀ t', t'.lexeme = t.lexeme ++ [lc] → t'.rest = cs →
      t'.templates = t.templates → Ends b (k lc.char) t') : EndsFurther b (advance >>= k) t := by
  apply wp_advance rest
  intro t' before lexeme rest' tokens templates
  apply (others t' lexeme rest' templates).mono
  intro _ t'' ⟨new, ⟨before', ⟨consumed, lexeme', rest''⟩, tokens'⟩, covered⟩
  have whole : t.rest = (lc :: consumed) ++ t''.rest := by
    rw [rest, ← rest', rest'', List.cons_append]
  refine ⟨new, ⟨before'.trans before, ⟨lc :: consumed, by simp [lexeme', lexeme], whole⟩,
    by rw [tokens', tokens]⟩, ?_, covered⟩
  rw [whole, List.length_append, List.length_cons]
  omega

theorem EndsFurther.after_idle {α : Type} {x : Lex α} {k : α → Lex Unit} (idle : Idle x)
    (others : ∀ a t', t'.rest = t.rest → EndsFurther b (k a) t') : EndsFurther b (x >>= k) t := by
  apply wp_bind.mpr
  apply (idle t).mono
  intro a t' same
  apply ((others a t' same.2.2.1).mono_bad fun e => scanner.bad_of same.reaches).mono
  intro _ t'' ⟨new, reaches, shorter, covered⟩
  exact ⟨new, scanner.trans same.reaches reaches, same.2.2.1 ▸ shorter, covered⟩

theorem handleSub_ends : Ends false handleSub t := by
  have idle : Idle handleSub := by
    intro t
    apply wp_isAtEnd.mpr
    split
    · exact idle_reportError t
    · exact idle_pure t
  apply (idle t).mono
  intro _ t' same
  exact ⟨[], same.reaches, rfl⟩

theorem handleQuote_ends : Ends (
    if (RawText.quotes.text.map LogicalChar.plain).isPrefixOf t.rest then
      quotedCloses .textBlock (charsOf (t.rest.drop 2))
    else
      quotedCloses .string (charsOf t.rest)) handleQuote t := by
  apply wp_advanceIfMatchesStr.mpr
  rw [isAtRaw]
  split
  · have moved : t.Reaches [] (t.move RawText.quotes.text.length t.escapeErrors) := move_reaches
    have scanned := scanQuotedContent_walks .textBlock .fullLiteral _
      (t.move RawText.quotes.text.length t.escapeErrors) rfl
    apply (scanned.mono_bad fun e => scanner.bad_of moved).mono
    rintro _ t' ⟨new, reaches, covered⟩
    exact ⟨new, scanner.trans moved reaches, covered⟩
  · exact scanQuotedContent_walks .string .fullLiteral _ t rfl

theorem losesText_rightBrace {templates : Templates} {lc : LogicalChar} {rest : List LogicalChar}
    (brace : lc.char = '}') : losesText templates (lc :: rest) =
      match templates.mode, templates.templateStack with
      | .templateExpression, ctx :: _ =>
          decide (ctx.braceDepth = 0) && !quotedCloses ctx.kind (charsOf rest)
      | _, _ => false := by
  rw [losesText, if_neg (by rw [brace]; decide), if_neg (by rw [brace]; decide),
    if_neg (by rw [brace]; decide), if_pos brace]

theorem losesText_of_other {templates : Templates} {lc : LogicalChar} {rest : List LogicalChar}
    (sub : lc.char ≠ '\x1a') (quote : lc.char ≠ '\'') (doubleQuote : lc.char ≠ '"')
    (brace : lc.char ≠ '}') : losesText templates (lc :: rest) = false := by
  rw [losesText, if_neg sub, if_neg quote, if_neg doubleQuote, if_neg brace]

/-- A brace that is nothing but a brace. -/
theorem brace_ends {tokenType : SyntaxKind} (more : t.rest ≠ []) :
    EndsFurther true (advance >>= fun _ => completeToken tokenType) t := by
  rcases List.exists_cons_of_ne_nil more with ⟨lc, cs, rest⟩
  exact Ends.after_advance rest fun _ _ _ _ => completes_token.ends

theorem handleLeftBrace_ends (more : t.rest ≠ []) : EndsFurther true handleLeftBrace t := by
  apply EndsFurther.after_idle idle_getTemplates
  intro templates t' rest
  split
  · apply EndsFurther.after_idle idle_setTemplates
    intro _ t'' rest'
    exact brace_ends (by rw [rest', rest]; exact more)
  · exact brace_ends (by rw [rest]; exact more)

theorem handleRightBrace_ends {lc : LogicalChar} {cs : List LogicalChar} (rest : t.rest = lc :: cs)
    (brace : lc.char = '}') :
    EndsFurther (!losesText t.templates t.rest) handleRightBrace t := by
  have more : t.rest ≠ [] := by simp [rest]
  rw [show losesText t.templates t.rest = _ from rest ▸ losesText_rightBrace brace]
  apply wp_getTemplates.mpr
  split
  · rename_i mode
    rw [mode]
    exact brace_ends more
  · rename_i mode stack
    rw [mode, stack]
    apply EndsFurther.after_idle idle_setMode
    intro _ t' rest'
    exact brace_ends (by rw [rest']; exact more)
  · rename_i ctx outer mode stack
    rw [mode, stack]
    change EndsFurther (!(decide (ctx.braceDepth = 0) && !quotedCloses ctx.kind (charsOf cs))) _ t
    by_cases deep : ctx.braceDepth > 0
    · rw [if_pos deep, decide_eq_false (by omega), Bool.false_and]
      apply EndsFurther.after_idle idle_setTemplates
      intro _ t' rest'
      exact brace_ends (by rw [rest']; exact more)
    · rw [if_neg deep, decide_eq_true (by omega), Bool.true_and, Bool.not_not]
      apply Ends.after_advance rest
      intro t' lexeme rest' templates
      have popped : Idle (setTemplates { mode := .templateExpression, templateStack := outer }) :=
        idle_setTemplates
      have resumed := walks_idle popped fun _ =>
        scanQuotedContent_walks ctx.kind .continuation (quotedCloses ctx.kind (charsOf cs))
      exact resumed t' (by rw [← rest']; rfl)

/-- The character a handler was chosen for is the whole lexeme so far. -/
theorem dispatchConsumed_ends {lc : LogicalChar} (lexeme : t.lexeme = [lc])
    (brace : lc.char ≠ '}') : Ends (!losesText t.templates (lc :: t.rest))
      (dispatchConsumed U lc.char) t := by
  by_cases quote : lc.char = '\''
  · have loses : losesText t.templates (lc :: t.rest) = !charLiteralCloses (charsOf t.rest) := by
      rw [losesText, if_neg (by rw [quote]; decide), if_pos quote]
    rw [loses, Bool.not_not, quote]
    exact handleCharLiteral_walks _ t rfl
  by_cases doubleQuote : lc.char = '"'
  · have loses : losesText t.templates (lc :: t.rest) =
        !(if (RawText.quotes.text.map LogicalChar.plain).isPrefixOf t.rest then
          quotedCloses .textBlock (charsOf (t.rest.drop 2))
        else
          quotedCloses .string (charsOf t.rest)) := by
      rw [losesText, if_neg (by rw [doubleQuote]; decide), if_neg quote, if_pos doubleQuote]
      split <;> rfl
    rw [loses, Bool.not_not, doubleQuote]
    exact handleQuote_ends
  by_cases sub : lc.char = '\x1a'
  · rw [losesText, if_pos sub, sub]
    exact handleSub_ends
  rw [losesText_of_other sub quote doubleQuote brace, dispatchConsumed]
  have token : ∀ {c : Prop} {tokenType : SyntaxKind}, c → Ends true (completeToken tokenType) t :=
    fun _ => completes_token.ends
  have operator : ∀ {c : Prop} {continuations : List (Char × SyntaxKind)} {alone : SyntaxKind},
      c → Ends true (handleOperator continuations alone) t :=
    fun _ => (handleOperator_completes _ _).ends
  apply ends_ite token; intro _
  apply ends_ite token; intro _
  apply ends_ite token; intro _
  apply ends_ite token; intro _
  apply ends_ite token; intro _
  apply ends_ite token; intro _
  apply ends_ite operator; intro _
  apply ends_ite token; intro _
  apply ends_ite token; intro _
  apply ends_ite operator; intro _
  apply ends_ite operator; intro _
  apply ends_ite operator; intro _
  apply ends_ite operator; intro _
  apply ends_ite (fun _ => handleLess_completes.ends); intro _
  apply ends_ite (fun _ => handleGreater_completes.ends); intro _
  apply ends_ite (fun _ => handleEq_completes.ends); intro _
  apply ends_ite (fun same => absurd same quote); intro _
  apply ends_ite (fun _ => handleSlash_completes.ends); intro _
  apply ends_ite (fun same => absurd same doubleQuote); intro _
  apply ends_ite operator; intro _
  apply ends_ite operator; intro _
  apply ends_ite operator; intro _
  apply ends_ite operator; intro _
  apply ends_ite token; intro _
  apply ends_ite (fun same => absurd same sub); intro _
  apply ends_ite (fun _ => handleWhitespace_completes.ends); intro _
  apply ends_ite
  · intro starts
    apply handleIdentifier_completes U t
    intro lc' inside
    rw [lexeme, List.mem_singleton] at inside
    rw [inside]
    intro backslash
    have category := U.generalCategory_ascii '\\' (by decide)
    rw [show asciiCategory '\\' = .otherPunctuation by decide] at category
    rw [backslash, isJavaIdentifierStart, category] at starts
    cases starts
  · intro _
    have unknown : Walks Anywhere (completeToken .unknown >>= fun _ =>
        reportError (.unexpectedChar lc.char)) fun _ => CoveredIf true :=
      walks_then_idle completes_token (fun _ => idle_reportError) fun _ _ _ => CoveredIf.same
    exact unknown t trivial

/-- A dot covers what it consumed, which is something. -/
theorem handleDot_consumes (n : Nat) :
    Walks (fun rest => rest.length = n ∧ look rest 0 = '.') (handleDot U) fun _ t new =>
      Covered t new ∧ t.rest.length < n := by
  have more : ∀ rest : List LogicalChar, (rest.length = n ∧ look rest 0 = '.') → rest ≠ [] :=
    fun rest holds => ne_nil_of_look holds.2 (by decide)
  have token : ∀ {tokenType : SyntaxKind}, Walks (fun rest => rest.length < n)
      (completeToken tokenType) fun _ t new => Covered t new ∧ t.rest.length < n :=
    (completes_token.shrinks n).mono (fun _ shorter => ⟨trivial, shorter⟩) fun _ _ _ ends => ends
  apply walks_peekN
  intro next
  apply walks_ite
  · intro _
    apply (handleNumber_consumes U n).strengthen
    exact fun rest holds => .inr ⟨holds.1.1, .inr holds.1.2⟩
  · intro _ t ⟨holds, _⟩
    apply wp_advanceIfMatchesStr.mpr
    cases stands : t.isAtRaw .ellipsis with
    | true =>
        have moved : t.Reaches [] (t.move RawText.ellipsis.text.length t.escapeErrors) :=
          move_reaches
        have shorter : (t.rest.drop 3).length < n := by
          have some : 0 < t.rest.length := List.length_pos_iff.mpr (more _ holds)
          have length : t.rest.length = n := holds.1
          rw [List.length_drop]
          omega
        apply ((token (t.move RawText.ellipsis.text.length t.escapeErrors) shorter).mono_bad
          fun e => scanner.bad_of moved).mono
        intro _ t' ⟨new, reaches, ends⟩
        exact ⟨new, scanner.trans moved reaches, ends⟩
    | false =>
        have dot : Walks (fun rest => rest.length = n ∧ look rest 0 = '.')
            (advance >>= fun _ => completeToken .dot) fun _ t new =>
              Covered t new ∧ t.rest.length < n := by
          apply walks_advance more
          intro c
          apply token.strengthen
          intro rest ⟨lc, _, length, _⟩
          rw [← length]
          simp
        exact dot t holds

/-- One call of `scan_next_token` consumes some text and covers it, unless it loses it. -/
theorem scanNextToken_step (t : LogicalLexer) (more : t.rest ≠ []) :
    Wp logicalMachine (Wraps t.size) (scanNextToken U) (fun _ t' => ∃ new,
      t.newToken.Reaches new t' ∧ t'.rest.length < t.rest.length ∧
        CoveredIf (!losesText t.templates t.rest) t' new) t := by
  rcases List.exists_cons_of_ne_nil more with ⟨lc, cs, rest⟩
  have size : t.newToken.size = t.size := by
    simp [LogicalLexer.size, LogicalLexer.newToken]
  have first : look t.newToken.rest 0 = lc.char := by
    rw [show t.newToken.rest = lc :: cs from rest, look_cons_zero]
  apply (wp_perform (b := ()) rfl).mpr
  apply wp_peekN.mpr
  rw [first, ← size]
  have ahead : t.newToken.rest = lc :: cs := rest
  have fresh : t.newToken.lexeme = [] := rfl
  change EndsFurther (!losesText t.newToken.templates t.newToken.rest) _ t.newToken
  generalize t.newToken = t₀ at ahead fresh
  have walked : ∀ {pre : List LogicalChar → Prop} {x : Lex Unit},
      losesText t₀.templates t₀.rest = false → pre t₀.rest →
      (Walks pre x fun _ t' new => Covered t' new ∧ t'.rest.length < t₀.rest.length) →
      EndsFurther (!losesText t₀.templates t₀.rest) x t₀ := by
    intro pre x keeps holds walks
    apply (walks t₀ holds).mono
    rintro _ t' ⟨new, reaches, covered, shorter⟩
    exact ⟨new, reaches, shorter, by rw [keeps]; exact covered⟩
  have keeps : ∀ p : Char → Prop, p lc.char → ¬ p '\x1a' → ¬ p '\'' → ¬ p '"' → ¬ p '}' →
      losesText t₀.templates t₀.rest = false := by
    intro p holds sub quote doubleQuote brace
    rw [ahead]
    exact losesText_of_other (fun same => sub (same ▸ holds)) (fun same => quote (same ▸ holds))
      (fun same => doubleQuote (same ▸ holds)) fun same => brace (same ▸ holds)
  have start : look t₀.rest 0 = lc.char := by rw [ahead, look_cons_zero]
  split
  · rename_i dot
    exact walked (keeps (· = '.') dot (by decide) (by decide) (by decide) (by decide))
      ⟨rfl, start.trans dot⟩ (handleDot_consumes U _)
  split
  · rename_i brace
    rw [keeps (· = '{') brace (by decide) (by decide) (by decide) (by decide)]
    exact handleLeftBrace_ends (by simp [ahead])
  split
  · rename_i brace
    exact handleRightBrace_ends ahead brace
  split
  · rename_i noBrace numeric
    have ascii : ∀ c : Char, c.val < 128 → isAsciiDigit c = false → ¬ U.isNumeric c = true := by
      intro c small noDigit
      rw [U.isNumeric_ascii c small, noDigit]
      simp
    have numeric' : losesText t₀.templates t₀.rest = false :=
      keeps (U.isNumeric · = true) numeric (ascii _ (by decide) (by decide))
        (ascii _ (by decide) (by decide)) (ascii _ (by decide) (by decide))
        (ascii _ (by decide) (by decide))
    exact walked numeric' (.inr ⟨rfl, .inl (by rw [start]; exact numeric)⟩)
      (handleNumber_consumes U _)
  · rename_i noBrace _
    apply Ends.after_advance ahead
    intro t' lexeme rest' templates
    rw [fresh, List.nil_append] at lexeme
    rw [ahead, ← rest', ← templates]
    exact dispatchConsumed_ends U lexeme noBrace

end Step

end CaffeineLs.JavaSyntax
