/-
Module: CaffeineLs.Proofs.LiteralDecoding
Purpose: The characters and strings that the Java lexer accepts against their decoding in the lowering.
Trusted boundary: none
Main exports: StringCharacter, Denotes, literal_decoded_iff
-/
import CaffeineLs.Proofs.IntegerLiterals
import CaffeineLs.Proofs.JavaEscapes
import CaffeineLs.Proofs.NumericLiterals

namespace CaffeineLs.JavaSyntax

open Imperative
open Imperative.Scanner
open SourceText

/-! ### The values of literals -/

/-- The simple escapes: what follows the backslash, and the character denoted. -/
def simpleEscapes : List (Char × Char) :=
  [('b', '\x08'), ('t', '\t'), ('n', '\n'), ('f', '\x0c'), ('r', '\r'), ('"', '"'), ('\'', '\''),
    ('\\', '\\'), ('s', ' ')]

def startsOctal (text : Text) : Bool := text.head?.any isOctalDigit

/-- The digits of an octal escape before `after`: as many as there are, three only from `0` to `3`. -/
inductive OctalEscape : Text → Text → Prop where
  | one {a : Char} {after : Text} (first : isOctalDigit a = true) (ends : startsOctal after = false) :
      OctalEscape [a] after
  | two {a b : Char} {after : Text} (first : isOctalDigit a = true) (second : isOctalDigit b = true)
      (ends : a ≤ '3' → startsOctal after = false) : OctalEscape [a, b] after
  | three {a b c : Char} {after : Text} (first : isOctalDigit a = true) (small : a ≤ '3')
      (second : isOctalDigit b = true) (third : isOctalDigit c = true) : OctalEscape [a, b, c] after

def octalValue (digits : Text) : Nat :=
  digits.foldl (fun value d => value * 8 + (d.toNat - '0'.toNat)) 0

/-- One character of a string, with its value and the text after it. -/
inductive StringCharacter : Text → Char → Text → Prop where
  | plain {c : Char} {after : Text} (other : c ≠ '\\') : StringCharacter [c] c after
  | simple {c v : Char} {after : Text} (known : (c, v) ∈ simpleEscapes) :
      StringCharacter ['\\', c] v after
  | octal {digits after : Text} (escape : OctalEscape digits after) :
      StringCharacter ('\\' :: digits) (Char.ofNat (octalValue digits)) after

/-- What stands between the quotes, and its value. -/
inductive Denotes : Text → Text → Prop where
  | nil : Denotes [] []
  | cons {piece body value : Text} {v : Char} (first : StringCharacter piece v body)
      (later : Denotes body value) : Denotes (piece ++ body) (v :: value)

theorem Denotes.plain {c : Char} {body value : Text} (other : c ≠ '\\') (later : Denotes body value) :
    Denotes (c :: body) (c :: value) :=
  .cons (.plain other) later

/-- A content of one character. -/
theorem Denotes.single {body : Text} {v : Char} (denotes : Denotes body [v]) :
    StringCharacter body v [] := by
  cases denotes with
  | cons first later =>
      cases later
      rwa [List.append_nil]

theorem OctalEscape.congr {digits after after' : Text} (escape : OctalEscape digits after)
    (same : startsOctal after' = startsOctal after) : OctalEscape digits after' := by
  cases escape with
  | one first ends => exact .one first (same.trans ends)
  | two first second ends => exact .two first second fun small => same.trans (ends small)
  | three first small second third => exact .three first small second third

theorem StringCharacter.congr {piece after after' : Text} {v : Char}
    (here : StringCharacter piece v after) (same : startsOctal after' = startsOctal after) :
    StringCharacter piece v after' := by
  cases here with
  | plain other => exact .plain other
  | simple known => exact .simple known
  | octal escape => exact .octal (escape.congr same)

theorem startsOctal_append {body after : Text} (ends : startsOctal after = false) :
    startsOctal (body ++ after) = startsOctal body := by
  cases body with
  | nil => exact ends
  | cons c body => rfl

theorem simpleEscape_other {c v : Char} (known : (c, v) ∈ simpleEscapes) :
    isOctalDigit c = false := by
  have all : simpleEscapes.all fun pair => !isOctalDigit pair.1 := by decide
  simpa using List.all_eq_true.mp all _ known

theorem simpleEscape_unique {c v v' : Char} (known : (c, v) ∈ simpleEscapes)
    (known' : (c, v') ∈ simpleEscapes) : v = v' := by
  have all : simpleEscapes.all fun pair => simpleEscapes.lookup pair.1 == some pair.2 := by decide
  have found : ∀ {w}, (c, w) ∈ simpleEscapes → simpleEscapes.lookup c = some w := fun member =>
    beq_iff_eq.mp (List.all_eq_true.mp all _ member)
  exact Option.some.inj ((found known).symm.trans (found known'))

/-- Octal digits are not cut in two ways. -/
theorem OctalEscape.unique {digits digits' after after' : Text} (escape : OctalEscape digits after)
    (escape' : OctalEscape digits' after') (same : digits ++ after = digits' ++ after') :
    digits = digits' := by
  cases escape <;> cases escape' <;> grind [startsOctal, List.head?_cons]

theorem OctalEscape.head {digits after : Text} (escape : OctalEscape digits after) :
    ∃ d rest, digits = d :: rest ∧ isOctalDigit d = true := by
  cases escape with
  | one first => exact ⟨_, _, rfl, first⟩
  | two first => exact ⟨_, _, rfl, first⟩
  | three first => exact ⟨_, _, rfl, first⟩

theorem StringCharacter.unique {piece piece' after after' : Text} {v v' : Char}
    (here : StringCharacter piece v after) (here' : StringCharacter piece' v' after')
    (same : piece ++ after = piece' ++ after') : piece = piece' ∧ v = v' := by
  cases here with
  | plain other =>
      cases here' with
      | plain => exact ⟨by simp_all, (List.cons.inj same).1⟩
      | simple | octal => exact absurd (List.cons.inj same).1 other
  | simple known =>
      cases here' with
      | plain other => exact absurd (List.cons.inj same).1.symm other
      | simple known' =>
          obtain ⟨rfl, rfl⟩ : _ = _ ∧ after = after' := by simpa using same
          exact ⟨rfl, simpleEscape_unique known known'⟩
      | octal escape =>
          obtain ⟨d, rest, rfl, digit⟩ := escape.head
          obtain ⟨rfl, -⟩ : _ = d ∧ _ := by simpa using same
          simp [simpleEscape_other known] at digit
  | octal escape =>
      cases here' with
      | plain other => exact absurd (List.cons.inj same).1.symm other
      | simple known =>
          obtain ⟨d, rest, rfl, digit⟩ := escape.head
          obtain ⟨rfl, -⟩ : d = _ ∧ _ := by simpa using same
          simp [simpleEscape_other known] at digit
      | octal escape' =>
          obtain rfl := escape.unique escape' (by simpa using same)
          exact ⟨rfl, rfl⟩

theorem StringCharacter.ne_nil {piece after : Text} {v : Char}
    (here : StringCharacter piece v after) : piece ≠ [] := by
  cases here <;> simp

/-- A content has one value. -/
theorem Denotes.unique {body value value' : Text} (denotes : Denotes body value)
    (denotes' : Denotes body value') : value = value' := by
  induction denotes generalizing value' with
  | nil =>
      generalize empty : ([] : Text) = body at denotes'
      cases denotes' with
      | nil => rfl
      | cons first => exact absurd (List.append_eq_nil_iff.mp empty.symm).1 first.ne_nil
  | @cons piece body value v first later ih =>
      generalize whole : piece ++ body = text at denotes'
      cases denotes' with
      | nil => exact absurd (List.append_eq_nil_iff.mp whole).1 first.ne_nil
      | cons first' later' =>
          obtain ⟨rfl, rfl⟩ := first.unique first' whole
          obtain rfl := List.append_cancel_left whole
          rw [ih later']

/-! ### What the lexer reads -/

theorem Reads.errors_eq {t t' : LogicalLexer} {text : Text} (reads : Reads t text False t') :
    t'.errors = t.errors := by
  rcases reads.errors with ⟨new, grown, -, none⟩
  rw [grown, not_ne_iff.mp (mt none.mp not_false), List.append_nil]

section Readings

variable {α : Type} {t t' : LogicalLexer}

theorem returns_isAtEnd {k : Bool → Lex α} {a : α} :
    Returns logicalMachine (isAtEnd >>= k) t a t' ↔
      Returns logicalMachine (k t.rest.isEmpty) t a t' := by
  constructor
  · intro returns
    rcases returns_op.mp returns with ⟨_, t₁, same, later⟩
    cases same
    exact later
  · exact fun later => returns_op.mpr ⟨_, t, rfl, later⟩

/-- Where nothing is reported in all, nothing is reported on the way. -/
theorem errors_between {β : Type} {t₁ : LogicalLexer} {x : Lex α} {y : Lex β} {a : α} {b : β}
    (first : Returns logicalMachine x t a t₁) (later : Returns logicalMachine y t₁ b t')
    (quiet : t'.errors = t.errors) : t₁.errors = t.errors ∧ t'.errors = t₁.errors := by
  have kept := (LogicalLexer.Extends.returns ⟨List.prefix_rfl, List.prefix_rfl⟩ first).2
  have kept₁ := (LogicalLexer.Extends.returns ⟨List.prefix_rfl, List.prefix_rfl⟩ later).2
  have same : t₁.errors = t.errors := (kept.eq_of_length_le (quiet ▸ kept₁.length_le)).symm
  exact ⟨same, quiet.trans same.symm⟩

/-- A run that reports an error has more errors. -/
theorem errors_ne_of_report {errorType : LexicalErrorKind} {k : Unit → Lex α} {a : α}
    (returns : Returns logicalMachine (.op (.reportError errorType) k) t a t') :
    t'.errors ≠ t.errors := by
  rcases returns_op.mp returns with ⟨_, t₁, reported, later⟩
  change (t.reportError errorType).map _ = _ at reported
  rw [LogicalLexer.reportError] at reported
  split at reported
  · cases reported
    have kept := (LogicalLexer.Extends.returns ⟨List.prefix_rfl, List.prefix_rfl⟩ later).2
    intro same
    have longer := kept.length_le
    rw [same, List.length_append, List.length_singleton] at longer
    omega
  · cases reported

theorem reportIf_quiet {wrong : Bool} {errorType : LexicalErrorKind} {u : Unit}
    (quiet : t'.errors = t.errors)
    (returns : Returns logicalMachine (reportIf wrong errorType) t u t') : wrong = false ∧ t' = t := by
  cases wrong with
  | true => exact absurd quiet (errors_ne_of_report returns)
  | false => exact ⟨rfl, (returns_pure.mp returns).2.symm⟩

theorem returns_completeToken {tokenType : SyntaxKind} {u : Unit}
    (returns : Returns logicalMachine (completeToken tokenType) t u t') :
    t' = t.completeToken tokenType := by
  rcases returns_op.mp returns with ⟨_, t₁, completed, last⟩
  cases completed
  exact (returns_pure.mp last).2.symm

/-- The character ahead, where one that is not NUL is seen. -/
theorem rest_ne_nil_of_look {c : Char} (real : c ≠ '\x00') (sees : LogicalLexer.look t.rest 0 = c) :
    t.rest ≠ [] := by
  intro nothing
  rw [nothing] at sees
  exact real sees.symm

theorem isSimpleEscape_iff {c : Char} :
    isSimpleEscape c = true ↔ ∃ v, (c, v) ∈ simpleEscapes := by
  simp only [isSimpleEscape, simpleEscapes, List.contains_iff_mem, List.mem_cons, List.not_mem_nil,
    or_false, Prod.mk.injEq, exists_or, exists_and_left, exists_eq, and_true]
  tauto

theorem startsOctal_charsOf (rest : List LogicalChar) :
    startsOctal (charsOf rest) = isOctalDigit (LogicalLexer.look rest 0) := by
  cases rest <;> rfl

/-- The digits of an octal escape. -/
theorem octal_reads (octal : isOctalDigit (LogicalLexer.look t.rest 0) = true)
    (returns : Returns logicalMachine (do
      let firstDigit ← advance
      if isOctalDigit (← peek) then
        let _ ← advance
        if firstDigit ≤ '3' then
          if isOctalDigit (← peek) then
            let _ ← advance
      return true) t true t') :
    ∃ digits, Reads t digits False t' ∧ OctalEscape digits (charsOf t'.rest) := by
  have real : isOctalDigit '\x00' = false := by decide
  rcases returns_advance (more_of_look real octal) returns with ⟨t₁, first, later⟩
  rw [peek, returns_peekN] at later
  split at later
  · rename_i octal₁
    rcases returns_advance (more_of_look real octal₁) later with ⟨t₂, second, later⟩
    have both := first.then_ second
    split at later
    · rename_i small
      rw [returns_peekN] at later
      split at later
      · rename_i octal₂
        rcases returns_advance (more_of_look real octal₂) later with ⟨t₃, third, last⟩
        obtain ⟨-, rfl⟩ := returns_pure.mp last
        exact ⟨_, both.then_ third, .three octal small octal₁ octal₂⟩
      · rename_i ends
        obtain ⟨-, rfl⟩ := returns_pure.mp later
        refine ⟨_, both, .two octal octal₁ fun _ => ?_⟩
        rw [startsOctal_charsOf]
        simpa using ends
    · rename_i large
      obtain ⟨-, rfl⟩ := returns_pure.mp later
      exact ⟨_, both, .two octal octal₁ fun small => absurd small large⟩
  · rename_i ends
    obtain ⟨-, rfl⟩ := returns_pure.mp later
    refine ⟨_, first, .one octal ?_⟩
    rw [startsOctal_charsOf]
    simpa using ends

/-- A backslash and what makes it an escape; in a text block a line end may follow it. -/
theorem escape_reads {isTextBlock : Bool} (backslash : LogicalLexer.look t.rest 0 = '\\')
    (returns : Returns logicalMachine (consumeEscapeSequence isTextBlock) t true t') :
    ∃ piece, Reads t ('\\' :: piece) False t' ∧
      ((∃ v, StringCharacter ('\\' :: piece) v (charsOf t'.rest)) ∨
        isTextBlock = true ∧ ∃ c, piece = [c] ∧ isNewline c = true) := by
  rcases returns_advance (rest_ne_nil_of_look (by decide) backslash) returns with ⟨t₁, first, later⟩
  rw [backslash] at first
  rw [returns_isAtEnd] at later
  split at later
  · cases (returns_pure.mp later).1
  rename_i more
  have more : t₁.rest ≠ [] := by simpa using more
  rw [peek, returns_peekN] at later
  have single : ∀ {b : Bool}, Returns logicalMachine (advance >>= fun _ => pure b) t₁ true t' →
      b = true ∧ Reads t ('\\' :: [LogicalLexer.look t₁.rest 0]) False t' := by
    intro b runs
    rcases returns_advance more runs with ⟨t₂, second, last⟩
    obtain ⟨same, rfl⟩ := returns_pure.mp last
    exact ⟨same, first.then_ second⟩
  split at later
  · rename_i simple
    obtain ⟨v, known⟩ := isSimpleEscape_iff.mp simple
    exact ⟨_, (single later).2, .inl ⟨v, .simple known⟩⟩
  split at later
  · rename_i newline
    rw [Bool.and_eq_true] at newline
    exact ⟨_, (single later).2, .inr ⟨newline.1, _, rfl, newline.2⟩⟩
  split at later
  · rename_i octal
    rcases octal_reads octal later with ⟨digits, second, escape⟩
    exact ⟨digits, first.then_ second, .inl ⟨_, .octal escape⟩⟩
  · cases (single later).1

/-- A round of a character literal that reports nothing. -/
theorem charRound_reads {carried : Nat × Bool} {r : (Nat × Bool) ⊕ Option (Nat × Bool)}
    (quiet : t'.errors = t.errors) (returns : Returns logicalMachine (charRound carried) t r t') :
    match r with
    | .inl next => ∃ piece v, Reads t piece False t' ∧ StringCharacter piece v (charsOf t'.rest) ∧
        carried.1 < next.1 ∧ next.2 = carried.2
    | .inr left => left = some carried ∧ t' = t ∧
        (t.rest = [] ∨ LogicalLexer.look t.rest 0 = '\'') := by
  rcases carried with ⟨count, hasError⟩
  rw [charRound, returns_isAtEnd] at returns
  have some : 0 < lenUtf16 (LogicalLexer.look t.rest 0) := by
    rw [lenUtf16]
    split <;> decide
  split at returns
  · rename_i ended
    obtain ⟨rfl, rfl⟩ := returns_pure.mp returns
    exact ⟨rfl, rfl, .inl (by simpa using ended)⟩
  rename_i more
  have more : t.rest ≠ [] := by simpa using more
  rw [peek, returns_peekN] at returns
  split at returns
  · rename_i quote
    obtain ⟨rfl, rfl⟩ := returns_pure.mp returns
    exact ⟨rfl, rfl, .inr quote⟩
  split at returns
  · exact absurd quiet (errors_ne_of_report returns)
  split at returns
  · rename_i backslash
    rcases returns_bind.mp returns with ⟨valid, t₁, escapes, later⟩
    cases valid with
    | false =>
        exact absurd (errors_between escapes later quiet).2 (errors_ne_of_report later)
    | true =>
        obtain ⟨rfl, rfl⟩ := returns_pure.mp later
        rcases escape_reads backslash escapes with ⟨piece, reads, ⟨v, here⟩ | ⟨never, -⟩⟩
        · exact ⟨_, v, reads, here, Nat.lt_add_of_pos_right some, rfl⟩
        · cases never
  · rename_i other
    rcases returns_advance more returns with ⟨t₁, reads, last⟩
    obtain ⟨rfl, rfl⟩ := returns_pure.mp last
    exact ⟨_, _, reads, .plain other, Nat.lt_add_of_pos_right some, rfl⟩

/-- A character before others that are not octal digits is one before all that follows. -/
theorem denotes_piece {piece body value after : Text} {v : Char}
    (here : StringCharacter piece v (body ++ after)) (ends : startsOctal after = false)
    (later : Denotes body value) : Denotes (piece ++ body) (v :: value) :=
  .cons (here.congr (startsOctal_append ends).symm) later

/-- The loop of a character literal reads its content. -/
theorem charLoop_reads {carried : Nat × Bool} {left : Option (Nat × Bool)}
    (quiet : t'.errors = t.errors)
    (returns : Returns logicalMachine (.loop charRound carried .pure) t left t') :
    ∃ count body value, left = some (count, carried.2) ∧ Reads t body False t' ∧
      Denotes body value ∧ carried.1 + value.length ≤ count ∧ (value = [] → count = carried.1) ∧
      (t'.rest = [] ∨ LogicalLexer.look t'.rest 0 = '\'') := by
  revert quiet
  apply returns.loop_induction (motive := fun carried t => t'.errors = t.errors →
    ∃ count body value, left = some (count, carried.2) ∧ Reads t body False t' ∧
      Denotes body value ∧ carried.1 + value.length ≤ count ∧ (value = [] → count = carried.1) ∧
      (t'.rest = [] ∨ LogicalLexer.look t'.rest 0 = '\''))
  · intro carried t left t₁ round last quiet
    obtain ⟨rfl, rfl⟩ := returns_pure.mp last
    obtain ⟨rfl, rfl, ends⟩ := charRound_reads quiet round
    exact ⟨carried.1, [], [], rfl, Reads.refl _, .nil, Nat.le_refl _, fun _ => rfl, ends⟩
  · intro carried t next t₁ round others ih quiet
    have between := errors_between round others quiet
    obtain ⟨piece, v, first, here, longer, same⟩ := charRound_reads between.1 round
    obtain ⟨count, body, value, rfl, reads, denotes, enough, -, ends⟩ := ih between.2
    rw [reads.rest] at here
    have stops : startsOctal (charsOf t'.rest) = false := by
      rw [startsOctal_charsOf]
      rcases ends with ended | quote
      · rw [ended]
        decide
      · rw [quote]
        decide
    refine ⟨count, piece ++ body, v :: value, by rw [same], first.then_ reads,
      denotes_piece here stops denotes, ?_, by simp, ends⟩
    rw [List.length_cons]
    omega

/-- A character literal that is accepted without a report holds one character. -/
theorem handleCharLiteral_reads (quiet : t'.errors = t.errors)
    (returns : Returns logicalMachine handleCharLiteral t () t') :
    ∃ body v, charsOf t.rest = body ++ '\'' :: charsOf t'.rest ∧ Denotes body [v] := by
  rcases returns_bind.mp returns with ⟨left, t₁, loop, later⟩
  have between := errors_between loop later quiet
  obtain ⟨count, body, value, rfl, reads, denotes, enough, none, ends⟩ :=
    charLoop_reads between.1 loop
  rw [returns_isAtEnd] at later
  split at later
  · exact absurd between.2 (errors_ne_of_report later)
  rename_i more
  have more : t₁.rest ≠ [] := by simpa using more
  have quote := ends.resolve_left more
  rcases returns_advance more later with ⟨t₂, close, later⟩
  rcases returns_bind.mp later with ⟨_, t₃, report, complete⟩
  obtain rfl := returns_completeToken complete
  have closed := close.errors_eq
  have still : t₃.errors = t₂.errors := between.2.trans closed.symm
  obtain ⟨counted, rfl⟩ := reportIf_quiet still report
  obtain rfl : count = 1 := by simpa using counted
  obtain ⟨v, rfl⟩ : ∃ v, value = [v] := by
    apply List.length_eq_one_iff.mp
    have some : value.length ≠ 0 := fun empty =>
      absurd (none (List.length_eq_zero_iff.mp empty)) one_ne_zero
    simp only [Nat.zero_add] at enough
    omega
  refine ⟨body, v, ?_, denotes⟩
  rw [reads.rest, close.rest, quote]
  rfl

theorem isTemplateClose_returns {kind : TemplateKind} {close : Bool}
    (returns : Returns logicalMachine (isTemplateClose kind) t close t') :
    t' = t ∧ (kind = .string → close = decide (LogicalLexer.look t.rest 0 = '"')) := by
  cases kind with
  | string =>
      rw [isTemplateClose, peek, returns_peekN] at returns
      obtain ⟨rfl, rfl⟩ := returns_pure.mp returns
      exact ⟨rfl, fun _ => rfl⟩
  | textBlock =>
      refine ⟨?_, nofun⟩
      rw [isTemplateClose, peek, returns_peekN] at returns
      split at returns
      · rw [peekNext, returns_peekN] at returns
        split at returns
        · rw [returns_peekN] at returns
          exact (returns_pure.mp returns).2.symm
        · exact (returns_pure.mp returns).2.symm
      · exact (returns_pure.mp returns).2.symm

theorem tokens_of_scans {x : Lex α} {a : α} {pre : List LogicalChar → Prop}
    {post : α → List LogicalChar → Prop} (scans : Scans pre x post) (holds : pre t.rest)
    (returns : Returns logicalMachine x t a t') : t'.tokens = t.tokens := by
  obtain ⟨new, reaches, rfl, -⟩ := (scans t holds).of_returns returns
  rw [reaches.2.2, List.append_nil]

/-- An embedded expression starts with the token of the text before it. -/
theorem openTemplate_emits {kind : TemplateKind} {u : Unit}
    (returns : Returns logicalMachine (openTemplate kind .fullLiteral) t u t') :
    ∃ token, t'.tokens = t.tokens ++ [token] ∧ token.kind = kind.beginToken := by
  rcases returns_bind.mp returns with ⟨_, t₁, first, later⟩
  rcases returns_bind.mp later with ⟨_, t₂, second, later⟩
  rcases returns_bind.mp later with ⟨_, t₃, emits, later⟩
  obtain rfl := returns_completeToken emits
  rcases returns_op.mp later with ⟨_, t₄, gets, later⟩
  cases gets
  rcases returns_op.mp later with ⟨_, t₅, sets, last⟩
  cases sets
  obtain ⟨-, rfl⟩ := returns_pure.mp last
  have same : t₂.tokens = t.tokens :=
    (tokens_of_scans passes_advance trivial second).trans (tokens_of_scans passes_advance trivial first)
  exact ⟨_, congrArg (· ++ [_]) same, rfl⟩

/-- A round of quoted content that reports nothing. -/
theorem quotedRound_reads {kind : TemplateKind} {u : Unit} {r : Unit ⊕ Bool}
    (quiet : t'.errors = t.errors)
    (returns : Returns logicalMachine (quotedRound kind .fullLiteral u) t r t') :
    match r with
    | .inl _ => t'.tokens = t.tokens ∧ (kind = .string → ∃ piece v, Reads t piece False t' ∧
        StringCharacter piece v (charsOf t'.rest))
    | .inr true => True
    | .inr false => ∃ token, t'.tokens = t.tokens ++ [token] ∧ (token.kind = kind.beginToken ∨
        token.kind = kind.literalToken ∧
          (kind = .string → charsOf t.rest = '"' :: charsOf t'.rest)) := by
  rw [quotedRound, returns_isAtEnd] at returns
  split at returns
  · obtain ⟨rfl, rfl⟩ := returns_pure.mp returns
    trivial
  rename_i more
  have more : t.rest ≠ [] := by simpa using more
  rcases returns_bind.mp returns with ⟨close, t₁, closes, later⟩
  obtain ⟨rfl, quote⟩ := isTemplateClose_returns closes
  split at later
  · rename_i closed
    rcases returns_bind.mp later with ⟨_, t₂, consumes, later⟩
    rcases returns_bind.mp later with ⟨_, t₃, emits, last⟩
    obtain rfl := returns_completeToken emits
    obtain ⟨rfl, rfl⟩ := returns_pure.mp last
    refine ⟨_, congrArg (· ++ [_])
      (tokens_of_scans (consumeTemplateClose_passes kind) trivial consumes), .inr ⟨rfl, ?_⟩⟩
    rintro rfl
    rcases returns_advance more consumes with ⟨t₃, reads, last⟩
    obtain ⟨-, rfl⟩ := returns_pure.mp last
    have sees : LogicalLexer.look t₁.rest 0 = '"' := by simpa [closed] using quote rfl
    rw [reads.rest, sees]
    rfl
  rw [peek, returns_peekN] at later
  split at later
  · rcases returns_bind.mp later with ⟨_, t₂, reports, last⟩
    have between := errors_between reports last quiet
    exact absurd between.1 (errors_ne_of_report reports)
  split at later
  · rename_i backslash
    rw [peekNext, returns_peekN] at later
    split at later
    · rcases returns_bind.mp later with ⟨_, t₂, opens, last⟩
      obtain ⟨rfl, rfl⟩ := returns_pure.mp last
      obtain ⟨token, tokens, kind⟩ := openTemplate_emits opens
      exact ⟨token, tokens, .inl kind⟩
    · rcases returns_bind.mp later with ⟨valid, t₂, escapes, later⟩
      rcases returns_bind.mp later with ⟨_, t₃, reports, last⟩
      obtain ⟨rfl, rfl⟩ := returns_pure.mp last
      have between := errors_between escapes reports quiet
      obtain ⟨valid, rfl⟩ := reportIf_quiet between.2 reports
      rw [Bool.not_eq_false'] at valid
      subst valid
      rcases escape_reads backslash escapes with ⟨piece, reads, here⟩
      refine ⟨reads.tokens, ?_⟩
      rintro rfl
      rcases here with ⟨v, here⟩ | ⟨never, -⟩
      · exact ⟨_, v, reads, here⟩
      · cases never
  · rename_i other
    rcases returns_advance more later with ⟨t₂, reads, last⟩
    obtain ⟨rfl, rfl⟩ := returns_pure.mp last
    exact ⟨reads.tokens, fun _ => ⟨_, _, reads, .plain other⟩⟩

/-- Quoted content ends: a template begins in it, or the literal is complete. -/
def EndsQuoted (kind : TemplateKind) (t t' : LogicalLexer) : Prop :=
  ∃ token : Token, t'.tokens = t.tokens ++ [token] ∧ (token.kind = kind.beginToken ∨
    token.kind = kind.literalToken ∧ (kind = .string → ∃ body value,
      charsOf t.rest = body ++ '"' :: charsOf t'.rest ∧ Denotes body value))

theorem quotedLoop_reads {kind : TemplateKind} {u : Unit} (quiet : t'.errors = t.errors)
    (returns : Returns logicalMachine (.loop (quotedRound kind .fullLiteral) u .pure) t false t') :
    EndsQuoted kind t t' := by
  generalize left : false = ended at returns
  revert quiet
  apply returns.loop_induction (motive := fun _ t => t'.errors = t.errors → EndsQuoted kind t t')
  · intro u t _ t₁ round last quiet
    obtain ⟨rfl, rfl⟩ := returns_pure.mp last
    subst left
    obtain ⟨token, tokens, starts | ⟨literal, closes⟩⟩ := quotedRound_reads quiet round
    · exact ⟨token, tokens, .inl starts⟩
    · exact ⟨token, tokens, .inr ⟨literal, fun string => ⟨[], [], closes string, .nil⟩⟩⟩
  · intro u t u' t₁ round others ih quiet
    have between := errors_between round others quiet
    obtain ⟨same, piece⟩ := quotedRound_reads between.1 round
    obtain ⟨token, tokens, found⟩ := ih between.2
    refine ⟨token, same ▸ tokens, found.imp_right fun ⟨literal, later⟩ => ⟨literal, fun string => ?_⟩⟩
    obtain ⟨body, value, rest, denotes⟩ := later string
    obtain ⟨piece, v, reads, here⟩ := piece string
    rw [rest] at here
    refine ⟨piece ++ body, v :: value, ?_, denotes_piece here (show isOctalDigit '"' = false by decide)
      denotes⟩
    rw [reads.rest, rest, List.append_assoc]

/-- A string that is accepted without a report. -/
theorem handleQuote_reads {token : Token} (quiet : t'.errors = t.errors)
    (emits : t'.tokens = t.tokens ++ [token]) (string : token.kind = .stringLiteral)
    (returns : Returns logicalMachine handleQuote t () t') :
    ∃ body value, charsOf t.rest = body ++ '"' :: charsOf t'.rest ∧ Denotes body value := by
  -- The content from `t₁` on, with the loop that reads it.
  have content : ∀ (kind : TemplateKind) {t₁ : LogicalLexer}, t₁.tokens = t.tokens →
      t₁.errors = t.errors → Returns logicalMachine (do
        if ← .loop (quotedRound kind .fullLiteral) () .pure then
          reportUnterminated kind .fullLiteral) t₁ () t' →
      kind = .string ∧ ∃ body value, charsOf t₁.rest = body ++ '"' :: charsOf t'.rest ∧
        Denotes body value := by
    intro kind t₁ same none runs
    rcases returns_bind.mp runs with ⟨ended, t₂, loop, later⟩
    have between := errors_between loop later (quiet.trans none.symm)
    cases ended with
    | true =>
        cases kind <;> exact absurd between.2 (errors_ne_of_report later)
    | false =>
        obtain ⟨-, rfl⟩ := returns_pure.mp later
        obtain ⟨token', tokens, found⟩ := quotedLoop_reads between.1 loop
        rw [emits, same, List.append_cancel_left_eq, List.singleton_inj] at tokens
        subst tokens
        cases kind with
        | string =>
            refine ⟨rfl, ?_⟩
            rcases found with starts | ⟨-, closes⟩
            · rw [string] at starts
              cases starts
            · exact closes rfl
        | textBlock =>
            rw [string] at found
            rcases found with starts | ⟨literal, -⟩
            · cases starts
            · cases literal
  rcases returns_bind.mp returns with ⟨block, t₁, matches_, later⟩
  rcases returns_op.mp matches_ with ⟨_, _, matched, last⟩
  obtain ⟨rfl, rfl⟩ := returns_pure.mp last
  change LogicalLexer.exec (.advanceIfMatchesStr .quotes) t = _ at matched
  rw [LogicalLexer.exec] at matched
  split at matched
  · cases matched
    rcases returns_bind.mp later with ⟨_, t₂, opens, later⟩
    have between := errors_between opens later quiet
    have same := tokens_of_scans (scanTextBlockOpen_scans _) rfl opens
    exact absurd (content .textBlock same between.1 later).1 (by simp)
  · cases matched
    exact (content .string rfl rfl later).2

theorem dispatch_of_step {U : UnicodeTables} {q : Char} (quote : q = '\'' ∨ q = '"')
    (sees : LogicalLexer.look t.rest 0 = q)
    (step : Returns logicalMachine (scanNextToken U) t () t') :
    ∃ t₁, Reads t [q] False t₁ ∧ Returns logicalMachine (dispatchConsumed U q) t₁ () t' := by
  rcases returns_op.mp step with ⟨_, t₁, fresh, later⟩
  cases fresh
  have first := returns_peekN.mp later
  rw [show LogicalLexer.look t.newToken.rest 0 = q from sees] at first
  have plain : ¬ q = '.' ∧ ¬ q = '{' ∧ ¬ q = '}' ∧ ¬ U.isNumeric q = true := by
    rcases quote with rfl | rfl <;>
      exact ⟨by decide, by decide, by decide, by rw [U.isNumeric_ascii _ (by decide)]; decide⟩
  rw [if_neg plain.1, if_neg plain.2.1, if_neg plain.2.2.1, if_neg plain.2.2.2] at first
  have more : t.newToken.rest ≠ [] := by
    apply rest_ne_nil_of_look _ sees
    rcases quote with rfl | rfl <;> decide
  rcases returns_advance more first with ⟨t₁, reads, last⟩
  rw [show LogicalLexer.look t.newToken.rest 0 = q from sees] at reads last
  exact ⟨t₁, ⟨reads.rest, reads.tokens, reads.errors⟩, last⟩

end Readings

/-! ### Accepted literals -/

/-- What stands around a literal of the kind. -/
def quoteOf : SyntaxKind → Char
  | .charLiteral => '\''
  | _ => '"'

/-- Scanning the source from `l` to `l'`, the characters are accepted as a character or a string
without an error. -/
structure AcceptsLiteral (U : UnicodeTables) (source : Text) (l l' : Lexer) (token : Token)
    (chars : Text) : Prop where
  head : LoopHead U source l
  kind : token.kind = .charLiteral ∨ token.kind = .stringLiteral
  starts : l.reader.peekN 0 = .ok (quoteOf token.kind)
  step : Returns machine (scanNextToken U) l () l'
  emits : l'.tokens = l.tokens ++ [token]
  quiet : l'.errors = l.errors ∧ l'.reader.errors = l.reader.errors
  delivers : l.reader.Delivers l'.reader.current chars

/-- The content of a literal that a step accepts. -/
theorem content_of_step {U : UnicodeTables} {t t' : LogicalLexer} {token : Token}
    (kind : token.kind = .charLiteral ∨ token.kind = .stringLiteral)
    (sees : LogicalLexer.look t.rest 0 = quoteOf token.kind)
    (step : Returns logicalMachine (scanNextToken U) t () t') (quiet : t'.errors = t.errors)
    (emits : t'.tokens = t.tokens ++ [token]) :
    ∃ body value, charsOf t.rest =
        quoteOf token.kind :: (body ++ quoteOf token.kind :: charsOf t'.rest) ∧
      Denotes body value ∧ (token.kind = .charLiteral → value.length = 1) := by
  rcases kind with char | string
  · rw [char] at sees ⊢
    rcases dispatch_of_step (.inl rfl) sees step with ⟨t₁, reads, later⟩
    have still : t'.errors = t₁.errors := quiet.trans reads.errors_eq.symm
    obtain ⟨body, v, rest, denotes⟩ := handleCharLiteral_reads still later
    refine ⟨body, [v], ?_, denotes, fun _ => rfl⟩
    rw [reads.rest, rest]
    rfl
  · rw [string] at sees ⊢
    rcases dispatch_of_step (.inr rfl) sees step with ⟨t₁, reads, later⟩
    have still : t'.errors = t₁.errors := quiet.trans reads.errors_eq.symm
    obtain ⟨body, value, rest, denotes⟩ :=
      handleQuote_reads still (reads.tokens ▸ emits) string later
    refine ⟨body, value, ?_, denotes, nofun⟩
    rw [reads.rest, rest]
    rfl

/-! ### The text of a literal -/

/-- The code unit of an escape is no single byte. -/
theorem escape_wide {before cs : Text} {code len : Nat} (even : EvenBefore before)
    (reads : codeUnit before ('\\' :: 'u' :: cs) = .ok (.ok (code, len))) : 1 < len := by
  rw [codeUnit, if_neg (by simp), if_neg (by simpa [EvenBefore] using even), if_neg (by simp)]
    at reads
  simp only at reads
  split at reads
  · cases reads
  · split at reads
    · cases reads
    · split at reads
      · cases reads
        omega
      · cases reads

theorem escape_long {before cs : Text} {c : Char} {len : Nat} (even : EvenBefore before)
    (scans : SourceReader.scanAt (before ++ '\\' :: 'u' :: cs) (byteLen before) = .ok (.char c len)) :
    1 < len := by
  rw [SourceReader.scanAt, scanCodeUnit_append] at scans
  rcases unit : codeUnit before ('\\' :: 'u' :: cs) with e | len₁ | ⟨code, len₁⟩
  · simp [unit, bind, Except.bind] at scans
  · simp [unit, bind, Except.bind, pure, Except.pure] at scans
  have wide := escape_wide even unit
  simp only [unit, bind, Except.bind, pure, Except.pure] at scans
  split at scans
  · cases scans
    exact wide
  · split at scans
    · cases second : SourceReader.scanCodeUnit (before ++ '\\' :: 'u' :: cs) (byteLen before + len₁) with
      | error e => simp [second] at scans
      | ok next =>
          rw [second] at scans
          rcases next with len₂ | ⟨code₂, len₂⟩
          · cases scans
          · simp only at scans
            split at scans
            · cases scans
              omega
            · cases scans
    · cases scans

/-- A backslash that stands for itself does so before less text. -/
theorem reads_backslash {before before' rest after : Text}
    (even : EvenBefore before' ↔ EvenBefore before)
    (reads : (LogicalChar.plain '\\').Reads before (rest ++ after)) :
    (LogicalChar.plain '\\').Reads before' rest where
  fits := by simp
  escapes := by simp
  scans := by
    have plain : codeUnit before' ('\\' :: rest) = .ok (.ok ('\\'.toNat, 1)) := by
      by_cases here : EvenBefore before'
      · have other : rest.head? ≠ some 'u' := by
          intro starts
          obtain ⟨cs, rfl⟩ := List.head?_eq_some_iff.mp starts
          exact absurd (escape_long (even.mp here) reads.scans) (by decide)
        rw [codeUnit, if_neg (by simp), if_neg (by simpa [EvenBefore] using here), if_pos other]
      · rw [codeUnit, if_neg (by simp),
          if_pos (show trailingBackslashes before' % 2 ≠ 0 from here)]
    rw [LogicalChar.spelling, List.singleton_append, SourceReader.scanAt, scanCodeUnit_append, plain]
    rfl

/-- Where no escape is ill-formed, a part of a text decodes to the same characters on its own. -/
theorem DecodedAfter.part {before before' : Text} {ys zs : List LogicalChar}
    (even : EvenBefore before' ↔ EvenBefore before) (formed : WellFormed ys)
    (decoded : DecodedAfter before (ys ++ zs)) : DecodedAfter before' ys := by
  induction ys generalizing before before' with
  | nil => trivial
  | cons lc ys ih =>
      have later := ih (evenBefore_append_congr even lc.spelling)
        (fun len inside => formed len (List.mem_cons_of_mem _ inside)) decoded.2
      refine ⟨?_, later⟩
      have here : lc.Reads before (spelled ys ++ spelled zs) := spelled_append ys zs ▸ decoded.1
      cases lc with
      | plain c =>
          by_cases backslash : c = '\\'
          · subst backslash
            exact reads_backslash even here
          · exact reads_plain backslash
      | escape c tail =>
          obtain ⟨even', spells⟩ := here.escapes c tail rfl
          refine ⟨scanAt_of_spells (even.mpr even') spells, by simp, ?_⟩
          rintro c' tail' ⟨rfl, rfl⟩
          exact ⟨even.mpr even', spells⟩
      | illFormed len => exact absurd List.mem_cons_self (formed len)

/-- From `first` to `t` the escape errors only grew, and where they did not no ill-formed escape was
read. -/
def LogicalLexer.Formed (first t : LogicalLexer) : Prop :=
  first.escapeErrors <+: t.escapeErrors ∧ ∃ passed, t.done = first.done ++ passed ∧
    (t.escapeErrors = first.escapeErrors → WellFormed passed)

theorem LogicalLexer.Formed.exec {first t t' : LogicalLexer} {β : Type} {o : LexOp β} {b : β}
    (formed : first.Formed t) (steps : logicalMachine.exec o t = .ok (b, t')) : first.Formed t' := by
  obtain ⟨grows, passed, done, known⟩ := formed
  cases acts_of_exec steps with
  | @reads lc cs escapeErrors rest records =>
      have moved : (t.move 1 escapeErrors).done = first.done ++ (passed ++ [lc]) := by
        rw [← List.append_assoc, ← done]
        simp [LogicalLexer.done, move, rest]
      cases lc with
      | illFormed len =>
          rw [recordEscape] at records
          cases wraps : UnicodeEscapeError.new t.current len with
          | error e => simp [wraps, bind, Except.bind] at records
          | ok error =>
              rw [wraps] at records
              cases records
              refine ⟨grows.trans (List.prefix_append _ _), _, moved, fun same => ?_⟩
              have longer := grows.length_le
              have equal := congrArg List.length same
              rw [show (t.move 1 (t.escapeErrors ++ [error])).escapeErrors =
                t.escapeErrors ++ [error] from rfl, List.length_append,
                List.length_singleton] at equal
              omega
      | plain c | escape c tail =>
          cases records
          refine ⟨grows, _, moved, fun same len inside => ?_⟩
          rcases List.mem_append.mp inside with early | late
          · exact known same len early
          · simp at late
  | @matched expected stands =>
      refine ⟨grows, passed ++ expected.text.map LogicalChar.plain, ?_, fun same len inside => ?_⟩
      · rw [← List.append_assoc, ← done, ← take_of_isAtRaw stands, LogicalLexer.done,
          LogicalLexer.done, List.append_assoc]
        rfl
      · rcases List.mem_append.mp inside with early | late
        · exact known same len early
        · simp at late
  | begins =>
      refine ⟨grows, passed, ?_, known⟩
      rw [← done]
      simp [LogicalLexer.newToken, LogicalLexer.done]
  | stays | emits | reports | switches => exact ⟨grows, passed, done, known⟩

/-- A part of a decoded text without ill-formed escapes, which does not start with a backslash, decodes
to the same characters on its own. -/
theorem decoded_alone {xs ys zs : List LogicalChar} (decoded : Decoded (xs ++ (ys ++ zs)))
    (formed : WellFormed ys) (starts : LogicalLexer.look ys 0 ≠ '\\') : Decoded ys := by
  have context : DecodedAfter (spelled xs) (ys ++ zs) := decoded.drop
  cases ys with
  | nil => trivial
  | cons lc ys =>
      have formed' : WellFormed ys := fun len inside => formed len (List.mem_cons_of_mem _ inside)
      cases lc with
      | plain c =>
          have other : c ≠ '\\' := starts
          have after : ∀ text, EvenBefore (text ++ [c]) := fun text => evenBefore_snoc other
          exact ⟨reads_plain other,
            DecodedAfter.part (iff_of_true (after []) (after (spelled xs))) formed' context.2⟩
      | escape c tail =>
          have even := (context.1.escapes c tail rfl).1
          exact DecodedAfter.part (iff_of_true evenBefore_nil even) formed context
      | illFormed len => exact absurd List.mem_cons_self (formed len)

/-- The quotes of a literal and the text between them. -/
structure Quoted (q : Char) (raw body : Text) : Prop where
  whole : translateUnicodeEscapes raw = .ok (q :: (body ++ [q]))
  inner : ∀ text, raw = q :: (text ++ [q]) → translateUnicodeEscapes text = .ok body
  ends : raw.head? = some q → raw.getLast? = some q → ∃ text, raw = q :: (text ++ [q])

/-- A character whose text starts with something else than a backslash is written as itself. -/
theorem plain_of_head {q : Char} {lc : LogicalChar} {text : Text} (other : q ≠ '\\')
    (head : (lc.spelling ++ text).head? = some q) : lc = .plain q := by
  cases lc with
  | plain c => rw [Option.some.inj head]
  | escape c tail | illFormed len => exact absurd (Option.some.inj head).symm other

/-- A character whose text ends with something else than a hexadecimal digit is no escape. -/
theorem plain_of_last {q : Char} {lc : LogicalChar} {before text : Text} (other : q ≠ '\\')
    (noHex : isAsciiHexdigit q = false) (reads : lc.Reads before [])
    (last : (text ++ lc.spelling).getLast? = some q) : lc = .plain q := by
  cases lc with
  | plain c =>
      rw [LogicalChar.spelling, List.getLast?_concat] at last
      rw [Option.some.inj last]
  | illFormed len =>
      rw [LogicalChar.spelling, List.getLast?_concat] at last
      exact absurd (Option.some.inj last).symm other
  | escape c tail =>
      obtain ⟨front, d, same, hex⟩ := HirDef.hexdigit_of_spells (reads.escapes c tail rfl).2
      rw [show (LogicalChar.escape c tail).spelling = front ++ [d] from same, ← List.append_assoc,
        List.getLast?_concat] at last
      rw [Option.some.inj last, noHex] at hex
      cases hex

theorem quoted_of_decoded {q : Char} {whole : List LogicalChar} {body : Text} (other : q ≠ '\\')
    (noHex : isAsciiHexdigit q = false) (decoded : Decoded whole) (formed : WellFormed whole)
    (chars : charsOf whole = q :: (body ++ [q])) : Quoted q (spelled whole) body := by
  have translated := (translate_decoded decoded).mpr ⟨escapesFit_of_formed formed, chars.symm⟩
  obtain ⟨opening, others, rfl, openChar, rest⟩ := List.map_eq_cons_iff.mp chars
  obtain ⟨inner, closing, rfl, innerChars, closeChars⟩ := List.map_eq_append_iff.mp rest
  obtain ⟨close, rfl, closeChar⟩ := List.map_eq_singleton_iff.mp closeChars
  have formed' : WellFormed inner := fun len inside => formed len (by simp [inside])
  have last : close.Reads (opening.spelling ++ spelled inner) [] := decoded.2.drop.1
  have text : spelled (opening :: (inner ++ [close])) =
      opening.spelling ++ (spelled inner ++ close.spelling) := by
    simp [spelled]
  have plain : (spelled (opening :: (inner ++ [close]))).head? = some q →
      (spelled (opening :: (inner ++ [close]))).getLast? = some q →
      opening = .plain q ∧ close = .plain q := by
    rw [text]
    intro head tail
    rw [← List.append_assoc] at tail
    exact ⟨plain_of_head other head, plain_of_last other noHex last tail⟩
  refine ⟨translated, ?_, ?_⟩
  · intro raw same
    obtain ⟨rfl, rfl⟩ := plain (by rw [same]; rfl) (by rw [same, ← List.cons_append, List.getLast?_concat])
    obtain rfl : spelled inner = raw := by
      rw [text] at same
      exact List.append_cancel_right (List.cons.inj same).2
    have even : EvenBefore [] ↔ EvenBefore (LogicalChar.plain q).spelling :=
      iff_of_true evenBefore_nil (evenBefore_snoc other : EvenBefore ([] ++ [q]))
    have alone : Decoded inner := DecodedAfter.part even formed' decoded.2
    exact (translate_decoded alone).mpr ⟨escapesFit_of_formed formed', innerChars.symm⟩
  · intro head tail
    obtain ⟨rfl, rfl⟩ := plain head tail
    exact ⟨spelled inner, text⟩

/-- What an accepted literal is made of. -/
theorem content_of_lex {U : UnicodeTables} {fuel : Nat} {source chars : Text} {tokens : List Token}
    {errors : List LexicalError} {l l' : Lexer} {token : Token}
    (lexed : lex U fuel source = some (tokens, errors))
    (accepts : AcceptsLiteral U source l l' token chars) :
    ∃ body value, chars = quoteOf token.kind :: (body ++ [quoteOf token.kind]) ∧
      Denotes body value ∧ (token.kind = .charLiteral → value.length = 1) ∧
      Quoted (quoteOf token.kind) token.lexeme body := by
  rcases lex_eq_some.mp lexed with ⟨final, runs, -, -⟩
  rcases decodes_of_returns ⟨fuel, runs⟩ with ⟨all, decodes⟩
  rcases decode_eq_some.mp decodes with ⟨decoded, rfl⟩
  rcases (loopHead_image decoded).mp accepts.head with ⟨t, head, rfl⟩
  rcases machine_image.returns.mp accepts.step with ⟨t', step, rfl⟩
  have sees : LogicalLexer.look t.rest 0 = quoteOf token.kind := by
    have starts := accepts.starts
    rw [t.concrete_peekN] at starts
    exact Except.ok.inj starts
  have real : quoteOf token.kind ≠ '\x00' ∧ quoteOf token.kind ≠ '\\' ∧
      isAsciiHexdigit (quoteOf token.kind) = false := by
    rcases accepts.kind with kind | kind <;> rw [kind] <;> decide
  have more : t.rest ≠ [] := rest_ne_nil_of_look real.1 sees
  have emits : t'.tokens = t.tokens ++ [token] := accepts.emits
  obtain ⟨body, value, rest, denotes, single⟩ :=
    content_of_step accepts.kind sees step accepts.quiet.1 emits
  obtain ⟨consumed, -, ahead, done, cover⟩ := (scanNextToken_consumes more).of_returns step
  have content : charsOf consumed = quoteOf token.kind :: (body ++ [quoteOf token.kind]) := by
    have split : charsOf t.rest = charsOf consumed ++ charsOf t'.rest := by
      rw [ahead]
      exact List.map_append
    apply List.append_cancel_right (split.symm.trans _)
    rw [rest]
    simp
  have lexeme : token.lexeme = spelled consumed := by
    split at cover
    · rw [cover] at emits
      simp at emits
    · rcases cover with ⟨tokenType, cover⟩
      rw [cover, List.append_cancel_left_eq, List.singleton_inj] at emits
      rw [← emits]
      rfl
  have formed : WellFormed consumed := by
    have start : t.Formed t := ⟨List.prefix_rfl, [], by simp, fun _ => by simp [WellFormed]⟩
    obtain ⟨-, passed, same, known⟩ := step.keeps (t.Formed ·) (fun _ _ _ _ kept => kept.exec) start
    rw [done, List.append_cancel_left_eq] at same
    exact same ▸ known accepts.quiet.2
  have whole : Decoded (t.done ++ (consumed ++ t'.rest)) := by
    have all := t.decoded
    rwa [← List.append_assoc, ahead] at all
  have starts : LogicalLexer.look consumed 0 = quoteOf token.kind := by
    rw [LogicalLexer.look, show consumed.map LogicalChar.char = _ from content, List.getD_cons_zero]
  refine ⟨body, value, ?_, denotes, single, ?_⟩
  · rw [accepts.delivers.unique (delivers_step head step ahead done), content]
  · rw [lexeme]
    exact quoted_of_decoded real.2.1 real.2.2
      (decoded_alone whole formed (by rw [starts]; exact real.2.1)) formed content

end CaffeineLs.JavaSyntax

namespace CaffeineLs.HirDef

open JavaSyntax
open SourceText

/-! ### What the lowering decodes -/

/-- An octal escape whose first digit is beyond `3` is followed by a third digit. -/
def longOctal : Text → Bool
  | [] => false
  | c :: rest =>
      if c ≠ '\\' then longOctal rest
      else
        match rest with
        | [] => false
        | a :: rest =>
            (isOctalDigit a && !(a ≤ '3') && startsOctal rest && startsOctal rest.tail) || longOctal rest

theorem longOctal_plain {c : Char} {rest : Text} (other : c ≠ '\\') :
    longOctal (c :: rest) = longOctal rest := by
  rw [longOctal.eq_def]
  simp [other]

theorem octal_plain_escape {a : Char} (octal : isOctalDigit a = true) : a ≠ '\\' :=
  (octal_plain octal).2.2.1

theorem pushEscape_simple {c v : Char} (known : (c, v) ∈ simpleEscapes) (out rest : Text) :
    pushEscape out c rest = some (out ++ [v], rest) := by
  simp only [simpleEscapes, List.mem_cons, List.not_mem_nil, or_false, Prod.mk.injEq] at known
  rcases known with ⟨rfl, rfl⟩ | ⟨rfl, rfl⟩ | ⟨rfl, rfl⟩ | ⟨rfl, rfl⟩ | ⟨rfl, rfl⟩ | ⟨rfl, rfl⟩ |
    ⟨rfl, rfl⟩ | ⟨rfl, rfl⟩ | ⟨rfl, rfl⟩ <;> rfl

theorem pushEscape_octal {a : Char} (octal : isOctalDigit a = true) (out rest : Text) :
    pushEscape out a rest = (octalRounds 2 (a.toNat - '0'.toNat) rest).map fun (value, rest) =>
      (out ++ [Char.ofNat value], rest) := by
  have other : ∀ {c : Char}, isOctalDigit c = false → a ≠ c := by
    rintro c no rfl
    rw [octal] at no
    cases no
  rw [pushEscape, if_neg (other (by decide)), if_neg (other (by decide)), if_neg (other (by decide)),
    if_neg (other (by decide)), if_neg (other (by decide)), if_neg (other (by decide)),
    if_neg (other (by decide)), if_neg (other (by decide)), if_neg (other (by decide)), if_pos octal]

theorem octal_value {a : Char} (octal : isOctalDigit a = true) :
    a.toNat - '0'.toNat ≤ 7 ∧ (a ≤ '3' ↔ a.toNat - '0'.toNat ≤ 3) := by
  simp only [isOctalDigit, Bool.and_eq_true, decide_eq_true_eq, le_iff_toNat] at octal
  have zero : '0'.toNat = 48 := by decide
  have three : '3'.toNat = 51 := by decide
  have seven : '7'.toNat = 55 := by decide
  rw [le_iff_toNat]
  omega

theorem longOctal_escape {a : Char} {rest : Text} :
    longOctal ('\\' :: a :: rest) =
      (isOctalDigit a && !(a ≤ '3') && startsOctal rest && startsOctal rest.tail || longOctal rest) := by
  rw [longOctal, if_neg (by simp)]

theorem octalRounds_digit {n value : Nat} {c : Char} {rest : Text} (octal : isOctalDigit c = true) :
    octalRounds (n + 1) value (c :: rest) =
      if value * 8 + (c.toNat - '0'.toNat) < 256 then
        octalRounds n (value * 8 + (c.toNat - '0'.toNat)) rest
      else none := by
  rw [octalRounds.eq_def]
  simp only [octal, if_true]

theorem octalRounds_stop {n value : Nat} {rest : Text} (ends : startsOctal rest = false) :
    octalRounds n value rest = some (value, rest) := by
  cases n with
  | zero => rfl
  | succ n =>
      cases rest with
      | nil => rfl
      | cons c rest =>
          have other : isOctalDigit c = false := ends
          rw [octalRounds.eq_def]
          simp [other]

/-- What the lowering makes of an octal escape and the text after it. -/
theorem octal_decoded {digits body : Text} (escape : OctalEscape digits body) :
    ∃ a rest wide, digits = a :: rest ∧ isOctalDigit a = true ∧
      octalRounds 2 (a.toNat - '0'.toNat) (rest ++ body) =
        (if wide then none else some (octalValue digits, body)) ∧
      (wide = true → startsOctal body = true) ∧ longOctal ('\\' :: (digits ++ body)) = (wide || longOctal body) := by
  cases escape with
  | @one a _ first ends =>
      refine ⟨a, [], false, rfl, first, ?_, nofun, ?_⟩
      · rw [List.nil_append, octalRounds_stop ends]
        simp [octalValue]
      · rw [List.singleton_append, longOctal_escape, ends]
        simp
  | @two a b _ first second ends =>
      have high := octal_value first
      have low := octal_value second
      have inside : (a.toNat - '0'.toNat) * 8 + (b.toNat - '0'.toNat) < 256 := by omega
      have tail : longOctal (b :: body) = longOctal body := longOctal_plain (octal_plain_escape second)
      refine ⟨a, [b], startsOctal body, rfl, first, ?_, id, ?_⟩
      · rw [List.singleton_append, octalRounds_digit second, if_pos inside]
        cases third : startsOctal body with
        | false =>
            rw [octalRounds_stop third]
            simp [octalValue]
        | true =>
            have large : ¬ a ≤ '3' := fun small => by simp [ends small] at third
            rw [high.2] at large
            cases body with
            | nil => cases third
            | cons c body => rw [octalRounds_digit third, if_neg (by omega), if_pos rfl]
      · rw [List.cons_append, List.singleton_append, longOctal_escape, first, tail]
        cases third : startsOctal body with
        | false => simp [third]
        | true =>
            have large : ¬ a ≤ '3' := fun small => by simp [ends small] at third
            have second' : startsOctal (b :: body) = true := second
            simp [second', third, large]
  | @three a b c _ first small second third =>
      have high := octal_value first
      have middle := octal_value second
      have low := octal_value third
      have small' := high.2.mp small
      refine ⟨a, [b, c], false, rfl, first, ?_, nofun, ?_⟩
      · rw [List.cons_append, List.singleton_append, octalRounds_digit second, if_pos (by omega),
          octalRounds_digit third, if_pos (by omega), octalRounds]
        simp [octalValue]
      · rw [List.cons_append, List.cons_append, List.singleton_append, longOctal_escape,
          longOctal_plain (octal_plain_escape second), longOctal_plain (octal_plain_escape third)]
        simp [small]

theorem decodeChars_plain {n : Nat} {out rest : Text} {c : Char} (other : c ≠ '\\') :
    decodeChars (n + 1) out (c :: rest) = decodeChars n (out ++ [c]) rest := by
  rw [decodeChars.eq_def]
  simp [other]

theorem decodeChars_escape {n : Nat} {out rest : Text} {escaped : Char} :
    decodeChars (n + 1) out ('\\' :: escaped :: rest) =
      (pushEscape out escaped rest).bind fun (out, rest) => decodeChars n out rest := by
  rw [decodeChars, if_neg (by simp)]
  rfl

/-- The content of a literal is decoded to its value, unless an octal escape overflows. -/
theorem decodeChars_eq {body value : Text} (denotes : Denotes body value) {n : Nat} {out : Text}
    (enough : body.length ≤ n) :
    decodeChars n out body = if longOctal body then none else some (out ++ value) := by
  induction denotes generalizing n out with
  | nil => cases n <;> simp [decodeChars, longOctal]
  | @cons piece body value v first later ih =>
      cases first with
      | plain other =>
          rw [List.singleton_append, List.length_cons] at enough
          obtain ⟨m, rfl⟩ : ∃ m, n = m + 1 := Nat.exists_eq_add_one.mpr (by omega)
          rw [List.singleton_append, decodeChars_plain other, ih (by omega), longOctal_plain other,
            List.append_assoc, List.singleton_append]
      | @simple c _ _ known =>
          simp only [List.cons_append, List.nil_append, List.length_cons] at enough ⊢
          obtain ⟨m, rfl⟩ : ∃ m, n = m + 1 := Nat.exists_eq_add_one.mpr (by omega)
          simp only [decodeChars_escape, pushEscape_simple known, Option.bind_some, longOctal_escape,
            simpleEscape_other known, Bool.false_and, Bool.false_or]
          rw [ih (by omega), List.append_assoc, List.singleton_append]
      | octal escape =>
          obtain ⟨a, rest, wide, rfl, digit, rounds, -, long⟩ := octal_decoded escape
          simp only [List.cons_append, List.length_cons, List.length_append] at enough long ⊢
          obtain ⟨m, rfl⟩ : ∃ m, n = m + 1 := Nat.exists_eq_add_one.mpr (by omega)
          simp only [decodeChars_escape, pushEscape_octal digit, rounds, long]
          cases wide with
          | true => rfl
          | false =>
              simp only [Bool.false_eq_true, if_false, Option.map_some, Option.bind_some,
                Bool.false_or]
              rw [ih (by omega), List.append_assoc, List.singleton_append]

/-! ### The law -/

/-- The value that the lowering gives the literal. -/
def lowered (token : Token) : Option Text :=
  match token.kind with
  | .charLiteral => (unescapeChar token.lexeme).map fun c => [c]
  | _ => unescapeString token.lexeme

/-- Both quotes are written as themselves. -/
def PlainQuotes (token : Token) : Prop :=
  token.lexeme.head? = some (quoteOf token.kind) ∧ token.lexeme.getLast? = some (quoteOf token.kind)

theorem unquoted_self {q : Char} {text : Text} : unquoted q (q :: (text ++ [q])) = text := by
  have trail : [q] <:+ text ++ [q] := List.suffix_append _ _
  simp [unquoted, stripLead, stripTrail, trail]

theorem unquoted_other {q : Char} {raw : Text} (other : ¬ (raw.head? = some q ∧ raw.getLast? = some q)) :
    unquoted q raw = raw := by
  cases raw with
  | nil => rfl
  | cons c rest =>
      by_cases head : c = q
      · subst head
        have last : ¬ [c] <:+ rest := by
          rintro ⟨front, rfl⟩
          apply other
          rw [← List.cons_append, List.getLast?_concat]
          exact ⟨rfl, rfl⟩
        simp [unquoted, stripLead, stripTrail, last]
      · simp [unquoted, stripLead, List.isPrefixOf, Ne.symm head]

section

variable {raw body value : Text}

theorem unescapeString_plain (quoted : Quoted '"' raw body) (denotes : Denotes body value)
    (head : raw.head? = some '"') (last : raw.getLast? = some '"') :
    unescapeString raw = if longOctal body then none else some value := by
  obtain ⟨text, rfl⟩ := quoted.ends head last
  rw [unescapeString, unquoted_self, decodeLine, quoted.inner text rfl]
  exact decodeChars_eq denotes (Nat.le_refl _)

/-- Quotes that are not taken off stay in the value. -/
theorem unescapeString_other (quoted : Quoted '"' raw body) (denotes : Denotes body value)
    (other : ¬ (raw.head? = some '"' ∧ raw.getLast? = some '"')) : unescapeString raw ≠ some value := by
  have ends : startsOctal ['"'] = false := by decide
  have whole : Denotes ('"' :: (body ++ ['"'])) ('"' :: (value ++ ['"'])) := by
    have close : ∀ {body value : Text}, Denotes body value → Denotes (body ++ ['"']) (value ++ ['"']) := by
      intro body value denotes
      induction denotes with
      | nil => exact .plain (by decide) .nil
      | cons first later ih =>
          rw [List.append_assoc]
          exact .cons (first.congr (startsOctal_append ends)) ih
    exact .plain (by decide) (close denotes)
  rw [unescapeString, unquoted_other other, decodeLine, quoted.whole]
  simp only
  rw [decodeChars_eq whole (Nat.le_refl _)]
  split
  · nofun
  · intro same
    have longer := congrArg List.length (Option.some.inj same)
    simp only [List.nil_append, List.length_cons, List.length_append, List.length_nil] at longer
    omega

theorem unescapeChar_plain {v : Char} (quoted : Quoted '\'' raw body) (denotes : Denotes body [v])
    (head : raw.head? = some '\'') (last : raw.getLast? = some '\'') :
    unescapeChar raw = some v := by
  obtain ⟨text, rfl⟩ := quoted.ends head last
  rw [unescapeChar, unquoted_self, quoted.inner text rfl]
  cases denotes.single with
  | plain other => simp [other]
  | simple known => simp [pushEscape_simple known]
  | octal escape =>
      obtain ⟨a, rest, wide, rfl, digit, rounds, never, -⟩ := octal_decoded escape
      have narrow : wide = false := by
        cases wide with
        | false => rfl
        | true => cases never rfl
      rw [List.append_nil, narrow] at rounds
      simp only [ne_eq, not_true_eq_false, if_false, pushEscape_octal digit, rounds]
      rfl

/-- A character with a quote that is not taken off is that quote. -/
theorem unescapeChar_other (quoted : Quoted '\'' raw body)
    (other : ¬ (raw.head? = some '\'' ∧ raw.getLast? = some '\'')) : unescapeChar raw = some '\'' := by
  rw [unescapeChar, unquoted_other other, quoted.whole]
  rfl

theorem longOctal_single {v : Char} (denotes : Denotes body [v]) : longOctal body = false := by
  cases denotes.single with
  | plain other => exact longOctal_plain other
  | simple known => rw [longOctal_escape, simpleEscape_other known]; rfl
  | octal escape =>
      obtain ⟨a, rest, wide, rfl, -, -, never, long⟩ := octal_decoded escape
      rw [List.append_nil] at long
      rw [long]
      cases wide with
      | false => rfl
      | true => cases never rfl

end

/-- A literal that the lexer accepts is decoded to its value exactly when both quotes are written as
themselves, or the value is the quote of a character, and no octal escape overflows. -/
theorem literal_decoded_iff {U : UnicodeTables} {fuel : Nat} {source chars : Text}
    {tokens : List Token} {errors : List LexicalError} {l l' : Lexer} {token : Token}
    (lexed : lex U fuel source = some (tokens, errors))
    (accepts : AcceptsLiteral U source l l' token chars) :
    ∃ body value, chars = quoteOf token.kind :: (body ++ [quoteOf token.kind]) ∧
      Denotes body value ∧ (∀ value', Denotes body value' → value' = value) ∧
      (lowered token = some value ↔ longOctal body = false ∧
        (PlainQuotes token ∨ token.kind = .charLiteral ∧ value = ['\''])) := by
  obtain ⟨body, value, rfl, denotes, single, quoted⟩ := content_of_lex lexed accepts
  refine ⟨body, value, rfl, denotes, fun _ denotes' => denotes'.unique denotes, ?_⟩
  rw [PlainQuotes]
  rcases accepts.kind with kind | kind
  · obtain ⟨v, rfl⟩ := List.length_eq_one_iff.mp (single kind)
    rw [lowered, kind, longOctal_single denotes]
    rw [kind] at quoted
    by_cases plain : token.lexeme.head? = some '\'' ∧ token.lexeme.getLast? = some '\''
    · simp [unescapeChar_plain quoted denotes plain.1 plain.2, quoteOf, plain]
    · simp [unescapeChar_other quoted plain, quoteOf, plain, eq_comm]
  · rw [lowered, kind]
    rw [kind] at quoted
    by_cases plain : token.lexeme.head? = some '"' ∧ token.lexeme.getLast? = some '"'
    · cases long : longOctal body <;>
        simp [unescapeString_plain quoted denotes plain.1 plain.2, quoteOf, plain, long]
    · simp [unescapeString_other quoted denotes plain, quoteOf, plain]

/-- The lexer after a source that is one literal to it. -/
def literalAlone (kind : SyntaxKind) (source : Text) : Lexer :=
  { reader := { source := source, start := 0, current := byteLen source, errors := [] },
    tokens := [⟨kind, source, 0⟩], errors := [],
    templates := { mode := .normal, templateStack := [] } }

theorem accepts_letter : AcceptsLiteral latin1 ['\'', 'a', '\''] (.new ['\'', 'a', '\''])
    (literalAlone .charLiteral ['\'', 'a', '\'']) ⟨.charLiteral, ['\'', 'a', '\''], 0⟩
    ['\'', 'a', '\''] where
  head := .first ⟨3, by decide⟩
  kind := .inl rfl
  starts := by decide
  step := ⟨9, by decide⟩
  emits := rfl
  quiet := ⟨rfl, rfl⟩
  delivers := .advance (by decide) rfl (.advance (by decide) rfl (.advance (by decide) rfl (.done rfl)))

/-- A letter between quotes is decoded. -/
theorem letter_decoded : ∃ body value, ['\'', 'a', '\''] = '\'' :: (body ++ ['\'']) ∧
    Denotes body value ∧ (∀ value', Denotes body value' → value' = value) ∧
      (lowered ⟨.charLiteral, ['\'', 'a', '\''], 0⟩ = some value ↔ longOctal body = false ∧
        (PlainQuotes ⟨.charLiteral, ['\'', 'a', '\''], 0⟩ ∨
          SyntaxKind.charLiteral = .charLiteral ∧ value = ['\''])) := by
  have lexed : lex latin1 12 ['\'', 'a', '\''] =
      some ([⟨.charLiteral, ['\'', 'a', '\''], 0⟩, ⟨.eof, [], 3⟩], []) := by decide
  exact literal_decoded_iff lexed accepts_letter

/-- An escape of two digits before a third is a space and a digit, but the lowering does not decode it. -/
theorem wide_octal_undecoded :
    (∃ tokens, lex latin1 12 ['"', '\\', '4', '0', '0', '"'] = some (tokens, [])) ∧
      AcceptsLiteral latin1 ['"', '\\', '4', '0', '0', '"'] (.new ['"', '\\', '4', '0', '0', '"'])
        (literalAlone .stringLiteral ['"', '\\', '4', '0', '0', '"'])
        ⟨.stringLiteral, ['"', '\\', '4', '0', '0', '"'], 0⟩ ['"', '\\', '4', '0', '0', '"'] ∧
      Denotes ['\\', '4', '0', '0'] [' ', '0'] ∧
      lowered ⟨.stringLiteral, ['"', '\\', '4', '0', '0', '"'], 0⟩ = none := by
  have lexed : lex latin1 12 ['"', '\\', '4', '0', '0', '"'] =
      some ([⟨.stringLiteral, ['"', '\\', '4', '0', '0', '"'], 0⟩, ⟨.eof, [], 6⟩], []) := by decide
  refine ⟨⟨_, lexed⟩, ⟨.first ⟨3, by decide⟩, .inr rfl, by decide, ⟨12, by decide⟩, rfl, ⟨rfl, rfl⟩, ?_⟩,
    ?_, by decide⟩
  · exact .advance (by decide) rfl (.advance (by decide) rfl (.advance (by decide) rfl
      (.advance (by decide) rfl (.advance (by decide) rfl (.advance (by decide) rfl (.done rfl))))))
  · have space : Char.ofNat (octalValue ['4', '0']) = ' ' := by decide
    have escape : OctalEscape ['4', '0'] ['0'] :=
      .two (by decide) (by decide) fun small => absurd small (by decide)
    rw [← space]
    exact .cons (.octal escape) (.plain (by decide) .nil)

end CaffeineLs.HirDef
