/-
Module: CaffeineLs.Proofs.NumberScanning
Purpose: What `handle_number` reads: the parts of a number, one after the other, and for which of
  them it reports an error.
Trusted boundary: none
Main exports: Reads, NumberShape, Unreported
-/
import CaffeineLs.Proofs.JavaLiterals

namespace CaffeineLs.JavaSyntax

open Imperative
open SourceText

/-! ### Digits -/

/-- Digits, with underscores only between them. -/
def Digits (p : Char → Bool) (text : Text) : Prop :=
  text ≠ [] ∧ (∀ c ∈ text, p c = true ∨ c = '_') ∧ text.head? ≠ some '_' ∧
    text.getLast? ≠ some '_'

/-- The last character is an underscore; `before` says whether the one before the text is. -/
def endsInUnderscore (before : Bool) (text : Text) : Bool :=
  (text.getLast?.map fun c => decide (c = '_')).getD before

@[simp] theorem endsInUnderscore_nil (before : Bool) : endsInUnderscore before [] = before := rfl

@[simp] theorem endsInUnderscore_cons (before : Bool) (c : Char) (text : Text) :
    endsInUnderscore before (c :: text) = endsInUnderscore (c = '_') text := by
  cases text <;> simp [endsInUnderscore, List.getLast?_cons]

theorem endsInUnderscore_false {text : Text} :
    endsInUnderscore false text = true ↔ text.getLast? = some '_' := by
  cases last : text.getLast? <;> simp [endsInUnderscore, last]

/-! ### Readings -/

/-- From `t` to `t'` the characters of `text` are read, no token is completed, and an invalid
number is reported if `reported` says so. -/
structure Reads (t : LogicalLexer) (text : Text) (reported : Prop) (t' : LogicalLexer) : Prop where
  rest : charsOf t.rest = text ++ charsOf t'.rest
  tokens : t'.tokens = t.tokens
  errors : ∃ new, t'.errors = t.errors ++ new ∧ (∀ e ∈ new, e.kind = .invalidNumber) ∧
    (new ≠ [] ↔ reported)

namespace Reads

variable {t t' t'' : LogicalLexer} {text text' : Text} {p q : Prop}

theorem refl (t : LogicalLexer) : Reads t [] False t where
  rest := rfl
  tokens := rfl
  errors := ⟨[], by simp⟩

theorem trans (first : Reads t text p t') (second : Reads t' text' q t'') :
    Reads t (text ++ text') (p ∨ q) t'' where
  rest := by rw [first.rest, second.rest, List.append_assoc]
  tokens := second.tokens.trans first.tokens
  errors := by
    rcases first.errors with ⟨new, grown, kinds, some⟩
    rcases second.errors with ⟨new', grown', kinds', some'⟩
    refine ⟨new ++ new', by rw [grown', grown, List.append_assoc], ?_, ?_⟩
    · intro e inside
      rcases List.mem_append.mp inside with early | late
      · exact kinds e early
      · exact kinds' e late
    · rw [← some, ← some']
      simp only [ne_eq, List.append_eq_nil_iff, not_and_or]

theorem congr (reads : Reads t text p t') (same : p ↔ q) : Reads t text q t' where
  rest := reads.rest
  tokens := reads.tokens
  errors := by
    rcases reads.errors with ⟨new, grown, kinds, some⟩
    exact ⟨new, grown, kinds, some.trans same⟩

/-- What is read after nothing was reported. -/
theorem then_ (reads : Reads t text False t') (later : Reads t' text' q t'') :
    Reads t (text ++ text') q t'' :=
  (reads.trans later).congr (by simp)

end Reads

section Operations

variable {α : Type} {t t' : LogicalLexer}

theorem returns_peekN {n : Nat} {k : Char → Lex α} {a : α} :
    Returns logicalMachine (peekN n >>= k) t a t' ↔
      Returns logicalMachine (k (LogicalLexer.look t.rest n)) t a t' := by
  constructor
  · intro returns
    rcases returns_op.mp returns with ⟨c, t₁, same, later⟩
    cases same
    exact later
  · intro later
    exact returns_op.mpr ⟨_, t, rfl, later⟩

/-- Reading a character. -/
theorem returns_advance {k : Char → Lex α} {a : α} (more : t.rest ≠ [])
    (returns : Returns logicalMachine (advance >>= k) t a t') :
    ∃ t₁, Reads t [LogicalLexer.look t.rest 0] False t₁ ∧
      Returns logicalMachine (k (LogicalLexer.look t.rest 0)) t₁ a t' := by
  rcases returns_op.mp returns with ⟨c, t₁, taken, later⟩
  change t.take.map _ = _ at taken
  rcases List.exists_cons_of_ne_nil more with ⟨lc, cs, rest⟩
  rw [LogicalLexer.take_eq rest] at taken
  cases recorded : t.recordEscape lc with
  | error e =>
      rw [recorded] at taken
      cases taken
  | ok escapeErrors =>
      rw [recorded] at taken
      cases taken
      refine ⟨t.move 1 escapeErrors, ⟨?_, rfl, [], by simp [LogicalLexer.move], by simp, by simp⟩,
        later⟩
      simp [LogicalLexer.move, rest]

/-- A character that a test for real characters admits is one of those ahead. -/
theorem more_of_look {n : Nat} {p : Char → Bool} (real : p '\x00' = false)
    (sees : p (LogicalLexer.look t.rest n) = true) : t.rest ≠ [] := by
  intro nothing
  rw [nothing, LogicalLexer.look_nil, real] at sees
  cases sees

theorem reads_reportIf {wrong : Bool} {u : Unit}
    (returns : Returns logicalMachine (reportIf wrong .invalidNumber) t u t') :
    Reads t [] (wrong = true) t' := by
  cases wrong with
  | false =>
      rcases returns_pure.mp returns with ⟨-, rfl⟩
      exact (Reads.refl t).congr (by simp)
  | true =>
      rcases returns_op.mp returns with ⟨_, t₁, reported, last⟩
      rcases returns_pure.mp last with ⟨-, rfl⟩
      change (t.reportError .invalidNumber).map _ = _ at reported
      rw [LogicalLexer.reportError] at reported
      split at reported
      · cases reported
        exact ⟨rfl, rfl, _, rfl, by simp, by simp⟩
      · cases reported

/-- What stops a run of digits: a character that is neither a digit nor an underscore, or the end of
the source. -/
def Stops (p : Char → Bool) (rest : Text) : Prop :=
  p (rest.headD '\x00') = false ∧ rest.headD '\x00' ≠ '_'

theorem look_zero (rest : List LogicalChar) :
    LogicalLexer.look rest 0 = (charsOf rest).headD '\x00' := by
  cases rest <;> rfl

/-- A loop reads characters up to one that stops it, when its rounds do: `flag` says which of them
set the first flag, `foreign` which are reported. -/
theorem reads_run {body : Bool × Bool → Lex ((Bool × Bool) ⊕ (Bool × Bool))}
    {p flag foreign : Char → Bool}
    (leave : ∀ {state t ends t'}, Returns logicalMachine (body state) t (.inr ends) t' →
      ends = state ∧ t' = t ∧ Stops p (charsOf t.rest))
    (next : ∀ {state t state' t'}, Returns logicalMachine (body state) t (.inl state') t' →
      ∃ c, Reads t [c] (foreign c = true) t' ∧ (p c = true ∨ c = '_') ∧
        state' = (state.1 || flag c, decide (c = '_')))
    {state ends : Bool × Bool}
    (returns : Returns logicalMachine (.loop body state .pure) t ends t') :
    ∃ text, Reads t text (text.any foreign = true) t' ∧ (∀ c ∈ text, p c = true ∨ c = '_') ∧
      Stops p (charsOf t'.rest) ∧ ends = (state.1 || text.any flag, endsInUnderscore state.2 text) := by
  apply returns.loop_induction (motive := fun state t => ∃ text,
    Reads t text (text.any foreign = true) t' ∧ (∀ c ∈ text, p c = true ∨ c = '_') ∧
      Stops p (charsOf t'.rest) ∧ ends = (state.1 || text.any flag, endsInUnderscore state.2 text))
  · intro state t b t₁ round last
    rcases returns_pure.mp last with ⟨rfl, rfl⟩
    rcases leave round with ⟨rfl, rfl, stops⟩
    exact ⟨[], (Reads.refl t₁).congr (by simp), by simp, stops, by simp⟩
  · intro state t state' t₁ round _ ih
    rcases next round with ⟨c, first, admitted, rfl⟩
    rcases ih with ⟨text, reads, only, stops, rfl⟩
    refine ⟨c :: text, (first.trans reads).congr (by simp), ?_, stops, ?_⟩
    · intro d inside
      rcases List.mem_cons.mp inside with rfl | later
      · exact admitted
      · exact only d later
    · simp [Bool.or_assoc]

/-- What follows a consumed character in a round. -/
theorem round_consumes {state state' : Bool × Bool} (more : t.rest ≠ [])
    (returns : Returns logicalMachine
      (advance >>= fun _ => pure (.inl state : (Bool × Bool) ⊕ (Bool × Bool))) t (.inl state') t') :
    Reads t [LogicalLexer.look t.rest 0] False t' ∧ state' = state := by
  rcases returns_advance more returns with ⟨t₁, reads, last⟩
  rcases returns_pure.mp last with ⟨same, rfl⟩
  exact ⟨reads, (Sum.inl.inj same).symm⟩

/-- A round that consumes a character does not leave. -/
theorem round_stays {state ends : Bool × Bool} (returns : Returns logicalMachine
      (advance >>= fun _ => pure (.inl state : (Bool × Bool) ⊕ (Bool × Bool))) t (.inr ends) t') :
    False := by
  rcases returns_op.mp returns with ⟨_, _, _, last⟩
  simpa using (returns_pure.mp last).1

/-- A run of digits of a fraction or an exponent is read to its end. -/
theorem reads_digits {p : Char → Bool} (real : p '\x00' = false) (noUnderscore : p '_' = false)
    {ends : Bool × Bool}
    (returns : Returns logicalMachine (.loop (digitRound p) (false, false) .pure) t ends t') :
    ∃ text, Reads t text False t' ∧ (∀ c ∈ text, p c = true ∨ c = '_') ∧ Stops p (charsOf t'.rest) ∧
      ends = (text.any p, endsInUnderscore false text) := by
  have leave : ∀ {state : Bool × Bool} {t : LogicalLexer} {ends : Bool × Bool} {t' : LogicalLexer},
      Returns logicalMachine (digitRound p state) t (.inr ends) t' →
        ends = state ∧ t' = t ∧ Stops p (charsOf t.rest) := by
    intro ⟨hasDigits, underscore⟩ t ends t' round
    have leaves := returns_peekN.mp round
    split at leaves
    · exact (round_stays leaves).elim
    · rename_i noDigit
      split at leaves
      · exact (round_stays leaves).elim
      · rename_i other
        rcases returns_pure.mp leaves with ⟨same, rfl⟩
        rw [look_zero] at noDigit other
        exact ⟨(Sum.inr.inj same).symm, rfl, by simpa using noDigit, other⟩
  have next : ∀ {state : Bool × Bool} {t : LogicalLexer} {state' : Bool × Bool} {t' : LogicalLexer},
      Returns logicalMachine (digitRound p state) t (.inl state') t' →
        ∃ c, Reads t [c] (false = true) t' ∧ (p c = true ∨ c = '_') ∧
          state' = (state.1 || p c, decide (c = '_')) := by
    intro ⟨hasDigits, underscore⟩ t state' t' round
    have goes := returns_peekN.mp round
    split at goes
    · rename_i digit
      have other : LogicalLexer.look t.rest 0 ≠ '_' := by
        intro same
        rw [same, noUnderscore] at digit
        cases digit
      rcases round_consumes (more_of_look real digit) goes with ⟨reads, rfl⟩
      exact ⟨_, reads.congr (by simp), .inl digit, by simp [digit, other]⟩
    · split at goes
      · rename_i isUnderscore
        rcases round_consumes (ne_nil_of_look isUnderscore (by decide)) goes with ⟨reads, rfl⟩
        exact ⟨_, reads.congr (by simp), .inr isUnderscore, by simp [isUnderscore, noUnderscore]⟩
      · simpa using (returns_pure.mp goes).1
  rcases reads_run leave next returns with ⟨text, reads, only, stops, ends⟩
  exact ⟨text, reads.congr (by simp), only, stops, by simpa using ends⟩

/-- The characters the integer part of a number is made of, underscores aside. -/
def isIntegerChar (U : UnicodeTables) (base : Nat) (c : Char) : Bool :=
  U.isNumeric c || isDigit c base

/-- A decimal digit out of an octal number's range. -/
def isInvalidOctalDigit (numBase : Nat) (c : Char) : Bool :=
  numBase = 8 && isAsciiDigit c && !isDigit c 8

/-- A character of the integer part that is reported at once. -/
def isForeign (numBase : Nat) (c : Char) : Bool :=
  c ≠ '_' && !isDigit c numBase && !isInvalidOctalDigit numBase c

theorem isIntegerChar_nul {U : UnicodeTables} {base : Nat} :
    isIntegerChar U base '\x00' = false := by
  rw [isIntegerChar, isNumeric_nul, isDigit_nul]
  rfl

theorem isIntegerChar_underscore {U : UnicodeTables} {base : Nat} :
    isIntegerChar U base '_' = false := by
  rw [isIntegerChar, U.isNumeric_ascii '_' (by decide)]
  rfl

/-- The integer part is read to its end, and foreign characters in it are reported. -/
theorem reads_integer {U : UnicodeTables} {numBase consumeBase : Nat} {ends : Bool × Bool}
    (returns : Returns logicalMachine
      (.loop (integerRound U numBase consumeBase) (false, false) .pure) t ends t') :
    ∃ text, Reads t text (text.any (isForeign numBase) = true) t' ∧
      (∀ c ∈ text, isIntegerChar U consumeBase c = true ∨ c = '_') ∧
      Stops (isIntegerChar U consumeBase) (charsOf t'.rest) ∧
      ends = (text.any (isInvalidOctalDigit numBase), endsInUnderscore false text) := by
  have leave : ∀ {state : Bool × Bool} {t : LogicalLexer} {ends : Bool × Bool} {t' : LogicalLexer},
      Returns logicalMachine (integerRound U numBase consumeBase state) t (.inr ends) t' →
        ends = state ∧ t' = t ∧ Stops (isIntegerChar U consumeBase) (charsOf t.rest) := by
    intro ⟨invalid, underscore⟩ t ends t' round
    have leaves := returns_peekN.mp round
    dsimp only at leaves
    split at leaves
    · split at leaves
      · split at leaves
        · exact (round_stays leaves).elim
        · rcases returns_op.mp leaves with ⟨_, _, _, later⟩
          exact (round_stays later).elim
      · exact (round_stays leaves).elim
    · rename_i noDigit
      split at leaves
      · exact (round_stays leaves).elim
      · rename_i other
        rcases returns_pure.mp leaves with ⟨same, rfl⟩
        rw [look_zero] at noDigit other
        exact ⟨(Sum.inr.inj same).symm, rfl, by simpa [isIntegerChar] using noDigit, other⟩
  have next : ∀ {state : Bool × Bool} {t : LogicalLexer} {state' : Bool × Bool} {t' : LogicalLexer},
      Returns logicalMachine (integerRound U numBase consumeBase state) t (.inl state') t' →
        ∃ c, Reads t [c] (isForeign numBase c = true) t' ∧
          (isIntegerChar U consumeBase c = true ∨ c = '_') ∧
          state' = (state.1 || isInvalidOctalDigit numBase c, decide (c = '_')) := by
    intro ⟨invalid, underscore⟩ t state' t' round
    have goes := returns_peekN.mp round
    dsimp only at goes
    split at goes
    · rename_i digit
      have admitted : isIntegerChar U consumeBase (LogicalLexer.look t.rest 0) = true := digit
      have more := more_of_look isIntegerChar_nul admitted
      have other : LogicalLexer.look t.rest 0 ≠ '_' := by
        intro same
        rw [same, isIntegerChar_underscore] at admitted
        cases admitted
      refine ⟨LogicalLexer.look t.rest 0, ?_⟩
      split at goes
      · rename_i outOfRange
        have outside : isDigit (LogicalLexer.look t.rest 0) numBase = false := by
          simpa using outOfRange
        split at goes
        · rename_i octal
          rcases round_consumes more goes with ⟨reads, rfl⟩
          simp only [Bool.and_eq_true, decide_eq_true_eq] at octal
          rw [octal.1] at outside
          have invalidOctal : isInvalidOctalDigit numBase (LogicalLexer.look t.rest 0) = true := by
            simp [isInvalidOctalDigit, octal, outside]
          exact ⟨reads.congr (by simp [isForeign, invalidOctal]), .inl admitted,
            by simp [invalidOctal, other]⟩
        · rename_i notOctal
          have regular : isInvalidOctalDigit numBase (LogicalLexer.look t.rest 0) = false := by
            simp only [Bool.and_eq_true, decide_eq_true_eq, not_and] at notOctal
            simp only [isInvalidOctalDigit, Bool.and_eq_false_imp, Bool.and_eq_true,
              decide_eq_true_eq]
            intro ⟨base, ascii⟩
            exact absurd ascii (notOctal base)
          rcases returns_op.mp goes with ⟨_, t₁, reported, later⟩
          have report : Reads t [] (true = true) t₁ :=
            reads_reportIf (returns_op.mpr ⟨_, t₁, reported, returns_pure.mpr ⟨rfl, rfl⟩⟩)
          have here : t₁.rest = t.rest := by
            change (t.reportError .invalidNumber).map _ = _ at reported
            rw [LogicalLexer.reportError] at reported
            split at reported <;> cases reported
            rfl
          rcases round_consumes (here ▸ more) later with ⟨reads, rfl⟩
          rw [here] at reads
          exact ⟨(report.trans reads).congr (by simp [isForeign, outside, regular, other]),
            .inl admitted, by simp [regular, other]⟩
      · rename_i inRange
        have inside : isDigit (LogicalLexer.look t.rest 0) numBase = true := by
          simpa using inRange
        rcases round_consumes more goes with ⟨reads, rfl⟩
        have regular : isInvalidOctalDigit numBase (LogicalLexer.look t.rest 0) = false := by
          by_cases eight : numBase = 8
          · rw [eight] at inside
            simp [isInvalidOctalDigit, inside]
          · simp [isInvalidOctalDigit, eight]
        exact ⟨reads.congr (by simp [isForeign, inside]), .inl admitted, by simp [regular, other]⟩
    · split at goes
      · rename_i isUnderscore
        rcases round_consumes (ne_nil_of_look isUnderscore (by decide)) goes with ⟨reads, rfl⟩
        refine ⟨_, reads.congr ?_, .inr isUnderscore, ?_⟩
        · simp [isUnderscore, isForeign]
        · simp [isUnderscore, isInvalidOctalDigit, isAsciiDigit]
      · simpa using (returns_pure.mp goes).1
  rcases reads_run leave next returns with ⟨text, reads, only, stops, ends⟩
  exact ⟨text, reads, only, stops, by simpa using ends⟩

/-! ### The parts of a number -/

/-- The prefix of a number and its base. -/
def numberLead : Text → Text × Nat
  | '0' :: c :: _ =>
      if c = 'x' || c = 'X' then (['0', c], 16)
      else if c = 'b' || c = 'B' then (['0', c], 2)
      else if c = '_' || isAsciiDigit c then (['0'], 8)
      else ([], 10)
  | _ => ([], 10)

/-- A fraction, which may be missing. -/
def FractionText (p : Char → Bool) (text : Text) : Prop :=
  text = [] ∨ ∃ digits, text = '.' :: digits ∧ ∀ c ∈ digits, p c = true ∨ c = '_'

/-- A fraction that is not reported. -/
def FractionOk (p : Char → Bool) (text : Text) : Prop :=
  text = [] ∨ ∃ digits, text = '.' :: digits ∧ (digits = [] ∨ Digits p digits)

def isExponentMarker (base : Nat) (c : Char) : Bool :=
  base ≠ 16 && toAsciiLowercase c = 'e' || base = 16 && toAsciiLowercase c = 'p'

def Sign (text : Text) : Prop := text = [] ∨ text = ['+'] ∨ text = ['-']

/-- An exponent, which may be missing. -/
def ExponentText (base : Nat) (text : Text) : Prop :=
  text = [] ∨ ∃ marker sign digits, text = marker :: (sign ++ digits) ∧
    isExponentMarker base marker = true ∧ Sign sign ∧ ∀ c ∈ digits, isAsciiDigit c = true ∨ c = '_'

/-- An exponent that is not reported. -/
def ExponentOk (base : Nat) (text : Text) : Prop :=
  text = [] ∨ ∃ marker sign digits, text = marker :: (sign ++ digits) ∧
    isExponentMarker base marker = true ∧ Sign sign ∧ Digits isAsciiDigit digits

def isFloatSuffix (c : Char) : Bool := toAsciiLowercase c = 'f' || toAsciiLowercase c = 'd'

def isLongSuffix (c : Char) : Bool := toAsciiLowercase c = 'l'

/-- A type suffix, which may be missing. -/
def SuffixText (text : Text) : Prop :=
  text = [] ∨ ∃ c, text = [c] ∧ (isLongSuffix c = true ∨ isFloatSuffix c = true)

theorem charsOf_look {rest : List LogicalChar} {c : Char} {text : Text}
    (ahead : charsOf rest = c :: text) : LogicalLexer.look rest 0 = c := by
  change (charsOf rest).getD 0 _ = c
  rw [ahead]
  rfl

theorem look_of_append {rest : List LogicalChar} {text after : Text} {p : Char → Bool}
    (ahead : charsOf rest = text ++ after) (stops : Stops p after) :
    LogicalLexer.look rest 0 = '_' ↔ text.head? = some '_' := by
  rw [look_zero, ahead]
  cases text with
  | nil => simpa using stops.2
  | cons c text => simp

/-- A two-character prefix is read. -/
theorem reads_prefix {base base' : Nat} {c : Char} {text : Text}
    (ahead : charsOf t.rest = '0' :: c :: text) (returns : Returns logicalMachine (do
      let _ ← advance
      let _ ← advance
      return base) t base' t') : Reads t ['0', c] False t' ∧ base' = base := by
  have more : t.rest ≠ [] := by
    intro nothing
    rw [nothing] at ahead
    cases ahead
  rcases returns_advance more returns with ⟨t₁, zero, later⟩
  rw [charsOf_look ahead] at zero
  have ahead₁ : charsOf t₁.rest = c :: text := by
    have rest := zero.rest
    rw [ahead] at rest
    simpa using rest.symm
  have more₁ : t₁.rest ≠ [] := by
    intro nothing
    rw [nothing] at ahead₁
    cases ahead₁
  rcases returns_advance more₁ later with ⟨t₂, marker, last⟩
  rw [charsOf_look ahead₁] at marker
  rcases returns_pure.mp last with ⟨same, rfl⟩
  exact ⟨zero.then_ marker, same.symm⟩

theorem reads_numberBase {base : Nat} (returns : Returns logicalMachine numberBase t base t') :
    ∃ lead, Reads t lead False t' ∧ numberLead (charsOf t.rest) = (lead, base) := by
  have first := returns_peekN.mp returns
  split at first
  · rename_i zero
    have more := ne_nil_of_look zero (by decide)
    have second := returns_peekN.mp first
    rcases look_eq_cons zero more with ⟨lc, cs, rest, isZero⟩
    have ahead : charsOf t.rest = '0' :: charsOf cs := by rw [rest, charsOf_cons, isZero]
    have next : LogicalLexer.look t.rest 1 = (charsOf cs).getD 0 '\x00' := by
      change (charsOf t.rest).getD 1 _ = _
      rw [ahead]
      rfl
    rw [next] at second
    cases tail : charsOf cs with
    | nil =>
        rw [tail] at second ahead
        rcases returns_pure.mp second with ⟨rfl, rfl⟩
        exact ⟨[], Reads.refl _, by rw [ahead]; rfl⟩
    | cons c text =>
        rw [tail] at second ahead
        simp only [List.getD_cons_zero] at second
        rw [ahead, numberLead]
        split at second
        · rename_i hex
          rcases reads_prefix ahead second with ⟨reads, rfl⟩
          exact ⟨_, reads, by rw [if_pos hex]⟩
        rename_i noHex
        rw [if_neg noHex]
        split at second
        · rename_i binary
          rcases reads_prefix ahead second with ⟨reads, rfl⟩
          exact ⟨_, reads, by rw [if_pos binary]⟩
        rename_i noBinary
        rw [if_neg noBinary]
        split at second
        · rename_i octal
          rcases returns_advance more second with ⟨t₁, reads, last⟩
          rw [zero] at reads
          rcases returns_pure.mp last with ⟨rfl, rfl⟩
          exact ⟨_, reads, by rw [if_pos octal]⟩
        · rename_i noOctal
          rcases returns_pure.mp second with ⟨rfl, rfl⟩
          exact ⟨[], Reads.refl _, by rw [if_neg noOctal]⟩
  · rename_i other
    rcases returns_pure.mp first with ⟨rfl, rfl⟩
    refine ⟨[], Reads.refl _, ?_⟩
    unfold numberLead
    split
    · rename_i c text ahead
      exact absurd (charsOf_look ahead) other
    · rfl

theorem digits_iff {p : Char → Bool} {text : Text} (only : ∀ c ∈ text, p c = true ∨ c = '_')
    (some : text ≠ []) : Digits p text ↔
      ¬ (text.head? = Option.some '_' ∨ endsInUnderscore false text = true) := by
  rw [endsInUnderscore_false, Digits]
  simp only [some, ne_eq, not_false_eq_true, true_and, not_or, and_iff_right only]

/-- The fraction is read to its end, and reported when it is wrong. -/
theorem reads_fraction {base : Nat} {isFraction : Bool}
    (returns : Returns logicalMachine (handleFraction base) t isFraction t') :
    ∃ text, Reads t text (¬ FractionOk (isDigit · base) text) t' ∧
      FractionText (isDigit · base) text ∧ isFraction = !text.isEmpty ∧
      (text = [] → LogicalLexer.look t.rest 0 ≠ '.') ∧
      (Stops (isDigit · base) (charsOf t.rest) → Stops (isDigit · base) (charsOf t'.rest)) := by
  have first := returns_peekN.mp returns
  split at first
  · rename_i dot
    rcases returns_advance (ne_nil_of_look dot (by decide)) first with ⟨t₁, reads₁, later⟩
    rw [dot] at reads₁
    have second := returns_peekN.mp later
    rcases returns_bind.mp second with ⟨_, t₂, reported, third⟩
    rcases returns_bind.mp third with ⟨⟨hasDigits, underscore⟩, t₃, looped, fourth⟩
    rcases returns_bind.mp fourth with ⟨_, t₄, reported', last⟩
    rcases returns_pure.mp last with ⟨rfl, rfl⟩
    have noUnderscore : isDigit '_' base = false := by
      have noHex : isAsciiHexdigit '_' = false := by decide
      rw [isDigit, noHex, Bool.false_and]
    rcases reads_digits (p := (isDigit · base)) (isDigit_nul base) noUnderscore looped with
      ⟨digits, reads₃, only, stops, ends⟩
    obtain ⟨-, rfl⟩ := Prod.mk.inj ends
    have reads₂ := reads_reportIf reported
    have reads₄ := reads_reportIf reported'
    have start : LogicalLexer.look t₁.rest 0 = '_' ↔ digits.head? = some '_' := by
      have ahead : charsOf t₁.rest = digits ++ charsOf t₃.rest := by
        rw [reads₂.rest, List.nil_append, reads₃.rest]
      exact look_of_append ahead stops
    have chain := reads₁.then_ (reads₂.trans (reads₃.trans reads₄))
    simp only [List.nil_append, List.append_nil, List.singleton_append, false_or,
      decide_eq_true_eq, start] at chain
    have after : charsOf t₃.rest = charsOf t₄.rest := reads₄.rest
    refine ⟨'.' :: digits, chain.congr ?_, .inr ⟨digits, rfl, only⟩, rfl, by simp,
      fun _ => after ▸ stops⟩
    by_cases nothing : digits = []
    · simp [nothing, FractionOk]
    · have ok : FractionOk (isDigit · base) ('.' :: digits) ↔ Digits (isDigit · base) digits := by
        simp [FractionOk, nothing]
      rw [ok, digits_iff only nothing, not_not]
  · rename_i noDot
    rcases returns_pure.mp first with ⟨rfl, rfl⟩
    refine ⟨[], (Reads.refl _).congr ?_, .inl rfl, rfl, fun _ => noDot, id⟩
    simp [FractionOk]

/-- The sign of an exponent and its digits are told apart. -/
theorem sign_unique {sign sign' digits digits' : Text} (signs : Sign sign) (signs' : Sign sign')
    (only : ∀ c ∈ digits, isAsciiDigit c = true ∨ c = '_')
    (only' : ∀ c ∈ digits', isAsciiDigit c = true ∨ c = '_')
    (same : sign ++ digits = sign' ++ digits') : sign = sign' ∧ digits = digits' := by
  have noSign : ∀ {text : Text} {rest : Text} {c : Char},
      (∀ c ∈ text, isAsciiDigit c = true ∨ c = '_') →
      text = c :: rest → c ≠ '+' ∧ c ≠ '-' := by
    intro text rest c only same
    have inside := only c (by simp [same])
    constructor
    · rintro rfl
      exact absurd inside (by decide)
    · rintro rfl
      exact absurd inside (by decide)
  rcases signs with rfl | rfl | rfl <;> rcases signs' with rfl | rfl | rfl
  · exact ⟨rfl, same⟩
  · exact absurd rfl (noSign only same).1
  · exact absurd rfl (noSign only same).2
  · exact absurd rfl (noSign only' same.symm).1
  · exact ⟨rfl, List.append_cancel_left same⟩
  · simp at same
  · exact absurd rfl (noSign only' same.symm).2
  · simp at same
  · exact ⟨rfl, List.append_cancel_left same⟩

/-- A sign is read when there is one. -/
theorem reads_sign {x : Lex α} {a : α}
    (returns : Returns logicalMachine (do
      let sign ← peek
      if sign = '+' || sign = '-' then
        let _ ← advance
        x
      else
        x) t a t') :
    ∃ text t₁, Reads t text False t₁ ∧ Sign text ∧ Returns logicalMachine x t₁ a t' := by
  have first := returns_peekN.mp returns
  split at first
  · rename_i sign
    simp only [Bool.or_eq_true, decide_eq_true_eq] at sign
    have more : t.rest ≠ [] := by
      rcases sign with plus | minus
      · exact ne_nil_of_look plus (by decide)
      · exact ne_nil_of_look minus (by decide)
    rcases returns_advance more first with ⟨t₁, reads, later⟩
    refine ⟨_, t₁, reads, ?_, later⟩
    rcases sign with plus | minus
    · exact .inr (.inl (by rw [plus]))
    · exact .inr (.inr (by rw [minus]))
  · exact ⟨[], t, Reads.refl t, .inl rfl, first⟩

/-- The exponent is read to its end, and reported when it is wrong. -/
theorem reads_exponent {base : Nat} {isExponent : Bool}
    (returns : Returns logicalMachine (handleExponent base) t isExponent t') :
    ∃ text, Reads t text (¬ ExponentOk base text) t' ∧ ExponentText base text ∧
      isExponent = !text.isEmpty := by
  have first := returns_peekN.mp returns
  dsimp only at first
  split at first
  · rename_i marker
    have marks : isExponentMarker base (LogicalLexer.look t.rest 0) = true := marker
    have real : isExponentMarker base '\x00' = false := by
      simp [isExponentMarker, show toAsciiLowercase '\x00' = '\x00' by decide]
    rcases returns_advance (more_of_look real marks) first with ⟨t₁, reads₁, later⟩
    rcases reads_sign later with ⟨sign, t₂, reads₂, signs, second⟩
    have third := returns_peekN.mp second
    rcases returns_bind.mp third with ⟨_, t₃, reported, fourth⟩
    rcases returns_bind.mp fourth with ⟨⟨hasDigits, underscore⟩, t₄, looped, fifth⟩
    rcases returns_bind.mp fifth with ⟨_, t₅, reported', last⟩
    rcases returns_pure.mp last with ⟨rfl, rfl⟩
    rcases reads_digits (p := isAsciiDigit) (by decide) (by decide) looped with
      ⟨digits, reads₄, only, stops, ends⟩
    obtain ⟨rfl, rfl⟩ := Prod.mk.inj ends
    have reads₃ := reads_reportIf reported
    have reads₅ := reads_reportIf reported'
    have start : LogicalLexer.look t₂.rest 0 = '_' ↔ digits.head? = some '_' := by
      have ahead : charsOf t₂.rest = digits ++ charsOf t₄.rest := by
        rw [reads₃.rest, List.nil_append, reads₄.rest]
      exact look_of_append ahead stops
    have chain := reads₁.then_ (reads₂.then_ (reads₃.trans (reads₄.trans reads₅)))
    simp only [List.nil_append, List.append_nil, List.singleton_append, false_or,
      decide_eq_true_eq, start] at chain
    refine ⟨_, chain.congr ?_, .inr ⟨_, sign, digits, rfl, marks, signs, only⟩, rfl⟩
    have ok : ExponentOk base (LogicalLexer.look t.rest 0 :: (sign ++ digits)) ↔
        Digits isAsciiDigit digits := by
      constructor
      · rintro (nothing | ⟨marker', sign', digits', same, -, signs', right⟩)
        · cases nothing
        · rcases sign_unique signs signs' only right.2.1 (List.cons.inj same).2 with ⟨-, rfl⟩
          exact right
      · exact fun right => .inr ⟨_, sign, digits, rfl, marks, signs, right⟩
    rw [ok]
    by_cases nothing : digits = []
    · simp [nothing, Digits]
    · rw [digits_iff only nothing, not_not]
      cases noDigit : digits.any isAsciiDigit with
      | true => simp
      | false =>
          -- Without a digit the run starts with an underscore.
          have first : digits.head? = some '_' := by
            rcases List.exists_cons_of_ne_nil nothing with ⟨c, others, rfl⟩
            have outside : isAsciiDigit c = false := by
              simp only [List.any_cons, Bool.or_eq_false_iff] at noDigit
              exact noDigit.1
            rcases only c (by simp) with digit | rfl
            · rw [outside] at digit
              cases digit
            · rfl
          simp [first]
  · rename_i noMarker
    rcases returns_pure.mp first with ⟨rfl, rfl⟩
    refine ⟨[], (Reads.refl _).congr ?_, .inl rfl, rfl⟩
    simp [ExponentOk]

/-- The suffix is read when there is one. -/
theorem reads_suffix {isFloat : Bool}
    (returns : Returns logicalMachine handleSuffix t isFloat t') :
    ∃ text, Reads t text False t' ∧ SuffixText text ∧ isFloat = text.any isFloatSuffix ∧
      (∀ c ∈ text, LogicalLexer.look t.rest 0 = c) := by
  have first := returns_peekN.mp returns
  dsimp only at first
  split at first
  · rename_i suffix
    have real : LogicalLexer.look t.rest 0 ≠ '\x00' := by
      intro nul
      rw [nul] at suffix
      exact absurd suffix (by decide)
    rcases returns_advance (ne_nil_of_look rfl real) first with ⟨t₁, reads, last⟩
    rcases returns_pure.mp last with ⟨rfl, rfl⟩
    refine ⟨_, reads, .inr ⟨_, rfl, ?_⟩, ?_, ?_⟩
    · simpa [isLongSuffix, isFloatSuffix, or_assoc] using suffix
    · simp [isFloatSuffix]
    · intro c inside
      exact (List.mem_singleton.mp inside).symm
  · rcases returns_pure.mp first with ⟨rfl, rfl⟩
    exact ⟨[], Reads.refl _, .inl rfl, rfl, by simp⟩

/-! ### Numbers -/

/-- The base of the digits that are consumed: all decimal digits of an octal number are. -/
def consumeBase (numBase : Nat) : Nat := if numBase = 8 then 10 else numBase

/-- What `handle_number` takes for the parts of a number after its prefix. -/
structure NumberShape (U : UnicodeTables) (base : Nat) (whole fraction exponent suffix : Text) :
    Prop where
  wholeText : ∀ c ∈ whole, isIntegerChar U (consumeBase base) c = true ∨ c = '_'
  fractionText : FractionText (isDigit · (consumeBase base)) fraction
  exponentText : ExponentText base exponent
  suffixText : SuffixText suffix
  /-- What could be a digit is none of the suffixes. -/
  notDigit : exponent = [] → ∀ c ∈ suffix, isDigit c (consumeBase base) = false

/-- Every part is as long as it can be before `after`. -/
structure Maximal (U : UnicodeTables) (base : Nat) (fraction exponent suffix after : Text) : Prop where
  wholeStops : Stops (isIntegerChar U (consumeBase base)) (fraction ++ (exponent ++ (suffix ++ after)))
  noDot : fraction = [] → (exponent ++ (suffix ++ after)).headD '\x00' ≠ '.'
  fractionStops : Stops (isDigit · (consumeBase base)) (exponent ++ (suffix ++ after))

/-- A fraction, an exponent or a suffix makes the number a float. -/
def isFloat (fraction exponent suffix : Text) : Bool :=
  !fraction.isEmpty || !exponent.isEmpty || suffix.any isFloatSuffix

/-- Nothing is reported for the parts. -/
structure Unreported (base : Nat) (whole fraction exponent suffix : Text) : Prop where
  noForeign : whole.any (isForeign base) = false
  noUnderscore : whole.getLast? ≠ some '_'
  fractionOk : FractionOk (isDigit · (consumeBase base)) fraction
  exponentOk : ExponentOk base exponent
  octal : base = 8 → isFloat fraction exponent suffix = false →
    whole.any (isInvalidOctalDigit base) = false

/-- The reports of the parts, one after the other. -/
theorem not_unreported {base : Nat} {whole fraction exponent suffix : Text} :
    ¬ Unreported base whole fraction exponent suffix ↔
      whole.any (isForeign base) = true ∨ endsInUnderscore false whole = true ∨
        ¬ FractionOk (isDigit · (consumeBase base)) fraction ∨ ¬ ExponentOk base exponent ∨
        (decide (base = 8) && whole.any (isInvalidOctalDigit base) &&
          !isFloat fraction exponent suffix) = true := by
  rw [endsInUnderscore_false]
  constructor
  · intro wrong
    by_contra right
    simp only [not_or, not_not, Bool.and_eq_true, decide_eq_true_eq, Bool.not_eq_true',
      not_and] at right
    refine wrong ⟨by simpa using right.1, right.2.1, right.2.2.1, right.2.2.2.1, ?_⟩
    intro eight noFloat
    by_contra octal
    exact right.2.2.2.2 ⟨eight, by simpa using octal⟩ noFloat
  · intro wrong ⟨noForeign, noUnderscore, fractionOk, exponentOk, octal⟩
    rcases wrong with foreign | underscore | fraction | exponent | outside
    · rw [noForeign] at foreign
      cases foreign
    · exact noUnderscore underscore
    · exact fraction fractionOk
    · exact exponent exponentOk
    · simp only [Bool.and_eq_true, decide_eq_true_eq, Bool.not_eq_true'] at outside
      rw [octal outside.1.1 outside.2] at outside
      exact absurd outside.1.2 (by simp)

/-- A number is read to its end, part by part, and becomes one token. -/
theorem handleNumber_reads {U : UnicodeTables} {u : Unit}
    (returns : Returns logicalMachine (handleNumber U) t u t') :
    ∃ base lead whole fraction exponent suffix,
      charsOf t.rest = lead ++ (whole ++ (fraction ++ (exponent ++ suffix))) ++ charsOf t'.rest ∧
      numberLead (charsOf t.rest) = (lead, base) ∧
      NumberShape U base whole fraction exponent suffix ∧
      Maximal U base fraction exponent suffix (charsOf t'.rest) ∧
      (∃ new, t'.errors = t.errors ++ new ∧ (∀ e ∈ new, e.kind = .invalidNumber) ∧
        (new ≠ [] ↔ ¬ Unreported base whole fraction exponent suffix)) ∧
      ∃ token, t'.tokens = t.tokens ++ [token] ∧
        token.kind = if isFloat fraction exponent suffix then .floatLiteral else .integerLiteral := by
  rcases returns_bind.mp returns with ⟨base, t₁, based, second⟩
  rcases returns_bind.mp second with ⟨⟨invalid, underscore⟩, t₂, looped, third⟩
  rcases returns_bind.mp third with ⟨_, t₃, reported, fourth⟩
  rcases returns_bind.mp fourth with ⟨isFraction, t₄, fractional, fifth⟩
  rcases returns_bind.mp fifth with ⟨isExponent, t₅, exponential, sixth⟩
  rcases returns_bind.mp sixth with ⟨isSuffix, t₆, suffixed, seventh⟩
  rcases returns_bind.mp seventh with ⟨_, t₇, reported', last⟩
  rcases returns_op.mp last with ⟨_, t₈, completed, done⟩
  rcases returns_pure.mp done with ⟨-, rfl⟩
  cases completed
  rcases reads_numberBase based with ⟨lead, reads₁, leads⟩
  rcases reads_integer looped with ⟨whole, reads₂, onlyWhole, stopsWhole, ends⟩
  obtain ⟨rfl, rfl⟩ := Prod.mk.inj ends
  have reads₃ := reads_reportIf reported
  rcases reads_fraction fractional with ⟨fraction, reads₄, isFraction', rfl, noDot, stopsFraction⟩
  rcases reads_exponent exponential with ⟨exponent, reads₅, isExponent', rfl⟩
  rcases reads_suffix suffixed with ⟨suffix, reads₆, isSuffix', rfl, first⟩
  have reads₇ := reads_reportIf reported'
  change Stops (isIntegerChar U (consumeBase base)) _ at stopsWhole
  have rest₃ : charsOf t₂.rest = charsOf t₃.rest := reads₃.rest
  have rest₇ : charsOf t₆.rest = charsOf t₇.rest := reads₇.rest
  -- What lies ahead of each part.
  have suffixAhead : charsOf t₅.rest = suffix ++ charsOf t₇.rest := by rw [reads₆.rest, rest₇]
  have exponentAhead : charsOf t₄.rest = exponent ++ (suffix ++ charsOf t₇.rest) := by
    rw [reads₅.rest, suffixAhead]
  have fractionAhead : charsOf t₃.rest = fraction ++ (exponent ++ (suffix ++ charsOf t₇.rest)) := by
    rw [reads₄.rest, exponentAhead]
  rw [rest₃, fractionAhead] at stopsWhole
  have fractionStops : Stops (isDigit · (consumeBase base))
      (exponent ++ (suffix ++ charsOf t₇.rest)) := by
    have both := stopsWhole.1
    rw [isIntegerChar, Bool.or_eq_false_iff] at both
    rw [← exponentAhead]
    apply stopsFraction
    rw [fractionAhead]
    exact ⟨both.2, stopsWhole.2⟩
  have maximal : Maximal U base fraction exponent suffix (charsOf t₇.rest) := by
    refine ⟨stopsWhole, ?_, fractionStops⟩
    intro nothing
    have noDot' := noDot nothing
    rwa [look_zero, fractionAhead, nothing, List.nil_append] at noDot'
  have shape : NumberShape U base whole fraction exponent suffix := by
    refine ⟨onlyWhole, isFraction', isExponent', isSuffix', ?_⟩
    intro nothing c inside
    have stops := fractionStops.1
    rwa [nothing, List.nil_append, ← suffixAhead, ← look_zero, first c inside] at stops
  have chain := reads₁.then_ (reads₂.trans (reads₃.trans (reads₄.trans (reads₅.trans
    (reads₆.then_ reads₇)))))
  have reports := chain.congr (q := ¬ Unreported base whole fraction exponent suffix) (by
    rw [not_unreported]
    rfl)
  let kind : SyntaxKind := if isFloat fraction exponent suffix then .floatLiteral else .integerLiteral
  refine ⟨base, lead, whole, fraction, exponent, suffix, ?_, leads, shape, maximal, reports.errors,
    Token.new kind (spelled t₇.lexeme) t₇.start, ?_, rfl⟩
  · change _ = _ ++ charsOf t₇.rest
    rw [reports.rest]
    simp
  · rw [← reports.tokens]
    rfl

end Operations

end CaffeineLs.JavaSyntax
