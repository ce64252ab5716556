/-
Module: CaffeineLs.KotlinParser.Lookahead
Purpose: The lookaheads of the Kotlin grammar: what stands at the current token, and the scans over
  modifiers, annotations, type arguments and receivers that consume nothing.
Trusted boundary: a nesting depth is an integer
Main exports: atExpression, declarationKeyword, atDeclaration
-/
import CaffeineLs.KotlinParser.Parser

namespace CaffeineLs.KotlinParser

open KotlinSyntax (SyntaxKind Token)

/-- What stands ahead lies within the tokens. -/
theorem TokenSource.lt_of_nth {p : TokenSource} {i : Nat} {kind : SyntaxKind} (stands : p.nth i = some kind) :
    p.cursor + i < p.significant.length := by
  by_contra beyond
  have none : p.significant[p.cursor + i]? = none := List.getElem?_eq_none (by omega)
  simp [nth, nthToken, none] at stands

/-! ### Single tokens -/

def atExpression : Parser → Bool :=
  atAny [.lParen, .lBracket, .lBrace, .colonColon, .identifier, .thisKw, .superKw, .trueKw, .falseKw,
    .nullKw, .integerLiteral, .floatLiteral, .charLiteral, .openQuote, .openRawQuote, .plus, .minus,
    .not, .plusPlus, .minusMinus, .ifKw, .whenKw, .tryKw, .throwKw, .returnKw, .continueKw, .breakKw,
    .objectKw, .funKw]

def atLoop : Parser → Bool := atAny [.forKw, .whileKw, .doKw]

def atLabel : Parser → Bool := both (at_ .identifier) (nthAt 1 .at_)

def atPrefixUnaryPrefix : Parser → Bool :=
  either (atAny [.plusPlus, .minusMinus, .minus, .plus, .not, .at_]) atLabel

def atCallableReference : Parser → Bool :=
  either (at_ .colonColon) (both (at_ .identifier) (nthAt 1 .colonColon))

def atLambdaHeader : Parser → Bool := either (at_ .identifier) (at_ .lParen)

def atAssignmentOperator : Parser → Bool :=
  atAny [.equal, .plusEqual, .minusEqual, .mulEqual, .divEqual, .moduloEqual]

def atCompoundAssignmentOperator : Parser → Bool :=
  atAny [.plusEqual, .minusEqual, .mulEqual, .divEqual, .moduloEqual]

def atTypeModifier : Parser → Bool := either (atContextualKw .suspend) (at_ .at_)

def atFileAnnotation : Parser → Bool :=
  both (both (at_ .at_) (fun p => p.nthAtContextualKw 1 .file)) (nthAt 2 .colon)

def modifierKeywords : List ContextualKeyword :=
  [.abstract_, .actual, ContextualKeyword.annotation, .const, .crossInline, .data, .enum, .expect,
   .external, .final, .infix_, .inline_, .inner, .internal, .lateInit, .noInline, .open_, .operator,
   .out, .override_, .private_, .protected_, .public_, .reified, .sealed, .suspend, .tailrec,
   .vararg, .value]

def atModifier : Parser → Bool :=
  either (either (at_ .at_) (at_ .inKw)) (atContextualKwSet modifierKeywords)

def nthIsModifier (p : TokenSource) (i : Nat) : Bool :=
  p.nth i = some .identifier &&
    ["abstract", "actual", "annotation", "const", "crossinline", "data", "enum", "expect",
     "external", "final", "infix", "inline", "inner", "internal", "lateinit", "noinline", "open",
     "operator", "out", "override", "private", "protected", "public", "reified", "sealed", "suspend",
     "tailrec", "vararg", "value"].any fun text => p.nthLexeme i = some text.toList

/-! ### Balanced runs -/

/-- Past the token that closes the run, or at the end of the tokens when none does. -/
def balancedEnd (p : TokenSource) (opener closer : SyntaxKind) (depth : Int) (i : Nat) : Nat :=
  match stands : p.nth i with
  | none => i
  | some kind =>
      if kind = opener then balancedEnd p opener closer (depth + 1) (i + 1)
      else if kind = closer then
        if depth - 1 = 0 then i + 1 else balancedEnd p opener closer (depth - 1) (i + 1)
      else if kind = .eof then i
      else balancedEnd p opener closer depth (i + 1)
termination_by p.significant.length - (p.cursor + i)
decreasing_by all_goals have := TokenSource.lt_of_nth stands; omega

def skipBalanced (p : TokenSource) (i : Nat) (opener closer : SyntaxKind) : Nat :=
  balancedEnd p opener closer 0 i

theorem le_balancedEnd (p : TokenSource) (opener closer : SyntaxKind) (depth : Int) (i : Nat) :
    i ≤ balancedEnd p opener closer depth i := by
  fun_induction balancedEnd p opener closer depth i <;> omega

def skipNl (p : TokenSource) (i : Nat) : Nat :=
  if stands : p.nth i = some .newline then skipNl p (i + 1) else i
termination_by p.significant.length - (p.cursor + i)
decreasing_by have := TokenSource.lt_of_nth stands; omega

theorem le_skipNl (p : TokenSource) (i : Nat) : i ≤ skipNl p i := by
  fun_induction skipNl p i <;> omega

def nthNl (p : TokenSource) (i : Nat) : Option SyntaxKind := p.nth (skipNl p i)

/-- `while p.nth(i) == DOT && p.nth(i + 1) == IDENTIFIER { i += 2; }` -/
def skipQualification (p : TokenSource) (i : Nat) : Nat :=
  if stands : p.nth i = some .dot ∧ p.nth (i + 1) = some .identifier then skipQualification p (i + 2)
  else i
termination_by p.significant.length - (p.cursor + i)
decreasing_by have := TokenSource.lt_of_nth stands.1; omega

theorem le_skipQualification (p : TokenSource) (i : Nat) : i ≤ skipQualification p i := by
  fun_induction skipQualification p i <;> omega

/-- Past the name of an annotation, with its target. -/
def skipAnnotationName (p : TokenSource) (i : Nat) : Nat :=
  if p.nth i = some .identifier then
    let i := i + 1
    let i := if p.nth i = some .colon ∧ p.nth (i + 1) = some .identifier then i + 2 else i
    skipQualification p i
  else i

theorem le_skipAnnotationName (p : TokenSource) (i : Nat) : i ≤ skipAnnotationName p i := by
  unfold skipAnnotationName
  have plain := le_skipQualification p (i + 1)
  have targeted := le_skipQualification p (i + 1 + 2)
  dsimp only
  split
  · split <;> omega
  · exact Nat.le_refl i

def skipAnnotationAt (p : TokenSource) (i : Nat) : Nat :=
  let i := skipAnnotationName p (i + 1)
  match p.nth i with
  | some .lParen => skipBalanced p i .lParen .rParen
  | some .lBracket => skipBalanced p i .lBracket .rBracket
  | _ => i

/-- An annotation has at least one token. -/
theorem lt_skipAnnotationAt (p : TokenSource) (i : Nat) : i < skipAnnotationAt p i := by
  have name := le_skipAnnotationName p (i + 1)
  have parens := le_balancedEnd p .lParen .rParen 0 (skipAnnotationName p (i + 1))
  have brackets := le_balancedEnd p .lBracket .rBracket 0 (skipAnnotationName p (i + 1))
  unfold skipAnnotationAt skipBalanced
  dsimp only
  split <;> omega

/-! ### Declarations -/

/-- Past leading modifiers, annotations and line breaks; `None` after 256 tokens. -/
def leadingEnd (p : TokenSource) (i : Nat) : Option Nat :=
  if i > 256 then none
  else if p.nth i = some .at_ then leadingEnd p (skipAnnotationAt p i)
  else if p.nth i = some .newline then leadingEnd p (i + 1)
  else if p.nth i = some .inKw || nthIsModifier p i then leadingEnd p (i + 1)
  else some i
termination_by 257 - i
decreasing_by all_goals have := lt_skipAnnotationAt p i; omega

def declarationKeyword (p : TokenSource) : Option SyntaxKind := (leadingEnd p 0).bind p.nth

def atDeclaration (p : Parser) : Bool :=
  (declarationKeyword p.toTokenSource).any
    [.classKw, .interfaceKw, .objectKw, .funKw, .valKw, .varKw, .typealiasKw].contains

/-- As `leadingEnd`, without a limit. -/
def modifiersEnd (p : TokenSource) (i : Nat) : Nat :=
  if annotated : p.nth i = some .at_ then modifiersEnd p (skipAnnotationAt p i)
  else if skipped : p.nth i = some .newline ∨ p.nth i = some .inKw ∨ nthIsModifier p i = true then
    modifiersEnd p (i + 1)
  else i
termination_by p.significant.length - (p.cursor + i)
decreasing_by
  · have := TokenSource.lt_of_nth annotated
    have := lt_skipAnnotationAt p i
    omega
  · have : p.cursor + i < p.significant.length := by
      rcases skipped with newline | variance | modifier
      · exact TokenSource.lt_of_nth newline
      · exact TokenSource.lt_of_nth variance
      · rw [nthIsModifier, Bool.and_eq_true] at modifier
        exact TokenSource.lt_of_nth (of_decide_eq_true modifier.1)
    omega

/-- Whether `['fun'] 'interface'` stands ahead. -/
def atFunInterface (p : Parser) : Bool :=
  let i := modifiersEnd p.toTokenSource 0
  p.nth i = some .funKw && nthNl p.toTokenSource (i + 1) = some .interfaceKw

/-- Past annotations and modifiers, and no line breaks. -/
def constructorModifiersEnd (p : TokenSource) (i : Nat) : Nat :=
  if annotated : p.nth i = some .at_ then constructorModifiersEnd p (skipAnnotationAt p i)
  else if modifier : nthIsModifier p i = true then constructorModifiersEnd p (i + 1)
  else i
termination_by p.significant.length - (p.cursor + i)
decreasing_by
  · have := TokenSource.lt_of_nth annotated
    have := lt_skipAnnotationAt p i
    omega
  · rw [nthIsModifier, Bool.and_eq_true] at modifier
    have := TokenSource.lt_of_nth (of_decide_eq_true modifier.1)
    omega

def atPrimaryConstructor (p : Parser) : Bool :=
  let i := constructorModifiersEnd p.toTokenSource 0
  p.nth i = some .lParen ||
    (p.nth i = some .identifier && p.nthLexeme i = some "constructor".toList)

/-- The keyword that introduces a member which is no ordinary declaration. -/
def classMemberKeyword (p : TokenSource) : Option ContextualKeyword :=
  if p.nthAtContextualKw 0 .init then some .init
  else
    match leadingEnd p 0 with
    | none => none
    | some i =>
        if p.nth i ≠ some .identifier then none
        else if p.nthLexeme i = some "companion".toList then some .companion
        else if p.nthLexeme i = some "constructor".toList then some .constructor
        else none

/-- `while nth_is_modifier(p, i) { i += 1; }` -/
def modifierRun (p : TokenSource) (i : Nat) : Nat :=
  if modifier : nthIsModifier p i = true then modifierRun p (i + 1) else i
termination_by p.significant.length - (p.cursor + i)
decreasing_by
  rw [nthIsModifier, Bool.and_eq_true] at modifier
  have := TokenSource.lt_of_nth (of_decide_eq_true modifier.1)
  omega

inductive Accessor where
  | get | set
deriving DecidableEq

/-- The accessor that starts here. Its word is compared without a look at the kind of its token. -/
def accessorKind (p : TokenSource) : Option Accessor :=
  let i := modifierRun p 0
  let kind : Option Accessor :=
    if p.nthLexeme i = some "get".toList then some .get
    else if p.nthLexeme i = some "set".toList then some .set
    else none
  match kind with
  | none => none
  | some kind =>
      if p.nth (i + 1) = some .lParen then
        if nthNl p (i + 2) = some .rParen then some kind
        else if kind = .set then some kind else none
      else
        match p.nth (i + 1) with
        | none => some kind
        | some next =>
            if next ∈ [SyntaxKind.colon, .equal, .lBrace, .newline, .semicolon] then some kind
            else none

/-- `while p.nth(i) == QUESTION { i += 1; }` -/
def questionsEnd (p : TokenSource) (i : Nat) : Nat :=
  if stands : p.nth i = some .question then questionsEnd p (i + 1) else i
termination_by p.significant.length - (p.cursor + i)
decreasing_by have := TokenSource.lt_of_nth stands; omega

/-- At the `.` before a segment of a receiver: whether another `.` follows the segment. -/
def segmentContinuesAfterTypeArgs (p : Parser) : Bool :=
  let source := p.toTokenSource
  if p.nth 1 ≠ some .identifier then false
  else if p.nth 2 = some .less then
    let after := skipBalanced source 2 .less .greater
    if after = 2 then false else p.nth (questionsEnd source after) = some .dot
  else p.nth (questionsEnd source 2) = some .dot

def atStatement (p : Parser) : Bool :=
  at_ .at_ p || atDeclaration p || atLoop p || atExpression p

/-! ### Types -/

/-- Whether `<` starts type arguments: the scan goes to the matching `>`, wherever that is, and
looks at the token after it. -/
def typeArgumentsScan (p : TokenSource) (depth : Int) (i : Nat) : Bool :=
  match stands : p.nth i with
  | none => false
  | some kind =>
      if kind = .less then typeArgumentsScan p (depth + 1) (i + 1)
      else if kind = .greater then
        if depth - 1 = 0 then
          !(p.nth (i + 1)).any
            [.identifier, .integerLiteral, .floatLiteral, .charLiteral, .openQuote, .openRawQuote,
             .trueKw, .falseKw, .nullKw, .thisKw, .superKw].contains
        else typeArgumentsScan p (depth - 1) (i + 1)
      else if kind = .eof then false
      else typeArgumentsScan p depth (i + 1)
termination_by p.significant.length - (p.cursor + i)
decreasing_by all_goals have := TokenSource.lt_of_nth stands; omega

def atTypeArguments (p : Parser) : Bool := typeArgumentsScan p.toTokenSource 0 0

/-- Past the balanced `)`, if there is one. -/
def closingParen (p : TokenSource) (depth : Int) (i : Nat) : Option Nat :=
  match stands : p.nth i with
  | none => none
  | some kind =>
      if kind = .lParen then closingParen p (depth + 1) (i + 1)
      else if kind = .rParen then
        if depth - 1 = 0 then some (i + 1) else closingParen p (depth - 1) (i + 1)
      else if kind = .eof then none
      else closingParen p depth (i + 1)
termination_by p.significant.length - (p.cursor + i)
decreasing_by all_goals have := TokenSource.lt_of_nth stands; omega

def scanClosingParenThen (p : TokenSource) (first : Nat) (then_ : Nat → Bool) : Bool :=
  (closingParen p 0 first).any then_

/-- Past `typeModifiers`. -/
def skipTypeModifiers (p : TokenSource) (i : Nat) : Nat :=
  if annotated : p.nth i = some .at_ then skipTypeModifiers p (skipAnnotationAt p i)
  else if suspended : p.nthAtContextualKw i .suspend = true then
    skipTypeModifiers p (skipNl p (i + 1))
  else i
termination_by p.significant.length - (p.cursor + i)
decreasing_by
  · have := TokenSource.lt_of_nth annotated
    have := lt_skipAnnotationAt p i
    omega
  · rw [TokenSource.nthAtContextualKw, Bool.and_eq_true] at suspended
    have := TokenSource.lt_of_nth (of_decide_eq_true suspended.1)
    have := le_skipNl p (i + 1)
    omega

/-- Past the type arguments of a segment; `None` when they are not balanced. -/
def skipSegmentArguments (p : TokenSource) (i : Nat) : Option Nat :=
  if p.nth i = some .less then
    let after := skipBalanced p i .less .greater
    if after = i then none else some (skipNl p after)
  else some i

theorem le_skipSegmentArguments {p : TokenSource} {i j : Nat}
    (skipped : skipSegmentArguments p i = some j) : i ≤ j := by
  unfold skipSegmentArguments at skipped
  have balanced := le_balancedEnd p .less .greater 0 i
  have breaks := le_skipNl p (skipBalanced p i .less .greater)
  unfold skipBalanced at breaks skipped
  dsimp only at skipped
  split at skipped
  · split at skipped
    · cases skipped
    · cases skipped
      omega
  · cases skipped
    exact Nat.le_refl i

/-- Past the segments of a `userType`. -/
def scanSegments (p : TokenSource) (i : Nat) : Option Nat :=
  if _named : p.nth i = some .identifier then
    match arguments : skipSegmentArguments p (skipNl p (i + 1)) with
    | none => none
    | some j =>
        if p.nth j = some .dot && nthNl p (j + 1) = some .identifier then
          scanSegments p (skipNl p (j + 1))
        else some j
  else none
termination_by p.significant.length - (p.cursor + i)
decreasing_by
  have := TokenSource.lt_of_nth _named
  have := le_skipNl p (i + 1)
  have := le_skipSegmentArguments arguments
  have := le_skipNl p (j + 1)
  omega

/-- `while p.nth(skip_nl(p, i)) == QUESTION { i = skip_nl(p, i) + 1; }` -/
def skipQuests (p : TokenSource) (i : Nat) : Nat :=
  if stands : nthNl p i = some .question then skipQuests p (skipNl p i + 1) else i
termination_by p.significant.length - (p.cursor + i)
decreasing_by
  have := TokenSource.lt_of_nth stands
  have := le_skipNl p i
  omega

def scanTypeReference (p : TokenSource) (first : Nat) : Option Nat :=
  let i := skipNl p first
  let named :=
    if p.nthAtContextualKw i .dynamic then some (skipNl p (i + 1)) else scanSegments p i
  named.map (skipQuests p)

def atReceiverSeparator (p : TokenSource) (i : Nat) : Bool :=
  let i := skipNl p i
  (p.nth i = some .dot || p.nth i = some .safeAccess) && nthNl p (i + 1) = some .lParen

/-- `while p.nth(i) == QUESTION { i = skip_nl(p, i + 1); }` -/
def skipParenQuests (p : TokenSource) (i : Nat) : Nat :=
  if stands : p.nth i = some .question then skipParenQuests p (skipNl p (i + 1)) else i
termination_by p.significant.length - (p.cursor + i)
decreasing_by
  have := TokenSource.lt_of_nth stands
  have := le_skipNl p (i + 1)
  omega

/-- Whether a receiver type with its separator stands ahead. -/
def receiverTypeAhead (p : TokenSource) : Bool :=
  let first := skipTypeModifiers p 0
  if p.nth first = some .lParen then
    scanClosingParenThen p first fun after =>
      atReceiverSeparator p (skipParenQuests p (skipNl p after))
  else (scanTypeReference p first).any (atReceiverSeparator p)

def atReceiverType (p : Parser) : Bool := receiverTypeAhead p.toTokenSource

/-- Whether a parameter list with an arrow stands ahead. -/
def parametersAhead (p : TokenSource) : Bool :=
  let first := skipTypeModifiers p 0
  p.nth first = some .lParen &&
    scanClosingParenThen p first fun after => nthNl p after = some .arrow

def atFunctionType (p : Parser) : Bool := atReceiverType p || parametersAhead p.toTokenSource

end CaffeineLs.KotlinParser
