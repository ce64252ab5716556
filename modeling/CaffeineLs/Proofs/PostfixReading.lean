/-
Module: CaffeineLs.Proofs.PostfixReading
Purpose: What the parser reads as a postfix chain, and that the chain it builds lowers to the fold
  of its suffixes exactly when every suffix is allowed after the one before it.
Trusted boundary: none
Main exports: SuffixRead, PostfixRead, chain_folded_iff
-/
import CaffeineLs.KotlinSyntax.ExprGrammar
import CaffeineLs.Proofs.PostfixChains

namespace CaffeineLs.HirDef.Kotlin

open Lib KotlinSyntax

/-! ### What the parser reads as a suffix -/

section Runs

variable (g : Grammar)

/-- The items after the first in a list that ends before `close`. -/
inductive ItemsRead {α : Type} (close : SyntaxKind) (Item : Parser → α → Parser → Prop) :
    Parser → List α → Parser → Prop where
  | done {p : Parser} : p.at_ .comma = false → ItemsRead close Item p [] p
  | trailing {p : Parser} : p.at_ .comma = true → (eatNl p.bump).at_ close = true →
      ItemsRead close Item p [] (eatNl p.bump)
  | more {p p₁ p' : Parser} {item : α} {items : List α} : p.at_ .comma = true →
      (eatNl p.bump).at_ close = false → Item (eatNl p.bump) item p₁ →
      ItemsRead close Item p₁ items p' → ItemsRead close Item p (item :: items) p'

/-- The annotation of an argument. -/
inductive AnnotationRead : Parser → List Cst → Parser → Prop where
  | plain {p : Parser} : p.at_ .at_ = false → AnnotationRead p [] p
  | annotated {p q : Parser} {tree : Cst} : p.at_ .at_ = true → ReadsTree g.annotation p tree q →
      tree.isNode (is .annotationNode) = true → AnnotationRead p [tree] (eatNl q)

/-- The name of an argument. -/
inductive NameRead : Parser → Option Token → Parser → Prop where
  | positional {p : Parser} : (p.at_ .identifier && p.nth 1 = some .equal) = false →
      NameRead p none p
  | named {p : Parser} {name equal : Token} {rest : List Token} : p.rest = name :: equal :: rest →
      name.kind = .identifier → equal.kind = .equal →
      NameRead p (some name) (eatNl ((simpleIdentifier p).expect .equal))

/-- The `*` of an argument. -/
inductive SpreadRead : Parser → Bool → Parser → Prop where
  | plain {p : Parser} : p.at_ .star = false → SpreadRead p false p
  | spread {p : Parser} : p.at_ .star = true → SpreadRead p true (eatNl p.bump)

/-- One argument. -/
inductive ArgumentRead : Parser → Argument → Parser → Prop where
  | mk {p p₁ p₂ p₃ p₄ : Parser} {asides : List Cst} {name : Option Token} {spread : Bool}
      {value : Cst} : AnnotationRead g p.start.2 asides p₁ → NameRead p₁ name p₂ →
      SpreadRead p₂ spread p₃ → ReadsTree g.expression p₃ value p₄ →
      value.isNode isExpression = true → ArgumentRead p ⟨name, spread, value⟩ (valueArgument g p)

/-- The arguments in parentheses. -/
inductive ArgumentsRead : Parser → List Argument → Parser → Prop where
  | empty {p : Parser} : p.at_ .lParen = true →
      (eatNl (p.start.2.expect .lParen)).at_ .rParen = true →
      ArgumentsRead p [] (KotlinSyntax.valueArguments g p)
  | list {p p₁ p₂ : Parser} {first : Argument} {more : List Argument} : p.at_ .lParen = true →
      (eatNl (p.start.2.expect .lParen)).at_ .rParen = false →
      ArgumentRead g (eatNl (p.start.2.expect .lParen)) first p₁ →
      ItemsRead .rParen (ArgumentRead g) p₁ more p₂ → (eatNl p₂).at_ .rParen = true →
      ArgumentsRead p (first :: more) (KotlinSyntax.valueArguments g p)

/-- The annotations of a trailing lambda. -/
inductive AnnotationsRead : Parser → List Cst → Parser → Prop where
  | done {p : Parser} : p.at_ .at_ = false → AnnotationsRead p [] p
  | more {p q p' : Parser} {tree : Cst} {trees : List Cst} : p.at_ .at_ = true →
      ReadsTree g.annotation p tree q → tree.isNode (is .annotationNode) = true →
      q.rest.length < p.rest.length → AnnotationsRead (eatNl q) trees p' →
      AnnotationsRead p (tree :: trees) p'

/-- The label of a trailing lambda. -/
inductive LabelRead : Parser → List Cst → Parser → Prop where
  | unlabelled {p : Parser} : atLabel p = false → LabelRead p [] p
  | labelled {p : Parser} {name at_ : Token} {rest : List Token} : p.rest = name :: at_ :: rest →
      name.kind = .identifier → at_.kind = .at_ →
      LabelRead p [.node .label (eatNl ((simpleIdentifier p.start.2).expect .at_)).built] (label p)

/-- Whether a trailing lambda follows. -/
def lambdaFollows (p : Parser) : Bool :=
  (p.at_ .lBrace || p.at_ .at_ || atLabel p) && p.trailingLambdaAllowed

/-- A trailing lambda, with its annotations and its label. -/
inductive LambdaRead : Parser → Cst → Parser → Prop where
  | mk {p p₁ p₂ p₃ : Parser} {asides labels : List Cst} {lambda : Cst} :
      lambdaFollows p = true → AnnotationsRead g p.start.2 asides p₁ → LabelRead p₁ labels p₂ →
      ReadsTree g.lambdaLiteral p₂ lambda p₃ → lambda.isNode (is .lambdaLiteral) = true →
      p₃.rest.length < p₂.rest.length → LambdaRead p lambda (annotatedLambda g p)

/-- The type arguments of a call. -/
inductive TypeArgumentsRead : Parser → Option Cst → Parser → Prop where
  | unwritten {p : Parser} : TypeArgumentsRead p none p
  | written {p p' : Parser} {tree : Cst} : (p.at_ .less && atTypeArguments p) = true →
      ReadsTree g.typeArguments p tree p' → tree.isNode (is .typeArguments) = true →
      p'.rest.length < p.rest.length → TypeArgumentsRead p (some tree) p'

/-- The parentheses and the trailing lambda of one call: a lambda right after parentheses is
theirs. -/
inductive CallRead : Option (List Argument) → Option Cst → Parser → Parser → Prop where
  | parenthesized {p q : Parser} {arguments : List Argument} :
      ArgumentsRead g p.start.2 arguments q →
      lambdaFollows (q.complete p.built .callExpression) = false →
      CallRead (some arguments) none p (q.complete p.built .callExpression)
  | lambda {p p' : Parser} {lambda : Cst} : LambdaRead g p lambda p' →
      CallRead none (some lambda) p p'
  | both {p q p' : Parser} {arguments : List Argument} {lambda : Cst} :
      ArgumentsRead g p.start.2 arguments q →
      LambdaRead g (q.complete p.built .callExpression) lambda p' →
      CallRead (some arguments) (some lambda) p p'

/-- One index. -/
def IndexRead (p : Parser) (tree : Cst) (p' : Parser) : Prop :=
  ReadsTree g.expression p tree p' ∧ tree.isNode isExpression = true

/-- One suffix of a postfix chain. -/
inductive SuffixRead : Parser → Suffix → Parser → Prop where
  | operator {p : Parser} {token : Token} {rest : List Token} : p.rest = token :: rest →
      IsPostfixOperator token.kind → SuffixRead p (.operator token) p.bump
  | member {p : Parser} {op name : Token} {rest rest' : List Token} :
      op.kind = .dot ∨ op.kind = .safeAccess →
      p.current = some op.kind ∨ (p.at_ .newline = true ∧ p.nth 1 = some op.kind) →
      (eatNl p).rest = op :: rest → (eatNl (eatNl p).start.2.bump).rest = name :: rest' →
      name.kind = .identifier → SuffixRead p (.member op name) (navigationSuffix g p)
  | call {p q p' : Parser} {typeArgs : Option Cst} {arguments : Option (List Argument)}
      {lambda : Option Cst} : TypeArgumentsRead g p typeArgs q →
      CallRead g arguments lambda q p' → SuffixRead p (.call typeArgs arguments lambda) p'
  | indexing {p p₁ p₂ : Parser} {first : Cst} {more : List Cst} : p.at_ .lBracket = true →
      IndexRead g (eatNl (p.start.2.expect .lBracket)) first p₁ →
      ItemsRead .rBracket (IndexRead g) p₁ more p₂ → (eatNl p₂).at_ .rBracket = true →
      SuffixRead p (.indexing first more)
        ((indexingSuffix g p.start.2).complete p.built .indexingExpression)

/-- The suffixes of a postfix chain, up to where none follows. -/
inductive SuffixesRead : Parser → List Suffix → Parser → Prop where
  | done {p : Parser} : postfixUnarySuffix g p = none → SuffixesRead p [] p
  | suffix {p p₁ p' : Parser} {suffix : Suffix} {suffixes : List Suffix} :
      SuffixRead g p suffix p₁ → SuffixesRead p₁ suffixes p' →
      SuffixesRead p (suffix :: suffixes) p'

/-- A primary expression with its suffixes. -/
structure PostfixRead (p : Parser) (base : Cst) (suffixes : List Suffix) (p' : Parser) : Prop where
  run : ∃ p₀, ReadsTree (primaryExpression g) p.start.2 base p₀ ∧ SuffixesRead g p₀ suffixes p'
  primary : IsPrimary base

end Runs

/-! ### Lists of items -/

section Lists

variable {α : Type} {close : SyntaxKind} {Item : Parser → α → Parser → Prop}
  {item : Production} {shape : α → Cst → Prop}

/-- The items are read one after another, each by the production of the list. -/
theorem ItemsRead.adds
    (reads : ∀ p a p', Item p a p' → ∃ tree, ReadsTree item p tree p' ∧ shape a tree ∧
      tree.isNode (fun _ => true) = true)
    {p p' : Parser} {items : List α} (run : ItemsRead close Item p items p') :
    (∀ rounds, p.rest.length ≤ rounds → commaRounds close item rounds p = p') ∧
      ∃ trees tokens, List.Forall₂ shape items trees ∧ Adds p trees tokens p' := by
  -- Every round consumes a comma, so the tokens ahead bound the rounds.
  have comma : ∀ {p : Parser}, p.at_ .comma = true →
      ∃ token, Adds p [] [token] (eatNl p.bump) ∧
        (eatNl p.bump).rest.length < p.rest.length := by
    intro p here
    obtain ⟨token, rest, ahead, kind⟩ := Parser.rest_of_at here
    have bumped := Adds.bump ahead (by rw [kind]; decide)
    have left := (Adds.eatNl p.bump).rest
    rw [(Parser.bump_of_rest ahead).2] at left
    refine ⟨token, bumped.thenNl, ?_⟩
    rw [ahead]
    exact Nat.lt_succ_of_le left
  induction run with
  | done here =>
      refine ⟨fun rounds _ => ?_, [], [], .nil, Adds.refl _⟩
      cases rounds <;> simp [commaRounds, here]
  | @trailing p here closes =>
      obtain ⟨token, added, less⟩ := comma here
      refine ⟨fun rounds room => ?_, [], [token], .nil, added⟩
      obtain ⟨rounds, rfl⟩ := Nat.exists_eq_add_of_lt (Nat.lt_of_lt_of_le less room)
      simp [commaRounds, here, closes]
  | @more p p₁ p' a items here opens reading _ ih =>
      obtain ⟨token, added, less⟩ := comma here
      obtain ⟨tree, read, shaped, isNode⟩ := reads _ _ _ reading
      obtain ⟨runs, trees, tokens, shapes, rest⟩ := ih
      have first := added.trans (Adds.node read.appends isNode)
      refine ⟨fun rounds room => ?_, tree :: trees, _, .cons shaped shapes, first.trans rest⟩
      have after := read.appends.rest
      obtain ⟨rounds, rfl⟩ : ∃ n, rounds = n + 1 := ⟨rounds - 1, by omega⟩
      rw [commaRounds, if_pos here]
      simp only [opens]
      rw [if_neg Bool.false_ne_true, read.run]
      exact runs rounds (by omega)

end Lists

/-! ### The parts of a suffix -/

section Parts

variable {g : Grammar} {p p' : Parser}

/-- Consuming an expected token. -/
theorem Adds.expect {kind : SyntaxKind} (here : p.at_ kind = true) (more : kind ≠ .newline) :
    ∃ token, Adds p [] [token] (p.expect kind) ∧ (p.expect kind).rest.length < p.rest.length := by
  obtain ⟨token, rest, ahead, same⟩ := Parser.rest_of_at here
  have bumped := Adds.bump ahead (by rw [same]; exact more)
  have left := (Parser.bump_of_rest ahead).2
  rw [Parser.expect, if_pos here]
  refine ⟨token, bumped, ?_⟩
  rw [left, ahead]
  exact Nat.lt_succ_self _

theorem aside_of_annotation {tree : Cst} (kind : tree.isNode (is .annotationNode) = true) :
    Aside tree := by
  obtain ⟨children, rfl⟩ := eq_node_of_is kind
  rfl

theorem AnnotationRead.adds {asides : List Cst} (read : AnnotationRead g p asides p') :
    (if p.at_ .at_ then eatNl (g.annotation p) else p) = p' ∧
      (∀ node ∈ asides, Aside node) ∧ Adds p asides [] p' := by
  cases read with
  | plain here => simpa [here] using Adds.refl p
  | @annotated q tree here read kind =>
      have aside := aside_of_annotation kind
      rw [if_pos here, read.run]
      exact ⟨rfl, by simpa using aside, (Adds.node read.appends kind).thenNl⟩

theorem NameRead.adds {name : Option Token} (read : NameRead p name p') :
    (if p.at_ .identifier && p.nth 1 = some .equal then
        eatNl ((simpleIdentifier p).expect .equal) else p) = p' ∧
      ∃ tokens, Adds p [] tokens p' ∧
        (name = none ∧ tokens = [] ∨
          ∃ identifier equal, name = some identifier ∧ tokens = [identifier, equal] ∧
            identifier.kind = .identifier ∧ equal.kind = .equal) := by
  cases read with
  | positional here =>
      rw [if_neg (by rw [here]; exact Bool.false_ne_true)]
      exact ⟨rfl, [], Adds.refl p, .inl ⟨rfl, rfl⟩⟩
  | @named name equal rest ahead isName isEqual =>
      have here : p.at_ .identifier = true := by
        simp [Parser.at_, Parser.current, Parser.nth, ahead, isName]
      have next : p.nth 1 = some .equal := by simp [Parser.nth, ahead, isEqual]
      have bumped := Adds.bump ahead (by rw [isName]; decide)
      have left := (Parser.bump_of_rest ahead).2
      have atEqual : p.bump.at_ .equal = true := by
        simp [Parser.at_, Parser.current, Parser.nth, left, isEqual]
      have both := (bumped.trans (Adds.bump left (by rw [isEqual]; decide))).thenNl
      rw [if_pos (by simp [here, next]), simpleIdentifier, if_pos here, Parser.expect,
        if_pos atEqual]
      exact ⟨rfl, [name, equal], both, .inr ⟨name, equal, rfl, rfl, isName, isEqual⟩⟩

theorem SpreadRead.adds {spread : Bool} (read : SpreadRead p spread p') :
    (if p.at_ .star then eatNl p.bump else p) = p' ∧
      ∃ tokens, Adds p [] tokens p' ∧
        (spread = false ∧ tokens = [] ∨
          ∃ star, spread = true ∧ tokens = [star] ∧ star.kind = .star) := by
  cases read with
  | plain here =>
      rw [if_neg (by rw [here]; exact Bool.false_ne_true)]
      exact ⟨rfl, [], Adds.refl p, .inl ⟨rfl, rfl⟩⟩
  | spread here =>
      obtain ⟨star, rest, ahead, kind⟩ := Parser.rest_of_at here
      have bumped := (Adds.bump ahead (by rw [kind]; decide)).thenNl
      rw [if_pos here]
      exact ⟨rfl, [star], bumped, .inr ⟨star, rfl, rfl, kind⟩⟩

/-- The production of an argument builds its node. -/
theorem ArgumentRead.node {argument : Argument} (read : ArgumentRead g p argument p') :
    ∃ tree, ReadsTree (valueArgument g) p tree p' ∧ ArgumentNode argument tree ∧
      tree.isNode (fun _ => true) = true := by
  obtain ⟨annotated, named, spread, value, expression⟩ := read
  rename_i p₁ p₂ p₃ p₄ asides name spread' tree
  obtain ⟨run₁, aside, added₁⟩ := annotated.adds
  obtain ⟨run₂, nameTokens, added₂, names⟩ := named.adds
  obtain ⟨run₃, starTokens, added₃, stars⟩ := spread.adds
  have added := ((added₁.trans added₂).trans added₃).trans (Adds.node value.appends expression)
  have run : valueArgument g p = p₄.complete p.built .valueArgument := by
    rw [← value.run, ← run₃, ← run₂, ← run₁]
    rfl
  have tokens : ArgumentTokens ⟨name, spread', tree⟩ (nameTokens ++ starTokens) := by
    rcases names with ⟨rfl, rfl⟩ | ⟨identifier, equal, rfl, rfl, isName, isEqual⟩
    · rcases stars with ⟨rfl, rfl⟩ | ⟨star, rfl, rfl, isStar⟩
      · exact .positional
      · exact .spread isStar
    · rcases stars with ⟨rfl, rfl⟩ | ⟨star, rfl, rfl, isStar⟩
      · exact .named isName isEqual
      · exact .namedSpread isName isEqual isStar
  have holds : Holds p₄.built (asides ++ [tree]) (nameTokens ++ starTokens) := by
    simpa using added.holds
  refine ⟨.node .valueArgument p₄.built, ⟨rfl, ?_⟩, .mk holds aside tokens expression, rfl⟩
  rw [run]
  exact added.complete .valueArgument

/-- Line breaks are skipped only where one stands. -/
theorem eatNl_of_at {kind : SyntaxKind} (here : p.at_ kind = true) (more : kind ≠ .newline) :
    eatNl p = p := by
  have current : p.current = some kind := by simpa [Parser.at_] using here
  have stops : p.atAny [.newline] = false := by simp [Parser.atAny, current, more]
  rw [eatNl, Parser.bumpWhile]
  cases p.rest.length with
  | zero => rfl
  | succ rounds => simp [Parser.loop, stops]

/-- A list between brackets, with the line breaks inside them. -/
theorem bracketed {opening closing : SyntaxKind} {list : Production} {nodes : List Cst}
    {tokens : List Token} (here : p.at_ opening = true) (more : opening ≠ .newline)
    (other : closing ≠ .newline)
    (added : Adds (eatNl (p.expect opening)) nodes tokens (list (eatNl (p.expect opening))))
    (closes : (eatNl (list (eatNl (p.expect opening)))).at_ closing = true) :
    ∃ tokens, Adds p nodes tokens
        ((eatNl (list (eatNl (p.expect opening)))).expect closing) ∧
      ((eatNl (list (eatNl (p.expect opening)))).expect closing).rest.length < p.rest.length := by
  obtain ⟨open_, opened, less⟩ := Adds.expect here more
  obtain ⟨close, closed, less'⟩ := Adds.expect closes other
  have inside := (opened.thenNl.trans added).thenNl
  have left := added.thenNl.rest
  have started := (Adds.eatNl (p.expect opening)).rest
  refine ⟨[open_] ++ tokens ++ [close], by simpa using inside.trans closed, ?_⟩
  omega

/-- The production of the parentheses builds their node. -/
theorem ArgumentsRead.node {arguments : List Argument} (read : ArgumentsRead g p arguments p') :
    p.at_ .lParen = true ∧ KotlinSyntax.valueArguments g p = p' ∧
      ∃ list nodes tokens, Appends p [.node .valueArguments list] p' ∧ Holds list nodes tokens ∧
        List.Forall₂ ArgumentNode arguments nodes ∧ p'.rest.length < p.rest.length := by
  -- The list is empty right before the closing parenthesis.
  have inside : p.at_ .lParen = true ∧ KotlinSyntax.valueArguments g p = p' ∧
      ∃ list : Production, ∃ nodes tokens, List.Forall₂ ArgumentNode arguments nodes ∧
        p' = ((eatNl (list (eatNl (p.start.2.expect .lParen)))).expect .rParen).complete p.built
          .valueArguments ∧
        Adds (eatNl (p.start.2.expect .lParen)) nodes tokens
          (list (eatNl (p.start.2.expect .lParen))) ∧
        (eatNl (list (eatNl (p.start.2.expect .lParen)))).at_ .rParen = true := by
    cases read with
    | empty here closes =>
        refine ⟨here, rfl, id, [], [], .nil, ?_, Adds.refl _, ?_⟩
        · rw [KotlinSyntax.valueArguments]
          simp only [if_pos closes]
          rfl
        · rw [id, eatNl_of_at closes (by decide)]
          exact closes
    | @list p₁ p₂ first more here opens reading items closes =>
        obtain ⟨tree, read, shape, isNode⟩ := reading.node
        obtain ⟨runs, trees, tokens, shapes, added⟩ :=
          items.adds fun _ _ _ reading => reading.node
        have list : commaList .rParen (valueArgument g) (eatNl (p.start.2.expect .lParen)) = p₂ := by
          rw [commaList, read.run]
          exact runs p₁.rest.length (Nat.le_refl _)
        refine ⟨here, rfl, commaList .rParen (valueArgument g), tree :: trees, tokens,
          .cons shape shapes, ?_, ?_, ?_⟩
        · rw [KotlinSyntax.valueArguments]
          simp only [opens]
          rfl
        · rw [list]
          exact (Adds.node read.appends isNode).trans added
        · rw [list]
          exact closes
  obtain ⟨here, run, list, nodes, tokens, shapes, built, added, closes⟩ := inside
  obtain ⟨tokens, whole, less⟩ := bracketed (p := p.start.2) here (by decide) (by decide) added closes
  refine ⟨here, run, _, nodes, tokens, ?_, whole.holds, shapes, ?_⟩
  · rw [built]
    exact whole.complete .valueArguments
  · rw [built]
    exact less

/-- Every annotation is consumed, one in a round. -/
theorem AnnotationsRead.adds {asides : List Cst} (read : AnnotationsRead g p asides p') :
    (∀ rounds, p.rest.length ≤ rounds →
        Parser.loop (fun p => if p.at_ .at_ then some (eatNl (g.annotation p)) else none)
          rounds p = p') ∧
      (∀ node ∈ asides, Aside node) ∧ Adds p asides [] p' := by
  induction read with
  | done here =>
      refine ⟨fun rounds _ => ?_, nofun, Adds.refl _⟩
      cases rounds <;> simp [Parser.loop, here]
  | @more p q p' tree trees here read kind less _ ih =>
      obtain ⟨runs, asides, added⟩ := ih
      have first := (Adds.node read.appends kind).thenNl
      have left := (Adds.eatNl q).rest
      refine ⟨fun rounds room => ?_, ?_, first.trans added⟩
      · obtain ⟨rounds, rfl⟩ : ∃ n, rounds = n + 1 := ⟨rounds - 1, by omega⟩
        simp only [Parser.loop, here, if_true, read.run]
        exact runs rounds (by omega)
      · intro node member
        rcases List.mem_cons.mp member with rfl | later
        · exact aside_of_annotation kind
        · exact asides node later

/-- A name and the `@` after it are consumed. -/
theorem labelName_adds {name at_ : Token} {rest : List Token} (ahead : p.rest = name :: at_ :: rest)
    (isName : name.kind = .identifier) (isAt : at_.kind = .at_) :
    atLabel p = true ∧
      Adds p.start.2 [] [name, at_] ((simpleIdentifier p.start.2).expect .at_) ∧
      ((simpleIdentifier p.start.2).expect .at_).rest.length < p.rest.length := by
  have here : p.at_ .identifier = true := by
    simp [Parser.at_, Parser.current, Parser.nth, ahead, isName]
  have named : p.start.2.at_ .identifier = true := here
  have next : p.nth 1 = some .at_ := by simp [Parser.nth, ahead, isAt]
  have bumped : Adds p.start.2 [] [name] p.start.2.bump :=
    Adds.bump ahead (by rw [isName]; decide)
  have left : p.start.2.bump.rest = at_ :: rest :=
    (Parser.bump_of_rest (p := p.start.2) ahead).2
  have atAt : p.start.2.bump.at_ .at_ = true := by
    simp [Parser.at_, Parser.current, Parser.nth, left, isAt]
  have second := Adds.bump left (by rw [isAt]; decide)
  have run : (simpleIdentifier p.start.2).expect .at_ = p.start.2.bump.bump := by
    rw [simpleIdentifier, if_pos named, Parser.expect, if_pos atAt]
  rw [run]
  refine ⟨by simp [atLabel, here, next], bumped.trans second, ?_⟩
  have shorter := second.rest
  rw [left] at shorter
  rw [ahead]
  exact Nat.lt_succ_of_le shorter

/-- A label before a statement or a lambda is one node, over its name. -/
theorem label_read {name at_ : Token} {rest : List Token} (ahead : p.rest = name :: at_ :: rest)
    (isName : name.kind = .identifier) (isAt : at_.kind = .at_) :
    atLabel p = true ∧
      Appends p [.node .label (eatNl ((simpleIdentifier p.start.2).expect .at_)).built] (label p) ∧
      Holds (eatNl ((simpleIdentifier p.start.2).expect .at_)).built [] [name, at_] ∧
      (label p).rest.length < p.rest.length := by
  obtain ⟨labels, named, less⟩ := labelName_adds ahead isName isAt
  have whole := named.thenNl
  exact ⟨labels, whole.complete .label, whole.holds, lt_of_le_of_lt (Adds.eatNl _).rest less⟩

theorem LabelRead.adds {labels : List Cst} (read : LabelRead p labels p') :
    (if atLabel p then label p else p) = p' ∧ (∀ node ∈ labels, Aside node) ∧
      Adds p labels [] p' := by
  cases read with
  | unlabelled here =>
      rw [if_neg (by rw [here]; exact Bool.false_ne_true)]
      exact ⟨rfl, nofun, Adds.refl p⟩
  | @labelled name at_ rest ahead isName isAt =>
      obtain ⟨labels, appends, holds, less⟩ := label_read ahead isName isAt
      have kind : SyntaxTree.isNode (is .label) (.node .label
          (eatNl ((simpleIdentifier p.start.2).expect .at_)).built : Cst) = true := rfl
      rw [if_pos labels]
      exact ⟨rfl, by simp [Aside, isOneOf], Adds.node appends kind⟩

/-- The production of a trailing lambda builds its node. -/
theorem LambdaRead.node {lambda : Cst} (read : LambdaRead g p lambda p') :
    lambdaFollows p = true ∧ annotatedLambda g p = p' ∧
      ∃ tree, Appends p [tree] p' ∧ LambdaNode lambda tree ∧ p'.rest.length < p.rest.length := by
  obtain ⟨follows, annotations, label, literal, kind, less⟩ := read
  rename_i p₁ p₂ p₃ asides labels
  obtain ⟨runs, aside, added₁⟩ := annotations.adds
  obtain ⟨run₂, aside', added₂⟩ := label.adds
  have added := (added₁.trans added₂).trans (Adds.node literal.appends kind)
  have run : annotatedLambda g p = p₃.complete p.built .callExpression := by
    rw [annotatedLambda]
    have first := runs p.start.2.rest.length (Nat.le_refl _)
    rw [← literal.run, ← run₂, ← first]
    rfl
  have asides' : ∀ node ∈ asides ++ labels, Aside node := by
    intro node member
    rcases List.mem_append.mp member with early | late
    · exact aside node early
    · exact aside' node late
  have before : p₂.rest.length ≤ p.rest.length := (added₁.trans added₂).rest
  refine ⟨follows, rfl, .node .callExpression p₃.built, ?_, .mk added.holds asides' kind, ?_⟩
  · rw [run]
    exact added.complete .callExpression
  · rw [run]
    exact Nat.lt_of_lt_of_le less before

end Parts

/-! ### The rounds over the suffixes -/

section Rounds

variable (g : Grammar) {p q p' : Parser}

theorem suffix_operator {token : Token} {rest : List Token} (ahead : p.rest = token :: rest)
    (op : IsPostfixOperator token.kind) : postfixUnarySuffix g p = some (.operator, p.bump) := by
  have current : p.current = some token.kind := by simp [Parser.current, Parser.nth, ahead]
  rcases op with kind | kind | kind <;> simp [postfixUnarySuffix, Parser.at_, current, kind]

theorem suffix_parenthesized (here : p.at_ .lParen = true) :
    postfixUnarySuffix g p =
      some (.call, (KotlinSyntax.valueArguments g p.start.2).complete p.built .callExpression) := by
  have current : p.current = some .lParen := by simpa [Parser.at_] using here
  simp [postfixUnarySuffix, Parser.at_, current, Parser.start]

theorem suffix_indexing (here : p.at_ .lBracket = true) :
    postfixUnarySuffix g p =
      some (.indexing, (indexingSuffix g p.start.2).complete p.built .indexingExpression) := by
  have current : p.current = some .lBracket := by simpa [Parser.at_] using here
  simp [postfixUnarySuffix, Parser.at_, current, Parser.start]

theorem suffix_lambda (follows : lambdaFollows p = true) :
    postfixUnarySuffix g p = some (.call, annotatedLambda g p) := by
  have starts : p.at_ .lBrace = true ∨ p.at_ .at_ = true ∨ p.at_ .identifier = true := by
    by_contra none
    simp only [not_or, Bool.not_eq_true] at none
    simp [lambdaFollows, atLabel, none] at follows
  rw [lambdaFollows] at follows
  have current : p.at_ .plusPlus = false ∧ p.at_ .minusMinus = false ∧
      p.at_ .notNullAssert = false ∧ p.at_ .lParen = false ∧ p.at_ .lBracket = false := by
    simp only [Parser.at_, decide_eq_true_eq] at starts
    rcases starts with here | here | here <;> simp [Parser.at_, here]
  simp [postfixUnarySuffix, current, follows]

theorem suffix_typeArguments (here : (p.at_ .less && atTypeArguments p) = true) :
    postfixUnarySuffix g p = some (.typeArguments, g.typeArguments p) := by
  have current : p.current = some .less := by
    simpa [Parser.at_] using (Bool.and_eq_true_iff.mp here).1
  have types := (Bool.and_eq_true_iff.mp here).2
  simp [postfixUnarySuffix, Parser.at_, atLabel, current, types]

theorem suffix_navigation {op : SyntaxKind} (kind : op = .dot ∨ op = .safeAccess)
    (here : p.current = some op ∨ (p.at_ .newline = true ∧ p.nth 1 = some op)) :
    postfixUnarySuffix g p = some (.navigation, navigationSuffix g p) := by
  rcases here with current | ⟨newline, next⟩
  · rcases kind with rfl | rfl <;>
      simp [postfixUnarySuffix, Parser.at_, Parser.atAny, atLabel, current]
  · have current : p.current = some .newline := by simpa [Parser.at_] using newline
    rcases kind with rfl | rfl <;>
      simp [postfixUnarySuffix, Parser.at_, Parser.atAny, atLabel, current, next]

/-- Some rounds lead from `p` to `p'`; the tokens ahead bound the rounds before and after. -/
def Advances (p p' : Parser) : Prop :=
  ∀ rounds last, p.rest.length ≤ rounds → ∃ rounds' last', p'.rest.length ≤ rounds' ∧
    postfixUnarySuffixRounds g rounds last p = postfixUnarySuffixRounds g rounds' (some last') p'

variable {g}

/-- A round that consumes a token. -/
theorem Advances.round {kind : PostfixSuffix} (step : postfixUnarySuffix g p = some (kind, p'))
    (less : p'.rest.length < p.rest.length) : Advances g p p' := by
  intro rounds last room
  obtain ⟨rounds, rfl⟩ : ∃ n, rounds = n + 1 := ⟨rounds - 1, by omega⟩
  refine ⟨rounds, kind, by omega, ?_⟩
  rw [postfixUnarySuffixRounds, step]

theorem Advances.trans (first : Advances g p q) (second : Advances g q p') : Advances g p p' := by
  intro rounds last room
  obtain ⟨rounds₁, last₁, room₁, same₁⟩ := first rounds last room
  obtain ⟨rounds₂, last₂, room₂, same₂⟩ := second rounds₁ (some last₁) room₁
  exact ⟨rounds₂, last₂, room₂, same₁.trans same₂⟩

/-- The parentheses of a call are read in one round. -/
theorem ArgumentsRead.advances {arguments : List Argument}
    (read : ArgumentsRead g p.start.2 arguments q) :
    Advances g p (q.complete p.built .callExpression) ∧
      ∃ node, Appends p [node] (q.complete p.built .callExpression) ∧
        ArgumentsNode arguments node := by
  obtain ⟨here, run, list, nodes, tokens, appends, holds, shapes, less⟩ := read.node
  have step := suffix_parenthesized g (p := p) here
  rw [run] at step
  have kind : SyntaxTree.isNode (is .valueArguments) (.node .valueArguments list : Cst) = true := rfl
  have added : Adds p.start.2 [.node .valueArguments list] [] q := Adds.node appends kind
  exact ⟨Advances.round step less, _, added.complete .callExpression,
    .mk added.holds holds shapes⟩

theorem LambdaRead.advances {lambda : Cst} (read : LambdaRead g p lambda p') :
    Advances g p p' ∧ ∃ node, Appends p [node] p' ∧ LambdaNode lambda node := by
  obtain ⟨follows, run, node, appends, shape, less⟩ := read.node
  have step := suffix_lambda g follows
  rw [run] at step
  exact ⟨Advances.round step less, node, appends, shape⟩

/-- A call is read in one round or two. -/
theorem CallRead.advances {arguments : Option (List Argument)} {lambda : Option Cst}
    (read : CallRead g arguments lambda p p') :
    Advances g p p' ∧ ∃ nodes, Appends p nodes p' ∧ CallNodes arguments lambda nodes := by
  cases read with
  | parenthesized arguments _ =>
      obtain ⟨advances, node, appends, shape⟩ := arguments.advances
      exact ⟨advances, [node], appends, .parenthesized shape⟩
  | lambda lambda =>
      obtain ⟨advances, node, appends, shape⟩ := lambda.advances
      exact ⟨advances, [node], appends, .lambda shape⟩
  | both arguments lambda =>
      obtain ⟨advances₁, node, appends₁, shape⟩ := arguments.advances
      obtain ⟨advances₂, lambdaNode, appends₂, lambdaShape⟩ := lambda.advances
      exact ⟨advances₁.trans advances₂, [node, lambdaNode], appends₁.trans appends₂,
        .both shape lambdaShape⟩

/-- A navigation suffix holds its operator and its name. -/
theorem navigation_read {op name : Token} {rest rest' : List Token}
    (kind : op.kind = .dot ∨ op.kind = .safeAccess) (ahead : (eatNl p).rest = op :: rest)
    (after : (eatNl (eatNl p).start.2.bump).rest = name :: rest')
    (isName : name.kind = .identifier) :
    ∃ children, Appends (eatNl p) [.node .navigationSuffix children] (navigationSuffix g p) ∧
      Holds children [] [op, name] ∧
      (navigationSuffix g p).rest.length < (eatNl p).rest.length := by
  have more : op.kind ≠ .newline := by
    rcases kind with op_ | op_ <;> simp [op_]
  have operator : Adds (eatNl p).start.2 [] [op] (eatNl (eatNl p).start.2.bump) :=
    (Adds.bump (p := (eatNl p).start.2) ahead more).thenNl
  have current : (eatNl (eatNl p).start.2.bump).current = some .identifier := by
    simp [Parser.current, Parser.nth, after, isName]
  have member : navigationMember g (eatNl (eatNl p).start.2.bump) =
      (eatNl (eatNl p).start.2.bump).bump := by
    simp [navigationMember, simpleIdentifier, Parser.at_, current]
  have added := operator.trans (Adds.bump after (by rw [isName]; decide))
  rw [← member] at added
  have left : (navigationMember g (eatNl (eatNl p).start.2.bump)).rest = rest' := by
    rw [member]
    exact (Parser.bump_of_rest after).2
  have less : rest'.length < (eatNl p).rest.length := by
    have before := operator.rest
    rw [after] at before
    exact before
  refine ⟨_, added.complete .navigationSuffix, added.holds, ?_⟩
  rw [← left] at less
  exact less

/-- An index list holds its indices. -/
theorem indexing_read {p₁ p₂ : Parser} {first : Cst} {more : List Cst}
    (here : p.at_ .lBracket = true)
    (index : IndexRead g (eatNl (p.start.2.expect .lBracket)) first p₁)
    (items : ItemsRead .rBracket (IndexRead g) p₁ more p₂)
    (closes : (eatNl p₂).at_ .rBracket = true) :
    ∃ children tokens,
      Appends p [.node .indexingExpression children]
        ((indexingSuffix g p.start.2).complete p.built .indexingExpression) ∧
      Holds children (first :: more) tokens ∧
      (indexingSuffix g p.start.2).rest.length < p.rest.length := by
  have shape : ∀ p a p', IndexRead g p a p' → ∃ tree, ReadsTree g.expression p tree p' ∧ a = tree ∧
      tree.isNode (fun _ => true) = true := by
    intro p tree p' read
    obtain ⟨read, expression⟩ := read
    exact ⟨tree, read, rfl, isNode_any expression⟩
  obtain ⟨runs, trees, tokens, same, added⟩ := items.adds shape
  obtain rfl := List.forall₂_eq_eq_eq ▸ same
  have list : commaList .rBracket g.expression (eatNl (p.start.2.expect .lBracket)) = p₂ := by
    rw [commaList, index.1.run]
    exact runs p₁.rest.length (Nat.le_refl _)
  have inside := (Adds.node index.1.appends index.2).trans added
  rw [← list] at inside closes
  obtain ⟨tokens, whole, less⟩ :=
    bracketed (p := p.start.2) here (by decide) (by decide) inside closes
  exact ⟨_, tokens, whole.complete .indexingExpression, whole.holds, less⟩

/-- What the rounds of one suffix append is the nodes of that suffix. -/
theorem SuffixRead.advances {suffix : Suffix} (read : SuffixRead g p suffix p') :
    Advances g p p' ∧ ∃ elements, Appends p elements p' ∧ SuffixNodes suffix elements := by
  cases read with
  | @operator token rest ahead op =>
      obtain ⟨built, left⟩ := Parser.bump_of_rest ahead
      have less : p.bump.rest.length < p.rest.length := by
        rw [left, ahead]
        exact Nat.lt_succ_self _
      exact ⟨Advances.round (suffix_operator g ahead op) less, [.token token],
        ⟨built, Nat.le_of_lt less⟩, .operator op⟩
  | @member op name rest rest' kind here ahead after isName =>
      have step := suffix_navigation g kind here
      obtain ⟨children, appends, holds, less⟩ := navigation_read (g := g) kind ahead after isName
      obtain ⟨breaks, only, skipped⟩ := eatNl_appends p
      have whole := skipped.trans appends
      refine ⟨Advances.round step (Nat.lt_of_lt_of_le less skipped.rest), _, whole, ?_⟩
      exact .member only kind isName holds
  | @call q _ typeArgs arguments lambda types call =>
      obtain ⟨advances, nodes, appends, shape⟩ := call.advances
      cases types with
      | unwritten => exact ⟨advances, nodes, appends, .call nofun shape⟩
      | @written _ tree here read kind less =>
          have step := suffix_typeArguments g here
          rw [read.run] at step
          exact ⟨(Advances.round step less).trans advances, [tree] ++ nodes,
            read.appends.trans appends, .call (by simpa using kind) shape⟩
  | @indexing p₁ p₂ first more here index items closes =>
      have step := suffix_indexing g here
      obtain ⟨children, tokens, appends, holds, less⟩ := indexing_read here index items closes
      exact ⟨Advances.round step less, _, appends, .indexing index.2 holds⟩

/-- The suffixes of a chain are read in rounds that append their nodes, one suffix after another. -/
theorem SuffixesRead.built {suffixes : List Suffix} (read : SuffixesRead g p suffixes p') :
    ∃ elements, Appends p elements.flatten p' ∧ List.Forall₂ SuffixNodes suffixes elements ∧
      ∀ rounds last, p.rest.length ≤ rounds → ∃ last',
        postfixUnarySuffixRounds g rounds last p = (last', p') ∧
          (suffixes = [] → last' = last) ∧ (suffixes ≠ [] ∨ last ≠ none → last' ≠ none) := by
  induction read with
  | @done p stops =>
      refine ⟨[], Appends.refl p, .nil, fun rounds last _ => ⟨last, ?_, fun _ => rfl, by simp⟩⟩
      cases rounds with
      | zero => rfl
      | succ rounds => rw [postfixUnarySuffixRounds, stops]
  | suffix read _ ih =>
      obtain ⟨advances, nodes, appends, shape⟩ := read.advances
      obtain ⟨elements, more, shapes, runs⟩ := ih
      refine ⟨nodes :: elements, appends.trans more, .cons shape shapes, ?_⟩
      intro rounds last room
      obtain ⟨rounds', last', room', same⟩ := advances rounds last room
      obtain ⟨final, ran, _, some_⟩ := runs rounds' (some last') room'
      exact ⟨final, same.trans ran, nofun, fun _ => some_ (.inr (by simp))⟩

end Rounds

section Folding

variable (ctx : Leaves) {g : Grammar} {p p' : Parser} {base : Cst} {suffixes : List Suffix}

/-- **Chains folded**: for every base and every suffixes that the parser reads after it, the node it
builds lowers to the suffixes applied to the base from left to right exactly when every suffix is
allowed after the one before it. -/
theorem chain_folded_iff (read : PostfixRead g p base suffixes p') :
    ∃ node, (postfixUnaryExpression g p).2.built = p.built ++ [node] ∧
      (denote (expr ctx node) = leftFoldSuffixes ctx base suffixes ↔ AllAllowed none suffixes) := by
  obtain ⟨⟨p₀, first, more⟩, primary⟩ := read
  obtain ⟨elements, appends, shapes, runs⟩ := more.built
  obtain ⟨last, ran, empty, some_⟩ := runs p₀.rest.length none (Nat.le_refl _)
  have children : p'.built = base :: elements.flatten := by
    rw [appends.built, first.appends.built]
    rfl
  have run : postfixUnarySuffixes g (primaryExpression g p.start.2) = (last, p') := by
    rw [first.run]
    exact ran
  by_cases none_ : suffixes = []
  · -- Without a suffix the chain is its base.
    obtain rfl := none_
    cases shapes
    refine ⟨base, ?_, ?_⟩
    · rw [postfixUnaryExpression]
      simp only [run, empty rfl, Parser.built_abandon, children]
      rfl
    · simp [leftFoldSuffixes, AllAllowed, (denote_of_isAtom (primary.isAtom ctx)).1]
  · obtain ⟨kind, found⟩ := Option.ne_none_iff_exists'.mp (some_ (.inl none_))
    refine ⟨.node .postfixUnaryExpression (base :: elements.flatten), ?_,
      denote_chain ctx primary shapes none_⟩
    rw [postfixUnaryExpression]
    simp only [run, found, Parser.built_complete, children]
    rfl

end Folding

/-! ### `x.y!!` -/

/-- The tokens of `x.y!!`. -/
def assertedTokens : List Token :=
  [⟨.identifier, "x".toList, 0⟩, ⟨.dot, ".".toList, 0⟩, ⟨.identifier, "y".toList, 0⟩,
   ⟨.notNullAssert, "!!".toList, 0⟩, ⟨.eof, [], 0⟩]

def assertedBase : Cst := .node .primaryExpression [.token ⟨.identifier, "x".toList, 0⟩]

def assertedSuffixes : List Suffix :=
  [.member ⟨.dot, ".".toList, 0⟩ ⟨.identifier, "y".toList, 0⟩,
   .operator ⟨.notNullAssert, "!!".toList, 0⟩]

/-- What the parser reads of `x.y!!`. -/
def assertedBuilt : List Cst :=
  [assertedBase,
   .node .navigationSuffix [.token ⟨.dot, ".".toList, 0⟩, .token ⟨.identifier, "y".toList, 0⟩],
   .token ⟨.notNullAssert, "!!".toList, 0⟩]

/-- The parser in `x.y!!` after `n` tokens, the last of kind `previous`, and `m` elements. -/
def inAsserted (n m : Nat) (previous : SyntaxKind) : Parser :=
  { Parser.new (assertedTokens.drop n) with
    previous := some previous, built := assertedBuilt.take m }

/-- The chain `x.y!!` is read as a member access and an assertion. -/
theorem asserted_read : PostfixRead .idle (Parser.new assertedTokens) assertedBase
    assertedSuffixes (inAsserted 4 3 .notNullAssert) := by
  have member : navigationSuffix .idle (inAsserted 1 1 .identifier) = inAsserted 3 2 .identifier := by
    rfl
  have assertion : (inAsserted 3 2 .identifier).bump = inAsserted 4 3 .notNullAssert := by
    rfl
  have base : ReadsTree (primaryExpression .idle) (Parser.new assertedTokens).start.2 assertedBase
      (inAsserted 1 1 .identifier) := ⟨by decide, by decide, by decide⟩
  have dot : (eatNl (inAsserted 1 1 .identifier)).rest =
      ⟨.dot, ".".toList, 0⟩ :: assertedTokens.drop 2 := by rfl
  have name : (eatNl (eatNl (inAsserted 1 1 .identifier)).start.2.bump).rest =
      ⟨.identifier, "y".toList, 0⟩ :: assertedTokens.drop 3 := by rfl
  have read₁ := SuffixRead.member (g := .idle) (.inl rfl) (.inl rfl) dot name rfl
  have ahead : (inAsserted 3 2 .identifier).rest =
      ⟨.notNullAssert, "!!".toList, 0⟩ :: assertedTokens.drop 4 := rfl
  have read₂ := SuffixRead.operator (g := .idle) ahead (.inr (.inr rfl))
  rw [member] at read₁
  rw [assertion] at read₂
  have stops : postfixUnarySuffix .idle (inAsserted 4 3 .notNullAssert) = none := by rfl
  exact ⟨⟨_, base, .suffix read₁ (.suffix read₂ (.done stops))⟩, .token _⟩

/-- What `x.y!!` lowers to, on the node the parser builds. -/
theorem asserted_folded : ∃ node,
    (postfixUnaryExpression .idle (Parser.new assertedTokens)).2.built = [node] ∧
      (denote (expr .unread node) = leftFoldSuffixes .unread assertedBase assertedSuffixes ↔
        AllAllowed none assertedSuffixes) :=
  chain_folded_iff .unread asserted_read

/-- `x.y!!` is read whole and without errors, and asserts `x`: the access to `y` is lost. -/
theorem chain_not_folded : ∃ node,
    (expression .idle (Parser.new assertedTokens)).built = [node] ∧
      (expression .idle (Parser.new assertedTokens)).errors = [] ∧
      denote (expr .unread node) = .operated .notNullAssert (.base (.var ⟨['x']⟩)) ∧
      leftFoldSuffixes .unread assertedBase assertedSuffixes =
        .operated .notNullAssert (.member (.base (.var ⟨['x']⟩)) ⟨['y']⟩) ∧
      denote (expr .unread node) ≠ leftFoldSuffixes .unread assertedBase assertedSuffixes := by
  have lowers : denote (expr .unread (.node .postfixUnaryExpression assertedBuilt)) =
      .operated .notNullAssert (.base (.var ⟨['x']⟩)) := by
    have tree : expr .unread (.node .postfixUnaryExpression assertedBuilt) =
        .nullAssert (.var ⟨['x']⟩) := rfl
    rw [tree]
    simp [denote]
  have means : leftFoldSuffixes .unread assertedBase assertedSuffixes =
      .operated .notNullAssert (.member (.base (.var ⟨['x']⟩)) ⟨['y']⟩) := rfl
  refine ⟨.node .postfixUnaryExpression assertedBuilt, by rfl, by rfl, lowers,
    means, ?_⟩
  rw [lowers, means]
  simp

end CaffeineLs.HirDef.Kotlin
