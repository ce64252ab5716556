/-
Module: CaffeineLs.Proofs.PostfixChains
Purpose: What a chain of postfix suffixes lowers to, compared with the suffixes applied one after
  another to the base.
Trusted boundary: none
Main exports: Suffix, PostfixValue, denote
-/
import CaffeineLs.Proofs.KotlinReading

namespace CaffeineLs.HirDef.Kotlin

open Lib KotlinSyntax
open HirExpand (Name SpannedTypeRef)
open Decorated (firstNode lastNode nodesOf tokensOf)

/-! ### Suffixes and what they mean -/

/-- One argument in parentheses: `name = *value`, the name and the spread being optional. -/
structure Argument where
  name : Option Token
  spread : Bool
  value : Cst

/-- One postfix suffix. A call has arguments in parentheses, a trailing lambda, or both. -/
inductive Suffix where
  | operator (token : Token)
  | member (op name : Token)
  | call (typeArgs : Option Cst) (arguments : Option (List Argument)) (lambda : Option Cst)
  | indexing (first : Cst) (more : List Cst)

/-- The value of a postfix chain: a base with the operations applied to it. -/
inductive PostfixValue where
  | base (value : ExprData)
  | operated (op : SyntaxKind) (value : PostfixValue)
  | member (value : PostfixValue) (name : Name)
  | safeMember (value : PostfixValue) (name : Name)
  | called (callee : PostfixValue) (typeArgs : List SpannedTypeRef) (args : List ExprData)
      (argNames : List (Option Name))
  | indexed (value : PostfixValue) (indices : List ExprData)

namespace PostfixValue

/-- What a call of the value calls: names and members themselves, any other value its `invoke`. -/
def callee : PostfixValue → PostfixValue
  | base (.var name) => base (.var name)
  | member value name => member value name
  | safeMember value name => safeMember value name
  | value => member value invokeName

/-- The number of operations, indices, arguments and type arguments in the value. -/
def weight : PostfixValue → Nat
  | base _ => 0
  | operated _ value => value.weight + 1
  | member value _ => value.weight + 1
  | safeMember value _ => value.weight + 1
  | called callee typeArgs args _ => callee.weight + 1 + typeArgs.length + args.length
  | indexed value indices => value.weight + 1 + indices.length

/-- What decides how a call is applied to a value. -/
inductive Head where
  | name
  | member
  | safe
  | called
  | other
deriving DecidableEq

def head : PostfixValue → Head
  | base (.var _) => .name
  | member _ _ => .member
  | safeMember _ _ => .safe
  | called _ _ _ _ => .called
  | _ => .other

/-- Whether a call of a value with this head calls a member of the value. -/
def Head.invokes : Head → Bool
  | .called | .other => true
  | _ => false

theorem weight_callee (v : PostfixValue) :
    v.callee.weight = v.weight + if v.head.invokes then 1 else 0 := by
  cases v with
  | base value => cases value <;> rfl
  | _ => rfl

theorem head_callee_eq_safe (v : PostfixValue) : v.callee.head = .safe ↔ v.head = .safe := by
  cases v with
  | base value => cases value <;> simp [callee, head]
  | _ => simp [callee, head]

end PostfixValue

open PostfixValue (Head)

/-- The postfix value that an expression of the body tree is. -/
def denote : ExprData → PostfixValue
  | .postfix_ .inc value => .operated .plusPlus (denote value)
  | .postfix_ .dec value => .operated .minusMinus (denote value)
  | .nullAssert value => .operated .notNullAssert (denote value)
  | .fieldAccess (some target) name => .member (denote target) name
  | .safeAccess receiver (.fieldAccess none name) => .safeMember (denote receiver) name
  | .safeAccess receiver (.methodCall none name typeArgs args argNames _) =>
      .called (.safeMember (denote receiver) name) typeArgs args argNames
  | .methodCall none name typeArgs args argNames _ =>
      .called (.base (.var name)) typeArgs args argNames
  | .methodCall (some receiver) name typeArgs args argNames _ =>
      .called (.member (denote receiver) name) typeArgs args argNames
  | .arrayAccess array index => .indexed (denote array) [index]
  | value => .base value

section Meaning

variable (ctx : Leaves)

/-- The value of an argument, with its spread. -/
def Argument.expr (argument : Argument) : ExprData :=
  if argument.spread then .spread (Kotlin.expr ctx argument.value)
  else Kotlin.expr ctx argument.value

/-- The type arguments that a `typeArguments` node writes. -/
def writtenTypes : Cst → List SpannedTypeRef
  | .node _ children => (children.filter (SyntaxTree.isNode (is .typeProjection))).map ctx.projection
  | .token _ => []

/-- A suffix applied to a value. -/
def Suffix.apply (value : PostfixValue) : Suffix → PostfixValue
  | operator token => .operated token.kind value
  | member op name =>
      if op.kind = .safeAccess then .safeMember value (nameOf name)
      else .member value (nameOf name)
  | call typeArgs arguments lambda =>
      .called value.callee ((typeArgs.map (writtenTypes ctx)).getD [])
        ((arguments.getD []).map (Argument.expr ctx) ++ (lambda.map (expr ctx)).toList)
        ((arguments.getD []).map fun argument => argument.name.map nameOf)
  | indexing first more => .indexed value (expr ctx first :: more.map (expr ctx))

/-- Every suffix applied to the value of those before it. -/
def leftFoldSuffixes (base : Cst) (suffixes : List Suffix) : PostfixValue :=
  suffixes.foldl (Suffix.apply ctx) (.base (expr ctx base))

end Meaning

/-! ### Calls -/

/-- The values that a postfix chain passes through: an access without a target stands only inside a
safe access. -/
def Proper : ExprData → Prop
  | .fieldAccess none _ => False
  | .safeAccess _ (.fieldAccess none _) => True
  | .safeAccess _ (.methodCall none _ _ _ _ _) => True
  | .safeAccess _ _ => False
  | _ => True

section Calls

variable (ctx : Leaves) (children : List LoweredCst) (written : Option LoweredCst)

/-- The type arguments written before a call. -/
def callTypes : List SpannedTypeRef :=
  (written.map fun node => callTypeArguments node.children ctx).getD []

/-- A call of a value that is not a call is the call of its callee. -/
theorem denote_call_of_head_ne {e : ExprData} (proper : Proper e)
    (fresh : (denote e).head ≠ .called) :
    denote (call children ctx e written) =
      .called (denote e).callee (callTypes ctx written) (callArguments children).1
        (callArguments children).2 := by
  cases e with
  | fieldAccess target name =>
      cases target with
      | none => exact absurd proper (by simp [Proper])
      | some target => simp [call, denote, PostfixValue.callee, callTypes]
  | safeAccess receiver member =>
      cases member with
      | fieldAccess target name =>
          cases target with
          | none => simp [call, denote, PostfixValue.callee, callTypes]
          | some target => exact absurd proper (by simp [Proper])
      | methodCall inner name typeArgs args argNames trailing =>
          cases inner with
          | none => simp [denote, PostfixValue.head] at fresh
          | some inner => exact absurd proper (by simp [Proper])
      | _ => exact absurd proper (by simp [Proper])
  | methodCall receiver name typeArgs args argNames trailing =>
      cases receiver <;> simp [denote, PostfixValue.head] at fresh
  | postfix_ op value =>
      cases op <;> simp [call, denote, PostfixValue.callee, callTypes]
  | _ => simp [call, denote, PostfixValue.callee, callTypes]

/-- A call of a call adds its arguments to that call. -/
theorem denote_call_of_head_eq {e : ExprData} (proper : Proper e)
    (joined : (denote e).head = .called) :
    ∃ callee typeArgs args argNames, denote e = .called callee typeArgs args argNames ∧
      denote (call children ctx e written) =
        .called callee (if callee.head = .safe then callTypes ctx written else typeArgs)
          (args ++ (callArguments children).1) (argNames ++ (callArguments children).2) := by
  cases e with
  | safeAccess receiver member =>
      cases member with
      | methodCall inner name typeArgs args argNames trailing =>
          cases inner with
          | none =>
              refine ⟨_, _, _, _, rfl, ?_⟩
              simp [call, denote, callTypes, PostfixValue.head]
          | some inner => exact absurd proper (by simp [Proper])
      | fieldAccess target name =>
          cases target with
          | none => simp [denote, PostfixValue.head] at joined
          | some target => exact absurd proper (by simp [Proper])
      | _ => exact absurd proper (by simp [Proper])
  | methodCall receiver name typeArgs args argNames trailing =>
      cases receiver with
      | none =>
          refine ⟨_, _, _, _, rfl, ?_⟩
          simp [call, denote, PostfixValue.head]
      | some receiver =>
          refine ⟨_, _, _, _, rfl, ?_⟩
          simp [call, denote, PostfixValue.head]
  | fieldAccess target name => cases target <;> simp [denote, PostfixValue.head] at joined
  | postfix_ op value => cases op <;> simp [denote, PostfixValue.head] at joined
  | _ => simp [denote, PostfixValue.head] at joined

/-- A call leaves a proper value. -/
theorem proper_call {e : ExprData} : Proper (call children ctx e written) := by
  cases e <;> simp [call, Proper]

end Calls

/-! ### The nodes of the suffixes -/

/-- The tokens of an argument: its name with `=`, and the `*` of a spread. -/
inductive ArgumentTokens : Argument → List Token → Prop where
  | positional {value : Cst} : ArgumentTokens ⟨none, false, value⟩ []
  | spread {value : Cst} {star : Token} : star.kind = .star →
      ArgumentTokens ⟨none, true, value⟩ [star]
  | named {name equal : Token} {value : Cst} : name.kind = .identifier → equal.kind = .equal →
      ArgumentTokens ⟨some name, false, value⟩ [name, equal]
  | namedSpread {name equal star : Token} {value : Cst} : name.kind = .identifier →
      equal.kind = .equal → star.kind = .star →
      ArgumentTokens ⟨some name, true, value⟩ [name, equal, star]

/-- Nodes that are no part of a value: annotations and labels. -/
def Aside (node : Cst) : Prop := node.isNode (isOneOf [.annotationNode, .label]) = true

/-- A `valueArgument` node. -/
inductive ArgumentNode : Argument → Cst → Prop where
  | mk {argument : Argument} {children before : List Cst} {tokens : List Token} :
      Holds children (before ++ [argument.value]) tokens → (∀ node ∈ before, Aside node) →
      ArgumentTokens argument tokens → argument.value.isNode isExpression = true →
      ArgumentNode argument (.node .valueArgument children)

/-- A call suffix with arguments in parentheses. -/
inductive ArgumentsNode : List Argument → Cst → Prop where
  | mk {arguments : List Argument} {children list nodes : List Cst} {tokens listTokens : List Token} :
      Holds children [.node .valueArguments list] tokens → Holds list nodes listTokens →
      List.Forall₂ ArgumentNode arguments nodes →
      ArgumentsNode arguments (.node .callExpression children)

/-- A call suffix that is a trailing lambda, with its annotations and its label. -/
inductive LambdaNode : Cst → Cst → Prop where
  | mk {lambda : Cst} {children before : List Cst} {tokens : List Token} :
      Holds children (before ++ [lambda]) tokens → (∀ node ∈ before, Aside node) →
      lambda.isNode (is .lambdaLiteral) = true →
      LambdaNode lambda (.node .callExpression children)

theorem ArgumentsNode.isCall {arguments : List Argument} {node : Cst}
    (shape : ArgumentsNode arguments node) : ∃ children, node = .node .callExpression children := by
  cases shape
  exact ⟨_, rfl⟩

theorem LambdaNode.isCall {lambda node : Cst} (shape : LambdaNode lambda node) :
    ∃ children, node = .node .callExpression children := by
  cases shape
  exact ⟨_, rfl⟩

def IsPostfixOperator (kind : SyntaxKind) : Prop :=
  kind = .plusPlus ∨ kind = .minusMinus ∨ kind = .notNullAssert

/-- The call nodes of a call suffix: one for its parentheses and one for its lambda. -/
inductive CallNodes : Option (List Argument) → Option Cst → List Cst → Prop where
  | parenthesized {arguments : List Argument} {node : Cst} :
      ArgumentsNode arguments node → CallNodes (some arguments) none [node]
  | lambda {lambda node : Cst} : LambdaNode lambda node → CallNodes none (some lambda) [node]
  | both {arguments : List Argument} {lambda node lambdaNode : Cst} :
      ArgumentsNode arguments node → LambdaNode lambda lambdaNode →
      CallNodes (some arguments) (some lambda) [node, lambdaNode]

/-- What the parser appends to a postfix chain for one suffix. -/
inductive SuffixNodes : Suffix → List Cst → Prop where
  | operator {token : Token} : IsPostfixOperator token.kind →
      SuffixNodes (.operator token) [.token token]
  | member {op name : Token} {breaks : List Token} {children : List Cst} :
      (∀ token ∈ breaks, token.kind = .newline) → op.kind = .dot ∨ op.kind = .safeAccess →
      name.kind = .identifier → Holds children [] [op, name] →
      SuffixNodes (.member op name) (breaks.map .token ++ [.node .navigationSuffix children])
  | call {typeArgs : Option Cst} {arguments : Option (List Argument)} {lambda : Option Cst}
      {nodes : List Cst} : (∀ node ∈ typeArgs, node.isNode (is .typeArguments) = true) →
      CallNodes arguments lambda nodes →
      SuffixNodes (.call typeArgs arguments lambda) (typeArgs.toList ++ nodes)
  | indexing {first : Cst} {more children : List Cst} {tokens : List Token} :
      first.isNode isExpression = true → Holds children (first :: more) tokens →
      SuffixNodes (.indexing first more) [.node .indexingExpression children]

section Nodes

variable (ctx : Leaves)

theorem Aside.not_isExpression {node : Cst} (aside : Aside node) :
    node.isNode isExpression = false ∧ node.isNode (is .valueArguments) = false := by
  cases node with
  | token t => exact ⟨rfl, rfl⟩
  | node kind children =>
      have kinds : kind = .annotationNode ∨ kind = .label := by
        simpa [Aside, isOneOf] using aside
      rcases kinds with rfl | rfl <;> exact ⟨rfl, rfl⟩

/-- Among asides and one expression, the expression is the only one. -/
theorem filter_isExpression_aside {before : List Cst} {value : Cst}
    (asides : ∀ node ∈ before, Aside node) (expression : value.isNode isExpression = true) :
    (before ++ [value]).filter (SyntaxTree.isNode isExpression) = [value] := by
  have none : before.filter (SyntaxTree.isNode isExpression) = [] := by
    rw [List.filter_eq_nil_iff]
    intro node member
    rw [(asides node member).not_isExpression.1]
    exact Bool.false_ne_true
  rw [List.filter_append, none, List.filter_cons_of_pos expression]
  rfl

/-- Dropping elements that a prefix passes over does not change what the prefix keeps of the
others. -/
theorem takeWhile_filter {α : Type} {p q : α → Bool} (passed : ∀ a, q a = false → p a = true)
    (l : List α) : (l.filter q).takeWhile p = (l.takeWhile p).filter q := by
  induction l with
  | nil => rfl
  | cons a l ih =>
      rw [List.filter_cons, List.takeWhile_cons]
      by_cases kept : q a = true
      · rw [if_pos kept, List.takeWhile_cons]
        split
        · rw [ih, List.filter_cons_of_pos kept]
        · rfl
      · rw [if_neg kept, ih, passed a (by simpa using kept), if_pos rfl,
          List.filter_cons_of_neg kept]

/-- The name of an argument, read from its tokens up to `=`. -/
theorem argumentName_lowered {children nodes : List Cst} {tokens : List Token}
    (holds : Holds children nodes tokens) :
    ((tokensOf (children.map (lowered ctx))).takeWhile (·.kind ≠ .equal)).find?
        (·.kind = .identifier) =
      (tokens.takeWhile (·.kind ≠ .equal)).find? (·.kind = .identifier) := by
  have all : tokensOf (children.map (lowered ctx)) = children.filterMap SyntaxTree.leaf :=
    Decorated.tokensOf_map_decorate (lowerNode ctx) children
  rw [all, ← holds.tokens, takeWhile_filter, List.find?_filter]
  · congr 1
    funext token
    by_cases name : token.kind = .identifier
    · simp [significant, name]
    · simp [name]
  · intro token dropped
    have newline : token.kind = .newline := by simpa [significant] using dropped
    simp [newline]

/-- An argument lowers to its value and its name. -/
theorem argument_lowered {argument : Argument} {node : Cst} (shape : ArgumentNode argument node) :
    valueArguments [lowered ctx node] =
      [(argument.expr ctx, argument.name.map nameOf)] := by
  obtain ⟨holds, asides, tokens, expression⟩ := shape
  have value := lastExpression_lowered ctx holds
  rw [filter_isExpression_aside asides expression] at value
  have star := hasToken_lowered ctx holds (p := is .star) rfl
  have equal := hasToken_lowered ctx holds (p := is .equal) rfl
  have name := argumentName_lowered ctx holds
  rename_i children _ _
  have read : (lowered ctx (.node .valueArgument children)).children =
      children.map (lowered ctx) := by
    simp [lowered, Decorated.children]
  have kind : (lowered ctx (.node .valueArgument children)).isNode (is .valueArgument) = true := by
    rw [lowered, SyntaxTree.isNode_decorate]
    rfl
  rw [valueArguments, nodesOf, List.filter_cons_of_pos kind]
  simp only [List.filter_nil, List.filterMap_cons, List.filterMap_nil, read, value, star, equal,
    name]
  cases tokens with
  | positional => simp [Argument.expr]
  | spread isStar => simp [Argument.expr, is, isStar]
  | named isName isEqual => simp [Argument.expr, is, isName, isEqual]
  | namedSpread isName isEqual isStar => simp [Argument.expr, is, isName, isEqual, isStar]

theorem valueArguments_append (children₁ children₂ : List LoweredCst) :
    valueArguments (children₁ ++ children₂) =
      valueArguments children₁ ++ valueArguments children₂ := by
  simp [valueArguments, nodesOf]

/-- The arguments in parentheses lower to their values and names, in source order. -/
theorem arguments_lowered {arguments : List Argument} {list nodes : List Cst}
    {tokens : List Token} (holds : Holds list nodes tokens)
    (shapes : List.Forall₂ ArgumentNode arguments nodes) :
    valueArguments (list.map (lowered ctx)) =
      arguments.map fun argument => (argument.expr ctx, argument.name.map nameOf) := by
  have same : valueArguments (list.map (lowered ctx)) = valueArguments (nodes.map (lowered ctx)) := by
    rw [valueArguments, valueArguments, nodesOf_lowered ctx holds]
    exact congrArg (List.filterMap _)
      (Decorated.nodesOf_map_decorate (is .valueArgument) (lowerNode ctx) nodes).symm
  rw [same]
  clear same holds
  induction shapes with
  | nil => rfl
  | cons shape _ ih =>
      rw [List.map_cons, List.map_cons, ← List.singleton_append, valueArguments_append,
        argument_lowered ctx shape, ih]
      rfl

theorem children_lowered (kind : SyntaxKind) (children : List Cst) :
    (lowered ctx (.node kind children)).children = children.map (lowered ctx) := by
  simp [lowered, Decorated.children]

theorem isNode_lowered (p : SyntaxKind → Bool) (tree : Cst) :
    (lowered ctx tree).isNode p = tree.isNode p := SyntaxTree.isNode_decorate (lowerNode ctx) p tree

/-- What a call suffix with parentheses brings. -/
theorem callArguments_parenthesized {arguments : List Argument} {node : Cst}
    (shape : ArgumentsNode arguments node) :
    callArguments (lowered ctx node).children =
      (arguments.map (Argument.expr ctx),
        arguments.map fun argument => argument.name.map nameOf) := by
  obtain ⟨holds, listHolds, shapes⟩ := shape
  rw [children_lowered, callArguments, firstNode_lowered ctx holds]
  simp only [List.filter_cons_of_pos (p := SyntaxTree.isNode (is .valueArguments))
    (show SyntaxTree.isNode (is .valueArguments) (.node .valueArguments _) = true from rfl),
    List.head?_cons, Option.map_some]
  rw [children_lowered, arguments_lowered ctx listHolds shapes]
  simp [List.unzip_eq_map, Function.comp_def]

/-- What a trailing lambda brings. -/
theorem callArguments_lambda {lambda node : Cst} (shape : LambdaNode lambda node) :
    callArguments (lowered ctx node).children = ([expr ctx lambda], []) := by
  obtain ⟨holds, asides, kind⟩ := shape
  obtain ⟨body, rfl⟩ := eq_node_of_is kind
  have none : ∀ nodes : List Cst, (∀ node ∈ nodes, Aside node) →
      (nodes ++ [SyntaxTree.node .lambdaLiteral body]).filter (SyntaxTree.isNode (is .valueArguments)) =
        [] := by
    intro nodes asides
    rw [List.filter_eq_nil_iff]
    intro node member
    rcases List.mem_append.mp member with early | last
    · rw [(asides node early).not_isExpression.2]
      exact Bool.false_ne_true
    · rw [List.mem_singleton.mp last]
      exact Bool.false_ne_true
  rw [children_lowered, callArguments, firstNode_lowered ctx holds, none _ asides]
  simp only [List.head?_nil, Option.map_none]
  rw [expressions, nodesOf_lowered ctx holds, filter_isExpression_aside asides rfl]
  rfl

end Nodes

/-! ### The loop over the suffixes -/

section Loop

variable (ctx : Leaves)

/-- The value of the chain so far. -/
def PostfixState.value (s : PostfixState) : ExprData := s.pending.getD s.current

/-- The elements of one suffix, run through the loop. -/
def runElements (elements : List Cst) (s : PostfixState) : PostfixState :=
  (elements.map (lowered ctx)).foldl (postfixElement ctx) s

theorem runElements_append (elements₁ elements₂ : List Cst) (s : PostfixState) :
    runElements ctx (elements₁ ++ elements₂) s =
      runElements ctx elements₂ (runElements ctx elements₁ s) := by
  simp [runElements]

theorem runElements_token (token : Token) (s : PostfixState) :
    runElements ctx [.token token] s =
      match postfixStep s.current token.kind with
      | some step => { s with current := s.value, pending := some step }
      | none => s := by
  cases step : postfixStep s.current token.kind <;>
    simp [runElements, lowered, postfixElement, Decorated.leaf, PostfixState.value, step]

/-- Line breaks between suffixes change nothing. -/
theorem runElements_breaks {breaks : List Token} (only : ∀ token ∈ breaks, token.kind = .newline)
    (s : PostfixState) : runElements ctx (breaks.map .token) s = s := by
  induction breaks with
  | nil => rfl
  | cons token breaks ih =>
      rw [List.map_cons, ← List.singleton_append, runElements_append, runElements_token,
        only token List.mem_cons_self]
      exact ih fun other member => only other (List.mem_cons_of_mem token member)

/-- A suffix node makes the value so far the current one and its own step the pending one. -/
theorem runElements_node {kind : SyntaxKind} (children : List Cst) {s : PostfixState}
    (seen : s.seenBase = true)
    (suffix : kind = .navigationSuffix ∨ kind = .callExpression ∨ kind = .indexingExpression) :
    runElements ctx [.node kind children] s =
      { s with current := s.value, writtenTypeArgs := none,
               pending := some (suffixData ctx s.value (lowered ctx (.node kind children))
                 s.writtenTypeArgs) } := by
  have leafless : (lowered ctx (.node kind children)).leaf = none :=
    SyntaxTree.leaf_decorate (lowerNode ctx) _
  have noTypes : (lowered ctx (.node kind children)).isNode (is .typeArguments) = false := by
    rw [isNode_lowered]
    rcases suffix with rfl | rfl | rfl <;> rfl
  have noType : (lowered ctx (.node kind children)).isNode isTypeNode = false := by
    rw [isNode_lowered]
    rcases suffix with rfl | rfl | rfl <;> rfl
  simp [runElements, postfixElement, leafless, noTypes, noType, seen, PostfixState.value]

/-- Type arguments wait for the next suffix. -/
theorem runElements_typeArguments {node : Cst} (kind : node.isNode (is .typeArguments) = true)
    {s : PostfixState} (seen : s.seenBase = true) :
    runElements ctx [node] s = { s with writtenTypeArgs := some (lowered ctx node) } := by
  have leafless : (lowered ctx node).leaf = none :=
    (SyntaxTree.leaf_decorate (lowerNode ctx) node).trans
      (SyntaxTree.leaf_eq_none_of_isNode kind)
  have types : (lowered ctx node).isNode (is .typeArguments) = true := by
    rw [isNode_lowered]
    exact kind
  simp [runElements, postfixElement, leafless, types, seen]

end Loop

/-! ### Where the loop keeps the fold -/

def Suffix.isCall : Suffix → Bool
  | call _ _ _ => true
  | _ => false

def Suffix.isSafe : Suffix → Bool
  | member op _ => op.kind = .safeAccess
  | _ => false

/-- Whether a `typeArguments` node writes a type. -/
def writesTypes : Cst → Bool
  | .node _ children => children.any (SyntaxTree.isNode (is .typeProjection))
  | .token _ => false

/-- The suffixes that the loop applies as they are written, after the suffix before them: an
operator only where it is the first suffix, one index, and a call only where no call precedes it;
and where a call joins a safe access, a trailing lambda after parentheses needs that no type
arguments are written. -/
def Suffix.Allowed (previous : Option Suffix) : Suffix → Prop
  | operator _ => previous = none
  | member _ _ => True
  | call typeArgs arguments lambda =>
      (∀ before ∈ previous, before.isCall = false) ∧
        ((∃ before ∈ previous, before.isSafe = true) → arguments.isSome → lambda.isSome →
          ∀ node ∈ typeArgs, writesTypes node = false)
  | indexing _ more => more = []

/-- Every suffix of the chain is allowed after the one before it. -/
def AllAllowed : Option Suffix → List Suffix → Prop
  | _, [] => True
  | previous, suffix :: suffixes =>
      suffix.Allowed previous ∧ AllAllowed (some suffix) suffixes

def Suffix.head : Suffix → Head
  | operator _ => .other
  | member op _ => if op.kind = .safeAccess then .safe else .member
  | call _ _ _ => .called
  | indexing _ _ => .other

theorem Suffix.head_eq_called (suffix : Suffix) : suffix.head = .called ↔ suffix.isCall = true := by
  cases suffix with
  | member op name => by_cases safe : op.kind = .safeAccess <;> simp [head, isCall, safe]
  | _ => simp [head, isCall]

theorem Suffix.head_eq_safe (suffix : Suffix) : suffix.head = .safe ↔ suffix.isSafe = true := by
  cases suffix with
  | member op name => by_cases safe : op.kind = .safeAccess <;> simp [head, isSafe, safe]
  | _ => simp [head, isSafe]

section Tracking

variable (ctx : Leaves)

theorem Suffix.head_apply (suffix : Suffix) (v : PostfixValue) :
    (suffix.apply ctx v).head = suffix.head := by
  cases suffix with
  | member op name =>
      by_cases safe : op.kind = .safeAccess <;> simp [apply, head, PostfixValue.head, safe]
  | _ => rfl

/-- The head of a value is that of its last suffix. -/
theorem Suffix.head_apply_last (suffix : Suffix) (v : PostfixValue) :
    ∀ before ∈ some suffix, (suffix.apply ctx v).head = before.head := by
  intro before member
  obtain rfl := Option.mem_some_iff.mp member
  exact suffix.head_apply ctx v

theorem Suffix.weight_lt_apply (suffix : Suffix) (v : PostfixValue) :
    v.weight < (suffix.apply ctx v).weight := by
  cases suffix with
  | operator token => exact Nat.lt_succ_self _
  | member op name =>
      by_cases safe : op.kind = .safeAccess <;> simp [apply, PostfixValue.weight, safe]
  | call typeArgs arguments lambda =>
      simp only [apply, PostfixValue.weight, PostfixValue.weight_callee]
      omega
  | indexing first more =>
      simp only [apply, PostfixValue.weight]
      omega

/-- The loop after some suffixes, next to the value they mean. While `kept` holds the two agree;
the loop's value never has more operations, and its current value has fewer. -/
structure Tracks (previous : Option Suffix) (kept : Prop) (s : PostfixState) (v : PostfixValue) :
    Prop where
  seen : s.seenBase = true
  written : s.writtenTypeArgs = none
  proper : Proper s.value
  head : (denote s.value).head = v.head
  last : ∀ before ∈ previous, v.head = before.head
  first : previous = none → s.pending = none ∧ v.head ≠ .called ∧ v.head ≠ .safe
  pending : previous ≠ none → s.pending.isSome = true
  stale : previous ≠ none → (denote s.current).weight < v.weight
  exact : kept → denote s.value = v
  le : (denote s.value).weight ≤ v.weight
  lt : ¬kept → (denote s.value).weight < v.weight

variable {ctx} {previous : Option Suffix} {kept : Prop} {s : PostfixState} {v : PostfixValue}

/-- The current value has no more operations than the value of the suffixes. -/
theorem Tracks.current_le (tracks : Tracks previous kept s v) :
    (denote s.current).weight ≤ v.weight := by
  by_cases first : previous = none
  · have same : s.value = s.current := by simp [PostfixState.value, (tracks.first first).1]
    rw [← same]
    exact tracks.le
  · exact Nat.le_of_lt (tracks.stale first)

/-- An operator is applied to the current value, which is the value of the chain only at its
start. -/
theorem Tracks.operator (tracks : Tracks previous kept s v) {token : Token}
    (op : IsPostfixOperator token.kind) :
    Tracks (some (.operator token)) (kept ∧ Suffix.Allowed previous (.operator token))
      (runElements ctx [.token token] s) ((Suffix.operator token).apply ctx v) := by
  obtain ⟨step, found, means⟩ : ∃ step, postfixStep s.current token.kind = some step ∧
      denote step = .operated token.kind (denote s.current) ∧ Proper step := by
    rcases op with kind | kind | kind <;> rw [kind] <;>
      exact ⟨_, rfl, by simp [denote], by simp [Proper]⟩
  obtain ⟨denotes, proper⟩ := means
  have moved : runElements ctx [.token token] s =
      { s with current := s.value, pending := some step } := by
    rw [runElements_token, found]
  have value : ({ s with current := s.value, pending := some step } : PostfixState).value = step :=
    rfl
  rw [moved]
  refine ⟨tracks.seen, tracks.written, proper, ?_, ?_, nofun, fun _ => rfl, ?_, ?_, ?_, ?_⟩
  · rw [value, denotes]
    rfl
  · exact Suffix.head_apply_last ctx _ v
  · intro _
    exact Nat.lt_succ_of_le tracks.le
  · intro ⟨keeps, first⟩
    have same : s.value = s.current := by simp [PostfixState.value, (tracks.first first).1]
    rw [value, denotes, ← same, tracks.exact keeps]
    rfl
  · rw [value, denotes]
    exact Nat.succ_le_succ tracks.current_le
  · intro lost
    rw [value, denotes]
    apply Nat.succ_lt_succ
    by_cases first : previous = none
    · have same : s.value = s.current := by simp [PostfixState.value, (tracks.first first).1]
      rw [← same]
      exact tracks.lt fun keeps => lost ⟨keeps, first⟩
    · exact tracks.stale first

/-- A suffix node that yields `step` from the value of the chain. -/
theorem Tracks.node (tracks : Tracks previous kept s v) {suffix : Suffix} {step : ExprData}
    {allowed : Prop} (proper : Proper step) (head : (denote step).head = suffix.head)
    (exact_ : kept → allowed → denote step = suffix.apply ctx v)
    (le : (denote step).weight ≤ (suffix.apply ctx v).weight)
    (lt : ¬(kept ∧ allowed) → (denote step).weight < (suffix.apply ctx v).weight) :
    Tracks (some suffix) (kept ∧ allowed)
      { s with current := s.value, writtenTypeArgs := none, pending := some step }
      (suffix.apply ctx v) := by
  refine ⟨tracks.seen, rfl, proper, ?_, Suffix.head_apply_last ctx _ v, nofun, fun _ => rfl, ?_,
    ?_, le, lt⟩
  · rw [Suffix.head_apply]
    exact head
  · intro _
    exact Nat.lt_of_le_of_lt tracks.le (Suffix.weight_lt_apply ctx suffix v)
  · intro ⟨keeps, allows⟩
    exact exact_ keeps allows

/-- A member access is applied to the value of the chain. -/
theorem Tracks.member (tracks : Tracks previous kept s v) {op name : Token} {children : List Cst}
    (kind : op.kind = .dot ∨ op.kind = .safeAccess) (isName : name.kind = .identifier)
    (holds : Holds children [] [op, name]) :
    Tracks (some (.member op name)) (kept ∧ Suffix.Allowed previous (.member op name))
      (runElements ctx [.node .navigationSuffix children] s)
      ((Suffix.member op name).apply ctx v) := by
  have named : navigationName (children.map (lowered ctx)) = nameOf name := by
    rw [navigationName, identifierName, findToken_lowered ctx holds rfl]
    rcases kind with op_ | op_ <;> simp [is, op_, isName]
  have reference : hasToken (children.map (lowered ctx)) (is .colonColon) = false := by
    rw [hasToken_lowered ctx holds rfl]
    rcases kind with op_ | op_ <;> simp [is, op_, isName]
  have safe : hasToken (children.map (lowered ctx)) (is .safeAccess) =
      decide (op.kind = .safeAccess) := by
    rw [hasToken_lowered ctx holds rfl]
    simp [is, isName]
  rw [runElements_node ctx children tracks.seen (.inl rfl)]
  have step : suffixData ctx s.value (lowered ctx (.node .navigationSuffix children))
      s.writtenTypeArgs =
        if op.kind = .safeAccess then .safeAccess s.value (.fieldAccess none (nameOf name))
        else .fieldAccess (some s.value) (nameOf name) := by
    have navigates : (lowered ctx (.node .navigationSuffix children)).isNode
        (is .navigationSuffix) = true := isNode_lowered ctx _ _
    rw [suffixData, if_pos navigates, children_lowered, navigation, named, reference, safe]
    rcases kind with op_ | op_ <;> simp [op_]
  rw [step]
  rcases kind with op_ | op_
  · apply tracks.node
    · simp [op_, Proper]
    · simp [op_, denote, PostfixValue.head, Suffix.head]
    · intro keeps _
      simp [op_, denote, Suffix.apply, tracks.exact keeps]
    · simpa [op_, denote, Suffix.apply, PostfixValue.weight] using tracks.le
    · intro lost
      have lost : ¬kept := fun keeps => lost ⟨keeps, trivial⟩
      simpa [op_, denote, Suffix.apply, PostfixValue.weight] using tracks.lt lost
  · apply tracks.node
    · simp [op_, Proper]
    · simp [op_, denote, PostfixValue.head, Suffix.head]
    · intro keeps _
      simp [op_, denote, Suffix.apply, tracks.exact keeps]
    · simpa [op_, denote, Suffix.apply, PostfixValue.weight] using tracks.le
    · intro lost
      have lost : ¬kept := fun keeps => lost ⟨keeps, trivial⟩
      simpa [op_, denote, Suffix.apply, PostfixValue.weight] using tracks.lt lost

/-- Of an index list only the first index is applied. -/
theorem Tracks.indexing (tracks : Tracks previous kept s v) {first : Cst} {more children : List Cst}
    {tokens : List Token} (expression : first.isNode isExpression = true)
    (holds : Holds children (first :: more) tokens) :
    Tracks (some (.indexing first more)) (kept ∧ Suffix.Allowed previous (.indexing first more))
      (runElements ctx [.node .indexingExpression children] s)
      ((Suffix.indexing first more).apply ctx v) := by
  have index : childExpression (children.map (lowered ctx)) = some (expr ctx first) := by
    rw [childExpression, firstExpression_lowered ctx holds, List.filter_cons_of_pos expression]
    rfl
  rw [runElements_node ctx children tracks.seen (.inr (.inr rfl))]
  have step : suffixData ctx s.value (lowered ctx (.node .indexingExpression children))
      s.writtenTypeArgs = .arrayAccess s.value (expr ctx first) := by
    have kinds : ∀ kind, (lowered ctx (.node .indexingExpression children)).isNode (is kind) =
        is kind .indexingExpression := fun kind => isNode_lowered ctx _ _
    rw [suffixData, kinds, kinds, kinds, children_lowered, index]
    rfl
  rw [step]
  apply tracks.node
  · simp [Proper]
  · rw [denote]
    rfl
  · intro keeps single
    have single : more = [] := single
    simp [denote, Suffix.apply, tracks.exact keeps, single]
  · have le := tracks.le
    simp only [denote, Suffix.apply, PostfixValue.weight, List.length_cons, List.length_map]
    simp
    omega
  · intro lost
    have le := tracks.le
    simp only [denote, Suffix.apply, PostfixValue.weight, List.length_cons, List.length_map,
      List.length_nil]
    by_cases single : more = []
    · have lost : ¬kept := fun keeps => lost ⟨keeps, single⟩
      have lt := tracks.lt lost
      omega
    · have longer := List.length_pos_of_ne_nil single
      omega

/-! ### Call suffixes in the loop -/

variable (ctx)

/-- The type arguments of a call lower to the written ones. -/
theorem callTypes_lowered {typeArgs : Option Cst}
    (kind : ∀ node ∈ typeArgs, node.isNode (is .typeArguments) = true) :
    callTypes ctx (typeArgs.map (lowered ctx)) = (typeArgs.map (writtenTypes ctx)).getD [] := by
  cases typeArgs with
  | none => rfl
  | some node =>
      obtain ⟨children, rfl⟩ := eq_node_of_is (kind node rfl)
      simp only [callTypes, Option.map_some, Option.getD_some, children_lowered, writtenTypes,
        callTypeArguments]
      rw [show nodesOf (is .typeProjection) (children.map (lowered ctx)) = _ from
        Decorated.nodesOf_map_decorate _ (lowerNode ctx) children, List.map_map]
      apply List.map_congr_left
      intro projection _
      exact congrArg ctx.projection (SyntaxTree.plain_decorate (lowerNode ctx) projection)

/-- A `typeArguments` node that writes no type brings none. -/
theorem writtenTypes_eq_nil {node : Cst} : writtenTypes ctx node = [] ↔ writesTypes node = false := by
  cases node with
  | token t => simp [writtenTypes, writesTypes]
  | node kind children => simp [writtenTypes, writesTypes, List.filter_eq_nil_iff]

/-- A call has no more operations than the call of a value with the same head that has no fewer;
it has less when the callee is itself a call. -/
theorem weight_call {e : ExprData} (proper : Proper e) (head : (denote e).head = v.head)
    (le : (denote e).weight ≤ v.weight) (children : List LoweredCst)
    (written : Option LoweredCst) :
    (denote (call children ctx e written)).head = .called ∧
      (denote (call children ctx e written)).weight ≤
        v.callee.weight + 1 + (callTypes ctx written).length +
          (callArguments children).1.length ∧
      (v.head = .called ∨ (denote e).weight < v.weight →
        (denote (call children ctx e written)).weight <
          v.callee.weight + 1 + (callTypes ctx written).length +
            (callArguments children).1.length) := by
  by_cases joined : v.head = .called
  · obtain ⟨callee, typeArgs, args, argNames, means, joins⟩ :=
      denote_call_of_head_eq ctx children written proper (head.trans joined)
    have invokes : v.callee.weight = v.weight + 1 := by
      rw [PostfixValue.weight_callee, joined]
      rfl
    rw [means] at le
    simp only [PostfixValue.weight] at le
    have types : (if callee.head = .safe then callTypes ctx written else typeArgs).length ≤
        (callTypes ctx written).length + typeArgs.length := by
      split <;> omega
    rw [joins]
    simp only [PostfixValue.weight, List.length_append]
    refine ⟨rfl, by omega, fun _ => by omega⟩
  · have calls := denote_call_of_head_ne ctx children written proper
      (fun called => joined (head.symm.trans called))
    have more := PostfixValue.weight_callee v
    have more' := PostfixValue.weight_callee (denote e)
    rw [head] at more'
    rw [calls]
    simp only [PostfixValue.weight]
    refine ⟨rfl, by omega, ?_⟩
    rintro (called | less)
    · exact absurd called joined
    · omega

/-- A lambda after parentheses joins their call. -/
theorem denote_call_lambda {e : ExprData} (proper : Proper e) (joined : (denote e).head = .called)
    {lambda node : Cst} (shape : LambdaNode lambda node) :
    ∃ callee typeArgs args argNames, denote e = .called callee typeArgs args argNames ∧
      denote (call (lowered ctx node).children ctx e none) =
        .called callee (if callee.head = .safe then [] else typeArgs)
          (args ++ [expr ctx lambda]) argNames := by
  obtain ⟨callee, typeArgs, args, argNames, means, joins⟩ :=
    denote_call_of_head_eq ctx (lowered ctx node).children none proper joined
  refine ⟨callee, typeArgs, args, argNames, means, ?_⟩
  rw [joins, callArguments_lambda ctx shape]
  simp [callTypes]

/-- A call node applies its call to the value of the chain. -/
theorem runElements_call {node : Cst} {children : List Cst} (kind : node = .node .callExpression children)
    {s : PostfixState} (seen : s.seenBase = true) :
    runElements ctx [node] s =
      { s with current := s.value, writtenTypeArgs := none,
               pending := some (call (lowered ctx node).children ctx s.value
                 s.writtenTypeArgs) } := by
  subst kind
  have kinds : ∀ kind, (lowered ctx (.node .callExpression children)).isNode (is kind) =
      is kind .callExpression := fun kind => isNode_lowered ctx _ _
  rw [runElements_node ctx children seen (.inr (.inl rfl)), suffixData, kinds, kinds]
  rfl

/-- The value is a call exactly when the last suffix is one. -/
theorem Tracks.head_eq_called (tracks : Tracks previous kept s v) :
    v.head = .called ↔ ∃ before ∈ previous, before.isCall = true := by
  cases previous with
  | none => simp [(tracks.first rfl).2.1]
  | some suffix => simp [tracks.last suffix rfl, Suffix.head_eq_called]

/-- The value is a safe access exactly when the last suffix is one. -/
theorem Tracks.head_eq_safe (tracks : Tracks previous kept s v) :
    v.head = .safe ↔ ∃ before ∈ previous, before.isSafe = true := by
  cases previous with
  | none => simp [(tracks.first rfl).2.2]
  | some suffix => simp [tracks.last suffix rfl, Suffix.head_eq_safe]

/-- Type arguments are kept for the call that follows them. -/
theorem Tracks.runElements_typeArgs (tracks : Tracks previous kept s v) {typeArgs : Option Cst}
    (kind : ∀ node ∈ typeArgs, node.isNode (is .typeArguments) = true) :
    runElements ctx typeArgs.toList s =
      { s with writtenTypeArgs := typeArgs.map (lowered ctx) } := by
  cases typeArgs with
  | none =>
      have written := tracks.written
      cases s
      simpa [runElements] using written
  | some node => exact runElements_typeArguments ctx (kind node rfl) tracks.seen

/-- A call of one node: parentheses or a lambda, after its type arguments. -/
theorem Tracks.callNode (tracks : Tracks previous kept s v) {typeArgs : Option Cst}
    {arguments : Option (List Argument)} {lambda : Option Cst} {node : Cst} {children : List Cst}
    (kind : ∀ node ∈ typeArgs, node.isNode (is .typeArguments) = true)
    (isCall : node = .node .callExpression children)
    (single : ¬(arguments.isSome = true ∧ lambda.isSome = true))
    (brings : callArguments (lowered ctx node).children =
      ((arguments.getD []).map (Argument.expr ctx) ++ (lambda.map (expr ctx)).toList,
        (arguments.getD []).map fun argument => argument.name.map nameOf)) :
    Tracks (some (.call typeArgs arguments lambda))
      (kept ∧ Suffix.Allowed previous (.call typeArgs arguments lambda))
      (runElements ctx (typeArgs.toList ++ [node]) s)
      ((Suffix.call typeArgs arguments lambda).apply ctx v) := by
  have types := callTypes_lowered ctx kind
  have bounds := weight_call ctx tracks.proper tracks.head tracks.le (lowered ctx node).children
    (typeArgs.map (lowered ctx))
  rw [types, brings] at bounds
  obtain ⟨head, le, lt⟩ := bounds
  rw [runElements_append, tracks.runElements_typeArgs ctx kind]
  have moved := runElements_call ctx isCall
    (s := { s with writtenTypeArgs := typeArgs.map (lowered ctx) }) tracks.seen
  rw [moved]
  apply tracks.node
  · exact proper_call ctx _ _
  · exact head
  · intro keeps allowed
    have notCalled : (denote s.value).head ≠ .called := by
      rw [tracks.head]
      intro called
      obtain ⟨before, member, isCall⟩ := tracks.head_eq_called.mp called
      rw [allowed.1 before member] at isCall
      exact Bool.noConfusion isCall
    have calls := denote_call_of_head_ne ctx (lowered ctx node).children
      (typeArgs.map (lowered ctx)) tracks.proper notCalled
    rw [types, brings, tracks.exact keeps] at calls
    exact calls
  · exact le
  · intro lost
    apply lt
    by_cases called : v.head = .called
    · exact .inl called
    · have allowed : Suffix.Allowed previous (.call typeArgs arguments lambda) := by
        constructor
        · intro before member
          by_contra isCall
          exact called (tracks.head_eq_called.mpr ⟨before, member, by simpa using isCall⟩)
        · intro _ some₁ some₂
          exact absurd ⟨some₁, some₂⟩ single
      exact .inr (tracks.lt fun keeps => lost ⟨keeps, allowed⟩)

/-- A call with parentheses and a lambda: the lambda joins the call of the parentheses. -/
theorem Tracks.callBoth (tracks : Tracks previous kept s v) {typeArgs : Option Cst}
    {arguments : List Argument} {lambda node lambdaNode : Cst}
    (kind : ∀ node ∈ typeArgs, node.isNode (is .typeArguments) = true)
    (shape : ArgumentsNode arguments node) (lambdaShape : LambdaNode lambda lambdaNode) :
    Tracks (some (.call typeArgs (some arguments) (some lambda)))
      (kept ∧ Suffix.Allowed previous (.call typeArgs (some arguments) (some lambda)))
      (runElements ctx (typeArgs.toList ++ [node, lambdaNode]) s)
      ((Suffix.call typeArgs (some arguments) (some lambda)).apply ctx v) := by
  have types := callTypes_lowered ctx kind
  have bounds := weight_call ctx tracks.proper tracks.head tracks.le (lowered ctx node).children
    (typeArgs.map (lowered ctx))
  rw [types, callArguments_parenthesized ctx shape] at bounds
  obtain ⟨head, le, lt⟩ := bounds
  obtain ⟨children, isCall⟩ := shape.isCall
  obtain ⟨lambdaChildren, lambdaIsCall⟩ := lambdaShape.isCall
  -- The parentheses make the call, the lambda joins it.
  have inner : Proper (call (lowered ctx node).children ctx s.value
      (typeArgs.map (lowered ctx))) := proper_call ctx _ _
  obtain ⟨callee, types', args, argNames, means, joins⟩ :=
    denote_call_lambda ctx inner head lambdaShape
  have fresh : v.head ≠ .called → denote s.value = v → callee = v.callee ∧
      types' = (typeArgs.map (writtenTypes ctx)).getD [] ∧
      args = arguments.map (Argument.expr ctx) ∧
      argNames = arguments.map fun argument => argument.name.map nameOf := by
    intro notCalled same
    have calls := denote_call_of_head_ne ctx (lowered ctx node).children
      (typeArgs.map (lowered ctx)) tracks.proper (by rw [tracks.head]; exact notCalled)
    rw [types, callArguments_parenthesized ctx shape, same, means] at calls
    injection calls with sameCallee sameTypes sameArgs sameNames
    exact ⟨sameCallee, sameTypes, sameArgs, sameNames⟩
  rw [means] at le lt
  simp only [PostfixValue.weight] at le lt
  have split : typeArgs.toList ++ [node, lambdaNode] =
      typeArgs.toList ++ ([node] ++ [lambdaNode]) := rfl
  have first := runElements_call ctx isCall
    (s := { s with writtenTypeArgs := typeArgs.map (lowered ctx) }) tracks.seen
  have second := runElements_call ctx lambdaIsCall
    (s := { s with current := s.value, writtenTypeArgs := none,
                   pending := some (call (lowered ctx node).children ctx s.value
                     (typeArgs.map (lowered ctx))) }) tracks.seen
  have moved : runElements ctx (typeArgs.toList ++ [node, lambdaNode]) s =
      { s with
        current := call (lowered ctx node).children ctx s.value (typeArgs.map (lowered ctx)),
        writtenTypeArgs := none,
        pending := some (call (lowered ctx lambdaNode).children ctx
          (call (lowered ctx node).children ctx s.value (typeArgs.map (lowered ctx))) none) } := by
    rw [split, runElements_append, runElements_append, tracks.runElements_typeArgs ctx kind]
    exact (congrArg (runElements ctx [lambdaNode]) first).trans second
  rw [moved]
  have notCalled : Suffix.Allowed previous (.call typeArgs (some arguments) (some lambda)) →
      v.head ≠ .called := by
    intro allowed called
    obtain ⟨before, member, isCall⟩ := tracks.head_eq_called.mp called
    rw [allowed.1 before member] at isCall
    exact Bool.noConfusion isCall
  have shorter : (if callee.head = .safe then [] else types').length ≤ types'.length := by
    split <;> simp
  refine ⟨tracks.seen, rfl, proper_call ctx _ _, ?_, Suffix.head_apply_last ctx _ v, nofun,
    fun _ => rfl, ?_, ?_, ?_, ?_⟩
  · exact (congrArg PostfixValue.head joins).trans rfl
  · intro _
    refine lt_of_eq_of_lt (congrArg PostfixValue.weight means) ?_
    simp only [Suffix.apply, PostfixValue.weight, Option.getD_some, List.length_append,
      Option.map_some, Option.toList_some, List.length_singleton]
    omega
  · intro ⟨keeps, allowed⟩
    refine joins.trans ?_
    obtain ⟨rfl, rfl, rfl, rfl⟩ := fresh (notCalled allowed) (tracks.exact keeps)
    have noTypes : v.head = .safe → (typeArgs.map (writtenTypes ctx)).getD [] = [] := by
      intro safe
      have unwritten := allowed.2 (tracks.head_eq_safe.mp safe) rfl rfl
      cases typeArgs with
      | none => rfl
      | some node => exact (writtenTypes_eq_nil ctx).mpr (unwritten node rfl)
    simp only [Suffix.apply, Option.getD_some, Option.map_some, Option.toList_some,
      PostfixValue.head_callee_eq_safe]
    by_cases safe : v.head = .safe
    · simp only [if_pos safe, noTypes safe]
    · simp only [if_neg safe]
  · refine le_of_eq_of_le (congrArg PostfixValue.weight joins) ?_
    simp only [Suffix.apply, PostfixValue.weight, Option.getD_some, List.length_append,
      Option.map_some, Option.toList_some, List.length_singleton]
    omega
  · intro lost
    refine lt_of_eq_of_lt (congrArg PostfixValue.weight joins) ?_
    simp only [Suffix.apply, PostfixValue.weight, Option.getD_some, List.length_append,
      Option.map_some, Option.toList_some, List.length_singleton]
    by_cases called : v.head = .called
    · have strict := lt (.inl called)
      omega
    · by_cases keeps : kept
      · obtain ⟨rfl, rfl, rfl, rfl⟩ := fresh called (tracks.exact keeps)
        -- The suffix is not allowed: the type arguments of a safe call are lost.
        obtain ⟨safe, written⟩ : v.head = .safe ∧
            (typeArgs.map (writtenTypes ctx)).getD [] ≠ [] := by
          by_contra fine
          apply lost
          refine ⟨keeps, ?_, ?_⟩
          · intro before member
            by_contra isCall
            exact called (tracks.head_eq_called.mpr ⟨before, member, by simpa using isCall⟩)
          · intro safe _ _ node written
            by_contra writes
            apply fine
            refine ⟨tracks.head_eq_safe.mpr safe, ?_⟩
            rw [Option.mem_def.mp written]
            intro empty
            exact writes ((writtenTypes_eq_nil ctx).mp empty)
        have longer := List.length_pos_of_ne_nil written
        rw [if_pos ((PostfixValue.head_callee_eq_safe v).mpr safe)]
        simp only [List.length_nil]
        omega
      · have strict := lt (.inr (tracks.lt keeps))
        omega

/-! ### The whole chain -/

/-- One suffix in the loop. -/
theorem Tracks.suffix (tracks : Tracks previous kept s v) {suffix : Suffix} {elements : List Cst}
    (shape : SuffixNodes suffix elements) :
    Tracks (some suffix) (kept ∧ suffix.Allowed previous) (runElements ctx elements s)
      (suffix.apply ctx v) := by
  cases shape with
  | operator op => exact tracks.operator op
  | member only kind isName holds =>
      rw [runElements_append, runElements_breaks ctx only]
      exact tracks.member kind isName holds
  | indexing expression holds => exact tracks.indexing expression holds
  | call kind nodes =>
      cases nodes with
      | parenthesized shape =>
          obtain ⟨children, isCall⟩ := shape.isCall
          apply tracks.callNode ctx kind isCall (by simp)
          rw [callArguments_parenthesized ctx shape]
          simp
      | lambda shape =>
          obtain ⟨children, isCall⟩ := shape.isCall
          apply tracks.callNode ctx kind isCall (by simp)
          rw [callArguments_lambda ctx shape]
          simp
      | both shape lambdaShape => exact tracks.callBoth ctx kind shape lambdaShape

/-- Every suffix in the loop, one after another. -/
theorem Tracks.run (tracks : Tracks previous kept s v) {suffixes : List Suffix}
    {elements : List (List Cst)} (shapes : List.Forall₂ SuffixNodes suffixes elements) :
    ∃ last, (last = none → previous = none ∧ suffixes = []) ∧
      Tracks last (kept ∧ AllAllowed previous suffixes) (runElements ctx elements.flatten s)
        (suffixes.foldl (Suffix.apply ctx) v) := by
  induction shapes generalizing previous kept s v with
  | nil =>
      refine ⟨previous, fun first => ⟨first, rfl⟩, ?_⟩
      have trivially : (kept ∧ AllAllowed previous []) = kept := by simp [AllAllowed]
      rw [trivially]
      exact tracks
  | @cons suffix trees suffixes elements shape _ ih =>
      obtain ⟨last, later, ran⟩ := ih (tracks.suffix ctx shape)
      refine ⟨last, fun first => absurd (later first).1 nofun, ?_⟩
      have same : (kept ∧ AllAllowed previous (suffix :: suffixes)) =
          ((kept ∧ suffix.Allowed previous) ∧ AllAllowed (some suffix) suffixes) := by
        simp [AllAllowed, and_assoc]
      rw [same, List.flatten_cons, runElements_append, List.foldl_cons]
      exact ran

end Tracking

section Chain

variable (ctx : Leaves)

/-- A primary expression: a token, or a node of a kind of its own. -/
inductive IsPrimary : Cst → Prop where
  | token (token : Token) : IsPrimary (.node .primaryExpression [.token token])
  | node {kind : SyntaxKind} {children : List Cst} :
      kind ∈ [.parenthesizedExpression, .collectionLiteral, .lambdaLiteral, .callableReference,
        .thisExpression, .superExpression, .stringLiteral, .ifExpression, .whenExpression,
        .tryExpression, .jumpExpression, .objectLiteral, .anonymousFunction] →
      IsPrimary (.node kind children)

theorem IsPrimary.isExpression {base : Cst} (primary : IsPrimary base) :
    base.isNode isExpression = true := by
  cases primary with
  | token t => rfl
  | node kind =>
      simp only [List.mem_cons, List.not_mem_nil, or_false] at kind
      rcases kind with rfl | rfl | rfl | rfl | rfl | rfl | rfl | rfl | rfl | rfl | rfl | rfl | rfl
      all_goals rfl

/-- An expression that is no access, no call, no index and no postfix operation. -/
def ExprData.isAtom : ExprData → Bool
  | .fieldAccess _ _ | .arrayAccess _ _ | .methodCall _ _ _ _ _ _ | .postfix_ _ _
  | .safeAccess _ _ | .nullAssert _ => false
  | _ => true

theorem denote_of_isAtom {e : ExprData} (atom : e.isAtom = true) :
    denote e = .base e ∧ Proper e ∧ (denote e).head ≠ .called ∧ (denote e).head ≠ .safe := by
  cases e with
  | var name => exact ⟨rfl, trivial, nofun, nofun⟩
  | fieldAccess | arrayAccess | methodCall | postfix_ | safeAccess | nullAssert =>
      exact Bool.noConfusion atom
  | _ => exact ⟨rfl, trivial, nofun, nofun⟩

/-- A literal token lowers to an atom. -/
theorem isAtom_literal (token : Token) : (literal ctx token).isAtom = true := by
  rw [literal]
  split
  · cases ctx.integerLiteral token.lexeme <;> rfl
  · rfl
  · rfl
  · rfl
  · cases ctx.charLiteral token.lexeme <;> rfl
  · rfl
  · rfl
  · rfl
  · rfl

/-- A primary expression lowers to an atom. -/
theorem IsPrimary.isAtom {base : Cst} (primary : IsPrimary base) :
    (expr ctx base).isAtom = true := by
  cases primary with
  | token t =>
      have single : expr ctx (.node .primaryExpression [.token t]) =
          if t.kind = .identifier then .var (nameOf t) else literal ctx t := rfl
      rw [single]
      split
      · rfl
      · exact isAtom_literal ctx t
  | @node kind children listed =>
      rw [expr_node]
      simp only [List.mem_cons, List.not_mem_nil, or_false] at listed
      rcases listed with rfl | rfl | rfl | rfl | rfl | rfl | rfl | rfl | rfl | rfl | rfl | rfl | rfl
      · rw [exprData]
        cases childExpression (children.map (lowered ctx)) <;> rfl
      · rfl
      · rfl
      · rw [exprData, callableReference]
        split
        · split <;> rfl
        · rfl
      · rfl
      · rfl
      · rw [exprData, stringTemplate]
        split <;> rfl
      · rw [exprData, conditional]
        split <;> rfl
      · rw [exprData, when_]
        rfl
      · rw [exprData, tryExpr]
        rfl
      · rw [exprData, jump]
        split <;> rfl
      · rw [exprData]
        cases ctx.localDeclaration (.node .objectLiteral children) <;> rfl
      · rw [exprData, anonymousFunction]
        split
        · rfl
        · split <;> rfl

/-- The loop after the base of the chain. -/
def PostfixState.atBase (value : ExprData) : PostfixState :=
  { current := value, pending := none, seenBase := true, writtenTypeArgs := none }

/-- At its base the loop holds the base. -/
theorem Tracks.atBase {e : ExprData} (atom : e.isAtom = true) :
    Tracks none True (PostfixState.atBase e) (.base e) := by
  obtain ⟨denotes, proper, notCalled, notSafe⟩ := denote_of_isAtom atom
  rw [denotes] at notCalled notSafe
  have value : (PostfixState.atBase e).value = e := rfl
  exact
    { seen := rfl
      written := rfl
      proper := by rwa [value]
      head := by rw [value, denotes]
      last := by simp
      first := fun _ => ⟨rfl, notCalled, notSafe⟩
      pending := fun later => absurd rfl later
      stale := fun later => absurd rfl later
      exact := fun _ => by rw [value, denotes]
      le := by rw [value, denotes]
      lt := fun lost => absurd trivial lost }

/-- The first element of a chain is its base; the loop runs over the others. -/
theorem expr_chain_eq_run {base : Cst} (expression : base.isNode isExpression = true)
    (elements : List Cst) {last : ExprData}
    (pending : (runElements ctx elements (.atBase (expr ctx base))).pending = some last) :
    expr ctx (.node .postfixUnaryExpression (base :: elements)) = last := by
  have first : firstExpression ((base :: elements).map (lowered ctx)) = some (expr ctx base) := by
    have found := Decorated.firstNode_map_decorate isExpression (lowerNode ctx) (base :: elements)
    rw [List.find?_cons_of_pos expression] at found
    exact congrArg (Option.map fun node : LoweredCst => node.value.expr) found
  have leafless : (lowered ctx base).leaf = none :=
    (SyntaxTree.leaf_decorate (lowerNode ctx) base).trans
      (SyntaxTree.leaf_eq_none_of_isNode expression)
  have atBase : postfixElement ctx
      { current := expr ctx base, pending := none, seenBase := false, writtenTypeArgs := none }
      (lowered ctx base) = .atBase (expr ctx base) := by
    simp [postfixElement, leafless, PostfixState.atBase]
  rw [expr_node, exprData, postfix_, first]
  simp only [List.map_cons, List.foldl_cons, atBase]
  rw [runElements] at pending
  rw [pending]
  rfl

/-- **The fold of a chain**: the node of a postfix chain lowers to its suffixes applied from left to
right exactly when every suffix is allowed after the one before it. -/
theorem denote_chain {base : Cst} {suffixes : List Suffix} {elements : List (List Cst)}
    (primary : IsPrimary base) (shapes : List.Forall₂ SuffixNodes suffixes elements)
    (some_ : suffixes ≠ []) :
    denote (expr ctx (.node .postfixUnaryExpression (base :: elements.flatten))) =
        leftFoldSuffixes ctx base suffixes ↔ AllAllowed none suffixes := by
  obtain ⟨last, first, tracks⟩ := (Tracks.atBase (primary.isAtom ctx)).run ctx shapes
  have later : last ≠ none := fun none => some_ (first none).2
  obtain ⟨step, pending⟩ := Option.isSome_iff_exists.mp (tracks.pending later)
  have value : PostfixState.value (runElements ctx elements.flatten (.atBase (expr ctx base))) =
      step := by
    rw [PostfixState.value, pending]
    rfl
  rw [expr_chain_eq_run ctx primary.isExpression _ pending, leftFoldSuffixes]
  constructor
  · intro same
    by_contra lost
    have less := tracks.lt fun keeps => lost keeps.2
    rw [value, same] at less
    exact absurd less (Nat.lt_irrefl _)
  · intro allowed
    rw [← value]
    exact tracks.exact ⟨trivial, allowed⟩

end Chain

end CaffeineLs.HirDef.Kotlin
