/-
Module: CaffeineLs.HirTy.Rewrite
Purpose: The rewriting of types with a stack and a table of the types rewritten, the policies that use it
  for type and inference variables, and the queries for the latter.
Trusted boundary: an interned handle is the type it stands for; the loop is given the rounds it needs.
Main exports: Ty.children, Ty.rebuild, Ty.rewriteWith
-/
import CaffeineLs.HirTy.Casting
import CaffeineLs.Lib.MemoRewrite

namespace CaffeineLs.HirTy

def maxRewriteDepth : Nat := 1000000

abbrev RewriteVerdict := MemoRewrite.Verdict Ty

/-! ### The loop -/

/-- The types that are rewritten before a type is built again. -/
def Ty.children : Ty → List Ty
  | .reference _ args _ => args
  | .array inner => [inner]
  | .nullable inner => [inner]
  | .definitelyNonNull inner => [inner]
  | .wildcard (some (_, bound)) => [bound]
  | .intersection members => members
  | .flexible lower upper => [lower, upper]
  | _ => []

/-- A type built again from the table. -/
def Ty.rebuild (memo : Ty → Option Ty) : Ty → Option Ty
  | .reference name args loc => do
      let rewritten ← args.mapM memo
      some (Ty.withArgs rewritten (.reference name args loc))
  | .array inner => do some (.array (← memo inner))
  | .nullable inner => do some (.nullableOf (← memo inner))
  | .definitelyNonNull inner => do some (.definitelyNonNullOf (← memo inner))
  | .wildcard none => some (.wildcardOf none)
  | .wildcard (some (kind, bound)) => do some (.wildcardOf (some (kind, ← memo bound)))
  | .intersection members => do some (.intersectionOf (← members.mapM memo))
  | .flexible lower upper => do some (.flexibleOf (← memo lower) (← memo upper))
  | ty => some ty

def rewriteRules (leaf : Ty → RewriteVerdict) : MemoRewrite.Rules Ty where
  leaf := leaf
  children := Ty.children
  rebuild := Ty.rebuild
  limit := maxRewriteDepth
  giveUp := .error

mutual

/-- The nodes of a type, a shared one as often as it occurs. -/
def Ty.size : Ty → Nat
  | .reference _ args _ => Ty.sizeAll args + 1
  | .array inner => inner.size + 1
  | .nullable inner => inner.size + 1
  | .definitelyNonNull inner => inner.size + 1
  | .wildcard (some (_, bound)) => bound.size + 1
  | .intersection members => Ty.sizeAll members + 1
  | .flexible lower upper => lower.size + upper.size + 1
  | _ => 1

def Ty.sizeAll : List Ty → Nat
  | [] => 0
  | ty :: tys => ty.size + Ty.sizeAll tys

end

/-- `rewrite_with`; `none` would be a lookup that panics, or a loop that needs more than two rounds for
each node. -/
def Ty.rewriteWith (leaf : Ty → RewriteVerdict) (root : Ty) : Option Ty := do
  let memo ← MemoRewrite.run (rewriteRules leaf) (2 * root.size + 1)
    ⟨fun _ => none, [.visit root], 0⟩
  memo root

/-! ### The recursion -/

mutual

/-- The plain recursion over the type. -/
def Ty.rewrite (leaf : Ty → RewriteVerdict) (ty : Ty) : Ty :=
  match leaf ty with
  | .done value => value
  | .recur =>
      match ty with
      | .reference name args loc =>
          Ty.withArgs (Ty.rewriteAll leaf args) (.reference name args loc)
      | .array inner => .array (inner.rewrite leaf)
      | .nullable inner => .nullableOf (inner.rewrite leaf)
      | .definitelyNonNull inner => .definitelyNonNullOf (inner.rewrite leaf)
      | .wildcard none => .wildcardOf none
      | .wildcard (some (kind, bound)) => .wildcardOf (some (kind, bound.rewrite leaf))
      | .intersection members => .intersectionOf (Ty.rewriteAll leaf members)
      | .flexible lower upper => .flexibleOf (lower.rewrite leaf) (upper.rewrite leaf)
      | ty => ty

def Ty.rewriteAll (leaf : Ty → RewriteVerdict) : List Ty → List Ty
  | [] => []
  | ty :: tys => ty.rewrite leaf :: Ty.rewriteAll leaf tys

end

mutual

/-- How deep a type is nested. -/
def Ty.nesting : Ty → Nat
  | .reference _ args _ => Ty.nestingAll args
  | .array inner => inner.nesting + 1
  | .nullable inner => inner.nesting + 1
  | .definitelyNonNull inner => inner.nesting + 1
  | .wildcard (some (_, bound)) => bound.nesting + 1
  | .intersection members => Ty.nestingAll members
  | .flexible lower upper => max (lower.nesting + 1) (upper.nesting + 1)
  | _ => 0

def Ty.nestingAll : List Ty → Nat
  | [] => 0
  | ty :: tys => max (ty.nesting + 1) (Ty.nestingAll tys)

end

/-! ### Policies -/

/-- The policy of `substitute`. -/
def varLeaf (binding : TypeVarScope → Option Ty) : Ty → RewriteVerdict
  | .typeVar scope bounds lower => .done ((binding scope).getD (.typeVar scope bounds lower))
  | _ => .recur

/-- The policy of `substitute_infer`. -/
def inferLeaf (subst : Nat → Option Ty) : Ty → RewriteVerdict
  | .inferenceVar id => .done ((subst id).getD (.inferenceVar id))
  | _ => .recur

def Ty.substituteInfer (subst : Nat → Option Ty) (ty : Ty) : Option Ty :=
  ty.rewriteWith (inferLeaf subst)

end CaffeineLs.HirTy
