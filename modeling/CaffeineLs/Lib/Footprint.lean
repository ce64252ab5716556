/-
Module: CaffeineLs.Lib.Footprint
Purpose: The operations a program is written with, and what a run of it keeps when those
  operations do.
Trusted boundary: none
Main exports: Prog.Uses, uses_bind, uses_whileDo
-/
import CaffeineLs.Lib.ProgramLogic

namespace Imperative

variable {Op Fn : Type → Type} {ε σ : Type} {α β γ : Type} {allowed : (β : Type) → Op β → Prop}

/-- Every operation in the text of the program is allowed, whatever the earlier ones answer. -/
def Prog.Uses (allowed : (β : Type) → Op β → Prop) : {α : Type} → Prog Op Fn α → Prop
  | _, .pure _ => True
  | _, .op o k => allowed _ o ∧ ∀ b, (k b).Uses allowed
  | _, .call _ k => ∀ b, (k b).Uses allowed
  | _, .loop body _ k => (∀ c, (body c).Uses allowed) ∧ ∀ b, (k b).Uses allowed

@[simp] theorem uses_pure {a : α} : (Pure.pure a : Prog Op Fn α).Uses allowed := trivial

@[simp] theorem uses_leaf {a : α} : (Prog.pure a : Prog Op Fn α).Uses allowed := trivial

@[simp] theorem uses_perform {o : Op α} :
    (Prog.perform o : Prog Op Fn α).Uses allowed ↔ allowed α o :=
  ⟨fun uses => uses.1, fun isAllowed => ⟨isAllowed, fun _ => trivial⟩⟩

@[simp] theorem leaf_bind (a : α) (g : α → Prog Op Fn β) : (Prog.pure a >>= g) = g a := rfl

@[simp] theorem uses_op {o : Op β} {k : β → Prog Op Fn α} :
    (Prog.op o k).Uses allowed ↔ allowed β o ∧ ∀ b, (k b).Uses allowed := Iff.rfl

theorem uses_bind {x : Prog Op Fn α} {g : α → Prog Op Fn β} (first : x.Uses allowed)
    (rest : ∀ a, (g a).Uses allowed) : (x >>= g).Uses allowed := by
  induction x with
  | pure a => exact rest a
  | op o k ih => exact ⟨first.1, fun b => ih b (first.2 b) rest⟩
  | call f k ih => exact fun b => ih b (first b) rest
  | loop body c k _ ih => exact ⟨first.1, fun b => ih b (first.2 b) rest⟩

@[simp] theorem uses_ite {c : Prop} [Decidable c] {x y : Prog Op Fn α} :
    (if c then x else y).Uses allowed ↔ (c → x.Uses allowed) ∧ (¬ c → y.Uses allowed) := by
  by_cases holds : c <;> simp [holds]

theorem uses_loop {body : γ → Prog Op Fn (γ ⊕ β)} {c : γ} (round : ∀ c, (body c).Uses allowed) :
    (Prog.loop body c .pure : Prog Op Fn β).Uses allowed :=
  ⟨round, fun _ => trivial⟩

theorem uses_whileDo {cond : Prog Op Fn Bool} {body : Prog Op Fn Unit} (reads : cond.Uses allowed)
    (round : body.Uses allowed) : (Prog.whileDo cond body).Uses allowed := by
  apply uses_loop
  intro _
  apply uses_bind reads
  intro goes
  apply uses_ite.mpr
  exact ⟨fun _ => uses_bind round fun _ => trivial, fun _ => trivial⟩

section Keeps

variable {M : Machine Op Fn ε σ} {inv : σ → Prop}

/-- A run that returns, returns a state that satisfies `inv`. -/
def Result.Ends (inv : σ → Prop) (r : Result ε σ α) : Prop := ∀ a s, r = .done a s → inv s

theorem Result.Ends.andThen {r : Result ε σ α} {g : α → σ → Result ε σ β}
    (first : r.Ends inv) (rest : ∀ a s, inv s → (g a s).Ends inv) : (r.andThen g).Ends inv := by
  cases r with
  | done a s => exact rest a s (first a s rfl)
  | panic e => exact fun _ _ same => nomatch same
  | running => exact fun _ _ same => nomatch same

variable (step : ∀ (β : Type) (o : Op β) s b s', allowed β o → inv s → M.exec o s = .ok (b, s') →
  inv s')

include step

theorem runWith_ends {calls : (β : Type) → Fn β → σ → Result ε σ β} {n : Nat}
    (called : ∀ β f s, inv s → (calls β f s).Ends inv) (x : Prog Op Fn α) (uses : x.Uses allowed)
    {s : σ} (holds : inv s) : (x.runWith M calls n s).Ends inv := by
  induction x generalizing s with
  | pure a =>
      intro _ _ same
      cases same
      exact holds
  | op o k ih =>
      have first : (M.step o s).Ends inv := fun b s' same =>
        step _ o s b s' uses.1 holds (step_eq_done.mp same)
      exact first.andThen fun b s' kept => ih b (uses.2 b) kept
  | call f k ih => exact (called _ f s holds).andThen fun b s' kept => ih b (uses b) kept
  | loop body c k ihBody ih =>
      have looped : ∀ m c s, inv s →
          (rounds (fun c s => (body c).runWith M calls n s) m c s).Ends inv := by
        intro m
        induction m with
        | zero => exact fun _ _ _ _ _ same => nomatch same
        | succ m ihRounds =>
            intro c s holds
            apply (ihBody c (uses.1 c) holds).andThen
            intro r s' kept
            cases r with
            | inl c' => exact ihRounds c' s' kept
            | inr b =>
                intro _ _ same
                cases same
                exact kept
      exact (looped n c s holds).andThen fun b s' kept => ih b (uses.2 b) kept

/-- What every allowed operation keeps, a returning run of a program that uses no others keeps. -/
theorem Returns.keeps_of_uses (bodies : ∀ (β : Type) (f : Fn β), (M.body f).Uses allowed)
    {x : Prog Op Fn α} {s s' : σ} {a : α} (uses : x.Uses allowed) (holds : inv s)
    (returns : Returns M x s a s') : inv s' := by
  have called : ∀ n β f s, inv s → (callRun M n β f s).Ends inv := by
    intro n
    induction n with
    | zero => exact fun _ _ _ _ _ _ same => nomatch same
    | succ n ih =>
        intro β f s holds
        rw [callRun, run_eq_runWith]
        exact runWith_ends step ih _ (bodies β f) holds
  rcases returns with ⟨n, runs⟩
  rw [run_eq_runWith] at runs
  exact runWith_ends step (called n) x uses holds a s' runs

end Keeps

end Imperative
