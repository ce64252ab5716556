/-
Module: CaffeineLs.Lib.Program
Purpose: Imperative programs over an operation signature with recursive procedures, their
  fuelled execution, and the facts that do not depend on the program: sequencing, and stability
  in the fuel.
Trusted boundary: none
Main exports: Prog, Machine, Result
-/
import Mathlib.Data.Sum.Basic
import Mathlib.Tactic.Common

namespace Imperative

/-- Programs that perform operations of `Op`, call procedures of `Fn` and loop. A loop carries
a value: its body either asks for another round (`inl`) or leaves with a result (`inr`). -/
inductive Prog (Op Fn : Type → Type) : Type → Type 1 where
  | pure {α : Type} (a : α) : Prog Op Fn α
  | op {α β : Type} (o : Op β) (k : β → Prog Op Fn α) : Prog Op Fn α
  | call {α β : Type} (f : Fn β) (k : β → Prog Op Fn α) : Prog Op Fn α
  | loop {α β γ : Type} (body : γ → Prog Op Fn (γ ⊕ β)) (init : γ)
      (k : β → Prog Op Fn α) : Prog Op Fn α

namespace Prog

variable {Op Fn : Type → Type} {α β γ : Type}

/-- Sequencing: graft the continuation onto every leaf. -/
def bind : Prog Op Fn α → (α → Prog Op Fn β) → Prog Op Fn β
  | .pure a, g => g a
  | .op o k, g => .op o fun b => bind (k b) g
  | .call f k, g => .call f fun b => bind (k b) g
  | .loop body init k, g => .loop body init fun b => bind (k b) g

instance : Monad (Prog Op Fn) where
  pure := Prog.pure
  bind := Prog.bind

@[simp] theorem pure_bind (a : α) (g : α → Prog Op Fn β) :
    ((Pure.pure a : Prog Op Fn α) >>= g) = g a := rfl

@[simp] theorem op_bind (o : Op γ) (k : γ → Prog Op Fn α) (g : α → Prog Op Fn β) :
    (Prog.op o k >>= g) = Prog.op o fun b => k b >>= g := rfl

@[simp] theorem call_bind (f : Fn γ) (k : γ → Prog Op Fn α) (g : α → Prog Op Fn β) :
    (Prog.call f k >>= g) = Prog.call f fun b => k b >>= g := rfl

/-- Perform one operation. -/
abbrev perform (o : Op α) : Prog Op Fn α := .op o .pure

/-- Call one procedure. -/
abbrev invoke (f : Fn α) : Prog Op Fn α := .call f .pure

/-- `while cond { body }`. -/
def whileDo (cond : Prog Op Fn Bool) (body : Prog Op Fn Unit) : Prog Op Fn Unit :=
  .loop (β := Unit) (γ := Unit)
    (fun _ => do
      if ← cond then
        body
        return .inl ()
      else
        return .inr ())
    () .pure

end Prog

/-- What a fuelled run ends with. -/
inductive Result (ε σ α : Type) where
  | done (a : α) (s : σ)
  | panic (e : ε)
  | running
deriving Repr, DecidableEq

namespace Result

variable {ε σ α β : Type}

/-- Continue a finished run; a panic or an exhausted run stays what it is. -/
def andThen : Result ε σ α → (α → σ → Result ε σ β) → Result ε σ β
  | .done a s, g => g a s
  | .panic e, _ => .panic e
  | .running, _ => .running

@[simp] theorem andThen_done (a : α) (s : σ) (g : α → σ → Result ε σ β) :
    (Result.done a s).andThen g = g a s := rfl

@[simp] theorem andThen_panic (e : ε) (g : α → σ → Result ε σ β) :
    (Result.panic e : Result ε σ α).andThen g = .panic e := rfl

@[simp] theorem andThen_running (g : α → σ → Result ε σ β) :
    (Result.running : Result ε σ α).andThen g = .running := rfl

theorem andThen_assoc {δ : Type} (r : Result ε σ α) (g : α → σ → Result ε σ β)
    (h : β → σ → Result ε σ δ) :
    (r.andThen g).andThen h = r.andThen fun a s => (g a s).andThen h := by
  cases r <;> rfl

/-- `small ≤ large`: a finished result is kept, an exhausted one may become anything. -/
def Le (small large : Result ε σ α) : Prop :=
  small ≠ .running → large = small

theorem Le.refl (r : Result ε σ α) : Le r r := fun _ => rfl

theorem Le.andThen {r r' : Result ε σ α} {g g' : α → σ → Result ε σ β}
    (first : Le r r') (rest : ∀ a s, Le (g a s) (g' a s)) :
    Le (r.andThen g) (r'.andThen g') := by
  intro finished
  cases r with
  | running => exact absurd rfl finished
  | done a s =>
      rw [first (by simp)]
      exact rest a s finished
  | panic e =>
      rw [first (by simp)]
      rfl

end Result

/-- An operation signature's meaning on states, and the body of every procedure. An operation
that aborts the program returns the reason. -/
structure Machine (Op Fn : Type → Type) (ε σ : Type) where
  exec : {β : Type} → Op β → σ → Except ε (β × σ)
  body : {β : Type} → Fn β → Prog Op Fn β

section Execution

variable {Op Fn : Type → Type} {ε σ : Type} {α β γ : Type}

/-- Run one operation. -/
def Machine.step (M : Machine Op Fn ε σ) (o : Op β) (s : σ) : Result ε σ β :=
  match M.exec o s with
  | .ok (b, s') => .done b s'
  | .error e => .panic e

/-- At most `n` rounds of a loop body. -/
def rounds (round : γ → σ → Result ε σ (γ ⊕ β)) : Nat → γ → σ → Result ε σ β
  | 0, _, _ => .running
  | n + 1, c, s =>
      (round c s).andThen fun r s' =>
        match r with
        | .inl c' => rounds round n c' s'
        | .inr b => .done b s'

/-- Run a program whose calls are answered by `calls` and whose loops take at most `n` rounds. -/
def Prog.runWith (M : Machine Op Fn ε σ) (calls : (β : Type) → Fn β → σ → Result ε σ β)
    (n : Nat) : {α : Type} → Prog Op Fn α → σ → Result ε σ α
  | _, .pure a, s => .done a s
  | _, .op o k, s => (M.step o s).andThen fun b s' => (k b).runWith M calls n s'
  | _, .call f k, s => (calls _ f s).andThen fun b s' => (k b).runWith M calls n s'
  | _, .loop body c k, s =>
      (rounds (fun c s => (body c).runWith M calls n s) n c s).andThen fun b s' =>
        (k b).runWith M calls n s'

/-- Run a program with fuel `n`, which bounds the call depth and the rounds of each loop. -/
def Prog.run (M : Machine Op Fn ε σ) : Nat → {α : Type} → Prog Op Fn α → σ → Result ε σ α
  | 0, _, x, s => x.runWith M (fun _ _ _ => .running) 0 s
  | n + 1, _, x, s => x.runWith M (fun _ f s => Prog.run M n (M.body f) s) (n + 1) s

/-- The meaning of a call in a run with fuel `n`. -/
def callRun (M : Machine Op Fn ε σ) : Nat → (β : Type) → Fn β → σ → Result ε σ β
  | 0, _, _, _ => .running
  | n + 1, _, f, s => Prog.run M n (M.body f) s

attribute [local simp] Prog.runWith callRun

theorem run_eq_runWith (M : Machine Op Fn ε σ) (n : Nat) (x : Prog Op Fn α) (s : σ) :
    x.run M n s = x.runWith M (callRun M n) n s := by
  cases n <;> rfl

theorem runWith_bind (M : Machine Op Fn ε σ) (calls : (β : Type) → Fn β → σ → Result ε σ β)
    (n : Nat) (x : Prog Op Fn α) (g : α → Prog Op Fn β) (s : σ) :
    (x >>= g).runWith M calls n s =
      (x.runWith M calls n s).andThen fun a s' => (g a).runWith M calls n s' := by
  induction x generalizing s with
  | pure a => rfl
  | op o k ih =>
      simp only [Prog.op_bind, Prog.runWith, Result.andThen_assoc]
      congr 1
      funext b s'
      exact ih b g s'
  | call f k ih =>
      simp only [Prog.call_bind, Prog.runWith, Result.andThen_assoc]
      congr 1
      funext b s'
      exact ih b g s'
  | loop body c k _ ih =>
      change (Prog.loop body c fun b => k b >>= g).runWith M calls n s = _
      simp only [Prog.runWith, Result.andThen_assoc]
      congr 1
      funext b s'
      exact ih b g s'

theorem run_bind (M : Machine Op Fn ε σ) (n : Nat) (x : Prog Op Fn α) (g : α → Prog Op Fn β)
    (s : σ) :
    (x >>= g).run M n s = (x.run M n s).andThen fun a s' => (g a).run M n s' := by
  simp only [run_eq_runWith, runWith_bind]

/-! ### More fuel changes no finished run -/

theorem rounds_le {round round' : γ → σ → Result ε σ (γ ⊕ β)}
    (better : ∀ c s, (round c s).Le (round' c s)) {n m : Nat} (le : n ≤ m) (c : γ) (s : σ) :
    (rounds round n c s).Le (rounds round' m c s) := by
  induction n generalizing m c s with
  | zero => exact fun finished => absurd rfl finished
  | succ n ih =>
      obtain ⟨m, rfl⟩ : ∃ k, m = k + 1 := ⟨m - 1, by omega⟩
      refine (better c s).andThen fun r s' => ?_
      cases r with
      | inl c' => exact ih (by omega) c' s'
      | inr b => exact Result.Le.refl _

theorem runWith_le {M : Machine Op Fn ε σ} {calls calls' : (β : Type) → Fn β → σ → Result ε σ β}
    (better : ∀ β f s, (calls β f s).Le (calls' β f s)) {n m : Nat} (le : n ≤ m)
    (x : Prog Op Fn α) (s : σ) : (x.runWith M calls n s).Le (x.runWith M calls' m s) := by
  induction x generalizing s with
  | pure a => exact Result.Le.refl _
  | op o k ih => exact (Result.Le.refl _).andThen fun b s' => ih b s'
  | call f k ih => exact (better _ f s).andThen fun b s' => ih b s'
  | loop body c k ihBody ih =>
      exact (rounds_le (fun c s => ihBody c s) le c s).andThen fun b s' => ih b s'

theorem callRun_le (M : Machine Op Fn ε σ) {n m : Nat} (le : n ≤ m) (β : Type) (f : Fn β) (s : σ) :
    (callRun M n β f s).Le (callRun M m β f s) := by
  induction n generalizing m β f s with
  | zero => exact fun finished => absurd rfl finished
  | succ n ih =>
      obtain ⟨m, rfl⟩ : ∃ k, m = k + 1 := ⟨m - 1, by omega⟩
      have le' : n ≤ m := by omega
      simp only [callRun, run_eq_runWith]
      exact runWith_le (fun β f s => ih le' β f s) le' _ s

theorem run_le (M : Machine Op Fn ε σ) {n m : Nat} (le : n ≤ m) (x : Prog Op Fn α) (s : σ) :
    (x.run M n s).Le (x.run M m s) := by
  simp only [run_eq_runWith]
  exact runWith_le (fun β f s => callRun_le M le β f s) le x s

/-! ### Outcomes without fuel -/

/-- Some fuel lets `x` return `a` in state `s'`. -/
def Returns (M : Machine Op Fn ε σ) (x : Prog Op Fn α) (s : σ) (a : α) (s' : σ) : Prop :=
  ∃ n, x.run M n s = .done a s'

/-- Some fuel lets `x` reach an aborting operation. -/
def Panics (M : Machine Op Fn ε σ) (x : Prog Op Fn α) (s : σ) (e : ε) : Prop :=
  ∃ n, x.run M n s = .panic e

/-- No fuel is enough. -/
def Diverges (M : Machine Op Fn ε σ) (x : Prog Op Fn α) (s : σ) : Prop :=
  ∀ n, x.run M n s = .running

/-- Some fuel is enough. -/
def Halts (M : Machine Op Fn ε σ) (x : Prog Op Fn α) (s : σ) : Prop :=
  ∃ n, x.run M n s ≠ .running

theorem halts_iff_not_diverges {M : Machine Op Fn ε σ} {x : Prog Op Fn α} {s : σ} :
    Halts M x s ↔ ¬ Diverges M x s := by
  simp [Halts, Diverges]

theorem Returns.halts {M : Machine Op Fn ε σ} {x : Prog Op Fn α} {s s' : σ} {a : α}
    (returns : Returns M x s a s') : Halts M x s := by
  obtain ⟨n, runs⟩ := returns
  exact ⟨n, by simp [runs]⟩

/-- Two finished runs of one program from one state agree. -/
theorem run_unique {M : Machine Op Fn ε σ} {x : Prog Op Fn α} {s : σ} {n m : Nat}
    (one : x.run M n s ≠ .running) (two : x.run M m s ≠ .running) :
    x.run M n s = x.run M m s := by
  rcases Nat.le_total n m with le | le
  · exact (run_le M le x s one).symm
  · exact run_le M le x s two

theorem Returns.unique {M : Machine Op Fn ε σ} {x : Prog Op Fn α} {s s₁ s₂ : σ} {a₁ a₂ : α}
    (one : Returns M x s a₁ s₁) (two : Returns M x s a₂ s₂) : a₁ = a₂ ∧ s₁ = s₂ := by
  obtain ⟨n, runOne⟩ := one
  obtain ⟨m, runTwo⟩ := two
  have same := run_unique (M := M) (x := x) (s := s) (n := n) (m := m)
    (by simp [runOne]) (by simp [runTwo])
  simpa [runOne, runTwo] using same

theorem Returns.not_panics {M : Machine Op Fn ε σ} {x : Prog Op Fn α} {s s' : σ} {a : α} {e : ε}
    (returns : Returns M x s a s') : ¬ Panics M x s e := by
  rintro ⟨m, panics⟩
  obtain ⟨n, runs⟩ := returns
  have same := run_unique (M := M) (x := x) (s := s) (n := n) (m := m)
    (by simp [runs]) (by simp [panics])
  simp [runs, panics] at same

end Execution

end Imperative
