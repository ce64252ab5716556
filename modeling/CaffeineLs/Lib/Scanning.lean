/-
Module: CaffeineLs.Lib.Scanning
Purpose: Routines that read an input from left to right and emit pieces: assertions about what is
  ahead before and after, what was emitted, and the rules for sequences, branches and loops.
Trusted boundary: none
Main exports: Scanner, Scanner.Walks, Scanner.Scans
-/
import CaffeineLs.Lib.ProgramLogic

namespace Imperative

variable {Op Fn : Type → Type} {ε σ χ τ : Type} {α β γ : Type}

/-- A machine that reads an input: what is ahead of a state, and how one state is reached from
another while pieces are emitted. `bad` are the reasons to abort that are admitted. -/
structure Scanner (M : Machine Op Fn ε σ) (χ τ : Type) where
  rest : σ → List χ
  bad : σ → ε → Prop
  Reaches : σ → List τ → σ → Prop
  refl : ∀ s, Reaches s [] s
  trans : ∀ {s s' s'' xs ys}, Reaches s xs s' → Reaches s' ys s'' → Reaches s (xs ++ ys) s''
  shortens : ∀ {s s' xs}, Reaches s xs s' → (rest s').length ≤ (rest s).length
  bad_of : ∀ {s s' xs e}, Reaches s xs s' → bad s' e → bad s e

namespace Scanner

variable {M : Machine Op Fn ε σ} (S : Scanner M χ τ)

/-- Where `pre` holds of the text ahead, the routine returns, and its value, the state it returns
in and the pieces it emitted satisfy `post`. -/
def Walks (pre : List χ → Prop) (x : Prog Op Fn α) (post : α → σ → List τ → Prop) : Prop :=
  ∀ s, pre (S.rest s) →
    Wp M (S.bad s) x (fun a s' => ∃ new, S.Reaches s new s' ∧ post a s' new) s

/-- A routine that emits nothing and ends where `post` holds of the text ahead. -/
def Scans (pre : List χ → Prop) (x : Prog Op Fn α) (post : α → List χ → Prop) : Prop :=
  S.Walks pre x fun a s new => new = [] ∧ post a (S.rest s)

/-- No condition on the text ahead. -/
def Anywhere : List χ → Prop := fun _ => True

/-- A routine that emits nothing. -/
abbrev Passes (x : Prog Op Fn α) : Prop := S.Scans Anywhere x fun _ _ => True

variable {S} {pre pre' : List χ → Prop} {post post' : α → σ → List τ → Prop}
  {postβ : β → σ → List τ → Prop}

theorem Walks.mono {x : Prog Op Fn α} (walks : S.Walks pre x post)
    (stronger : ∀ rest, pre' rest → pre rest)
    (weaker : ∀ a s new, post a s new → post' a s new) : S.Walks pre' x post' := by
  intro s holds
  apply (walks s (stronger _ holds)).mono
  intro a s' ⟨new, reaches, ends⟩
  exact ⟨new, reaches, weaker a s' new ends⟩

theorem Walks.strengthen {x : Prog Op Fn α} (walks : S.Walks pre x post)
    (stronger : ∀ rest, pre' rest → pre rest) : S.Walks pre' x post :=
  walks.mono stronger fun _ _ _ ends => ends

theorem Scans.weaken {x : Prog Op Fn α} {ends ends' : α → List χ → Prop}
    (scans : S.Scans pre x ends) (weaker : ∀ a rest, ends a rest → ends' a rest) :
    S.Scans pre x ends' :=
  Walks.mono scans (fun _ holds => holds) fun a _ _ left => ⟨left.1, weaker a _ left.2⟩

/-- What is ahead only gets shorter. -/
theorem Walks.shrinks {x : Prog Op Fn α} (walks : S.Walks pre x post) (n : Nat) :
    S.Walks (fun rest => pre rest ∧ rest.length < n) x
      fun a s new => post a s new ∧ (S.rest s).length < n := by
  intro s holds
  apply (walks s holds.1).mono
  intro a s' ⟨new, reaches, ends⟩
  exact ⟨new, reaches, ends, Nat.lt_of_le_of_lt (S.shortens reaches) holds.2⟩

theorem walks_pure {a : α} (ends : ∀ s, pre (S.rest s) → post a s []) :
    S.Walks pre (pure a) post :=
  fun s holds => wp_pure.mpr ⟨[], S.refl s, ends s holds⟩

theorem walks_bind {x : Prog Op Fn α} {g : α → Prog Op Fn β} {mid : α → List χ → Prop}
    (first : S.Scans pre x mid) (others : ∀ a, S.Walks (mid a) (g a) postβ) :
    S.Walks pre (x >>= g) postβ := by
  intro s holds
  apply wp_bind.mpr
  apply (first s holds).mono
  intro a s' ⟨_, reaches, nothing, holds'⟩
  cases nothing
  apply ((others a s' holds').mono_bad fun e => S.bad_of reaches).mono
  intro b s'' ⟨new, reaches', ends⟩
  exact ⟨new, by simpa using S.trans reaches reaches', ends⟩

/-- A routine followed by a value computed from its own. -/
theorem walks_map {x : Prog Op Fn α} {f : α → β}
    (walks : S.Walks pre x fun a s new => postβ (f a) s new) :
    S.Walks pre (x >>= fun a => pure (f a)) postβ := by
  intro s holds
  apply wp_bind.mpr
  apply (walks s holds).mono
  intro a s' ends
  exact wp_pure.mpr ends

theorem walks_ite {c : Prop} [Decidable c] {x y : Prog Op Fn α} (yes : c → S.Walks pre x post)
    (no : ¬ c → S.Walks pre y post) : S.Walks pre (if c then x else y) post := by
  split
  · exact yes ‹_›
  · exact no ‹_›

theorem passes_bind {x : Prog Op Fn α} {g : α → Prog Op Fn β} (first : S.Passes x)
    (others : ∀ a, S.Passes (g a)) : S.Passes (x >>= g) :=
  walks_bind first others

theorem passes_pure {a : α} : S.Passes (pure a) :=
  walks_pure fun _ _ => ⟨rfl, trivial⟩

/-! ### Loops -/

/-- A loop whose rounds, from carried values and texts that satisfy `inv`, emit nothing and
shorten what is ahead whenever they ask for another round. -/
theorem walks_loop {body : γ → Prog Op Fn (γ ⊕ β)} {c : γ} (inv : γ → List χ → Prop)
    (round : ∀ c rest, inv c rest → S.Walks (· = rest) (body c) fun r s new =>
      match r with
      | .inl c' => new = [] ∧ inv c' (S.rest s) ∧ (S.rest s).length < rest.length
      | .inr b => postβ b s new)
    (start : ∀ rest, pre rest → inv c rest) : S.Walks pre (.loop body c .pure) postβ := by
  intro s holds
  apply Wp.loop (fun c s' => inv c (S.rest s') ∧ S.Reaches s [] s') (fun _ s' => (S.rest s').length)
    _ ⟨start _ holds, S.refl s⟩
  intro c s' ⟨kept, reaches⟩
  apply ((round c _ kept s' rfl).mono_bad fun e => S.bad_of reaches).mono
  intro r s'' ⟨new, reaches', ends⟩
  have whole : S.Reaches s new s'' := S.trans reaches reaches'
  cases r with
  | inl c' =>
      rcases ends with ⟨rfl, kept', shorter⟩
      exact ⟨⟨kept', whole⟩, shorter⟩
  | inr b => exact wp_pure.mpr ⟨new, whole, ends⟩

/-- A round that emits nothing and shortens what is ahead whenever it asks for another one. -/
def Round (S : Scanner M χ τ) (x : Prog Op Fn (γ ⊕ β)) : Prop :=
  ∀ rest, S.Scans (· = rest) x fun r rest' => r.isLeft → rest'.length < rest.length

theorem passes_loop {body : γ → Prog Op Fn (γ ⊕ β)} {c : γ} (round : ∀ c, S.Round (body c)) :
    S.Passes (.loop body c .pure) := by
  apply walks_loop (fun _ _ => True) _ fun _ _ => trivial
  intro c rest _
  apply (round c rest).mono fun _ same => same
  intro r s new ends
  cases r with
  | inl c' => exact ⟨ends.1, trivial, ends.2 rfl⟩
  | inr b => exact ⟨ends.1, trivial⟩

end Scanner

end Imperative
