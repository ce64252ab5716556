/-
Module: CaffeineLs.Lib.Simulation
Purpose: Two machines that run the same program: one as the image of the other, and the relation
  between two runs; the operations a run comes to.
Trusted boundary: none
Main exports: Image, Image.returns, Image.heads
-/
import CaffeineLs.Lib.ProgramLogic

namespace Imperative

variable {Op Fn : Type → Type} {ε σ τ : Type} {α β γ : Type}

/-! ### A machine that is the image of another -/

/-- The same result in another state. -/
def Result.mapState (f : τ → σ) : Result ε τ α → Result ε σ α
  | .done a t => .done a (f t)
  | .panic e => .panic e
  | .running => .running

theorem Result.mapState_andThen (f : τ → σ) (r : Result ε τ α) (g : α → τ → Result ε τ β)
    (g' : α → σ → Result ε σ β) (rest : ∀ a t, g' a (f t) = (g a t).mapState f) :
    (r.mapState f).andThen g' = (r.andThen g).mapState f := by
  cases r with
  | done a t => exact rest a t
  | panic e => rfl
  | running => rfl

/-- Every operation of `M` on an image is the image of the operation of `N`, and the procedures
are the same. -/
structure Image (M : Machine Op Fn ε σ) (N : Machine Op Fn ε τ) (f : τ → σ) : Prop where
  exec : ∀ {β : Type} (o : Op β) (t : τ), M.exec o (f t) = (N.exec o t).map (Prod.map id f)
  body : ∀ {β : Type} (p : Fn β), M.body p = N.body p

namespace Image

variable {M : Machine Op Fn ε σ} {N : Machine Op Fn ε τ} {f : τ → σ} (image : Image M N f)

include image

theorem step (o : Op β) (t : τ) : M.step o (f t) = (N.step o t).mapState f := by
  unfold Machine.step
  rw [image.exec o t]
  cases N.exec o t with
  | ok r => rfl
  | error e => rfl

theorem runWith {calls : (β : Type) → Fn β → σ → Result ε σ β}
    {calls' : (β : Type) → Fn β → τ → Result ε τ β}
    (same : ∀ β p t, calls β p (f t) = (calls' β p t).mapState f) (n : Nat)
    (x : Prog Op Fn α) (t : τ) : x.runWith M calls n (f t) = (x.runWith N calls' n t).mapState f := by
  induction x generalizing t with
  | pure a => rfl
  | op o k ih =>
      simp only [Prog.runWith, image.step]
      exact Result.mapState_andThen f _ _ _ fun b t' => ih b t'
  | call p k ih =>
      simp only [Prog.runWith, same]
      exact Result.mapState_andThen f _ _ _ fun b t' => ih b t'
  | loop body c k ihBody ih =>
      have looped : ∀ m c t, rounds (fun c s => (body c).runWith M calls n s) m c (f t) =
          (rounds (fun c t => (body c).runWith N calls' n t) m c t).mapState f := by
        intro m
        induction m with
        | zero => exact fun _ _ => rfl
        | succ m ihRounds =>
            intro c t
            simp only [rounds, ihBody]
            apply Result.mapState_andThen
            intro r t'
            cases r with
            | inl c' => exact ihRounds c' t'
            | inr b => rfl
      simp only [Prog.runWith, looped]
      exact Result.mapState_andThen f _ _ _ fun b t' => ih b t'

theorem callRun (n : Nat) (β : Type) (p : Fn β) (t : τ) :
    callRun M n β p (f t) = (Imperative.callRun N n β p t).mapState f := by
  induction n generalizing β p t with
  | zero => rfl
  | succ n ih =>
      simp only [Imperative.callRun, image.body, run_eq_runWith]
      exact image.runWith ih n _ t

/-- The run from an image is the image of the run. -/
theorem run (n : Nat) (x : Prog Op Fn α) (t : τ) : x.run M n (f t) = (x.run N n t).mapState f := by
  simp only [run_eq_runWith]
  exact image.runWith (image.callRun n) n x t

theorem returns {x : Prog Op Fn α} {t : τ} {a : α} {s' : σ} :
    Returns M x (f t) a s' ↔ ∃ t', Returns N x t a t' ∧ f t' = s' := by
  simp only [Returns, image.run]
  constructor
  · rintro ⟨n, runs⟩
    cases short : x.run N n t with
    | done b t' =>
        rw [short] at runs
        cases runs
        exact ⟨t', ⟨n, short⟩, rfl⟩
    | panic e => simp [short, Result.mapState] at runs
    | running => simp [short, Result.mapState] at runs
  · rintro ⟨t', ⟨n, runs⟩, same⟩
    exact ⟨n, by rw [runs, ← same]; rfl⟩

/-- The loop heads of the image are the images of the loop heads. -/
theorem heads {p : σ → Bool} {body : Prog Op Fn Unit} {start : σ → Prop} {start' : τ → Prop}
    (starts : ∀ s, start s ↔ ∃ t, start' t ∧ f t = s) {s : σ} :
    Heads M p body start s ↔ ∃ t, Heads N (fun t => p (f t)) body start' t ∧ f t = s := by
  constructor
  · intro head
    induction head with
    | first begins =>
        obtain ⟨t, begins', rfl⟩ := (starts _).mp begins
        exact ⟨t, .first begins', rfl⟩
    | next _ goes step ih =>
        obtain ⟨t, head, rfl⟩ := ih
        obtain ⟨t', step', rfl⟩ := image.returns.mp step
        exact ⟨t', head.next goes step', rfl⟩
  · intro ⟨t, head, same⟩
    subst same
    induction head with
    | first begins => exact .first ((starts _).mpr ⟨_, begins, rfl⟩)
    | next _ goes step ih => exact ih.next goes (image.returns.mpr ⟨_, step, rfl⟩)

end Image

/-! ### The operations a run comes to -/

/-- The run of a program from a state comes to perform `o` in state `s'`. -/
inductive Meets (M : Machine Op Fn ε σ) {δ : Type} (o : Op δ) (s' : σ) :
    {α : Type} → Prog Op Fn α → σ → Prop where
  | here {α : Type} {k : δ → Prog Op Fn α} : Meets M o s' (.op o k) s'
  | op {α β : Type} {p : Op β} {k : β → Prog Op Fn α} {s s₁ : σ} {b : β}
      (steps : M.exec p s = .ok (b, s₁)) (later : Meets M o s' (k b) s₁) : Meets M o s' (.op p k) s
  | callee {α β : Type} {p : Fn β} {k : β → Prog Op Fn α} {s : σ}
      (inside : Meets M o s' (M.body p) s) : Meets M o s' (.call p k) s
  | call {α β : Type} {p : Fn β} {k : β → Prog Op Fn α} {s s₁ : σ} {b : β}
      (returns : Returns M (M.body p) s b s₁) (later : Meets M o s' (k b) s₁) :
      Meets M o s' (.call p k) s
  | round {α β γ : Type} {body : γ → Prog Op Fn (γ ⊕ β)} {c : γ} {k : β → Prog Op Fn α} {s : σ}
      (inside : Meets M o s' (body c) s) : Meets M o s' (.loop body c k) s
  | next {α β γ : Type} {body : γ → Prog Op Fn (γ ⊕ β)} {c c' : γ} {k : β → Prog Op Fn α}
      {s s₁ : σ} (returns : Returns M (body c) s (.inl c') s₁)
      (later : Meets M o s' (.loop body c' k) s₁) : Meets M o s' (.loop body c k) s
  | leave {α β γ : Type} {body : γ → Prog Op Fn (γ ⊕ β)} {c : γ} {b : β} {k : β → Prog Op Fn α}
      {s s₁ : σ} (returns : Returns M (body c) s (.inr b) s₁) (later : Meets M o s' (k b) s₁) :
      Meets M o s' (.loop body c k) s

section Meets

variable {M : Machine Op Fn ε σ} {δ : Type} {o : Op δ} {s s' : σ}

theorem meets_pure {a : α} : ¬ Meets M o s' (Prog.pure a) s := by
  intro meets
  cases meets

/-- What is met in a sequence is met in its first part or after it. -/
theorem Meets.of_bind {x : Prog Op Fn α} {g : α → Prog Op Fn β} (meets : Meets M o s' (x >>= g) s) :
    Meets M o s' x s ∨ ∃ a s₁, Returns M x s a s₁ ∧ Meets M o s' (g a) s₁ := by
  induction x generalizing s with
  | pure a => exact .inr ⟨a, s, returns_pure.mpr ⟨rfl, rfl⟩, meets⟩
  | op p k ih =>
      cases meets with
      | here => exact .inl .here
      | op steps later =>
          rcases ih _ later with inside | ⟨a, s₁, returns, after⟩
          · exact .inl (.op steps inside)
          · exact .inr ⟨a, s₁, returns_op.mpr ⟨_, _, steps, returns⟩, after⟩
  | call p k ih =>
      cases meets with
      | callee inside => exact .inl (.callee inside)
      | call returned later =>
          rcases ih _ later with inside | ⟨a, s₁, returns, after⟩
          · exact .inl (.call returned inside)
          · exact .inr ⟨a, s₁, returns_call.mpr ⟨_, _, returned, returns⟩, after⟩
  | loop body c k ihBody ih =>
      generalize whole : Prog.loop body c k >>= g = y at meets
      have same : Prog.loop body c (fun b => k b >>= g) = y := whole
      clear whole
      induction meets generalizing c with
      | round inside =>
          cases same
          exact .inl (.round inside)
      | next returned later ihLoop =>
          cases same
          rcases ihLoop _ ihBody ih rfl with inside | ⟨a, s₁, returns, after⟩
          · exact .inl (.next returned inside)
          · exact .inr ⟨a, s₁, returns_loop.mpr ⟨_, _, returned, returns⟩, after⟩
      | leave returned later =>
          cases same
          rcases ih _ later with inside | ⟨a, s₁, returns, after⟩
          · exact .inl (.leave returned inside)
          · exact .inr ⟨a, s₁, returns_loop.mpr ⟨_, _, returned, returns⟩, after⟩
      | here => cases same
      | op => cases same
      | callee => cases same
      | call => cases same

/-- What is met in a loop is met in a round or after the loop. -/
theorem Meets.of_loop {body : γ → Prog Op Fn (γ ⊕ β)} {c : γ} {k : β → Prog Op Fn α}
    (meets : Meets M o s' (.loop body c k) s) :
    (∃ c₁ s₁, Meets M o s' (body c₁) s₁) ∨ ∃ b s₁, Meets M o s' (k b) s₁ := by
  generalize whole : Prog.loop body c k = x at meets
  induction meets generalizing c with
  | round inside =>
      cases whole
      exact .inl ⟨_, _, inside⟩
  | next _ _ ih =>
      cases whole
      exact ih rfl
  | leave _ later =>
      cases whole
      exact .inr ⟨_, _, later⟩
  | here => cases whole
  | op => cases whole
  | callee => cases whole
  | call => cases whole

/-- What is met in a `while` is met in its condition or in its body. -/
theorem Meets.of_whileDo {cond : Prog Op Fn Bool} {body : Prog Op Fn Unit}
    (meets : Meets M o s' (Prog.whileDo cond body) s) :
    ∃ s₁, Meets M o s' cond s₁ ∨ Meets M o s' body s₁ := by
  rcases meets.of_loop with ⟨_, s₁, inside⟩ | ⟨_, _, later⟩
  · rcases inside.of_bind with here | ⟨b, s₂, -, after⟩
    · exact ⟨s₁, .inl here⟩
    · cases b with
      | false => exact absurd after meets_pure
      | true =>
          rcases Meets.of_bind after with here | ⟨_, _, -, last⟩
          · exact ⟨s₂, .inr here⟩
          · exact absurd last meets_pure
  · exact absurd later meets_pure

/-- A machine meets the images of what its preimage meets. -/
theorem Image.meets {N : Machine Op Fn ε τ} {f : τ → σ} (image : Image M N f) {x : Prog Op Fn α}
    {t t' : τ} (meets : Meets N o t' x t) : Meets M o (f t') x (f t) := by
  have returned : ∀ {β : Type} {y : Prog Op Fn β} {t t' : τ} {b : β}, Returns N y t b t' →
      Returns M y (f t) b (f t') := fun returns => image.returns.mpr ⟨_, returns, rfl⟩
  induction meets with
  | here => exact .here
  | op steps _ ih => exact .op (by rw [image.exec, steps]; rfl) ih
  | callee _ ih => exact .callee (image.body _ ▸ ih)
  | call returns _ ih => exact .call (image.body _ ▸ returned returns) ih
  | round _ ih => exact .round ih
  | next returns _ ih => exact .next (returned returns) ih
  | leave returns _ ih => exact .leave (returned returns) ih

/-- The program performs none of the operations of `P`, whatever the others answer. -/
def Prog.Avoids (P : {β : Type} → Op β → Prop) : {α : Type} → Prog Op Fn α → Prop
  | _, .pure _ => True
  | _, .op o k => ¬ P o ∧ ∀ b, (k b).Avoids P
  | _, .call _ k => ∀ b, (k b).Avoids P
  | _, .loop body _ k => (∀ c, (body c).Avoids P) ∧ ∀ b, (k b).Avoids P

variable {P : {β : Type} → Op β → Prop}

theorem avoids_pure {a : α} : (pure a : Prog Op Fn α).Avoids P := trivial

theorem avoids_perform {p : Op α} (other : ¬ P p) : (Prog.perform p : Prog Op Fn α).Avoids P :=
  ⟨other, fun _ => trivial⟩

theorem avoids_bind {x : Prog Op Fn α} {g : α → Prog Op Fn β} (first : x.Avoids P)
    (others : ∀ a, (g a).Avoids P) : (x >>= g).Avoids P := by
  induction x with
  | pure a => exact others a
  | op p k ih => exact ⟨first.1, fun b => ih b (first.2 b) others⟩
  | call f k ih => exact fun b => ih b (first b) others
  | loop body c k _ ih => exact ⟨first.1, fun b => ih b (first.2 b) others⟩

theorem avoids_loop {body : γ → Prog Op Fn (γ ⊕ β)} {c : γ} (round : ∀ c, (body c).Avoids P) :
    (Prog.loop body c .pure).Avoids P :=
  ⟨round, fun _ => trivial⟩

theorem avoids_whileDo {cond : Prog Op Fn Bool} {body : Prog Op Fn Unit} (reads : cond.Avoids P)
    (round : body.Avoids P) : (Prog.whileDo cond body).Avoids P := by
  apply avoids_loop
  intro _
  apply avoids_bind reads
  intro b
  cases b with
  | false => trivial
  | true => exact avoids_bind round fun _ => trivial

theorem Prog.Avoids.not_meets (bodies : ∀ {β : Type} (p : Fn β), (M.body p).Avoids P) (bad : P o)
    {x : Prog Op Fn α} (avoids : x.Avoids P) : ¬ Meets M o s' x s := by
  intro meets
  induction meets with
  | here => exact avoids.1 bad
  | op _ _ ih => exact ih (avoids.2 _)
  | callee _ ih => exact ih (bodies _)
  | call _ _ ih => exact ih (avoids _)
  | round _ ih => exact ih (avoids.1 _)
  | next _ _ ih => exact ih avoids
  | leave _ _ ih => exact ih (avoids.2 _)

end Meets

/-! ### Two runs of one program -/

/-- Whatever two related states answer an operation with is the same and leaves them related. -/
def Agree (M : Machine Op Fn ε σ) (N : Machine Op Fn ε τ) (R : σ → τ → Prop) (o : Op β)
    (s : σ) (t : τ) : Prop :=
  ∀ b s' b' t', M.exec o s = .ok (b, s') → N.exec o t = .ok (b', t') → b = b' ∧ R s' t'

section Relate

variable {M : Machine Op Fn ε σ} {N : Machine Op Fn ε τ} {R : σ → τ → Prop}

/-- The two runs agree at every operation both come to in related states. -/
def AgreeAlong (M : Machine Op Fn ε σ) (N : Machine Op Fn ε τ) (R : σ → τ → Prop)
    (x : Prog Op Fn α) (s : σ) (t : τ) : Prop :=
  ∀ {β : Type} (o : Op β) (s₁ : σ) (t₁ : τ), Meets M o s₁ x s → Meets N o t₁ x t → R s₁ t₁ →
    Agree M N R o s₁ t₁

/-- One level of calls: the program's own operations and loops. -/
theorem AgreeAlong.returns_of_calls {n : Nat}
    (calls : ∀ {β : Type} (p : Fn β) {s s' : σ} {t t' : τ} {b b' : β},
      callRun M n β p s = .done b s' → AgreeAlong M N R (M.body p) s t → R s t →
      Returns N (M.body p) t b' t' → b = b' ∧ R s' t')
    (body : ∀ {β : Type} (p : Fn β), M.body p = N.body p)
    {x : Prog Op Fn α} {s s' : σ} {t t' : τ} {a a' : α} (along : AgreeAlong M N R x s t)
    (related : R s t) (one : x.run M n s = .done a s') (two : Returns N x t a' t') :
    a = a' ∧ R s' t' := by
  induction x generalizing s s' t t' with
  | pure b =>
      rw [run_pure] at one
      cases one
      rcases returns_pure.mp two with ⟨same, rfl⟩
      exact ⟨same, related⟩
  | op o k ih =>
      rw [run_op, Result.andThen_eq_done] at one
      rcases one with ⟨b, s₁, steps, rest⟩
      rcases returns_op.mp two with ⟨b', t₁, steps', rest'⟩
      have stepped := step_eq_done.mp steps
      rcases along o s t .here .here related b s₁ b' t₁ stepped steps' with ⟨rfl, related'⟩
      apply ih b _ related' rest rest'
      intro β p s₂ t₂ left right
      exact along p s₂ t₂ (.op stepped left) (.op steps' right)
  | call p k ih =>
      rw [run_call, Result.andThen_eq_done] at one
      rcases one with ⟨b, s₁, called, rest⟩
      rcases returns_call.mp two with ⟨b', t₁, called', rest'⟩
      have returned : Returns M (M.body p) s b s₁ := by
        cases n with
        | zero => simp [callRun] at called
        | succ n => exact ⟨n, called⟩
      have inside : AgreeAlong M N R (M.body p) s t := by
        intro β o s₂ t₂ left right
        exact along o s₂ t₂ (.callee left) (.callee (body p ▸ right))
      rcases calls p called inside related (body p ▸ called') with ⟨rfl, related'⟩
      apply ih b _ related' rest rest'
      intro β o s₂ t₂ left right
      exact along o s₂ t₂ (.call returned left) (.call called' right)
  | loop round c k ihRound ih =>
      rw [run_loop, Result.andThen_eq_done] at one
      rcases one with ⟨b, s₁, looped, rest⟩
      suffices leaves : ∀ m c s t, AgreeAlong M N R (.loop round c k) s t → R s t →
          rounds (fun c s => (round c).run M n s) m c s = .done b s₁ →
          Returns N (.loop round c k) t a' t' →
          ∃ t₁, AgreeAlong M N R (k b) s₁ t₁ ∧ R s₁ t₁ ∧ Returns N (k b) t₁ a' t' by
        rcases leaves n c s t along related looped two with ⟨t₁, along', related', rest'⟩
        exact ih b along' related' rest rest'
      intro m
      induction m with
      | zero => simp [rounds]
      | succ m ihRounds =>
          intro c s t along related looped two
          rw [rounds, Result.andThen_eq_done] at looped
          rcases looped with ⟨r, s₂, first, others⟩
          rcases returns_loop.mp two with ⟨r', t₂, first', others'⟩
          have inside : AgreeAlong M N R (round c) s t := by
            intro β o s₃ t₃ left right
            exact along o s₃ t₃ (.round left) (.round right)
          rcases ihRound c inside related first first' with ⟨rfl, related'⟩
          cases r with
          | inl c' =>
              apply ihRounds c' s₂ t₂ _ related' others others'
              intro β o s₃ t₃ left right
              exact along o s₃ t₃ (.next ⟨n, first⟩ left) (.next first' right)
          | inr b' =>
              cases others
              refine ⟨t₂, ?_, related', others'⟩
              intro β o s₃ t₃ left right
              exact along o s₃ t₃ (.leave ⟨n, first⟩ left) (.leave first' right)

/-- Runs that agree at every operation return the same in related states. The induction is on
the call depth. -/
theorem AgreeAlong.returns (body : ∀ {β : Type} (p : Fn β), M.body p = N.body p)
    {x : Prog Op Fn α} {s s' : σ} {t t' : τ} {a a' : α} (along : AgreeAlong M N R x s t)
    (related : R s t) (one : Returns M x s a s') (two : Returns N x t a' t') :
    a = a' ∧ R s' t' := by
  rcases one with ⟨n, runs⟩
  induction n generalizing α x s t s' t' a a' with
  | zero =>
      apply along.returns_of_calls _ body related runs two
      intro β p s s' t t' b b' called
      simp [callRun] at called
  | succ n ih =>
      apply along.returns_of_calls _ body related runs two
      intro β p s s' t t' b b' called inside related two
      exact ih inside related two called

end Relate

/-- What every operation keeps, a returning run keeps. -/
theorem Returns.keeps {M : Machine Op Fn ε σ} {x : Prog Op Fn α} {s s' : σ} {a : α}
    (inv : σ → Prop)
    (step : ∀ {β : Type} (o : Op β) s b s', inv s → M.exec o s = .ok (b, s') → inv s')
    (holds : inv s) (returns : Returns M x s a s') : inv s' := by
  have along : AgreeAlong M M (fun s t => s = t ∧ inv s) x s s := by
    intro β o s₁ t₁ _ _ ⟨same, holds⟩ b s₂ b' t₂ one two
    subst same
    rw [one] at two
    cases two
    exact ⟨rfl, rfl, step o s₁ b s₂ holds one⟩
  exact (along.returns (fun _ => rfl) ⟨rfl, holds⟩ returns returns).2.2

/-- What every operation keeps, holds wherever an operation is met. -/
theorem Meets.keeps {M : Machine Op Fn ε σ} {δ : Type} {o : Op δ} {x : Prog Op Fn α} {s s' : σ}
    (inv : σ → Prop)
    (step : ∀ {β : Type} (o : Op β) s b s', inv s → M.exec o s = .ok (b, s') → inv s')
    (holds : inv s) (meets : Meets M o s' x s) : inv s' := by
  induction meets with
  | here => exact holds
  | op steps _ ih => exact ih (step _ _ _ _ holds steps)
  | callee _ ih => exact ih holds
  | call returns _ ih => exact ih (returns.keeps inv step holds)
  | round _ ih => exact ih holds
  | next returns _ ih => exact ih (returns.keeps inv step holds)
  | leave returns _ ih => exact ih (returns.keeps inv step holds)

end Imperative
