/-
Module: CaffeineLs.Lib.ProgramLogic
Purpose: Proof rules for imperative programs: what a returning run consists of, total
  correctness assertions with a loop rule over a variant, and divergence of a loop that
  stays in an invariant.
Trusted boundary: none
Main exports: returns_bind, returns_loop, Wp
-/
import CaffeineLs.Lib.Program

namespace Imperative

variable {Op Fn : Type → Type} {ε σ : Type} {α β γ : Type} {M : Machine Op Fn ε σ}

/-! ### The equations of a fuelled run -/

theorem run_pure (n : Nat) (a : α) (s : σ) :
    (Prog.pure a : Prog Op Fn α).run M n s = .done a s := by
  rw [run_eq_runWith, Prog.runWith]

theorem run_op (n : Nat) (o : Op β) (k : β → Prog Op Fn α) (s : σ) :
    (Prog.op o k).run M n s = (M.step o s).andThen fun b s' => (k b).run M n s' := by
  simp only [run_eq_runWith, Prog.runWith]

theorem run_call (n : Nat) (f : Fn β) (k : β → Prog Op Fn α) (s : σ) :
    (Prog.call f k).run M n s = (callRun M n _ f s).andThen fun b s' => (k b).run M n s' := by
  simp only [run_eq_runWith, Prog.runWith]

theorem run_loop (n : Nat) (body : γ → Prog Op Fn (γ ⊕ β)) (c : γ) (k : β → Prog Op Fn α)
    (s : σ) :
    (Prog.loop body c k).run M n s =
      (rounds (fun c s => (body c).run M n s) n c s).andThen fun b s' => (k b).run M n s' := by
  simp only [run_eq_runWith, Prog.runWith]

theorem run_done_mono {n m : Nat} (le : n ≤ m) {x : Prog Op Fn α} {s s' : σ} {a : α}
    (runs : x.run M n s = .done a s') : x.run M m s = .done a s' := by
  rw [← runs]
  exact run_le M le x s (by simp [runs])

theorem rounds_done_mono {body : γ → Prog Op Fn (γ ⊕ β)} {n m n' m' : Nat} (le : n ≤ m)
    (le' : n' ≤ m') {c : γ} {s s' : σ} {b : β}
    (runs : rounds (fun c s => (body c).run M n' s) n c s = .done b s') :
    rounds (fun c s => (body c).run M m' s) m c s = .done b s' := by
  rw [← runs]
  exact rounds_le (fun c s => run_le M le' (body c) s) le c s (by simp [runs])

theorem Result.andThen_eq_done {r : Result ε σ α} {g : α → σ → Result ε σ β} {b : β} {s : σ} :
    r.andThen g = .done b s ↔ ∃ a s', r = .done a s' ∧ g a s' = .done b s := by
  cases r with
  | done a s' =>
      constructor
      · intro continued
        exact ⟨a, s', rfl, continued⟩
      · rintro ⟨_, _, same, continued⟩
        cases same
        exact continued
  | panic e => simp
  | running => simp

theorem step_eq_done {o : Op β} {b : β} {s s' : σ} :
    M.step o s = .done b s' ↔ M.exec o s = .ok (b, s') := by
  unfold Machine.step
  split <;> simp_all

/-! ### What a returning run consists of -/

@[simp] theorem returns_pure {a b : α} {s s' : σ} :
    Returns M (Prog.pure a) s b s' ↔ a = b ∧ s = s' := by
  simp [Returns, run_pure]

theorem returns_op {o : Op β} {k : β → Prog Op Fn α} {s s'' : σ} {a : α} :
    Returns M (.op o k) s a s'' ↔
      ∃ b s', M.exec o s = .ok (b, s') ∧ Returns M (k b) s' a s'' := by
  simp only [Returns, run_op, Result.andThen_eq_done, step_eq_done]
  constructor
  · rintro ⟨n, b, s', stepped, continued⟩
    exact ⟨b, s', stepped, n, continued⟩
  · rintro ⟨b, s', stepped, n, continued⟩
    exact ⟨n, b, s', stepped, continued⟩

theorem returns_call {f : Fn β} {k : β → Prog Op Fn α} {s s'' : σ} {a : α} :
    Returns M (.call f k) s a s'' ↔
      ∃ b s', Returns M (M.body f) s b s' ∧ Returns M (k b) s' a s'' := by
  simp only [Returns, run_call, Result.andThen_eq_done]
  constructor
  · rintro ⟨n, b, s', called, continued⟩
    cases n with
    | zero => simp [callRun] at called
    | succ n => exact ⟨b, s', ⟨n, called⟩, n + 1, continued⟩
  · rintro ⟨b, s', ⟨n, called⟩, m, continued⟩
    refine ⟨max n m + 1, b, s', ?_, run_done_mono (by omega) continued⟩
    exact run_done_mono (by omega) called

theorem returns_bind {x : Prog Op Fn α} {g : α → Prog Op Fn β} {s s'' : σ} {b : β} :
    Returns M (x >>= g) s b s'' ↔ ∃ a s', Returns M x s a s' ∧ Returns M (g a) s' b s'' := by
  simp only [Returns, run_bind, Result.andThen_eq_done]
  constructor
  · rintro ⟨n, a, s', first, continued⟩
    exact ⟨a, s', ⟨n, first⟩, n, continued⟩
  · rintro ⟨a, s', ⟨n, first⟩, m, continued⟩
    exact ⟨max n m, a, s', run_done_mono (by omega) first, run_done_mono (by omega) continued⟩

/-- A loop returns when its first round does and then either the rest of the loop or the
continuation does. -/
theorem returns_loop {body : γ → Prog Op Fn (γ ⊕ β)} {c : γ} {k : β → Prog Op Fn α}
    {s s'' : σ} {a : α} :
    Returns M (.loop body c k) s a s'' ↔
      ∃ r s', Returns M (body c) s r s' ∧
        match r with
        | .inl c' => Returns M (.loop body c' k) s' a s''
        | .inr b => Returns M (k b) s' a s'' := by
  simp only [Returns, run_loop, Result.andThen_eq_done]
  constructor
  · rintro ⟨n, b, s', looped, continued⟩
    cases n with
    | zero => simp [rounds] at looped
    | succ n =>
        rw [rounds, Result.andThen_eq_done] at looped
        obtain ⟨r, s₁, first, others⟩ := looped
        refine ⟨r, s₁, ⟨n + 1, first⟩, ?_⟩
        cases r with
        | inl c' =>
            exact ⟨n + 1, b, s', rounds_done_mono (by omega) (Nat.le_refl _) others, continued⟩
        | inr b' =>
            cases others
            exact ⟨n + 1, continued⟩
  · rintro ⟨r, s₁, ⟨n, first⟩, others⟩
    cases r with
    | inl c' =>
        obtain ⟨m, b, s', looped, continued⟩ := others
        refine ⟨max n m + 1, b, s', ?_, run_done_mono (by omega) continued⟩
        rw [rounds, run_done_mono (by omega) first, Result.andThen_done]
        exact rounds_done_mono (by omega) (by omega) looped
    | inr b =>
        obtain ⟨m, continued⟩ := others
        refine ⟨max n m + 1, b, s₁, ?_, run_done_mono (by omega) continued⟩
        rw [rounds, run_done_mono (by omega) first, Result.andThen_done]

/-- Induction on the rounds of a returning loop, from the one that leaves. -/
theorem Returns.loop_induction {body : γ → Prog Op Fn (γ ⊕ β)} {k : β → Prog Op Fn α}
    {s'' : σ} {a : α} {motive : γ → σ → Prop}
    (leave : ∀ c s b s', Returns M (body c) s (.inr b) s' → Returns M (k b) s' a s'' → motive c s)
    (next : ∀ c s c' s', Returns M (body c) s (.inl c') s' → Returns M (.loop body c' k) s' a s'' →
      motive c' s' → motive c s)
    {c : γ} {s : σ} (returns : Returns M (.loop body c k) s a s'') : motive c s := by
  rcases returns with ⟨n, runs⟩
  rw [run_loop, Result.andThen_eq_done] at runs
  rcases runs with ⟨b, s', looped, continued⟩
  suffices rest : ∀ m c s, rounds (fun c s => (body c).run M n s) m c s = .done b s' →
      Returns M (.loop body c k) s a s'' ∧ motive c s from (rest n c s looped).2
  intro m
  induction m with
  | zero => simp [rounds]
  | succ m ih =>
      intro c s looped
      rw [rounds, Result.andThen_eq_done] at looped
      rcases looped with ⟨r, s₁, first, others⟩
      cases r with
      | inl c' =>
          have later := ih c' s₁ others
          exact ⟨returns_loop.mpr ⟨.inl c', s₁, ⟨n, first⟩, later.1⟩,
            next c s c' s₁ ⟨n, first⟩ later.1 later.2⟩
      | inr b' =>
          cases others
          exact ⟨returns_loop.mpr ⟨.inr b, s', ⟨n, first⟩, n, continued⟩,
            leave c s b s' ⟨n, first⟩ ⟨n, continued⟩⟩

/-- A returning loop keeps what its rounds keep, up to the round that leaves. -/
theorem Returns.loop_leaves {body : γ → Prog Op Fn (γ ⊕ β)} {c : γ} {k : β → Prog Op Fn α}
    {s s'' : σ} {a : α} (inv : γ → σ → Prop)
    (round : ∀ c s c' s', inv c s → Returns M (body c) s (.inl c') s' → inv c' s')
    (start : inv c s) (returns : Returns M (.loop body c k) s a s'') :
    ∃ c₁ s₁ b s₂, inv c₁ s₁ ∧ Returns M (body c₁) s₁ (.inr b) s₂ ∧ Returns M (k b) s₂ a s'' := by
  apply returns.loop_induction (motive := fun c s => inv c s → ∃ c₁ s₁ b s₂, inv c₁ s₁ ∧
    Returns M (body c₁) s₁ (.inr b) s₂ ∧ Returns M (k b) s₂ a s'') _ _ start
  · intro c s b s' last continued holds
    exact ⟨c, s, b, s', holds, last, continued⟩
  · intro c s c' s' first _ ih holds
    exact ih (round c s c' s' holds first)

theorem returns_whileDo {cond : Prog Op Fn Bool} {body : Prog Op Fn Unit} {s s'' : σ} :
    Returns M (Prog.whileDo cond body) s () s'' ↔
      ∃ b s', Returns M cond s b s' ∧
        if b then ∃ s₁, Returns M body s' () s₁ ∧ Returns M (Prog.whileDo cond body) s₁ () s''
        else s' = s'' := by
  rw [Prog.whileDo, returns_loop]
  constructor
  · rintro ⟨r, s', round, others⟩
    obtain ⟨b, s₁, first, rest⟩ := returns_bind.mp round
    refine ⟨b, s₁, first, ?_⟩
    cases b with
    | true =>
        obtain ⟨_, s₂, second, last⟩ := returns_bind.mp rest
        obtain ⟨rfl, rfl⟩ := returns_pure.mp last
        exact ⟨s₂, second, others⟩
    | false =>
        obtain ⟨rfl, rfl⟩ := returns_pure.mp rest
        exact (returns_pure.mp others).2
  · rintro ⟨b, s', first, rest⟩
    cases b with
    | true =>
        obtain ⟨s₁, second, others⟩ := rest
        exact ⟨.inl (), s₁, returns_bind.mpr ⟨true, s', first,
          returns_bind.mpr ⟨(), s₁, second, returns_pure.mpr ⟨rfl, rfl⟩⟩⟩, others⟩
    | false =>
        obtain rfl : s' = s'' := rest
        exact ⟨.inr (), s', returns_bind.mpr ⟨false, s', first, returns_pure.mpr ⟨rfl, rfl⟩⟩,
          returns_pure.mpr ⟨rfl, rfl⟩⟩

/-! ### Total correctness -/

/-- A finished result that satisfies `post`, or an abort for a reason that `bad` admits. -/
def Result.Sat (post : α → σ → Prop) (bad : ε → Prop) : Result ε σ α → Prop
  | .done a s => post a s
  | .panic e => bad e
  | .running => False

theorem Result.sat_andThen {r : Result ε σ α} {g : α → σ → Result ε σ β} {post : β → σ → Prop}
    {bad : ε → Prop} :
    (r.andThen g).Sat post bad ↔ r.Sat (fun a s => (g a s).Sat post bad) bad := by
  cases r <;> rfl

theorem Result.Sat.mono {r : Result ε σ α} {post post' : α → σ → Prop} {bad bad' : ε → Prop}
    (sat : r.Sat post bad) (weaker : ∀ a s, post a s → post' a s) (worse : ∀ e, bad e → bad' e) :
    r.Sat post' bad' := by
  cases r with
  | done a s => exact weaker a s sat
  | panic e => exact worse e sat
  | running => exact sat

theorem Result.Sat.of_le {r r' : Result ε σ α} {post : α → σ → Prop} {bad : ε → Prop}
    (sat : r.Sat post bad) (le : r.Le r') : r'.Sat post bad := by
  rw [le]
  · exact sat
  · intro running
    rw [running] at sat
    exact sat

/-- From `s` the program `x` returns a value and a state that satisfy `post`, or aborts for a
reason that `bad` admits. -/
def Wp (M : Machine Op Fn ε σ) (bad : ε → Prop) (x : Prog Op Fn α) (post : α → σ → Prop)
    (s : σ) : Prop :=
  ∃ n, (x.run M n s).Sat post bad

variable {bad : ε → Prop}

theorem wp_of_le {x : Prog Op Fn α} {post : α → σ → Prop} {s : σ} {n m : Nat} (le : n ≤ m)
    (sat : (x.run M n s).Sat post bad) : (x.run M m s).Sat post bad :=
  sat.of_le (run_le M le x s)

theorem Returns.wp {x : Prog Op Fn α} {post : α → σ → Prop} {s s' : σ} {a : α}
    (returns : Returns M x s a s') (ends : post a s') : Wp M bad x post s := by
  rcases returns with ⟨n, runs⟩
  exact ⟨n, by rw [runs]; exact ends⟩

@[simp] theorem wp_pure {a : α} {post : α → σ → Prop} {s : σ} :
    Wp M bad (Prog.pure a) post s ↔ post a s := by
  simp [Wp, run_pure, Result.Sat]

@[simp] theorem wp_pure' {a : α} {post : α → σ → Prop} {s : σ} :
    Wp M bad (Pure.pure a) post s ↔ post a s :=
  wp_pure

theorem wp_op {o : Op β} {k : β → Prog Op Fn α} {post : α → σ → Prop} {s s' : σ} {b : β}
    (steps : M.exec o s = .ok (b, s')) :
    Wp M bad (.op o k) post s ↔ Wp M bad (k b) post s' := by
  simp [Wp, run_op, step_eq_done.mpr steps]

theorem wp_op_error {o : Op β} {k : β → Prog Op Fn α} {post : α → σ → Prop} {s : σ} {e : ε}
    (aborts : M.exec o s = .error e) : Wp M bad (.op o k) post s ↔ bad e := by
  have panics : M.step o s = .panic e := by simp [Machine.step, aborts]
  simp [Wp, run_op, panics, Result.Sat]

theorem wp_perform {o : Op β} {k : β → Prog Op Fn α} {post : α → σ → Prop} {s s' : σ} {b : β}
    (steps : M.exec o s = .ok (b, s')) :
    Wp M bad (Prog.perform o >>= k) post s ↔ Wp M bad (k b) post s' :=
  wp_op steps

theorem wp_bind {x : Prog Op Fn α} {g : α → Prog Op Fn β} {post : β → σ → Prop} {s : σ} :
    Wp M bad (x >>= g) post s ↔ Wp M bad x (fun a s' => Wp M bad (g a) post s') s := by
  simp only [Wp, run_bind, Result.sat_andThen]
  constructor
  · intro ⟨n, sat⟩
    exact ⟨n, sat.mono (fun a s' ends => ⟨n, ends⟩) fun _ => id⟩
  · intro ⟨n, sat⟩
    cases first : x.run M n s with
    | running =>
        rw [first] at sat
        exact sat.elim
    | panic e =>
        rw [first] at sat
        exact ⟨n, by rw [first]; exact sat⟩
    | done a s' =>
        rw [first] at sat
        rcases sat with ⟨m, ends⟩
        refine ⟨max n m, ?_⟩
        rw [run_done_mono (by omega) first]
        exact wp_of_le (by omega) ends

theorem wp_ite {c : Prop} [Decidable c] {x y : Prog Op Fn α} {post : α → σ → Prop} {s : σ} :
    Wp M bad (if c then x else y) post s ↔
      if c then Wp M bad x post s else Wp M bad y post s := by
  split <;> rfl

theorem Wp.mono {x : Prog Op Fn α} {post post' : α → σ → Prop} {s : σ}
    (holds : Wp M bad x post s) (weaker : ∀ a s', post a s' → post' a s') :
    Wp M bad x post' s := by
  rcases holds with ⟨n, sat⟩
  exact ⟨n, sat.mono weaker fun _ => id⟩

theorem Wp.mono_bad {bad' : ε → Prop} {x : Prog Op Fn α} {post : α → σ → Prop} {s : σ}
    (holds : Wp M bad x post s) (worse : ∀ e, bad e → bad' e) : Wp M bad' x post s := by
  rcases holds with ⟨n, sat⟩
  exact ⟨n, sat.mono (fun _ _ => id) worse⟩

theorem Wp.halts {x : Prog Op Fn α} {post : α → σ → Prop} {s : σ} (holds : Wp M bad x post s) :
    Halts M x s := by
  rcases holds with ⟨n, sat⟩
  refine ⟨n, fun running => ?_⟩
  rw [running] at sat
  exact sat

/-- What is known of one return is known of every return. -/
theorem Wp.of_returns {x : Prog Op Fn α} {post : α → σ → Prop} {s s' : σ} {a : α}
    (holds : Wp M bad x post s) (returns : Returns M x s a s') : post a s' := by
  rcases holds with ⟨n, sat⟩
  rcases returns with ⟨m, runs⟩
  have both := wp_of_le (Nat.le_max_left n m) sat
  rw [run_done_mono (Nat.le_max_right n m) runs] at both
  exact both

/-- What is known of one abort is known of every abort. -/
theorem Wp.of_panics {x : Prog Op Fn α} {post : α → σ → Prop} {s : σ} {e : ε}
    (holds : Wp M bad x post s) (panics : Panics M x s e) : bad e := by
  rcases holds with ⟨n, sat⟩
  rcases panics with ⟨m, runs⟩
  have finished : x.run M n s ≠ .running := by
    intro running
    rw [running] at sat
    exact sat
  rw [run_unique finished (by rw [runs]; simp), runs] at sat
  exact sat

/-- The postcondition may speak of the return itself. -/
theorem Wp.with_returns {x : Prog Op Fn α} {post : α → σ → Prop} {s : σ}
    (holds : Wp M bad x post s) :
    Wp M bad x (fun a s' => Returns M x s a s' ∧ post a s') s := by
  rcases holds with ⟨n, sat⟩
  refine ⟨n, ?_⟩
  cases runs : x.run M n s with
  | running =>
      rw [runs] at sat
      exact sat
  | done a s' =>
      rw [runs] at sat
      exact ⟨⟨n, runs⟩, sat⟩
  | panic e =>
      rw [runs] at sat
      exact sat

/-- The two ways a program with a precondition can end. -/
theorem Wp.ends {x : Prog Op Fn α} {post : α → σ → Prop} {s : σ} (holds : Wp M bad x post s) :
    (∃ a s', Returns M x s a s' ∧ post a s') ∨ ∃ e, Panics M x s e ∧ bad e := by
  rcases holds with ⟨n, sat⟩
  cases runs : x.run M n s with
  | running =>
      rw [runs] at sat
      exact sat.elim
  | done a s' =>
      rw [runs] at sat
      exact .inl ⟨a, s', ⟨n, runs⟩, sat⟩
  | panic e =>
      rw [runs] at sat
      exact .inr ⟨e, ⟨n, runs⟩, sat⟩

theorem Wp.and {x : Prog Op Fn α} {post post' : α → σ → Prop} {s : σ}
    (holds : Wp M bad x post s) (holds' : Wp M bad x post' s) :
    Wp M bad x (fun a s' => post a s' ∧ post' a s') s := by
  rcases holds with ⟨n, sat⟩
  rcases holds' with ⟨m, sat'⟩
  have one := wp_of_le (Nat.le_max_left n m) sat
  have two := wp_of_le (Nat.le_max_right n m) sat'
  refine ⟨max n m, ?_⟩
  cases runs : x.run M (max n m) s with
  | running =>
      rw [runs] at one
      exact one
  | done a s' =>
      rw [runs] at one two
      exact ⟨one, two⟩
  | panic e =>
      rw [runs] at one
      exact one

/-- One round of a loop, then the rest of it. -/
theorem wp_loop {body : γ → Prog Op Fn (γ ⊕ β)} {c : γ} {k : β → Prog Op Fn α}
    {post : α → σ → Prop} {s : σ} (round : Wp M bad (body c) (fun r s' =>
      match r with
      | .inl c' => Wp M bad (.loop body c' k) post s'
      | .inr b => Wp M bad (k b) post s') s) :
    Wp M bad (.loop body c k) post s := by
  rcases round with ⟨n, sat⟩
  cases first : (body c).run M n s with
  | running =>
      rw [first] at sat
      exact sat.elim
  | panic e =>
      rw [first] at sat
      refine ⟨n + 1, ?_⟩
      have later : (body c).run M (n + 1) s = .panic e := by
        rw [← first]
        exact run_le M (Nat.le_succ n) _ _ (by simp [first])
      rw [run_loop, rounds, later]
      exact sat
  | done r s' =>
      rw [first] at sat
      cases r with
      | inl c' =>
          rcases sat with ⟨m, ends⟩
          refine ⟨max n m + 1, ?_⟩
          rw [run_loop, rounds, run_done_mono (by omega) first, Result.andThen_done]
          have others := wp_of_le (show m ≤ max n m + 1 by omega) ends
          have fewer : (Result.andThen (rounds (fun c s => (body c).run M m s) m c' s')
              fun b s' => (k b).run M m s').Sat post bad := by
            rw [← run_loop]
            exact ends
          refine fewer.of_le (Result.Le.andThen ?_ fun b s' => run_le M (by omega) (k b) s')
          exact rounds_le (fun c s => run_le M (by omega) (body c) s) (by omega) c' s'
      | inr b =>
          rcases sat with ⟨m, ends⟩
          refine ⟨max n m + 1, ?_⟩
          rw [run_loop, rounds, run_done_mono (by omega) first, Result.andThen_done,
            Result.andThen_done]
          exact wp_of_le (by omega) ends

/-- The loop rule: each round keeps the invariant and lowers the variant, or leaves with the
postcondition. -/
theorem Wp.loop {body : γ → Prog Op Fn (γ ⊕ β)} {k : β → Prog Op Fn α} {post : α → σ → Prop}
    (inv : γ → σ → Prop) (variant : γ → σ → Nat)
    (round : ∀ c s, inv c s → Wp M bad (body c) (fun r s' =>
      match r with
      | .inl c' => inv c' s' ∧ variant c' s' < variant c s
      | .inr b => Wp M bad (k b) post s') s)
    {c : γ} {s : σ} (start : inv c s) : Wp M bad (.loop body c k) post s := by
  generalize measured : variant c s = n
  induction n using Nat.strongRecOn generalizing c s with
  | ind n ih =>
      apply wp_loop
      apply (round c s start).mono
      intro r s' kept
      cases r with
      | inl c' => exact ih _ (measured ▸ kept.2) kept.1 rfl
      | inr b => exact kept

/-- The rule for `while`: the condition reads the state, the body lowers the variant. -/
theorem Wp.whileDo {cond : Prog Op Fn Bool} {body : Prog Op Fn Unit} {post : Unit → σ → Prop}
    (inv : σ → Prop) (variant : σ → Nat)
    (round : ∀ s, inv s → Wp M bad cond (fun b s' =>
      if b then Wp M bad body (fun _ s'' => inv s'' ∧ variant s'' < variant s) s'
      else post () s') s)
    {s : σ} (start : inv s) : Wp M bad (Prog.whileDo cond body) post s := by
  apply Wp.loop (fun _ => inv) (fun _ => variant) _ start
  intro _ s holds
  apply wp_bind.mpr
  apply (round s holds).mono
  intro b s' kept
  cases b with
  | false => simpa using kept
  | true => exact wp_bind.mpr (kept.mono fun _ s'' lower => by simpa using lower)

/-! ### Divergence -/

/-- A loop whose rounds all return to the invariant returns nothing. -/
theorem Diverges.of_invariant {body : γ → Prog Op Fn (γ ⊕ β)} {k : β → Prog Op Fn α}
    (inv : γ → σ → Prop)
    (round : ∀ c s, inv c s → ∃ c' s', Returns M (body c) s (.inl c') s' ∧ inv c' s')
    {c : γ} {s : σ} (start : inv c s) : Diverges M (.loop body c k) s := by
  have spins : ∀ n m c s, inv c s →
      rounds (fun c s => (body c).run M m s) n c s = .running := by
    intro n
    induction n with
    | zero => exact fun _ _ _ _ => rfl
    | succ n ih =>
        intro m c s holds
        obtain ⟨c', s', ⟨fuel, runs⟩, again⟩ := round c s holds
        rw [rounds]
        cases short : (body c).run M m s with
        | running => rfl
        | done r s₁ =>
            have same := run_unique (M := M) (x := body c) (s := s) (n := m) (m := fuel)
              (by simp [short]) (by simp [runs])
            rw [short, runs] at same
            cases same
            exact ih m c' s' again
        | panic e =>
            have same := run_unique (M := M) (x := body c) (s := s) (n := m) (m := fuel)
              (by simp [short]) (by simp [runs])
            rw [short, runs] at same
            cases same
  intro n
  rw [run_loop, spins n n c s start, Result.andThen_running]

theorem Diverges.bind_left {x : Prog Op Fn α} {g : α → Prog Op Fn β} {s : σ}
    (diverges : Diverges M x s) : Diverges M (x >>= g) s := by
  intro n
  rw [run_bind, diverges n, Result.andThen_running]

theorem Diverges.bind_right {x : Prog Op Fn α} {g : α → Prog Op Fn β} {s s' : σ} {a : α}
    (first : Returns M x s a s') (diverges : Diverges M (g a) s') : Diverges M (x >>= g) s := by
  intro n
  rw [run_bind]
  cases short : x.run M n s with
  | running => rfl
  | done b s₁ =>
      obtain ⟨rfl, rfl⟩ := first.unique ⟨n, short⟩
      exact diverges n
  | panic e => exact absurd ⟨n, short⟩ first.not_panics

theorem Diverges.not_halts {x : Prog Op Fn α} {s : σ} (diverges : Diverges M x s) :
    ¬ Halts M x s :=
  fun halts => halts_iff_not_diverges.mp halts diverges

theorem Halts.bind_left {x : Prog Op Fn α} {g : α → Prog Op Fn β} {s : σ}
    (halts : Halts M (x >>= g) s) : Halts M x s :=
  halts_iff_not_diverges.mpr fun diverges => diverges.bind_left.not_halts halts

theorem Halts.bind_right {x : Prog Op Fn α} {g : α → Prog Op Fn β} {s s' : σ} {a : α}
    (halts : Halts M (x >>= g) s) (first : Returns M x s a s') : Halts M (g a) s' :=
  halts_iff_not_diverges.mpr fun diverges => (Diverges.bind_right first diverges).not_halts halts

/-- A loop diverges when the rest of it does after a round that asks for another one. -/
theorem Diverges.loop_prepend {body : γ → Prog Op Fn (γ ⊕ β)} {c c' : γ} {k : β → Prog Op Fn α}
    {s s' : σ} (round : Returns M (body c) s (.inl c') s')
    (diverges : Diverges M (.loop body c' k) s') : Diverges M (.loop body c k) s := by
  intro n
  rw [run_loop]
  cases n with
  | zero => rfl
  | succ n =>
      rw [rounds]
      cases short : (body c).run M (n + 1) s with
      | running => rfl
      | panic e => exact absurd ⟨n + 1, short⟩ round.not_panics
      | done r s₁ =>
          rcases round.unique ⟨n + 1, short⟩ with ⟨same, rfl⟩
          cases same
          have later := diverges (n + 1)
          rw [run_loop] at later
          by_contra finished
          have fewer := Result.Le.andThen
            (rounds_le (fun c s => Result.Le.refl ((body c).run M (n + 1) s)) (Nat.le_succ n) c' s')
            (fun b s => Result.Le.refl ((k b).run M (n + 1) s))
          exact finished ((fewer finished).symm.trans later)

/-- When a loop halts and a round of it asks for another one, the rest of it halts. -/
theorem Halts.loop_next {body : γ → Prog Op Fn (γ ⊕ β)} {c c' : γ} {k : β → Prog Op Fn α}
    {s s' : σ} (halts : Halts M (.loop body c k) s) (round : Returns M (body c) s (.inl c') s') :
    Halts M (.loop body c' k) s' :=
  halts_iff_not_diverges.mpr fun diverges =>
    (Diverges.loop_prepend round diverges).not_halts halts

/-! ### Loops whose condition reads the state -/

section Heads

variable {cond : Prog Op Fn Bool} {p : σ → Bool} {body : Prog Op Fn Unit} {start : σ → Prop}

/-- The states a `while` comes to at its head, when its condition is `p`. -/
inductive Heads (M : Machine Op Fn ε σ) (p : σ → Bool) (body : Prog Op Fn Unit)
    (start : σ → Prop) : σ → Prop where
  | first {s : σ} (starts : start s) : Heads M p body start s
  | next {s s' : σ} (head : Heads M p body start s) (goes : p s = true)
      (step : Returns M body s () s') : Heads M p body start s'

variable (reads : ∀ s, Returns M cond s (p s) s)

include reads

theorem returns_whileReads {s s'' : σ} :
    Returns M (Prog.whileDo cond body) s () s'' ↔
      if p s then ∃ s', Returns M body s () s' ∧ Returns M (Prog.whileDo cond body) s' () s''
      else s = s'' := by
  rw [returns_whileDo]
  constructor
  · intro ⟨b, s', read, rest⟩
    rcases read.unique (reads s) with ⟨rfl, rfl⟩
    exact rest
  · intro rest
    exact ⟨p s, s, reads s, rest⟩

/-- A returning loop ends at a head where its condition fails, and keeps what its steps keep. -/
theorem Heads.ends {s s' : σ} (inv : σ → Prop)
    (step : ∀ s s', Heads M p body start s → p s = true → inv s → Returns M body s () s' → inv s')
    (head : Heads M p body start s) (holds : inv s)
    (returns : Returns M (Prog.whileDo cond body) s () s') :
    Heads M p body start s' ∧ p s' = false ∧ inv s' := by
  rcases returns.loop_leaves (fun _ s => Heads M p body start s ∧ inv s) (by
      intro _ s _ s' ⟨head, holds⟩ round
      rcases returns_bind.mp round with ⟨b, s₁, read, rest⟩
      rcases read.unique (reads s) with ⟨rfl, rfl⟩
      cases goes : p s₁ with
      | false =>
          rw [goes] at rest
          simpa using (returns_pure.mp rest).1
      | true =>
          rw [goes] at rest
          rcases returns_bind.mp rest with ⟨_, s₂, stepped, last⟩
          rcases returns_pure.mp last with ⟨-, rfl⟩
          exact ⟨head.next goes stepped, step s₁ s₂ head goes holds stepped⟩)
    ⟨head, holds⟩ with ⟨_, s₁, _, s₂, ⟨head', holds'⟩, last, ends⟩
  rcases returns_pure.mp ends with ⟨-, rfl⟩
  rcases returns_bind.mp last with ⟨b, s₃, read, rest⟩
  rcases read.unique (reads s₁) with ⟨rfl, rfl⟩
  cases goes : p s₃ with
  | false =>
      rw [goes] at rest
      rcases returns_pure.mp rest with ⟨-, rfl⟩
      exact ⟨head', goes, holds'⟩
  | true =>
      rw [goes] at rest
      rcases returns_bind.mp rest with ⟨_, s₄, _, last'⟩
      simpa using (returns_pure.mp last').1

/-- A loop that returns passes through every head. -/
theorem Heads.returns {s first last : σ} (head : Heads M p body (· = first) s)
    (loop : Returns M (Prog.whileDo cond body) first () last) :
    Returns M (Prog.whileDo cond body) s () last := by
  induction head with
  | first starts => exact starts ▸ loop
  | next head goes step ih =>
      have later := (returns_whileReads reads).mp ih
      rw [goes] at later
      rcases later with ⟨s₁, step', others⟩
      rcases step'.unique step with ⟨-, rfl⟩
      exact others

end Heads

end Imperative
