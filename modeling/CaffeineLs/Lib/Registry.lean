/-
Module: CaffeineLs.Lib.Registry
Purpose: Computations that may fail, thread a table that only grows and record the references they
  hand out into it, with the rules for what a run grows and asks for.
Trusted boundary: none
Main exports: Registry, Registry.Registered, Registry.Gives
-/

namespace Registry

/-- What a run leaves: a value, the references handed out in order, and the table after it. -/
structure Registered (κ ρ α : Type) where
  value : α
  references : List ρ
  table : κ

end Registry

/-- A computation over a table of type `κ` that hands out references of type `ρ`. -/
def Registry (ε κ ρ α : Type) : Type := κ → Except ε (Registry.Registered κ ρ α)

namespace Registry

variable {ε κ ρ ν α β : Type}

/-- One computation after another: the second starts from the table the first leaves. -/
def andThen (first : Registry ε κ ρ α) (next : α → Registry ε κ ρ β) : Registry ε κ ρ β :=
  fun table =>
    match first table with
    | .error fault => .error fault
    | .ok one =>
      match next one.value one.table with
      | .error fault => .error fault
      | .ok two => .ok { two with references := one.references ++ two.references }

instance : Monad (Registry ε κ ρ) where
  pure value := fun table => .ok { value := value, references := [], table := table }
  bind := andThen

def fail (fault : ε) : Registry ε κ ρ α := fun _ => .error fault

/-- A computation that does not look at the table. -/
def lift (result : Except ε α) : Registry ε κ ρ α := fun table =>
  result.map fun value => { value := value, references := [], table := table }

/-- A computation that looks at the table and leaves it as it is. -/
def inspect (look : κ → Except ε α) : Registry ε κ ρ α := fun table => lift (look table) table

/-- A change of the table that hands nothing out. -/
def change (update : κ → α × κ) : Registry ε κ ρ α := fun table =>
  .ok { value := (update table).1, references := [], table := (update table).2 }

/-- A change of the table whose result is handed out, as `record` says of the table before. -/
def refer (update : κ → α × κ) (record : κ → ρ) : Registry ε κ ρ α := fun table =>
  .ok { value := (update table).1, references := [record table], table := (update table).2 }

theorem bind_eq_ok {first : Registry ε κ ρ α} {next : α → Registry ε κ ρ β} {table : κ}
    {run : Registered κ ρ β} (ran : (first >>= next) table = .ok run) :
    ∃ one two, first table = .ok one ∧ next one.value one.table = .ok two ∧
      run = { two with references := one.references ++ two.references } := by
  change andThen first next table = .ok run at ran
  unfold andThen at ran
  cases firstRan : first table with
  | error fault =>
      simp [firstRan] at ran
  | ok one =>
      cases nextRan : next one.value one.table with
      | error fault =>
          simp [firstRan, nextRan] at ran
      | ok two =>
          simp only [firstRan, nextRan, Except.ok.injEq] at ran
          exact ⟨one, two, rfl, nextRan, ran.symm⟩

/-- What a table may become, and what a reference handed out between two tables satisfies. -/
structure Discipline (κ ρ : Type) where
  grows : κ → κ → Prop
  sound : κ → ρ → κ → Prop
  refl : ∀ table, grows table table
  trans : ∀ {one two three}, grows one two → grows two three → grows one three
  widen : ∀ {one two three four reference},
    grows one two → sound two reference three → grows three four → sound one reference four

/-- Every run grows the table, hands out sound references only, and among them asks for exactly
`wanted`, in order. -/
def Gives (d : Discipline κ ρ) (asked : ρ → Option ν) (m : Registry ε κ ρ α) (wanted : List ν) :
    Prop :=
  ∀ table run, m table = .ok run →
    d.grows table run.table ∧ (∀ reference ∈ run.references, d.sound table reference run.table) ∧
      run.references.filterMap asked = wanted

section Rules

variable {d : Discipline κ ρ} {asked : ρ → Option ν}

theorem gives_pure (value : α) : Gives d asked (pure value : Registry ε κ ρ α) [] := by
  intro table run ran
  obtain rfl := Except.ok.inj ran
  exact ⟨d.refl table, nofun, rfl⟩

theorem gives_fail (fault : ε) (wanted : List ν) :
    Gives d asked (fail fault : Registry ε κ ρ α) wanted :=
  nofun

theorem gives_bind {m : Registry ε κ ρ α} {next : α → Registry ε κ ρ β} {first second : List ν}
    (one : Gives d asked m first) (two : ∀ value, Gives d asked (next value) second) :
    Gives d asked (m >>= next) (first ++ second) := by
  intro table run ran
  obtain ⟨before, after, firstRan, nextRan, rfl⟩ := bind_eq_ok ran
  obtain ⟨grewFirst, soundFirst, askedFirst⟩ := one table before firstRan
  obtain ⟨grewNext, soundNext, askedNext⟩ := two before.value before.table after nextRan
  have asked_both : (before.references ++ after.references).filterMap asked = first ++ second := by
    rw [List.filterMap_append, askedFirst, askedNext]
  refine ⟨d.trans grewFirst grewNext, ?_, asked_both⟩
  intro reference member
  rcases List.mem_append.mp member with early | late
  · exact d.widen (d.refl table) (soundFirst reference early) grewNext
  · exact d.widen grewFirst (soundNext reference late) (d.refl after.table)

theorem gives_lift (result : Except ε α) : Gives d asked (lift result) [] := by
  intro table run ran
  cases result with
  | error fault => cases ran
  | ok value =>
      obtain rfl := Except.ok.inj ran
      exact ⟨d.refl table, nofun, rfl⟩

/-- What follows a result may rely on it. -/
theorem gives_lift_bind {result : Except ε α} {next : α → Registry ε κ ρ β} {wanted : List ν}
    (two : ∀ value, result = .ok value → Gives d asked (next value) wanted) :
    Gives d asked (lift result >>= next) wanted := by
  intro table run ran
  obtain ⟨before, after, firstRan, nextRan, rfl⟩ := bind_eq_ok ran
  cases known : result with
  | error fault =>
      rw [known] at firstRan
      cases firstRan
  | ok value =>
      rw [known] at firstRan
      obtain rfl := Except.ok.inj firstRan
      exact two value known table after nextRan

theorem gives_inspect (look : κ → Except ε α) : Gives d asked (inspect look) [] := by
  intro table run ran
  exact gives_lift (look table) table run ran

theorem gives_change {update : κ → α × κ} (grows : ∀ table, d.grows table (update table).2) :
    Gives d asked (change update : Registry ε κ ρ α) [] := by
  intro table run ran
  obtain rfl := Except.ok.inj ran
  exact ⟨grows table, nofun, rfl⟩

theorem gives_refer {update : κ → α × κ} {record : κ → ρ} {wanted : List ν}
    (grows : ∀ table, d.grows table (update table).2)
    (sound : ∀ table, d.sound table (record table) (update table).2)
    (asks : ∀ table, (asked (record table)).toList = wanted) :
    Gives d asked (refer update record : Registry ε κ ρ α) wanted := by
  intro table run ran
  obtain rfl := Except.ok.inj ran
  have each : ∀ reference ∈ [record table], d.sound table reference (update table).2 := by
    intro reference member
    obtain rfl := List.mem_singleton.mp member
    exact sound table
  have all : [record table].filterMap asked = wanted := by
    rw [← asks table]
    cases seen : asked (record table) <;> simp [seen]
  exact ⟨grows table, each, all⟩

theorem gives_of_eq {m : Registry ε κ ρ α} {wanted other : List ν} (gives : Gives d asked m wanted)
    (same : wanted = other) : Gives d asked m other := by
  rw [← same]
  exact gives

end Rules

end Registry
