/-
Module: CaffeineLs.Proofs.ModuleReadability
Purpose: What a module reads and sees: the loop over the requirements finds the readable modules, and
  a package is visible where an owner exports it. The unnamed module asks the owners as well where
  the package is one of its own.
Trusted boundary: none
Main exports: Requires, Readable, visibility_iff
-/
import CaffeineLs.Hir.Modules

namespace CaffeineLs.Hir

open HashTable Worklist

variable {N : Type} [DecidableEq N] {workspace : WorkspaceModuleGraph N} {javaBase start : N}

/-! ### Readability -/

/-- One module requires another, with any modifiers. -/
def Requires (workspace : WorkspaceModuleGraph N) (name target : N) : Prop :=
  ∃ descriptor, workspace.modules.get name = some descriptor ∧
    ∃ require ∈ descriptor.stub.requires, require.moduleName = target

/-- One module requires another transitively. -/
def RequiresTransitively (workspace : WorkspaceModuleGraph N) (name target : N) : Prop :=
  ∃ descriptor, workspace.modules.get name = some descriptor ∧
    ∃ require ∈ descriptor.stub.requires,
      require.flags &&& accTransitive ≠ 0 ∧ require.moduleName = target

/-- The module reads itself and `java.base`, what it requires, and what these require transitively. -/
def Readable (workspace : WorkspaceModuleGraph N) (javaBase start name : N) : Prop :=
  name = start ∨ name = javaBase ∨
    (∃ target, Requires workspace start target ∧
      Relation.ReflTransGen (RequiresTransitively workspace) target name) ∨
    Relation.ReflTransGen (RequiresTransitively workspace) javaBase name

theorem RequiresTransitively.requires {name target : N}
    (requires : RequiresTransitively workspace name target) : Requires workspace name target := by
  obtain ⟨descriptor, held, require, listed, -, same⟩ := requires
  exact ⟨descriptor, held, require, listed, same⟩

theorem mem_pushedBy {current target : N} :
    target ∈ pushedBy workspace start current ↔
      current = start ∧ Requires workspace current target ∨
        RequiresTransitively workspace current target := by
  unfold pushedBy Requires RequiresTransitively
  cases held : workspace.modules.get current with
  | none => simp
  | some descriptor =>
      simp only [List.mem_reverse, List.mem_map, List.mem_filter, Bool.or_eq_true,
        decide_eq_true_eq, Option.some.injEq, exists_eq_left']
      constructor
      · rintro ⟨require, ⟨listed, here | transitive⟩, same⟩
        · exact .inl ⟨here, require, listed, same⟩
        · exact .inr ⟨require, listed, transitive, same⟩
      · rintro (⟨here, require, listed, same⟩ | ⟨require, listed, transitive, same⟩)
        · exact ⟨require, ⟨listed, .inl here⟩, same⟩
        · exact ⟨require, ⟨listed, .inr transitive⟩, same⟩

/-- What a readable module pushes is readable. -/
theorem Readable.pushed {name target : N} (readable : Readable workspace javaBase start name)
    (pushed : target ∈ pushedBy workspace start name) :
    Readable workspace javaBase start target := by
  rcases mem_pushedBy.mp pushed with ⟨rfl, requires⟩ | transitive
  · exact .inr (.inr (.inl ⟨target, requires, .refl⟩))
  · rcases readable with rfl | rfl | ⟨first, requires, chain⟩ | chain
    · exact .inr (.inr (.inl ⟨target, transitive.requires, .refl⟩))
    · exact .inr (.inr (.inr (.single transitive)))
    · exact .inr (.inr (.inl ⟨first, requires, chain.tail transitive⟩))
    · exact .inr (.inr (.inr (chain.tail transitive)))

/-- A set with the start and `java.base` that has what its modules push has all that is readable. -/
theorem Readable.mem {found : N → Prop} (here : found start) (base : found javaBase)
    (closed : ∀ name, found name → ∀ target ∈ pushedBy workspace start name, found target)
    {name : N} (readable : Readable workspace javaBase start name) : found name := by
  have along {first last : N} (chain : Relation.ReflTransGen (RequiresTransitively workspace) first last)
      (there : found first) : found last := by
    induction chain with
    | refl => exact there
    | tail _ transitive ih => exact closed _ ih _ (mem_pushedBy.mpr (.inr transitive))
  rcases readable with rfl | rfl | ⟨first, requires, chain⟩ | chain
  · exact here
  · exact base
  · exact along chain (closed _ here _ (mem_pushedBy.mpr (.inl ⟨rfl, requires⟩)))
  · exact along chain base

/-! ### The loop -/

/-- What is found or waits is readable, the start and `java.base` are, and what a module found pushes is
found or waits. -/
structure Reading (workspace : WorkspaceModuleGraph N) (javaBase start : N) (s : Readability N) :
    Prop where
  sound : ∀ name, name ∈ s.readable ∨ name ∈ s.queue → Readable workspace javaBase start name
  self : start ∈ s.readable ∨ start ∈ s.queue
  base : javaBase ∈ s.readable ∨ javaBase ∈ s.queue
  pushed : ∀ name ∈ s.readable, ∀ target ∈ pushedBy workspace start name,
    target ∈ s.readable ∨ target ∈ s.queue

omit [DecidableEq N] in
theorem popModule_eq {s rest : Readability N} {current : N}
    (popped : popModule s = some (current, rest)) :
    s.queue = current :: rest.queue ∧ rest.readable = s.readable := by
  unfold popModule at popped
  split at popped
  · cases popped
  · cases popped
    exact ⟨‹_›, rfl⟩

/-- Popping a module and reading it loses nothing. -/
theorem kept_by_readRound {s rest : Readability N} {current : N}
    (popped : popModule s = some (current, rest)) {name : N}
    (known : name ∈ s.readable ∨ name ∈ s.queue) :
    name ∈ (readRound workspace start current rest).readable ∨
      name ∈ (readRound workspace start current rest).queue := by
  obtain ⟨queue, readable⟩ := popModule_eq popped
  rw [queue, ← readable, List.mem_cons] at known
  unfold readRound
  split
  · rename_i old
    rcases known with found | rfl | waits
    · exact .inl found
    · exact .inl old
    · exact .inr waits
  · rcases known with found | rfl | waits
    · exact .inl (List.mem_cons_of_mem _ found)
    · exact .inl List.mem_cons_self
    · exact .inr (List.mem_append_right _ waits)

theorem Reading.round {s rest : Readability N} {current : N}
    (reading : Reading workspace javaBase start s) (popped : popModule s = some (current, rest)) :
    Reading workspace javaBase start (readRound workspace start current rest) := by
  obtain ⟨queue, readable⟩ := popModule_eq popped
  have currentRead : Readable workspace javaBase start current :=
    reading.sound current (.inr (queue ▸ List.mem_cons_self))
  have old (name : N) (known : name ∈ rest.readable ∨ name ∈ rest.queue) :
      Readable workspace javaBase start name := by
    rw [readable] at known
    apply reading.sound name
    exact known.imp id fun waits => queue ▸ List.mem_cons_of_mem current waits
  refine ⟨?_, kept_by_readRound popped reading.self, kept_by_readRound popped reading.base, ?_⟩
  · intro name known
    unfold readRound at known
    split at known
    · exact old name known
    · rw [List.mem_cons, List.mem_append] at known
      rcases known with (rfl | found) | pushed | waits
      · exact currentRead
      · exact old name (.inl found)
      · exact currentRead.pushed pushed
      · exact old name (.inr waits)
  · intro name found target pushed
    have before (there : name ∈ rest.readable) :
        target ∈ (readRound workspace start current rest).readable ∨
          target ∈ (readRound workspace start current rest).queue :=
      kept_by_readRound popped (reading.pushed name (readable ▸ there) target pushed)
    unfold readRound at found
    split at found
    · exact before found
    · rename_i fresh
      rcases List.mem_cons.mp found with rfl | there
      · right
        rw [readRound, if_neg fresh]
        exact List.mem_append_left _ pushed
      · exact before there

/-! ### The loop ends -/

/-- The requirements of the modules that are not found yet. -/
def unread (entries : List (N × ModuleDescriptor N)) (readable : List N) : Nat :=
  ((entries.filter fun entry => entry.1 ∉ readable).map fun entry =>
    entry.2.stub.requires.length).sum

theorem unread_cons (entry : N × ModuleDescriptor N) (entries : List (N × ModuleDescriptor N))
    (readable : List N) : unread (entry :: entries) readable =
      (if entry.1 ∈ readable then 0 else entry.2.stub.requires.length) + unread entries readable := by
  unfold unread
  by_cases found : entry.1 ∈ readable <;> simp [found]

theorem unread_le (entries : List (N × ModuleDescriptor N)) (readable : List N) (current : N) :
    unread entries (current :: readable) ≤ unread entries readable := by
  induction entries with
  | nil => exact Nat.le_refl _
  | cons entry entries ih =>
      rw [unread_cons, unread_cons]
      by_cases found : entry.1 ∈ readable
      · simpa [found] using ih
      · by_cases here : entry.1 = current
        · simp only [here, List.mem_cons_self, if_true]
          omega
        · simpa [found, here] using ih

/-- Reading a module takes its requirements away. -/
theorem unread_read {entries : List (N × ModuleDescriptor N)} {readable : List N} {current : N}
    {descriptor : ModuleDescriptor N} (listed : (current, descriptor) ∈ entries)
    (fresh : current ∉ readable) :
    unread entries (current :: readable) + descriptor.stub.requires.length ≤
      unread entries readable := by
  induction entries with
  | nil => cases listed
  | cons entry entries ih =>
      rw [unread_cons, unread_cons]
      rcases List.mem_cons.mp listed with rfl | later
      · have fewer := unread_le entries readable current
        simp only [List.mem_cons_self, if_true, fresh, if_false]
        omega
      · have fewer := ih later
        by_cases found : entry.1 ∈ readable
        · simpa [found] using fewer
        · by_cases here : entry.1 = current
          · simp only [here, List.mem_cons_self, if_true]
            omega
          · simp only [List.mem_cons, here, found, or_self, if_false]
            omega

theorem length_pushedBy_le {current : N} {descriptor : ModuleDescriptor N}
    (held : workspace.modules.get current = some descriptor) :
    (pushedBy workspace start current).length ≤ descriptor.stub.requires.length := by
  rw [pushedBy, held]
  simp only [List.length_reverse, List.length_map]
  exact List.length_filter_le _ _

theorem readRound_lowers {s rest : Readability N} {current : N}
    (popped : popModule s = some (current, rest)) :
    (readRound workspace start current rest).queue.length +
        unread workspace.modules.entries (readRound workspace start current rest).readable <
      s.queue.length + unread workspace.modules.entries s.readable := by
  obtain ⟨queue, readable⟩ := popModule_eq popped
  rw [queue, ← readable, List.length_cons]
  unfold readRound
  split
  · omega
  · rename_i fresh
    rw [List.length_append]
    simp only
    cases held : workspace.modules.get current with
    | none =>
        have nothing : pushedBy workspace start current = [] := by rw [pushedBy, held]
        have fewer := unread_le workspace.modules.entries rest.readable current
        rw [nothing, List.length_nil]
        omega
    | some descriptor =>
        have fewer := unread_read (Table.get_eq_some_iff.mp held) fresh
        have pushes : (pushedBy workspace start current).length ≤ descriptor.stub.requires.length :=
          length_pushedBy_le held
        omega

/-- The loop ends with the readable modules. -/
theorem readableModules_eq (workspace : WorkspaceModuleGraph N) (javaBase start : N) :
    ∃ found, readableModules workspace javaBase start = some found ∧
      ∀ name, name ∈ found ↔ Readable workspace javaBase start name := by
  have begin_ : Reading workspace javaBase start ⟨[], [javaBase, start]⟩ := by
    constructor
    · intro name known
      rcases known with none_ | waits
      · cases none_
      · rcases List.mem_cons.mp waits with rfl | last
        · exact .inr (.inl rfl)
        · exact .inl (List.mem_singleton.mp last)
    · exact .inr (List.mem_cons_of_mem _ List.mem_cons_self)
    · exact .inr List.mem_cons_self
    · intro name none_
      cases none_
  have keeps (s : Readability N) (current : N) (rest : Readability N)
      (reading : Reading workspace javaBase start s) (popped : popModule s = some (current, rest)) :
      Reading workspace javaBase start (readRound workspace start current rest) :=
    reading.round popped
  have enough : ([javaBase, start] : List N).length + unread workspace.modules.entries [] <
      readFuel workspace := by
    simp [unread, readFuel]
    omega
  obtain ⟨last, drained⟩ := drain_returns
    (fun s => s.queue.length + unread workspace.modules.entries s.readable) keeps
    (fun s current rest _ popped => readRound_lowers popped) begin_ enough
  refine ⟨last.readable, by rw [readableModules, drained, Option.map_some], ?_⟩
  obtain ⟨reading, empty⟩ := drain_keeps keeps begin_ drained
  have noQueue : last.queue = [] := by
    unfold popModule at empty
    split at empty
    · assumption
    · cases empty
  have all (name : N) : name ∈ last.readable ∨ name ∈ last.queue ↔ name ∈ last.readable := by
    simp [noQueue]
  intro name
  constructor
  · exact fun found => reading.sound name (.inl found)
  · intro readable
    exact readable.mem ((all _).mp reading.self) ((all _).mp reading.base)
      fun other found target pushed => (all _).mp (reading.pushed other found target pushed)

/-! ### Visibility -/

/-- A module exports a package to another. -/
def ExportsTo (stub : ModuleStub N) (package reader : N) : Prop :=
  ∃ exported ∈ stub.exports, exported.packageName = package ∧
    (exported.toModules = [] ∨ reader ∈ exported.toModules)

/-- A module exports a package to everyone. -/
def ExportsToAll (stub : ModuleStub N) (package : N) : Prop :=
  ∃ exported ∈ stub.exports, exported.packageName = package ∧ exported.toModules = []

theorem isPackageExported_some {stub : ModuleStub N} {package reader : N} :
    isPackageExported stub package (some reader) = true ↔ ExportsTo stub package reader := by
  unfold isPackageExported ExportsTo
  rw [List.any_eq_true]
  apply exists_congr
  intro exported
  by_cases same : exported.packageName = package
  · by_cases all : exported.toModules = [] <;> simp [same, all]
  · simp [same]

theorem isPackageExported_none {stub : ModuleStub N} {package : N} :
    isPackageExported stub package none = true ↔ ExportsToAll stub package := by
  unfold isPackageExported ExportsToAll
  rw [List.any_eq_true]
  apply exists_congr
  intro exported
  by_cases same : exported.packageName = package
  · by_cases all : exported.toModules = [] <;> simp [same, all]
  · simp [same]

/-- The package is one of the module's own, or its owner is readable and exports it to the module. -/
def VisibleFrom (workspace : WorkspaceModuleGraph N) (javaBase start package : N) : Prop :=
  ∃ owner ∈ workspace.modulesForPackage package, owner.stub.name = start ∨
    Readable workspace javaBase start owner.stub.name ∧ ExportsTo owner.stub package start

theorem isPackageVisible_eq (workspace : WorkspaceModuleGraph N) (javaBase start package : N) :
    ∃ answer, isPackageVisible workspace javaBase start package = some answer ∧
      (answer = true ↔ VisibleFrom workspace javaBase start package) := by
  obtain ⟨found, read, member⟩ := readableModules_eq workspace javaBase start
  refine ⟨_, by rw [isPackageVisible, read, Option.map_some], ?_⟩
  rw [VisibleFrom, List.any_eq_true]
  apply exists_congr
  intro owner
  rw [Bool.or_eq_true, Bool.and_eq_true, decide_eq_true_eq, List.contains_iff_mem, member,
    isPackageExported_some]

/-- From the unnamed module a package without owners is visible, and one that an owner exports. -/
theorem isPackageVisibleFromUnnamed_iff {package : N} :
    isPackageVisibleFromUnnamed workspace package = true ↔
      workspace.modulesForPackage package = [] ∨
        ∃ owner ∈ workspace.modulesForPackage package, ExportsToAll owner.stub package := by
  unfold isPackageVisibleFromUnnamed
  simp only
  split
  · rename_i none_
    simp [List.isEmpty_iff.mp none_]
  · rename_i owned
    have some_ : workspace.modulesForPackage package ≠ [] := fun none_ => owned (by simp [none_])
    rw [List.any_eq_true]
    simp only [isPackageExported_none, some_, false_or]

/-- The packages that occur in archives without a module. -/
def OutsideModules (archives : List (NameIndex N)) (package : N) : Prop :=
  ∃ archive ∈ archives, ∃ entry ∈ archive.entries, entry.package = package ∧ entry.module_ = none

/-- What readability and visibility have to be over a module graph, with the packages that occur
outside of modules. -/
structure Visibility (workspace : WorkspaceModuleGraph N) (javaBase : N) (outside : N → Prop) : Prop where
  readable : ∀ start, ∃ found, readableModules workspace javaBase start = some found ∧
    ∀ name, name ∈ found ↔ Readable workspace javaBase start name
  visible : ∀ start package, ∃ answer,
    isPackageVisible workspace javaBase start package = some answer ∧
      (answer = true ↔ VisibleFrom workspace javaBase start package)
  unnamed : ∀ package, outside package → isPackageVisibleFromUnnamed workspace package = true

/-- Readability and visibility are as they have to be exactly where each package that occurs outside
of modules has no owner or one that exports it to everyone. -/
theorem visibility_iff (workspace : WorkspaceModuleGraph N) (javaBase : N) (outside : N → Prop) :
    Visibility workspace javaBase outside ↔
      ∀ package, outside package → workspace.modulesForPackage package = [] ∨
        ∃ owner ∈ workspace.modulesForPackage package, ExportsToAll owner.stub package := by
  constructor
  · intro visibility package occurs
    exact isPackageVisibleFromUnnamed_iff.mp (visibility.unnamed package occurs)
  · intro exported
    exact {
      readable := readableModules_eq workspace javaBase
      visible := isPackageVisible_eq workspace javaBase
      unnamed := fun package occurs => isPackageVisibleFromUnnamed_iff.mpr (exported package occurs) }

/-! ### A split package -/

/-- The class of one package, in a module or in none. -/
def classIn (module_ : Option String) : ClassEntry String :=
  ⟨"p.C", "p", .class_, 1, none, [], module_⟩

/-- A plain archive. -/
def plainArchive : NameIndex String := ⟨[classIn none], []⟩

/-- An archive of the module `m`, which exports nothing. -/
def closedArchive : NameIndex String := ⟨[classIn (some "m")], [⟨"m", 0, none⟩]⟩

def closedStub : ModuleStub String := ⟨"m", 0, none, [], [], [], [], []⟩

/-- The plain archive is library 1, that of the module library 2. -/
def splitPath (library : LibraryId) : LibraryModules String :=
  if library = 1 then ⟨moduleGraphQuery plainArchive fun _ => none, fun _ => none⟩
  else ⟨moduleGraphQuery closedArchive fun _ => some (.module_ closedStub),
    fun name => if name = "m" then some 0 else none⟩

/-- A module that exports nothing hides the package of an archive that belongs to no module. -/
theorem split_package_hidden :
    ¬Visibility (workspaceModuleGraphForLibraries splitPath [1, 2]) "java.base"
      (OutsideModules [plainArchive, closedArchive]) := by
  intro visibility
  have occurs : OutsideModules [plainArchive, closedArchive] "p" :=
    ⟨plainArchive, List.mem_cons_self, classIn none, List.mem_cons_self, rfl, rfl⟩
  exact absurd (visibility.unnamed "p" occurs) (by decide)

end CaffeineLs.Hir
