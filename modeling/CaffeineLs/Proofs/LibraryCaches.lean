/-
Module: CaffeineLs.Proofs.LibraryCaches
Purpose: When the two caches of a library agree: the index of a registered library is there over every
  history of reloads, warm-ups and queries exactly if no reload brings back a library that was answered
  for and then dropped.
Trusted boundary: none
Main exports: Serves, Described, library_lookups_iff
-/
import CaffeineLs.Hir.LibraryCache

namespace CaffeineLs.Hir.Session

open Reactive

variable {Symbol : Type}

abbrev SessionHistory (Symbol : Type) := History LibraryInput (LibraryOutput Symbol)

/-- A session that knows nothing but the graph. -/
def fresh (data : ProjectGraphData) : Session Symbol := initial.setProjectGraph data

/-- A query of the library has been answered. -/
def Answered (history : SessionHistory Symbol) (id : LibraryId) : Prop :=
  ∃ step ∈ history, ∃ index, LibraryOutput.answer id index ∈ step.outputs

section Statements

variable (loadOrBuild : LibraryId → LibraryKind → String → Option (LibraryIndex Symbol))
  (interner : ThreadedRodeo Symbol) (catalog : LibraryId → LibraryInfo)

/-- Each library of the graph has an index, and the records a fresh session gives. -/
def Serves (_ : SessionHistory Symbol) (s : Session Symbol) : Prop :=
  ∀ data id, s.graph = some data → data.libraries id ≠ none →
    (∃ after index, s.libraryIndex loadOrBuild id = some (after, some index)) ∧
    ∀ entryIdx, s.classRecord loadOrBuild interner id entryIdx =
      (fresh data).classRecord loadOrBuild interner id entryIdx

/-- A library id is made from the path of its archive and its time, so every graph says the same of
it. -/
def Described (_ : SessionHistory Symbol) (_ : Session Symbol) : LibraryInput → Prop
  | .setProjectGraph data => ∀ id info, data.libraries id = some info → info = catalog id
  | _ => True

/-- No library that the current graph lacks and the new one has was answered for before. -/
def BringsBackUnanswered (history : SessionHistory Symbol) (s : Session Symbol) :
    LibraryInput → Prop
  | .setProjectGraph data => ∀ id, data.libraries id ≠ none →
      (∀ current, s.graph = some current → current.libraries id = none) → ¬ Answered history id
  | _ => True

/-- What every load of the library gives. -/
def loadedIndex (id : LibraryId) : LibraryIndex Symbol :=
  loadIndex loadOrBuild id (catalog id).kind (catalog id).path

/-- What the caches hold, over the whole history. -/
structure Caches (history : SessionHistory Symbol) (s : Session Symbol) : Prop where
  described : ∀ data, s.graph = some data → ∀ id info, data.libraries id = some info →
    info = catalog id
  registered : ∀ id, s.libraries id ≠ none ↔
    ∃ data, s.graph = some data ∧ data.libraries id ≠ none
  registration : ∀ id library, s.libraries id = some library →
    library.kind = (catalog id).kind ∧ library.archive = (catalog id).path
  index : ∀ id library index, s.libraries id = some library → library.index = some index →
    index = loadedIndex loadOrBuild catalog id
  loads : ∀ load ∈ s.loads,
    load.kind = (catalog load.id).kind ∧ load.archive = (catalog load.id).path
  memo : ∀ id, s.nameIndexes id ≠ none ↔ Answered history id

end Statements

/-- The name index can still be asked for, or the index is there. -/
def Usable (s : Session Symbol) (id : LibraryId) : Prop :=
  s.nameIndexes id = none ∨ s.cachedIndex id ≠ none

variable {loadOrBuild : LibraryId → LibraryKind → String → Option (LibraryIndex Symbol)}
  {interner : ThreadedRodeo Symbol} {catalog : LibraryId → LibraryInfo}
  {history : SessionHistory Symbol} {s : Session Symbol}

/-! ### One lookup -/

@[simp] theorem cachedIndex_remember (s : Session Symbol) (id other : LibraryId)
    (names : NameIndex Symbol) : (s.remember id names).cachedIndex other = s.cachedIndex other :=
  rfl

theorem cachedIndex_storeIndex {id : LibraryId} {library : LibraryState Symbol}
    (known : s.libraries id = some library) (index : LibraryIndex Symbol) :
    (s.storeIndex id index).cachedIndex id = some index := by
  simp [cachedIndex, storeIndex, known]

/-- What is cached is what a load gives. -/
theorem Caches.cached (caches : Caches loadOrBuild catalog history s) {id : LibraryId}
    {index : LibraryIndex Symbol} (found : s.cachedIndex id = some index) :
    index = loadedIndex loadOrBuild catalog id := by
  obtain ⟨library, known, filled⟩ := Option.bind_eq_some_iff.mp found
  exact caches.index id library index known filled

/-- A usable library has the index that a load gives. -/
theorem libraryIndex_of_usable (caches : Caches loadOrBuild catalog history s) {id : LibraryId}
    {data : ProjectGraphData} (graph : s.graph = some data) {library : LibraryState Symbol}
    (known : s.libraries id = some library) (usable : s.Usable id) :
    ∃ after, s.libraryIndex loadOrBuild id =
      some (after, some (loadedIndex loadOrBuild catalog id)) := by
  obtain ⟨sameKind, sameArchive⟩ := caches.registration id library known
  have registered : s.registeredLibrary id = some ((catalog id).kind, (catalog id).path) := by
    simp [registeredLibrary, known, sameKind, sameArchive]
  cases cached : s.cachedIndex id with
  | some index =>
      have same := caches.cached cached
      subst same
      cases memo : s.nameIndexes id with
      | some names =>
          exact ⟨s, by simp [libraryIndex, libraryNameIndex, libraryNameIndexQuery, graph, memo,
            cached]⟩
      | none =>
          exact ⟨_, by simp [libraryIndex, libraryNameIndex, libraryNameIndexQuery, graph, memo,
            registered, ensureLoaded, cached]; rfl⟩
  | none =>
      have memo : s.nameIndexes id = none := usable.resolve_right (fun filled => filled cached)
      have stored := cachedIndex_storeIndex known (loadedIndex loadOrBuild catalog id)
      refine ⟨(s.storeIndex id (loadedIndex loadOrBuild catalog id)).remember id
        (loadedIndex loadOrBuild catalog id).names, ?_⟩
      simp only [libraryIndex, libraryNameIndex, libraryNameIndexQuery, graph, memo, registered,
        ensureLoaded, cached, Option.bind_some, Option.map_some, cachedIndex_remember]
      exact congrArg some (congrArg (Prod.mk _) stored)

/-- A library with a memo and no index has lost it. -/
theorem libraryIndex_of_lost {id : LibraryId} {data : ProjectGraphData} (graph : s.graph = some data)
    (lost : ¬ s.Usable id) : s.libraryIndex loadOrBuild id = some (s, none) := by
  have emptied : s.cachedIndex id = none :=
    Decidable.byContradiction fun filled => lost (Or.inr filled)
  cases memo : s.nameIndexes id with
  | none => exact absurd (Or.inl memo) lost
  | some names =>
      simp [libraryIndex, libraryNameIndex, libraryNameIndexQuery, graph, memo, emptied]

/-- A session that starts with the graph loads each of its libraries. -/
theorem libraryIndex_fresh {data : ProjectGraphData}
    (described : ∀ id info, data.libraries id = some info → info = catalog id) {id : LibraryId}
    (listed : data.libraries id ≠ none) :
    ∃ after, (fresh data).libraryIndex loadOrBuild id =
      some (after, some (loadedIndex loadOrBuild catalog id)) := by
  obtain ⟨info, found⟩ := Option.ne_none_iff_exists'.mp listed
  have same := described id info found
  subst same
  exact ⟨_, by
    simp [fresh, setProjectGraph, initial, register, libraryIndex, libraryNameIndex,
      libraryNameIndexQuery, registeredLibrary, ensureLoaded, cachedIndex, found, remember,
      storeIndex, loadedIndex]; rfl⟩

/-- The session serves its graph exactly when every registered library is usable. -/
theorem serves_iff (caches : Caches loadOrBuild catalog history s) :
    Serves loadOrBuild interner history s ↔
      ∀ id library, s.libraries id = some library → s.Usable id := by
  constructor
  · intro serves id library known
    have some_ : s.libraries id ≠ none := by simp [known]
    obtain ⟨data, graph, listed⟩ := (caches.registered id).mp some_
    obtain ⟨⟨after, index, given⟩, _⟩ := serves data id graph listed
    apply Classical.byContradiction
    intro lost
    rw [libraryIndex_of_lost graph lost] at given
    simp at given
  · intro usable data id graph listed
    have known := (caches.registered id).mpr ⟨data, graph, listed⟩
    obtain ⟨library, known⟩ := Option.ne_none_iff_exists'.mp known
    obtain ⟨after, here⟩ := libraryIndex_of_usable caches graph known (usable id library known)
    have fromFresh : ∃ start, (fresh data).libraryIndex loadOrBuild id =
        some (start, some (loadedIndex loadOrBuild catalog id)) :=
      libraryIndex_fresh (caches.described data graph) listed
    obtain ⟨start, there⟩ := fromFresh
    refine ⟨⟨after, _, here⟩, fun entryIdx => ?_⟩
    simp only [classRecord, here, there, Option.bind_some]

/-! ### One step -/

theorem answered_cons (step : Step LibraryInput (LibraryOutput Symbol)) (id : LibraryId) :
    Answered (step :: history) id ↔
      (∃ index, LibraryOutput.answer id index ∈ step.outputs) ∨ Answered history id := by
  simp [Answered]

/-- A step that answers nothing adds nothing to the history. -/
theorem Caches.quiet (caches : Caches loadOrBuild catalog history s) (input : LibraryInput)
    {outputs : List (LibraryOutput Symbol)}
    (silent : ∀ id index, LibraryOutput.answer id index ∉ outputs) :
    Caches loadOrBuild catalog (⟨input, outputs⟩ :: history) s := by
  refine { caches with memo := fun id => ?_ }
  rw [caches.memo id, answered_cons]
  constructor
  · exact Or.inr
  · intro answered
    rcases answered with ⟨index, found⟩ | answered
    · exact absurd found (silent id index)
    · exact answered

theorem Caches.beginLoad (caches : Caches loadOrBuild catalog history s) {load : Load}
    (registered : s.registeredLibrary load.id = some (load.kind, load.archive)) :
    Caches loadOrBuild catalog history (s.beginLoad load) := by
  refine { caches with loads := fun other member => ?_ }
  rcases List.mem_append.mp member with old | new
  · exact caches.loads other old
  · obtain rfl := List.mem_singleton.mp new
    obtain ⟨library, known, same⟩ := Option.map_eq_some_iff.mp registered
    have registration := caches.registration other.id library known
    rw [Prod.mk.injEq] at same
    exact ⟨same.1 ▸ registration.1, same.2 ▸ registration.2⟩

theorem Caches.endLoad (caches : Caches loadOrBuild catalog history s) (position : Nat) :
    Caches loadOrBuild catalog history (s.endLoad position) :=
  { caches with loads := fun load member => caches.loads load (List.mem_of_mem_eraseIdx member) }

theorem Caches.storeIndex (caches : Caches loadOrBuild catalog history s) (id : LibraryId) :
    Caches loadOrBuild catalog history (s.storeIndex id (loadedIndex loadOrBuild catalog id)) := by
  refine { caches with registered := ?_, registration := ?_, index := ?_ }
  · intro other
    have unchanged : (s.storeIndex id (loadedIndex loadOrBuild catalog id)).libraries other ≠ none ↔
        s.libraries other ≠ none := by
      by_cases same : other = id <;> simp [Session.storeIndex, same]
    exact unchanged.trans (caches.registered other)
  · intro other library known
    by_cases same : other = id
    · subst same
      simp only [Session.storeIndex, if_true, Option.map_eq_some_iff] at known
      obtain ⟨before, known, rfl⟩ := known
      exact caches.registration other before known
    · simp only [Session.storeIndex, if_neg same] at known
      exact caches.registration other library known
  · intro other library index known filled
    by_cases same : other = id
    · subst same
      simp only [Session.storeIndex, if_true, Option.map_eq_some_iff] at known
      obtain ⟨before, _, rfl⟩ := known
      exact (Option.some.inj filled).symm
    · simp only [Session.storeIndex, if_neg same] at known
      exact caches.index other library index known filled

theorem Caches.answer (caches : Caches loadOrBuild catalog history s) (input : LibraryInput)
    (id : LibraryId) (names : NameIndex Symbol) :
    Caches loadOrBuild catalog (⟨input, (s.answer id names).2⟩ :: history)
      (s.answer id names).1 := by
  refine { caches with memo := fun other => ?_ }
  rw [answered_cons, ← caches.memo other]
  by_cases same : other = id
  · simp [Session.answer, remember, same]
  · simp [Session.answer, remember, same]

/-- A reload keeps what the caches hold of the libraries that stay. -/
theorem Caches.setProjectGraph (caches : Caches loadOrBuild catalog history s)
    {data : ProjectGraphData}
    (described : ∀ id info, data.libraries id = some info → info = catalog id) :
    Caches loadOrBuild catalog history (s.setProjectGraph data) := by
  refine { caches with described := ?_, registered := ?_, registration := ?_, index := ?_ }
  · intro current same
    obtain rfl := Option.some.inj same
    exact described
  · intro id
    simp [Session.setProjectGraph]
  · intro id library known
    obtain ⟨info, listed, rfl⟩ := Option.map_eq_some_iff.mp known
    obtain rfl := described id info listed
    cases before : s.libraries id with
    | none => exact ⟨rfl, rfl⟩
    | some library => exact caches.registration id library before
  · intro id library index known filled
    obtain ⟨info, listed, rfl⟩ := Option.map_eq_some_iff.mp known
    cases before : s.libraries id with
    | none => simp [register, before] at filled
    | some library =>
        simp only [register, before, Option.getD_some] at filled
        exact caches.index id library index before filled

/-- The invariant step: every input keeps what the caches hold. -/
theorem Caches.react (caches : Caches loadOrBuild catalog history s) {input : LibraryInput}
    (described : Described catalog history s input) :
    Caches loadOrBuild catalog (⟨input, (s.react loadOrBuild input).2⟩ :: history)
      (s.react loadOrBuild input).1 := by
  cases input with
  | setProjectGraph data => exact (caches.setProjectGraph described).quiet _ (by simp [Session.react])
  | warmup id =>
      simp only [Session.react, warmupLibrary]
      cases registered : s.registeredLibrary id with
      | none => exact caches.quiet _ (by simp)
      | some place =>
          cases s.cachedIndex id with
          | none => exact (caches.beginLoad registered).quiet _ (by simp)
          | some index => exact caches.quiet _ (by simp)
  | query id =>
      simp only [Session.react, Session.query]
      cases s.graph with
      | none => exact caches.quiet _ (by simp)
      | some data =>
          cases s.nameIndexes id with
          | some names => exact caches.answer _ id names
          | none =>
              cases registered : s.registeredLibrary id with
              | none => exact caches.quiet _ (by simp)
              | some place =>
                  cases s.cachedIndex id with
                  | none => exact (caches.beginLoad registered).quiet _ (by simp)
                  | some index => exact caches.answer _ id index.names
  | loaded position =>
      simp only [Session.react]
      cases under : s.loads[position]? with
      | none => exact caches.quiet _ (by simp)
      | some load =>
          obtain ⟨kind, archive⟩ := caches.loads load (List.mem_of_getElem? under)
          have stored := (caches.endLoad position).storeIndex load.id
          rw [loadedIndex, ← kind, ← archive] at stored
          obtain ⟨caller, id, kind, archive⟩ := load
          cases caller with
          | warmup => exact stored.quiet _ (by simp [Session.finish])
          | query => exact stored.answer _ id _
  | cancel position =>
      simp only [Session.react]
      cases s.loads[position]? with
      | none => exact caches.quiet _ (by simp)
      | some load =>
          obtain ⟨caller, id, kind, archive⟩ := load
          cases caller with
          | warmup => exact caches.quiet _ (by simp)
          | query => exact (caches.endLoad position).quiet _ (by simp)

theorem caches_initial : Caches loadOrBuild catalog [] (initial : Session Symbol) := by
  refine ⟨?_, ?_, ?_, ?_, ?_, ?_⟩ <;> simp [initial, Answered]

/-! ### What a step does to the libraries that can be used -/

/-- Every registered library is usable. -/
def AllUsable (s : Session Symbol) : Prop :=
  ∀ id library, s.libraries id = some library → s.Usable id

/-- An index that is stored before its query is memoized keeps its library usable. -/
theorem AllUsable.answer (usable : s.AllUsable) {id : LibraryId} {names : NameIndex Symbol}
    (stored : s.libraries id ≠ none → s.cachedIndex id ≠ none) :
    (s.answer id names).1.AllUsable := by
  intro other library known
  by_cases same : other = id
  · subst same
    have listed : s.libraries other ≠ none := fun absent => by
      rw [show (s.answer other names).1.libraries other = s.libraries other from rfl, absent] at known
      simp at known
    exact Or.inr (stored listed)
  · rcases usable other library known with unasked | filled
    · exact Or.inl (by simpa [Session.answer, remember, same] using unasked)
    · exact Or.inr filled

theorem AllUsable.storeIndex (usable : s.AllUsable) (id : LibraryId) (index : LibraryIndex Symbol) :
    (s.storeIndex id index).AllUsable := by
  intro other library known
  by_cases same : other = id
  · subst same
    simp only [Session.storeIndex, if_true, Option.map_eq_some_iff] at known
    obtain ⟨before, known, _⟩ := known
    exact Or.inr (by simp [cachedIndex_storeIndex known])
  · simp only [Session.storeIndex, if_neg same] at known
    rcases usable other library known with unasked | filled
    · exact Or.inl unasked
    · exact Or.inr (by simpa [cachedIndex, Session.storeIndex, same] using filled)

/-- A stored index is there if its library is registered. -/
theorem cachedIndex_stored (s : Session Symbol) (id : LibraryId) (index : LibraryIndex Symbol)
    (listed : (s.storeIndex id index).libraries id ≠ none) :
    (s.storeIndex id index).cachedIndex id ≠ none := by
  cases known : s.libraries id with
  | none => exact absurd (by simp [storeIndex, known]) listed
  | some library => simp [cachedIndex_storeIndex known]

/-- What is not a reload keeps every registered library usable. -/
theorem AllUsable.react (usable : s.AllUsable) {input : LibraryInput}
    (noReload : ∀ data, input ≠ .setProjectGraph data) :
    (s.react loadOrBuild input).1.AllUsable := by
  cases input with
  | setProjectGraph data => exact absurd rfl (noReload data)
  | warmup id =>
      simp only [Session.react, warmupLibrary]
      split
      · exact usable
      · exact usable
  | query id =>
      simp only [Session.react, Session.query]
      cases s.graph with
      | none => exact usable
      | some data =>
          cases memo : s.nameIndexes id with
          | some names =>
              refine usable.answer fun listed => ?_
              obtain ⟨library, known⟩ := Option.ne_none_iff_exists'.mp listed
              exact (usable id library known).resolve_left (by simp [memo])
          | none =>
              cases s.registeredLibrary id with
              | none => exact usable
              | some place =>
                  cases cached : s.cachedIndex id with
                  | none => exact usable
                  | some index => exact usable.answer fun _ => by simp [cached]
  | loaded position =>
      simp only [Session.react]
      cases s.loads[position]? with
      | none => exact usable
      | some load =>
          obtain ⟨caller, id, kind, archive⟩ := load
          have ended : (s.endLoad position).AllUsable := usable
          have stored := ended.storeIndex id (loadIndex loadOrBuild id kind archive)
          cases caller with
          | warmup => exact stored
          | query => exact stored.answer (cachedIndex_stored _ id _)
  | cancel position =>
      simp only [Session.react]
      split
      · exact usable
      · exact usable

/-- A reload keeps every registered library usable exactly when it brings back none that was answered
for. -/
theorem allUsable_setProjectGraph_iff (caches : Caches loadOrBuild catalog history s)
    (usable : s.AllUsable) (data : ProjectGraphData) :
    (s.setProjectGraph data).AllUsable ↔
      BringsBackUnanswered history s (.setProjectGraph data) := by
  have absent_iff : ∀ id, (∀ current, s.graph = some current → current.libraries id = none) ↔
      s.libraries id = none := by
    intro id
    constructor
    · intro dropped
      apply Classical.byContradiction
      intro known
      obtain ⟨current, graph, listed⟩ := (caches.registered id).mp known
      exact listed (dropped current graph)
    · intro absent current graph
      apply Classical.byContradiction
      intro listed
      exact (caches.registered id).mpr ⟨current, graph, listed⟩ absent
  constructor
  · intro after id listed dropped answered
    obtain ⟨info, found⟩ := Option.ne_none_iff_exists'.mp listed
    have absent := (absent_iff id).mp dropped
    rcases after id _ (by simp [setProjectGraph, found]; rfl) with unasked | filled
    · exact (caches.memo id).mpr answered unasked
    · simp [cachedIndex, setProjectGraph, found, absent, register] at filled
  · intro unanswered id library known
    obtain ⟨info, found, rfl⟩ := Option.map_eq_some_iff.mp known
    cases before : s.libraries id with
    | none =>
        have never := unanswered id (by simp [found]) ((absent_iff id).mpr before)
        exact Or.inl (Decidable.byContradiction fun asked => never ((caches.memo id).mp asked))
    | some library =>
        rcases usable id library before with unasked | filled
        · exact Or.inl unasked
        · refine Or.inr ?_
          simpa [cachedIndex, setProjectGraph, found, before, register] using filled

/-! ### Whole histories -/

/-- A step after which the session serves its graph, if it did before, is one that brings back no
library that was answered for. -/
theorem serves_react_iff (caches : Caches loadOrBuild catalog history s) {input : LibraryInput}
    (described : Described catalog history s input)
    (serves : Serves loadOrBuild interner history s) :
    Serves loadOrBuild interner (⟨input, (s.react loadOrBuild input).2⟩ :: history)
        (s.react loadOrBuild input).1 ↔
      BringsBackUnanswered history s input := by
  have usable := (serves_iff caches).mp serves
  rw [serves_iff (caches.react described)]
  cases input with
  | setProjectGraph data => exact allUsable_setProjectGraph_iff caches usable data
  | warmup id => exact iff_of_true (AllUsable.react usable (by simp)) trivial
  | query id => exact iff_of_true (AllUsable.react usable (by simp)) trivial
  | loaded position => exact iff_of_true (AllUsable.react usable (by simp)) trivial
  | cancel position => exact iff_of_true (AllUsable.react usable (by simp)) trivial

/-- Over every history, the session serves each graph exactly when no reload brings back a library that
an earlier query was answered for. -/
theorem library_lookups_iff
    (loadOrBuild : LibraryId → LibraryKind → String → Option (LibraryIndex Symbol))
    (interner : ThreadedRodeo Symbol) (catalog : LibraryId → LibraryInfo)
    (inputs : List LibraryInput)
    (described : AllAllowed (react loadOrBuild) (Described catalog) [] initial inputs) :
    AllStates (react loadOrBuild) (Serves loadOrBuild interner) [] initial inputs ↔
      AllAllowed (react loadOrBuild) BringsBackUnanswered [] initial inputs := by
  have kept : ∀ history s input, Caches loadOrBuild catalog history s →
      Described catalog history s input →
      Caches loadOrBuild catalog (⟨input, (s.react loadOrBuild input).2⟩ :: history)
        (s.react loadOrBuild input).1 :=
    fun _ _ _ caches here => caches.react here
  have stepwise : ∀ history s input, Caches loadOrBuild catalog history s →
      Described catalog history s input → Serves loadOrBuild interner history s →
      (Serves loadOrBuild interner (⟨input, (s.react loadOrBuild input).2⟩ :: history)
        (s.react loadOrBuild input).1 ↔ BringsBackUnanswered history s input) :=
    fun _ _ _ caches here serves => serves_react_iff caches here serves
  have start : Serves loadOrBuild interner [] (initial : Session Symbol) := by
    intro data id graph
    simp [initial] at graph
  exact allStates_iff kept stepwise caches_initial start described

/-- In every history, with loads that end late and libraries that were dropped between, an index that a
session has cached is the one that a load of that library gives. -/
theorem library_index_current {history : SessionHistory Symbol} {s : Session Symbol}
    (ran : Run (react loadOrBuild) (Described catalog) initial history s) {id : LibraryId}
    {index : LibraryIndex Symbol} (cached : s.cachedIndex id = some index) :
    index = loadIndex loadOrBuild id (catalog id).kind (catalog id).path :=
  (ran.invariant caches_initial fun _ _ _ caches here => caches.react here).cached cached

/-- A graph with one library. -/
def oneLibrary : ProjectGraphData :=
  ⟨fun id => if id = 1 then some ⟨.jar, "a.jar"⟩ else none, fun _ => none, fun _ => none⟩

/-- The library is answered for, dropped and brought back. -/
def dropAndBringBack : List LibraryInput :=
  [.setProjectGraph oneLibrary, .query 1, .loaded 0,
   .setProjectGraph ⟨fun _ => none, fun _ => none, fun _ => none⟩, .setProjectGraph oneLibrary]

theorem library_index_queried : (LibraryIndex.empty 1 .jar "a.jar" : LibraryIndex String) =
    loadIndex (fun _ _ _ => none) 1 .jar "a.jar" := by
  have allowed : AllAllowed (react fun _ _ _ => none) (Described fun _ => ⟨.jar, "a.jar"⟩) []
      (initial : Session String) [.setProjectGraph oneLibrary, .query 1, .loaded 0] :=
    ⟨fun id info listed => (Option.some.inj (Option.ite_none_right_eq_some.mp listed).2).symm,
      trivial, trivial, trivial⟩
  exact library_index_current (run_replay .start allowed) rfl

theorem library_lookups_registered :
    AllStates (react fun _ _ _ => none) (Serves (fun _ _ _ => none) ⟨id, id⟩) []
        (initial : Session String) [.setProjectGraph oneLibrary] ↔
      AllAllowed (react fun _ _ _ => none) BringsBackUnanswered [] (initial : Session String)
        [.setProjectGraph oneLibrary] :=
  library_lookups_iff _ ⟨id, id⟩ (fun _ => ⟨.jar, "a.jar"⟩) _
    ⟨fun id info listed => by
      by_cases one : id = 1
      · simpa [oneLibrary, one] using listed.symm
      · simp [oneLibrary, one] at listed, trivial⟩

/-- Brought back, the library has no index. -/
theorem library_lookups_brought_back :
    ((replay (react fun _ _ _ => none) [] (initial : Session String) dropAndBringBack).2.libraryIndex
        (fun _ _ _ => none) 1).map (fun found => found.2.isSome) = some false ∧
      ¬ AllStates (react fun _ _ _ => none) (Serves (fun _ _ _ => none) ⟨id, id⟩) []
        (initial : Session String) dropAndBringBack := by
  have lost : ((replay (react fun _ _ _ => none) [] (initial : Session String)
      dropAndBringBack).2.libraryIndex (fun _ _ _ => none) 1).map
        (fun found => found.2.isSome) = some false := by
    rfl
  refine ⟨lost, fun all => ?_⟩
  have last := all.2.2.2.2.2
  obtain ⟨⟨after, index, given⟩, _⟩ := last oneLibrary 1 rfl (by decide)
  have found := lost.symm.trans (congrArg (Option.map fun found => found.2.isSome) given)
  simp at found

end CaffeineLs.Hir.Session
