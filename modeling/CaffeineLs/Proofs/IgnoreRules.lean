/-
Module: CaffeineLs.Proofs.IgnoreRules
Purpose: When the rules that drop a file are those of its most specific root.
Trusted boundary: none
Main exports: deepest_eq_of, ignoredByOwningRoot_eq, dropped_by_owner_iff
-/
import CaffeineLs.Server.IgnoreRules
import CaffeineLs.Proofs.WorkspaceLoads

namespace CaffeineLs.Server.Workspace

open DeepestPrefix
open OpenDocuments (Places ignoredByOwningRoot)

/-! ### The most specific one -/

/-- With each path once, the entry with the longest path that contains the target is the deepest. -/
theorem deepest_eq_of {E : Type} {entries : List (Path × E)} {target : Path} {entry : Path × E}
    (once : (entries.map Prod.fst).Nodup) (member : entry ∈ entries) (contains : entry.1 <+: target)
    (longest : ∀ other ∈ entries, other.1 <+: target → other.1.length ≤ entry.1.length) :
    deepest Prod.fst entries target = some entry := by
  cases found : deepest Prod.fst entries target with
  | none => exact absurd contains (deepest_eq_none_iff.mp found entry member)
  | some other =>
      obtain ⟨listed, contained, most⟩ := deepest_spec found
      have inside := List.prefix_of_prefix_length_le contained contains
        (longest other listed contained)
      have same : other.1 = entry.1 := inside.eq_of_length_le (most entry member contains)
      rw [List.inj_on_of_nodup_map once listed member same]

/-- `max_by_key` gives an element with the greatest key. -/
theorem maxByKey_spec {pairs : List (Nat × Bool)} {best : Nat × Bool}
    (found : OpenDocuments.deepest pairs = some best) :
    best ∈ pairs ∧ ∀ other ∈ pairs, other.1 ≤ best.1 := by
  induction pairs generalizing best with
  | nil => cases found
  | cons pair rest ih =>
      rw [OpenDocuments.deepest] at found
      cases below : OpenDocuments.deepest rest with
      | none =>
          have empty : rest = [] := by
            cases rest with
            | nil => rfl
            | cons next rest =>
                rw [OpenDocuments.deepest] at below
                split at below
                · cases below
                · split at below <;> cases below
          rw [below] at found
          obtain rfl := Option.some.inj found
          subst empty
          exact ⟨List.mem_singleton_self _, fun other member => by
            rw [List.mem_singleton.mp member]⟩
      | some later =>
          rw [below] at found
          obtain ⟨member, most⟩ := ih below
          dsimp only at found
          split at found
          case isTrue greater =>
            obtain rfl := Option.some.inj found
            refine ⟨List.mem_cons_self, ?_⟩
            intro other listed
            rcases List.mem_cons.mp listed with rfl | listed
            · exact Nat.le_refl _
            · exact Nat.le_of_lt (Nat.lt_of_le_of_lt (most other listed) greater)
          case isFalse notGreater =>
            obtain rfl := Option.some.inj found
            refine ⟨List.mem_cons_of_mem _ member, ?_⟩
            intro other listed
            rcases List.mem_cons.mp listed with rfl | listed
            · exact Nat.le_of_not_lt notGreater
            · exact most other listed

theorem maxByKey_none {pairs : List (Nat × Bool)} (found : OpenDocuments.deepest pairs = none) :
    pairs = [] := by
  cases pairs with
  | nil => rfl
  | cons pair rest =>
      rw [OpenDocuments.deepest] at found
      split at found
      · cases found
      · split at found <;> cases found

/-- The verdict is that of the deepest of the roots with rules. -/
theorem ignoredByOwningRoot_eq {ms : List (Path × Matcher)} (once : (ms.map Prod.fst).Nodup)
    (path : Path) :
    ignoredByOwningRoot componentPlaces ms path =
      (deepest Prod.fst ms path).any fun m => m.2 (path.drop m.1.length) := by
  let verdict (m : Path × Matcher) : Option (Nat × Bool) :=
    (componentPlaces.stripPrefix m.1 path).map fun rel => (componentPlaces.components m.1, m.2 rel)
  have above {m : Path × Matcher} (contains : m.1 <+: path) :
      verdict m = some (m.1.length + 1, m.2 (path.drop m.1.length)) := by
    simp only [verdict, componentPlaces, List.isPrefixOf_iff_prefix, if_pos contains, Option.map_some]
  have unfolded : ignoredByOwningRoot componentPlaces ms path =
      (OpenDocuments.deepest (ms.filterMap verdict)).any (·.2) := rfl
  rw [unfolded]
  cases chosen : OpenDocuments.deepest (ms.filterMap verdict) with
  | none =>
      have silent := List.filterMap_eq_nil_iff.mp (maxByKey_none chosen)
      have nowhere : deepest Prod.fst ms path = none := by
        rw [deepest_eq_none_iff]
        intro m member contains
        have := silent m member
        rw [above contains] at this
        cases this
      rw [nowhere]
      rfl
  | some best =>
      obtain ⟨listed, most⟩ := maxByKey_spec chosen
      obtain ⟨m, member, given⟩ := List.mem_filterMap.mp listed
      have contains : m.1 <+: path := by
        by_contra outside
        have notPrefix : ¬ m.1.isPrefixOf path = true :=
          fun holds => outside (List.isPrefixOf_iff_prefix.mp holds)
        simp only [verdict, componentPlaces, if_neg notPrefix, Option.map_none] at given
        cases given
      rw [above contains] at given
      obtain rfl := Option.some.inj given
      have nearest : deepest Prod.fst ms path = some m := by
        apply deepest_eq_of once member contains
        intro other inside contained
        have bounded := most _ (List.mem_filterMap.mpr ⟨other, inside, above contained⟩)
        exact Nat.le_of_succ_le_succ bounded
      rw [nearest]
      rfl

/-! ### The roots of a load -/

/-- Each key stays once. -/
theorem nodup_firsts_keys {A K : Type} [DecidableEq K] (key : A → K) (seen : List K) (as : List A) :
    ((firsts key seen as).map key).Nodup ∧ ∀ k ∈ (firsts key seen as).map key, k ∉ seen := by
  induction as generalizing seen with
  | nil => exact ⟨.nil, fun k member => absurd member List.not_mem_nil⟩
  | cons a rest ih =>
      rw [firsts]
      split
      · exact ih seen
      · rename_i fresh
        obtain ⟨nodup, unseen⟩ := ih (key a :: seen)
        rw [List.map_cons]
        constructor
        · refine List.nodup_cons.mpr ⟨?_, nodup⟩
          exact fun member => unseen _ member List.mem_cons_self
        · intro k member
          rcases List.mem_cons.mp member with rfl | member
          · exact fresh
          · exact fun old => unseen k member (List.mem_cons_of_mem _ old)

theorem workspaceEntries_once (graph : WorkspaceGraph) :
    ((workspaceEntries graph).map Prod.fst).Nodup := by
  rw [workspaceEntries]
  exact ((List.mergeSort_perm _ _).map Prod.fst).nodup_iff.mpr (nodup_firsts_keys Prod.fst [] _).1

variable (ignore : Ignore)

/-- The rules that a workspace root adds. -/
def ruled (entry : Path × SourceSetId × Bool) : Option (Path × Matcher) :=
  RootEntry.matcher ignore (.workspace entry.1 entry.2.1 entry.2.2)

theorem ruled_eq_some {entry : Path × SourceSetId × Bool} {m : Path × Matcher} :
    ruled ignore entry = some m ↔
      entry.2.2 = false ∧ m.1 = entry.1 ∧ (ignore.buildMatchers entry.1).head? = some m.2 := by
  obtain ⟨path, id, generated⟩ := entry
  obtain ⟨root, matcher⟩ := m
  rw [ruled, RootEntry.matcher]
  cases generated with
  | true => simp
  | false => simp [and_comm, eq_comm]

/-- Only the workspace roots add rules. -/
theorem matchers_eq (loaded : LoadedWorkspace) :
    matchers ignore loaded = (workspaceEntries loaded.graph).filterMap (ruled ignore) := by
  have none_ {A : Type} (make : A → RootEntry) (silent : ∀ a, (make a).matcher ignore = none)
      (as : List A) : (as.map make).filterMap (RootEntry.matcher ignore) = [] := by
    rw [List.filterMap_map, List.filterMap_eq_nil_iff]
    exact fun a _ => silent a
  rw [matchers, entries, List.filterMap_append, List.filterMap_append,
    none_ _ (fun _ => rfl) (libraryEntries loaded.sources),
    none_ _ (fun _ => rfl) (libraryEntries loaded.decompiled),
    List.append_nil, List.append_nil, List.filterMap_map]
  rfl

theorem matchers_once (loaded : LoadedWorkspace) :
    ((matchers ignore loaded).map Prod.fst).Nodup := by
  rw [matchers_eq]
  refine List.Nodup.sublist ?_ (workspaceEntries_once loaded.graph)
  induction workspaceEntries loaded.graph with
  | nil => exact .slnil
  | cons entry rest ih =>
      rw [List.filterMap_cons]
      cases found : ruled ignore entry with
      | none => exact ih.cons _
      | some m =>
          have same := ((ruled_eq_some ignore).mp found).2.1
          rw [List.map_cons, List.map_cons, same]
          exact ih.cons_cons _

/-- The rules that decide: those of the most specific root that has some. -/
def nearestRules (loaded : LoadedWorkspace) (path : Path) : Option (Path × Matcher) :=
  deepest Prod.fst (matchers ignore loaded) path

theorem dropped_eq (loaded : LoadedWorkspace) (path : Path) :
    dropped ignore loaded path =
      (nearestRules ignore loaded path).any fun m => m.2 (path.drop m.1.length) :=
  ignoredByOwningRoot_eq (matchers_once ignore loaded) path

/-- Where the most specific root has rules, they decide. -/
theorem nearestRules_of_owner {loaded : LoadedWorkspace} {path : Path}
    {entry : Path × SourceSetId × Bool} (owned : owner loaded.graph path = some entry)
    {m : Path × Matcher} (rules : ruled ignore entry = some m) :
    nearestRules ignore loaded path = some m := by
  obtain ⟨member, contains, longest⟩ := deepest_spec owned
  have same := ((ruled_eq_some ignore).mp rules).2.1
  have listed : m ∈ matchers ignore loaded := by
    rw [matchers_eq]
    exact List.mem_filterMap.mpr ⟨entry, member, rules⟩
  apply deepest_eq_of (matchers_once ignore loaded) listed
  · rw [same]
    exact contains
  · intro other inside contained
    rw [matchers_eq] at inside
    obtain ⟨root, isRoot, found⟩ := List.mem_filterMap.mp inside
    rw [((ruled_eq_some ignore).mp found).2.1] at contained ⊢
    rw [same]
    exact longest root isRoot contained

/-- No root contains the file: no rules decide. -/
theorem nearestRules_of_detached {loaded : LoadedWorkspace} {path : Path}
    (detached : owner loaded.graph path = none) : nearestRules ignore loaded path = none := by
  rw [nearestRules, deepest_eq_none_iff]
  intro m listed contains
  rw [matchers_eq] at listed
  obtain ⟨root, isRoot, found⟩ := List.mem_filterMap.mp listed
  rw [((ruled_eq_some ignore).mp found).2.1] at contains
  exact deepest_eq_none_iff.mp detached root isRoot contains

/-- The most specific root above the file adds no rules: it is generated, or none are found for it. -/
def OwnerUnruled (graph : WorkspaceGraph) (path : Path) : Prop :=
  ∃ entry, owner graph path = some entry ∧ ruled ignore entry = none

/-- The rules of the most specific root that has some ignore the file. -/
def NearestRulesIgnore (loaded : LoadedWorkspace) (path : Path) : Prop :=
  ∃ m, nearestRules ignore loaded path = some m ∧ m.2 (path.drop m.1.length) = true

/-- A file is dropped just as its own root's rules say, unless that root adds no rules while those of a
root around it ignore the file. -/
theorem dropped_by_owner_iff (loaded : LoadedWorkspace) (path : Path) :
    (dropped ignore loaded path = true ↔ OwnRulesIgnore ignore loaded.graph path) ↔
      ¬ (OwnerUnruled ignore loaded.graph path ∧ NearestRulesIgnore ignore loaded path) := by
  have verdict : dropped ignore loaded path = true ↔ NearestRulesIgnore ignore loaded path := by
    rw [dropped_eq, Option.any_eq_true]
    rfl
  rw [verdict]
  cases owned : owner loaded.graph path with
  | none =>
      have silent : ¬ NearestRulesIgnore ignore loaded path := by
        intro ⟨m, decides, _⟩
        rw [nearestRules_of_detached ignore owned] at decides
        cases decides
      have unowned : ¬ OwnRulesIgnore ignore loaded.graph path := by
        intro ⟨root, id, here, _⟩
        rw [owned] at here
        cases here
      simp only [silent, unowned, and_false, not_false_eq_true]
  | some entry =>
      cases rules : ruled ignore entry with
      | none =>
          have unruled : OwnerUnruled ignore loaded.graph path := ⟨entry, owned, rules⟩
          have quiet : ¬ OwnRulesIgnore ignore loaded.graph path := by
            intro ⟨root, id, here, matcher, first, _⟩
            obtain rfl := Option.some.inj (owned.symm.trans here)
            have found : ruled ignore (root, id, false) = some (root, matcher) :=
              (ruled_eq_some ignore).mpr ⟨rfl, rfl, first⟩
            rw [rules] at found
            cases found
          simp only [quiet, unruled, true_and, iff_false]
      | some m =>
          have decides := nearestRules_of_owner ignore owned rules
          obtain ⟨plain, same, first⟩ := (ruled_eq_some ignore).mp rules
          have ruledOwner : ¬ OwnerUnruled ignore loaded.graph path := by
            intro ⟨other, here, none_⟩
            obtain rfl := Option.some.inj (owned.symm.trans here)
            rw [rules] at none_
            cases none_
          simp only [ruledOwner, false_and, not_false_eq_true, iff_true]
          constructor
          · intro ⟨m', decides', holds⟩
            obtain rfl := Option.some.inj (decides.symm.trans decides')
            refine ⟨entry.1, entry.2.1, ?_, m.2, first, same ▸ holds⟩
            rw [owned, ← plain]
          · intro ⟨root, id, here, matcher, first', holds⟩
            obtain rfl := Option.some.inj (owned.symm.trans here)
            obtain rfl := Option.some.inj (first.symm.trans first')
            exact ⟨m, decides, by rw [same]; exact holds⟩

/-! ### A generated root -/

/-- A project with the sources of its root directory, and the generated ones of a build directory. -/
def generatedWorkspace : LoadedWorkspace where
  graph :=
    { projects := [(⟨0⟩, ⟨⟨0⟩, [(.main, ⟨[[['p']]], [[['p'], ['t'], ['g']]], []⟩)]⟩)]
      sdks := []
      libraryPaths := [] }
  sources := []
  decompiled := []

/-- The rules of the project's root ignore the build directory. -/
def buildIgnored : Ignore where
  buildMatchers root :=
    if root = [['p']] then [fun rel => [['t']].isPrefixOf rel] else [fun _ => false]

theorem mem_generatedWorkspace (entry : Path × SourceSetId × Bool) :
    entry ∈ workspaceEntries generatedWorkspace.graph ↔
      entry ∈
        [([['p']], ⟨⟨0⟩, .main⟩, false), ([['p'], ['t'], ['g']], ⟨⟨0⟩, .main⟩, true)] :=
  List.mem_mergeSort

/-- A file of the generated root is dropped, while that root has no rules. -/
theorem generated_file_dropped :
    ¬ (dropped buildIgnored generatedWorkspace [['p'], ['t'], ['g'], ['A']] = true ↔
        OwnRulesIgnore buildIgnored generatedWorkspace.graph [['p'], ['t'], ['g'], ['A']]) := by
  let file : Path := [['p'], ['t'], ['g'], ['A']]
  let root : Path × SourceSetId × Bool := ([['p']], ⟨⟨0⟩, .main⟩, false)
  let generated : Path × SourceSetId × Bool := ([['p'], ['t'], ['g']], ⟨⟨0⟩, .main⟩, true)
  have owned : owner generatedWorkspace.graph file = some generated := by
    apply deepest_eq_of (workspaceEntries_once _)
    · exact (mem_generatedWorkspace generated).mpr (by simp [generated])
    · exact ⟨[['A']], rfl⟩
    · intro other listed _
      have cases_ := (mem_generatedWorkspace other).mp listed
      simp only [List.mem_cons, List.not_mem_nil, or_false] at cases_
      rcases cases_ with rfl | rfl
      · exact (by decide : 1 ≤ 3)
      · exact Nat.le_refl _
  have notIgnored : ¬ OwnRulesIgnore buildIgnored generatedWorkspace.graph file := by
    intro ⟨_, _, here, _⟩
    rw [owned] at here
    have flags : true = false := congrArg (·.2.2) (Option.some.inj here)
    cases flags
  let rules : Path × Matcher := ([['p']], fun rel => [['t']].isPrefixOf rel)
  have nearest : nearestRules buildIgnored generatedWorkspace file = some rules := by
    apply deepest_eq_of (matchers_once _ _)
    · rw [matchers_eq]
      exact List.mem_filterMap.mpr ⟨root, (mem_generatedWorkspace root).mpr List.mem_cons_self, rfl⟩
    · exact ⟨[['t'], ['g'], ['A']], rfl⟩
    · intro other listed _
      rw [matchers_eq] at listed
      obtain ⟨entry, inside, found⟩ := List.mem_filterMap.mp listed
      obtain ⟨plain, same, _⟩ := (ruled_eq_some _).mp found
      have cases_ := (mem_generatedWorkspace entry).mp inside
      simp only [List.mem_cons, List.not_mem_nil, or_false] at cases_
      rw [same]
      rcases cases_ with rfl | rfl
      · exact Nat.le_refl _
      · cases plain
  have isDropped : dropped buildIgnored generatedWorkspace file = true := by
    rw [dropped_eq, nearest]
    rfl
  exact fun claim => notIgnored (claim.mp isDropped)

end CaffeineLs.Server.Workspace
