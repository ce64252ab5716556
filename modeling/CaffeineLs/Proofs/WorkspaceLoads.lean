/-
Module: CaffeineLs.Proofs.WorkspaceLoads
Purpose: When loading several workspace folders leaves every file the source set and the classpath that
  its own folder's build model gives it.
Trusted boundary: none
Main exports: RootOf, modelSet, folders_kept_iff
-/
import CaffeineLs.Server.WorkspaceFolders
import Mathlib.Data.Fintype.EquivFin

namespace CaffeineLs.Server.Workspace

open DeepestPrefix

/-! ### What a folder's build model gives -/

/-- A source root of the build model, generated or not. -/
def RootOf (graph : WorkspaceGraph) (root : Path) : Prop :=
  ∃ project ∈ graph.projects, ∃ sourceSet ∈ project.2.sourceSets,
    root ∈ sourceSet.2.sourceRoots ++ sourceSet.2.generatedSourceRoots

/-- The source set of the most specific source root above a file. -/
def modelSet (graph : WorkspaceGraph) (path : Path) : Option SourceSetId :=
  (deepest Prod.fst (workspaceEntries graph) path).map fun entry => entry.2.1

/-- The source set that a load assigns to a path: that of its most specific root. A library's root has
none, and a path outside all roots is detached. -/
def assignedSet (loaded : LoadedWorkspace) (path : Path) : Option SourceSetId :=
  match deepest RootEntry.path (entries loaded) path with
  | none => some detachedSourceSet
  | some (.workspace _ id _) => some id
  | some _ => none

/-- Every file below a source root of the folder is in the source set that its build model gives it, with
the classpath that loading the folder alone gives. -/
def Kept (partition : Partition) (s : ServerState) (loaded : LoadedWorkspace) : Prop :=
  ∀ root, RootOf loaded.graph root → ∀ path, root <+: path → root ≠ path →
    ∃ id, modelSet loaded.graph path = some id ∧ s.sourceSetFor partition path = some id ∧
      s.classpathFor id = (applyLoadedGraph initial loaded).classpathFor id

/-- The last load gives the path the source set and the classpath that the folder's own model does. -/
def AgreesAt (last loaded : LoadedWorkspace) (path : Path) : Prop :=
  ∃ id, modelSet loaded.graph path = some id ∧ assignedSet last path = some id ∧
    (applyLoadedGraph initial last).classpathFor id =
      (applyLoadedGraph initial loaded).classpathFor id

/-- The two agree at every source root of the folder, and at every root of the last load inside one. -/
def Agrees (last loaded : LoadedWorkspace) : Prop :=
  (∀ root, RootOf loaded.graph root → AgreesAt last loaded root) ∧
    ∀ entry ∈ entries last, (∃ root, RootOf loaded.graph root ∧ root <+: entry.path) →
      AgreesAt last loaded entry.path

/-! ### What the last load assigns -/

theorem mem_of_mem_firsts {A K : Type} [DecidableEq K] {key : A → K} {seen : List K} {as : List A}
    {a : A} (member : a ∈ firsts key seen as) : a ∈ as := by
  induction as generalizing seen with
  | nil => cases member
  | cons head rest ih =>
      simp only [firsts] at member
      by_cases again : key head ∈ seen
      · rw [if_pos again] at member
        exact List.mem_cons_of_mem _ (ih member)
      · rw [if_neg again] at member
        rcases List.mem_cons.mp member with rfl | member
        · exact List.mem_cons_self
        · exact List.mem_cons_of_mem _ (ih member)

theorem rootOf_of_mem {graph : WorkspaceGraph} {entry : Path × SourceSetId × Bool}
    (member : entry ∈ workspaceEntries graph) : RootOf graph entry.1 := by
  have listed := mem_of_mem_firsts (List.mem_mergeSort.mp member)
  obtain ⟨⟨id, sourceSet⟩, owner, listed⟩ := List.mem_flatMap.mp listed
  obtain ⟨project, inGraph, found⟩ := List.mem_flatMap.mp (mem_of_mem_firsts owner)
  obtain ⟨⟨kind, data⟩, inProject, same⟩ := List.mem_map.mp found
  obtain ⟨-, rfl⟩ := Prod.mk.inj same
  refine ⟨project, inGraph, _, inProject, ?_⟩
  rcases List.mem_append.mp listed with written | generated
  · obtain ⟨root, inSet, rfl⟩ := List.mem_map.mp written
    exact List.mem_append_left _ inSet
  · obtain ⟨root, inSet, rfl⟩ := List.mem_map.mp generated
    exact List.mem_append_right _ inSet

/-- The source set of a file is that of its most specific root, by way of the number of the root. -/
theorem sourceSetFor_applied {partition : Partition} (documented : partition.Documented)
    (s : ServerState) (loaded : LoadedWorkspace) (path : Path) :
    (applyLoadedGraph s loaded).sourceSetFor partition path = assignedSet loaded path := by
  have numbered : ((entries loaded).map RootEntry.path).zipIdx =
      (entries loaded).zipIdx.map fun (entry, i) => (entry.path, i) := by
    rw [List.zipIdx_map]
    rfl
  have plain : deepest RootEntry.path (entries loaded) path =
      (deepest (fun pair : RootEntry × Nat => pair.1.path) (entries loaded).zipIdx path).map
        Prod.fst := by
    rw [← deepest_map, List.zipIdx_map_fst]
  simp only [ServerState.sourceSetFor, applyLoadedGraph, Option.bind_some, buildProjectGraph,
    documented _ path, numbered, deepest_map, assignedSet, plain, List.length_map]
  cases found : deepest (fun pair : RootEntry × Nat => pair.1.path) (entries loaded).zipIdx path with
  | none => simp
  | some pair =>
      obtain ⟨entry, i⟩ := pair
      have listed : (entries loaded)[i]? = some entry := by
        have member := (deepest_spec found).1
        exact List.mem_zipIdx_iff_getElem?.mp member
      have inside : i ≠ (entries loaded).length := by
        intro outside
        rw [outside, List.getElem?_eq_none (Nat.le_refl _)] at listed
        cases listed
      simp only [Option.map_some, Option.getD_some, if_neg inside, listed]
      cases entry <;> rfl

/-! ### From the roots to the files -/

/-- Two paths that the same roots contain have the same source sets. -/
theorem agreesAt_congr {last loaded : LoadedWorkspace} {one two : Path}
    (model : ∀ entry ∈ workspaceEntries loaded.graph, (entry.1 <+: one ↔ entry.1 <+: two))
    (assigned : ∀ entry ∈ entries last, (entry.path <+: one ↔ entry.path <+: two)) :
    AgreesAt last loaded one ↔ AgreesAt last loaded two := by
  unfold AgreesAt modelSet assignedSet
  rw [deepest_congr model, deepest_congr assigned]

/-- A file below a root is assigned as the most specific root of the two models that contains it. -/
theorem agreesAt_of_agrees {last loaded : LoadedWorkspace} (agrees : Agrees last loaded)
    {root path : Path} (isRoot : RootOf loaded.graph root) (below : root <+: path) :
    AgreesAt last loaded path := by
  let roots := root :: ((workspaceEntries loaded.graph).map Prod.fst ++
    (entries last).map RootEntry.path)
  cases found : deepest id roots path with
  | none => exact absurd below (deepest_eq_none_iff.mp found root List.mem_cons_self)
  | some nearest =>
      obtain ⟨member, contains, longest⟩ := deepest_spec found
      have inside : ∀ other ∈ roots, (other <+: path ↔ other <+: nearest) := by
        intro other listed
        constructor
        · intro contained
          exact List.prefix_of_prefix_length_le contained contains (longest other listed contained)
        · intro contained
          exact contained.trans contains
      apply (agreesAt_congr _ _).mpr
      · show AgreesAt last loaded nearest
        rcases List.mem_cons.mp member with rfl | member
        · exact agrees.1 _ isRoot
        · rcases List.mem_append.mp member with own | others
          · obtain ⟨entry, listed, rfl⟩ := List.mem_map.mp own
            exact agrees.1 _ (rootOf_of_mem listed)
          · obtain ⟨entry, listed, rfl⟩ := List.mem_map.mp others
            exact agrees.2 entry listed
              ⟨root, isRoot, (inside root List.mem_cons_self).mp below⟩
      · intro entry listed
        exact inside _ (List.mem_cons_of_mem _ (List.mem_append_left _
          (List.mem_map.mpr ⟨entry, listed, rfl⟩)))
      · intro entry listed
        exact inside _ (List.mem_cons_of_mem _ (List.mem_append_right _
          (List.mem_map.mpr ⟨entry, listed, rfl⟩)))

/-- Some file directly below a path is no root itself. -/
theorem exists_file_below (roots : List Path) (path : Path) :
    ∃ name, ∀ root ∈ roots, (root <+: path ++ [name] ↔ root <+: path) := by
  obtain ⟨name, fresh⟩ := Infinite.exists_notMem_finset (roots.filterMap List.getLast?).toFinset
  refine ⟨name, ?_⟩
  intro root member
  have distinct : root ≠ path ++ [name] := by
    rintro rfl
    apply fresh
    rw [List.mem_toFinset, List.mem_filterMap]
    exact ⟨_, member, List.getLast?_concat⟩
  rw [List.prefix_concat_iff]
  simp [distinct]

theorem agreesAt_of_kept {partition : Partition} {last loaded : LoadedWorkspace} {s : ServerState}
    (documented : partition.Documented) (kept : Kept partition (applyLoadedGraph s last) loaded)
    {root path : Path} (isRoot : RootOf loaded.graph root) (below : root <+: path) :
    AgreesAt last loaded path := by
  obtain ⟨name, same⟩ := exists_file_below
    ((workspaceEntries loaded.graph).map Prod.fst ++ (entries last).map RootEntry.path) path
  have strictly : root ≠ path ++ [name] := by
    rintro rfl
    have longer := below.length_le
    rw [List.length_append] at longer
    exact Nat.not_succ_le_self _ longer
  obtain ⟨id, model, assigned, classpath⟩ :=
    kept root isRoot (path ++ [name]) (below.trans (List.prefix_append _ _)) strictly
  rw [sourceSetFor_applied documented] at assigned
  apply (agreesAt_congr _ _).mp ⟨id, model, assigned, classpath⟩
  · intro entry listed
    exact same _ (List.mem_append_left _ (List.mem_map.mpr ⟨entry, listed, rfl⟩))
  · intro entry listed
    exact same _ (List.mem_append_right _ (List.mem_map.mpr ⟨entry, listed, rfl⟩))

/-- After folders were loaded one after another, the files of each are in the source sets of its own build
model, with their classpaths, exactly when the last one loaded agrees with each at the source roots. -/
theorem folders_kept_iff {partition : Partition} (documented : partition.Documented)
    (earlier : List LoadedWorkspace) (last : LoadedWorkspace) :
    (∀ loaded ∈ earlier ++ [last],
      Kept partition ((earlier ++ [last]).foldl applyLoadedGraph initial) loaded) ↔
    ∀ loaded ∈ earlier ++ [last], Agrees last loaded := by
  rw [List.foldl_append]
  constructor
  · intro kept loaded member
    constructor
    · intro root isRoot
      exact agreesAt_of_kept documented (kept loaded member) isRoot (List.prefix_refl root)
    · intro entry _ inside
      obtain ⟨root, isRoot, below⟩ := inside
      exact agreesAt_of_kept documented (kept loaded member) isRoot below
  · intro agrees loaded member root isRoot path below _
    obtain ⟨id, model, assigned, classpath⟩ :=
      agreesAt_of_agrees (agrees loaded member) isRoot below
    refine ⟨id, model, ?_, classpath⟩
    exact (sourceSetFor_applied documented _ last path).trans assigned

/-! ### Plain folders -/

def bySpecificRoot : Partition where
  classify roots path := ((deepest Prod.fst roots.zipIdx path).map Prod.snd).getD roots.length

/-- A folder without a build system: one project with one source root. -/
def plainFolder (root : Path) : LoadedWorkspace :=
  ⟨⟨[(⟨0⟩, ⟨⟨0⟩, [(.main, ⟨[root], [], []⟩)]⟩)], [], []⟩, [], []⟩

def folderA : LoadedWorkspace := plainFolder [['a']]

def folderB : LoadedWorkspace := plainFolder [['b']]

/-- A folder that is loaded again keeps its files. -/
theorem reloaded_folder_kept :
    Kept bySpecificRoot ([folderA, folderA].foldl applyLoadedGraph initial) folderA := by
  apply (folders_kept_iff (fun _ _ => rfl) [folderA] folderA).mpr _ folderA List.mem_cons_self
  have here : AgreesAt folderA folderA [['a']] :=
    ⟨⟨⟨0⟩, .main⟩, by decide +kernel, by decide +kernel, rfl⟩
  intro loaded member
  obtain rfl : loaded = folderA := by simpa using member
  constructor
  · intro root isRoot
    obtain rfl : root = [['a']] := by simpa [RootOf, folderA, plainFolder] using isRoot
    exact here
  · intro entry listed _
    have only : entries folderA = [.workspace [['a']] ⟨⟨0⟩, .main⟩ false] := by decide +kernel
    rw [only, List.mem_singleton] at listed
    subst listed
    exact here

/-- The second of two folders takes the files of the first one out of their source set. -/
theorem first_folder_not_kept :
    ¬ ∀ earlier last, ∀ loaded ∈ earlier ++ [last],
      Kept bySpecificRoot ((earlier ++ [last]).foldl applyLoadedGraph initial) loaded := by
  intro kept
  have isRoot : RootOf folderA.graph [['a']] :=
    ⟨_, List.mem_cons_self, _, List.mem_cons_self, List.mem_cons_self⟩
  obtain ⟨id, model, assigned, _⟩ := kept [folderA] folderB folderA List.mem_cons_self [['a']]
    isRoot [['a'], ['F']] ⟨[['F']], rfl⟩ (by decide)
  have owner : modelSet folderA.graph [['a'], ['F']] = some ⟨⟨0⟩, .main⟩ := by decide +kernel
  rw [owner] at model
  obtain rfl := Option.some.inj model
  revert assigned
  decide +kernel

end CaffeineLs.Server.Workspace
