/-
Module: CaffeineLs.Proofs.DepIndex
Purpose: The visitor of class references sees what stands outside Kotlin's wrappers, and the
  dependency set of a file is the closure of what its walked types mention there.
Trusted boundary: none
Main exports: mem_visited_iff, JavaDeps.mem_deps_iff, references_and_deps_complete_iff
-/
import CaffeineLs.HirTy.DepIndex

namespace CaffeineLs.HirTy

open HirExpand HirDef Worklist Collect

/-! ### The visitor -/

/-- The calls the visitor gets on a list of types. -/
def Ty.visitedIn (tys : List Ty) : List (Name × Option SourceClass) :=
  Ty.forEachReferenceIn (fun name loc calls => calls ++ [(name, loc)]) tys []

mutual

theorem Ty.forEachReference_calls (ty : Ty) (calls : List (Name × Option SourceClass)) :
    ty.forEachReference (fun name loc calls => calls ++ [(name, loc)]) calls =
      calls ++ ty.visited := by
  cases ty with
  | reference name args loc =>
      simp only [Ty.visited, Ty.forEachReference]
      rw [Ty.forEachReferenceIn_calls args, Ty.forEachReferenceIn_calls args ([] ++ [(name, loc)])]
      simp
  | array inner =>
      simp only [Ty.visited, Ty.forEachReference]
      exact Ty.forEachReference_calls inner calls
  | wildcard bound =>
      rcases bound with _ | ⟨kind, ty⟩
      · simp [Ty.visited, Ty.forEachReference]
      · simp only [Ty.visited, Ty.forEachReference]
        exact Ty.forEachReference_calls ty calls
  | typeVar scope bounds lower =>
      cases lower with
      | none =>
          simp only [Ty.visited, Ty.forEachReference]
          exact Ty.forEachReferenceIn_calls bounds calls
      | some lower =>
          simp only [Ty.visited, Ty.forEachReference]
          rw [Ty.forEachReferenceIn_calls bounds, Ty.forEachReference_calls lower,
            Ty.forEachReference_calls lower (Ty.forEachReferenceIn _ bounds [])]
          simp [Ty.visitedIn]
  | intersection members =>
      simp only [Ty.visited, Ty.forEachReference]
      exact Ty.forEachReferenceIn_calls members calls
  | _ => simp [Ty.visited, Ty.forEachReference]

theorem Ty.forEachReferenceIn_calls (tys : List Ty) (calls : List (Name × Option SourceClass)) :
    Ty.forEachReferenceIn (fun name loc calls => calls ++ [(name, loc)]) tys calls =
      calls ++ Ty.visitedIn tys := by
  cases tys with
  | nil => simp [Ty.visitedIn, Ty.forEachReferenceIn]
  | cons ty tys =>
      simp only [Ty.visitedIn, Ty.forEachReferenceIn]
      rw [Ty.forEachReference_calls ty, Ty.forEachReference_calls ty [],
        Ty.forEachReferenceIn_calls tys, Ty.forEachReferenceIn_calls tys ([] ++ ty.visited)]
      simp

end

section Visited

variable {name : Name} {args bounds members tys : List Ty} {loc : Option SourceClass}
  {scope : TypeVarScope} {ty inner lower : Ty} {kind : BoundKind}

@[simp] theorem Ty.visited_reference :
    (Ty.reference name args loc).visited = (name, loc) :: Ty.visitedIn args := by
  rw [Ty.visited, Ty.forEachReference, Ty.forEachReferenceIn_calls]
  rfl

@[simp] theorem Ty.visited_array : (Ty.array inner).visited = inner.visited := by
  rw [Ty.visited, Ty.forEachReference, Ty.visited]

@[simp] theorem Ty.visited_wildcard : (Ty.wildcard (some (kind, inner))).visited = inner.visited := by
  rw [Ty.visited, Ty.forEachReference, Ty.visited]

@[simp] theorem Ty.visited_typeVar :
    (Ty.typeVar scope bounds none).visited = Ty.visitedIn bounds := by
  rw [Ty.visited, Ty.forEachReference, Ty.visitedIn]

@[simp] theorem Ty.visited_typeVar_lower :
    (Ty.typeVar scope bounds (some lower)).visited = Ty.visitedIn bounds ++ lower.visited := by
  rw [Ty.visited, Ty.forEachReference, Ty.forEachReference_calls, Ty.visitedIn]

@[simp] theorem Ty.visited_intersection :
    (Ty.intersection members).visited = Ty.visitedIn members := by
  rw [Ty.visited, Ty.forEachReference, Ty.visitedIn]

@[simp] theorem Ty.visitedIn_nil : Ty.visitedIn [] = [] := rfl

@[simp] theorem Ty.visitedIn_cons :
    Ty.visitedIn (ty :: tys) = ty.visited ++ Ty.visitedIn tys := by
  rw [Ty.visitedIn, Ty.forEachReferenceIn, Ty.forEachReferenceIn_calls, Ty.visited]

theorem Ty.visitedIn_eq_flatMap : Ty.visitedIn tys = tys.flatMap Ty.visited := by
  induction tys with
  | nil => rfl
  | cons ty tys ih => rw [Ty.visitedIn_cons, ih, List.flatMap_cons]

end Visited

section Visitor

variable {σ : Type} (f : Name → Option SourceClass → σ → σ)

mutual

/-- Running a visitor is folding it over the calls. -/
theorem Ty.forEachReference_eq_foldl (ty : Ty) (s : σ) :
    ty.forEachReference f s = ty.visited.foldl (fun s call => f call.1 call.2 s) s := by
  cases ty with
  | reference name args loc =>
      rw [Ty.forEachReference, Ty.visited_reference, List.foldl_cons]
      exact Ty.forEachReferenceIn_eq_foldl args _
  | array inner =>
      rw [Ty.forEachReference, Ty.visited_array]
      exact Ty.forEachReference_eq_foldl inner s
  | wildcard bound =>
      rcases bound with _ | ⟨kind, ty⟩
      · rfl
      · rw [Ty.forEachReference, Ty.visited_wildcard]
        exact Ty.forEachReference_eq_foldl ty s
  | typeVar scope bounds lower =>
      cases lower with
      | none =>
          rw [Ty.forEachReference, Ty.visited_typeVar]
          exact Ty.forEachReferenceIn_eq_foldl bounds s
      | some lower =>
          rw [Ty.forEachReference, Ty.visited_typeVar_lower, List.foldl_append,
            Ty.forEachReference_eq_foldl lower, Ty.forEachReferenceIn_eq_foldl bounds]
  | intersection members =>
      rw [Ty.forEachReference, Ty.visited_intersection]
      exact Ty.forEachReferenceIn_eq_foldl members s
  | _ => rfl

theorem Ty.forEachReferenceIn_eq_foldl (tys : List Ty) (s : σ) :
    Ty.forEachReferenceIn f tys s =
      (Ty.visitedIn tys).foldl (fun s call => f call.1 call.2 s) s := by
  cases tys with
  | nil => rfl
  | cons ty tys =>
      rw [Ty.forEachReferenceIn, Ty.visitedIn_cons, List.foldl_append,
        Ty.forEachReference_eq_foldl ty, Ty.forEachReferenceIn_eq_foldl tys]

end

end Visitor

/-! ### The visitor sees what is mentioned outside Kotlin's wrappers -/

variable {name : Name} {loc : Option SourceClass}

theorem Ty.MentionsOpenly.inside {outer inner : Ty} (part : outer.OpenPart inner)
    (openly : inner.MentionsOpenly name loc) : outer.MentionsOpenly name loc := by
  obtain ⟨args, path⟩ := openly
  exact ⟨args, .head part path⟩

mutual

theorem Ty.mentionsOpenly_of_visited (ty : Ty) (call : (name, loc) ∈ ty.visited) :
    ty.MentionsOpenly name loc := by
  cases ty with
  | reference name' args loc' =>
      rw [Ty.visited_reference] at call
      rcases List.mem_cons.mp call with here | there
      · obtain ⟨rfl, rfl⟩ := Prod.mk.inj here
        exact ⟨args, .refl⟩
      · obtain ⟨arg, inside, openly⟩ := Ty.mentionsOpenly_of_visitedIn args there
        exact openly.inside (.arg inside)
  | array inner =>
      rw [Ty.visited_array] at call
      exact (Ty.mentionsOpenly_of_visited inner call).inside .element
  | wildcard bound =>
      rcases bound with _ | ⟨kind, ty⟩
      · simp [Ty.visited, Ty.forEachReference] at call
      · rw [Ty.visited_wildcard] at call
        exact (Ty.mentionsOpenly_of_visited ty call).inside .wildcardBound
  | typeVar scope bounds lower =>
      cases lower with
      | none =>
          rw [Ty.visited_typeVar] at call
          obtain ⟨bound, inside, openly⟩ := Ty.mentionsOpenly_of_visitedIn bounds call
          exact openly.inside (.variableBound inside)
      | some lower =>
          rw [Ty.visited_typeVar_lower] at call
          rcases List.mem_append.mp call with upper | below
          · obtain ⟨bound, inside, openly⟩ := Ty.mentionsOpenly_of_visitedIn bounds upper
            exact openly.inside (.variableBound inside)
          · exact (Ty.mentionsOpenly_of_visited lower below).inside .lowerBound
  | intersection members =>
      rw [Ty.visited_intersection] at call
      obtain ⟨member, inside, openly⟩ := Ty.mentionsOpenly_of_visitedIn members call
      exact openly.inside (.member inside)
  | _ => simp [Ty.visited, Ty.forEachReference] at call

theorem Ty.mentionsOpenly_of_visitedIn (tys : List Ty) (call : (name, loc) ∈ Ty.visitedIn tys) :
    ∃ ty ∈ tys, ty.MentionsOpenly name loc := by
  cases tys with
  | nil => simp at call
  | cons ty tys =>
      rw [Ty.visitedIn_cons] at call
      rcases List.mem_append.mp call with here | there
      · exact ⟨ty, List.mem_cons_self, Ty.mentionsOpenly_of_visited ty here⟩
      · obtain ⟨ty', inside, openly⟩ := Ty.mentionsOpenly_of_visitedIn tys there
        exact ⟨ty', List.mem_cons_of_mem _ inside, openly⟩

end

theorem Ty.mem_visitedIn {tys : List Ty} {ty : Ty} (inside : ty ∈ tys)
    (call : (name, loc) ∈ ty.visited) : (name, loc) ∈ Ty.visitedIn tys := by
  rw [Ty.visitedIn_eq_flatMap]
  exact List.mem_flatMap.mpr ⟨ty, inside, call⟩

/-- The visitor is called with a class exactly when it is mentioned outside Kotlin's wrappers. -/
theorem Ty.mem_visited_iff {ty : Ty} : (name, loc) ∈ ty.visited ↔ ty.MentionsOpenly name loc := by
  constructor
  · exact Ty.mentionsOpenly_of_visited ty
  · rintro ⟨args, path⟩
    induction path using Relation.ReflTransGen.head_induction_on with
    | refl => simp
    | head part _ ih =>
        cases part with
        | arg inside =>
            rw [Ty.visited_reference]
            exact List.mem_cons_of_mem _ (Ty.mem_visitedIn inside ih)
        | element => rwa [Ty.visited_array]
        | wildcardBound => rwa [Ty.visited_wildcard]
        | @variableBound scope bounds lower ty inside =>
            cases lower with
            | none =>
                rw [Ty.visited_typeVar]
                exact Ty.mem_visitedIn inside ih
            | some lower =>
                rw [Ty.visited_typeVar_lower]
                exact List.mem_append_left _ (Ty.mem_visitedIn inside ih)
        | lowerBound =>
            rw [Ty.visited_typeVar_lower]
            exact List.mem_append_right _ ih
        | member inside =>
            rw [Ty.visited_intersection]
            exact Ty.mem_visitedIn inside ih

/-! ### Recording -/

/-- What a dependency set holds: files, and classes whose supertypes are walked. -/
inductive Target where
  | source (source : SourceClass)
  | file (file : FileId)

def Deps.Holds (s : Deps) : Target → Prop
  | .source source => source ∈ s.agenda.visited
  | .file file => file ∈ s.out

def Deps.seen (s : Deps) : Set Target := {t | s.Holds t}

/-- What recording a source class adds. -/
def sourceTargets (file : FileId) (source : SourceClass) : Set Target :=
  {t | source.file ≠ file ∧ (t = .source source ∨ t = .file source.file)}

/-- What recording a file adds. -/
def fileTargets (file target : FileId) : Set Target := {t | target ≠ file ∧ t = .file target}

/-- The worklist of `s'` goes on from that of `s`. -/
structure Deps.Grows (classes : Finset SourceClass) (s s' : Deps) : Prop where
  waits : ∀ b ∈ s.agenda.queue, b ∈ s'.agenda.queue
  fresh : ∀ b ∈ s'.agenda.visited, b ∈ s.agenda.visited ∨ b ∈ s'.agenda.queue
  queued : ∀ b ∈ s'.agenda.queue, b ∈ s.agenda.queue ∨ b ∈ s'.agenda.visited
  grown : s.agenda.visited ⊆ s'.agenda.visited
  weight : s'.agenda.weight classes ≤ s.agenda.weight classes

variable {classes : Finset SourceClass}

theorem Deps.Grows.refl (s : Deps) : s.Grows classes s :=
  ⟨fun _ waits => waits, fun _ visited => .inl visited, fun _ waits => .inl waits, subset_rfl,
    Nat.le_refl _⟩

theorem Deps.Grows.trans {s s' s'' : Deps} (first : s.Grows classes s')
    (second : s'.Grows classes s'') : s.Grows classes s'' := by
  constructor
  · exact fun b waits => second.waits b (first.waits b waits)
  · intro b visited
    rcases second.fresh b visited with before | waits
    · rcases first.fresh b before with old | waits
      · exact .inl old
      · exact .inr (second.waits b waits)
    · exact .inr waits
  · intro b waits
    rcases second.queued b waits with before | visited
    · rcases first.queued b before with old | visited
      · exact .inl old
      · exact .inr (second.grown visited)
    · exact .inr visited
  · exact first.grown.trans second.grown
  · exact second.weight.trans first.weight

/-- A function that records exactly `S`, and queues the classes that are new. -/
structure Records (classes : Finset SourceClass) (g : Deps → Deps) (S : Set Target) : Prop where
  collects : Collects Deps.seen g S
  grows : ∀ s : Deps, s.Grows classes (g s)

variable {g h : Deps → Deps} {S T : Set Target}

theorem Records.congr (records : Records classes g S) (same : S = T) : Records classes g T :=
  same ▸ records

theorem Records.id : Records classes (fun s => s) ∅ := ⟨Collects.id, .refl⟩

theorem Records.comp (first : Records classes g S) (second : Records classes h T) :
    Records classes (fun s => h (g s)) (S ∪ T) :=
  ⟨first.collects.comp second.collects, fun s => (first.grows s).trans (second.grows (g s))⟩

theorem Records.foldl {α : Type} {step : Deps → α → Deps} {S : α → Set Target} (xs : List α)
    (each : ∀ x ∈ xs, Records classes (fun s => step s x) (S x)) :
    Records classes (fun s => xs.foldl step s) (⋃ x ∈ xs, S x) := by
  constructor
  · exact Collects.foldl xs fun x there => (each x there).collects
  · induction xs with
    | nil => exact .refl
    | cons x xs ih =>
        intro s
        have here := (each x List.mem_cons_self).grows s
        exact here.trans (ih (fun y there => each y (List.mem_cons_of_mem x there)) _)

/-- Recording a class of the workspace. -/
theorem records_sourceClass {file : FileId} {source : SourceClass} (known : source ∈ classes) :
    Records classes (Deps.recordSourceClass file source) (sourceTargets file source) := by
  constructor
  · intro s
    ext t
    rw [Deps.recordSourceClass]
    split
    · rename_i own
      simp [sourceTargets, own]
    · rename_i other
      cases t with
      | source b => simp [Deps.seen, Deps.Holds, sourceTargets, other, Agenda.mem_visited_push, or_comm]
      | file f => simp [Deps.seen, Deps.Holds, sourceTargets, other, or_comm]
  · intro s
    rw [Deps.recordSourceClass]
    split
    · exact .refl s
    · exact {
        waits := fun b waits => Agenda.mem_queue_push_of_mem waits
        fresh := fun b visited => Agenda.fresh_push visited
        queued := fun b waits => Agenda.queued_push waits
        grown := Agenda.visited_subset_push _ _
        weight := Agenda.weight_push known _ }

theorem records_file {file target : FileId} :
    Records classes (Deps.recordFile file target) (fileTargets file target) := by
  constructor
  · intro s
    ext t
    rw [Deps.recordFile]
    split
    · rename_i own
      simp [fileTargets, own]
    · rename_i other
      cases t with
      | source b => simp [Deps.seen, Deps.Holds, fileTargets]
      | file f => simp [Deps.seen, Deps.Holds, fileTargets, other]
  · intro s
    rw [Deps.recordFile]
    split
    · exact .refl s
    · have same : s.Grows classes s := .refl s
      exact ⟨same.waits, same.fresh, same.queued, same.grown, same.weight⟩

/-! ### The worklist -/

/-- What the open mentions of a type record. -/
def mentionTargets (calls : Name → Option SourceClass → Set Target) (ty : Ty) : Set Target :=
  {t | ∃ name loc, ty.MentionsOpenly name loc ∧ t ∈ calls name loc}

section Drained

variable {record : Name → Option SourceClass → Deps → Deps}
  {calls : Name → Option SourceClass → Set Target}
  (records : ∀ name loc, Records classes (record name loc) (calls name loc))

include records

theorem records_forEachReference (ty : Ty) :
    Records classes (fun s => ty.forEachReference record s) (mentionTargets calls ty) := by
  simp only [Ty.forEachReference_eq_foldl]
  apply (Records.foldl _ fun call _ => records call.1 call.2).congr
  ext t
  simp only [Set.mem_iUnion, mentionTargets, Set.mem_ofPred_eq, exists_prop, Prod.exists,
    Ty.mem_visited_iff]

theorem records_forEachReferenceOf (tys : List Ty) :
    Records classes (fun s => forEachReferenceOf record tys s)
      (⋃ ty ∈ tys, mentionTargets calls ty) := by
  exact Records.foldl tys fun ty _ => records_forEachReference records ty

/-- The loop over the supertypes of the queued classes. -/
def depsFrontier (supers : SourceClass → List Ty) : Frontier Deps SourceClass Target where
  pop := Deps.pop
  step source := forEachReferenceOf record (supers source)
  seen := Deps.seen
  waits s source := source ∈ s.agenda.queue
  item := .source
  adds source := ⋃ ty ∈ supers source, mentionTargets calls ty
  popNone := by
    intro s a popped
    cases queue : s.agenda.queue with
    | nil => simp
    | cons b bs => simp [Deps.pop, queue] at popped
  popSeen := by
    intro s a rest popped
    cases queue : s.agenda.queue with
    | nil => simp [Deps.pop, queue] at popped
    | cons b bs =>
        simp only [Deps.pop, queue, Option.some.injEq, Prod.mk.injEq] at popped
        obtain ⟨rfl, rfl⟩ := popped
        rfl
  popWaits := by
    intro s a rest popped
    cases queue : s.agenda.queue with
    | nil => simp [Deps.pop, queue] at popped
    | cons b bs =>
        simp only [Deps.pop, queue, Option.some.injEq, Prod.mk.injEq] at popped
        obtain ⟨rfl, rfl⟩ := popped
        simp
  stepSeen source := (records_forEachReferenceOf records (supers source)).collects
  stepWaits := fun {a b s} waits =>
    ((records_forEachReferenceOf records (supers a)).grows s).waits b waits
  stepNew := fun {a b s} there =>
    ((records_forEachReferenceOf records (supers a)).grows s).fresh b there
  stepQueued := fun {a b s} waits =>
    ((records_forEachReferenceOf records (supers a)).grows s).queued b waits

/-- The files the loop leaves are those of what is reached from what was recorded before it. -/
theorem drained_deps {start : Deps → Deps} {roots : Set Target}
    (begins : Records classes start roots) (supers : SourceClass → List Ty) {fuel : Nat}
    {deps : Finset FileId}
    (drained : (drain Deps.pop (fun source => forEachReferenceOf record (supers source)) fuel
      (start .empty)).map Deps.out = some deps) {file : FileId} :
    file ∈ deps ↔ Reached Target.source
      (fun source => ⋃ ty ∈ supers source, mentionTargets calls ty) roots (.file file) := by
  have grown := begins.grows .empty
  have seen : (start .empty).seen = roots := by
    have added := begins.collects .empty
    have nothing : Deps.empty.seen = ∅ := by
      ext t
      cases t <;> simp [Deps.seen, Deps.Holds, Deps.empty]
    rwa [nothing, Set.empty_union] at added
  have sound : (depsFrontier records supers).Sound roots (start .empty) := by
    constructor
    · intro t there
      exact .root (seen ▸ there)
    · exact seen.ge
    · intro a waits
      rcases grown.queued a waits with before | visited
      · exact absurd before (by simp [Deps.empty])
      · exact visited
    · intro a there
      rcases grown.fresh a there with before | waits
      · exact absurd before (by simp [Deps.empty])
      · exact .inl waits
  obtain ⟨last, ended, rfl⟩ := Option.map_eq_some_iff.mp drained
  have all := (depsFrontier records supers).seen_drained sound ended
  exact Set.ext_iff.mp all (.file file)

/-- The loop comes to an end. -/
theorem drain_ends (supers : SourceClass → List Ty) (s : Deps) :
    ∃ fuel deps, (drain Deps.pop (fun source => forEachReferenceOf record (supers source)) fuel
      s).map Deps.out = some deps := by
  have lowers : ∀ s a rest, True → Deps.pop s = some (a, rest) →
      (forEachReferenceOf record (supers a) rest).agenda.weight classes <
        s.agenda.weight classes := by
    intro s a rest _ popped
    have least := ((records_forEachReferenceOf records (supers a)).grows rest).weight
    cases queue : s.agenda.queue with
    | nil => simp [Deps.pop, queue] at popped
    | cons b bs =>
        simp only [Deps.pop, queue, Option.some.injEq, Prod.mk.injEq] at popped
        obtain ⟨rfl, rfl⟩ := popped
        simp only [Agenda.weight, queue, List.length_cons] at least ⊢
        omega
  obtain ⟨last, drained⟩ := drain_returns (fun s : Deps => s.agenda.weight classes)
    (fun _ _ _ _ _ => trivial) lowers trivial (Nat.lt_succ_self _)
  exact ⟨_, last.out, by rw [drained]; rfl⟩

end Drained

/-! ### The items of a tree -/

theorem collects_walkItems (tree : ItemTree) (fuel : Nat) (id : ItemId) :
    Collects (fun out : List (ItemId × ItemData) => {entry | entry ∈ out})
      (walkItems tree fuel id) (gathered tree.parts (fun id => {(id, tree.data id)}) fuel id) := by
  induction fuel generalizing id with
  | zero =>
      intro out
      simp [walkItems, gathered]
  | succ fuel ih =>
      have own : Collects (fun out : List (ItemId × ItemData) => {entry | entry ∈ out})
          (fun out => out ++ [(id, tree.data id)]) {(id, tree.data id)} := by
        intro out
        ext entry
        simp [or_comm]
      have members := Collects.foldl (tree.data id).body fun child _ => ih child
      have locals := Collects.foldl (tree.localTypesOf id) fun child _ => ih child
      apply ((own.comp members).comp locals).congr
      simp only [gathered, ItemTree.parts, Set.union_assoc]
      congr 1
      ext entry
      simp only [Set.mem_union, Set.mem_iUnion, List.mem_append, exists_prop]
      constructor
      · rintro (⟨child, inside, there⟩ | ⟨child, inside, there⟩)
        · exact ⟨child, .inl inside, there⟩
        · exact ⟨child, .inr inside, there⟩
      · rintro ⟨child, inside | inside, there⟩
        · exact .inl ⟨child, inside, there⟩
        · exact .inr ⟨child, inside, there⟩

/-- The walk lists the items of the tree, each with its data. -/
theorem mem_allItemsData_iff {tree : ItemTree} {entry : ItemId × ItemData} :
    entry ∈ allItemsData tree ↔ tree.Has entry.1 ∧ entry.2 = tree.data entry.1 := by
  have walked := Collects.foldl tree.top fun top _ =>
    collects_walkItems tree (tree.height top + 1) top
  have here := walked.mem (s := []) (b := entry)
  simp only [Set.mem_ofPred_eq, List.not_mem_nil, false_or, Set.mem_iUnion, exists_prop] at here
  rw [allItemsData, here]
  have meets : ∀ top, entry ∈ gathered tree.parts (fun id => {(id, tree.data id)})
      (tree.height top + 1) top ↔ Inside tree.parts top entry.1 ∧ entry.2 = tree.data entry.1 := by
    intro top
    rw [mem_gathered_iff tree.height (fun a part inside => tree.height_lt_of_mem_parts inside)
      (Nat.lt_succ_self _)]
    constructor
    · rintro ⟨id, inside, rfl⟩
      exact ⟨inside, rfl⟩
    · rintro ⟨inside, same⟩
      exact ⟨entry.1, inside, Prod.ext rfl same⟩
  constructor
  · rintro ⟨top, known, there⟩
    obtain ⟨inside, same⟩ := (meets top).mp there
    exact ⟨⟨top, known, inside⟩, same⟩
  · rintro ⟨⟨top, known, inside⟩, same⟩
    exact ⟨top, known, (meets top).mpr ⟨inside, same⟩⟩

theorem mem_allItems_iff {tree : ItemTree} {item : ItemId} : item ∈ allItems tree ↔ tree.Has item := by
  rw [allItems, List.mem_map]
  constructor
  · rintro ⟨entry, there, rfl⟩
    exact (mem_allItemsData_iff.mp there).1
  · intro has
    exact ⟨(item, tree.data item), mem_allItemsData_iff.mpr ⟨has, rfl⟩, rfl⟩

/-! ### Java files -/

variable {Scope : Type} (db : TyDatabase Scope) (file : FileId)

/-- A type of the file mentions a source class of another file, by a name that resolves to it. -/
def Mentioned (tys : Set Ty) (source : SourceClass) : Prop :=
  source.file ≠ file ∧ ∃ ty ∈ tys, ∃ name, ty.Mentions name none ∧
    db.fqnResolve (db.scopeForFile file) name = some (.source source)

namespace JavaDeps

/-- The inferred types of an item's body. -/
def inferredTypes (item : ItemId) : Set Ty :=
  {ty | ∃ types, db.bodyTypes file item = some types ∧ (ty ∈ types.exprs ∨ ty ∈ types.locals)}

/-- The declared and inferred types of a Java file. -/
def fileTypes : Set Ty :=
  {ty | ∃ item, (db.javaTree file).Has item ∧
    (ty = itemTy db file item ∨ ty ∈ methodParams db file item ∨ ty ∈ inferredTypes db file item ∨
      ∃ tyref ∈ ((db.javaTree file).data item).typeRefs, ty = db.resolveTypeRef file item tyref.ty)}

/-- The types the visitor is run over first. -/
def walkedTypes : Set Ty :=
  {ty | ∃ item, (db.javaTree file).Has item ∧
    (ty = itemTy db file item ∨ ty ∈ methodParams db file item ∨ ty ∈ inferredTypes db file item ∨
      isClassLike ((db.javaTree file).data item) ∧ ty ∈ db.sourceSupertypes ⟨file, item⟩)}

/-- What a call of the visitor records. -/
def calls (name : Name) (loc : Option SourceClass) : Set Target :=
  {t | loc = none ∧ ∃ source, db.fqnResolve (db.scopeForFile file) name = some (.source source) ∧
    t ∈ sourceTargets file source}

/-- What is reached from the open mentions of the walked types through those of supertypes. -/
def Reaches : Target → Prop :=
  Reached Target.source
    (fun source => ⋃ ty ∈ db.sourceSupertypes source, mentionTargets (calls db file) ty)
    (⋃ ty ∈ walkedTypes db file, mentionTargets (calls db file) ty)

theorem records_recordSource (name : Name) (loc : Option SourceClass) :
    Records db.classes (recordSource db file (db.scopeForFile file) name loc)
      (calls db file name loc) := by
  cases loc with
  | some source => exact Records.id.congr (by simp [calls])
  | none =>
      cases found : db.fqnResolve (db.scopeForFile file) name with
      | none =>
          have same : recordSource db file (db.scopeForFile file) name none = fun s => s := by
            funext s
            simp [recordSource, found]
          rw [same]
          exact Records.id.congr (by simp [calls, found])
      | some resolved =>
          cases resolved with
          | source source =>
              have same : recordSource db file (db.scopeForFile file) name none =
                  Deps.recordSourceClass file source := by
                funext s
                simp [recordSource, found]
              rw [same]
              apply (records_sourceClass (db.resolved found)).congr
              simp [calls, found]
          | library | facade =>
              have same : recordSource db file (db.scopeForFile file) name none = fun s => s := by
                funext s
                simp [recordSource, found]
              rw [same]
              exact Records.id.congr (by simp [calls, found])

theorem records_bodyTypes (item : ItemId) :
    Records db.classes
      (fun s =>
        match db.bodyTypes file item with
        | some types =>
            forEachReferenceOf (recordSource db file (db.scopeForFile file)) types.locals
              (forEachReferenceOf (recordSource db file (db.scopeForFile file)) types.exprs s)
        | none => s)
      (⋃ ty ∈ inferredTypes db file item, mentionTargets (calls db file) ty) := by
  have visits := records_forEachReferenceOf (records_recordSource db file)
  cases found : db.bodyTypes file item with
  | none => exact Records.id.congr (by simp [inferredTypes, found])
  | some types =>
      apply ((visits types.exprs).comp (visits types.locals)).congr
      ext t
      simp only [inferredTypes, found, Set.mem_union, Set.mem_iUnion, exists_prop,
        Set.mem_ofPred_eq, Option.some.injEq, exists_eq_left']
      constructor
      · rintro (⟨ty, inside, there⟩ | ⟨ty, inside, there⟩)
        · exact ⟨ty, .inl inside, there⟩
        · exact ⟨ty, .inr inside, there⟩
      · rintro ⟨ty, inside | inside, there⟩
        · exact .inl ⟨ty, inside, there⟩
        · exact .inr ⟨ty, inside, there⟩

theorem records_visitItem (item : ItemId) :
    Records db.classes
      (fun s => visitItem db file (recordSource db file (db.scopeForFile file)) s item)
      (mentionTargets (calls db file) (itemTy db file item) ∪
        (⋃ ty ∈ methodParams db file item, mentionTargets (calls db file) ty) ∪
        ⋃ ty ∈ inferredTypes db file item, mentionTargets (calls db file) ty) := by
  have visits := records_forEachReferenceOf (records_recordSource db file)
  have declared := records_forEachReference (records_recordSource db file)
    (itemTy db file item)
  have params : Records db.classes
      (fun s =>
        if ((db.javaTree file).data item).isMethod then
          forEachReferenceOf (recordSource db file (db.scopeForFile file))
            (methodParams db file item) s
        else s)
      (⋃ ty ∈ methodParams db file item, mentionTargets (calls db file) ty) := by
    split
    · exact visits _
    · rename_i other
      apply Records.id.congr
      cases data : (db.javaTree file).data item <;> simp [methodParams, data]
      simp [data, ItemData.isMethod] at other
  exact (declared.comp params).comp (records_bodyTypes db file item)

theorem records_visitSupertypes (entry : ItemId × ItemData) :
    Records db.classes
      (fun s => visitSupertypes db file (recordSource db file (db.scopeForFile file)) s entry)
      {t | isClassLike entry.2 ∧
        t ∈ ⋃ ty ∈ db.sourceSupertypes ⟨file, entry.1⟩, mentionTargets (calls db file) ty} := by
  cases classLike : isClassLike entry.2 with
  | true =>
      simp only [visitSupertypes, classLike, if_true]
      apply (records_forEachReferenceOf (records_recordSource db file) _).congr
      ext t
      simp
  | false =>
      simp only [visitSupertypes, classLike, Bool.false_eq_true, if_false]
      exact Records.id.congr (by simp)

/-- What is recorded before the loop is what the walked types mention openly. -/
theorem records_walked :
    Records db.classes
      (fun s => (allItemsData (db.javaTree file)).foldl
        (visitSupertypes db file (recordSource db file (db.scopeForFile file)))
        ((allItems (db.javaTree file)).foldl
          (visitItem db file (recordSource db file (db.scopeForFile file))) s))
      (⋃ ty ∈ walkedTypes db file, mentionTargets (calls db file) ty) := by
  have items := Records.foldl (allItems (db.javaTree file)) fun item _ =>
    records_visitItem db file item
  have supers := Records.foldl (allItemsData (db.javaTree file)) fun entry _ =>
    records_visitSupertypes db file entry
  apply (items.comp supers).congr
  ext t
  simp only [walkedTypes, Set.mem_union, Set.mem_iUnion, exists_prop, Set.mem_ofPred_eq,
    mem_allItems_iff]
  constructor
  · rintro (⟨item, has, (here | ⟨ty, inside, here⟩) | ⟨ty, inside, here⟩⟩ |
      ⟨entry, listed, classLike, ty, inside, here⟩)
    · exact ⟨_, ⟨item, has, .inl rfl⟩, here⟩
    · exact ⟨ty, ⟨item, has, .inr (.inl inside)⟩, here⟩
    · exact ⟨ty, ⟨item, has, .inr (.inr (.inl inside))⟩, here⟩
    · obtain ⟨has, same⟩ := mem_allItemsData_iff.mp listed
      exact ⟨ty, ⟨entry.1, has, .inr (.inr (.inr ⟨same ▸ classLike, inside⟩))⟩, here⟩
  · rintro ⟨ty, ⟨item, has, rfl | param | inferred | ⟨classLike, super⟩⟩, here⟩
    · exact .inl ⟨item, has, .inl (.inl here)⟩
    · exact .inl ⟨item, has, .inl (.inr ⟨ty, param, here⟩)⟩
    · exact .inl ⟨item, has, .inr ⟨ty, inferred, here⟩⟩
    · exact .inr ⟨(item, (db.javaTree file).data item), mem_allItemsData_iff.mpr ⟨has, rfl⟩,
        classLike, ty, super, here⟩

variable {db file}

/-- The dependencies of a Java file are the files of what is reached. -/
theorem mem_deps_iff {fuel : Nat} {deps : Finset FileId}
    (computed : fileResolvedDeps db file fuel = some deps) {target : FileId} :
    target ∈ deps ↔ Reaches db file (.file target) :=
  drained_deps (records_recordSource db file) (records_walked db file) db.sourceSupertypes computed

theorem fileResolvedDeps_ends : ∃ fuel deps, fileResolvedDeps db file fuel = some deps :=
  drain_ends (records_recordSource db file) db.sourceSupertypes _

end JavaDeps

/-! ### Kotlin files -/

namespace KotlinDeps

/-- The inferred types of a declaration's body, and those of a script's. -/
def inferredTypes (types : KotlinBodyTypes) : Set Ty := {ty | ty ∈ types.exprs ∨ ty ∈ types.locals}

/-- The types of a declaration that the visitor is run over. -/
def itemTypes (entry : ItemId × KotlinItemData) : Set Ty :=
  {ty | (∃ tyref ∈ entry.2.itemTypeRefs, ty = db.tyFromTypeRef file entry.1 tyref.ty) ∨
    ty ∈ inferredTypes (db.declarationTypes file entry.1)}

/-- The types the visitor is run over first. -/
def walkedTypes (tree : KotlinItemTree) : Set Ty := {ty | ∃ entry ∈ tree.iter, ty ∈ itemTypes db file entry}

/-- The declared and inferred types of a Kotlin file. -/
def fileTypes (tree : KotlinItemTree) : Set Ty :=
  walkedTypes db file tree ∪
    {ty | ∃ types, db.scriptBodyTypes file = some types ∧ ty ∈ inferredTypes types}

/-- What a resolved class records. -/
def classTargets : Resolved → Set Target
  | .source source => sourceTargets file source
  | .facade facade => fileTargets file facade
  | .library => ∅

/-- What a name records. -/
def nameTargets (name : Name) : Set Target :=
  {t | ∃ resolved, db.fqnResolve (db.scopeForFile file) name = some resolved ∧
    t ∈ classTargets file resolved}

/-- What a call of the visitor records. -/
def calls (name : Name) (loc : Option SourceClass) : Set Target :=
  {t | loc = none ∧ t ∈ nameTargets db file name}

/-- What the declaration a name resolved to records. -/
def memberTargets : KotlinResolvedMember → Set Target
  | .kotlin target item =>
      if isSourceClass db target item then sourceTargets file ⟨target, item⟩
      else fileTargets file target
  | .java (some owner) | .javaField (some owner) => fileTargets file owner
  | .java none | .javaField none | .loc => ∅

/-- What is recorded before the loop. -/
def roots (tree : KotlinItemTree) : Set Target :=
  (⋃ item ∈ tree.imports, nameTargets db file item.path) ∪
    (⋃ ty ∈ walkedTypes db file tree, mentionTargets (calls db file) ty) ∪
    {t | ∃ entry ∈ tree.iter, ∃ member ∈ (db.declarationTypes file entry.1).resolved,
      t ∈ memberTargets db file member}

/-- What is reached from the imports, the open mentions of the walked types and the resolved members
through the open mentions of supertypes. -/
def Reaches (tree : KotlinItemTree) : Target → Prop :=
  Reached Target.source
    (fun source => ⋃ ty ∈ sourceSupertypes db source, mentionTargets (calls db file) ty)
    (roots db file tree)

variable {db file} in
theorem records_recordClass {resolved : Resolved}
    (known : ∀ source, resolved = .source source → source ∈ db.classes) :
    Records db.classes (recordClass file resolved) (classTargets file resolved) := by
  cases resolved with
  | library => exact Records.id
  | source source => exact records_sourceClass (known source rfl)
  | facade facade => exact records_file

theorem records_name (name : Name) :
    Records db.classes
      (fun s =>
        match db.fqnResolve (db.scopeForFile file) name with
        | some resolved => recordClass file resolved s
        | none => s)
      (nameTargets db file name) := by
  cases found : db.fqnResolve (db.scopeForFile file) name with
  | none => exact Records.id.congr (by simp [nameTargets, found])
  | some resolved =>
      have known : ∀ source, resolved = .source source → source ∈ db.classes := by
        rintro source rfl
        exact db.resolved found
      apply (records_recordClass known).congr
      ext t
      simp [nameTargets, found]

theorem records_recordSource (name : Name) (loc : Option SourceClass) :
    Records db.classes (recordSource db file (db.scopeForFile file) name loc)
      (calls db file name loc) := by
  cases loc with
  | some source => exact Records.id.congr (by simp [calls])
  | none =>
      apply (records_name db file name).congr
      ext t
      simp [calls]

theorem records_recordMember {item : ItemId} {member : KotlinResolvedMember}
    (resolved : member ∈ (db.declarationTypes file item).resolved) :
    Records db.classes (recordMember db file member) (memberTargets db file member) := by
  cases member with
  | loc => exact Records.id
  | kotlin target declared =>
      simp only [memberTargets]
      cases isClass : isSourceClass db target declared with
      | true =>
          have same : recordMember db file (.kotlin target declared) =
              Deps.recordSourceClass file ⟨target, declared⟩ := by
            funext s
            simp [recordMember, isClass]
          rw [same, if_pos rfl]
          exact records_sourceClass (db.members resolved)
      | false =>
          have same : recordMember db file (.kotlin target declared) =
              Deps.recordFile file target := by
            funext s
            simp [recordMember, isClass]
          rw [same, if_neg (by simp)]
          exact records_file
  | java owner | javaField owner =>
      cases owner with
      | none => exact Records.id
      | some owner => exact records_file

theorem records_visitItem (entry : ItemId × KotlinItemData) :
    Records db.classes
      (fun s => visitItem db file (recordSource db file (db.scopeForFile file)) s entry)
      ((⋃ ty ∈ itemTypes db file entry, mentionTargets (calls db file) ty) ∪
        ⋃ member ∈ (db.declarationTypes file entry.1).resolved, memberTargets db file member) := by
  have visits := records_forEachReferenceOf (records_recordSource db file)
  have types := db.declarationTypes file entry.1
  have written := visits (entry.2.itemTypeRefs.map fun tyref =>
    db.tyFromTypeRef file entry.1 tyref.ty)
  have exprs := visits (db.declarationTypes file entry.1).exprs
  have locals := visits (db.declarationTypes file entry.1).locals
  have members := Records.foldl (db.declarationTypes file entry.1).resolved fun member listed =>
    records_recordMember db file listed
  apply ((written.comp (exprs.comp locals)).comp members).congr
  congr 1
  ext t
  simp only [itemTypes, inferredTypes, Set.mem_union, Set.mem_iUnion, exists_prop,
    Set.mem_ofPred_eq, List.mem_map]
  constructor
  · rintro (⟨ty, ⟨tyref, written, rfl⟩, here⟩ | ⟨ty, inside, here⟩ | ⟨ty, inside, here⟩)
    · exact ⟨_, .inl ⟨tyref, written, rfl⟩, here⟩
    · exact ⟨ty, .inr (.inl inside), here⟩
    · exact ⟨ty, .inr (.inr inside), here⟩
  · rintro ⟨ty, ⟨tyref, written, rfl⟩ | inside | inside, here⟩
    · exact .inl ⟨_, ⟨tyref, written, rfl⟩, here⟩
    · exact .inr (.inl ⟨ty, inside, here⟩)
    · exact .inr (.inr ⟨ty, inside, here⟩)

/-- What is recorded before the loop are the roots. -/
theorem records_walked (tree : KotlinItemTree) :
    Records db.classes
      (fun s => tree.iter.foldl (visitItem db file (recordSource db file (db.scopeForFile file)))
        (tree.imports.foldl (visitImport db file) s))
      (roots db file tree) := by
  have imports := Records.foldl tree.imports fun item _ => records_name db file item.path
  have items := Records.foldl tree.iter fun entry _ => records_visitItem db file entry
  apply (imports.comp items).congr
  rw [roots, Set.union_assoc]
  congr 1
  ext t
  simp only [walkedTypes, Set.mem_union, Set.mem_iUnion, exists_prop, Set.mem_ofPred_eq]
  constructor
  · rintro ⟨entry, listed, ⟨ty, inside, here⟩ | ⟨member, resolved, here⟩⟩
    · exact .inl ⟨ty, ⟨entry, listed, inside⟩, here⟩
    · exact .inr ⟨entry, listed, member, resolved, here⟩
  · rintro (⟨ty, ⟨entry, listed, inside⟩, here⟩ | ⟨entry, listed, member, resolved, here⟩)
    · exact ⟨entry, listed, .inl ⟨ty, inside, here⟩⟩
    · exact ⟨entry, listed, .inr ⟨member, resolved, here⟩⟩

variable {db file} {tree : KotlinItemTree} (kotlin : db.kotlinTree file = some tree)

include kotlin

/-- The dependencies of a Kotlin file are the files of what is reached. -/
theorem mem_deps_iff {fuel : Nat} {deps : Finset FileId}
    (computed : fileResolvedDeps db file fuel = some deps) {target : FileId} :
    target ∈ deps ↔ Reaches db file tree (.file target) := by
  rw [fileResolvedDeps, kotlin] at computed
  exact drained_deps (records_recordSource db file) (records_walked db file tree)
    (sourceSupertypes db) computed

theorem fileResolvedDeps_ends : ∃ fuel deps, fileResolvedDeps db file fuel = some deps := by
  simp only [fileResolvedDeps, kotlin]
  exact drain_ends (records_recordSource db file) (sourceSupertypes db) _

end KotlinDeps

/-! ### Completeness -/

variable {db : TyDatabase Scope} {file : FileId}

/-- The visitor is called with every class a type mentions exactly when every one stands outside
Kotlin's wrappers too; and the dependency set, which is always computed, has the file of every class
the file's types mention exactly when each of these files is reached through open mentions. -/
theorem references_and_deps_complete_iff (db : TyDatabase Scope) (file : FileId) :
    (∀ ty : Ty, (∀ name loc, ty.Mentions name loc → (name, loc) ∈ ty.visited) ↔
      ∀ name loc, ty.Mentions name loc → ty.MentionsOpenly name loc) ∧
    ((∃ fuel deps, JavaDeps.fileResolvedDeps db file fuel = some deps) ∧
      ∀ fuel deps, JavaDeps.fileResolvedDeps db file fuel = some deps →
        ((∀ source, Mentioned db file (JavaDeps.fileTypes db file) source → source.file ∈ deps) ↔
          ∀ source, Mentioned db file (JavaDeps.fileTypes db file) source →
            JavaDeps.Reaches db file (.file source.file))) ∧
    ∀ tree, db.kotlinTree file = some tree →
      (∃ fuel deps, KotlinDeps.fileResolvedDeps db file fuel = some deps) ∧
      ∀ fuel deps, KotlinDeps.fileResolvedDeps db file fuel = some deps →
        ((∀ source, Mentioned db file (KotlinDeps.fileTypes db file tree) source →
            source.file ∈ deps) ↔
          ∀ source, Mentioned db file (KotlinDeps.fileTypes db file tree) source →
            KotlinDeps.Reaches db file tree (.file source.file)) := by
  refine ⟨?_, ⟨JavaDeps.fileResolvedDeps_ends, ?_⟩, ?_⟩
  · intro ty
    simp only [Ty.mem_visited_iff]
  · intro fuel deps computed
    simp only [JavaDeps.mem_deps_iff computed]
  · intro tree kotlin
    refine ⟨KotlinDeps.fileResolvedDeps_ends kotlin, ?_⟩
    intro fuel deps computed
    simp only [KotlinDeps.mem_deps_iff kotlin computed]

/-- `A`, a class of the second file. -/
def nameA : Name := ⟨['A']⟩

/-- `val x: A? = null` -/
def nullableProperty : KotlinItemData :=
  .property
    { typeParams := []
      receiver := none
      ty := some { ty := .nullable (.reference nameA []), refs := [nameA] } }

/-- A file that declares the property alone, and the class `A` in another file of the package. -/
def nullablePropertyDb : TyDatabase Unit where
  javaTree _ :=
    { imports := [], top := [], localTypes := [], parent := [], items := [], height := fun _ => 0
      bodyDeeper := by simp
      localDeeper := by simp }
  kotlinTree file :=
    if file = ⟨0⟩ then some { imports := [], items := [nullableProperty] } else none
  scopeForFile _ := ()
  fqnResolve _ name := if name = nameA then some (.source ⟨⟨1⟩, ⟨0⟩⟩) else none
  resolveTypeRef _ _ _ := .error
  bodyTypes _ _ := none
  sourceSupertypes _ := []
  tyFromTypeRef _ _ _ := .nullable (.reference nameA [] none)
  declarationTypes _ _ := { exprs := [], locals := [], resolved := [] }
  scriptBodyTypes _ := none
  kotlinSupertypes _ _ := []
  classes := {⟨⟨1⟩, ⟨0⟩⟩}
  resolved := by
    intro scope name source found
    split at found
    · obtain rfl := Resolved.source.inj (Option.some.inj found)
      simp
    · cases found
  members := by simp

/-- The class under `?` is mentioned, the visitor is not called with it, and its file is no
dependency. -/
theorem nullable_reference_unseen :
    (Ty.nullable (.reference nameA [] none)).Mentions nameA none ∧
    (nameA, none) ∉ (Ty.nullable (.reference nameA [] none)).visited ∧
    (∃ tree, nullablePropertyDb.kotlinTree ⟨0⟩ = some tree ∧
      Mentioned nullablePropertyDb ⟨0⟩ (KotlinDeps.fileTypes nullablePropertyDb ⟨0⟩ tree)
        ⟨⟨1⟩, ⟨0⟩⟩) ∧
    ∃ deps, KotlinDeps.fileResolvedDeps nullablePropertyDb ⟨0⟩ 1 = some deps ∧ ⟨1⟩ ∉ deps := by
  have mentions : (Ty.nullable (.reference nameA [] none)).Mentions nameA none :=
    ⟨[], .single (.inr .nullable)⟩
  have declared : Ty.nullable (.reference nameA [] none) ∈
      KotlinDeps.fileTypes nullablePropertyDb ⟨0⟩ { imports := [], items := [nullableProperty] } := by
    refine .inl ⟨(⟨0⟩, nullableProperty), List.mem_singleton.mpr rfl, .inl ?_⟩
    exact ⟨{ ty := .nullable (.reference nameA []), refs := [nameA] }, List.mem_singleton.mpr rfl, rfl⟩
  have mentioned : Mentioned nullablePropertyDb ⟨0⟩ (KotlinDeps.fileTypes nullablePropertyDb ⟨0⟩
      { imports := [], items := [nullableProperty] }) ⟨⟨1⟩, ⟨0⟩⟩ :=
    ⟨by simp, _, declared, nameA, mentions, rfl⟩
  exact ⟨mentions, by simp [Ty.visited, Ty.forEachReference], ⟨_, rfl, mentioned⟩, ∅, rfl, by simp⟩

/-- On that file the two equivalences speak of a computed set. -/
theorem nullable_property_deps :
    (∃ fuel deps, KotlinDeps.fileResolvedDeps nullablePropertyDb ⟨0⟩ fuel = some deps) ∧
    ((∀ source, Mentioned nullablePropertyDb ⟨0⟩ (KotlinDeps.fileTypes nullablePropertyDb ⟨0⟩
        { imports := [], items := [nullableProperty] }) source → source.file ∈ (∅ : Finset FileId)) ↔
      ∀ source, Mentioned nullablePropertyDb ⟨0⟩ (KotlinDeps.fileTypes nullablePropertyDb ⟨0⟩
          { imports := [], items := [nullableProperty] }) source →
        KotlinDeps.Reaches nullablePropertyDb ⟨0⟩ { imports := [], items := [nullableProperty] }
          (.file source.file)) := by
  have computed : KotlinDeps.fileResolvedDeps nullablePropertyDb ⟨0⟩ 1 = some ∅ := rfl
  have iffs := (references_and_deps_complete_iff nullablePropertyDb ⟨0⟩).2.2
    { imports := [], items := [nullableProperty] } rfl
  exact ⟨iffs.1, iffs.2 1 ∅ computed⟩

end CaffeineLs.HirTy
