/-
Module: CaffeineLs.Proofs.LibraryBuild
Purpose: An index that is loaded from the stub cache answers like the one that was built.
Trusted boundary: the interner gives a string that it resolves a key to back as that key, and its keys
  are 32-bit numbers
Main exports: Shelved, means_shelve, loaded_answers_alike
-/
import CaffeineLs.Hir.LibraryBuild
import CaffeineLs.Proofs.StubRoundTrip

namespace CaffeineLs.Hir

open Interning

variable {Symbol : Type}

/-- The classes among the records, in their order. -/
def classesOf (records : List (StubRecord Symbol)) : List (StubRecord Symbol × ClassStub Symbol) :=
  records.filterMap fun record =>
    match record.stub with
    | .class_ stub => some (record, stub)
    | .module_ _ => none

def modulesOf (records : List (StubRecord Symbol)) : List (StubRecord Symbol × ModuleStub Symbol) :=
  records.filterMap fun record =>
    match record.stub with
    | .class_ _ => none
    | .module_ stub => some (record, stub)

/-- What is on the shelves once `records` are done: the entries of the classes and of the modules, and
disk forms that mean these entries and stubs in the table `later`. -/
structure Shelved (interner : ThreadedRodeo Symbol) (later : StubStringTable Symbol)
    (shelves : Shelves Symbol) (records : List (StubRecord Symbol)) : Prop where
  entries : shelves.entries = (classesOf records).map fun class_ =>
    classEntry interner class_.1 class_.2
  modules : shelves.modules = (modulesOf records).map fun module_ =>
    moduleEntry interner module_.1 module_.2
  diskEntries : shelves.diskEntries.mapM (loadEntry (readIn interner later)) = some shelves.entries
  classRecords : shelves.diskClassRecords.mapM (readIn interner later).classOrModule =
    some ((classesOf records).map fun class_ => .class_ class_.2)
  moduleRecords : shelves.diskModuleRecords.mapM (readIn interner later).classOrModule =
    some ((modulesOf records).map fun module_ => .module_ module_.2)

section Shelving

variable [BEq Symbol] {interner : ThreadedRodeo Symbol}
  (symbols : ∀ key, ReadBack interner (StubStringTable.symbol interner) DiskResolver.symbol key)

include symbols

theorem means_diskEntry (entry : ClassEntry Symbol) :
    ReadBack interner (diskEntry interner) loadEntry entry := by
  unfold ReadBack diskEntry
  apply means_bind (symbols entry.fqn)
  intro fqn'
  apply means_bind (symbols entry.package)
  intro package'
  apply means_bind (means_option entry.superClass fun item _ => symbols item)
  intro superClass'
  apply means_bind (means_list entry.interfaces fun item _ => symbols item)
  intro interfaces'
  apply means_bind (means_option entry.module_ fun item _ => symbols item)
  intro owner'
  apply means_pure
  intro later owner interfaces superClass package fqn
  simp [loadEntry, fqn, package, superClass, interfaces, owner]

theorem means_diskModule (entry : ModuleEntry Symbol) :
    ReadBack interner (diskModule interner) loadModule entry := by
  unfold ReadBack diskModule
  apply means_bind (symbols entry.name)
  intro name'
  apply means_bind (means_option entry.version fun item _ => symbols item)
  intro version'
  apply means_pure
  intro later version name
  simp [loadModule, name, version]

/-- One record goes to the end of its shelf. -/
theorem means_shelve (shelves : Shelves Symbol) (done : List (StubRecord Symbol))
    (record : StubRecord Symbol) :
    Means (tableGrowth interner) (shelve interner shelves record) fun later shelves' =>
      Shelved interner later shelves done → Shelved interner later shelves' (done ++ [record]) := by
  cases kind : record.stub with
  | class_ stub =>
      simp only [shelve, kind]
      apply means_bind (means_class_ symbols stub)
      intro disk
      apply means_bind (means_diskEntry symbols (classEntry interner record stub))
      intro diskEntry
      apply means_pure
      intro later entry read before
      have added : classesOf (done ++ [record]) = classesOf done ++ [(record, stub)] := by
        simp [classesOf, kind]
      have others : modulesOf (done ++ [record]) = modulesOf done := by
        simp [modulesOf, kind]
      constructor
      · simp [added, before.entries]
      · simp [others, before.modules]
      · simp [List.mapM_append, before.diskEntries, entry]
      · simp [List.mapM_append, before.classRecords, added, DiskResolver.classOrModule, read]
      · simp [others, before.moduleRecords]
  | module_ stub =>
      simp only [shelve, kind]
      apply means_bind (means_module_ symbols stub)
      intro disk
      apply means_pure
      intro later read before
      have others : classesOf (done ++ [record]) = classesOf done := by
        simp [classesOf, kind]
      have added : modulesOf (done ++ [record]) = modulesOf done ++ [(record, stub)] := by
        simp [modulesOf, kind]
      constructor
      · simp [others, before.entries]
      · simp [added, before.modules]
      · exact before.diskEntries
      · simp [others, before.classRecords]
      · simp [List.mapM_append, before.moduleRecords, added, DiskResolver.classOrModule, read]

end Shelving

/-- What `build` returns for the records in the order of their names. -/
theorem build_reads [BEq Symbol] [LawfulBEq Symbol] {interner : ThreadedRodeo Symbol}
    (interns : ∀ key, interner.getOrIntern (interner.resolve key) = key)
    {number : Symbol → UInt32} (numbered : Function.Injective number) (now : UInt64)
    (records : List (StubRecord Symbol)) :
    ∃ table shelves diskModules, Shelved interner table shelves (sortedRecords records) ∧
      diskModules.mapM (loadModule (readIn interner table)) = some shelves.modules ∧
      build interner now records = (⟨shelves.entries, shelves.modules⟩,
        ⟨cacheFormatVersion, table.strings, shelves.diskEntries, diskModules, now⟩,
        shelves.diskClassRecords ++ shelves.diskModuleRecords) := by
  have symbols := means_symbol numbered interns
  have rounds : Means (tableGrowth interner) ((sortedRecords records).foldlM (shelve interner) {})
      fun later shelves => Shelved interner later {} [] →
        Shelved interner later shelves ([] ++ sortedRecords records) :=
    means_fold (means_shelve symbols) {} [] (sortedRecords records)
  obtain ⟨standing, -, shelved⟩ := rounds StubStringTable.new (new_standing interner)
  obtain ⟨-, grown, modules⟩ :=
    means_list _ (fun entry _ => means_diskModule symbols entry) _ standing
  have empty (table : StubStringTable Symbol) : Shelved interner table {} [] :=
    ⟨rfl, rfl, rfl, rfl, rfl⟩
  exact ⟨_, _, _, shelved _ grown (empty _), modules _ (List.prefix_refl _), rfl⟩

/-! ### The two indexes -/

theorem LibraryIndex.record_of_found {interner : ThreadedRodeo Symbol} {index : LibraryIndex Symbol}
    {i : UInt32} {disk : ClassOrModuleStub UInt32} {stub : ClassOrModuleStub Symbol}
    (found : index.records[i.toNat]?.or (index.store index.id i) = some disk)
    (read : DiskResolver.classOrModule ⟨index.strings, interner⟩ disk = some stub) :
    index.record interner i = some (some stub) := by
  simp [record, found, read]

/-- A list that is read back whole is read back item by item. -/
theorem forall₂_of_mapM {α β : Type} {read : α → Option β} {codes : List α} {items : List β}
    (back : codes.mapM read = some items) :
    List.Forall₂ (fun code item => read code = some item) codes items := by
  induction codes generalizing items with
  | nil =>
      obtain rfl : [] = items := by simpa using back
      exact .nil
  | cons code codes ih =>
      simp only [List.mapM_cons, Option.bind_eq_bind, Option.bind_eq_some_iff] at back
      obtain ⟨first, reads, rest, backs, made⟩ := back
      obtain rfl : first :: rest = items := by simpa using made
      exact .cons reads (ih backs)

theorem getElem?_of_mapM {α β : Type} {read : α → Option β} {codes : List α} {items : List β}
    (back : codes.mapM read = some items) {i : Nat} {item : β} (found : items[i]? = some item) :
    ∃ code, codes[i]? = some code ∧ read code = some item := by
  have each := forall₂_of_mapM back
  obtain ⟨inside, rfl⟩ := List.getElem?_eq_some_iff.mp found
  have within : i < codes.length := each.length_eq ▸ inside
  exact ⟨codes[i], List.getElem?_eq_getElem within, each.get within inside⟩

/-- Two indexes of `records` give the same answers, and the record of an entry is the stub that the
entry was made of: that of a class under its own number, that of a module after all classes. -/
structure AnswersAlike [DecidableEq Symbol] (interner : ThreadedRodeo Symbol)
    (records : List (StubRecord Symbol)) (built loaded : LibraryIndex Symbol) : Prop where
  names : loaded.names = built.names
  lookup : ∀ fqn, loaded.names.lookup fqn = built.names.lookup fqn
  module_ : ∀ name, loaded.names.module_ name = built.names.module_ name
  classRecord : ∀ i, loaded.classRecord interner i = built.classRecord interner i
  moduleRecord : ∀ j, loaded.moduleRecord interner j = built.moduleRecord interner j
  classStub : ∀ i record stub, (classesOf (sortedRecords records))[i]? = some (record, stub) →
    i < 2 ^ 32 →
      loaded.names.entries[i]? = some (classEntry interner record stub) ∧
        loaded.classRecord interner (UInt32.ofNat i) = some (some (.class_ stub))
  moduleStub : ∀ j record stub, (modulesOf (sortedRecords records))[j]? = some (record, stub) →
    loaded.names.entries.length + j < 2 ^ 32 →
      loaded.names.modules[j]? = some (moduleEntry interner record stub) ∧
        loaded.moduleRecord interner (UInt32.ofNat j) = some (some (.module_ stub))

/-- An index that is loaded from what was written of the built one. -/
theorem loaded_answers_alike [DecidableEq Symbol] (interner : ThreadedRodeo Symbol)
    (interns : ∀ key, interner.getOrIntern (interner.resolve key) = key)
    (number : Symbol → UInt32) (numbered : Function.Injective number)
    (id : LibraryId) (kind : LibraryKind) (archive : String) (now : UInt64)
    (records : List (StubRecord Symbol)) (readMeta : LibraryId → Option MetaBlob)
    (store : RecordStore) (written : readMeta id = some (build interner now records).2.1)
    (kept : ∀ idx, store id idx = (build interner now records).2.2[idx.toNat]?) :
    ∃ loaded, loadFromCache interner readMeta id kind archive store = some (some loaded) ∧
      AnswersAlike interner records (builtIndex interner id kind archive now store records)
        loaded := by
  obtain ⟨table, shelves, diskModules, shelved, modules, built⟩ :=
    build_reads interns numbered now records
  rw [built] at written kept
  let disk := shelves.diskClassRecords ++ shelves.diskModuleRecords
  let loaded : LibraryIndex Symbol :=
    ⟨id, kind, archive, ⟨shelves.entries, shelves.modules⟩, table.strings, [], store⟩
  have builds : builtIndex interner id kind archive now store records =
      { loaded with records := disk } := by
    simp only [builtIndex, built]
    rfl
  have loads : loadFromCache interner readMeta id kind archive store = some (some loaded) := by
    simp only [loadFromCache, written, shelved.diskEntries, modules]
    rfl
  -- the store holds the records that the built index keeps in memory
  have recorded (i : UInt32) :
      loaded.record interner i = LibraryIndex.record interner { loaded with records := disk } i := by
    simp only [LibraryIndex.record, loaded, kept, List.getElem?_nil, Option.none_or, disk,
      Option.or_self]
  have reads {i : UInt32} {code : ClassOrModuleStub UInt32} {stub : ClassOrModuleStub Symbol}
      (found : disk[i.toNat]? = some code)
      (read : (readIn interner table).classOrModule code = some stub) :
      loaded.record interner i = some (some stub) := by
    apply LibraryIndex.record_of_found _ read
    simp only [loaded, kept, List.getElem?_nil, Option.none_or]
    exact found
  have counted : shelves.entries.length = shelves.diskClassRecords.length := by
    have lengths := (forall₂_of_mapM shelved.classRecords).length_eq
    rw [shelved.entries, lengths]
    simp
  refine ⟨loaded, loads, ?_⟩
  rw [builds]
  refine ⟨rfl, fun _ => rfl, fun _ => rfl, recorded, fun j => recorded _, ?_, ?_⟩
  · intro i record stub found small
    refine ⟨by simp [loaded, shelved.entries, found], ?_⟩
    have listed : ((classesOf (sortedRecords records)).map fun class_ =>
        ClassOrModuleStub.class_ class_.2)[i]? = some (.class_ stub) := by
      simp [found]
    obtain ⟨code, stored, read⟩ := getElem?_of_mapM shelved.classRecords listed
    refine reads ?_ read
    rw [UInt32.toNat_ofNat_of_lt' small]
    exact getElem?_of_grown (List.prefix_append _ _) stored
  · intro j record stub found small
    refine ⟨by simp [loaded, shelved.modules, found], ?_⟩
    have listed : ((modulesOf (sortedRecords records)).map fun module_ =>
        ClassOrModuleStub.module_ module_.2)[j]? = some (.module_ stub) := by
      simp [found]
    obtain ⟨code, stored, read⟩ := getElem?_of_mapM shelved.moduleRecords listed
    refine reads (i := UInt32.ofNat shelves.entries.length + UInt32.ofNat j) ?_ read
    have place : (UInt32.ofNat shelves.entries.length + UInt32.ofNat j).toNat =
        shelves.diskClassRecords.length + j := by
      rw [← counted, ← UInt32.ofNat_add]
      exact UInt32.toNat_ofNat_of_lt' small
    rw [place, List.getElem?_append_right (Nat.le_add_right _ _), Nat.add_sub_cancel_left]
    exact stored

/-- A module before a class, which is sorted in front of it. -/
def sampleRecords : List (StubRecord Bool) :=
  [⟨"requires", "", none, .module_
      { name := false, flags := 0x8000, version := none, requires := [], exports := [], opens := [],
        uses := [.reference true []], provides := [] }⟩,
    ⟨"java.lang.Object", "java.lang", some false, .class_
      { fqn := true, name := true, flags := 0x21, isRecord := false, deprecated := false,
        superClass := none, interfaces := [], typeParams := [], permittedSubclasses := [],
        recordComponents := [], methods := [], fields := [], annotations := [] }⟩]

theorem sample_answers_alike :
    ∃ loaded, loadFromCache sampleRodeo
        (fun _ => some (build sampleRodeo 0 sampleRecords).2.1) 7 .jar "rt.jar"
        (fun _ idx => (build sampleRodeo 0 sampleRecords).2.2[idx.toNat]?) = some (some loaded) ∧
      AnswersAlike sampleRodeo sampleRecords
        (builtIndex sampleRodeo 7 .jar "rt.jar" 0
          (fun _ idx => (build sampleRodeo 0 sampleRecords).2.2[idx.toNat]?) sampleRecords)
        loaded :=
  loaded_answers_alike sampleRodeo (by decide) (fun key => if key then 2 else 1)
    (by unfold Function.Injective; decide) 7 .jar "rt.jar" 0 sampleRecords _ _ rfl fun _ => rfl

end CaffeineLs.Hir
