/-
Module: CaffeineLs.Proofs.FileRoots
Purpose: When the root that a file is mapped to is the local root that contains it, over whole histories
  of changes.
Trusted boundary: none
Main exports: Agrees, Partitions, agrees_iff_keepsFiles
-/
import CaffeineLs.BaseDb.FileChange

namespace CaffeineLs.BaseDb

/-! ### What is to agree -/

/-- A file is mapped to a root other than the fallback just if that root is local and contains it. -/
def Agrees (db : Files) : Prop :=
  ∀ file id, id ≠ fallbackSourceRoot →
    (db.fileSourceRootId file = some id ↔
      (∃ locals, db.localRoots = some locals ∧ id ∈ locals) ∧
        ∃ root, db.sourceRoots id = some root ∧ file ∈ root.fileSet)

/-- No file is in two of the roots. -/
def Partitions (roots : List SourceRoot) : Prop :=
  roots.Pairwise fun one two => ∀ file ∈ one.fileSet, file ∉ two.fileSet

/-- The roots have ids of their own, none of them the fallback's. -/
def Numbered (roots : List SourceRoot) : Prop := roots.length < 4294967296

/-- Some root contains the file. -/
def Holds (roots : List SourceRoot) (file : FileId) : Prop := ∃ root ∈ roots, file ∈ root.fileSet

/-- Each list of roots has the files of the one before it. -/
def KeepsFiles : List SourceRoot → List FileChange → Prop
  | _, [] => True
  | before, change :: rest =>
      match change.roots with
      | none => KeepsFiles before rest
      | some roots => (∀ file, Holds before file → Holds roots file) ∧ KeepsFiles roots rest

/-! ### The loop over the roots -/

namespace FileChange

theorem fold_fileSourceRoots (files : List FileId) (id : SourceRootId) (db : Files) (file : FileId) :
    (files.foldl (fun db file => db.setFileSourceRoot file id) db).fileSourceRoots file =
      if file ∈ files then some id else db.fileSourceRoots file := by
  induction files generalizing db with
  | nil => rfl
  | cons first rest ih =>
      rw [List.foldl_cons, ih]
      by_cases later : file ∈ rest
      · rw [if_pos later, if_pos (List.mem_cons_of_mem _ later)]
      · rw [if_neg later, Files.setFileSourceRoot]
        by_cases here : file = first
        · subst here
          simp
        · simp [here, later]

theorem fold_sourceRoots (files : List FileId) (id : SourceRootId) (db : Files) :
    (files.foldl (fun db file => db.setFileSourceRoot file id) db).sourceRoots = db.sourceRoots := by
  induction files generalizing db with
  | nil => rfl
  | cons first rest ih => exact ih _

theorem applyRoot_fileSourceRoots (db : Files) (idx : Nat) (root : SourceRoot) (file : FileId) :
    (applyRoot db idx root).fileSourceRoots file =
      if file ∈ root.fileSet then some ⟨.ofNat idx⟩ else db.fileSourceRoots file :=
  fold_fileSourceRoots root.fileSet _ db file

theorem applyRoot_sourceRoots (db : Files) (idx : Nat) (root : SourceRoot) (id : SourceRootId) :
    (applyRoot db idx root).sourceRoots id =
      if id = ⟨.ofNat idx⟩ then some root else db.sourceRoots id := by
  rw [applyRoot, Files.setSourceRoot, fold_sourceRoots]

/-- A file that a root contains is mapped to its number, and the others keep theirs. -/
theorem applyRoots_fileSourceRoots {roots : List SourceRoot} (partitions : Partitions roots)
    (idx : Nat) (db : Files) (file : FileId) :
    (∀ i root, roots[i]? = some root → file ∈ root.fileSet →
      (applyRoots idx roots db).fileSourceRoots file = some ⟨.ofNat (idx + i)⟩) ∧
    (¬ Holds roots file →
      (applyRoots idx roots db).fileSourceRoots file = db.fileSourceRoots file) := by
  induction roots generalizing idx db with
  | nil => exact ⟨fun i root found => by simp at found, fun _ => rfl⟩
  | cons first rest ih =>
      obtain ⟨apart, partitions⟩ := List.pairwise_cons.mp partitions
      obtain ⟨inRest, outside⟩ := ih partitions (idx + 1) (applyRoot db idx first)
      constructor
      · intro i root found member
        cases i with
        | zero =>
            obtain rfl := Option.some.inj found
            have elsewhere : ¬ Holds rest file := fun ⟨other, listed, inside⟩ =>
              apart other listed file member inside
            rw [applyRoots, outside elsewhere, applyRoot_fileSourceRoots, if_pos member]
            rfl
        | succ i =>
            have shift : idx + 1 + i = idx + (i + 1) := by omega
            rw [applyRoots, inRest i root found member, shift]
      · intro nowhere
        have notFirst : file ∉ first.fileSet := fun member =>
          nowhere ⟨first, List.mem_cons_self, member⟩
        have notRest : ¬ Holds rest file := fun ⟨other, listed, inside⟩ =>
          nowhere ⟨other, List.mem_cons_of_mem _ listed, inside⟩
        rw [applyRoots, outside notRest, applyRoot_fileSourceRoots, if_neg notFirst]

theorem id_inj {i j : Nat} (small : i < 4294967296) (small' : j < 4294967296)
    (same : (⟨.ofNat i⟩ : SourceRootId) = ⟨.ofNat j⟩) : i = j := by
  have raws := congrArg UInt32.toNat (SourceRootId.mk.inj same)
  rwa [UInt32.toNat_ofNat_of_lt' small, UInt32.toNat_ofNat_of_lt' small'] at raws

/-- Each root is registered under its number. -/
theorem applyRoots_sourceRoots (roots : List SourceRoot) (idx : Nat) (db : Files)
    (small : idx + roots.length ≤ 4294967296) :
    (∀ i root, roots[i]? = some root →
      (applyRoots idx roots db).sourceRoots ⟨.ofNat (idx + i)⟩ = some root) ∧
    ∀ j, j < idx →
      (applyRoots idx roots db).sourceRoots ⟨.ofNat j⟩ = db.sourceRoots ⟨.ofNat j⟩ := by
  induction roots generalizing idx db with
  | nil => exact ⟨fun i root found => by simp at found, fun _ _ => rfl⟩
  | cons first rest ih =>
      rw [List.length_cons] at small
      obtain ⟨inRest, below⟩ := ih (idx + 1) (applyRoot db idx first) (by omega)
      constructor
      · intro i root found
        cases i with
        | zero =>
            obtain rfl := Option.some.inj found
            have kept := below idx (Nat.lt_succ_self _)
            rw [applyRoot_sourceRoots, if_pos rfl] at kept
            exact kept
        | succ i =>
            have shift : idx + 1 + i = idx + (i + 1) := by omega
            rw [applyRoots, ← shift]
            exact inRest i root found
      · intro j lower
        rw [applyRoots, below j (by omega), applyRoot_sourceRoots, if_neg]
        intro same
        exact absurd (id_inj (by omega) (by omega) same) (by omega)

/-! ### The loop over the files -/

theorem setFileText_fileSourceRoots (db : Files) (file other : FileId) (text : String)
    {id : SourceRootId} (real : id ≠ fallbackSourceRoot) :
    (db.setFileText file text).fileSourceRoots other = some id ↔
      db.fileSourceRoots other = some id := by
  have unfolded : (db.setFileText file text).fileSourceRoots =
      (db.ensureFileSourceRoot file).fileSourceRoots := rfl
  rw [unfolded, Files.ensureFileSourceRoot]
  split
  · rfl
  · rename_i unmapped
    have mapped : ∀ base : Files, base.fileSourceRoots = db.fileSourceRoots →
        ((base.setFileSourceRoot file fallbackSourceRoot).fileSourceRoots other = some id ↔
          db.fileSourceRoots other = some id) := by
      intro base same
      rw [Files.setFileSourceRoot, same]
      by_cases here : other = file
      · subst here
        have nowhere := Option.not_isSome_iff_eq_none.mp unmapped
        simp [nowhere, Ne.symm real]
      · simp [here]
    split
    · exact mapped _ rfl
    · exact mapped _ rfl

theorem setFileText_sourceRoots (db : Files) (file : FileId) (text : String) {id : SourceRootId}
    (real : id ≠ fallbackSourceRoot) :
    (db.setFileText file text).sourceRoots id = db.sourceRoots id := by
  have unfolded : (db.setFileText file text).sourceRoots =
      (db.ensureFileSourceRoot file).sourceRoots := rfl
  rw [unfolded, Files.ensureFileSourceRoot]
  split
  · rfl
  · split
    · rfl
    · exact if_neg real

theorem setFileText_localRoots (db : Files) (file : FileId) (text : String) :
    (db.setFileText file text).localRoots = db.localRoots := by
  have unfolded : (db.setFileText file text).localRoots =
      (db.ensureFileSourceRoot file).localRoots := rfl
  rw [unfolded, Files.ensureFileSourceRoot]
  split
  · rfl
  · split <;> rfl

/-- The loop over the files. -/
def applyFiles (filesChanged : List (FileId × Option String)) (db : Files) : Files :=
  filesChanged.foldl (fun db (file, text) => db.setFileText file (text.getD "")) db

/-- What the texts leave as it was: all but the fallback root. -/
theorem applyFiles_spec (filesChanged : List (FileId × Option String)) (db : Files) :
    (applyFiles filesChanged db).localRoots = db.localRoots ∧
    ∀ id, id ≠ fallbackSourceRoot →
      (applyFiles filesChanged db).sourceRoots id = db.sourceRoots id ∧
      ∀ file, (applyFiles filesChanged db).fileSourceRoots file = some id ↔
        db.fileSourceRoots file = some id := by
  induction filesChanged generalizing db with
  | nil => exact ⟨rfl, fun id _ => ⟨rfl, fun _ => Iff.rfl⟩⟩
  | cons first rest ih =>
      obtain ⟨locals, others⟩ := ih (db.setFileText first.1 (first.2.getD ""))
      refine ⟨locals.trans (setFileText_localRoots ..), ?_⟩
      intro id real
      obtain ⟨registered, mapped⟩ := others id real
      exact ⟨registered.trans (setFileText_sourceRoots _ _ _ real),
        fun file => (mapped file).trans (setFileText_fileSourceRoots _ _ _ _ real)⟩

end FileChange

/-! ### Histories -/

theorem id_ne_fallback {i : Nat} {roots : List SourceRoot} (numbered : Numbered roots)
    (inside : i < roots.length) : (⟨.ofNat i⟩ : SourceRootId) ≠ fallbackSourceRoot := by
  intro same
  have below : i < 4294967295 := by
    rw [Numbered] at numbered
    omega
  have equal : i = 4294967295 := FileChange.id_inj (by omega) (by omega) same
  omega

/-- The inputs are those of some roots: these are the local ones, and a file is mapped to the one that
contains it. -/
structure Mirrors (db : Files) (roots : List SourceRoot) : Prop where
  numbered : Numbered roots
  locals : ∀ id, (∃ locals, db.localRoots = some locals ∧ id ∈ locals) ↔
    ∃ i, i < roots.length ∧ id = ⟨.ofNat i⟩
  registered : ∀ i root, roots[i]? = some root → db.sourceRoots ⟨.ofNat i⟩ = some root
  mapped : ∀ file id, id ≠ fallbackSourceRoot →
    (db.fileSourceRoots file = some id ↔
      ∃ i root, roots[i]? = some root ∧ file ∈ root.fileSet ∧ id = ⟨.ofNat i⟩)

theorem initial_mirrors : Mirrors initial [] where
  numbered := Nat.zero_lt_succ _
  locals id := by simp [initial]
  registered i root found := by simp at found
  mapped file id _ := by simp [initial]

theorem Mirrors.agrees {db : Files} {roots : List SourceRoot} (mirrors : Mirrors db roots) :
    Agrees db := by
  intro file id real
  rw [Files.fileSourceRootId, mirrors.mapped file id real, mirrors.locals]
  constructor
  · intro ⟨i, root, found, member, same⟩
    have inside := (List.getElem?_eq_some_iff.mp found).1
    exact ⟨⟨i, inside, same⟩, root, same ▸ mirrors.registered i root found, member⟩
  · intro ⟨⟨i, inside, same⟩, root, registered, member⟩
    have found := List.getElem?_eq_getElem inside
    have own := mirrors.registered i _ found
    rw [same, own] at registered
    obtain rfl := Option.some.inj registered
    exact ⟨i, _, found, member, same⟩

/-- The files keep what the roots are. -/
theorem Mirrors.files {db : Files} {roots : List SourceRoot} (mirrors : Mirrors db roots)
    (filesChanged : List (FileId × Option String)) :
    Mirrors (FileChange.applyFiles filesChanged db) roots := by
  obtain ⟨locals, others⟩ := FileChange.applyFiles_spec filesChanged db
  refine ⟨mirrors.numbered, ?_, ?_, ?_⟩
  · rw [locals]
    exact mirrors.locals
  · intro i root found
    have inside := (List.getElem?_eq_some_iff.mp found).1
    rw [(others _ (id_ne_fallback mirrors.numbered inside)).1]
    exact mirrors.registered i root found
  · intro file id real
    exact ((others id real).2 file).trans (mirrors.mapped file id real)

/-- A list of roots, before the texts. -/
def withRoots (roots : List SourceRoot) (db : Files) : Files :=
  { FileChange.applyRoots 0 roots db with
    localRoots := some ((List.range roots.length).map fun idx => ⟨.ofNat idx⟩) }

theorem mem_withRoots_locals {roots : List SourceRoot} {db : Files} (id : SourceRootId) :
    (∃ locals, (withRoots roots db).localRoots = some locals ∧ id ∈ locals) ↔
      ∃ i, i < roots.length ∧ id = ⟨.ofNat i⟩ := by
  simp [withRoots, eq_comm]

/-- New roots are mirrored if no file was dropped. -/
theorem Mirrors.rerooted {db : Files} {before roots : List SourceRoot}
    (mirrors : Mirrors db before) (partitions : Partitions roots) (numbered : Numbered roots)
    (keeps : ∀ file, Holds before file → Holds roots file) :
    Mirrors (withRoots roots db) roots where
  numbered := numbered
  locals := mem_withRoots_locals
  registered i root found := by
    have registered := (FileChange.applyRoots_sourceRoots roots 0 db (by
      rw [Numbered] at numbered
      omega)).1 i root found
    rw [Nat.zero_add] at registered
    exact registered
  mapped file id real := by
    obtain ⟨inside, outside⟩ := FileChange.applyRoots_fileSourceRoots partitions 0 db file
    by_cases held : Holds roots file
    · obtain ⟨root, listed, member⟩ := held
      obtain ⟨i, found⟩ := List.mem_iff_getElem?.mp listed
      have mapped := inside i root found member
      rw [Nat.zero_add] at mapped
      have short := (List.getElem?_eq_some_iff.mp found).1
      constructor
      · intro given
        exact ⟨i, root, found, member, (Option.some.inj (mapped.symm.trans given)).symm⟩
      · intro ⟨j, other, found', member', same⟩
        have mapped' := inside j other found' member'
        rw [Nat.zero_add] at mapped'
        rw [same]
        exact mapped'
    · have kept := outside held
      constructor
      · intro given
        have old : db.fileSourceRoots file = some id := kept.symm.trans given
        obtain ⟨i, root, found, member, _⟩ := (mirrors.mapped file id real).mp old
        exact absurd (keeps file ⟨root, List.mem_of_getElem? found, member⟩) held
      · intro ⟨i, root, found, member, _⟩
        exact absurd ⟨root, List.mem_of_getElem? found, member⟩ held

/-- Where the new roots agree with the mapping, no file was dropped. -/
theorem Mirrors.keeps_of_agrees {db : Files} {before roots : List SourceRoot}
    (mirrors : Mirrors db before) (partitions : Partitions roots) (numbered : Numbered roots)
    {filesChanged : List (FileId × Option String)}
    (agrees : Agrees (FileChange.applyFiles filesChanged (withRoots roots db))) :
    ∀ file, Holds before file → Holds roots file := by
  intro file ⟨root, listed, member⟩
  by_contra dropped
  obtain ⟨i, found⟩ := List.mem_iff_getElem?.mp listed
  have real := id_ne_fallback mirrors.numbered (List.getElem?_eq_some_iff.mp found).1
  have mapped := (mirrors.mapped file _ real).mpr ⟨i, root, found, member, rfl⟩
  obtain ⟨locals, others⟩ := FileChange.applyFiles_spec filesChanged (withRoots roots db)
  have kept : (withRoots roots db).fileSourceRoots file = some ⟨.ofNat i⟩ :=
    ((FileChange.applyRoots_fileSourceRoots partitions 0 db file).2 dropped).trans mapped
  have after := ((others _ real).2 file).mpr kept
  obtain ⟨isLocal, root', registered, member'⟩ := (agrees file _ real).mp after
  rw [locals, mem_withRoots_locals] at isLocal
  obtain ⟨j, inside, same⟩ := isLocal
  have own := (FileChange.applyRoots_sourceRoots roots 0 db (by
    rw [Numbered] at numbered
    omega)).1 j _ (List.getElem?_eq_getElem inside)
  rw [Nat.zero_add, ← same] at own
  rw [(others _ real).1] at registered
  have equal := Option.some.inj (own.symm.trans registered)
  exact dropped ⟨roots[j], List.getElem_mem inside, equal ▸ member'⟩

/-- The states that a history goes through. -/
def Throughout (P : Files → Prop) (db : Files) (changes : List FileChange) : Prop :=
  ∀ front back, changes = front ++ back → P (front.foldl (fun db change => change.apply db) db)

theorem throughout_cons {P : Files → Prop} {db : Files} {change : FileChange}
    {rest : List FileChange} :
    Throughout P db (change :: rest) ↔ P db ∧ Throughout P (change.apply db) rest := by
  constructor
  · intro all
    refine ⟨all [] (change :: rest) rfl, ?_⟩
    intro front back split
    exact all (change :: front) back (by rw [split]; rfl)
  · intro ⟨now, later⟩ front back split
    cases front with
    | nil => exact now
    | cons first front =>
        obtain ⟨rfl, tail⟩ := List.cons.inj split
        exact later front back tail

theorem throughout_nil {P : Files → Prop} {db : Files} : Throughout P db [] ↔ P db := by
  constructor
  · exact fun all => all [] [] rfl
  · intro now front back split
    obtain ⟨rfl, _⟩ := List.append_eq_nil_iff.mp split.symm
    exact now

/-- The roots of a change partition their files and have ids of their own. -/
def FileChange.Valid (change : FileChange) : Prop :=
  ∀ roots, change.roots = some roots → Partitions roots ∧ Numbered roots

theorem throughout_iff_keepsFiles (changes : List FileChange) :
    ∀ (db : Files) (before : List SourceRoot), Mirrors db before →
      (∀ change ∈ changes, change.Valid) →
      (Throughout Agrees db changes ↔ KeepsFiles before changes) := by
  induction changes with
  | nil =>
      intro db before mirrors _
      rw [throughout_nil]
      exact iff_of_true mirrors.agrees trivial
  | cons change rest ih =>
      intro db before mirrors valid
      have later : ∀ change ∈ rest, change.Valid := fun change member =>
        valid change (List.mem_cons_of_mem _ member)
      rw [throughout_cons, KeepsFiles, and_iff_right mirrors.agrees]
      cases given : change.roots with
      | none =>
          have applied : change.apply db = FileChange.applyFiles change.filesChanged db := by
            rw [FileChange.apply, given]
            rfl
          rw [applied]
          exact ih _ before (mirrors.files change.filesChanged) later
      | some roots =>
          have applied : change.apply db =
              FileChange.applyFiles change.filesChanged (withRoots roots db) := by
            rw [FileChange.apply, given]
            rfl
          obtain ⟨partitions, numbered⟩ := valid change List.mem_cons_self roots given
          rw [applied]
          dsimp only
          constructor
          · intro throughout
            have now := throughout [] rest rfl
            have keeps := mirrors.keeps_of_agrees partitions numbered now
            have next := (mirrors.rerooted partitions numbered keeps).files change.filesChanged
            exact ⟨keeps, (ih _ roots next later).mp throughout⟩
          · intro ⟨keeps, further⟩
            have next := (mirrors.rerooted partitions numbered keeps).files change.filesChanged
            exact (ih _ roots next later).mpr further

/-- In every state of a history the mapping agrees with the roots just if no list of roots drops a file of
the list before. -/
theorem agrees_iff_keepsFiles {changes : List FileChange} (valid : ∀ change ∈ changes, change.Valid) :
    Throughout Agrees initial changes ↔ KeepsFiles [] changes :=
  throughout_iff_keepsFiles changes initial [] initial_mirrors valid

/-! ### A file that is dropped -/

/-- A root with one file, and then the same root without it. -/
def droppingChanges : List FileChange :=
  [⟨some [⟨[⟨1⟩], false⟩], []⟩, ⟨some [⟨[], false⟩], []⟩]

theorem droppingChanges_valid : ∀ change ∈ droppingChanges, change.Valid := by
  intro change member roots given
  simp only [droppingChanges, List.mem_cons, List.not_mem_nil, or_false] at member
  rcases member with rfl | rfl <;> obtain rfl := Option.some.inj given <;>
    exact ⟨List.pairwise_singleton _ _, (by decide : 1 < 4294967296)⟩

/-- A file moves to another root while a second one stays: nothing is dropped. -/
theorem moved_file_agrees :
    Throughout Agrees initial
      [⟨some [⟨[⟨1⟩], false⟩, ⟨[⟨2⟩], true⟩], [(⟨3⟩, some "")]⟩,
        ⟨some [⟨[⟨2⟩, ⟨1⟩], false⟩], []⟩] := by
  apply (agrees_iff_keepsFiles _).mpr
  · refine ⟨fun file held => ?_, fun file held => ?_, trivial⟩
    · obtain ⟨root, listed, _⟩ := held
      exact absurd listed List.not_mem_nil
    · obtain ⟨root, listed, member⟩ := held
      refine ⟨_, List.mem_cons_self, ?_⟩
      simp only [List.mem_cons, List.not_mem_nil, or_false] at listed
      rcases listed with rfl | rfl
      · exact List.mem_cons_of_mem _ member
      · rw [List.mem_singleton.mp member]
        exact List.mem_cons_self
  · intro change member roots given
    simp only [List.mem_cons, List.not_mem_nil, or_false] at member
    rcases member with rfl | rfl
    · obtain rfl := Option.some.inj given
      refine ⟨List.pairwise_pair.mpr ?_, (by decide : 2 < 4294967296)⟩
      intro file inFirst
      rw [List.mem_singleton.mp inFirst]
      decide
    · obtain rfl := Option.some.inj given
      exact ⟨List.pairwise_singleton _ _, (by decide : 1 < 4294967296)⟩

/-- The dropped file is still mapped to the root. -/
theorem dropped_file_mapped :
    ¬ ∀ changes : List FileChange, (∀ change ∈ changes, change.Valid) →
      Throughout Agrees initial changes := by
  intro claim
  have agrees := claim droppingChanges droppingChanges_valid droppingChanges [] rfl
  have mapped := (agrees ⟨1⟩ ⟨0⟩ (by decide)).mp (by decide)
  obtain ⟨-, root, registered, member⟩ := mapped
  obtain rfl := Option.some.inj registered
  exact absurd member List.not_mem_nil

end CaffeineLs.BaseDb
