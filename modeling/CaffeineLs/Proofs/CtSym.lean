/-
Module: CaffeineLs.Proofs.CtSym
Purpose: What the index of a symbol archive says about releases, and which entries are found again from
  the names of their classes.
Trusted boundary: none
Main exports: ClassEntry, Provided, lookupAgrees
-/
import CaffeineLs.Hir.CtSym
import Mathlib.Order.MinMax

namespace CaffeineLs.Hir.CtSym

open HashTable Splitting

/-! ### Spellings -/

/-- The base-36 spelling of a release: one digit, or two from 36 on. -/
def spelled (release : UInt8) : List Char :=
  if release.toNat < 36 then [spellingDigit release.toNat]
  else [spellingDigit (release.toNat / 36), spellingDigit (release.toNat % 36)]

theorem releaseSpelling_eq (release : UInt8) : releaseSpelling release = spelled release := by
  have bounded : release.toNat < 256 := release.toNat_lt
  unfold releaseSpelling spelled
  generalize release.toNat = n at bounded
  by_cases small : n < 36
  · have only : n / 36 = 0 := Nat.div_eq_of_lt small
    rw [if_pos small, spellingLoop, if_pos only, Nat.mod_eq_of_lt small]
    rfl
  · obtain ⟨fuel, rfl⟩ : ∃ fuel, n = fuel + 1 := ⟨n - 1, by omega⟩
    have more : (fuel + 1) / 36 ≠ 0 := by omega
    have last : (fuel + 1) / 36 / 36 = 0 := by omega
    have digit : (fuel + 1) / 36 % 36 = (fuel + 1) / 36 := Nat.mod_eq_of_lt (by omega)
    rw [if_neg small, spellingLoop, if_neg more, spellingLoop, if_pos last, digit]
    rfl

/-- A directory names a release: its name holds the spelling of the release and no `-`. -/
def Names (dir : List Char) (release : UInt8) : Prop := '-' ∉ dir ∧ spelled release <:+: dir

theorem dirCovers_iff (dir : List Char) (release : UInt8) :
    dirCovers dir release = true ↔ Names dir release := by
  unfold dirCovers Names
  rw [Bool.and_eq_true, holdsInfix_iff, releaseSpelling_eq]
  simp

/-! ### Entries -/

def sig : List Char := ".sig".toList

/-- An entry of the archive that is the file of a class: the directory, the module, the path of the
package, which is empty or ends with a slash, and the simple name. -/
structure ClassEntry (name dir module_ pkgPath simple : List Char) : Prop where
  shape : name = dir ++ '/' :: (module_ ++ '/' :: (pkgPath ++ (simple ++ sig)))
  plain : '/' ∉ dir ∧ '/' ∉ module_ ∧ '/' ∉ simple
  path : pkgPath = [] ∨ ∃ front, pkgPath = front ++ ['/']
  release : '-' ∉ dir ∧ dir.filterMap base36Value ≠ []
  type : simple ≠ [] ∧ simple ≠ "module-info".toList ∧ simple ≠ "package-info".toList

/-- The archive holds the file of a class in a directory and a module. -/
def Holds (archive : List (List Char)) (fqn : List Char) (part : Part) : Prop :=
  ∃ name ∈ archive, ∃ pkgPath simple, ClassEntry name part.dir part.module_ pkgPath simple ∧
    fqn = binaryName (dottedPackage pkgPath) simple

/-- A directory that contains the class names the release. -/
def Provided (archive : List (List Char)) (fqn : List Char) (release : UInt8) : Prop :=
  ∃ part, Holds archive fqn part ∧ Names part.dir release

theorem releaseDir_eq_some_iff {name dir rest : List Char} :
    releaseDir name = some (dir, rest) ↔
      name = dir ++ '/' :: rest ∧ '/' ∉ dir ∧ '-' ∉ dir ∧ dir.filterMap base36Value ≠ [] := by
  unfold releaseDir
  cases split : splitOnce '/' name with
  | none =>
      have absent := splitOnce_eq_none_iff.mp split
      refine ⟨nofun, fun all => absurd ?_ absent⟩
      rw [all.1]
      exact List.mem_append_right _ List.mem_cons_self
  | some p =>
      obtain ⟨front, back⟩ := p
      obtain ⟨shape, fresh⟩ := splitOnce_eq_some_iff.mp split
      simp only
      constructor
      · intro found
        split at found
        · cases found
        · rename_i dash
          split at found
          · cases found
          · rename_i named
            obtain ⟨rfl, rfl⟩ := Prod.mk.inj (Option.some.inj found)
            refine ⟨shape, fresh, ?_, ?_⟩
            · simpa using dash
            · simpa [List.isEmpty_iff] using named
      · intro ⟨shape', fresh', dash, named⟩
        have same := splitOnce_eq_some_iff.mpr ⟨shape', fresh'⟩
        rw [split] at same
        obtain ⟨rfl, rfl⟩ := Prod.mk.inj (Option.some.inj same)
        rw [if_neg (by simpa using dash), if_neg (by simpa [List.isEmpty_iff] using named)]

/-- The last segment is what stands behind a path that is empty or ends with the separator. -/
theorem lastSegment_append {pkgPath fileName : List Char} (plain : '/' ∉ fileName)
    (path : pkgPath = [] ∨ ∃ front, pkgPath = front ++ ['/']) :
    lastSegment '/' (pkgPath ++ fileName) = fileName := by
  unfold lastSegment
  rcases path with rfl | ⟨front, rfl⟩
  · rw [List.nil_append, rsplitOnce_eq_none_iff.mpr plain]
  · have split : rsplitOnce '/' (front ++ ['/'] ++ fileName) = some (front, fileName) :=
      rsplitOnce_eq_some_iff.mpr ⟨by simp, plain⟩
    rw [split]

theorem sig_plain : '/' ∉ sig := by decide

theorem classFile_eq_some_iff {rest module_ fqn : List Char} :
    classFile rest = some (module_, fqn) ↔
      ∃ pkgPath simple, rest = module_ ++ '/' :: (pkgPath ++ (simple ++ sig)) ∧ '/' ∉ module_ ∧
        '/' ∉ simple ∧ (pkgPath = [] ∨ ∃ front, pkgPath = front ++ ['/']) ∧
        (simple ≠ [] ∧ simple ≠ "module-info".toList ∧ simple ≠ "package-info".toList) ∧
        fqn = binaryName (dottedPackage pkgPath) simple := by
  unfold classFile
  cases split : splitOnce '/' rest with
  | none =>
      have absent := splitOnce_eq_none_iff.mp split
      refine ⟨nofun, fun ⟨pkgPath, simple, shape, _⟩ => absurd ?_ absent⟩
      rw [shape]
      exact List.mem_append_right _ List.mem_cons_self
  | some p =>
      obtain ⟨front, inModule⟩ := p
      obtain ⟨shape, fresh⟩ := splitOnce_eq_some_iff.mp split
      simp only
      constructor
      · intro found
        obtain ⟨parent, divided, plain, path⟩ := lastSegment_spec '/' inModule
        cases stripped : stripSuffix ".sig".toList (lastSegment '/' inModule) with
        | none =>
            rw [stripped] at found
            cases found
        | some simple =>
            have named := stripSuffix_eq_some_iff.mp stripped
            rw [stripped] at found
            simp only at found
            split at found
            · cases found
            · rename_i type
              obtain ⟨rfl, rfl⟩ := Prod.mk.inj (Option.some.inj found)
              have pkgPath : inModule.take (inModule.length - (lastSegment '/' inModule).length) =
                  parent := by
                have count := congrArg List.length divided
                rw [List.length_append] at count
                have taken : inModule.length - (lastSegment '/' inModule).length = parent.length := by
                  omega
                rw [taken]
                conv => lhs; rw [divided]
                exact List.take_left
              rw [pkgPath]
              have file : lastSegment '/' inModule = simple ++ sig := named
              rw [file] at plain divided
              refine ⟨parent, simple, by rw [shape, ← divided], fresh, ?_, path, ?_, rfl⟩
              · exact fun member => plain (List.mem_append_left _ member)
              · simpa [not_or, List.isEmpty_iff] using type
      · intro ⟨pkgPath, simple, shape', fresh', plain, path, type, named⟩
        have same := splitOnce_eq_some_iff.mpr ⟨shape', fresh'⟩
        rw [split] at same
        obtain ⟨rfl, rfl⟩ := Prod.mk.inj (Option.some.inj same)
        have file : '/' ∉ simple ++ sig := by
          intro member
          rcases List.mem_append.mp member with early | late
          · exact plain early
          · exact sig_plain late
        have stripped : stripSuffix ".sig".toList (simple ++ sig) = some simple :=
          stripSuffix_eq_some_iff.mpr rfl
        have taken : (pkgPath ++ (simple ++ sig)).take
            ((pkgPath ++ (simple ++ sig)).length - (simple ++ sig).length) = pkgPath := by
          rw [List.length_append, Nat.add_sub_cancel]
          exact List.take_left
        rw [lastSegment_append file path, stripped]
        simp only
        rw [if_neg (by simpa [not_or, List.isEmpty_iff] using type), taken, named]

/-- What a round records for an entry. -/
def recorded (name : List Char) : Option (List Char × Part) :=
  (releaseDir name).bind fun p => (classFile p.2).map fun q => (q.2, ⟨p.1, q.1⟩)

theorem recorded_eq_some_iff {name fqn : List Char} {part : Part} :
    recorded name = some (fqn, part) ↔
      ∃ pkgPath simple, ClassEntry name part.dir part.module_ pkgPath simple ∧
        fqn = binaryName (dottedPackage pkgPath) simple := by
  unfold recorded
  rw [Option.bind_eq_some_iff]
  constructor
  · intro ⟨⟨dir, rest⟩, found, mapped⟩
    obtain ⟨⟨module_, fqn'⟩, file, same⟩ := Option.map_eq_some_iff.mp mapped
    obtain ⟨rfl, rfl⟩ := Prod.mk.inj same
    obtain ⟨shape, plain, release⟩ := releaseDir_eq_some_iff.mp found
    obtain ⟨pkgPath, simple, inside, plain', plain'', path, type, named⟩ :=
      classFile_eq_some_iff.mp file
    obtain rfl : rest = module_ ++ '/' :: (pkgPath ++ (simple ++ sig)) := inside
    exact ⟨pkgPath, simple, ⟨shape, ⟨plain, plain', plain''⟩, path, release, type⟩, named⟩
  · intro ⟨pkgPath, simple, entry, named⟩
    refine ⟨(part.dir, part.module_ ++ '/' :: (pkgPath ++ (simple ++ sig))),
      releaseDir_eq_some_iff.mpr ⟨entry.shape, entry.plain.1, entry.release⟩, ?_⟩
    have file := classFile_eq_some_iff.mpr ⟨pkgPath, simple, rfl, entry.plain.2.1, entry.plain.2.2,
      entry.path, entry.type, named⟩
    rw [file]
    rfl

theorem holds_iff {archive : List (List Char)} {fqn : List Char} {part : Part} :
    Holds archive fqn part ↔ ∃ name ∈ archive, recorded name = some (fqn, part) := by
  unfold Holds
  simp only [recorded_eq_some_iff]

/-! ### The classes of the index -/

theorem mem_pushNew {α : Type} [DecidableEq α] {known : List α} {x y : α} :
    y ∈ pushNew known x ↔ y ∈ known ∨ y = x := by
  by_cases old : x ∈ known
  · rw [pushNew_of_mem old]
    constructor
    · exact Or.inl
    · rintro (here | rfl)
      · exact here
      · exact old
  · rw [pushNew_of_not_mem old, List.mem_append, List.mem_singleton]

def partsOf (index : CtSymIndex) (fqn : List Char) : List Part := (index.classes.get fqn).getD []

theorem mem_partsOf_addEntry (index : CtSymIndex) (name fqn : List Char) (part : Part) :
    part ∈ partsOf (addEntry index name) fqn ↔
      part ∈ partsOf index fqn ∨ recorded name = some (fqn, part) := by
  unfold addEntry recorded
  cases releaseDir name with
  | none => simp
  | some p =>
      obtain ⟨dir, rest⟩ := p
      simp only [Option.bind_some]
      cases classFile rest with
      | none => simp [partsOf, addDir]
      | some q =>
          obtain ⟨module_, found⟩ := q
          simp only [partsOf, addPart, addDir, Table.get_insert, Option.map_some, Option.some.injEq,
            Prod.mk.injEq]
          by_cases here : found = fqn
          · subst here
            rw [if_pos rfl, Option.getD_some, mem_pushNew, eq_comm (a := part)]
            simp
          · simp [here]

/-- What every round adds to, the whole loop adds to. -/
theorem foldl_addEntry_iff {P : CtSymIndex → Prop} {Q : List Char → Prop}
    (round : ∀ index name, P (addEntry index name) ↔ P index ∨ Q name)
    (archive : List (List Char)) (index : CtSymIndex) :
    P (archive.foldl addEntry index) ↔ P index ∨ ∃ name ∈ archive, Q name := by
  induction archive generalizing index with
  | nil => simp
  | cons name archive ih =>
      rw [List.foldl_cons, ih, round, List.exists_mem_cons_iff, or_assoc]

theorem mem_partsOf_buildIndex {archive : List (List Char)} {fqn : List Char} {part : Part} :
    part ∈ partsOf (buildIndex archive) fqn ↔ Holds archive fqn part := by
  have built := foldl_addEntry_iff (P := fun index => part ∈ partsOf index fqn)
    (fun index name => mem_partsOf_addEntry index name fqn part) archive ⟨u8Max, 0, Table.empty⟩
  rw [holds_iff, buildIndex, built]
  simp [partsOf]

/-! ### The part of a release -/

open CtSymIndex

theorem mem_of_maxByKey {key : Part → Nat} {parts : List Part} {part : Part}
    (best : maxByKey key parts = some part) : part ∈ parts := by
  cases parts with
  | nil => cases best
  | cons first parts =>
      obtain rfl := Option.some.inj best
      clear best
      induction parts generalizing first with
      | nil => exact List.mem_singleton_self first
      | cons second parts ih =>
          rw [List.foldl_cons]
          split
          · exact List.mem_cons_of_mem first (ih second)
          · rcases List.mem_cons.mp (ih first) with here | later
            · rw [here]
              exact List.mem_cons_self
            · exact List.mem_cons_of_mem first (List.mem_cons_of_mem second later)

theorem isSome_maxByKey (key : Part → Nat) (parts : List Part) :
    (maxByKey key parts).isSome = !parts.isEmpty := by
  cases parts <;> rfl

theorem partFor_holds {archive : List (List Char)} {fqn : List Char} {release : UInt8} {part : Part}
    (found : (buildIndex archive).partFor fqn release = some part) :
    Holds archive fqn part ∧ Names part.dir release := by
  obtain ⟨parts, held, best⟩ := Option.bind_eq_some_iff.mp found
  obtain ⟨listed, covers⟩ := List.mem_filter.mp (mem_of_maxByKey best)
  refine ⟨mem_partsOf_buildIndex.mp ?_, (dirCovers_iff _ _).mp covers⟩
  rw [partsOf, held]
  exact listed

/-- A class is provided where a directory that contains it names the release. -/
theorem provides_iff (archive : List (List Char)) (fqn : List Char) (release : UInt8) :
    (buildIndex archive).provides fqn release = true ↔ Provided archive fqn release := by
  unfold provides
  constructor
  · intro some_
    obtain ⟨part, found⟩ := Option.isSome_iff_exists.mp some_
    exact ⟨part, partFor_holds found⟩
  · intro ⟨part, holds, names⟩
    have listed := mem_partsOf_buildIndex.mpr holds
    rw [partsOf] at listed
    unfold partFor
    cases held : (buildIndex archive).classes.get fqn with
    | none =>
        rw [held] at listed
        cases listed
    | some parts =>
        rw [held] at listed
        have kept : part ∈ parts.filter fun part => dirCovers part.dir release :=
          List.mem_filter.mpr ⟨listed, (dirCovers_iff _ _).mpr names⟩
        rw [Option.bind_some, isSome_maxByKey, Bool.not_eq_true', List.isEmpty_eq_false_iff]
        exact List.ne_nil_of_mem kept

/-! ### Bounds -/

/-- The releases that the directory of an entry spells with one character. -/
def namedDigits (name : List Char) : List Nat :=
  match releaseDir name with
  | none => []
  | some p => p.1.filterMap base36Value

/-- A release that a directory of the archive spells with one character. -/
def NamedDigit (archive : List (List Char)) (digit : Nat) : Prop :=
  ∃ name ∈ archive, digit ∈ namedDigits name

theorem base36Value_le {c : Char} {digit : Nat} (value : base36Value c = some digit) : digit ≤ 35 := by
  unfold base36Value at value
  split at value
  · rename_i low
    obtain rfl := Option.some.inj value
    have upper : c.toNat ≤ '9'.toNat := low.2
    have nine : '9'.toNat = 57 := rfl
    have zero : '0'.toNat = 48 := rfl
    omega
  · split at value
    · rename_i high
      obtain rfl := Option.some.inj value
      have upper : c.toNat ≤ 'Z'.toNat := high.2
      have last : 'Z'.toNat = 90 := rfl
      have first : 'A'.toNat = 65 := rfl
      omega
    · cases value

theorem namedDigit_le {archive : List (List Char)} {digit : Nat} (named : NamedDigit archive digit) :
    digit ≤ 35 := by
  obtain ⟨name, -, member⟩ := named
  unfold namedDigits at member
  split at member
  · cases member
  · obtain ⟨c, -, value⟩ := List.mem_filterMap.mp member
    exact base36Value_le value

theorem foldl_min_le_iff (digits : List Nat) (start n : Nat) :
    digits.foldl min start ≤ n ↔ start ≤ n ∨ ∃ digit ∈ digits, digit ≤ n := by
  induction digits generalizing start with
  | nil => simp
  | cons digit digits ih =>
      rw [List.foldl_cons, ih, List.exists_mem_cons_iff, min_le_iff, or_assoc]

theorem le_foldl_max_iff (digits : List Nat) (start n : Nat) :
    n ≤ digits.foldl max start ↔ n ≤ start ∨ ∃ digit ∈ digits, n ≤ digit := by
  induction digits generalizing start with
  | nil => simp
  | cons digit digits ih =>
      rw [List.foldl_cons, ih, List.exists_mem_cons_iff, le_max_iff, or_assoc]

/-- One round lowers the lower bound to the digits of its entry. -/
theorem minRelease_addEntry (index : CtSymIndex) (name : List Char) {n : Nat} (small : n < u8Max) :
    (addEntry index name).minRelease ≤ n ↔
      index.minRelease ≤ n ∨ ∃ digit ∈ namedDigits name, digit ≤ n := by
  unfold addEntry namedDigits
  cases releaseDir name with
  | none => simp
  | some p =>
      have lowered : min index.minRelease ((p.1.filterMap base36Value).foldl min u8Max) ≤ n ↔
          index.minRelease ≤ n ∨ ∃ digit ∈ p.1.filterMap base36Value, digit ≤ n := by
        rw [min_le_iff, foldl_min_le_iff]
        simp only [Nat.not_le.mpr small, false_or]
      simp only
      cases classFile p.2 <;> exact lowered

/-- One round raises the upper bound to the digits of its entry. -/
theorem maxRelease_addEntry (index : CtSymIndex) (name : List Char) {n : Nat} (positive : 0 < n) :
    n ≤ (addEntry index name).maxRelease ↔
      n ≤ index.maxRelease ∨ ∃ digit ∈ namedDigits name, n ≤ digit := by
  unfold addEntry namedDigits
  cases releaseDir name with
  | none => simp
  | some p =>
      have raised : n ≤ max index.maxRelease ((p.1.filterMap base36Value).foldl max 0) ↔
          n ≤ index.maxRelease ∨ ∃ digit ∈ p.1.filterMap base36Value, n ≤ digit := by
        rw [le_max_iff, le_foldl_max_iff]
        simp only [Nat.not_le.mpr positive, false_or]
      simp only
      cases classFile p.2 <;> exact raised

theorem minRelease_le_iff (archive : List (List Char)) {n : Nat} (small : n < u8Max) :
    (buildIndex archive).minRelease ≤ n ↔ ∃ digit, NamedDigit archive digit ∧ digit ≤ n := by
  have built := foldl_addEntry_iff (P := fun index => index.minRelease ≤ n)
    (fun index name => minRelease_addEntry index name small) archive ⟨u8Max, 0, Table.empty⟩
  rw [buildIndex, built]
  simp only [Nat.not_le.mpr small, false_or]
  constructor
  · intro ⟨name, listed, digit, member, low⟩
    exact ⟨digit, ⟨name, listed, member⟩, low⟩
  · intro ⟨digit, ⟨name, listed, member⟩, low⟩
    exact ⟨name, listed, digit, member, low⟩

theorem le_maxRelease_iff (archive : List (List Char)) {n : Nat} (positive : 0 < n) :
    n ≤ (buildIndex archive).maxRelease ↔ ∃ digit, NamedDigit archive digit ∧ n ≤ digit := by
  have built := foldl_addEntry_iff (P := fun index => n ≤ index.maxRelease)
    (fun index name => maxRelease_addEntry index name positive) archive ⟨u8Max, 0, Table.empty⟩
  rw [buildIndex, built]
  simp only [Nat.not_le.mpr positive, false_or]
  constructor
  · intro ⟨name, listed, digit, member, high⟩
    exact ⟨digit, ⟨name, listed, member⟩, high⟩
  · intro ⟨digit, ⟨name, listed, member⟩, high⟩
    exact ⟨name, listed, digit, member, high⟩

/-- The release stands between two releases that directories spell with one character. -/
def WithinBounds (archive : List (List Char)) (release : UInt8) : Prop :=
  (∃ low, NamedDigit archive low ∧ low ≤ release.toNat) ∧
    ∃ high, NamedDigit archive high ∧ release.toNat ≤ high

theorem maxRelease_le (archive : List (List Char)) : (buildIndex archive).maxRelease ≤ 35 := by
  by_cases none_ : (buildIndex archive).maxRelease = 0
  · omega
  · obtain ⟨digit, named, high⟩ :=
      (le_maxRelease_iff archive (Nat.pos_of_ne_zero none_)).mp (Nat.le_refl _)
    exact Nat.le_trans high (namedDigit_le named)

theorem coversRelease_iff (archive : List (List Char)) (release : UInt8) :
    (buildIndex archive).coversRelease release = true ↔ WithinBounds archive release := by
  unfold coversRelease WithinBounds
  simp only [Bool.and_eq_true, decide_eq_true_eq]
  have most := maxRelease_le archive
  constructor
  · intro ⟨_, above, below⟩
    obtain ⟨low, named, first⟩ := (minRelease_le_iff archive (by unfold u8Max; omega)).mp above
    refine ⟨⟨low, named, first⟩, ?_⟩
    by_cases zero : release.toNat = 0
    · exact ⟨low, named, by omega⟩
    · exact (le_maxRelease_iff archive (Nat.pos_of_ne_zero zero)).mp below
  · intro ⟨⟨low, named, first⟩, high, named', last⟩
    have short := namedDigit_le named'
    have above : (buildIndex archive).minRelease ≤ release.toNat :=
      (minRelease_le_iff archive (by unfold u8Max; omega)).mpr ⟨low, named, first⟩
    have below : release.toNat ≤ (buildIndex archive).maxRelease := by
      by_cases zero : release.toNat = 0
      · omega
      · exact (le_maxRelease_iff archive (Nat.pos_of_ne_zero zero)).mpr ⟨high, named', last⟩
    exact ⟨Nat.le_trans above below, above, below⟩

/-! ### Later releases -/

/-- The least later release, up to the highest one a directory spells with one character, that
provides a class. -/
structure FirstLater (archive : List (List Char)) (fqn : List Char) (release added : UInt8) :
    Prop where
  later : release < added
  bounded : ∃ high, NamedDigit archive high ∧ added.toNat ≤ high
  provided : Provided archive fqn added
  least : ∀ between, release < between → between < added → ¬ Provided archive fqn between

theorem earliestReleaseProviding_iff (archive : List (List Char)) (fqn : List Char)
    (release added : UInt8) :
    (buildIndex archive).earliestReleaseProviding fqn release = some added ↔
      ¬ Provided archive fqn release ∧ FirstLater archive fqn release added := by
  unfold earliestReleaseProviding
  by_cases here : (buildIndex archive).provides fqn release = true
  · rw [if_pos here]
    have already := (provides_iff archive fqn release).mp here
    constructor
    · nofun
    · intro ⟨absent, _⟩
      exact absurd already absent
  · rw [if_neg here]
    have absent : ¬ Provided archive fqn release :=
      fun already => here ((provides_iff archive fqn release).mpr already)
    have most := maxRelease_le archive
    rw [List.find?_map, Option.map_eq_some_iff]
    constructor
    · intro ⟨n, found, same⟩
      obtain ⟨holds, listed, earlier⟩ := List.find?_range'_eq_some.mp found
      have range := List.mem_range'_1.mp listed
      have small : n < 256 := by omega
      have value : added.toNat = n := by
        rw [← same, UInt8.toNat_ofNat', Nat.mod_eq_of_lt small]
      have provided : Provided archive fqn added := by
        rw [← provides_iff, ← same]
        exact holds
      refine ⟨absent, ?_, ?_, provided, ?_⟩
      · rw [UInt8.lt_iff_toNat_lt]
        omega
      · exact (le_maxRelease_iff archive (by omega)).mp (by omega)
      · intro between after before provided'
        rw [UInt8.lt_iff_toNat_lt] at after before
        have missed := earlier between.toNat (by omega) (by omega)
        rw [Function.comp_apply, UInt8.ofNat_toNat, (provides_iff _ _ _).mpr provided'] at missed
        cases missed
    · intro ⟨_, first⟩
      have later := UInt8.lt_iff_toNat_lt.mp first.later
      have bounded := (le_maxRelease_iff archive (by omega)).mpr first.bounded
      refine ⟨added.toNat, List.find?_range'_eq_some.mpr ⟨?_, ?_, ?_⟩, UInt8.ofNat_toNat⟩
      · rw [Function.comp_apply, UInt8.ofNat_toNat]
        exact (provides_iff _ _ _).mpr first.provided
      · rw [List.mem_range'_1]
        omega
      · intro n after before
        have small : n < 256 := by omega
        have value : (UInt8.ofNat n).toNat = n := by
          rw [UInt8.toNat_ofNat', Nat.mod_eq_of_lt small]
        have missed := first.least (UInt8.ofNat n) (by rw [UInt8.lt_iff_toNat_lt, value]; omega)
          (by rw [UInt8.lt_iff_toNat_lt, value]; exact before)
        rw [Function.comp_apply, Bool.not_eq_true', Bool.eq_false_iff]
        exact fun provided => missed ((provides_iff _ _ _).mp provided)

theorem classNotInRelease_iff (archive : List (List Char)) (release : UInt8) (fqn : List Char)
    (found added : UInt8) :
    (buildIndex archive).classNotInRelease release fqn = some (found, added) ↔
      found = release ∧ WithinBounds archive release ∧ ¬ Provided archive fqn release ∧
        FirstLater archive fqn release added := by
  unfold classNotInRelease
  by_cases covered : (buildIndex archive).coversRelease release = true
  · have within := (coversRelease_iff archive release).mp covered
    rw [if_pos covered, Option.map_eq_some_iff]
    constructor
    · intro ⟨first, earliest, same⟩
      obtain ⟨rfl, rfl⟩ := Prod.mk.inj same
      have later := (earliestReleaseProviding_iff archive fqn release first).mp earliest
      exact ⟨rfl, within, later⟩
    · intro ⟨same, _, later⟩
      exact ⟨added, (earliestReleaseProviding_iff archive fqn release added).mpr later, by rw [same]⟩
  · rw [if_neg covered]
    constructor
    · nofun
    · intro ⟨_, within, _⟩
      exact absurd ((coversRelease_iff archive release).mpr within) covered

/-! ### Entries found again -/

/-- A package that is not the unnamed one, whose path ends with one slash, and no dot in the path or
in the simple name. -/
def Rebuildable (pkgPath simple : List Char) : Prop :=
  ∃ front, pkgPath = front ++ ['/'] ∧ (∀ shorter, front ≠ shorter ++ ['/']) ∧ front ≠ [] ∧
    '.' ∉ front ∧ '.' ∉ simple

/-- Without dots in it, the path of a package is its dotted name with slashes. -/
theorem undotted {path : List Char} (plain : '.' ∉ path) :
    (path.map fun c => if c = '/' then '.' else c).map (fun c => if c = '.' then '/' else c) =
      path := by
  rw [List.map_map]
  conv => rhs; rw [← List.map_id path]
  apply List.map_congr_left
  intro c member
  rw [Function.comp_apply]
  by_cases slash : c = '/'
  · rw [if_pos slash, if_pos rfl, slash]
    rfl
  · have dot : c ≠ '.' := fun same => plain (same ▸ member)
    rw [if_neg slash, if_neg dot]
    rfl

theorem dottedPackage_eq {front : List Char} (one : ∀ shorter, front ≠ shorter ++ ['/']) :
    dottedPackage (front ++ ['/']) = front.map fun c => if c = '/' then '.' else c := by
  have kept : front.rdropWhile (· = '/') = front := by
    rw [List.rdropWhile_eq_self_iff]
    intro filled last
    refine one front.dropLast ?_
    rw [← of_decide_eq_true last, List.dropLast_append_getLast]
  unfold dottedPackage
  rw [List.rdropWhile_concat_pos _ _ _ (by decide), kept]

theorem viewEntry_eq {name dir module_ pkgPath simple : List Char}
    (entry : ClassEntry name dir module_ pkgPath simple) (rebuildable : Rebuildable pkgPath simple) :
    viewEntry ⟨dir, module_⟩ (binaryName (dottedPackage pkgPath) simple) = name := by
  obtain ⟨front, rfl, one, filled, plain, plain'⟩ := rebuildable
  have qualified : binaryName (front.map fun c => if c = '/' then '.' else c) simple =
      (front.map fun c => if c = '/' then '.' else c) ++ '.' :: simple := by
    unfold binaryName
    rw [if_neg (by simpa using filled)]
  have split : rsplitOnce '.' ((front.map fun c => if c = '/' then '.' else c) ++ '.' :: simple) =
      some (front.map fun c => if c = '/' then '.' else c, simple) :=
    rsplitOnce_eq_some_iff.mpr ⟨rfl, plain'⟩
  rw [dottedPackage_eq one, qualified, entry.shape]
  unfold viewEntry
  rw [split]
  simp only [undotted plain]
  simp [sig]

/-- What the index of an archive answers about releases, and which entries are read for it. -/
structure LookupAgrees (archive : List (List Char)) : Prop where
  provides : ∀ fqn release, (buildIndex archive).provides fqn release = true ↔
    Provided archive fqn release
  notInRelease : ∀ release fqn found added,
    (buildIndex archive).classNotInRelease release fqn = some (found, added) ↔
      found = release ∧ WithinBounds archive release ∧ ¬ Provided archive fqn release ∧
        FirstLater archive fqn release added
  held : ∀ fqn release part, (buildIndex archive).partFor fqn release = some part →
    Holds archive fqn part ∧ Names part.dir release
  entries : ∀ fqn release part, (buildIndex archive).partFor fqn release = some part →
    ∀ name ∈ archive, ∀ pkgPath simple, ClassEntry name part.dir part.module_ pkgPath simple →
      fqn = binaryName (dottedPackage pkgPath) simple → Rebuildable pkgPath simple →
        viewEntry part fqn = name

/-- For every archive the index names the releases of a class as its directories do, and the entry
of a class in a package is found again from the name of the class. -/
theorem lookupAgrees (archive : List (List Char)) : LookupAgrees archive where
  provides := provides_iff archive
  notInRelease := fun release fqn found added =>
    classNotInRelease_iff archive release fqn found added
  held := fun _ _ _ found => partFor_holds found
  entries := fun _ _ _ _ _ _ _ _ entry named rebuildable => by
    rw [named]
    exact viewEntry_eq entry rebuildable

/-- Two directories of one class never name the same release. -/
def Partitions (archive : List (List Char)) : Prop :=
  ∀ fqn part part' release, Holds archive fqn part → Holds archive fqn part' →
    Names part.dir release → Names part'.dir release → part = part'

/-- The later release is sought among all releases. -/
def LaterUnbounded (archive : List (List Char)) : Prop :=
  ∀ release fqn added, WithinBounds archive release → ¬ Provided archive fqn release →
    release < added → Provided archive fqn added →
      (∀ between, release < between → between < added → ¬ Provided archive fqn between) →
        (buildIndex archive).classNotInRelease release fqn = some (release, added)

/-- The entry of every class is found again, of one in the unnamed package too. -/
def EntriesUnrestricted (archive : List (List Char)) : Prop :=
  ∀ fqn release part, (buildIndex archive).partFor fqn release = some part →
    ∀ name ∈ archive, ∀ pkgPath simple, ClassEntry name part.dir part.module_ pkgPath simple →
      fqn = binaryName (dottedPackage pkgPath) simple → viewEntry part fqn = name

/-- One class whose directory names release 36, which takes two characters, and another one. -/
def mixedArchive : List (List Char) := ["10/m/X.sig".toList, "9/m/Y.sig".toList]

/-- In the archive a later release goes unnoticed, as the bounds are of one character, and the class
in the unnamed package is sought with an empty segment in its path. -/
theorem mixed_disagrees :
    Partitions mixedArchive ∧ ¬ LaterUnbounded mixedArchive ∧ ¬ EntriesUnrestricted mixedArchive := by
  have first : recorded "10/m/X.sig".toList = some (['X'], ⟨['1', '0'], ['m']⟩) := by rfl
  have second : recorded "9/m/Y.sig".toList = some (['Y'], ⟨['9'], ['m']⟩) := by rfl
  have only {fqn : List Char} {part : Part} (holds : Holds mixedArchive fqn part) :
      some (fqn, part) = some (['X'], ⟨['1', '0'], ['m']⟩) ∨
        some (fqn, part) = some (['Y'], ⟨['9'], ['m']⟩) := by
    obtain ⟨name, listed, found⟩ := holds_iff.mp holds
    rcases List.mem_pair.mp listed with rfl | rfl
    · exact .inl (found.symm.trans first)
    · exact .inr (found.symm.trans second)
  refine ⟨?_, ?_, ?_⟩
  · intro fqn part part' release holds holds' _ _
    rcases only holds with here | here <;> rcases only holds' with there | there <;>
      simp_all
  · intro unbounded
    have within : WithinBounds mixedArchive 5 := (coversRelease_iff _ _).mp (by rfl)
    have absent : ∀ n < 36, 5 ≤ n → (buildIndex mixedArchive).provides ['X'] (UInt8.ofNat n) = false := by
      decide
    have missing {release : UInt8} (low : 5 ≤ release.toNat) (high : release.toNat < 36) :
        ¬ Provided mixedArchive ['X'] release := by
      have computed := absent release.toNat high low
      rw [UInt8.ofNat_toNat] at computed
      rw [← provides_iff, computed]
      nofun
    have provided : Provided mixedArchive ['X'] 36 := (provides_iff _ _ _).mp (by rfl)
    have claimed := unbounded 5 ['X'] 36 within (missing (by decide) (by decide)) (by decide) provided
      fun between after before => missing
        (Nat.le_of_lt (UInt8.lt_iff_toNat_lt.mp after)) (UInt8.lt_iff_toNat_lt.mp before)
    have answered : (buildIndex mixedArchive).classNotInRelease 5 ['X'] = none := by rfl
    rw [answered] at claimed
    cases claimed
  · intro unrestricted
    have found : (buildIndex mixedArchive).partFor ['X'] 36 = some ⟨['1', '0'], ['m']⟩ := by
      rfl
    obtain ⟨pkgPath, simple, entry, named⟩ := recorded_eq_some_iff.mp first
    have claimed := unrestricted ['X'] 36 _ found _ (List.mem_cons_self) pkgPath simple entry named
    revert claimed
    decide

end CaffeineLs.Hir.CtSym
