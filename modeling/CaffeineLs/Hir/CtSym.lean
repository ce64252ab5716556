/-
Module: CaffeineLs.Hir.CtSym
Purpose: The index of the symbol archive of an SDK: which platform classes a release provides, and where
  the archive keeps them.
Trusted boundary: an archive is the names of its entries; names are lists of characters
Main exports: CtSymIndex, buildIndex, partFor
-/
import CaffeineLs.Lib.HashTable
import CaffeineLs.Lib.Splitting
import Mathlib.Data.List.DropRight

namespace CaffeineLs.Hir

open HashTable Splitting

namespace CtSym

/-! ### Releases -/

/-- The character of a base-36 digit. -/
def spellingDigit (digit : Nat) : Char :=
  if digit < 10 then Char.ofNat ('0'.toNat + digit) else Char.ofNat ('A'.toNat + (digit - 10))

/-- The digits of a value, the last one first: `loop { … value /= 36; if value == 0 { break; } }` -/
def spellingLoop : Nat → Nat → List Char
  | 0, _ => []
  | fuel + 1, value =>
    spellingDigit (value % 36) :: if value / 36 = 0 then [] else spellingLoop fuel (value / 36)

def releaseSpelling (release : UInt8) : List Char :=
  (spellingLoop (release.toNat + 1) release.toNat).reverse

def base36Value (c : Char) : Option Nat :=
  if '0' ≤ c ∧ c ≤ '9' then some (c.toNat - '0'.toNat)
  else if 'A' ≤ c ∧ c ≤ 'Z' then some (10 + (c.toNat - 'A'.toNat))
  else none

def dirCovers (dir : List Char) (release : UInt8) : Bool :=
  !dir.contains '-' && holdsInfix (releaseSpelling release) dir

def lowestNamedRelease (dir : List Char) : Nat := ((dir.filterMap base36Value).min?).getD 0

/-! ### The index -/

/-- A directory with the module in it that holds a class. -/
structure Part where
  dir : List Char
  module_ : List Char
deriving DecidableEq, Repr

structure CtSymIndex where
  minRelease : Nat
  maxRelease : Nat
  classes : Table (List Char) (List Part)

def u8Max : Nat := 255

/-- The release directory that an entry name starts with, and the rest of the name. -/
def releaseDir (name : List Char) : Option (List Char × List Char) :=
  match splitOnce '/' name with
  | none => none
  | some (dir, rest) =>
    if dir.contains '-' then none
    else if (dir.filterMap base36Value).isEmpty then none
    else some (dir, rest)

/-- The dotted package of a path within a module. -/
def dottedPackage (pkgPath : List Char) : List Char :=
  (pkgPath.rdropWhile (· = '/')).map fun c => if c = '/' then '.' else c

/-- The binary name of a class in a package. -/
def binaryName (pkg simple : List Char) : List Char :=
  if pkg.isEmpty then simple else pkg ++ '.' :: simple

/-- The module and the binary name of a class file, from its path below the release directory. -/
def classFile (rest : List Char) : Option (List Char × List Char) :=
  match splitOnce '/' rest with
  | none => none
  | some (module_, inModule) =>
    let fileName := lastSegment '/' inModule
    match stripSuffix ".sig".toList fileName with
    | none => none
    | some simple =>
      if simple.isEmpty ∨ simple = "module-info".toList ∨ simple = "package-info".toList then none
      else
        let pkgPath := inModule.take (inModule.length - fileName.length)
        some (module_, binaryName (dottedPackage pkgPath) simple)

/-- The bounds with the releases that a directory names. -/
def addDir (dir : List Char) (index : CtSymIndex) : CtSymIndex :=
  let named := dir.filterMap base36Value
  { index with
    minRelease := min index.minRelease (named.foldl min u8Max)
    maxRelease := max index.maxRelease (named.foldl max 0) }

def addPart (fqn : List Char) (part : Part) (index : CtSymIndex) : CtSymIndex :=
  let parts := (index.classes.get fqn).getD []
  { index with classes := index.classes.insert fqn (pushNew parts part) }

/-- A round of the loop over the entries. -/
def addEntry (index : CtSymIndex) (name : List Char) : CtSymIndex :=
  match releaseDir name with
  | none => index
  | some (dir, rest) =>
    match classFile rest with
    | none => addDir dir index
    | some (module_, fqn) => addPart fqn ⟨dir, module_⟩ (addDir dir index)

/-- `build_index`. The bounds are inverted until a directory names a release. -/
def buildIndex (archive : List (List Char)) : CtSymIndex :=
  archive.foldl addEntry ⟨u8Max, 0, Table.empty⟩

namespace CtSymIndex

def coversRelease (index : CtSymIndex) (release : UInt8) : Bool :=
  index.minRelease ≤ index.maxRelease &&
    (index.minRelease ≤ release.toNat && release.toNat ≤ index.maxRelease)

/-- `Iterator::max_by_key`: the last of those with the highest key. -/
def maxByKey (key : Part → Nat) : List Part → Option Part
  | [] => none
  | part :: parts =>
    some (parts.foldl (fun best part => if key best ≤ key part then part else best) part)

def partFor (index : CtSymIndex) (fqn : List Char) (release : UInt8) : Option Part :=
  (index.classes.get fqn).bind fun parts =>
    maxByKey (fun part => lowestNamedRelease part.dir)
      (parts.filter fun part => dirCovers part.dir release)

def provides (index : CtSymIndex) (fqn : List Char) (release : UInt8) : Bool :=
  (index.partFor fqn release).isSome

def earliestReleaseProviding (index : CtSymIndex) (fqn : List Char) (release : UInt8) :
    Option UInt8 :=
  if index.provides fqn release then none
  else
    ((List.range' (release.toNat + 1) (index.maxRelease - release.toNat)).map UInt8.ofNat).find?
      (index.provides fqn)

/-- `ct_sym_class_not_in_release`, of the index of the library -/
def classNotInRelease (index : CtSymIndex) (release : UInt8) (fqn : List Char) :
    Option (UInt8 × UInt8) :=
  if index.coversRelease release then
    (index.earliestReleaseProviding fqn release).map fun added => (release, added)
  else none

end CtSymIndex

/-- The entry that `ct_sym_class_view_query` reads for a class. -/
def viewEntry (part : Part) (fqn : List Char) : List Char :=
  let (package, simple) :=
    match rsplitOnce '.' fqn with
    | some (package, simple) => (package.map fun c => if c = '.' then '/' else c, simple)
    | none => ([], fqn)
  part.dir ++ '/' :: part.module_ ++ '/' :: package ++ '/' :: simple ++ ".sig".toList

end CtSym

end CaffeineLs.Hir
