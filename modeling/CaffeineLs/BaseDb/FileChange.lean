/-
Module: CaffeineLs.BaseDb.FileChange
Purpose: The inputs of the source database: the source roots, the root of each file and the local roots,
  and how a change of the file system sets them.
Trusted boundary: an input keeps what was last written; that a write of an equal value is left out is not
  seen in what is read. The paths of a file set are left out
Main exports: SourceRoot, Files, setSourceRoot
-/
import Mathlib.Tactic.Common

namespace CaffeineLs.BaseDb

structure FileId where
  raw : UInt32
deriving DecidableEq, Repr

structure SourceRootId where
  raw : UInt32
deriving DecidableEq, Repr

/-- The reserved root of the documents that no root claims. -/
def fallbackSourceRoot : SourceRootId := ⟨4294967295⟩

/-- A file set, by the files that its iterator gives, and whether it holds the sources of a library. -/
structure SourceRoot where
  fileSet : List FileId
  library : Bool
deriving DecidableEq, Repr

/-- The inputs: `Files` and the singleton `LocalRoots`. -/
structure Files where
  files : FileId → Option String
  sourceRoots : SourceRootId → Option SourceRoot
  fileSourceRoots : FileId → Option SourceRootId
  localRoots : Option (List SourceRootId)

def initial : Files := ⟨fun _ => none, fun _ => none, fun _ => none, none⟩

namespace Files

def setSourceRoot (db : Files) (id : SourceRootId) (root : SourceRoot) : Files :=
  { db with sourceRoots := fun other => if other = id then some root else db.sourceRoots other }

def setFileSourceRoot (db : Files) (file : FileId) (id : SourceRootId) : Files :=
  { db with
    fileSourceRoots := fun other => if other = file then some id else db.fileSourceRoots other }

def ensureFileSourceRoot (db : Files) (file : FileId) : Files :=
  if (db.fileSourceRoots file).isSome then db
  else
    let db :=
      if (db.sourceRoots fallbackSourceRoot).isSome then db
      else db.setSourceRoot fallbackSourceRoot ⟨[], false⟩
    db.setFileSourceRoot file fallbackSourceRoot

/-- `set_file_text_with_durability` -/
def setFileText (db : Files) (file : FileId) (text : String) : Files :=
  let db := db.ensureFileSourceRoot file
  { db with files := fun other => if other = file then some text else db.files other }

def fileSourceRootId (db : Files) (file : FileId) : Option SourceRootId := db.fileSourceRoots file

end Files

structure FileChange where
  roots : Option (List SourceRoot)
  filesChanged : List (FileId × Option String)

namespace FileChange

/-- One round of the loop over the roots. -/
def applyRoot (db : Files) (idx : Nat) (root : SourceRoot) : Files :=
  let rootId : SourceRootId := ⟨.ofNat idx⟩
  (root.fileSet.foldl (fun db file => db.setFileSourceRoot file rootId) db).setSourceRoot rootId root

/-- The loop over the roots from a position on. -/
def applyRoots : Nat → List SourceRoot → Files → Files
  | _, [], db => db
  | idx, root :: rest, db => applyRoots (idx + 1) rest (applyRoot db idx root)

/-- `FileChange::apply`; a removed file is left with no text. -/
def apply (change : FileChange) (db : Files) : Files :=
  let db :=
    match change.roots with
    | none => db
    | some roots =>
        { applyRoots 0 roots db with
          localRoots := some ((List.range roots.length).map fun idx => ⟨.ofNat idx⟩) }
  change.filesChanged.foldl (fun db (file, text) => db.setFileText file (text.getD "")) db

end FileChange

end CaffeineLs.BaseDb
