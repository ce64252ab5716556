/-
Module: CaffeineLs.Server.IgnoreRules
Purpose: The ignore rules that loading a workspace leaves, and which files of the loader they drop.
Trusted boundary: the rules that `build_matchers` finds for a directory are a parameter
Main exports: Ignore, matchers, componentPlaces
-/
import CaffeineLs.Server.OpenDocuments
import CaffeineLs.Server.WorkspaceFolders

namespace CaffeineLs.Server.Workspace

open DeepestPrefix
open OpenDocuments (Places ignoredByOwningRoot)

/-- Whether some rules ignore a file, by its path below their directory. -/
abbrev Matcher := Path → Bool

/-- `WalkBuilder::build_matchers` for a directory, with the standard filters. -/
structure Ignore where
  buildMatchers : Path → List Matcher

variable (ignore : Ignore)

/-- The rules that a root adds: a generated one has none. -/
def RootEntry.matcher : RootEntry → Option (Path × Matcher)
  | .workspace path _ generated =>
      if generated then none
      else (ignore.buildMatchers path).head?.map fun matcher => (path, matcher)
  | .library _ _ => none
  | .decompiledLibrary _ _ => none

/-- `source_root_matchers` after `apply_loaded_graph`. -/
def matchers (loaded : LoadedWorkspace) : List (Path × Matcher) :=
  (entries loaded).filterMap (RootEntry.matcher ignore)

/-- Absolute paths as components; the root directory is one more. -/
def componentPlaces : Places Empty Path where
  viewVfsPath := nofun
  vfsPath := nofun
  stripPrefix root path := if root.isPrefixOf path then some (path.drop root.length) else none
  components path := path.length + 1

/-- A file of the loader is dropped by the rules. -/
def dropped (loaded : LoadedWorkspace) (path : Path) : Bool :=
  ignoredByOwningRoot componentPlaces (matchers ignore loaded) path

/-! ### What is meant -/

/-- The most specific configured root above a file. -/
def owner (graph : WorkspaceGraph) (path : Path) : Option (Path × SourceSetId × Bool) :=
  deepest Prod.fst (workspaceEntries graph) path

/-- The root's own rules ignore a file. -/
def RulesIgnore (root path : Path) : Prop :=
  ∃ matcher, (ignore.buildMatchers root).head? = some matcher ∧
    matcher (path.drop root.length) = true

/-- The most specific root above the file is not generated, and its own rules ignore the file. -/
def OwnRulesIgnore (graph : WorkspaceGraph) (path : Path) : Prop :=
  ∃ root id, owner graph path = some (root, id, false) ∧ RulesIgnore ignore root path

end CaffeineLs.Server.Workspace
