/-
Module: CaffeineLs.Hir.SymbolIndex
Purpose: The symbol index of a source set: every declaration of its files under its name.
Trusted boundary: the second table of the index, by simple name, is left out: resolution by a
  qualified name does not read it
Main exports: SourceSymbolIndex, SourceSymbolIndex.build, resolveFqn
-/
import CaffeineLs.Hir.ClassResolution
import CaffeineLs.Lib.HashTable

namespace CaffeineLs.Hir

open HirExpand (Name FileId)
open HashTable

structure SourceSymbolIndex where
  byFqn : Table Name (List SourceSymbolRef)

namespace SourceSymbolIndex

/-- `by_fqn.entry(symbol.name.clone()).or_default().push(…)` -/
def push (table : Table Name (List SourceSymbolRef)) (reference : SourceSymbolRef) :
    Table Name (List SourceSymbolRef) :=
  let name := reference.symbol.name
  table.insert name ((table.get name).getD [] ++ [reference])

/-- The order within a name is the order of the symbols. -/
def build (symbols : List SourceSymbolRef) : SourceSymbolIndex :=
  ⟨symbols.foldl push Table.empty⟩

/-- Every symbol with the given canonical name. -/
def resolveFqn (index : SourceSymbolIndex) (fqn : Name) : List SourceSymbolRef :=
  (index.byFqn.get fqn).getD []

theorem get_foldl_push (symbols : List SourceSymbolRef) (table : Table Name (List SourceSymbolRef))
    (fqn : Name) :
    ((symbols.foldl push table).get fqn).getD [] =
      (table.get fqn).getD [] ++ symbols.filter fun reference => reference.symbol.name = fqn := by
  induction symbols generalizing table with
  | nil => simp
  | cons reference rest ih =>
      rw [List.foldl_cons, ih, push, Table.get_insert]
      by_cases here : reference.symbol.name = fqn
      · subst here
        simp
      · simp [here]

/-- The index lists the symbols of a name in their order. -/
@[simp] theorem resolveFqn_build (symbols : List SourceSymbolRef) (fqn : Name) :
    (build symbols).resolveFqn fqn = symbols.filter fun reference => reference.symbol.name = fqn :=
  (get_foldl_push symbols Table.empty fqn).trans (List.nil_append _)

end SourceSymbolIndex

namespace Workspace

variable (ws : Workspace)

/-- The source roots of a source set, sorted by id. -/
def sourceSetRoots (sourceSet : SourceSetId) : List Nat :=
  ((ws.sourceRoots.filter fun root => root.2 = sourceSet).map Prod.fst).mergeSort (· ≤ ·)

/-- `source_root_symbols_query` -/
def sourceRootSymbols (root : Nat) : List SourceSymbolRef :=
  (ws.rootFiles root).flatMap fun file =>
    (ws.fileSymbols file).map fun symbol => ⟨file, symbol⟩

/-- `source_set_symbol_index_query` -/
def sourceSetSymbols (sourceSet : SourceSetId) : SourceSymbolIndex :=
  .build ((ws.sourceSetRoots sourceSet).flatMap ws.sourceRootSymbols)

end Workspace

end CaffeineLs.Hir
