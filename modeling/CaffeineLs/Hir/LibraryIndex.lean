/-
Module: CaffeineLs.Hir.LibraryIndex
Purpose: The tier-1 name index of a library, over any representation of symbols.
Trusted boundary: none
Main exports: ClassEntry, ModuleEntry, NameIndex
-/
import CaffeineLs.Hir.Stub

namespace CaffeineLs.Hir

/-- Tier-1 entry: what name-based queries and hierarchy edges need, without member data. -/
structure ClassEntry (S : Type) where
  fqn : S
  package : S
  kind : ClassKind
  flags : UInt16
  superClass : Option S
  interfaces : List S
  module_ : Option S
deriving DecidableEq, Repr

structure ModuleEntry (S : Type) where
  name : S
  flags : UInt16
  version : Option S
deriving DecidableEq, Repr

/-- The entries of a library. The maps of the source from names to entry indices are derived. -/
structure NameIndex (S : Type) where
  entries : List (ClassEntry S)
  modules : List (ModuleEntry S)
deriving DecidableEq, Repr

namespace NameIndex

variable {S : Type}

def empty : NameIndex S := ⟨[], []⟩

variable [DecidableEq S]

/-- The index of the last entry of that name: a later insertion into `name_to_entry` replaces an
earlier one. -/
def position (fqn : S) : List (ClassEntry S) → Option Nat
  | [] => none
  | entry :: rest =>
      match position fqn rest with
      | some i => some (i + 1)
      | none => if entry.fqn = fqn then some 0 else none

/-- Looks up a class by its fully qualified name. -/
def lookup (index : NameIndex S) (fqn : S) : Option (UInt32 × ClassEntry S) := do
  let i := UInt32.ofNat (← position fqn index.entries)
  let entry ← index.entries[i.toNat]?
  return (i, entry)

end NameIndex

end CaffeineLs.Hir
