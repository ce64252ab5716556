/-
Module: CaffeineLs.HirExpand.Name
Purpose: Names, the ids of files and items, and written type references with the names in them.
Trusted boundary: none
Main exports: Name, Name.simpleName, SourceClass
-/
import Mathlib.Data.Finset.Union

namespace CaffeineLs.HirExpand

/-- A source identifier, simple or dotted. -/
structure Name where
  text : List Char
deriving DecidableEq, Repr

/-- The last `.`-separated segment: `com.example.Outer.Inner` is `Inner`. `$` is not a
separator. -/
def Name.simpleName (name : Name) : Name :=
  ⟨(name.text.reverse.takeWhile (· ≠ '.')).reverse⟩

/-- A file of the workspace. -/
structure FileId where
  raw : Nat
deriving DecidableEq, Repr

/-- An item within its file's item tree. -/
structure ItemId where
  raw : Nat
deriving DecidableEq, Repr

/-- A class declared in source. -/
structure SourceClass where
  file : FileId
  item : ItemId
deriving DecidableEq, Repr

inductive PrimitiveType where
  | boolean
  | byte
  | short
  | int
  | long
  | char
  | float
  | double
deriving DecidableEq, Repr

/-- `? extends T` or `? super T`. -/
inductive BoundKind where
  | upper
  | lower
deriving DecidableEq, Repr

/-- A type as it is written. -/
inductive TypeRef where
  | primitive (p : PrimitiveType)
  | reference (name : Name) (genericArgs : List TypeRef)
  | wildcard (bound : Option (BoundKind × TypeRef))
  | typeVariable (name : Name)
  | array (element : TypeRef)
  | error
  | nullable (ty : TypeRef)
  | definitelyNonNull (ty : TypeRef)
  | void

/-- A written type of a body, with the names in it, depth first; the names of its type-use
annotations are among them. The source ranges are left out. -/
structure SpannedTypeRef where
  ty : TypeRef
  refs : List Name

/-- A literal with the value that drives constant expressions. -/
inductive Literal where
  | int (value : Int)
  | long (value : Int)
  | char (value : Char)
  | float
  | double
  | boolean (value : Bool)
  | str (value : List Char)
deriving DecidableEq, Repr

/-- An expression within its file's body tree. -/
structure ExprId where
  raw : Nat
deriving DecidableEq, Repr

mutual

/-- An annotation: its type name and its element values. -/
inductive AnnotationRef where
  | mk (name : Name) (args : List (Name × AnnotationValue))

/-- The value of an annotation element. -/
inductive AnnotationValue where
  | literal (lit : Literal)
  | enumConstant (qualifier : Option Name) (member : Name)
  | classLit (refs : List Name)
  | annotation (inner : AnnotationRef)
  | array (values : List AnnotationValue)
  | expr (id : ExprId)
  | unresolved (text : List Char)

end

/-- The annotation's own type name. -/
def AnnotationRef.name : AnnotationRef → Name
  | .mk name _ => name

mutual

/-- The type names an annotation writes: its own, and those of the class literals and annotations
among its values. -/
def AnnotationRef.typeNames : AnnotationRef → List Name
  | .mk name args => name :: AnnotationRef.typeNamesOfArgs args

def AnnotationRef.typeNamesOfArgs : List (Name × AnnotationValue) → List Name
  | [] => []
  | (_, value) :: args => value.typeNames ++ AnnotationRef.typeNamesOfArgs args

def AnnotationValue.typeNames : AnnotationValue → List Name
  | .classLit refs => refs
  | AnnotationValue.annotation inner => inner.typeNames
  | .array values => AnnotationValue.typeNamesOfAll values
  | _ => []

def AnnotationValue.typeNamesOfAll : List AnnotationValue → List Name
  | [] => []
  | value :: values => value.typeNames ++ AnnotationValue.typeNamesOfAll values

end

mutual

/-- The expressions an annotation has as values. -/
def AnnotationRef.exprs : AnnotationRef → List ExprId
  | .mk _ args => AnnotationRef.exprsOfArgs args

def AnnotationRef.exprsOfArgs : List (Name × AnnotationValue) → List ExprId
  | [] => []
  | (_, value) :: args => value.exprs ++ AnnotationRef.exprsOfArgs args

def AnnotationValue.exprs : AnnotationValue → List ExprId
  | AnnotationValue.annotation inner => inner.exprs
  | .array values => AnnotationValue.exprsOfAll values
  | .expr id => [id]
  | _ => []

def AnnotationValue.exprsOfAll : List AnnotationValue → List ExprId
  | [] => []
  | value :: values => value.exprs ++ AnnotationValue.exprsOfAll values

end

end CaffeineLs.HirExpand
