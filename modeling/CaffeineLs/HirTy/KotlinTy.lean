/-
Module: CaffeineLs.HirTy.KotlinTy
Purpose: The Kotlin type that a Java type denotes, and the Java type that a Kotlin type denotes, with the
  table of the mapped classes.
Trusted boundary: an interned handle is the type it stands for; an index has 64 bits
Main exports: mappedTypes, tyFromJava, JvmPosition
-/
import CaffeineLs.HirTy.TypeArguments

namespace CaffeineLs.HirTy

open HirExpand

/-- `Name::new` -/
def newName (text : String) : Name := ⟨text.toList⟩

/-- `Name::as_str` -/
def asStr (name : Name) : String := String.ofList name.text

/-! ### The tables -/

def primitiveArrays : List (PrimitiveType × String) :=
  [(.boolean, "kotlin.BooleanArray"), (.char, "kotlin.CharArray"), (.byte, "kotlin.ByteArray"),
    (.short, "kotlin.ShortArray"), (.int, "kotlin.IntArray"), (.long, "kotlin.LongArray"),
    (.float, "kotlin.FloatArray"), (.double, "kotlin.DoubleArray")]

def primitiveArrayElement (name : Name) : Option PrimitiveType :=
  (primitiveArrays.find? fun entry => entry.2 = asStr name).map Prod.fst

/-- Every primitive type has an entry. -/
def primitiveArrayName (element : PrimitiveType) : String :=
  ((primitiveArrays.find? fun entry => entry.1 = element).map Prod.snd).getD ""

/-- The classifier of a primitive type, without its package. -/
def classifierOf : PrimitiveType → String
  | .boolean => "Boolean"
  | .char => "Char"
  | .byte => "Byte"
  | .short => "Short"
  | .int => "Int"
  | .long => "Long"
  | .float => "Float"
  | .double => "Double"

def primitiveOfMapped (name : Name) : Option (PrimitiveType × String) :=
  match asStr name with
  | "kotlin.Int" => some (.int, "java.lang.Integer")
  | "kotlin.Long" => some (.long, "java.lang.Long")
  | "kotlin.Float" => some (.float, "java.lang.Float")
  | "kotlin.Double" => some (.double, "java.lang.Double")
  | "kotlin.Boolean" => some (.boolean, "java.lang.Boolean")
  | "kotlin.Byte" => some (.byte, "java.lang.Byte")
  | "kotlin.Char" => some (.char, "java.lang.Character")
  | "kotlin.Short" => some (.short, "java.lang.Short")
  | _ => none

/-- `MAPPED_TYPES`: a collection interface has two classifiers, the second one mutable. -/
def mappedTypes : List (String × String) :=
  [("java.lang.Object", "kotlin.Any"),
    ("java.lang.String", "kotlin.String"),
    ("java.lang.CharSequence", "kotlin.CharSequence"),
    ("java.lang.Throwable", "kotlin.Throwable"),
    ("java.lang.Cloneable", "kotlin.Cloneable"),
    ("java.lang.Number", "kotlin.Number"),
    ("java.lang.Comparable", "kotlin.Comparable"),
    ("java.lang.Enum", "kotlin.Enum"),
    ("java.lang.Annotation", "kotlin.Annotation"),
    ("java.lang.Integer", "kotlin.Int"),
    ("java.lang.Boolean", "kotlin.Boolean"),
    ("java.lang.Character", "kotlin.Char"),
    ("java.lang.Long", "kotlin.Long"),
    ("java.lang.Float", "kotlin.Float"),
    ("java.lang.Double", "kotlin.Double"),
    ("java.lang.Short", "kotlin.Short"),
    ("java.lang.Byte", "kotlin.Byte"),
    ("java.lang.Void", "kotlin.Unit"),
    ("java.util.List", "kotlin.collections.List"),
    ("java.util.List", "kotlin.collections.MutableList"),
    ("java.util.Set", "kotlin.collections.Set"),
    ("java.util.Set", "kotlin.collections.MutableSet"),
    ("java.util.Map", "kotlin.collections.Map"),
    ("java.util.Map", "kotlin.collections.MutableMap"),
    ("java.util.Map$Entry", "kotlin.collections.Map.Entry"),
    ("java.util.Map$Entry", "kotlin.collections.MutableMap.MutableEntry"),
    ("java.util.Collection", "kotlin.collections.Collection"),
    ("java.util.Collection", "kotlin.collections.MutableCollection"),
    ("java.util.Iterator", "kotlin.collections.Iterator"),
    ("java.util.Iterator", "kotlin.collections.MutableIterator"),
    ("java.util.ListIterator", "kotlin.collections.ListIterator"),
    ("java.util.ListIterator", "kotlin.collections.MutableListIterator"),
    ("java.lang.Iterable", "kotlin.collections.Iterable"),
    ("java.lang.Iterable", "kotlin.collections.MutableIterable"),
    ("java.util.ArrayList", "kotlin.collections.ArrayList"),
    ("java.util.HashMap", "kotlin.collections.HashMap"),
    ("java.util.LinkedHashMap", "kotlin.collections.LinkedHashMap")]

def stripPrefix (front text : List Char) : Option (List Char) :=
  if front.isPrefixOf text then some (text.drop front.length) else none

/-- Whether `parse::<usize>()` succeeds: a sign `+` may stand in front. -/
def parsesUsize (text : List Char) : Bool :=
  let digits := if text.head? = some '+' then text.tail else text
  !digits.isEmpty && digits.all Char.isDigit &&
    decide (digits.foldl (fun value c => value * 10 + (c.toNat - '0'.toNat)) 0 < 2 ^ 64)

/-- The classifier of `kotlin.jvm.functions.FunctionN`. -/
def functionName (name : Name) : Option Name := do
  let rest ← stripPrefix "kotlin.jvm.functions.".toList name.text
  let arity ← stripPrefix "Function".toList rest
  if parsesUsize arity then some ⟨"kotlin.".toList ++ rest⟩ else none

def mappedTypeName (name : Name) : Name :=
  match functionName name with
  | some kotlin => kotlin
  | none =>
      match mappedTypes.find? fun entry => asStr name = entry.1 with
      | some (_, kotlin) => newName kotlin
      | none => name

def mappedMutableName (name : Name) : Option Name :=
  ((mappedTypes.filter fun entry => asStr name = entry.1)[1]?).map fun entry => newName entry.2

def javaName (name : Name) : Name :=
  match mappedTypes.find? fun entry => asStr name = entry.2 with
  | some (java, _) => newName java
  | none => name

/-! ### From Java -/

/-- Where a JVM type comes from. -/
inductive JvmReading where
  | java | kotlinDeclaration
deriving DecidableEq, Repr

/-- Whether a name is one of Kotlin's own. -/
def ofKotlin (name : Name) : Bool := "kotlin.".toList.isPrefixOf name.text

mutual

def readJvmType (reading : JvmReading) : Ty → Ty
  | .primitive p => .reference (newName ("kotlin." ++ classifierOf p)) [] none
  | .void => .reference (newName "kotlin.Unit") [] none
  | .reference name args loc =>
      let args := readJvmTypes reading args
      let kotlin := .reference (mappedTypeName name) args loc
      match reading with
      | .kotlinDeclaration => kotlin
      | .java =>
          if loc = none ∧ ofKotlin name = false then
            let lower := ((mappedMutableName name).map fun mutable =>
              .reference mutable args loc).getD kotlin
            .flexibleOf lower (.nullableOf kotlin)
          else kotlin
  | .array (.primitive p) =>
      let array := .reference (newName (primitiveArrayName p)) [] none
      match reading with
      | .java => .flexibleOf array (.nullableOf array)
      | .kotlinDeclaration => array
  | .array inner => .array (readJvmType reading inner)
  | ty => ty

def readJvmTypes (reading : JvmReading) : List Ty → List Ty
  | [] => []
  | ty :: tys => readJvmType reading ty :: readJvmTypes reading tys

end

def tyFromJava (ty : Ty) : Ty := readJvmType .java ty

/-! ### From Kotlin -/

inductive JvmPosition where
  | value | argument | ret
deriving DecidableEq, Repr

mutual

def tyFromKotlinIn : JvmPosition → Ty → Ty
  | position, .reference name args loc =>
      match primitiveArrayElement name with
      | some element => .array (.primitive element)
      | none =>
          match if asStr name = "kotlin.Array" then elementFromKotlin args else none with
          | some element => .array element
          | none =>
              match primitiveOfMapped name, position with
              | some (_, boxed), .argument => .reference (newName boxed) [] none
              | some (p, _), _ => .primitive p
              | none, _ =>
                  if asStr name = "kotlin.Unit" then
                    if position = .ret then .void else .reference (newName "kotlin.Unit") [] none
                  else .reference (javaName name) (tysFromKotlin args) loc
  | position, .nullable inner | position, .definitelyNonNull inner =>
      match inner with
      | .reference name args loc =>
          match primitiveOfMapped name with
          | some (_, boxed) => .reference (newName boxed) [] none
          | none =>
              if asStr name = "kotlin.Unit" then .reference (newName "kotlin.Unit") [] none
              else tyFromKotlinIn position (.reference name args loc)
      | inner => tyFromKotlinIn position inner
  | position, .flexible lower _ => tyFromKotlinIn position lower
  | position, .typeVar _ (bound :: _) _ => tyFromKotlinIn position bound
  | _, .typeVar _ [] _ => .reference (newName "java.lang.Object") [] none
  | _, .array inner => .array (tyFromKotlinIn .argument inner)
  | _, ty => ty

/-- The component of an `Array` with one argument. Of `in` and of `*` it is `kotlin.Any`, which is
`java.lang.Object` as an argument. -/
def elementFromKotlin : List Ty → Option Ty
  | [.wildcard (some (.upper, bound))] => some (tyFromKotlinIn .argument bound)
  | [.wildcard _] => some (.reference (javaName (newName "kotlin.Any")) [] none)
  | [element] => some (tyFromKotlinIn .argument element)
  | _ => none

/-- The arguments of a class. -/
def tysFromKotlin : List Ty → List Ty
  | [] => []
  | ty :: tys => tyFromKotlinIn .argument ty :: tysFromKotlin tys

end

def tyFromKotlin (ty : Ty) : Ty := tyFromKotlinIn .value ty

def tyFromKotlinReturn (ty : Ty) : Ty := tyFromKotlinIn .ret ty

end CaffeineLs.HirTy
