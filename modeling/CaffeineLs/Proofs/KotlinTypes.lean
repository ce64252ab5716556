/-
Module: CaffeineLs.Proofs.KotlinTypes
Purpose: Which Java types come back from Kotlin as they went there.
Trusted boundary: none
Main exports: Ty.JavaReference, KeepsName, java_types_return_iff
-/
import CaffeineLs.HirTy.KotlinTy

namespace CaffeineLs.HirTy

open HirExpand

/-! ### Names -/

@[simp] theorem asStr_newName (text : String) : asStr (newName text) = text :=
  String.ofList_toList

@[simp] theorem newName_asStr (name : Name) : newName (asStr name) = name := by
  simp [newName, asStr]

theorem asStr_eq_iff {name : Name} {text : String} : asStr name = text ↔ name = newName text := by
  constructor
  · rintro rfl
    exact (newName_asStr name).symm
  · rintro rfl
    exact asStr_newName text

@[simp] theorem newName_inj {one two : String} : newName one = newName two ↔ one = two := by
  rw [← asStr_eq_iff, asStr_newName]

/-! ### The table -/

/-- Every classifier leads back to the one class it is paired with. -/
theorem javaName_of_mapped {entry : String × String} (mapped : entry ∈ mappedTypes) :
    javaName (newName entry.2) = newName entry.1 := by
  have back : mappedTypes.all fun e => (mappedTypes.find? fun f => e.2 = f.2) = some e := by
    simp [mappedTypes]
  have found := List.all_eq_true.mp back entry mapped
  simp only [decide_eq_true_eq] at found
  simp only [javaName, asStr_newName, found]

theorem head_of_mapped {entry : String × String} (mapped : entry ∈ mappedTypes) :
    (newName entry.1).text.head? = some 'j' ∧ (newName entry.2).text.head? = some 'k' := by
  have heads : mappedTypes.all fun e =>
      decide (e.1.front? = some 'j') && decide (e.2.front? = some 'k') := by
    decide
  simpa [newName, String.front?_eq] using List.all_eq_true.mp heads entry mapped

/-- No side of the table is an array of Kotlin. -/
theorem no_array_of_mapped {entry : String × String} (mapped : entry ∈ mappedTypes) :
    (primitiveArrayElement (newName entry.1) = none ∧ entry.1 ≠ "kotlin.Array") ∧
      primitiveArrayElement (newName entry.2) = none ∧ entry.2 ≠ "kotlin.Array" := by
  have arrays : mappedTypes.all fun e => decide (e.1 ≠ "kotlin.Array" ∧ e.2 ≠ "kotlin.Array") &&
      primitiveArrays.all fun array => decide (array.2 ≠ e.1 ∧ array.2 ≠ e.2) := by
    simp [mappedTypes, primitiveArrays]
  have apart := List.all_eq_true.mp arrays entry mapped
  simp only [Bool.and_eq_true, decide_eq_true_eq, List.all_eq_true] at apart
  obtain ⟨⟨first, second⟩, elements⟩ := apart
  have absent (text : String) (other : ∀ array ∈ primitiveArrays, array.2 ≠ text) :
      primitiveArrayElement (newName text) = none := by
    rw [primitiveArrayElement, Option.map_eq_none_iff, List.find?_eq_none]
    simpa using fun p array member => other (p, array) member
  exact ⟨⟨absent _ fun array member => (elements array member).1, first⟩,
    absent _ fun array member => (elements array member).2, second⟩

/-- The classifier of `Void` is `Unit`, and no other is. -/
theorem unit_of_mapped {entry : String × String} (mapped : entry ∈ mappedTypes) :
    entry.2 = "kotlin.Unit" ↔ entry.1 = "java.lang.Void" := by
  have units : mappedTypes.all fun e =>
      decide (e.2 = "kotlin.Unit" ↔ e.1 = "java.lang.Void") := by
    simp [mappedTypes]
  simpa using List.all_eq_true.mp units entry mapped

/-- A primitive classifier and its box are one entry of the table, the only one of that class. -/
theorem box_of_primitive {kotlin : Name} {p : PrimitiveType} {boxed : String}
    (primitive : primitiveOfMapped kotlin = some (p, boxed)) :
    (boxed, asStr kotlin) ∈ mappedTypes ∧ asStr kotlin ≠ "kotlin.Unit" ∧
      ∀ entry ∈ mappedTypes, entry.1 = boxed → entry.2 = asStr kotlin := by
  unfold primitiveOfMapped at primitive
  split at primitive <;> cases primitive <;> rename_i spelled <;> rw [spelled] <;>
    simp [mappedTypes]

/-- The classifier of a function type is the name of the class with a part left out. -/
theorem functionName_shape {name kotlin : Name} (function : functionName name = some kotlin) :
    ∃ rest, name.text = "kotlin.jvm.functions.".toList ++ rest ∧
      kotlin.text = "kotlin.".toList ++ rest := by
  simp only [functionName, stripPrefix, Option.bind_eq_bind, Option.bind_eq_some_iff] at function
  obtain ⟨rest, front, arity, _, made⟩ := function
  split at made <;> cases made
  split at front
  · rename_i isFront
    cases front
    obtain ⟨rest, shape⟩ := List.isPrefixOf_iff_prefix.mp isFront
    rw [← shape, List.drop_left]
    exact ⟨rest, rfl, rfl⟩
  · cases front

/-! ### The names that come back -/

/-- A box: `primitive_of_mapped` pairs it with a classifier. -/
def IsBox (name : Name) : Prop := ∃ kotlin p, primitiveOfMapped kotlin = some (p, asStr name)

/-- A class of this name comes back under this name, from this position. -/
structure KeepsName (position : JvmPosition) (name : Name) (args : List Ty)
    (loc : Option SourceClass) : Prop where
  noFunction : functionName name = none
  noPrimitiveArray : primitiveArrayElement name = none
  noArray : asStr name = "kotlin.Array" → args.length ≠ 1
  noVoid : asStr name ≠ "java.lang.Void"
  box : IsBox name → position = .argument ∧ args = [] ∧ loc = none
  classifier : asStr name ∈ mappedTypes.map Prod.snd →
    asStr name = "kotlin.Unit" ∧ position ≠ .ret ∧ args = [] ∧ loc = none

/-- The name that a class has in Kotlin where it is read back. -/
def lowerName (name : Name) (loc : Option SourceClass) : Name :=
  if loc = none ∧ ofKotlin name = false then (mappedMutableName name).getD (mappedTypeName name)
  else mappedTypeName name

theorem mappedTypeName_mapped {name : Name} (plain : functionName name = none)
    {entry : String × String} (mapped : entry ∈ mappedTypes) (class_ : asStr name = entry.1) :
    ∃ other ∈ mappedTypes, other.1 = entry.1 ∧ mappedTypeName name = newName other.2 := by
  cases found : mappedTypes.find? fun e => asStr name = e.1 with
  | none =>
      have absent := List.find?_eq_none.mp found entry mapped
      simp [class_] at absent
  | some other =>
      have same : asStr name = other.1 := by simpa using List.find?_some found
      refine ⟨other, List.mem_of_find?_eq_some found, same.symm.trans class_, ?_⟩
      simp [mappedTypeName, plain, found]

/-- The Kotlin name is that of a function type, that of an entry of the table, or the name itself. -/
theorem lowerName_cases (name : Name) (loc : Option SourceClass) :
    (∃ kotlin, functionName name = some kotlin ∧ lowerName name loc = kotlin) ∨
    (functionName name = none ∧ ∃ entry ∈ mappedTypes, asStr name = entry.1 ∧
      lowerName name loc = newName entry.2) ∨
    (functionName name = none ∧ (∀ entry ∈ mappedTypes, asStr name ≠ entry.1) ∧
      lowerName name loc = name) := by
  cases function : functionName name with
  | some kotlin =>
      obtain ⟨rest, shape, -⟩ := functionName_shape function
      have own : ofKotlin name = true := by
        rw [ofKotlin, List.isPrefixOf_iff_prefix, shape]
        exact ⟨"jvm.functions.".toList ++ rest, rfl⟩
      refine .inl ⟨kotlin, rfl, ?_⟩
      simp [lowerName, own, mappedTypeName, function]
  | none =>
      by_cases mapped : ∃ entry ∈ mappedTypes, asStr name = entry.1
      · obtain ⟨entry, member, class_⟩ := mapped
        obtain ⟨first, inside, same, maps⟩ := mappedTypeName_mapped function member class_
        refine .inr (.inl ⟨rfl, ?_⟩)
        cases second : mappedMutableName name with
        | none => exact ⟨first, inside, class_.trans same.symm, by simp [lowerName, second, maps]⟩
        | some mutable =>
            by_cases reads : loc = none ∧ ofKotlin name = false
            · simp only [mappedMutableName, Option.map_eq_some_iff] at second
              obtain ⟨other, at_one, rfl⟩ := second
              have listed := List.mem_filter.mp (List.mem_of_getElem? at_one)
              refine ⟨other, listed.1, by simpa using listed.2, ?_⟩
              rw [lowerName, if_pos reads, mappedMutableName, at_one]
              rfl
            · exact ⟨first, inside, class_.trans same.symm, by rw [lowerName, if_neg reads, maps]⟩
      · have absent : ∀ entry ∈ mappedTypes, asStr name ≠ entry.1 :=
          fun entry member same => mapped ⟨entry, member, same⟩
        refine .inr (.inr ⟨rfl, absent, ?_⟩)
        have unread : mappedTypeName name = name := by
          have missing : mappedTypes.find? (fun e => asStr name = e.1) = none :=
            List.find?_eq_none.mpr fun e member => by simpa using absent e member
          simp [mappedTypeName, function, missing]
        have single : mappedMutableName name = none := by
          have empty : mappedTypes.filter (fun e => asStr name = e.1) = [] :=
            List.filter_eq_nil_iff.mpr fun e member => by simpa using absent e member
          simp [mappedMutableName, empty]
        simp [lowerName, single, unread]

/-! ### Classes -/

theorem elementFromKotlin_eq_none_iff {tys : List Ty} :
    elementFromKotlin tys = none ↔ tys.length ≠ 1 := by
  rcases tys with _ | ⟨ty, _ | ⟨other, tys⟩⟩ <;> rw [elementFromKotlin.eq_def]
  · simp
  · split <;> simp_all
  · split <;> simp_all

section Classes

variable {position : JvmPosition} {name kotlin : Name} {tys args : List Ty}
  {loc : Option SourceClass}

/-- What a class is read as that is no array and no primitive type. -/
theorem tyFromKotlinIn_class (noPrimitiveArray : primitiveArrayElement kotlin = none)
    (noArray : asStr kotlin = "kotlin.Array" → tys.length ≠ 1)
    (noPrimitive : primitiveOfMapped kotlin = none) :
    tyFromKotlinIn position (.reference kotlin tys loc) =
      if asStr kotlin = "kotlin.Unit" then
        if position = .ret then .void else .reference (newName "kotlin.Unit") [] none
      else .reference (javaName kotlin) (tysFromKotlin tys) loc := by
  have noElement : (if asStr kotlin = "kotlin.Array" then elementFromKotlin tys else none) = none := by
    split
    · rename_i array
      exact elementFromKotlin_eq_none_iff.mpr (noArray array)
    · rfl
  simp only [tyFromKotlinIn, noPrimitive, noPrimitiveArray, noElement]

theorem tyFromKotlinIn_primitive (noPrimitiveArray : primitiveArrayElement kotlin = none)
    (noArray : asStr kotlin ≠ "kotlin.Array") {p : PrimitiveType} {boxed : String}
    (primitive : primitiveOfMapped kotlin = some (p, boxed)) :
    tyFromKotlinIn position (.reference kotlin tys loc) =
      if position = .argument then .reference (newName boxed) [] none else .primitive p := by
  cases position <;>
    simp [tyFromKotlinIn.eq_def, noPrimitiveArray, noArray, primitive]

/-- Only the class a classifier is read as can come back. -/
theorem reference_of_tyFromKotlinIn
    (same : tyFromKotlinIn position (.reference kotlin tys loc) = .reference name args loc) :
    primitiveArrayElement kotlin = none ∧
      (asStr kotlin = "kotlin.Array" → tys.length ≠ 1) ∧
      ((∃ p boxed, primitiveOfMapped kotlin = some (p, boxed) ∧ newName boxed = name) ∨
        (primitiveOfMapped kotlin = none ∧ (name = newName "kotlin.Unit" ∨ name = javaName kotlin))) := by
  rw [tyFromKotlinIn.eq_def] at same
  dsimp only at same
  split at same
  · cases same
  · rename_i noPrimitiveArray
    split at same
    · cases same
    · rename_i noElement
      refine ⟨noPrimitiveArray, ?_, ?_⟩
      · intro array
        rw [if_pos array] at noElement
        exact elementFromKotlin_eq_none_iff.mp noElement
      · split at same
        · rename_i p boxed primitive
          cases same
          exact .inl ⟨p, boxed, primitive, rfl⟩
        · cases same
        · rename_i noPrimitive
          refine .inr ⟨noPrimitive, ?_⟩
          split at same
          · split at same <;> cases same
            exact .inl rfl
          · cases same
            exact .inr rfl

/-- A class of the table. -/
theorem mapped_returns_iff (function : functionName name = none) {entry : String × String}
    (mapped : entry ∈ mappedTypes) (class_ : asStr name = entry.1) (length : tys.length = args.length) :
    tyFromKotlinIn position (.reference (newName entry.2) tys loc) = .reference name args loc ↔
      KeepsName position name args loc ∧ tysFromKotlin tys = args := by
  obtain rfl := asStr_eq_iff.mp class_
  obtain ⟨⟨noPrimitiveArray, noArray⟩, noPrimitiveArray', noArray'⟩ := no_array_of_mapped mapped
  have foreign : asStr (newName entry.1) ∉ mappedTypes.map Prod.snd := by
    intro listed
    obtain ⟨other, inside, same⟩ := List.mem_map.mp listed
    rw [asStr_newName] at same
    have heads := (head_of_mapped inside).2
    rw [same, (head_of_mapped mapped).1] at heads
    cases heads
  have boxes : IsBox (newName entry.1) ↔ ∃ p, primitiveOfMapped (newName entry.2) = some (p, entry.1) := by
    constructor
    · rintro ⟨kotlin, p, primitive⟩
      rw [asStr_newName] at primitive
      have only := (box_of_primitive primitive).2.2 entry mapped rfl
      rw [only, newName_asStr]
      exact ⟨p, primitive⟩
    · rintro ⟨p, primitive⟩
      exact ⟨_, p, by rw [asStr_newName]; exact primitive⟩
  have keeps : KeepsName position (newName entry.1) args loc ↔ entry.1 ≠ "java.lang.Void" ∧
      (IsBox (newName entry.1) → position = .argument ∧ args = [] ∧ loc = none) := by
    constructor
    · intro kept
      exact ⟨by simpa using kept.noVoid, kept.box⟩
    · rintro ⟨noVoid, box⟩
      exact ⟨function, noPrimitiveArray, by simp [noArray], by simpa using noVoid, box,
        fun listed => absurd listed foreign⟩
  rw [keeps]
  cases primitive : primitiveOfMapped (newName entry.2) with
  | none =>
      have noBox : ¬ IsBox (newName entry.1) := by simp [boxes, primitive]
      rw [tyFromKotlinIn_class noPrimitiveArray' (by simp [noArray']) primitive]
      simp only [asStr_newName, unit_of_mapped mapped, javaName_of_mapped mapped, noBox,
        false_implies, and_true]
      split
      · rename_i void
        have other : newName "kotlin.Unit" ≠ newName "java.lang.Void" := by simp
        rw [void]
        split <;> simp [other]
      · rename_i noVoid
        simp [noVoid]
  | some pair =>
      obtain ⟨p, boxed⟩ := pair
      have only := (box_of_primitive primitive).1
      have same : boxed = entry.1 := by
        have back := javaName_of_mapped only
        rw [newName_asStr, javaName_of_mapped mapped] at back
        exact (newName_inj.mp back).symm
      subst same
      have isBox : IsBox (newName entry.1) := boxes.mpr ⟨p, primitive⟩
      have noVoid : entry.1 ≠ "java.lang.Void" := by
        intro void
        apply (box_of_primitive primitive).2.1
        rw [asStr_newName]
        exact (unit_of_mapped mapped).mpr void
      rw [tyFromKotlinIn_primitive noPrimitiveArray' (by simpa using noArray') primitive]
      simp only [isBox, noVoid, ne_eq, not_false_eq_true, true_and, true_implies]
      split
      · rename_i argument
        simp only [Ty.reference.injEq, argument, true_and]
        constructor
        · rintro ⟨rfl, rfl⟩
          have empty : tys = [] := List.eq_nil_of_length_eq_zero length
          exact ⟨⟨rfl, rfl⟩, by rw [empty, tysFromKotlin]⟩
        · rintro ⟨⟨rfl, rfl⟩, -⟩
          exact ⟨rfl, rfl⟩
      · rename_i noArgument
        simp [noArgument]

/-- A class that the table does not map. -/
theorem unmapped_returns_iff (function : functionName name = none)
    (unmapped : ∀ entry ∈ mappedTypes, asStr name ≠ entry.1) (length : tys.length = args.length) :
    tyFromKotlinIn position (.reference name tys loc) = .reference name args loc ↔
      KeepsName position name args loc ∧ tysFromKotlin tys = args := by
  have noBoxed {kotlin : Name} {p : PrimitiveType} {boxed : String}
      (primitive : primitiveOfMapped kotlin = some (p, boxed)) : newName boxed ≠ name := by
    rintro rfl
    exact unmapped _ (box_of_primitive primitive).1 (asStr_newName boxed)
  have noBox : ¬ IsBox name := by
    rintro ⟨kotlin, p, primitive⟩
    exact noBoxed primitive (newName_asStr name)
  have noVoid : asStr name ≠ "java.lang.Void" := by
    have listed : ("java.lang.Void", "kotlin.Unit") ∈ mappedTypes := by simp [mappedTypes]
    exact unmapped _ listed
  constructor
  · intro same
    obtain ⟨noPrimitiveArray, noArray, ⟨p, boxed, primitive, here⟩ | ⟨noPrimitive, -⟩⟩ :=
      reference_of_tyFromKotlinIn same
    · exact absurd here (noBoxed primitive)
    rw [tyFromKotlinIn_class noPrimitiveArray noArray noPrimitive] at same
    split at same
    · rename_i unit
      split at same
      · cases same
      · rename_i noReturn
        cases same
        have empty : tys = [] := List.eq_nil_of_length_eq_zero length
        rw [empty, tysFromKotlin]
        exact ⟨⟨function, noPrimitiveArray, length ▸ noArray, noVoid, fun box => absurd box noBox,
          fun _ => ⟨unit, noReturn, rfl, rfl⟩⟩, rfl⟩
    · rename_i noUnit
      simp only [Ty.reference.injEq, and_true] at same
      refine ⟨⟨function, noPrimitiveArray, length ▸ noArray, noVoid, fun box => absurd box noBox, ?_⟩,
        same.2⟩
      intro listed
      obtain ⟨entry, inside, spelled⟩ := List.mem_map.mp listed
      have back := javaName_of_mapped inside
      rw [spelled, newName_asStr, same.1] at back
      exact absurd (by rw [back, asStr_newName]) (unmapped entry inside)
  · rintro ⟨kept, rest⟩
    have noPrimitive : primitiveOfMapped name = none := by
      cases primitive : primitiveOfMapped name with
      | none => rfl
      | some pair =>
          obtain ⟨p, boxed⟩ := pair
          obtain ⟨listed, noUnit, -⟩ := box_of_primitive primitive
          exact absurd (kept.classifier (List.mem_map.mpr ⟨_, listed, rfl⟩)).1 noUnit
    rw [tyFromKotlinIn_class kept.noPrimitiveArray (length ▸ kept.noArray) noPrimitive]
    split
    · rename_i unit
      have listed : asStr name ∈ mappedTypes.map Prod.snd := by simp [unit, mappedTypes]
      obtain ⟨-, noReturn, rfl, rfl⟩ := kept.classifier listed
      rw [if_neg noReturn, ← unit, newName_asStr]
    · rename_i noUnit
      have missing : mappedTypes.find? (fun e => asStr name = e.2) = none := by
        rw [List.find?_eq_none]
        intro entry inside same
        have spelled : asStr name = entry.2 := by simpa using same
        exact noUnit (kept.classifier (List.mem_map.mpr ⟨entry, inside, spelled.symm⟩)).1
      simp [javaName, missing, rest]

/-- A class comes back exactly where its name is kept and its arguments come back. -/
theorem class_returns_iff (length : tys.length = args.length) :
    tyFromKotlinIn position (.reference (lowerName name loc) tys loc) = .reference name args loc ↔
      KeepsName position name args loc ∧ tysFromKotlin tys = args := by
  rcases lowerName_cases name loc with ⟨kotlin, function, lower⟩ |
    ⟨function, entry, mapped, class_, lower⟩ | ⟨function, unmapped, lower⟩
  · rw [lower]
    refine iff_of_false ?_ ?_
    · intro same
      obtain ⟨rest, shape, shape'⟩ := functionName_shape function
      have head : name.text.head? = some 'k' := by rw [shape]; rfl
      have outside : ∀ entry ∈ mappedTypes, newName entry.1 ≠ name := by
        rintro entry mapped rfl
        rw [(head_of_mapped mapped).1] at head
        cases head
      obtain ⟨-, -, ⟨p, boxed, primitive, here⟩ | ⟨-, unit | class_⟩⟩ :=
        reference_of_tyFromKotlinIn same
      · exact outside _ (box_of_primitive primitive).1 here
      · have none_ : functionName (newName "kotlin.Unit") = none := by decide
        rw [unit, none_] at function
        cases function
      · rw [javaName] at class_
        split at class_
        · rename_i java other found
          exact outside _ (List.mem_of_find?_eq_some found) class_.symm
        · have lengths := congrArg List.length (shape.symm.trans ((congrArg Name.text class_).trans shape'))
          simp at lengths
          omega
    · intro kept
      rw [kept.1.noFunction] at function
      cases function
  · rw [lower]
    exact mapped_returns_iff function mapped class_ length
  · rw [lower]
    exact unmapped_returns_iff function unmapped length

end Classes

/-! ### Java types -/

/-- A class or an array of Java, without a type variable and without a wildcard in it. -/
inductive Ty.JavaReference : Ty → Prop
  | named {name : Name} {args : List Ty} {loc : Option SourceClass}
      (arguments : ∀ arg ∈ args, arg.JavaReference) : JavaReference (.reference name args loc)
  | primitives {p : PrimitiveType} : JavaReference (.array (.primitive p))
  | array {element : Ty} (inner : element.JavaReference) : JavaReference (.array element)

/-- A type of Java that is not `void`. -/
def Ty.JavaType (ty : Ty) : Prop := (∃ p, ty = .primitive p) ∨ ty.JavaReference

mutual

/-- Every class of the type comes back under its name from where it stands. -/
def Survives : JvmPosition → Ty → Prop
  | position, .reference name args loc => KeepsName position name args loc ∧ SurviveAll args
  | _, .array element => Survives .argument element
  | _, _ => True

def SurviveAll : List Ty → Prop
  | [] => True
  | ty :: tys => Survives .argument ty ∧ SurviveAll tys

end

theorem length_readJvmTypes (args : List Ty) :
    (readJvmTypes .java args).length = args.length := by
  induction args with
  | nil => simp [readJvmTypes]
  | cons ty tys ih => simp [readJvmTypes, ih]

/-- A platform type is read as its lower half. -/
theorem tyFromKotlinIn_flexibleOf (position : JvmPosition) (lower upper : Ty) :
    tyFromKotlinIn position (.flexibleOf lower upper) = tyFromKotlinIn position lower := by
  unfold Ty.flexibleOf
  split
  · rfl
  · rw [tyFromKotlinIn]

theorem read_class (position : JvmPosition) (name : Name) (args : List Ty)
    (loc : Option SourceClass) :
    tyFromKotlinIn position (tyFromJava (.reference name args loc)) =
      tyFromKotlinIn position (.reference (lowerName name loc) (readJvmTypes .java args) loc) := by
  rw [tyFromJava, readJvmType, lowerName]
  dsimp only
  split
  · rw [tyFromKotlinIn_flexibleOf]
    cases mappedMutableName name <;> rfl
  · rfl

theorem read_primitive {position : JvmPosition} (noArgument : position ≠ .argument)
    (p : PrimitiveType) :
    tyFromKotlinIn position (tyFromJava (.primitive p)) = .primitive p := by
  have spelled : primitiveArrayElement (newName ("kotlin." ++ classifierOf p)) = none ∧
      "kotlin." ++ classifierOf p ≠ "kotlin.Array" ∧
      ∃ boxed, primitiveOfMapped (newName ("kotlin." ++ classifierOf p)) = some (p, boxed) := by
    cases p <;> simp [classifierOf, primitiveArrayElement, primitiveArrays, primitiveOfMapped]
  obtain ⟨noPrimitiveArray, noArray, boxed, primitive⟩ := spelled
  rw [tyFromJava, readJvmType,
    tyFromKotlinIn_primitive noPrimitiveArray (by simpa using noArray) primitive, if_neg noArgument]

theorem read_primitives (position : JvmPosition) (p : PrimitiveType) :
    tyFromKotlinIn position (tyFromJava (.array (.primitive p))) = .array (.primitive p) := by
  have spelled : primitiveArrayElement (newName (primitiveArrayName p)) = some p := by
    cases p <;> simp [primitiveArrayName, primitiveArrayElement, primitiveArrays]
  rw [tyFromJava, readJvmType]
  simp only [tyFromKotlinIn_flexibleOf]
  rw [tyFromKotlinIn.eq_def]
  simp only [spelled]

theorem read_array (position : JvmPosition) {element : Ty} (java : element.JavaReference) :
    tyFromKotlinIn position (tyFromJava (.array element)) =
      .array (tyFromKotlinIn .argument (tyFromJava element)) := by
  cases java <;> simp [tyFromJava, readJvmType, tyFromKotlinIn]

theorem arguments_return_iff {args : List Ty}
    (each : ∀ arg ∈ args, tyFromKotlinIn .argument (tyFromJava arg) = arg ↔ Survives .argument arg) :
    tysFromKotlin (readJvmTypes .java args) = args ↔ SurviveAll args := by
  induction args with
  | nil => simp [readJvmTypes, tysFromKotlin, SurviveAll]
  | cons ty tys ih =>
      have first := each ty List.mem_cons_self
      have others := ih fun arg member => each arg (List.mem_cons_of_mem _ member)
      rw [tyFromJava] at first
      rw [readJvmTypes, tysFromKotlin, SurviveAll, List.cons.injEq, first, others]

theorem reference_returns_iff {ty : Ty} (java : ty.JavaReference) (position : JvmPosition) :
    tyFromKotlinIn position (tyFromJava ty) = ty ↔ Survives position ty := by
  induction java generalizing position with
  | @named name args loc _ ih =>
      rw [read_class, class_returns_iff (length_readJvmTypes args),
        arguments_return_iff fun arg member => ih arg member .argument, Survives]
  | @primitives p => simp [read_primitives, Survives]
  | array java ih => rw [read_array position java, Ty.array.injEq, ih .argument, Survives]

/-- A Java type comes back from Kotlin exactly when each of its classes does. -/
theorem java_types_return_iff (ty : Ty) :
    (ty.JavaType → (tyFromKotlin (tyFromJava ty) = ty ↔ Survives .value ty)) ∧
    (ty.JavaType ∨ ty = .void → (tyFromKotlinReturn (tyFromJava ty) = ty ↔ Survives .ret ty)) := by
  refine ⟨?_, ?_⟩
  · rintro (⟨p, rfl⟩ | java)
    · exact iff_of_true (read_primitive (by simp) p) (by simp [Survives])
    · exact reference_returns_iff java .value
  · rintro ((⟨p, rfl⟩ | java) | rfl)
    · exact iff_of_true (read_primitive (by simp) p) (by simp [Survives])
    · exact reference_returns_iff java .ret
    · refine iff_of_true ?_ (by simp [Survives])
      rw [tyFromKotlinReturn, tyFromJava, readJvmType, tyFromKotlinIn_class] <;>
        simp [primitiveArrayElement, primitiveArrays, primitiveOfMapped]

/-- `java.util.List<java.lang.Integer>` -/
def boxedList : Ty :=
  .reference (newName "java.util.List") [.reference (newName "java.lang.Integer") [] none] none

/-- A list of boxes is read as a list of primitives and written as a list of boxes. -/
theorem boxedList_returns : tyFromKotlin (tyFromJava boxedList) = boxedList ∧
    Survives .value boxedList ∧ Survives .ret boxedList := by
  have java : boxedList.JavaType := by
    refine .inr (.named ?_)
    intro arg member
    obtain rfl := List.mem_singleton.mp member
    exact .named (by simp)
  have value : tyFromKotlin (tyFromJava boxedList) = boxedList := by decide +kernel
  have ret : tyFromKotlinReturn (tyFromJava boxedList) = boxedList := by decide +kernel
  exact ⟨value, ((java_types_return_iff boxedList).1 java).mp value,
    ((java_types_return_iff boxedList).2 (.inl java)).mp ret⟩

/-- A box that is no argument becomes a primitive type. -/
theorem box_does_not_return :
    (Ty.reference (newName "java.lang.Integer") [] none).JavaType ∧
      tyFromKotlin (tyFromJava (.reference (newName "java.lang.Integer") [] none)) =
        .primitive .int ∧
      ¬ ∀ ty : Ty, ty.JavaType → tyFromKotlin (tyFromJava ty) = ty := by
  have java : (Ty.reference (newName "java.lang.Integer") [] none).JavaType := .inr (.named (by simp))
  have int : tyFromKotlin (tyFromJava (.reference (newName "java.lang.Integer") [] none)) =
      .primitive .int := by decide +kernel
  refine ⟨java, int, fun returns => ?_⟩
  have same := int.symm.trans (returns _ java)
  cases same

end CaffeineLs.HirTy
