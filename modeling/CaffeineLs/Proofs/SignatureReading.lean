/-
Module: CaffeineLs.Proofs.SignatureReading
Purpose: What the parser of generic signatures makes of the signatures that the grammar generates.
Trusted boundary: none
Main exports: reads_ref, reads_typeParameters, signature_readBack
-/
import CaffeineLs.ClassParser.SignatureGrammar
import Mathlib.Data.List.TakeDrop

namespace CaffeineLs.ClassParser

open Hir

/-! ### Characters -/

theorem span_stop {p : Char → Bool} {chars : List Char} (passes : ∀ c ∈ chars, p c = true)
    (stop : Char) (stops : p stop = false) (rest : List Char) :
    (chars ++ stop :: rest).span p = (chars, stop :: rest) := by
  rw [List.span_eq_takeWhile_dropWhile, List.takeWhile_append_of_pos passes,
    List.dropWhile_append_of_pos passes, List.takeWhile_cons_of_neg (by simp [stops]),
    List.dropWhile_cons_of_neg (by simp [stops]), List.append_nil]

/-- Characters of a class name are pushed. -/
theorem parseClassName_chars {chars : List Char} (plain : ∀ c ∈ chars, c ≠ ';' ∧ c ≠ '<' ∧ c ≠ '.')
    {fuel : Nat} (enough : chars.length ≤ fuel) (name : List Char) (genericArgs : List (TypeRef String))
    (rest : List Char) :
    parseClassName fuel name genericArgs (chars ++ rest) =
      parseClassName (fuel - chars.length) (name ++ chars) genericArgs rest := by
  induction chars generalizing fuel name with
  | nil => simp
  | cons c chars ih =>
      obtain ⟨semicolon, less, dot⟩ := plain c List.mem_cons_self
      obtain ⟨fuel, rfl⟩ := Nat.exists_eq_add_of_le' (Nat.lt_of_lt_of_le (Nat.succ_pos _) enough)
      rw [List.cons_append, parseClassName, if_neg semicolon, if_neg less, if_neg dot,
        ih (fun c member => plain c (List.mem_cons_of_mem _ member)) (Nat.le_of_succ_le_succ enough)]
      simp

theorem Identifier.inClassName (name : Identifier) :
    ∀ c ∈ name.chars, c ≠ ';' ∧ c ≠ '<' ∧ c ≠ '.' := by
  intro c member
  have plain := name.plain c member
  exact ⟨plain.2.1, plain.2.2.2.2.1, plain.1⟩

/-- No slash of an identifier becomes a dot. -/
theorem Identifier.map_dots (name : Identifier) :
    (name.chars.map fun c => if c = '/' then '.' else c) = name.chars := by
  have same : ∀ c ∈ name.chars, (if c = '/' then '.' else c) = c := by
    intro c member
    exact if_neg (name.plain c member).2.2.2.1
  rw [List.map_congr_left same, List.map_id']

/-- What a reference type starts with. -/
theorem RefType.write_head (type : RefType) :
    ∃ c tail, type.write = c :: tail ∧ (c = 'L' ∨ c = 'T' ∨ c = '[') := by
  cases type with
  | class_ package simple suffix =>
      refine ⟨'L', (package.flatMap fun name => name.chars ++ ['/']) ++ simple.write ++
        writeSuffix suffix ++ [';'], ?_, .inl rfl⟩
      rw [RefType.write]
      rfl
  | typeVariable name =>
      refine ⟨'T', name.chars ++ [';'], ?_, .inr (.inl rfl)⟩
      rw [RefType.write]
      rfl
  | array component => exact ⟨'[', _, by rw [RefType.write], .inr (.inr rfl)⟩

theorem TypeArgument.write_head (argument : TypeArgument) :
    ∃ c tail, argument.write = c :: tail ∧ c ≠ '>' := by
  cases argument with
  | any => exact ⟨'*', [], by rw [TypeArgument.write], by decide⟩
  | exactly type =>
      obtain ⟨c, tail, shape, kind⟩ := type.write_head
      refine ⟨c, tail, by rw [TypeArgument.write, shape], ?_⟩
      rcases kind with rfl | rfl | rfl <;> decide
  | extends_ type => exact ⟨'+', _, by rw [TypeArgument.write], by decide⟩
  | super_ type => exact ⟨'-', _, by rw [TypeArgument.write], by decide⟩

theorem baseType_baseLetter (type : PrimitiveType) :
    baseType (baseLetter type) = some (.primitive type) := by
  cases type <;> rfl

/-- The packages of a class, as they are pushed. -/
def packageName (package : List Identifier) : List Char :=
  package.flatMap fun name => name.chars ++ ['/']

theorem packageName_inClassName (package : List Identifier) :
    ∀ c ∈ packageName package, c ≠ ';' ∧ c ≠ '<' ∧ c ≠ '.' := by
  intro c member
  obtain ⟨name, -, member⟩ := List.mem_flatMap.mp member
  rcases List.mem_append.mp member with here | slash
  · exact name.inClassName c here
  · rw [List.mem_singleton.mp slash]
    decide

/-- The name of nested classes, as it is pushed. -/
def suffixName (suffix : List Segment) : List Char :=
  suffix.flatMap fun segment => '$' :: binaryName.nameOf segment

theorem map_dots_suffix (suffix : List Segment) :
    ((suffixName suffix).map fun c => if c = '/' then '.' else c) = suffixName suffix := by
  induction suffix with
  | nil => rfl
  | cons segment suffix ih =>
      obtain ⟨name, arguments⟩ := segment
      have here : (binaryName.nameOf (.mk name arguments)).map (fun c => if c = '/' then '.' else c) =
          binaryName.nameOf (.mk name arguments) := name.map_dots
      unfold suffixName at ih ⊢
      rw [List.flatMap_cons, List.map_append, ih, List.map_cons, if_neg (by decide), here]

/-- What is pushed is the binary name, with slashes for the dots of the package. -/
theorem dotted_pushed (package : List Identifier) (simple : Segment) (suffix : List Segment) :
    dotted (packageName package ++ binaryName.nameOf simple ++ suffixName suffix) =
      String.ofList (binaryName package simple suffix) := by
  have packages : (packageName package).map (fun c => if c = '/' then '.' else c) =
      package.flatMap fun name => name.chars ++ ['.'] := by
    induction package with
    | nil => rfl
    | cons name package ih =>
        unfold packageName at ih ⊢
        rw [List.flatMap_cons, List.flatMap_cons, List.map_append, List.map_append, ih, name.map_dots]
        rfl
  obtain ⟨name, arguments⟩ := simple
  have here : (binaryName.nameOf (.mk name arguments)).map (fun c => if c = '/' then '.' else c) =
      binaryName.nameOf (.mk name arguments) := name.map_dots
  rw [dotted, List.map_append, List.map_append, packages, here, map_dots_suffix]
  rfl

/-! ### Types -/

theorem parseTypeArgument_exactly {c : Char} {tail : List Char} (kind : c = 'L' ∨ c = 'T' ∨ c = '[')
    (fuel : Nat) :
    parseTypeArgument (fuel + 1) (c :: tail) = parseReferenceTypeSignature fuel (c :: tail) := by
  rcases kind with rfl | rfl | rfl <;> simp [parseTypeArgument]

theorem parseTypeSignature_ref {c : Char} {tail : List Char} (kind : c = 'L' ∨ c = 'T' ∨ c = '[')
    (fuel : Nat) :
    parseTypeSignature (fuel + 1) (c :: tail) = parseReferenceTypeSignature fuel (c :: tail) := by
  rcases kind with rfl | rfl | rfl <;> simp [parseTypeSignature, baseType]

mutual

theorem reads_java : ∀ (type : JavaType) (fuel : Nat) (rest : List Char),
    4 * type.write.length + 1 ≤ fuel →
      parseTypeSignature fuel (type.write ++ rest) = some (type.toRef, rest)
  | .base type, fuel, rest, enough => by
      obtain ⟨fuel, rfl⟩ := Nat.exists_eq_add_of_le' (Nat.lt_of_lt_of_le (Nat.succ_pos _) enough)
      rw [JavaType.write, List.singleton_append, parseTypeSignature, baseType_baseLetter,
        JavaType.toRef]
  | .ref type, fuel, rest, enough => by
      obtain ⟨fuel, rfl⟩ := Nat.exists_eq_add_of_le' (Nat.lt_of_lt_of_le (Nat.succ_pos _) enough)
      obtain ⟨c, tail, shape, kind⟩ := type.write_head
      rw [JavaType.write] at enough ⊢
      have here := reads_ref type fuel rest (by omega)
      rw [shape, List.cons_append] at here ⊢
      rw [parseTypeSignature_ref kind, here, JavaType.toRef]

theorem reads_ref : ∀ (type : RefType) (fuel : Nat) (rest : List Char),
    4 * type.write.length ≤ fuel →
      parseReferenceTypeSignature fuel (type.write ++ rest) = some (type.toRef, rest)
  | .class_ package simple suffix, fuel, rest, enough => by
      have written : (RefType.class_ package simple suffix).write ++ rest =
          'L' :: (packageName package ++ (simple.write ++ (writeSuffix suffix ++ ';' :: rest))) := by
        rw [RefType.write]
        simp [packageName]
      have counted : (RefType.class_ package simple suffix).write.length =
          (packageName package).length + simple.write.length + (writeSuffix suffix).length + 2 := by
        rw [RefType.write]
        simp only [packageName, List.length_append, List.length_cons, List.length_nil]
        omega
      rw [counted] at enough
      obtain ⟨fuel, rfl⟩ : ∃ smaller, fuel = smaller + 1 := ⟨fuel - 1, by omega⟩
      obtain ⟨middle, used, first⟩ := reads_segment simple (fuel - (packageName package).length)
        (packageName package) [] (writeSuffix suffix ++ ';' :: rest) (by omega)
      obtain ⟨left, used', later⟩ := reads_suffix suffix middle
        (packageName package ++ binaryName.nameOf simple) simple.argumentRefs (';' :: rest) (by omega)
      obtain ⟨left, rfl⟩ : ∃ smaller, left = smaller + 1 := ⟨left - 1, by omega⟩
      have name : parseClassName fuel [] [] (packageName package ++
          (simple.write ++ (writeSuffix suffix ++ ';' :: rest))) =
            some ((packageName package ++ binaryName.nameOf simple ++ suffixName suffix,
              simple.argumentRefs ++ suffixRefs suffix), rest) := by
        rw [parseClassName_chars (packageName_inClassName package) (by omega), List.nil_append, first,
          List.nil_append, later, parseClassName, if_pos rfl]
      rw [written, parseReferenceTypeSignature, if_neg (by decide), if_pos rfl, name]
      simp only [bind, Option.bind, dotted_pushed, RefType.toRef]
  | .typeVariable name, fuel, rest, enough => by
      rw [RefType.write, List.length_append, List.length_cons] at enough
      obtain ⟨fuel, rfl⟩ : ∃ smaller, fuel = smaller + 1 := ⟨fuel - 1, by omega⟩
      have named := span_stop (p := fun c => c ≠ ';')
        (fun c member => decide_eq_true (name.inClassName c member).1) ';' rfl rest
      rw [RefType.write, List.cons_append, List.cons_append, List.append_assoc, List.singleton_append,
        parseReferenceTypeSignature, if_pos rfl]
      simp only [named, List.drop_one, List.tail_cons, RefType.toRef]
  | .array component, fuel, rest, enough => by
      rw [RefType.write, List.length_cons] at enough
      obtain ⟨fuel, rfl⟩ : ∃ smaller, fuel = smaller + 1 := ⟨fuel - 1, by omega⟩
      have inner := reads_java component fuel rest (by omega)
      rw [RefType.write, List.cons_append, parseReferenceTypeSignature, if_neg (by decide),
        if_neg (by decide), if_pos rfl, inner, RefType.toRef]
      rfl

theorem reads_segment : ∀ (segment : Segment) (fuel : Nat) (name : List Char)
    (genericArgs : List (TypeRef String)) (rest : List Char), 4 * segment.write.length ≤ fuel →
      ∃ left, fuel ≤ left + segment.write.length ∧
        parseClassName fuel name genericArgs (segment.write ++ rest) =
          parseClassName left (name ++ binaryName.nameOf segment)
            (genericArgs ++ segment.argumentRefs) rest
  | .mk ident arguments, fuel, name, genericArgs, rest, enough => by
      cases arguments with
      | nil =>
          rw [Segment.write, List.isEmpty_nil, if_pos rfl, List.append_nil] at enough ⊢
          refine ⟨fuel - ident.chars.length, by omega, ?_⟩
          rw [parseClassName_chars ident.inClassName (by omega), Segment.argumentRefs, toRefs,
            List.append_nil]
          rfl
      | cons argument arguments =>
          have written : (Segment.mk ident (argument :: arguments)).write =
              ident.chars ++ '<' :: (writeArguments (argument :: arguments) ++ ['>']) := by
            rw [Segment.write]
            simp
          rw [written] at enough ⊢
          simp only [List.length_append, List.length_cons, List.length_nil] at enough ⊢
          obtain ⟨left, filled⟩ : ∃ left, fuel - ident.chars.length = left + 1 :=
            ⟨fuel - ident.chars.length - 1, by omega⟩
          refine ⟨left, by omega, ?_⟩
          have read := reads_arguments (argument :: arguments) left rest (by omega)
          rw [List.append_assoc, parseClassName_chars ident.inClassName (by omega), filled,
            List.cons_append, List.append_assoc, List.singleton_append, parseClassName,
            if_neg (by decide), if_pos rfl, read, Segment.argumentRefs]
          rfl

theorem reads_suffix : ∀ (suffix : List Segment) (fuel : Nat) (name : List Char)
    (genericArgs : List (TypeRef String)) (rest : List Char), 4 * (writeSuffix suffix).length ≤ fuel →
      ∃ left, fuel ≤ left + (writeSuffix suffix).length ∧
        parseClassName fuel name genericArgs (writeSuffix suffix ++ rest) =
          parseClassName left (name ++ suffixName suffix) (genericArgs ++ suffixRefs suffix) rest
  | [], fuel, name, genericArgs, rest, _ => by
      refine ⟨fuel, Nat.le_add_right _ _, ?_⟩
      rw [writeSuffix, suffixRefs, suffixName, List.flatMap_nil, List.nil_append, List.append_nil,
        List.append_nil]
  | segment :: suffix, fuel, name, genericArgs, rest, enough => by
      rw [writeSuffix, List.length_append, List.length_cons] at enough
      obtain ⟨fuel, rfl⟩ : ∃ smaller, fuel = smaller + 1 := ⟨fuel - 1, by omega⟩
      obtain ⟨middle, used, first⟩ := reads_segment segment fuel (name ++ ['$']) genericArgs
        (writeSuffix suffix ++ rest) (by omega)
      obtain ⟨left, used', later⟩ := reads_suffix suffix middle
        (name ++ ['$'] ++ binaryName.nameOf segment) (genericArgs ++ segment.argumentRefs) rest (by omega)
      refine ⟨left, ?_, ?_⟩
      · rw [writeSuffix, List.length_append, List.length_cons]
        omega
      · rw [writeSuffix, List.append_assoc, List.cons_append, parseClassName, if_neg (by decide),
          if_neg (by decide), if_pos rfl, first, later, suffixRefs, suffixName, suffixName,
          List.flatMap_cons]
        simp only [List.append_assoc, List.cons_append, List.nil_append]

theorem reads_argument : ∀ (argument : TypeArgument) (fuel : Nat) (rest : List Char),
    4 * argument.write.length + 1 ≤ fuel →
      parseTypeArgument fuel (argument.write ++ rest) = some (argument.toRef, rest)
  | .any, fuel, rest, enough => by
      obtain ⟨fuel, rfl⟩ : ∃ smaller, fuel = smaller + 1 := ⟨fuel - 1, by omega⟩
      rw [TypeArgument.write, List.singleton_append, parseTypeArgument, TypeArgument.toRef]
  | .exactly type, fuel, rest, enough => by
      obtain ⟨fuel, rfl⟩ : ∃ smaller, fuel = smaller + 1 := ⟨fuel - 1, by omega⟩
      obtain ⟨c, tail, shape, kind⟩ := type.write_head
      rw [TypeArgument.write] at enough ⊢
      have here := reads_ref type fuel rest (by omega)
      rw [shape, List.cons_append] at here ⊢
      rw [parseTypeArgument_exactly kind, here, TypeArgument.toRef]
  | .extends_ type, fuel, rest, enough => by
      rw [TypeArgument.write, List.length_cons] at enough
      obtain ⟨fuel, rfl⟩ : ∃ smaller, fuel = smaller + 1 := ⟨fuel - 1, by omega⟩
      have bound := reads_ref type fuel rest (by omega)
      rw [TypeArgument.write, List.cons_append, parseTypeArgument, bound, TypeArgument.toRef]
      rfl
  | .super_ type, fuel, rest, enough => by
      rw [TypeArgument.write, List.length_cons] at enough
      obtain ⟨fuel, rfl⟩ : ∃ smaller, fuel = smaller + 1 := ⟨fuel - 1, by omega⟩
      have bound := reads_ref type fuel rest (by omega)
      rw [TypeArgument.write, List.cons_append, parseTypeArgument, bound, TypeArgument.toRef]
      rfl

theorem reads_arguments : ∀ (arguments : List TypeArgument) (fuel : Nat) (rest : List Char),
    4 * (writeArguments arguments).length + 2 ≤ fuel →
      parseTypeArguments fuel (writeArguments arguments ++ '>' :: rest) =
        some (toRefs arguments, '>' :: rest)
  | [], fuel, rest, enough => by
      obtain ⟨fuel, rfl⟩ : ∃ smaller, fuel = smaller + 1 := ⟨fuel - 1, by omega⟩
      rw [writeArguments, List.nil_append, parseTypeArguments, if_pos rfl, toRefs]
  | argument :: arguments, fuel, rest, enough => by
      rw [writeArguments, List.length_append] at enough
      obtain ⟨fuel, rfl⟩ : ∃ smaller, fuel = smaller + 1 := ⟨fuel - 1, by omega⟩
      obtain ⟨c, tail, shape, open_⟩ := argument.write_head
      have some_ : 0 < argument.write.length := by
        rw [shape]
        exact Nat.succ_pos _
      have first := reads_argument argument fuel (writeArguments arguments ++ '>' :: rest) (by omega)
      have later := reads_arguments arguments fuel rest (by omega)
      rw [shape, List.cons_append] at first
      rw [writeArguments, List.append_assoc, shape, List.cons_append, parseTypeArguments, if_neg open_,
        first]
      simp only [bind, Option.bind, later, toRefs]

end

/-! ### Errors -/

mutual

theorem errorFree_java : ∀ type : JavaType, ErrorFree type.toRef
  | .base type => by
      rw [JavaType.toRef]
      exact .primitive type
  | .ref type => by
      rw [JavaType.toRef]
      exact errorFree_ref type

theorem errorFree_ref : ∀ type : RefType, ErrorFree type.toRef
  | .class_ package simple suffix => by
      rw [RefType.toRef]
      apply ErrorFree.reference
      intro argument member
      rcases List.mem_append.mp member with here | later
      · exact errorFree_segment simple argument here
      · exact errorFree_suffix suffix argument later
  | .typeVariable name => by
      rw [RefType.toRef]
      exact .typeVariable _
  | .array component => by
      rw [RefType.toRef]
      exact .array (errorFree_java component)

theorem errorFree_segment : ∀ segment : Segment, ∀ argument ∈ segment.argumentRefs, ErrorFree argument
  | .mk _ arguments => by
      rw [Segment.argumentRefs]
      exact errorFree_arguments arguments

theorem errorFree_suffix : ∀ suffix : List Segment, ∀ argument ∈ suffixRefs suffix, ErrorFree argument
  | [] => by
      rw [suffixRefs]
      exact fun _ member => nomatch member
  | segment :: suffix => by
      rw [suffixRefs]
      intro argument member
      rcases List.mem_append.mp member with here | later
      · exact errorFree_segment segment argument here
      · exact errorFree_suffix suffix argument later

theorem errorFree_argument : ∀ argument : TypeArgument, ErrorFree argument.toRef
  | .any => by
      rw [TypeArgument.toRef]
      exact .any
  | .exactly type => by
      rw [TypeArgument.toRef]
      exact errorFree_ref type
  | .extends_ type => by
      rw [TypeArgument.toRef]
      exact .upper (errorFree_ref type)
  | .super_ type => by
      rw [TypeArgument.toRef]
      exact .lower (errorFree_ref type)

theorem errorFree_arguments : ∀ arguments : List TypeArgument, ∀ argument ∈ toRefs arguments,
    ErrorFree argument
  | [] => by
      rw [toRefs]
      exact fun _ member => nomatch member
  | argument :: arguments => by
      rw [toRefs]
      intro found member
      rcases List.mem_cons.mp member with rfl | later
      · exact errorFree_argument argument
      · exact errorFree_arguments arguments found later

end

theorem errorFree_typeParams (params : List TypeParam) :
    TypeParamsErrorFree (params.map TypeParam.toTypeParameter) := by
  intro param member bound listed
  obtain ⟨written, -, rfl⟩ := List.mem_map.mp member
  rcases List.mem_append.mp listed with first | others
  · rw [Option.mem_toList, Option.map_eq_some_iff] at first
    obtain ⟨type, -, rfl⟩ := first
    exact errorFree_ref type
  · obtain ⟨type, -, rfl⟩ := List.mem_map.mp others
    exact errorFree_ref type

theorem errorFree_class (sig : ClassSig) : sig.toSignature.ErrorFree where
  typeParams := errorFree_typeParams sig.typeParams
  superClass := errorFree_ref _
  interfaces := by
    intro interface member
    obtain ⟨type, -, rfl⟩ := List.mem_map.mp member
    exact errorFree_ref _

theorem errorFree_method (sig : MethodSig) : sig.toSignature.ErrorFree where
  typeParams := errorFree_typeParams sig.typeParams
  paramTypes := by
    intro type member
    obtain ⟨written, -, rfl⟩ := List.mem_map.mp member
    exact errorFree_java written
  returnType := by
    unfold MethodSig.toSignature
    cases sig.result with
    | none => exact .void
    | some type => exact errorFree_java type
  throwsList := by
    intro type member
    obtain ⟨thrown, -, rfl⟩ := List.mem_map.mp member
    exact errorFree_ref _

/-! ### Type parameters -/

theorem reads_interfaceBounds (bounds : List RefType) {fuel : Nat} {rest : List Char}
    (enough : 4 * (bounds.flatMap fun bound => ':' :: bound.write).length + 1 ≤ fuel)
    (ends : rest.head? ≠ some ':') :
    parseInterfaceBounds fuel ((bounds.flatMap fun bound => ':' :: bound.write) ++ rest) =
      some (bounds.map RefType.toRef, rest) := by
  induction bounds generalizing fuel with
  | nil =>
      obtain ⟨fuel, rfl⟩ : ∃ smaller, fuel = smaller + 1 := ⟨fuel - 1, by omega⟩
      rw [List.flatMap_nil, List.nil_append, List.map_nil]
      unfold parseInterfaceBounds
      split
      · rename_i same
        cases same
      · exact absurd rfl ends
      · rfl
  | cons bound bounds ih =>
      rw [List.flatMap_cons, List.length_append, List.length_cons] at enough
      obtain ⟨fuel, rfl⟩ : ∃ smaller, fuel = smaller + 1 := ⟨fuel - 1, by omega⟩
      rw [List.flatMap_cons, List.append_assoc, List.cons_append, parseInterfaceBounds,
        reads_ref bound fuel _ (by omega)]
      simp only [bind, Option.bind, ih (show _ + 1 ≤ fuel by omega), List.map_cons]

/-- The class bound, where there is a bound or the last type parameter ends. -/
theorem reads_classBound (param : TypeParam) {fuel : Nat} {rest : List Char}
    (enough : 4 * ((param.classBound.map RefType.write).getD []).length ≤ fuel)
    (bounded : param.Bounded ∨ rest.head? = some '>') :
    parseClassBound fuel ((param.classBound.map RefType.write).getD [] ++
        ((param.interfaceBounds.flatMap fun bound => ':' :: bound.write) ++ rest)) =
      some ((param.classBound.map RefType.toRef).toList,
        (param.interfaceBounds.flatMap fun bound => ':' :: bound.write) ++ rest) := by
  unfold parseClassBound
  cases here : param.classBound with
  | some bound =>
      rw [here] at enough
      obtain ⟨c, tail, shape, kind⟩ := bound.write_head
      have read := reads_ref bound fuel
        ((param.interfaceBounds.flatMap fun bound => ':' :: bound.write) ++ rest) enough
      have starts : c ≠ ':' ∧ c ≠ '>' := by
        rcases kind with rfl | rfl | rfl <;> decide
      simp only [Option.map_some, Option.getD_some, Option.toList_some]
      rw [if_pos, read]
      · rfl
      · simp only [shape, List.cons_append, List.head?_cons, ne_eq, Option.some.injEq]
        exact starts
  | none =>
      simp only [Option.map_none, Option.getD_none, List.nil_append, Option.toList_none]
      rw [if_neg]
      intro ⟨colon, greater⟩
      rcases bounded with bounded | last
      · rw [TypeParam.Bounded, here] at bounded
        rcases bounded with none_ | listed
        · cases none_
        · obtain ⟨bound, bounds, listed⟩ := List.exists_cons_of_ne_nil listed
          rw [listed] at colon
          exact colon rfl
      · cases listed : param.interfaceBounds with
        | nil =>
            rw [listed] at greater
            exact greater last
        | cons bound bounds =>
            rw [listed] at colon
            exact colon rfl

theorem reads_typeParameter (param : TypeParam) {fuel : Nat} {rest : List Char}
    (enough : 4 * param.write.length + 1 ≤ fuel) (ends : rest.head? ≠ some ':')
    (bounded : param.Bounded ∨ rest.head? = some '>') :
    parseTypeParameter fuel (param.write ++ rest) = some (param.toTypeParameter, rest) := by
  have named := span_stop (p := fun c => c ≠ ':' ∧ c ≠ '>')
    (fun c member => decide_eq_true
      ⟨(param.name.plain c member).2.2.2.2.2.2, (param.name.plain c member).2.2.2.2.2.1⟩) ':' rfl
    ((param.classBound.map RefType.write).getD [] ++
      ((param.interfaceBounds.flatMap fun bound => ':' :: bound.write) ++ rest))
  rw [TypeParam.write, List.length_append, List.length_cons, List.length_append] at enough
  have written : param.write ++ rest = param.name.chars ++ ':' ::
      ((param.classBound.map RefType.write).getD [] ++
        ((param.interfaceBounds.flatMap fun bound => ':' :: bound.write) ++ rest)) := by
    rw [TypeParam.write]
    simp only [List.append_assoc, List.cons_append]
  rw [written, parseTypeParameter]
  simp only [named, List.drop_one, List.tail_cons, bind, Option.bind,
    reads_classBound param (show _ ≤ fuel by omega) bounded,
    reads_interfaceBounds param.interfaceBounds (show _ + 1 ≤ fuel by omega) ends]
  rfl

/-- A type parameter starts with its name. -/
theorem TypeParam.write_head (param : TypeParam) :
    ∃ c tail, param.write = c :: tail ∧ c ≠ ':' ∧ c ≠ '>' := by
  obtain ⟨c, tail, shape⟩ := List.exists_cons_of_ne_nil param.name.some_
  have plain := param.name.plain c (shape ▸ List.mem_cons_self)
  refine ⟨c, tail ++ ':' :: ((param.classBound.map RefType.write).getD [] ++
    param.interfaceBounds.flatMap fun bound => ':' :: bound.write), ?_, plain.2.2.2.2.2.2,
    plain.2.2.2.2.2.1⟩
  rw [TypeParam.write, shape, List.cons_append]

theorem reads_typeParameterList (params : List TypeParam) (bounded : BoundedBeforeOthers params)
    {fuel : Nat} {rest : List Char}
    (enough : 4 * (params.flatMap TypeParam.write).length + 2 ≤ fuel) :
    parseTypeParameterList fuel (params.flatMap TypeParam.write ++ '>' :: rest) =
      some (params.map TypeParam.toTypeParameter, '>' :: rest) := by
  induction params generalizing fuel with
  | nil =>
      obtain ⟨fuel, rfl⟩ : ∃ smaller, fuel = smaller + 1 := ⟨fuel - 1, by omega⟩
      rw [List.flatMap_nil, List.nil_append, parseTypeParameterList, if_pos rfl, List.map_nil]
  | cons param params ih =>
      rw [List.flatMap_cons, List.length_append] at enough
      obtain ⟨fuel, rfl⟩ : ∃ smaller, fuel = smaller + 1 := ⟨fuel - 1, by omega⟩
      obtain ⟨c, tail, shape, -, open_⟩ := param.write_head
      have some_ : 0 < param.write.length := by
        rw [shape]
        exact Nat.succ_pos _
      have follows : (params.flatMap TypeParam.write ++ '>' :: rest).head? ≠ some ':' ∧
          (param.Bounded ∨ (params.flatMap TypeParam.write ++ '>' :: rest).head? = some '>') ∧
          BoundedBeforeOthers params := by
        cases params with
        | nil => exact ⟨by simp, .inr rfl, trivial⟩
        | cons next params =>
            obtain ⟨c, tail, shape, other, -⟩ := next.write_head
            refine ⟨?_, .inl bounded.1, bounded.2⟩
            rw [List.flatMap_cons, shape, List.append_assoc, List.cons_append, List.head?_cons]
            simpa using other
      have first := reads_typeParameter param (show _ + 1 ≤ fuel by omega) follows.1 follows.2.1
      rw [shape, List.cons_append] at first
      rw [List.flatMap_cons, List.append_assoc, shape, List.cons_append, parseTypeParameterList,
        if_neg open_, first]
      simp only [bind, Option.bind, ih follows.2.2 (show _ + 2 ≤ fuel by omega), List.map_cons]

theorem reads_typeParameters {params : List TypeParam} (bounded : BoundedBeforeOthers params)
    (fuel : Nat) (rest : List Char) (enough : 4 * (writeTypeParams params).length ≤ fuel)
    (ends : rest.head? ≠ some '<') :
    parseTypeParameters fuel (writeTypeParams params ++ rest) =
      some (params.map TypeParam.toTypeParameter, rest) := by
  cases params with
  | nil =>
      rw [writeTypeParams, List.isEmpty_nil, if_pos rfl, List.nil_append, List.map_nil]
      unfold parseTypeParameters
      split
      · exact absurd rfl ends
      · rfl
  | cons param params =>
      have written : writeTypeParams (param :: params) =
          '<' :: ((param :: params).flatMap TypeParam.write ++ ['>']) := by
        rw [writeTypeParams]
        simp
      rw [written, List.length_cons, List.length_append] at enough
      rw [written, List.cons_append, List.append_assoc, List.singleton_append, parseTypeParameters,
        reads_typeParameterList _ bounded (by simp only [List.length_singleton] at enough; omega)]
      rfl

/-! ### Signatures -/

theorem reads_interfaces (interfaces : List ClassType) (fuel : Nat)
    (enough : 4 * (interfaces.flatMap fun interface => interface.toRefType.write).length + 1 ≤ fuel) :
    parseInterfaces fuel (interfaces.flatMap fun interface => interface.toRefType.write) =
      some (interfaces.map fun interface => interface.toRefType.toRef, []) := by
  induction interfaces generalizing fuel with
  | nil =>
      obtain ⟨fuel, rfl⟩ : ∃ smaller, fuel = smaller + 1 := ⟨fuel - 1, by omega⟩
      rfl
  | cons interface interfaces ih =>
      rw [List.flatMap_cons, List.length_append] at enough
      obtain ⟨fuel, rfl⟩ : ∃ smaller, fuel = smaller + 1 := ⟨fuel - 1, by omega⟩
      obtain ⟨c, tail, shape, -⟩ := interface.toRefType.write_head
      have some_ : 0 < interface.toRefType.write.length := by
        rw [shape]
        exact Nat.succ_pos _
      have first := reads_ref interface.toRefType fuel
        (interfaces.flatMap fun interface => interface.toRefType.write) (by omega)
      rw [shape, List.cons_append] at first
      rw [List.flatMap_cons, shape, List.cons_append, parseInterfaces, first]
      simp only [bind, Option.bind, ih fuel (by omega), List.map_cons]

theorem JavaType.write_head (type : JavaType) : ∃ c tail, type.write = c :: tail ∧ c ≠ ')' := by
  cases type with
  | base type =>
      refine ⟨baseLetter type, [], by rw [JavaType.write], ?_⟩
      cases type <;> decide
  | ref type =>
      obtain ⟨c, tail, shape, kind⟩ := type.write_head
      refine ⟨c, tail, by rw [JavaType.write, shape], ?_⟩
      rcases kind with rfl | rfl | rfl <;> decide

theorem reads_parameterTypes (params : List JavaType) (fuel : Nat) (rest : List Char)
    (enough : 4 * (params.flatMap JavaType.write).length + 2 ≤ fuel) :
    parseParameterTypes fuel (params.flatMap JavaType.write ++ ')' :: rest) =
      some (params.map JavaType.toRef, ')' :: rest) := by
  induction params generalizing fuel with
  | nil =>
      obtain ⟨fuel, rfl⟩ : ∃ smaller, fuel = smaller + 1 := ⟨fuel - 1, by omega⟩
      rw [List.flatMap_nil, List.nil_append, parseParameterTypes, if_pos rfl, List.map_nil]
  | cons param params ih =>
      rw [List.flatMap_cons, List.length_append] at enough
      obtain ⟨fuel, rfl⟩ : ∃ smaller, fuel = smaller + 1 := ⟨fuel - 1, by omega⟩
      obtain ⟨c, tail, shape, open_⟩ := param.write_head
      have some_ : 0 < param.write.length := by
        rw [shape]
        exact Nat.succ_pos _
      have first := reads_java param fuel (params.flatMap JavaType.write ++ ')' :: rest) (by omega)
      rw [shape, List.cons_append] at first
      rw [List.flatMap_cons, List.append_assoc, shape, List.cons_append, parseParameterTypes,
        if_neg open_, first]
      simp only [bind, Option.bind, ih fuel (by omega), List.map_cons]

theorem reads_throws (throwsList : List (ClassType ⊕ Identifier)) (fuel : Nat)
    (enough : 4 * (throwsList.flatMap fun thrown => '^' :: (thrownType thrown).write).length + 1 ≤
      fuel) :
    parseThrows fuel (throwsList.flatMap fun thrown => '^' :: (thrownType thrown).write) =
      some (throwsList.map fun thrown => (thrownType thrown).toRef, []) := by
  induction throwsList generalizing fuel with
  | nil =>
      obtain ⟨fuel, rfl⟩ : ∃ smaller, fuel = smaller + 1 := ⟨fuel - 1, by omega⟩
      rfl
  | cons thrown throwsList ih =>
      rw [List.flatMap_cons, List.length_append, List.length_cons] at enough
      obtain ⟨fuel, rfl⟩ : ∃ smaller, fuel = smaller + 1 := ⟨fuel - 1, by omega⟩
      rw [List.flatMap_cons, List.cons_append, parseThrows,
        reads_ref (thrownType thrown) fuel _ (by omega)]
      simp only [bind, Option.bind, ih fuel (by omega), List.map_cons]

theorem reads_class (sig : ClassSig) (bounded : BoundedBeforeOthers sig.typeParams) :
    parseClassSignature sig.write = some (sig.toSignature, []) := by
  obtain ⟨c, tail, shape, kind⟩ := sig.superClass.toRefType.write_head
  have open_ : c ≠ '<' := by
    rcases kind with rfl | rfl | rfl <;> decide
  have ends : (sig.superClass.toRefType.write ++
      sig.interfaces.flatMap fun interface => interface.toRefType.write).head? ≠ some '<' := by
    rw [shape, List.cons_append, List.head?_cons]
    simpa using open_
  have sized : sig.write.length = (writeTypeParams sig.typeParams).length +
      sig.superClass.toRefType.write.length +
      (sig.interfaces.flatMap fun interface => interface.toRefType.write).length := by
    rw [ClassSig.write, List.length_append, List.length_append]
  have fuel : sigFuel sig.write = 4 * sig.write.length + 4 := rfl
  have params := reads_typeParameters bounded (sigFuel sig.write) _ (by omega) ends
  have super_ := reads_ref sig.superClass.toRefType (sigFuel sig.write)
    (sig.interfaces.flatMap fun interface => interface.toRefType.write) (by omega)
  have interfaces := reads_interfaces sig.interfaces (sigFuel sig.write) (by omega)
  have written : sig.write = writeTypeParams sig.typeParams ++ (sig.superClass.toRefType.write ++
      sig.interfaces.flatMap fun interface => interface.toRefType.write) := by
    rw [ClassSig.write, List.append_assoc]
  rw [← written] at params
  unfold parseClassSignature
  simp only [bind, Option.bind, params, super_, interfaces]
  rfl

theorem reads_result (result : Option JavaType) (fuel : Nat) (rest : List Char)
    (enough : 4 * ((result.map JavaType.write).getD ['V']).length + 1 ≤ fuel) :
    parseTypeSignature fuel ((result.map JavaType.write).getD ['V'] ++ rest) =
      some ((result.map JavaType.toRef).getD .void, rest) := by
  cases result with
  | some type => exact reads_java type fuel rest enough
  | none =>
      obtain ⟨fuel, rfl⟩ : ∃ smaller, fuel = smaller + 1 := ⟨fuel - 1, by omega⟩
      rfl

theorem reads_method (sig : MethodSig) (bounded : BoundedBeforeOthers sig.typeParams) :
    parseMethodSignature sig.write = some (sig.toSignature, []) := by
  have fuel : sigFuel sig.write = 4 * sig.write.length + 4 := rfl
  have written : sig.write = writeTypeParams sig.typeParams ++ '(' ::
      (sig.params.flatMap JavaType.write ++ ')' :: ((sig.result.map JavaType.write).getD ['V'] ++
        sig.throwsList.flatMap fun thrown => '^' :: (thrownType thrown).write)) := by
    rw [MethodSig.write]
    simp only [List.append_assoc, List.cons_append]
  have sized := congrArg List.length written
  simp only [List.length_append, List.length_cons] at sized
  have params := reads_typeParameters bounded (sigFuel sig.write)
    ('(' :: (sig.params.flatMap JavaType.write ++ ')' ::
      ((sig.result.map JavaType.write).getD ['V'] ++
        sig.throwsList.flatMap fun thrown => '^' :: (thrownType thrown).write)))
    (by omega) (by simp)
  have types := reads_parameterTypes sig.params (sigFuel sig.write)
    ((sig.result.map JavaType.write).getD ['V'] ++
      sig.throwsList.flatMap fun thrown => '^' :: (thrownType thrown).write) (by omega)
  have result := reads_result sig.result (sigFuel sig.write)
    (sig.throwsList.flatMap fun thrown => '^' :: (thrownType thrown).write) (by omega)
  have throwsList := reads_throws sig.throwsList (sigFuel sig.write) (by omega)
  rw [← written] at params
  unfold parseMethodSignature
  simp only [bind, Option.bind, params, parseParameters, types, List.drop_one, List.tail_cons, result,
    throwsList]
  rfl

/-- Every generated signature is read back, as long as a type parameter that another one follows has
a bound. -/
theorem signature_readBack (sig : GenericSignature) (bounded : BoundedBeforeOthers sig.typeParams) :
    ReadBack sig := by
  cases sig with
  | field type =>
      refine ⟨?_, errorFree_ref type⟩
      have enough : 4 * type.write.length ≤ sigFuel type.write := Nat.le_add_right _ _
      have read := reads_ref type (sigFuel type.write) [] enough
      rw [List.append_nil] at read
      exact read
  | class_ sig => exact ⟨reads_class sig bounded, errorFree_class sig⟩
  | method sig => exact ⟨reads_method sig bounded, errorFree_method sig⟩

/-- `T`, `Outer` and `Inner` -/
def identT : Identifier := ⟨['T'], List.cons_ne_nil _ _, by simp⟩
def identOuter : Identifier := ⟨['O', 'u', 't', 'e', 'r'], List.cons_ne_nil _ _, by simp⟩
def identInner : Identifier := ⟨['I', 'n', 'n', 'e', 'r'], List.cons_ne_nil _ _, by simp⟩

/-- `<T:LOuter;>(TT;[I)LOuter<*>.Inner<+TT;>;^TT;` -/
def innerMethod : MethodSig where
  typeParams := [⟨identT, some (.class_ [] (.mk identOuter []) []), []⟩]
  params := [.ref (.typeVariable identT), .ref (.array (.base .int))]
  result := some (.ref (.class_ [] (.mk identOuter [.any])
    [.mk identInner [.extends_ (.typeVariable identT)]]))
  throwsList := [.inr identT]

theorem innerMethod_readBack : ReadBack (.method innerMethod) :=
  signature_readBack (.method innerMethod) trivial

/-- A type parameter without bounds runs into the next one. -/
example : (parseClassSignature "<A:B:Lb;>Lc;".toList).map
    (fun read => read.1.typeParams.map TypeParameter.name) = some ["A"] := by
  decide +kernel

/-! ### Arguments of outer classes -/

/-- The type arguments of each class of a class type. -/
def segmentArguments (simple : Segment) (suffix : List Segment) : List (List (TypeRef String)) :=
  simple.argumentRefs :: suffix.map Segment.argumentRefs

def identNested : Identifier :=
  ⟨['O', 'u', 't', 'e', 'r', '$', 'I', 'n', 'n', 'e', 'r'], List.cons_ne_nil _ _, by simp⟩

/-- `Outer<*>.Inner<*>` and `Outer$Inner<*, *>` are read alike, so that nothing can attribute the
arguments to their classes any more. -/
theorem segments_confused :
    ¬ ∃ attributed : TypeRef String → List (List (TypeRef String)),
      ∀ package simple suffix, ∃ read,
        parseFieldSignature (RefType.class_ package simple suffix).write = some (read, []) ∧
          attributed read = segmentArguments simple suffix := by
  intro ⟨attributed, attributes⟩
  have read (type : RefType) : parseFieldSignature type.write = some (type.toRef, []) := by
    have enough : 4 * type.write.length ≤ sigFuel type.write := Nat.le_add_right _ _
    have whole := reads_ref type (sigFuel type.write) [] enough
    rwa [List.append_nil] at whole
  obtain ⟨nested, first, arguments⟩ := attributes [] (.mk identOuter [.any]) [.mk identInner [.any]]
  obtain ⟨flat, second, arguments'⟩ := attributes [] (.mk identNested [.any, .any]) []
  rw [read] at first second
  obtain ⟨rfl, -⟩ := Prod.mk.inj (Option.some.inj first)
  obtain ⟨rfl, -⟩ := Prod.mk.inj (Option.some.inj second)
  have same : (RefType.class_ [] (.mk identOuter [.any]) [.mk identInner [.any]]).toRef =
      (RefType.class_ [] (.mk identNested [.any, .any]) []).toRef := rfl
  rw [same, arguments'] at arguments
  have counts := congrArg List.length arguments
  cases counts

end CaffeineLs.ClassParser
