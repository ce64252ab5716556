/-
Module: CaffeineLs.Proofs.StubRoundTrip
Purpose: Stubs converted through one string table are read back from every later state of the table.
Trusted boundary: the interner gives a string that it resolves a key to back as that key, and its keys
  are 32-bit numbers
Main exports: TableStanding, tableGrowth, stubs_resolve_back
-/
import CaffeineLs.Lib.Interning
import CaffeineLs.Hir.StubTable
import Mathlib.Data.Fintype.Card
import Mathlib.Algebra.GroupWithZero.Nat

namespace CaffeineLs.Hir

open Interning

variable {Symbol : Type} [BEq Symbol] {interner : ThreadedRodeo Symbol}

/-- A table as conversions leave it: each string is there once, for some key, and the two maps give
the places of strings. -/
structure TableStanding (interner : ThreadedRodeo Symbol) (table : StubStringTable Symbol) :
    Prop where
  nodup : table.strings.Nodup
  named : ∀ s ∈ table.strings, ∃ key, interner.resolve key = s
  indexed : ∀ s idx, table.strToIdx.lookup s = some idx → table.strings[idx.toNat]? = some s
  complete : ∀ s ∈ table.strings, (table.strToIdx.lookup s).isSome
  keyed : ∀ key idx, table.symbolToIdx.lookup key = some idx →
    table.strings[idx.toNat]? = some (interner.resolve key)

/-- Tables grow at the end. -/
def tableGrowth (interner : ThreadedRodeo Symbol) : Growth (StubStringTable Symbol) where
  standing := TableStanding interner
  grows one two := one.strings <+: two.strings
  refl table := List.prefix_refl table.strings
  trans := List.IsPrefix.trans

theorem getElem?_of_grown {α : Type} {xs ys : List α} (grown : xs <+: ys) {i : Nat} {x : α}
    (found : xs[i]? = some x) : ys[i]? = some x := by
  obtain ⟨rest, rfl⟩ := grown
  obtain ⟨inside, -⟩ := List.getElem?_eq_some_iff.mp found
  rw [List.getElem?_append_left inside]
  exact found

/-- Distinct strings of distinct 32-bit keys, and one more, are at most `2 ^ 32`. -/
theorem length_lt_of_named {Key : Type} {resolve : Key → String} {number : Key → UInt32}
    (numbered : Function.Injective number) {strings : List String} (nodup : strings.Nodup)
    (named : ∀ s ∈ strings, ∃ key, resolve key = s) {s : String} (fresh : s ∉ strings)
    (known : ∃ key, resolve key = s) : strings.length < 2 ^ 32 := by
  have all : ∀ t : {t // t ∈ s :: strings}, ∃ key, resolve key = t.1 := by
    intro t
    rcases List.mem_cons.mp t.2 with same | member
    · rw [same]
      exact known
    · exact named t.1 member
  choose key resolves using all
  have injective : Function.Injective fun t => (number (key t)).toBitVec.toFin := by
    intro t u same
    have keys : key t = key u := by
      apply numbered
      exact UInt32.eq_of_toBitVec_eq (BitVec.eq_of_toFin_eq same)
    apply Subtype.ext
    rw [← resolves t, ← resolves u, keys]
  have distinct : (s :: strings).Nodup := List.nodup_cons.mpr ⟨fresh, nodup⟩
  have places : Function.Injective fun i : Fin (s :: strings).length =>
      (⟨(s :: strings).get i, List.get_mem _ i⟩ : {t // t ∈ s :: strings}) := by
    intro i j same
    exact List.nodup_iff_injective_get.mp distinct (congrArg Subtype.val same)
  have bound := Fintype.card_le_of_injective _ (injective.comp places)
  simp only [Fintype.card_fin, List.length_cons] at bound
  omega

/-! ### Strings -/

section Strings

variable {number : Symbol → UInt32} (numbered : Function.Injective number)

include numbered in
/-- What `intern_str` does for a string of the interner: it finds the string, or puts it at the end. -/
theorem internStr_cases {table : StubStringTable Symbol} (standing : TableStanding interner table)
    {s : String} (known : ∃ key, interner.resolve key = s) :
    (∃ idx : UInt32, StubStringTable.internStr s table = (idx, table) ∧
      table.strings[idx.toNat]? = some s) ∨
    (s ∉ table.strings ∧ ∃ idx : UInt32, idx.toNat = table.strings.length ∧
      StubStringTable.internStr s table =
        (idx, { table with strings := table.strings ++ [s],
                           strToIdx := (s, idx) :: table.strToIdx })) := by
  cases found : table.strToIdx.lookup s with
  | some idx =>
      refine .inl ⟨idx, ?_, standing.indexed s idx found⟩
      simp [StubStringTable.internStr, found]
  | none =>
      have fresh : s ∉ table.strings := by
        intro member
        have some := standing.complete s member
        simp [found] at some
      have below := length_lt_of_named numbered standing.nodup standing.named fresh known
      refine .inr ⟨fresh, UInt32.ofNat table.strings.length, ?_, ?_⟩
      · rw [UInt32.toNat_ofNat']
        exact Nat.mod_eq_of_lt below
      · simp [StubStringTable.internStr, found]

/-- A string put at the end, with its place, keeps the table standing. -/
theorem TableStanding.push {table : StubStringTable Symbol} (standing : TableStanding interner table)
    {s : String} (known : ∃ key, interner.resolve key = s) (fresh : s ∉ table.strings)
    {idx : UInt32} (place : idx.toNat = table.strings.length) :
    TableStanding interner { table with strings := table.strings ++ [s],
                                        strToIdx := (s, idx) :: table.strToIdx } := by
  have grown : table.strings <+: table.strings ++ [s] := List.prefix_append table.strings [s]
  constructor
  · apply List.nodup_append.mpr
    refine ⟨standing.nodup, List.nodup_singleton s, ?_⟩
    intro t member u last
    obtain rfl := List.mem_singleton.mp last
    exact fun same => fresh (same ▸ member)
  · intro t member
    rcases List.mem_append.mp member with early | last
    · exact standing.named t early
    · obtain rfl := List.mem_singleton.mp last
      exact known
  · intro t found seen
    by_cases same : t = s
    · subst same
      simp only [List.lookup_cons, BEq.rfl, Option.some.injEq] at seen
      rw [← seen, place]
      simp
    · have other : (t == s) = false := by simpa using same
      simp only [List.lookup_cons, other] at seen
      exact getElem?_of_grown grown (standing.indexed t found seen)
  · intro t member
    by_cases same : t = s
    · simp [same]
    · have other : (t == s) = false := by simpa using same
      have early : t ∈ table.strings := by simpa [same] using member
      simp only [List.lookup_cons, other]
      exact standing.complete t early
  · intro key found seen
    exact getElem?_of_grown grown (standing.keyed key found seen)

include numbered in
theorem internStr_standing {table : StubStringTable Symbol} (standing : TableStanding interner table)
    {s : String} (known : ∃ key, interner.resolve key = s) :
    TableStanding interner (StubStringTable.internStr s table).2 ∧
      table.strings <+: (StubStringTable.internStr s table).2.strings ∧
      (StubStringTable.internStr s table).2.strings[(StubStringTable.internStr s table).1.toNat]? =
        some s := by
  rcases internStr_cases numbered standing known with
    ⟨idx, same, found⟩ | ⟨fresh, idx, place, pushed⟩
  · simp only [same]
    exact ⟨standing, List.prefix_refl table.strings, found⟩
  · simp only [pushed]
    refine ⟨standing.push known fresh place, List.prefix_append table.strings [s], ?_⟩
    rw [place]
    simp

theorem TableStanding.addKey [LawfulBEq Symbol] {table : StubStringTable Symbol}
    (standing : TableStanding interner table) {key : Symbol} {idx : UInt32}
    (found : table.strings[idx.toNat]? = some (interner.resolve key)) :
    TableStanding interner { table with symbolToIdx := (key, idx) :: table.symbolToIdx } := by
  refine { standing with keyed := ?_ }
  intro other place seen
  by_cases same : other = key
  · subst same
    simp only [List.lookup_cons, BEq.rfl, Option.some.injEq] at seen
    rw [← seen]
    exact found
  · have differs : (other == key) = false := by simpa using same
    simp only [List.lookup_cons, differs] at seen
    exact standing.keyed other place seen

end Strings

/-! ### Symbols -/

/-- What the resolver reads in a later table. -/
abbrev readIn (interner : ThreadedRodeo Symbol) (table : StubStringTable Symbol) :
    DiskResolver Symbol :=
  { strings := table.strings, interner := interner }

section Symbols

variable [LawfulBEq Symbol] {number : Symbol → UInt32} (numbered : Function.Injective number)
  (interns : ∀ key, interner.getOrIntern (interner.resolve key) = key)

/-- A conversion whose disk form is read back as the original in every later table. -/
abbrev ReadBack {α β : Type} (interner : ThreadedRodeo Symbol)
    (encode : α → StateM (StubStringTable Symbol) β)
    (decode : DiskResolver Symbol → β → Option α) (item : α) : Prop :=
  Means (tableGrowth interner) (encode item) fun later code =>
    decode (readIn interner later) code = some item

include numbered interns

theorem means_symbol (key : Symbol) :
    ReadBack interner (StubStringTable.symbol interner) DiskResolver.symbol key := by
  intro table standing
  have reads : ∀ {later : StubStringTable Symbol} {idx : UInt32},
      later.strings[idx.toNat]? = some (interner.resolve key) →
      DiskResolver.symbol (readIn interner later) idx = some key := by
    intro later idx found
    simp [DiskResolver.symbol, found, interns]
  cases found : table.symbolToIdx.lookup key with
  | some idx =>
      have ran : StateT.run (StubStringTable.symbol interner key) table = (idx, table) := by
        simp [StateT.run, StubStringTable.symbol, found]
      rw [ran]
      refine ⟨standing, List.prefix_refl table.strings, ?_⟩
      intro later grown
      exact reads (getElem?_of_grown grown (standing.keyed key idx found))
  | none =>
      obtain ⟨standing', grown, place⟩ :=
        internStr_standing (s := interner.resolve key) numbered standing ⟨key, rfl⟩
      have ran : StateT.run (StubStringTable.symbol interner key) table =
          ((StubStringTable.internStr (interner.resolve key) table).1,
            { (StubStringTable.internStr (interner.resolve key) table).2 with
              symbolToIdx :=
                (key, (StubStringTable.internStr (interner.resolve key) table).1) ::
                  (StubStringTable.internStr (interner.resolve key) table).2.symbolToIdx }) := by
        unfold StateT.run StubStringTable.symbol
        rw [found]
        rfl
      rw [ran]
      refine ⟨standing'.addKey place, grown, ?_⟩
      intro later more
      exact reads (getElem?_of_grown more place)

end Symbols

/-! ### Stubs

What a conversion reads back follows from what it reads back of symbols. -/

section Stubs

variable (symbols : ∀ key, ReadBack interner (StubStringTable.symbol interner) DiskResolver.symbol key)

include symbols

mutual

theorem means_typeRef (t : TypeRef Symbol) :
    ReadBack interner (StubStringTable.typeRef interner) DiskResolver.typeRef t := by
  cases t with
  | primitive p => exact means_pure fun later => rfl
  | reference name genericArgs =>
      unfold ReadBack StubStringTable.typeRef
      apply means_bind (symbols name)
      intro name'
      apply means_bind (means_typeRefs genericArgs)
      intro args'
      apply means_pure
      intro later args name
      simp [DiskResolver.typeRef, name, args]
  | wildcard bound =>
      cases bound with
      | none => exact means_pure fun later => rfl
      | some bound =>
          unfold ReadBack StubStringTable.typeRef
          apply means_bind (means_typeBound bound)
          intro bound'
          apply means_pure
          intro later bound
          simp [DiskResolver.typeRef, bound]
  | typeVariable v =>
      unfold ReadBack StubStringTable.typeRef
      apply means_bind (symbols v)
      intro v'
      apply means_pure
      intro later v
      simp [DiskResolver.typeRef, v]
  | array inner =>
      unfold ReadBack StubStringTable.typeRef
      apply means_bind (means_typeRef inner)
      intro inner'
      apply means_pure
      intro later inner
      simp [DiskResolver.typeRef, inner]
  | error => exact means_pure fun later => rfl
  | nullable inner =>
      unfold ReadBack StubStringTable.typeRef
      apply means_bind (means_typeRef inner)
      intro inner'
      apply means_pure
      intro later inner
      simp [DiskResolver.typeRef, inner]
  | definitelyNonNull inner =>
      unfold ReadBack StubStringTable.typeRef
      apply means_bind (means_typeRef inner)
      intro inner'
      apply means_pure
      intro later inner
      simp [DiskResolver.typeRef, inner]
  | void => exact means_pure fun later => rfl

theorem means_typeBound (b : TypeBound Symbol) :
    ReadBack interner (StubStringTable.typeBound interner) DiskResolver.typeBound b := by
  cases b with
  | upper t =>
      unfold ReadBack StubStringTable.typeBound
      apply means_bind (means_typeRef t)
      intro t'
      apply means_pure
      intro later t
      simp [DiskResolver.typeBound, t]
  | lower t =>
      unfold ReadBack StubStringTable.typeBound
      apply means_bind (means_typeRef t)
      intro t'
      apply means_pure
      intro later t
      simp [DiskResolver.typeBound, t]

theorem means_typeRefs (ts : List (TypeRef Symbol)) :
    ReadBack interner (StubStringTable.typeRefs interner) DiskResolver.typeRefs ts := by
  cases ts with
  | nil => exact means_pure fun later => rfl
  | cons t ts =>
      unfold ReadBack StubStringTable.typeRefs
      apply means_bind (means_typeRef t)
      intro t'
      apply means_bind (means_typeRefs ts)
      intro ts'
      apply means_pure
      intro later rest first
      simp [DiskResolver.typeRefs, first, rest]

end

mutual

theorem means_annotationSig (a : AnnotationSig Symbol) :
    ReadBack interner (StubStringTable.annotationSig interner) DiskResolver.annotationSig a := by
  cases a with
  | mk annotationType arguments =>
      unfold ReadBack StubStringTable.annotationSig
      apply means_bind (means_typeRef symbols annotationType)
      intro annotationType'
      apply means_bind (means_annotationArguments arguments)
      intro arguments'
      apply means_pure
      intro later arguments annotationType
      simp [DiskResolver.annotationSig, annotationType, arguments]

theorem means_annotationArguments (arguments : List (Symbol × AnnotationValue Symbol)) :
    ReadBack interner (StubStringTable.annotationArguments interner)
      DiskResolver.annotationArguments arguments := by
  match arguments with
  | [] => exact means_pure fun later => rfl
  | (name, value) :: rest =>
      unfold ReadBack StubStringTable.annotationArguments
      apply means_bind (symbols name)
      intro name'
      apply means_bind (means_annotationValue value)
      intro value'
      apply means_bind (means_annotationArguments rest)
      intro rest'
      apply means_pure
      intro later rest value name
      simp [DiskResolver.annotationArguments, name, value, rest]

theorem means_annotationValue (v : AnnotationValue Symbol) :
    ReadBack interner (StubStringTable.annotationValue interner) DiskResolver.annotationValue v := by
  cases v with
  | string s =>
      unfold ReadBack StubStringTable.annotationValue
      apply means_bind (symbols s)
      intro s'
      apply means_pure
      intro later s
      simp [DiskResolver.annotationValue, s]
  | primitive p => exact means_pure fun later => rfl
  | class_ t =>
      unfold ReadBack StubStringTable.annotationValue
      apply means_bind (means_typeRef symbols t)
      intro t'
      apply means_pure
      intro later t
      simp [DiskResolver.annotationValue, t]
  | enum classType entryName =>
      unfold ReadBack StubStringTable.annotationValue
      apply means_bind (means_typeRef symbols classType)
      intro classType'
      apply means_bind (symbols entryName)
      intro entryName'
      apply means_pure
      intro later entryName classType
      simp [DiskResolver.annotationValue, classType, entryName]
  | annotation_ a =>
      unfold ReadBack StubStringTable.annotationValue
      apply means_bind (means_annotationSig a)
      intro a'
      apply means_pure
      intro later a
      simp [DiskResolver.annotationValue, a]
  | array values =>
      unfold ReadBack StubStringTable.annotationValue
      apply means_bind (means_annotationValues values)
      intro values'
      apply means_pure
      intro later values
      simp [DiskResolver.annotationValue, values]

theorem means_annotationValues (values : List (AnnotationValue Symbol)) :
    ReadBack interner (StubStringTable.annotationValues interner)
      DiskResolver.annotationValues values := by
  match values with
  | [] => exact means_pure fun later => rfl
  | value :: rest =>
      unfold ReadBack StubStringTable.annotationValues
      apply means_bind (means_annotationValue value)
      intro value'
      apply means_bind (means_annotationValues rest)
      intro rest'
      apply means_pure
      intro later rest value
      simp [DiskResolver.annotationValues, value, rest]

end

theorem means_typeParameter (p : TypeParameter Symbol) :
    ReadBack interner (StubStringTable.typeParameter interner) DiskResolver.typeParameter p := by
  unfold ReadBack StubStringTable.typeParameter
  apply means_bind (symbols p.name)
  intro name'
  apply means_bind (means_list p.bounds fun item _ => means_typeRef symbols item)
  intro bounds'
  apply means_bind (means_list p.annotations fun item _ => means_annotationSig symbols item)
  intro annotations'
  apply means_pure
  intro later annotations bounds name
  simp [DiskResolver.typeParameter, name, bounds, annotations]

theorem means_param (p : ParamData Symbol) :
    ReadBack interner (StubStringTable.param interner) DiskResolver.param p := by
  unfold ReadBack StubStringTable.param
  apply means_bind (means_option p.name fun item _ => symbols item)
  intro name'
  apply means_bind (means_typeRef symbols p.paramType)
  intro paramType'
  apply means_bind (means_list p.annotations fun item _ => means_annotationSig symbols item)
  intro annotations'
  apply means_pure
  intro later annotations paramType name
  simp [DiskResolver.param, name, paramType, annotations]

theorem means_method (m : MethodStub Symbol) :
    ReadBack interner (StubStringTable.method interner) DiskResolver.method m := by
  unfold ReadBack StubStringTable.method
  apply means_bind (symbols m.name)
  intro name'
  apply means_bind (symbols m.descriptor)
  intro descriptor'
  apply means_bind (means_typeRef symbols m.returnType)
  intro returnType'
  apply means_bind (means_list m.typeParams fun item _ => means_typeParameter symbols item)
  intro typeParams'
  apply means_bind (means_list m.throwsList fun item _ => means_typeRef symbols item)
  intro throwsList'
  apply means_bind (means_list m.params fun item _ => means_param symbols item)
  intro params'
  apply means_bind (means_list m.annotations fun item _ => means_annotationSig symbols item)
  intro annotations'
  apply means_bind (means_option m.defaultValue fun item _ => means_annotationValue symbols item)
  intro defaultValue'
  apply means_pure
  intro later defaultValue annotations params throwsList typeParams returnType descriptor name
  simp [DiskResolver.method, name, descriptor, returnType, typeParams, throwsList, params, annotations, defaultValue]

theorem means_field (f : FieldStub Symbol) :
    ReadBack interner (StubStringTable.field interner) DiskResolver.field f := by
  unfold ReadBack StubStringTable.field
  apply means_bind (symbols f.name)
  intro name'
  apply means_bind (symbols f.descriptor)
  intro descriptor'
  apply means_bind (means_typeRef symbols f.fieldType)
  intro fieldType'
  apply means_bind (means_list f.annotations fun item _ => means_annotationSig symbols item)
  intro annotations'
  apply means_bind (means_option f.constantValue fun item _ => means_annotationValue symbols item)
  intro constantValue'
  apply means_pure
  intro later constantValue annotations fieldType descriptor name
  simp [DiskResolver.field, name, descriptor, fieldType, annotations, constantValue]

theorem means_recordComponent (r : RecordComponentData Symbol) :
    ReadBack interner (StubStringTable.recordComponent interner) DiskResolver.recordComponent r := by
  unfold ReadBack StubStringTable.recordComponent
  apply means_bind (symbols r.name)
  intro name'
  apply means_bind (means_typeRef symbols r.componentType)
  intro componentType'
  apply means_bind (means_list r.annotations fun item _ => means_annotationSig symbols item)
  intro annotations'
  apply means_pure
  intro later annotations componentType name
  simp [DiskResolver.recordComponent, name, componentType, annotations]

theorem means_class_ (c : ClassStub Symbol) :
    ReadBack interner (StubStringTable.class_ interner) DiskResolver.class_ c := by
  unfold ReadBack StubStringTable.class_
  apply means_bind (symbols c.fqn)
  intro fqn'
  apply means_bind (symbols c.name)
  intro name'
  apply means_bind (means_option c.superClass fun item _ => means_typeRef symbols item)
  intro superClass'
  apply means_bind (means_list c.interfaces fun item _ => means_typeRef symbols item)
  intro interfaces'
  apply means_bind (means_list c.typeParams fun item _ => means_typeParameter symbols item)
  intro typeParams'
  apply means_bind (means_list c.methods fun item _ => means_method symbols item)
  intro methods'
  apply means_bind (means_list c.fields fun item _ => means_field symbols item)
  intro fields'
  apply means_bind (means_list c.permittedSubclasses fun item _ => means_typeRef symbols item)
  intro permittedSubclasses'
  apply means_bind (means_list c.recordComponents fun item _ => means_recordComponent symbols item)
  intro recordComponents'
  apply means_bind (means_list c.annotations fun item _ => means_annotationSig symbols item)
  intro annotations'
  apply means_pure
  intro later annotations recordComponents permittedSubclasses fields methods typeParams interfaces superClass name fqn
  simp [DiskResolver.class_, fqn, name, superClass, interfaces, typeParams, methods, fields, permittedSubclasses, recordComponents, annotations]

theorem means_requires (r : ModuleRequires Symbol) :
    ReadBack interner (StubStringTable.requires interner) DiskResolver.requires r := by
  unfold ReadBack StubStringTable.requires
  apply means_bind (symbols r.moduleName)
  intro moduleName'
  apply means_bind (means_option r.compiledVersion fun item _ => symbols item)
  intro compiledVersion'
  apply means_pure
  intro later compiledVersion moduleName
  simp [DiskResolver.requires, moduleName, compiledVersion]

theorem means_exports (e : ModuleExports Symbol) :
    ReadBack interner (StubStringTable.exports interner) DiskResolver.exports e := by
  unfold ReadBack StubStringTable.exports
  apply means_bind (symbols e.packageName)
  intro packageName'
  apply means_bind (means_list e.toModules fun item _ => symbols item)
  intro toModules'
  apply means_pure
  intro later toModules packageName
  simp [DiskResolver.exports, packageName, toModules]

theorem means_opens (o : ModuleOpens Symbol) :
    ReadBack interner (StubStringTable.opens interner) DiskResolver.opens o := by
  unfold ReadBack StubStringTable.opens
  apply means_bind (symbols o.packageName)
  intro packageName'
  apply means_bind (means_list o.toModules fun item _ => symbols item)
  intro toModules'
  apply means_pure
  intro later toModules packageName
  simp [DiskResolver.opens, packageName, toModules]

theorem means_provides (p : ModuleProvides Symbol) :
    ReadBack interner (StubStringTable.provides interner) DiskResolver.provides p := by
  unfold ReadBack StubStringTable.provides
  apply means_bind (means_typeRef symbols p.serviceInterface)
  intro serviceInterface'
  apply means_bind (means_list p.withImplementations fun item _ => means_typeRef symbols item)
  intro withImplementations'
  apply means_pure
  intro later withImplementations serviceInterface
  simp [DiskResolver.provides, serviceInterface, withImplementations]

theorem means_module_ (m : ModuleStub Symbol) :
    ReadBack interner (StubStringTable.module_ interner) DiskResolver.module_ m := by
  unfold ReadBack StubStringTable.module_
  apply means_bind (symbols m.name)
  intro name'
  apply means_bind (means_option m.version fun item _ => symbols item)
  intro version'
  apply means_bind (means_list m.requires fun item _ => means_requires symbols item)
  intro requires'
  apply means_bind (means_list m.exports fun item _ => means_exports symbols item)
  intro exports'
  apply means_bind (means_list m.opens fun item _ => means_opens symbols item)
  intro opens'
  apply means_bind (means_list m.uses fun item _ => means_typeRef symbols item)
  intro uses'
  apply means_bind (means_list m.provides fun item _ => means_provides symbols item)
  intro provides'
  apply means_pure
  intro later provides uses opens exports requires version name
  simp [DiskResolver.module_, name, version, requires, exports, opens, uses, provides]

theorem means_classOrModule (record : ClassOrModuleStub Symbol) :
    ReadBack interner (StubStringTable.classOrModule interner) DiskResolver.classOrModule record := by
  cases record with
  | class_ stub =>
      unfold ReadBack StubStringTable.classOrModule
      apply means_bind (means_class_ symbols stub)
      intro stub'
      apply means_pure
      intro later stub
      simp [DiskResolver.classOrModule, stub]
  | module_ stub =>
      unfold ReadBack StubStringTable.classOrModule
      apply means_bind (means_module_ symbols stub)
      intro stub'
      apply means_pure
      intro later stub
      simp [DiskResolver.classOrModule, stub]

theorem means_stubs (records : List (ClassOrModuleStub Symbol)) :
    Means (tableGrowth interner) (StubStringTable.stubs interner records) fun later codes =>
      codes.mapM (DiskResolver.classOrModule (readIn interner later)) = some records :=
  means_list records fun record _ => means_classOrModule symbols record

end Stubs

/-! ### A session -/

theorem new_standing (interner : ThreadedRodeo Symbol) :
    TableStanding interner StubStringTable.new where
  nodup := List.nodup_nil
  named := nofun
  indexed := nofun
  complete := nofun
  keyed := nofun

/-- A string of the table is handed out under its one place, and the table stays as it is. -/
theorem internStr_of_getElem? {table : StubStringTable Symbol}
    (standing : TableStanding interner table) {i : Nat} {s : String}
    (found : table.strings[i]? = some s) :
    StubStringTable.internStr s table = (UInt32.ofNat i, table) := by
  obtain ⟨idx, seen⟩ := Option.isSome_iff_exists.mp
    (standing.complete s (List.mem_of_getElem? found))
  obtain ⟨inside, at_i⟩ := List.getElem?_eq_some_iff.mp found
  obtain ⟨below, at_idx⟩ := List.getElem?_eq_some_iff.mp (standing.indexed s idx seen)
  have place : idx.toNat = i := by
    apply (List.Nodup.getElem_inj_iff standing.nodup).mp
    rw [at_idx, at_i]
  have same : UInt32.ofNat i = idx := by
    rw [← place, UInt32.ofNat_toNat]
  rw [same]
  simp [StubStringTable.internStr, seen]

/-- What the stub cache keeps of `records`, converted from an empty table, when `more` is converted
after them: every disk form resolves to its original over the final strings, indices keep their
strings, and a string the table holds is handed out under its one index. -/
def StubsLossless (interner : ThreadedRodeo Symbol) (records more : List (ClassOrModuleStub Symbol)) :
    Prop :=
  let before := (StubStringTable.stubs interner records).run StubStringTable.new
  let after := (StubStringTable.stubs interner more).run before.2
  before.1.mapM (DiskResolver.classOrModule (readIn interner after.2)) = some records ∧
    before.2.strings <+: after.2.strings ∧
    ∀ i s, before.2.strings[i]? = some s →
      StubStringTable.internStr s after.2 = (UInt32.ofNat i, after.2)

/-- The stub cache is lossless, for every sequence of stubs over keys of the interner. -/
theorem stubs_resolve_back [LawfulBEq Symbol] (interner : ThreadedRodeo Symbol)
    (interns : ∀ key, interner.getOrIntern (interner.resolve key) = key)
    (number : Symbol → UInt32) (numbered : Function.Injective number)
    (records more : List (ClassOrModuleStub Symbol)) : StubsLossless interner records more := by
  have symbols := means_symbol numbered interns
  obtain ⟨standing, -, meant⟩ :=
    means_stubs symbols records StubStringTable.new (new_standing interner)
  obtain ⟨standing', grown, -⟩ := means_stubs symbols more _ standing
  refine ⟨meant _ grown, grown, ?_⟩
  intro i s found
  exact internStr_of_getElem? standing' (getElem?_of_grown grown found)

/-- An interner of two strings. -/
def sampleRodeo : ThreadedRodeo Bool where
  resolve key := if key then "java.lang.Object" else "requires"
  getOrIntern s := s == "java.lang.Object"

theorem stubs_resolve_back_sample :
    StubsLossless sampleRodeo
      [.module_ { name := false, flags := 0x8000, version := none, requires := [], exports := [],
                  opens := [], uses := [.reference true [.array (.typeVariable false)]],
                  provides := [] }] [] :=
  stubs_resolve_back sampleRodeo (by decide) (fun key => if key then 2 else 1)
    (by unfold Function.Injective; decide) _ _

end CaffeineLs.Hir
