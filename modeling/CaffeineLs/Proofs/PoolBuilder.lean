/-
Module: CaffeineLs.Proofs.PoolBuilder
Purpose: Over every run of the constant pool builder, the indexes it returns denote the constants that
  were asked for, as long as the pool has room, no number is asked for twice and no method handle is
  made for the method of an interface.
Trusted boundary: none
Main exports: Found, Denoted, readPool_kept_iff
-/
import CaffeineLs.Proofs.PoolClosure
import CaffeineLs.RustAsm.PoolBuilder
import CaffeineLs.RustAsm.CodeReader
import CaffeineLs.Lib.ByteCodec
import Mathlib.Data.List.Forall2

namespace CaffeineLs.RustAsm

/-! ### What an index denotes -/

def utf8At (cp : Pool) (value : String) (index : UInt16) : Prop :=
  cp[index.toNat]? = some (.utf8 value)

def namedAt (cp : Pool) (kind : Named) (name : String) (index : UInt16) : Prop :=
  ∃ nameIndex, cp[index.toNat]? = some (kind.entry nameIndex) ∧ utf8At cp name nameIndex

/-- An entry that refers to a string. -/
def ofUtf8At (cp : Pool) (entry : UInt16 → CpInfo) (value : String) (index : UInt16) : Prop :=
  ∃ stringIndex, cp[index.toNat]? = some (entry stringIndex) ∧ utf8At cp value stringIndex

def nameAndTypeAt (cp : Pool) (name descriptor : String) (index : UInt16) : Prop :=
  ∃ nameIndex descriptorIndex,
    cp[index.toNat]? = some (.nameAndType nameIndex descriptorIndex) ∧
      utf8At cp name nameIndex ∧ utf8At cp descriptor descriptorIndex

def refAt (cp : Pool) (kind : RefKind) (owner name descriptor : String) (index : UInt16) : Prop :=
  ∃ classIndex nameAndTypeIndex,
    cp[index.toNat]? = some (kind.entry classIndex nameAndTypeIndex) ∧
      namedAt cp .class_ owner classIndex ∧ nameAndTypeAt cp name descriptor nameAndTypeIndex

/-- A handle whose reference has the kind and the members asked for. -/
def handleAt (cp : Pool) (kind : RefKind) (handle : Handle) (index : UInt16) : Prop :=
  ∃ referenceIndex,
    cp[index.toNat]? = some (.methodHandle handle.referenceKind referenceIndex) ∧
      refAt cp kind handle.owner handle.name handle.descriptor referenceIndex

/-- The reference a handle is to be made with: a field, or a method by what declares it. -/
def wantedRef (handle : Handle) : RefKind :=
  if 1 ≤ handle.referenceKind ∧ handle.referenceKind ≤ 4 then .field
  else if handle.referenceKind = 9 ∨ handle.isInterface then .interfaceMethod
  else .method

/-- The index holds the constant, up to the kind of reference a handle is made with. -/
def Found (cp : Pool) (index : UInt16) : PoolConstant → Prop
  | .utf8 value => utf8At cp value index
  | .integer value => cp[index.toNat]? = some (.integer value)
  | .float bits => cp[index.toNat]? = some (.float bits)
  | .long value => cp[index.toNat]? = some (.long value)
  | .double bits => cp[index.toNat]? = some (.double bits)
  | .named kind name => namedAt cp kind name index
  | .string value => ofUtf8At cp .string value index
  | .nameAndType name descriptor => nameAndTypeAt cp name descriptor index
  | .ref kind owner name descriptor => refAt cp kind owner name descriptor index
  | .methodType descriptor => ofUtf8At cp .methodType descriptor index
  | .methodHandle handle => ∃ kind, handleAt cp kind handle index
  | .invokeDynamic bsmIndex name descriptor =>
      ∃ nameAndTypeIndex, cp[index.toNat]? = some (.invokeDynamic bsmIndex nameAndTypeIndex) ∧
        nameAndTypeAt cp name descriptor nameAndTypeIndex

/-- The index denotes exactly the constant. -/
def Denoted (cp : Pool) (index : UInt16) (constant : PoolConstant) : Prop :=
  Found cp index constant ∧
    ∀ handle, constant = .methodHandle handle → handleAt cp (wantedRef handle) handle index

/-- A long or double. -/
def CpInfo.wide : CpInfo → Bool
  | .long _ | .double _ => true
  | _ => false

/-- A slot is unusable exactly behind a long or double. -/
def WideSlots (cp : Pool) : Prop :=
  ∀ slot, cp[slot + 1]? = some .unusable ↔ ∃ entry, cp[slot]? = some entry ∧ entry.wide

/-! ### A pool that is added to -/

theorem entry_of_grown {cp cp' : Pool} (grown : cp <+: cp') {slot : Nat} {entry : CpInfo}
    (here : cp[slot]? = some entry) : cp'[slot]? = some entry := by
  obtain ⟨added, rfl⟩ := grown
  obtain ⟨inside, -⟩ := List.getElem?_eq_some_iff.mp here
  rw [List.getElem?_append_left inside]
  exact here

section Growing

variable {cp cp' : Pool} (grown : cp <+: cp')

include grown

theorem utf8At_mono {value : String} {index : UInt16} (holds : utf8At cp value index) :
    utf8At cp' value index :=
  entry_of_grown grown holds

theorem namedAt_mono {kind : Named} {name : String} {index : UInt16}
    (holds : namedAt cp kind name index) : namedAt cp' kind name index := by
  obtain ⟨nameIndex, entry, value⟩ := holds
  exact ⟨nameIndex, entry_of_grown grown entry, utf8At_mono grown value⟩

theorem ofUtf8At_mono {make : UInt16 → CpInfo} {value : String} {index : UInt16}
    (holds : ofUtf8At cp make value index) : ofUtf8At cp' make value index := by
  obtain ⟨stringIndex, entry, there⟩ := holds
  exact ⟨stringIndex, entry_of_grown grown entry, utf8At_mono grown there⟩

theorem nameAndTypeAt_mono {name descriptor : String} {index : UInt16}
    (holds : nameAndTypeAt cp name descriptor index) : nameAndTypeAt cp' name descriptor index := by
  obtain ⟨nameIndex, descriptorIndex, entry, named, described⟩ := holds
  exact ⟨nameIndex, descriptorIndex, entry_of_grown grown entry, utf8At_mono grown named,
    utf8At_mono grown described⟩

theorem refAt_mono {kind : RefKind} {owner name descriptor : String} {index : UInt16}
    (holds : refAt cp kind owner name descriptor index) :
    refAt cp' kind owner name descriptor index := by
  obtain ⟨classIndex, nameAndTypeIndex, entry, owned, typed⟩ := holds
  exact ⟨classIndex, nameAndTypeIndex, entry_of_grown grown entry, namedAt_mono grown owned,
    nameAndTypeAt_mono grown typed⟩

theorem handleAt_mono {kind : RefKind} {handle : Handle} {index : UInt16}
    (holds : handleAt cp kind handle index) : handleAt cp' kind handle index := by
  obtain ⟨referenceIndex, entry, referred⟩ := holds
  exact ⟨referenceIndex, entry_of_grown grown entry, refAt_mono grown referred⟩

/-- What an index holds it goes on to hold. -/
theorem Found.mono {index : UInt16} {constant : PoolConstant} (found : Found cp index constant) :
    Found cp' index constant := by
  cases constant with
  | utf8 | integer | float | long | double => exact entry_of_grown grown found
  | named => exact namedAt_mono grown found
  | string | methodType => exact ofUtf8At_mono grown found
  | nameAndType => exact nameAndTypeAt_mono grown found
  | ref => exact refAt_mono grown found
  | methodHandle =>
      obtain ⟨kind, holds⟩ := found
      exact ⟨kind, handleAt_mono grown holds⟩
  | invokeDynamic =>
      obtain ⟨nameAndTypeIndex, entry, typed⟩ := found
      exact ⟨nameAndTypeIndex, entry_of_grown grown entry, nameAndTypeAt_mono grown typed⟩

end Growing

/-! ### The lookups -/

theorem cpNamed_eq_some {kind : Named} {cp : Pool} {index : UInt16} {name : String}
    (named : cpNamed kind cp index = some name) : namedAt cp kind name index := by
  unfold cpNamed at named
  obtain ⟨entry, here, rest⟩ := Option.bind_eq_some_iff.mp named
  obtain ⟨nameIndex, isKind, value⟩ := Option.bind_eq_some_iff.mp rest
  refine ⟨nameIndex, ?_, cpUtf8_eq_some.mp value⟩
  have made : entry = kind.entry nameIndex := by
    cases kind <;> cases entry <;> simp_all [Named.nameIndex, Named.entry]
  rw [here, made]

theorem cpNameAndType_eq_some {cp : Pool} {index : UInt16} {name descriptor : String}
    (typed : cpNameAndType cp index = some (name, descriptor)) :
    nameAndTypeAt cp name descriptor index := by
  unfold cpNameAndType at typed
  split at typed
  · rename_i nameIndex descriptorIndex here
    obtain ⟨value, named, rest⟩ := Option.bind_eq_some_iff.mp typed
    obtain ⟨value', described, same⟩ := Option.bind_eq_some_iff.mp rest
    obtain ⟨rfl, rfl⟩ := Prod.mk.inj (Option.some.inj same)
    exact ⟨nameIndex, descriptorIndex, here, cpUtf8_eq_some.mp named, cpUtf8_eq_some.mp described⟩
  · cases typed

theorem cpRefParts_eq_some {cp : Pool} {classIndex nameAndTypeIndex : UInt16}
    {owner name descriptor : String}
    (parts : cpRefParts cp classIndex nameAndTypeIndex = some (owner, name, descriptor)) :
    namedAt cp .class_ owner classIndex ∧ nameAndTypeAt cp name descriptor nameAndTypeIndex := by
  unfold cpRefParts at parts
  obtain ⟨owner', owned, rest⟩ := Option.bind_eq_some_iff.mp parts
  obtain ⟨⟨name', descriptor'⟩, typed, same⟩ := Option.bind_eq_some_iff.mp rest
  simp only [Option.some.injEq, Prod.mk.injEq] at same
  obtain ⟨rfl, rfl, rfl⟩ := same
  exact ⟨cpNamed_eq_some owned, cpNameAndType_eq_some typed⟩

/-- A member looked up is a reference of some kind to it. -/
theorem cpMemberRef_eq_some {cp : Pool} {index : UInt16} {owner name descriptor : String}
    {isInterface : Bool}
    (member : cpMemberRef cp index = some (owner, name, descriptor, isInterface)) :
    ∃ kind, refAt cp kind owner name descriptor index := by
  have referred : ∀ (kind : RefKind) (classIndex nameAndTypeIndex : UInt16) (flag : Bool),
      cp[index.toNat]? = some (kind.entry classIndex nameAndTypeIndex) →
      ((cpRefParts cp classIndex nameAndTypeIndex).bind fun parts =>
        some (parts.1, parts.2.1, parts.2.2, flag)) = some (owner, name, descriptor, isInterface) →
      refAt cp kind owner name descriptor index := by
    intro kind classIndex nameAndTypeIndex flag here parts
    obtain ⟨⟨owner', name', descriptor'⟩, found, same⟩ := Option.bind_eq_some_iff.mp parts
    simp only [Option.some.injEq, Prod.mk.injEq] at same
    obtain ⟨rfl, rfl, rfl, rfl⟩ := same
    obtain ⟨owned, typed⟩ := cpRefParts_eq_some found
    exact ⟨classIndex, nameAndTypeIndex, here, owned, typed⟩
  unfold cpMemberRef at member
  split at member
  · rename_i here
    exact ⟨.field, referred .field _ _ _ here member⟩
  · rename_i here
    exact ⟨.method, referred .method _ _ _ here member⟩
  · rename_i here
    exact ⟨.interfaceMethod, referred .interfaceMethod _ _ _ here member⟩
  · cases member

/-! ### What the builder knows -/

/-- Every index that is noted holds what it is noted for. -/
def Sound (builder : PoolBuilder) : Prop :=
  ∀ key index, (key, index) ∈ builder.known → Found builder.cp index key

theorem keyOf_found {cp : Pool} {index : UInt16} {entry : CpInfo} {key : PoolConstant}
    (here : cp[index.toNat]? = some entry)
    (noted : PoolBuilder.keyOf cp index entry = some key) : Found cp index key := by
  have string_found : ∀ (make : UInt16 → CpInfo) (stringIndex : UInt16) (value : String),
      entry = make stringIndex → cpUtf8 cp stringIndex = some value →
      ofUtf8At cp make value index := by
    intro make stringIndex value made holds
    exact ⟨stringIndex, made ▸ here, cpUtf8_eq_some.mp holds⟩
  have ref_found : ∀ (kind : RefKind) (classIndex nameAndTypeIndex : UInt16),
      entry = kind.entry classIndex nameAndTypeIndex →
      ((cpRefParts cp classIndex nameAndTypeIndex).bind fun parts =>
        some (PoolConstant.ref kind parts.1 parts.2.1 parts.2.2)) = some key →
      Found cp index key := by
    intro kind classIndex nameAndTypeIndex made parts
    obtain ⟨⟨owner, name, descriptor⟩, found, same⟩ := Option.bind_eq_some_iff.mp parts
    cases same
    obtain ⟨owned, typed⟩ := cpRefParts_eq_some found
    exact ⟨classIndex, nameAndTypeIndex, made ▸ here, owned, typed⟩
  cases entry with
  | utf8 value =>
      cases noted
      exact here
  | class_ nameIndex =>
      obtain ⟨name, named, rfl⟩ := Option.map_eq_some_iff.mp noted
      exact ⟨nameIndex, here, cpUtf8_eq_some.mp named⟩
  | module_ | package =>
      obtain ⟨name, named, rfl⟩ := Option.map_eq_some_iff.mp noted
      exact cpNamed_eq_some named
  | string stringIndex =>
      obtain ⟨value, holds, rfl⟩ := Option.map_eq_some_iff.mp noted
      exact string_found .string stringIndex value rfl holds
  | methodType descriptorIndex =>
      obtain ⟨value, holds, rfl⟩ := Option.map_eq_some_iff.mp noted
      exact string_found .methodType descriptorIndex value rfl holds
  | nameAndType nameIndex descriptorIndex =>
      obtain ⟨name, named, rest⟩ := Option.bind_eq_some_iff.mp noted
      obtain ⟨descriptor, described, same⟩ := Option.bind_eq_some_iff.mp rest
      cases same
      exact ⟨nameIndex, descriptorIndex, here, cpUtf8_eq_some.mp named, cpUtf8_eq_some.mp described⟩
  | fieldref classIndex nameAndTypeIndex => exact ref_found .field _ _ rfl noted
  | methodref classIndex nameAndTypeIndex => exact ref_found .method _ _ rfl noted
  | interfaceMethodref classIndex nameAndTypeIndex =>
      exact ref_found .interfaceMethod _ _ rfl noted
  | methodHandle referenceKind referenceIndex =>
      obtain ⟨⟨owner, name, descriptor, isInterface⟩, member, same⟩ :=
        Option.bind_eq_some_iff.mp noted
      cases same
      obtain ⟨kind, referred⟩ := cpMemberRef_eq_some member
      exact ⟨kind, referenceIndex, here, referred⟩
  | invokeDynamic bsmIndex nameAndTypeIndex =>
      obtain ⟨⟨name, descriptor⟩, typed, same⟩ := Option.bind_eq_some_iff.mp noted
      cases same
      exact ⟨nameAndTypeIndex, here, cpNameAndType_eq_some typed⟩
  | _ => cases noted

theorem note_cp (builder : PoolBuilder) (index : UInt16) (key : Option PoolConstant) :
    (builder.note index key).cp = builder.cp := by
  cases key <;> rfl

theorem sound_note {builder : PoolBuilder} {index : UInt16} {key : Option PoolConstant}
    (sound : Sound builder)
    (found : ∀ constant, key = some constant → Found builder.cp index constant) :
    Sound (builder.note index key) := by
  cases key with
  | none => exact sound
  | some constant =>
      intro key' index' known
      rcases List.mem_append.mp known with old | new
      · exact sound key' index' old
      · obtain ⟨rfl, rfl⟩ := Prod.mk.inj (List.mem_singleton.mp new)
        exact found key' rfl

/-- Noting entries of a pool at their slots keeps the pool and what is noted right. -/
theorem sound_noteEntries {pool : Pool} (small : pool.length ≤ 65536)
    (entries : List (CpInfo × Nat)) (builder : PoolBuilder)
    (inPool : ∀ entry slot, (entry, slot) ∈ entries → pool[slot]? = some entry)
    (same : builder.cp = pool) (sound : Sound builder) :
    let builder' := entries.foldl (fun builder (entry, slot) =>
      builder.note (asU16 slot) (PoolBuilder.keyOf pool (asU16 slot) entry)) builder
    builder'.cp = pool ∧ Sound builder' := by
  induction entries generalizing builder with
  | nil => exact ⟨same, sound⟩
  | cons first entries ih =>
      obtain ⟨entry, slot⟩ := first
      apply ih
      · exact fun entry' slot' member => inPool entry' slot' (List.mem_cons_of_mem _ member)
      · rw [note_cp, same]
      · apply sound_note sound
        intro constant noted
        have here := inPool entry slot List.mem_cons_self
        obtain ⟨inside, -⟩ := List.getElem?_eq_some_iff.mp here
        rw [same]
        apply keyOf_found _ noted
        rw [toNat_asU16, Nat.mod_eq_of_lt (Nat.lt_of_lt_of_le inside small)]
        exact here

/-- The pool a builder starts from stays, and what is noted of it is right. -/
theorem fromPool_sound {pool : Pool} (nonempty : pool ≠ []) (small : pool.length ≤ 65536) :
    (PoolBuilder.fromPool pool).cp = pool ∧ Sound (PoolBuilder.fromPool pool) := by
  have unknown : Sound ⟨pool, []⟩ := by
    intro key index known
    cases known
  have started := sound_noteEntries small pool.zipIdx ⟨pool, []⟩
    (fun entry slot member => List.mk_mem_zipIdx_iff_getElem?.mp member) rfl unknown
  have kept : pool.isEmpty = false := by
    rw [List.isEmpty_eq_false_iff]
    exact nonempty
  unfold PoolBuilder.fromPool
  simp only [kept]
  exact started

/-! ### What a call adds -/

/-- The constants a builder knows. -/
def PoolBuilder.keys (builder : PoolBuilder) : List PoolConstant := builder.known.map Prod.fst

/-- An entry of one slot. -/
def CpInfo.Plain (entry : CpInfo) : Prop := entry ≠ .unusable ∧ entry.wide = false

/-- The constants that come new with one whose parts come before it. -/
def missing (constant : PoolConstant) (parts : List PoolConstant → List PoolConstant)
    (known : List PoolConstant) : List PoolConstant :=
  if constant ∈ known then [] else parts known ++ [constant]

/-- The constants that come new with one and then another. -/
def both (first second : List PoolConstant → List PoolConstant) (known : List PoolConstant) :
    List PoolConstant :=
  first known ++ second (known ++ first known)

/-- There is a slot that a `u16` can tell for every new constant. -/
def Room (builder : PoolBuilder) (new : List PoolConstant) : Prop :=
  new ≠ [] → builder.cp.length + new.length ≤ 65536

/-- One plain entry is added for each new constant, and noted for it. -/
structure Grows (builder : PoolBuilder) (new : List PoolConstant) (builder' : PoolBuilder) :
    Prop where
  cp : ∃ entries, builder'.cp = builder.cp ++ entries ∧ entries.length = new.length ∧
    ∀ entry ∈ entries, entry.Plain
  known : ∃ noted, builder'.known = builder.known ++ noted ∧ noted.map Prod.fst = new
  sound : Room builder new → Sound builder → Sound builder'

theorem Grows.length {builder builder' : PoolBuilder} {new : List PoolConstant}
    (grows : Grows builder new builder') :
    builder'.cp.length = builder.cp.length + new.length := by
  obtain ⟨entries, appended, count, -⟩ := grows.cp
  rw [appended, List.length_append, count]

theorem Grows.keys {builder builder' : PoolBuilder} {new : List PoolConstant}
    (grows : Grows builder new builder') : builder'.keys = builder.keys ++ new := by
  obtain ⟨noted, appended, fresh⟩ := grows.known
  unfold PoolBuilder.keys
  rw [appended, List.map_append, fresh]

/-- What was looked up is looked up again. -/
theorem Grows.lookup {builder builder' : PoolBuilder} {new : List PoolConstant}
    (grows : Grows builder new builder') {key : PoolConstant} {index : UInt16}
    (known : builder.known.lookup key = some index) : builder'.known.lookup key = some index := by
  obtain ⟨noted, appended, -⟩ := grows.known
  rw [appended, List.lookup_append, known, Option.some_or]

theorem grows_refl (builder : PoolBuilder) : Grows builder [] builder where
  cp := ⟨[], by simp⟩
  known := ⟨[], by simp⟩
  sound := fun _ sound => sound

theorem Grows.trans {one two three : PoolBuilder} {new new' : List PoolConstant}
    (first : Grows one new two) (second : Grows two new' three) : Grows one (new ++ new') three where
  cp := by
    obtain ⟨entries, appended, count, plain⟩ := first.cp
    obtain ⟨entries', appended', count', plain'⟩ := second.cp
    refine ⟨entries ++ entries', ?_, ?_, ?_⟩
    · rw [appended', appended, List.append_assoc]
    · simp [count, count']
    · intro entry member
      rcases List.mem_append.mp member with old | late
      · exact plain entry old
      · exact plain' entry late
  known := by
    obtain ⟨noted, appended, fresh⟩ := first.known
    obtain ⟨noted', appended', fresh'⟩ := second.known
    refine ⟨noted ++ noted', ?_, ?_⟩
    · rw [appended', appended, List.append_assoc]
    · rw [List.map_append, fresh, fresh']
  sound := by
    intro room sound
    have whole : new ++ new' ≠ [] → one.cp.length + (new.length + new'.length) ≤ 65536 := by
      intro some_new
      have enough := room some_new
      rwa [List.length_append] at enough
    apply second.sound
    · intro nonempty
      have enough := whole (List.append_ne_nil_of_right_ne_nil new nonempty)
      have grown := first.length
      omega
    · apply first.sound _ sound
      intro nonempty
      have enough := whole (List.append_ne_nil_of_left_ne_nil nonempty new')
      omega

/-- A call that gives the index noted for the constant, with the new constants of `new`. -/
structure Served (constant : PoolConstant) (new : List PoolConstant → List PoolConstant)
    (builder : PoolBuilder) (answer : UInt16 × PoolBuilder) : Prop where
  grows : Grows builder (new builder.keys) answer.2
  known : answer.2.known.lookup constant = some answer.1

theorem mem_of_lookup {known : List (PoolConstant × UInt16)} {key : PoolConstant} {index : UInt16}
    (found : known.lookup key = some index) : (key, index) ∈ known := by
  obtain ⟨before, after, split, -⟩ := List.lookup_eq_some_iff.mp found
  rw [split]
  simp

theorem not_mem_keys_iff {builder : PoolBuilder} {key : PoolConstant} :
    key ∉ builder.keys ↔ builder.known.lookup key = none := by
  rw [List.lookup_eq_none_iff]
  simp only [PoolBuilder.keys, List.mem_map, not_exists, not_and, bne_iff_ne]
  exact ⟨fun absent entry member same => absent entry member same.symm,
    fun absent entry member same => absent entry member same.symm⟩

theorem Served.found {constant : PoolConstant} {new : List PoolConstant → List PoolConstant}
    {builder : PoolBuilder} {answer : UInt16 × PoolBuilder}
    (served : Served constant new builder answer) (sound : Sound answer.2) :
    Found answer.2.cp answer.1 constant :=
  sound constant answer.1 (mem_of_lookup served.known)

/-- A constant not known yet is put behind what its entry refers to. -/
theorem remember_new {key : PoolConstant} {make : PoolBuilder → CpInfo × PoolBuilder}
    {builder : PoolBuilder} (absent : builder.known.lookup key = none) :
    PoolBuilder.remember key make builder =
      (asU16 (make builder).2.cp.length,
        { cp := (make builder).2.cp ++ [(make builder).1]
          known := (make builder).2.known ++ [(key, asU16 (make builder).2.cp.length)] }) := by
  unfold PoolBuilder.remember
  rw [absent]
  rfl

theorem remember_known {key : PoolConstant} {make : PoolBuilder → CpInfo × PoolBuilder}
    {builder : PoolBuilder} {index : UInt16} (known : builder.known.lookup key = some index) :
    PoolBuilder.remember key make builder = (index, builder) := by
  unfold PoolBuilder.remember
  rw [known]

/-- What is asked of the entry that `make` forms: that it is plain and holds the constant, its parts
being right. -/
theorem served_remember {key : PoolConstant} {make : PoolBuilder → CpInfo × PoolBuilder}
    {parts : List PoolConstant → List PoolConstant} {builder : PoolBuilder}
    (grows : Grows builder (parts builder.keys) (make builder).2)
    (plain : (make builder).1.Plain)
    (apart : key ∉ parts builder.keys)
    (found : Sound (make builder).2 → ∀ cp index, (make builder).2.cp <+: cp →
      cp[index.toNat]? = some (make builder).1 → Found cp index key) :
    Served key (missing key parts) builder (PoolBuilder.remember key make builder) := by
  unfold missing
  cases lookup : builder.known.lookup key with
  | some index =>
      have inside : key ∈ builder.keys := by
        apply Decidable.not_not.mp
        intro absent
        rw [not_mem_keys_iff.mp absent] at lookup
        cases lookup
      rw [remember_known lookup]
      refine ⟨?_, lookup⟩
      rw [if_pos inside]
      exact grows_refl builder
  | none =>
      rw [remember_new lookup]
      have absent : (make builder).2.known.lookup key = none := by
        rw [← not_mem_keys_iff, grows.keys, List.mem_append]
        exact fun either => either.elim (not_mem_keys_iff.mpr lookup) apart
      generalize (make builder).1 = entry at *
      generalize (make builder).2 = made at *
      refine ⟨?_, ?_⟩
      · rw [if_neg (not_mem_keys_iff.mpr lookup)]
        apply grows.trans
        refine ⟨⟨[entry], rfl, rfl, ?_⟩, ⟨[(key, _)], rfl, rfl⟩, ?_⟩
        · intro entry' member
          rw [List.mem_singleton.mp member]
          exact plain
        · intro room sound key' index known
          rcases List.mem_append.mp known with old | late
          · exact (sound key' index old).mono (List.prefix_append _ _)
          · obtain ⟨rfl, rfl⟩ := Prod.mk.inj (List.mem_singleton.mp late)
            have enough := room (List.cons_ne_nil _ _)
            rw [List.length_singleton] at enough
            apply found sound _ _ (List.prefix_append _ _)
            rw [toNat_asU16, Nat.mod_eq_of_lt (by omega)]
            simp
      · simp [List.lookup_append, absent]

/-! ### The calls -/

theorem mem_missing {constant key : PoolConstant} {parts : List PoolConstant → List PoolConstant}
    {known : List PoolConstant} (member : key ∈ missing constant parts known) :
    key ∈ parts known ∨ key = constant := by
  unfold missing at member
  split at member
  · cases member
  · simpa using member

def newUtf8 (value : String) : List PoolConstant → List PoolConstant :=
  missing (.utf8 value) fun _ => []

def newOfUtf8 (key : PoolConstant) (value : String) : List PoolConstant → List PoolConstant :=
  missing key (newUtf8 value)

def newNameAndType (name descriptor : String) : List PoolConstant → List PoolConstant :=
  missing (.nameAndType name descriptor) (both (newUtf8 name) (newUtf8 descriptor))

def newRef (kind : RefKind) (owner name descriptor : String) :
    List PoolConstant → List PoolConstant :=
  missing (.ref kind owner name descriptor)
    (both (newOfUtf8 (.named .class_ owner) owner) (newNameAndType name descriptor))

/-- The constants that come new with a request, those it is made of first. -/
def newConstants : PoolConstant → List PoolConstant → List PoolConstant
  | .utf8 value => newUtf8 value
  | .named kind name => newOfUtf8 (.named kind name) name
  | .string value => newOfUtf8 (.string value) value
  | .methodType descriptor => newOfUtf8 (.methodType descriptor) descriptor
  | .nameAndType name descriptor => newNameAndType name descriptor
  | .ref kind owner name descriptor => newRef kind owner name descriptor
  | .methodHandle handle =>
      missing (.methodHandle handle)
        (newRef (PoolBuilder.handleRef handle.referenceKind) handle.owner handle.name
          handle.descriptor)
  | .invokeDynamic bsmIndex name descriptor =>
      missing (.invokeDynamic bsmIndex name descriptor) (newNameAndType name descriptor)
  | number => fun _ => [number]

theorem mem_newUtf8 {value : String} {known : List PoolConstant} {key : PoolConstant}
    (member : key ∈ newUtf8 value known) : key = .utf8 value := by
  rcases mem_missing member with none_ | same
  · cases none_
  · exact same

theorem mem_newNameAndType {name descriptor : String} {known : List PoolConstant}
    {key : PoolConstant} (member : key ∈ newNameAndType name descriptor known) :
    (∃ value, key = .utf8 value) ∨ key = .nameAndType name descriptor := by
  rcases mem_missing member with parts | same
  · rcases List.mem_append.mp parts with first | second
    · exact .inl ⟨_, mem_newUtf8 first⟩
    · exact .inl ⟨_, mem_newUtf8 second⟩
  · exact .inr same

theorem mem_newRef {kind : RefKind} {owner name descriptor : String} {known : List PoolConstant}
    {key : PoolConstant} (member : key ∈ newRef kind owner name descriptor known) :
    (∃ value, key = .utf8 value) ∨ key = .named .class_ owner ∨ key = .nameAndType name descriptor ∨
      key = .ref kind owner name descriptor := by
  rcases mem_missing member with parts | same
  · rcases List.mem_append.mp parts with first | second
    · rcases mem_missing first with value | same
      · exact .inl ⟨_, mem_newUtf8 value⟩
      · exact .inr (.inl same)
    · rcases mem_newNameAndType second with value | same
      · exact .inl value
      · exact .inr (.inr (.inl same))
  · exact .inr (.inr (.inr same))

theorem RefKind.plain_entry (kind : RefKind) (classIndex nameAndTypeIndex : UInt16) :
    (kind.entry classIndex nameAndTypeIndex).Plain := by
  cases kind <;> exact ⟨nofun, rfl⟩

theorem Named.plain_entry (kind : Named) (nameIndex : UInt16) : (kind.entry nameIndex).Plain := by
  cases kind <;> exact ⟨nofun, rfl⟩

theorem served_utf8 (value : String) (builder : PoolBuilder) :
    Served (.utf8 value) (newUtf8 value) builder (builder.utf8 value) :=
  served_remember (grows_refl builder) ⟨nofun, rfl⟩ List.not_mem_nil fun _ _ _ _ here => here

theorem served_ofUtf8 (key : PoolConstant) (entry : UInt16 → CpInfo) (value : String)
    (other : key ≠ .utf8 value) (plain : ∀ index, (entry index).Plain)
    (found : ∀ cp index, ofUtf8At cp entry value index → Found cp index key)
    (builder : PoolBuilder) :
    Served key (newOfUtf8 key value) builder (builder.ofUtf8 key entry value) := by
  have value_served := served_utf8 value builder
  apply served_remember value_served.grows (plain _)
  · exact fun member => other (mem_newUtf8 member)
  · intro sound cp index grown here
    exact found cp index ⟨_, here, utf8At_mono grown (value_served.found sound)⟩

theorem served_named (kind : Named) (name : String) (builder : PoolBuilder) :
    Served (.named kind name) (newOfUtf8 (.named kind name) name) builder
      (builder.named kind name) :=
  served_ofUtf8 (.named kind name) kind.entry name nofun kind.plain_entry (fun _ _ holds => holds)
    builder

theorem served_string (value : String) (builder : PoolBuilder) :
    Served (.string value) (newOfUtf8 (.string value) value) builder (builder.string value) :=
  served_ofUtf8 (.string value) .string value nofun (fun _ => ⟨nofun, rfl⟩)
    (fun _ _ holds => holds) builder

theorem served_methodType (descriptor : String) (builder : PoolBuilder) :
    Served (.methodType descriptor) (newOfUtf8 (.methodType descriptor) descriptor) builder
      (builder.methodType descriptor) :=
  served_ofUtf8 (.methodType descriptor) .methodType descriptor nofun (fun _ => ⟨nofun, rfl⟩)
    (fun _ _ holds => holds) builder

/-- Two calls, one after the other. -/
theorem Served.both {first second : PoolConstant}
    {new new' : List PoolConstant → List PoolConstant} {builder : PoolBuilder}
    {answer answer' : UInt16 × PoolBuilder} (served : Served first new builder answer)
    (served' : Served second new' answer.2 answer') :
    Grows builder (both new new' builder.keys) answer'.2 := by
  have later := served'.grows
  rw [served.grows.keys] at later
  exact served.grows.trans later

theorem served_nameAndType (name descriptor : String) (builder : PoolBuilder) :
    Served (.nameAndType name descriptor) (newNameAndType name descriptor) builder
      (builder.nameAndType name descriptor) := by
  have first := served_utf8 name builder
  have second := served_utf8 descriptor (builder.utf8 name).2
  apply served_remember (first.both second)
  · exact ⟨nofun, rfl⟩
  · intro member
    rcases List.mem_append.mp member with part | part
    · cases mem_newUtf8 part
    · cases mem_newUtf8 part
  · intro sound cp index grown here
    have named := sound _ _ (mem_of_lookup (second.grows.lookup first.known))
    exact ⟨_, _, here, utf8At_mono grown named, utf8At_mono grown (second.found sound)⟩

theorem served_ref (kind : RefKind) (owner name descriptor : String) (builder : PoolBuilder) :
    Served (.ref kind owner name descriptor) (newRef kind owner name descriptor) builder
      (builder.ref kind owner name descriptor) := by
  have first := served_named .class_ owner builder
  have second := served_nameAndType name descriptor (builder.named .class_ owner).2
  apply served_remember (first.both second) (kind.plain_entry _ _)
  · intro member
    rcases List.mem_append.mp member with part | part
    · rcases mem_missing part with value | same
      · cases mem_newUtf8 value
      · cases same
    · rcases mem_newNameAndType part with ⟨value, same⟩ | same <;> cases same
  · intro sound cp index grown here
    have owned := sound _ _ (mem_of_lookup (second.grows.lookup first.known))
    exact ⟨_, _, here, namedAt_mono grown owned, nameAndTypeAt_mono grown (second.found sound)⟩

theorem served_methodHandle (handle : Handle) (builder : PoolBuilder) :
    Served (.methodHandle handle) (newConstants (.methodHandle handle)) builder
      (builder.methodHandle handle) := by
  have served := served_ref (PoolBuilder.handleRef handle.referenceKind) handle.owner handle.name
    handle.descriptor builder
  apply served_remember served.grows
  · exact ⟨nofun, rfl⟩
  · intro member
    rcases mem_newRef member with ⟨value, same⟩ | same | same | same <;> cases same
  · intro sound cp index grown here
    exact ⟨_, _, here, refAt_mono grown (served.found sound)⟩

theorem served_invokeDynamic (bsmIndex : UInt16) (name descriptor : String)
    (builder : PoolBuilder) :
    Served (.invokeDynamic bsmIndex name descriptor)
      (newConstants (.invokeDynamic bsmIndex name descriptor)) builder
      (builder.invokeDynamic bsmIndex name descriptor) := by
  have served := served_nameAndType name descriptor builder
  apply served_remember served.grows
  · exact ⟨nofun, rfl⟩
  · intro member
    rcases mem_newNameAndType member with ⟨value, same⟩ | same <;> cases same
  · intro sound cp index grown here
    exact ⟨_, here, nameAndTypeAt_mono grown (served.found sound)⟩

/-- A constant the builder keeps no map for: every request for it makes a new entry. -/
def PoolConstant.number : PoolConstant → Bool
  | .integer _ | .float _ | .long _ | .double _ => true
  | _ => false

theorem served_request {constant : PoolConstant} (kept : constant.number = false)
    (builder : PoolBuilder) :
    Served constant (newConstants constant) builder (builder.request constant) := by
  cases constant with
  | utf8 value => exact served_utf8 value builder
  | integer | float | long | double => cases kept
  | named kind name => exact served_named kind name builder
  | string value => exact served_string value builder
  | nameAndType name descriptor => exact served_nameAndType name descriptor builder
  | ref kind owner name descriptor => exact served_ref kind owner name descriptor builder
  | methodType descriptor => exact served_methodType descriptor builder
  | methodHandle handle => exact served_methodHandle handle builder
  | invokeDynamic bsmIndex name descriptor =>
      exact served_invokeDynamic bsmIndex name descriptor builder

/-- What a number is put into the pool as. -/
def PoolConstant.entries : PoolConstant → List CpInfo
  | .integer value => [.integer value]
  | .float bits => [.float bits]
  | .long value => [.long value, .unusable]
  | .double bits => [.double bits, .unusable]
  | _ => []

theorem request_number {constant : PoolConstant} (number : constant.number = true)
    (builder : PoolBuilder) :
    builder.request constant =
      (asU16 builder.cp.length, { builder with cp := builder.cp ++ constant.entries }) := by
  cases constant with
  | integer | float => rfl
  | long | double =>
      simp [PoolBuilder.request, PoolBuilder.wide, PoolBuilder.push, PoolConstant.entries]
  | _ => cases number

theorem entries_number {constant : PoolConstant} (number : constant.number = true) :
    0 < constant.entries.length := by
  cases constant with
  | integer | float | long | double => exact Nat.zero_lt_succ _
  | _ => cases number

theorem newConstants_number {constant : PoolConstant} (number : constant.number = true)
    (known : List PoolConstant) : newConstants constant known = [constant] := by
  cases constant with
  | integer | float | long | double => rfl
  | _ => cases number

/-- Entries each of which takes its one or two slots. -/
inductive Blocks : List CpInfo → Prop where
  | nil : Blocks []
  | plain {entry : CpInfo} {entries : List CpInfo} (one : entry.Plain) (rest : Blocks entries) :
      Blocks (entry :: entries)
  | wide {entry : CpInfo} {entries : List CpInfo} (two : entry.wide = true)
      (rest : Blocks entries) : Blocks (entry :: .unusable :: entries)

theorem Blocks.append {entries entries' : List CpInfo} (first : Blocks entries)
    (second : Blocks entries') : Blocks (entries ++ entries') := by
  induction first with
  | nil => exact second
  | plain one _ ih => exact .plain one ih
  | wide two _ ih => exact .wide two ih

theorem blocks_of_plain {entries : List CpInfo} (plain : ∀ entry ∈ entries, entry.Plain) :
    Blocks entries := by
  induction entries with
  | nil => exact .nil
  | cons entry entries ih =>
      exact .plain (plain entry List.mem_cons_self)
        (ih fun entry' member => plain entry' (List.mem_cons_of_mem _ member))

theorem Blocks.wideSlots {entries : List CpInfo} (blocks : Blocks entries) :
    WideSlots (.unusable :: entries) := by
  have apart : entries[0]? ≠ some .unusable ∧ WideSlots entries := by
    induction blocks with
    | nil => exact ⟨nofun, fun slot => by simp⟩
    | @plain entry entries one rest ih =>
        refine ⟨fun same => one.1 (by simpa using same), fun slot => ?_⟩
        cases slot with
        | zero =>
            have notWide := one.2
            simp [ih.1, notWide]
        | succ slot => simpa using ih.2 slot
    | @wide entry entries two rest ih =>
        refine ⟨fun same => ?_, fun slot => ?_⟩
        · rw [show entry = .unusable by simpa using same] at two
          cases two
        · match slot with
          | 0 => simp [two]
          | 1 => simp [ih.1, CpInfo.wide]
          | slot + 2 => simpa using ih.2 slot
  intro slot
  cases slot with
  | zero => simp [apart.1, CpInfo.wide]
  | succ slot => simpa using apart.2 slot

theorem PoolConstant.blocks_entries (constant : PoolConstant) : Blocks constant.entries := by
  cases constant with
  | integer | float => exact .plain ⟨nofun, rfl⟩ .nil
  | long | double => exact .wide rfl .nil
  | _ => exact .nil

/-- The pool after a request: entries are added, which stand, but for second slots, in as many slots
as there are new constants. -/
theorem request_cp (constant : PoolConstant) (builder : PoolBuilder) :
    ∃ entries, (builder.request constant).2.cp = builder.cp ++ entries ∧ Blocks entries ∧
      ∀ slot, (∃ entry, entries[slot]? = some entry ∧ entry ≠ .unusable) ↔
        slot < (newConstants constant builder.keys).length := by
  cases kind : constant.number with
  | false =>
      obtain ⟨entries, appended, count, plain⟩ := (served_request kind builder).grows.cp
      refine ⟨entries, appended, blocks_of_plain plain, fun slot => ?_⟩
      rw [← count]
      constructor
      · intro ⟨entry, here, _⟩
        exact (List.getElem?_eq_some_iff.mp here).1
      · intro inside
        exact ⟨entries[slot], List.getElem?_eq_getElem inside,
          (plain _ (List.getElem_mem inside)).1⟩
  | true =>
      rw [request_number kind, newConstants_number kind]
      refine ⟨constant.entries, rfl, constant.blocks_entries, fun slot => ?_⟩
      cases constant with
      | integer | float | long | double =>
          match slot with
          | 0 | 1 | slot + 2 => simp [PoolConstant.entries]
      | _ => cases kind

theorem request_sound {constant : PoolConstant} {builder : PoolBuilder}
    (room : Room builder (newConstants constant builder.keys)) (sound : Sound builder) :
    Sound (builder.request constant).2 := by
  cases kind : constant.number with
  | false => exact (served_request kind builder).grows.sound room sound
  | true =>
      rw [request_number kind]
      exact fun key index known => (sound key index known).mono (List.prefix_append _ _)

theorem request_lookup {key : PoolConstant} {index : UInt16} (constant : PoolConstant)
    {builder : PoolBuilder} (known : builder.known.lookup key = some index) :
    (builder.request constant).2.known.lookup key = some index := by
  cases kind : constant.number with
  | false => exact (served_request kind builder).grows.lookup known
  | true =>
      rw [request_number kind]
      exact known

/-! ### The slots of a pool -/

/-- No entry stands past the slots that a `u16` can tell. -/
def Within (cp : Pool) : Prop :=
  ∀ slot entry, cp[slot]? = some entry → entry ≠ .unusable → slot < 65536

theorem within_of_grown {cp cp' : Pool} (grown : cp <+: cp') (within : Within cp') : Within cp :=
  fun slot entry here => within slot entry (entry_of_grown grown here)

theorem within_request (constant : PoolConstant) (builder : PoolBuilder) :
    Within (builder.request constant).2.cp ↔
      Within builder.cp ∧ Room builder (newConstants constant builder.keys) := by
  obtain ⟨entries, appended, -, slots⟩ := request_cp constant builder
  generalize newConstants constant builder.keys = new at *
  rw [appended]
  constructor
  · intro within
    refine ⟨within_of_grown (List.prefix_append _ _) within, fun nonempty => ?_⟩
    have positive := List.length_pos_iff.mpr nonempty
    obtain ⟨entry, here, usable⟩ := (slots (new.length - 1)).mpr (by omega)
    have below := within (builder.cp.length + (new.length - 1)) entry
      (by rw [List.getElem?_append_right (by omega), Nat.add_sub_cancel_left]; exact here) usable
    omega
  · intro ⟨within, room⟩ slot entry here usable
    by_cases old : slot < builder.cp.length
    · rw [List.getElem?_append_left old] at here
      exact within slot entry here usable
    · rw [List.getElem?_append_right (Nat.le_of_not_lt old)] at here
      have below := (slots _).mp ⟨entry, here, usable⟩
      have enough := room (List.ne_nil_of_length_pos (Nat.zero_lt_of_lt below))
      omega

/-! ### Handles -/

/-- The kind of reference of a handle. -/
def handleKind (cp : Pool) (index : UInt16) : Option RefKind :=
  match cp[index.toNat]? with
  | some (.methodHandle _ referenceIndex) =>
    match cp[referenceIndex.toNat]? with
    | some (.fieldref _ _) => some .field
    | some (.methodref _ _) => some .method
    | some (.interfaceMethodref _ _) => some .interfaceMethod
    | _ => none
  | _ => none

/-- A handle that is known has the kind of reference it is to have, and so has the one that would be
made. -/
def Fits (builder : PoolBuilder) : PoolConstant → Prop
  | .methodHandle handle =>
    match builder.known.lookup (.methodHandle handle) with
    | some index => handleKind builder.cp index = some (wantedRef handle)
    | none => PoolBuilder.handleRef handle.referenceKind = wantedRef handle
  | _ => True

theorem handleKind_of_handleAt {cp : Pool} {kind : RefKind} {handle : Handle} {index : UInt16}
    (holds : handleAt cp kind handle index) : handleKind cp index = some kind := by
  obtain ⟨referenceIndex, entry, classIndex, nameAndTypeIndex, referred, -⟩ := holds
  unfold handleKind
  rw [entry]
  simp only [referred]
  cases kind <;> rfl

/-- The answer for a handle is one, and of the kind it is to have exactly where it fits. -/
theorem request_handle {handle : Handle} {builder : PoolBuilder}
    (room : Room builder (newConstants (.methodHandle handle) builder.keys))
    (sound : Sound builder) :
    ∃ kind,
      handleAt (builder.methodHandle handle).2.cp kind handle (builder.methodHandle handle).1 ∧
        (Fits builder (.methodHandle handle) ↔ kind = wantedRef handle) := by
  have whole := request_sound room sound
  have served := served_methodHandle handle builder
  cases lookup : builder.known.lookup (.methodHandle handle) with
  | some index =>
      obtain ⟨kind, holds⟩ := sound _ _ (mem_of_lookup lookup)
      have same : builder.methodHandle handle = (index, builder) := remember_known lookup
      rw [same]
      refine ⟨kind, holds, ?_⟩
      simp only [Fits, lookup, handleKind_of_handleAt holds, Option.some.injEq]
  | none =>
      refine ⟨PoolBuilder.handleRef handle.referenceKind, ?_, by simp only [Fits, lookup]⟩
      have ref_served := served_ref (PoolBuilder.handleRef handle.referenceKind) handle.owner
        handle.name handle.descriptor builder
      have made : builder.methodHandle handle =
          let answer := builder.ref (PoolBuilder.handleRef handle.referenceKind) handle.owner
            handle.name handle.descriptor
          (asU16 answer.2.cp.length,
            { cp := answer.2.cp ++ [.methodHandle handle.referenceKind answer.1]
              known := answer.2.known ++ [(.methodHandle handle, asU16 answer.2.cp.length)] }) :=
        remember_new lookup
      have fresh : newConstants (.methodHandle handle) builder.keys ≠ [] := by
        change missing _ _ _ ≠ []
        unfold missing
        rw [if_neg (not_mem_keys_iff.mpr lookup)]
        exact List.append_ne_nil_of_right_ne_nil _ (List.cons_ne_nil _ _)
      have enough := room fresh
      have grown := served.grows.length
      change Sound (builder.methodHandle handle).2 at whole
      rw [made] at whole grown ⊢
      simp only [List.length_append, List.length_singleton] at grown
      refine ⟨_, ?_, whole _ _ (List.mem_append_left _ (mem_of_lookup ref_served.known))⟩
      rw [toNat_asU16, Nat.mod_eq_of_lt (by omega)]
      exact List.getElem?_concat_length

theorem handleAt_kind {cp : Pool} {kind kind' : RefKind} {handle : Handle} {index : UInt16}
    (holds : handleAt cp kind handle index)
    (holds' : handleAt cp kind' handle index) : kind = kind' := by
  have same := handleKind_of_handleAt holds
  rw [handleKind_of_handleAt holds'] at same
  exact (Option.some.inj same).symm

/-- In any later pool the answer denotes the constant exactly where it fits. -/
theorem denoted_request_iff {constant : PoolConstant} {builder : PoolBuilder} {cp : Pool}
    (room : Room builder (newConstants constant builder.keys)) (sound : Sound builder)
    (grown : (builder.request constant).2.cp <+: cp) :
    Denoted cp (builder.request constant).1 constant ↔ Fits builder constant := by
  have found : Found cp (builder.request constant).1 constant := by
    cases kind : constant.number with
    | false =>
        have served := served_request kind builder
        exact (served.found (served.grows.sound room sound)).mono grown
    | true =>
        rw [newConstants_number kind] at room
        rw [request_number kind] at grown ⊢
        have enough := room (List.cons_ne_nil _ _)
        rw [List.length_singleton] at enough
        apply Found.mono grown
        cases constant with
        | integer | float | long | double =>
            change (builder.cp ++ _)[(asU16 builder.cp.length).toNat]? = _
            rw [toNat_asU16, Nat.mod_eq_of_lt (by omega)]
            simp [PoolConstant.entries]
        | _ => cases kind
  unfold Denoted
  cases constant with
  | methodHandle handle =>
      obtain ⟨kind, holds, fits⟩ := request_handle room sound
      have later := handleAt_mono grown holds
      rw [fits]
      constructor
      · intro denoted
        exact handleAt_kind later (denoted.2 handle rfl)
      · intro same
        refine ⟨found, fun handle' isHandle => ?_⟩
        obtain rfl := PoolConstant.methodHandle.inj isHandle
        rw [← same]
        exact later
  | _ => exact ⟨fun _ => trivial, fun _ => ⟨found, nofun⟩⟩

/-! ### Runs -/

/-- The condition on a run: at every step there is room for the constants that come new, a handle
fits, and a number is not asked for again. -/
def Meets : List PoolConstant → PoolBuilder → Prop
  | [], _ => True
  | constant :: constants, builder =>
    Room builder (newConstants constant builder.keys) ∧ Fits builder constant ∧
      (constant.number = true → constant ∉ constants) ∧
      Meets constants (builder.request constant).2

/-- What a run of the builder is to keep: every index denotes its constant in the final pool, what is
in a pool stays where it is, a long or double is followed by exactly one unusable slot, equal
requests have equal answers, and no entry stands past the slots that a `u16` can tell. -/
structure Kept (builder : PoolBuilder) (constants : List PoolConstant) : Prop where
  denoted : List.Forall₂ (Denoted (builder.requests constants).2.cp)
    (builder.requests constants).1 constants
  stays : ∀ before after, before ++ after = constants →
    (builder.requests before).2.cp <+: (builder.requests constants).2.cp
  wideSlots : WideSlots (builder.requests constants).2.cp
  equal : ∀ i j : Nat, constants[i]? = constants[j]? →
    (builder.requests constants).1[i]? = (builder.requests constants).1[j]?
  within : Within (builder.requests constants).2.cp

theorem prefix_request (constant : PoolConstant) (builder : PoolBuilder) :
    builder.cp <+: (builder.request constant).2.cp := by
  obtain ⟨entries, appended, -⟩ := request_cp constant builder
  exact ⟨entries, appended.symm⟩

theorem prefix_requests (constants : List PoolConstant) (builder : PoolBuilder) :
    builder.cp <+: (builder.requests constants).2.cp := by
  induction constants generalizing builder with
  | nil => exact List.prefix_refl _
  | cons constant constants ih => exact (prefix_request constant builder).trans (ih _)

/-- A constant that is known is answered with its index whenever it is asked for. -/
theorem requests_known {constant : PoolConstant} {index : UInt16} (kept : constant.number = false)
    (constants : List PoolConstant) {builder : PoolBuilder}
    (known : builder.known.lookup constant = some index) {i : Nat}
    (asked : constants[i]? = some constant) : (builder.requests constants).1[i]? = some index := by
  induction constants generalizing builder i with
  | nil => cases asked
  | cons first constants ih =>
      cases i with
      | zero =>
          obtain rfl : first = constant := by simpa using asked
          have again := (served_request kept builder).known
          rw [request_lookup first known] at again
          exact again.symm
      | succ i => exact ih (request_lookup first known) (by simpa using asked)

theorem requests_lookup {key : PoolConstant} {index : UInt16} (constants : List PoolConstant)
    {builder : PoolBuilder} (known : builder.known.lookup key = some index) :
    (builder.requests constants).2.known.lookup key = some index := by
  induction constants generalizing builder with
  | nil => exact known
  | cons first constants ih => exact ih (request_lookup first known)

theorem request_known {constant : PoolConstant} {index : UInt16} {builder : PoolBuilder}
    (known : builder.known.lookup constant = some index) (kept : constant.number = false) :
    builder.request constant = (index, builder) := by
  cases constant with
  | integer | float | long | double => cases kept
  | _ => simp only [PoolBuilder.request, PoolBuilder.utf8, PoolBuilder.named, PoolBuilder.string,
      PoolBuilder.nameAndType, PoolBuilder.ref, PoolBuilder.methodType, PoolBuilder.methodHandle,
      PoolBuilder.invokeDynamic, PoolBuilder.ofUtf8, remember_known known]

/-- Asked for again after any other calls, a constant keeps its index and the pool its entries; but a
number is entered each time. -/
theorem request_again_iff (builder : PoolBuilder) (constant : PoolConstant)
    (between : List PoolConstant) :
    ((builder.request constant).2.requests between).2.request constant =
        ((builder.request constant).1, ((builder.request constant).2.requests between).2) ↔
      constant.number = false := by
  constructor
  · intro same
    cases kind : constant.number with
    | false => rfl
    | true =>
        rw [request_number kind] at same
        have entered : constant.entries = [] := by simpa using congrArg (·.2.cp) same
        exact absurd (entries_number kind) (by simp [entered])
  · intro kept
    have known := requests_lookup between (served_request kept builder).known
    exact request_known known kept

/-- A number is put behind all that is there when it is asked for. -/
theorem requests_number {number : PoolConstant} (isNumber : number.number = true)
    (constants : List PoolConstant) {builder : PoolBuilder}
    (within : Within (builder.requests constants).2.cp) {i : Nat}
    (asked : constants[i]? = some number) :
    ∃ index, (builder.requests constants).1[i]? = some index ∧ builder.cp.length ≤ index.toNat := by
  induction constants generalizing builder i with
  | nil => cases asked
  | cons first constants ih =>
      cases i with
      | zero =>
          obtain rfl : first = number := by simpa using asked
          refine ⟨(builder.request first).1, rfl, ?_⟩
          have roomy := ((within_request first builder).mp
            (within_of_grown (prefix_requests constants _) within)).2
          rw [newConstants_number isNumber] at roomy
          have enough := roomy (List.cons_ne_nil _ _)
          rw [List.length_singleton] at enough
          apply Nat.le_of_eq
          rw [request_number isNumber, toNat_asU16, Nat.mod_eq_of_lt (by omega)]
      | succ i =>
          obtain ⟨index, answered, later⟩ := ih within (by simpa using asked)
          exact ⟨index, answered, Nat.le_trans (prefix_request first builder).length_le later⟩

/-- The condition on a run is exactly what it takes. -/
theorem kept_iff_meets {builder : PoolBuilder} {entries : List CpInfo}
    (started : builder.cp = .unusable :: entries) (blocks : Blocks entries)
    (within : Within builder.cp) (sound : Sound builder) (constants : List PoolConstant) :
    Kept builder constants ↔ Meets constants builder := by
  induction constants generalizing builder entries with
  | nil =>
      refine ⟨fun _ => trivial, fun _ => ⟨.nil, ?_, ?_, fun _ _ _ => rfl, within⟩⟩
      · intro before after whole
        obtain ⟨rfl, -⟩ := List.append_eq_nil_iff.mp whole
        exact List.prefix_refl _
      · change WideSlots builder.cp
        rw [started]
        exact blocks.wideSlots
  | cons constant constants ih =>
      obtain ⟨added, appended, whole, -⟩ := request_cp constant builder
      rw [started] at appended
      have grown := prefix_requests constants (builder.request constant).2
      constructor
      · intro kept
        have roomy := (within_request constant builder).mp (within_of_grown grown kept.within)
        have sound' := request_sound roomy.2 sound
        obtain ⟨head, tail⟩ := List.forall₂_cons.mp kept.denoted
        refine ⟨roomy.2, (denoted_request_iff roomy.2 sound grown).mp head, ?_, ?_⟩
        · intro isNumber member
          obtain ⟨i, asked⟩ := List.mem_iff_getElem?.mp member
          have behind : ∃ index, ((builder.request constant).2.requests constants).1[i]? = some index ∧
              (builder.request constant).2.cp.length ≤ index.toNat :=
            requests_number isNumber constants kept.within asked
          obtain ⟨index, answered, later⟩ := behind
          have same := kept.equal 0 (i + 1) asked.symm
          have first : (builder.requests (constant :: constants)).1[i + 1]? = some index := answered
          rw [first] at same
          obtain rfl : (builder.request constant).1 = index := Option.some.inj same
          have enough := roomy.2
          rw [newConstants_number isNumber] at enough
          have below := enough (List.cons_ne_nil _ _)
          rw [List.length_singleton] at below
          rw [request_number isNumber, toNat_asU16, Nat.mod_eq_of_lt (by omega)] at later
          have grew := entries_number isNumber
          rw [List.length_append] at later
          omega
        · apply (ih appended (blocks.append whole) _ sound').mp
          · have stays : ∀ before after, before ++ after = constants → _ := fun before after split =>
              kept.stays (constant :: before) after (by rw [List.cons_append, split])
            exact ⟨tail, stays, kept.wideSlots, fun i j same => kept.equal (i + 1) (j + 1) same,
              kept.within⟩
          · exact within_of_grown grown kept.within
      · intro ⟨room, fits, fresh, meets⟩
        have within' := (within_request constant builder).mpr ⟨within, room⟩
        have kept := (ih appended (blocks.append whole) within' (request_sound room sound)).mpr meets
        -- the first request against a later one for the same constant
        have again : ∀ i : Nat, constants[i]? = some constant →
            ((builder.request constant).2.requests constants).1[i]? =
              some (builder.request constant).1 := by
          intro i asked
          have kind : constant.number = false := by
            apply Bool.eq_false_iff.mpr
            exact fun isNumber => fresh isNumber (List.mem_of_getElem? asked)
          exact requests_known kind constants (served_request kind builder).known asked
        refine ⟨.cons ((denoted_request_iff room sound grown).mpr fits) kept.denoted, ?_,
          kept.wideSlots, ?_, kept.within⟩
        · intro before after split
          cases before with
          | nil => exact prefix_requests (constant :: constants) builder
          | cons first before =>
              obtain ⟨rfl, rest⟩ := List.cons.inj split
              exact kept.stays before after rest
        · intro i j same
          cases i with
          | zero =>
              cases j with
              | zero => rfl
              | succ j => exact (again j same.symm).symm
          | succ i =>
              cases j with
              | zero => exact again i same
              | succ j => exact kept.equal i j same

/-! ### The pool of a class file -/

open ByteReader

/-- What an entry read behind its tag is like. -/
def Tagged (tag : UInt8) (entry : CpInfo) : Prop :=
  entry ≠ .unusable ∧ (entry.wide = true ↔ tag = 5 ∨ tag = 6)

theorem tagged_plain {tag : UInt8} {entry : CpInfo} (plain : entry.Plain) (not5 : tag.toNat ≠ 5)
    (not6 : tag.toNat ≠ 6) : Tagged tag entry := by
  refine ⟨plain.1, ?_⟩
  rw [plain.2]
  constructor
  · nofun
  · rintro (rfl | rfl)
    · exact absurd rfl not5
    · exact absurd rfl not6

theorem tagged_wide {tag : UInt8} {entry : CpInfo} (wide : entry.wide = true)
    (either : tag.toNat = 5 ∨ tag.toNat = 6) : Tagged tag entry := by
  constructor
  · rintro rfl
    cases wide
  · refine ⟨fun _ => ?_, fun _ => wide⟩
    rcases either with five | six
    · exact .inl (UInt8.toNat_inj.mp five)
    · exact .inr (UInt8.toNat_inj.mp six)

/-- A long or double is read behind the tag of one. -/
theorem yields_cpInfo (tag : UInt8) : Yields (readCpInfo tag) (Tagged tag) := by
  unfold readCpInfo
  split
  · apply yields_then
    intro len
    apply yields_then
    intro bs
    apply yields_then
    intro value
    exact yields_pure (tagged_plain ⟨nofun, rfl⟩ (by omega) (by omega))
  · exact yields_then fun _ => yields_pure (tagged_plain ⟨nofun, rfl⟩ (by omega) (by omega))
  · exact yields_then fun _ => yields_pure (tagged_plain ⟨nofun, rfl⟩ (by omega) (by omega))
  · exact yields_then fun _ => yields_pure (tagged_wide rfl (by omega))
  · exact yields_then fun _ => yields_pure (tagged_wide rfl (by omega))
  · exact yields_then fun _ => yields_pure (tagged_plain ⟨nofun, rfl⟩ (by omega) (by omega))
  · exact yields_then fun _ => yields_pure (tagged_plain ⟨nofun, rfl⟩ (by omega) (by omega))
  · exact yields_then fun _ => yields_then fun _ =>
      yields_pure (tagged_plain ⟨nofun, rfl⟩ (by omega) (by omega))
  · exact yields_then fun _ => yields_then fun _ =>
      yields_pure (tagged_plain ⟨nofun, rfl⟩ (by omega) (by omega))
  · exact yields_then fun _ => yields_then fun _ =>
      yields_pure (tagged_plain ⟨nofun, rfl⟩ (by omega) (by omega))
  · exact yields_then fun _ => yields_then fun _ =>
      yields_pure (tagged_plain ⟨nofun, rfl⟩ (by omega) (by omega))
  · exact yields_then fun _ => yields_then fun _ =>
      yields_pure (tagged_plain ⟨nofun, rfl⟩ (by omega) (by omega))
  · exact yields_then fun _ => yields_pure (tagged_plain ⟨nofun, rfl⟩ (by omega) (by omega))
  · exact yields_then fun _ => yields_then fun _ =>
      yields_pure (tagged_plain ⟨nofun, rfl⟩ (by omega) (by omega))
  · exact yields_then fun _ => yields_then fun _ =>
      yields_pure (tagged_plain ⟨nofun, rfl⟩ (by omega) (by omega))
  · exact yields_then fun _ => yields_pure (tagged_plain ⟨nofun, rfl⟩ (by omega) (by omega))
  · exact yields_then fun _ => yields_pure (tagged_plain ⟨nofun, rfl⟩ (by omega) (by omega))
  · exact yields_fail

/-- The entries fill the slots they are read for; only a second slot may stand past them. -/
theorem yields_entries (left : Nat) :
    Yields (readEntries left) fun entries =>
      Blocks entries ∧ entries.length ≤ left + 1 ∧ (left = 0 → entries = []) := by
  induction left using Nat.strongRecOn with
  | ind left ih =>
      cases left with
      | zero =>
          rw [readEntries]
          exact yields_pure ⟨.nil, Nat.zero_le _, fun _ => rfl⟩
      | succ left =>
          rw [readEntries]
          apply yields_then
          intro tag
          refine yields_bind (yields_cpInfo tag) fun entry tagged => ?_
          by_cases wide : tag = 5 ∨ tag = 6
          · rw [if_pos wide]
            refine yields_bind (ih (left - 1) (by omega)) ?_
            rintro entries ⟨blocks, count, none_⟩
            refine yields_pure ⟨.wide (tagged.2.mpr wide) blocks, ?_, by simp⟩
            simp only [List.length_cons]
            cases left with
            | zero =>
                rw [none_ rfl]
                decide
            | succ left =>
                rw [Nat.add_sub_cancel] at count
                omega
          · rw [if_neg wide]
            refine yields_bind (ih left (by omega)) ?_
            rintro entries ⟨blocks, count, -⟩
            have one : entry.Plain :=
              ⟨tagged.1, Bool.eq_false_iff.mpr fun two => wide (tagged.2.mp two)⟩
            exact yields_pure ⟨.plain one blocks, Nat.succ_le_succ count, by simp⟩

/-- Over every run on the pool of a class file, the builder keeps what it is to keep exactly where
the condition is met at every step. -/
theorem readPool_kept_iff {count : UInt16} {input input' : Input} {pool : Pool}
    (read : Accepts (readPool count.toNat) input pool input') (constants : List PoolConstant) :
    Kept (PoolBuilder.fromPool pool) constants ↔ Meets constants (PoolBuilder.fromPool pool) := by
  have whole : Yields (readPool count.toNat) fun pool =>
      ∃ entries, pool = .unusable :: entries ∧ Blocks entries ∧
        entries.length ≤ count.toNat - 1 + 1 ∧ (count.toNat - 1 = 0 → entries = []) :=
    yields_bind (yields_entries _) fun entries facts => yields_pure ⟨entries, rfl, facts⟩
  obtain ⟨entries, rfl, blocks, length, none_⟩ := whole _ _ _ read
  have below := UInt16.toNat_lt count
  have small : (CpInfo.unusable :: entries).length ≤ 65536 := by
    rw [List.length_cons]
    by_cases first : count.toNat - 1 = 0
    · simp [none_ first]
    · omega
  obtain ⟨same, sound⟩ := fromPool_sound (List.cons_ne_nil _ _) small
  apply kept_iff_meets same blocks _ sound
  rw [same]
  intro slot entry here _
  exact Nat.lt_of_lt_of_le (List.getElem?_eq_some_iff.mp here).1 small

theorem accepts_noConstants : Accepts (readPool (1 : UInt16).toNat) ⟨0, []⟩ [.unusable] ⟨0, []⟩ := by
  apply accepts_bind.mpr
  refine ⟨[], ⟨0, []⟩, ?_, accepts_pure.mpr ⟨rfl, rfl⟩⟩
  change Accepts (readEntries 0) _ _ _
  rw [readEntries]
  exact accepts_pure.mpr ⟨rfl, rfl⟩

/-- A class file without constants, and a handle of a static method, a long and a string asked for. -/
theorem staticHandle_kept :
    Kept (PoolBuilder.fromPool [.unusable])
      [.methodHandle ⟨6, "A", "m", "()V", false⟩, .long 5, .string "A"] :=
  (readPool_kept_iff accepts_noConstants _).mpr
    ⟨fun _ => by decide +kernel, by rfl, nofun, fun _ => by decide +kernel, trivial, by decide,
      fun _ => by decide, trivial, nofun, trivial⟩

/-- The handle of a static method of an interface refers to a method of a class. -/
theorem interfaceHandle_not_kept :
    ¬ ∀ (count : UInt16) (input input' : Input) (pool : Pool) (constants : List PoolConstant),
      Accepts (readPool count.toNat) input pool input' →
        Kept (PoolBuilder.fromPool pool) constants := by
  intro all
  have kept := all 1 _ _ _ [.methodHandle ⟨6, "A", "m", "()V", true⟩] accepts_noConstants
  obtain ⟨denoted, -⟩ := List.forall₂_cons.mp kept.denoted
  have kind := handleKind_of_handleAt (denoted.2 _ rfl)
  exact absurd kind (by decide)

end CaffeineLs.RustAsm
