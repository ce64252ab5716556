/-
Module: CaffeineLs.Proofs.PoolClosure
Purpose: When the indexes that the class writer hands out still denote, in the pool as it was written,
  what they were handed out for.
Trusted boundary: none
Main exports: Slot, Denotes, denotes_iff
-/
import CaffeineLs.RustAsm.ClassWriter

namespace CaffeineLs.RustAsm

/-! ### Slots and indexes -/

/-- A slot that the pool is written with: below the count, which is cut to 16 bits, and not 0. -/
def Slot (cp : Pool) (slot : Nat) : Prop := 0 < slot ∧ slot < (asU16 cp.length).toNat

/-- An index into the written pool that denotes the constant, the name of a class included. -/
def Denotes (cp : Pool) (index : UInt16) : Constant → Prop
  | .utf8 value => Slot cp index.toNat ∧ cpUtf8 cp index = some value
  | .class_ name =>
      Slot cp index.toNat ∧ ∃ nameIndex, cp[index.toNat]? = some (.class_ nameIndex) ∧
        Slot cp nameIndex.toNat ∧ cpUtf8 cp nameIndex = some name

theorem toNat_asU16 (n : Nat) : (asU16 n).toNat = n % 65536 := by
  simp [asU16]

theorem Slot.lt_length {cp : Pool} {slot : Nat} (written : Slot cp slot) : slot < cp.length := by
  have below := written.2
  rw [toNat_asU16] at below
  exact Nat.lt_of_lt_of_le below (Nat.mod_le _ _)

theorem Slot.lt_size {cp : Pool} {slot : Nat} (written : Slot cp slot) : slot < 65536 :=
  Nat.lt_trans written.2 (UInt16.toNat_lt _)

theorem cpUtf8_eq_some {cp : Pool} {index : UInt16} {value : String} :
    cpUtf8 cp index = some value ↔ cp[index.toNat]? = some (.utf8 value) := by
  unfold cpUtf8
  cases entry : cp[index.toNat]? with
  | none => simp
  | some found => cases found <;> simp

/-- Two pools of which one continues the other. -/
def Along (p q : Pool) : Prop := p <+: q ∨ q <+: p

theorem Along.get {p q : Pool} (along : Along p q) {i : Nat} (inP : i < p.length)
    (inQ : i < q.length) : p[i]? = q[i]? := by
  rcases along with ⟨rest, rfl⟩ | ⟨rest, rfl⟩
  · rw [List.getElem?_append_left inP]
  · rw [List.getElem?_append_left inQ]

/-! ### Strings -/

/-- How `ensure_utf8` leaves the pool: it finds the string, or puts it at the end. -/
theorem ensureUtf8_cases (cp : Pool) (value : String) :
    (utf8Slot cp value < cp.length ∧ (ensureUtf8 cp value).2 = cp) ∨
      (utf8Slot cp value = cp.length ∧ (ensureUtf8 cp value).2 = cp ++ [.utf8 value]) := by
  unfold utf8Slot ensureUtf8 findOrPush
  cases found : cp.findIdx? (· == .utf8 value) with
  | some slot =>
      obtain ⟨inside, -⟩ := List.findIdx?_eq_some_iff_getElem.mp found
      exact .inl ⟨inside, rfl⟩
  | none => exact .inr ⟨rfl, rfl⟩

theorem ensureUtf8_index (cp : Pool) (value : String) :
    (ensureUtf8 cp value).1 = asU16 (utf8Slot cp value) := by
  unfold utf8Slot ensureUtf8 findOrPush
  cases cp.findIdx? (· == .utf8 value) <;> rfl

theorem prefix_ensureUtf8 (cp : Pool) (value : String) : cp <+: (ensureUtf8 cp value).2 := by
  rcases ensureUtf8_cases cp value with ⟨-, same⟩ | ⟨-, pushed⟩
  · simp only [same, List.prefix_refl]
  · rw [pushed]
    exact List.prefix_append cp _

theorem utf8Slot_lt (cp : Pool) (value : String) :
    utf8Slot cp value < (ensureUtf8 cp value).2.length := by
  rcases ensureUtf8_cases cp value with ⟨inside, same⟩ | ⟨slot, pushed⟩
  · rw [same]
    exact inside
  · rw [slot, pushed]
    simp

theorem length_ensureUtf8_le (cp : Pool) (value : String) :
    (ensureUtf8 cp value).2.length ≤ cp.length + 1 := by
  rcases ensureUtf8_cases cp value with ⟨-, same⟩ | ⟨-, pushed⟩
  · rw [same]
    exact Nat.le_succ _
  · rw [pushed]
    simp

theorem ensureUtf8_get (cp : Pool) (value : String) :
    (ensureUtf8 cp value).2[utf8Slot cp value]? = some (.utf8 value) := by
  unfold utf8Slot ensureUtf8 findOrPush
  cases found : cp.findIdx? (· == .utf8 value) with
  | some slot =>
      obtain ⟨inside, is_value, -⟩ := List.findIdx?_eq_some_iff_getElem.mp found
      simp only [Option.getD_some, List.getElem?_eq_getElem inside]
      rw [eq_of_beq is_value]
  | none => simp [pushEntry]

/-- The slot of a string is the first that holds it. -/
theorem utf8Slot_first {cp : Pool} {value : String} {slot : Nat}
    (holds : (ensureUtf8 cp value).2[slot]? = some (.utf8 value)) : utf8Slot cp value ≤ slot := by
  apply Nat.le_of_not_lt
  intro before
  have within : slot < cp.length := by
    rcases ensureUtf8_cases cp value with ⟨inside, -⟩ | ⟨atEnd, -⟩ <;> omega
  have in_cp : cp[slot]? = some (.utf8 value) := by
    obtain ⟨rest, appended⟩ := prefix_ensureUtf8 cp value
    rw [← appended, List.getElem?_append_left within] at holds
    exact holds
  have here : cp[slot] = .utf8 value := by
    rw [List.getElem?_eq_getElem within] at in_cp
    exact Option.some.inj in_cp
  unfold utf8Slot at before
  cases found : cp.findIdx? (· == .utf8 value) with
  | some first =>
      obtain ⟨_, -, none_before⟩ := List.findIdx?_eq_some_iff_getElem.mp found
      rw [found] at before
      exact none_before slot before (by rw [here, beq_self_eq_true])
  | none =>
      have absent := List.findIdx?_eq_none_iff.mp found cp[slot] (List.getElem_mem within)
      rw [here, beq_self_eq_true] at absent
      cases absent

/-- An index handed out for a string denotes it exactly when the slot of the string is written. -/
theorem denotes_utf8_iff {cp written : Pool} {value : String}
    (along : Along (ensureUtf8 cp value).2 written) :
    Denotes written (ensureUtf8 cp value).1 (.utf8 value) ↔ Slot written (utf8Slot cp value) := by
  have inside := utf8Slot_lt cp value
  constructor
  · rintro ⟨slot, holds⟩
    rw [ensureUtf8_index, toNat_asU16] at slot
    rw [cpUtf8_eq_some, ensureUtf8_index, toNat_asU16] at holds
    have low := Nat.mod_le (utf8Slot cp value) 65536
    have same := along.get (Nat.lt_of_le_of_lt low inside) slot.lt_length
    have first := utf8Slot_first (same.trans holds)
    rwa [Nat.le_antisymm low first] at slot
  · intro slot
    have index : (ensureUtf8 cp value).1.toNat = utf8Slot cp value := by
      rw [ensureUtf8_index, toNat_asU16, Nat.mod_eq_of_lt slot.lt_size]
    constructor
    · rwa [index]
    · rw [cpUtf8_eq_some, index, ← along.get inside slot.lt_length]
      exact ensureUtf8_get cp value

/-! ### Classes -/

theorem class_names_iff {cp : Pool} {name : String} {entry : CpInfo} :
    Named.class_.names cp name entry = true ↔
      ∃ nameIndex, entry = .class_ nameIndex ∧ cpUtf8 cp nameIndex = some name := by
  cases entry <;> simp [Named.names, Named.nameIndex]

/-- How `ensure_class` leaves the pool: it finds the class and its name, or puts the class behind
where `ensure_utf8` finds or puts the name. -/
theorem ensureClass_cases (cp : Pool) (name : String) :
    (∃ slot nameIndex, cp.findIdx? (Named.class_.names cp name) = some slot ∧
        cp[slot]? = some (.class_ nameIndex) ∧ cpUtf8 cp nameIndex = some name ∧
        ensureClass cp name = (asU16 slot, cp) ∧ classSlots cp name = [slot, nameIndex.toNat]) ∨
      (cp.findIdx? (Named.class_.names cp name) = none ∧
        ensureClass cp name = (asU16 (ensureUtf8 cp name).2.length,
          (ensureUtf8 cp name).2 ++ [.class_ (ensureUtf8 cp name).1]) ∧
        classSlots cp name = [(ensureUtf8 cp name).2.length, utf8Slot cp name]) := by
  unfold ensureClass ensureNamed classSlots
  cases found : cp.findIdx? (Named.class_.names cp name) with
  | none => exact .inr ⟨rfl, rfl, rfl⟩
  | some slot =>
      obtain ⟨inside, is_class, -⟩ := List.findIdx?_eq_some_iff_getElem.mp found
      obtain ⟨nameIndex, entry, holds⟩ := class_names_iff.mp is_class
      have here : cp[slot]? = some (.class_ nameIndex) := by
        rw [List.getElem?_eq_getElem inside, entry]
      refine .inl ⟨slot, nameIndex, rfl, here, holds, rfl, ?_⟩
      simp [here, Named.nameIndex]

theorem prefix_ensureClass (cp : Pool) (name : String) : cp <+: (ensureClass cp name).2 := by
  rcases ensureClass_cases cp name with ⟨slot, nameIndex, -, -, -, same, -⟩ | ⟨-, pushed, -⟩
  · simp only [same, List.prefix_refl]
  · rw [pushed]
    exact (prefix_ensureUtf8 cp name).trans (List.prefix_append _ _)

/-- The slot of a class found in the pool is the first that holds it. -/
theorem class_first {cp : Pool} {name : String} {first slot : Nat} {nameIndex : UInt16}
    (found : cp.findIdx? (Named.class_.names cp name) = some first)
    (entry : cp[slot]? = some (.class_ nameIndex)) (holds : cpUtf8 cp nameIndex = some name) :
    first ≤ slot := by
  apply Nat.le_of_not_lt
  intro before
  obtain ⟨inside, -, none_before⟩ := List.findIdx?_eq_some_iff_getElem.mp found
  have within := Nat.lt_trans before inside
  rw [List.getElem?_eq_getElem within] at entry
  exact none_before slot before (class_names_iff.mpr ⟨nameIndex, Option.some.inj entry, holds⟩)

theorem class_absent {cp : Pool} {name : String} {slot : Nat} {nameIndex : UInt16}
    (absent : cp.findIdx? (Named.class_.names cp name) = none)
    (entry : cp[slot]? = some (.class_ nameIndex)) : cpUtf8 cp nameIndex ≠ some name := by
  intro holds
  have no_match := List.findIdx?_eq_none_iff.mp absent _ (List.mem_of_getElem? entry)
  rw [class_names_iff.mpr ⟨nameIndex, rfl, holds⟩] at no_match
  cases no_match

/-- The index of a class that was found. An index that lost its high bits stands before the slot of
the class, and cannot hold the class again. -/
theorem denotes_found_class_iff {cp written : Pool} {name : String} {slot : Nat}
    {nameIndex : UInt16} (found : cp.findIdx? (Named.class_.names cp name) = some slot)
    (entry : cp[slot]? = some (.class_ nameIndex)) (holds : cpUtf8 cp nameIndex = some name)
    (along : Along cp written) :
    Denotes written (asU16 slot) (.class_ name) ↔
      Slot written slot ∧ Slot written nameIndex.toNat := by
  obtain ⟨inside, -⟩ := List.getElem?_eq_some_iff.mp entry
  obtain ⟨nameInside, -⟩ := List.getElem?_eq_some_iff.mp (cpUtf8_eq_some.mp holds)
  simp only [Denotes, toNat_asU16]
  constructor
  · rintro ⟨slotWritten, other, otherEntry, nameWritten, otherHolds⟩
    have low := Nat.mod_le slot 65536
    have otherHere := (along.get (Nat.lt_of_le_of_lt low inside) slotWritten.lt_length).trans otherEntry
    by_cases small : slot < 65536
    · rw [Nat.mod_eq_of_lt small] at slotWritten otherHere
      rw [entry] at otherHere
      obtain rfl := CpInfo.class_.inj (Option.some.inj otherHere)
      exact ⟨slotWritten, nameWritten⟩
    · have big : 65536 ≤ slot := Nat.le_of_not_lt small
      have size := UInt16.toNat_lt other
      have otherName : cpUtf8 cp other = some name := by
        rw [cpUtf8_eq_some] at otherHolds ⊢
        exact (along.get (by omega) nameWritten.lt_length).trans otherHolds
      have before := class_first found otherHere otherName
      omega
  · rintro ⟨slotWritten, nameWritten⟩
    rw [Nat.mod_eq_of_lt slotWritten.lt_size]
    refine ⟨slotWritten, nameIndex, ?_, nameWritten, ?_⟩
    · rw [← along.get inside slotWritten.lt_length]
      exact entry
    · rw [cpUtf8_eq_some] at holds ⊢
      rw [← along.get nameInside nameWritten.lt_length]
      exact holds

/-- The index of a class put at the end of the pool, behind its name. -/
theorem denotes_pushed_class_iff {cp written : Pool} {name : String}
    (absent : cp.findIdx? (Named.class_.names cp name) = none)
    (along : Along ((ensureUtf8 cp name).2 ++ [.class_ (ensureUtf8 cp name).1]) written) :
    Denotes written (asU16 (ensureUtf8 cp name).2.length) (.class_ name) ↔
      Slot written (ensureUtf8 cp name).2.length ∧ Slot written (utf8Slot cp name) := by
  have nameInside := utf8Slot_lt cp name
  have grown := length_ensureUtf8_le cp name
  have nameHere := ensureUtf8_get cp name
  have nameIs := ensureUtf8_index cp name
  have old_get : ∀ {i : Nat}, i < cp.length → (ensureUtf8 cp name).2[i]? = cp[i]? := by
    intro i inside
    obtain ⟨rest, appended⟩ := prefix_ensureUtf8 cp name
    rw [← appended, List.getElem?_append_left inside]
  generalize (ensureUtf8 cp name).2 = named at *
  generalize (ensureUtf8 cp name).1 = nameIndex at *
  have named_get : ∀ {i : Nat}, i < named.length → i < written.length → named[i]? = written[i]? := by
    intro i inNamed inWritten
    rw [← along.get (by simp; omega) inWritten, List.getElem?_append_left inNamed]
  simp only [Denotes, toNat_asU16]
  constructor
  · rintro ⟨slotWritten, other, otherEntry, nameWritten, otherHolds⟩
    have size := UInt16.toNat_lt other
    rw [cpUtf8_eq_some] at otherHolds
    by_cases small : named.length < 65536
    · rw [Nat.mod_eq_of_lt small] at slotWritten otherEntry
      rw [← along.get (by simp) slotWritten.lt_length] at otherEntry
      have same : other = nameIndex := by simpa using otherEntry.symm
      rw [same, nameIs, toNat_asU16, Nat.mod_eq_of_lt (by omega)] at nameWritten
      exact ⟨slotWritten, nameWritten⟩
    · -- the name stands below the class, so a class before it would have been found
      have otherName := (named_get (by omega) nameWritten.lt_length).trans otherHolds
      have otherHere := (named_get (by omega) slotWritten.lt_length).trans otherEntry
      have positive := slotWritten.1
      exfalso
      by_cases entryOld : named.length % 65536 < cp.length
      · rw [old_get entryOld] at otherHere
        by_cases nameOld : other.toNat < cp.length
        · rw [old_get nameOld] at otherName
          exact class_absent absent otherHere (cpUtf8_eq_some.mpr otherName)
        · omega
      · omega
  · rintro ⟨slotWritten, nameWritten⟩
    have small := slotWritten.lt_size
    have nameSlot : nameIndex.toNat = utf8Slot cp name := by
      rw [nameIs, toNat_asU16, Nat.mod_eq_of_lt (by omega)]
    rw [Nat.mod_eq_of_lt small]
    refine ⟨slotWritten, nameIndex, ?_, ?_, ?_⟩
    · rw [← along.get (by simp) slotWritten.lt_length]
      simp
    · rwa [nameSlot]
    · rw [cpUtf8_eq_some, nameSlot, ← named_get nameInside nameWritten.lt_length]
      exact nameHere

theorem denotes_class_iff {cp written : Pool} {name : String}
    (along : Along (ensureClass cp name).2 written) :
    Denotes written (ensureClass cp name).1 (.class_ name) ↔
      ∀ slot ∈ classSlots cp name, Slot written slot := by
  rcases ensureClass_cases cp name with
    ⟨slot, nameIndex, found, entry, holds, same, slots⟩ | ⟨absent, pushed, slots⟩
  · rw [same] at along ⊢
    rw [denotes_found_class_iff found entry holds along, slots]
    simp
  · rw [pushed] at along ⊢
    rw [denotes_pushed_class_iff absent along, slots]
    simp

/-! ### What a writer hands out -/

open Registry

/-- The references there are: looked up in the first pool, which is then left as the second. -/
inductive Resolved (cp : Pool) : Reference → Pool → Prop where
  | utf8 (value : String) :
      Resolved cp ⟨(ensureUtf8 cp value).1, .utf8 value, [utf8Slot cp value]⟩
        (ensureUtf8 cp value).2
  | class_ (name : String) :
      Resolved cp ⟨(ensureClass cp name).1, .class_ name, classSlots cp name⟩
        (ensureClass cp name).2

/-- The pool is only added to, and a reference is looked up in some pool on the way. -/
def poolDiscipline : Discipline Pool Reference where
  grows := (· <+: ·)
  sound cp reference cp' := ∃ before after, cp <+: before ∧ Resolved before reference after ∧
    after <+: cp'
  refl := List.prefix_refl
  trans := List.IsPrefix.trans
  widen := by
    rintro one two three four reference grown ⟨before, after, start, resolved, left⟩ grown'
    exact ⟨before, after, grown.trans start, resolved, left.trans grown'⟩

/-- The string a reference is for. -/
def Reference.name : Reference → Option String
  | ⟨_, .utf8 value, _⟩ => some value
  | _ => none

/-- A writer that asks the pool for exactly these strings, and for classes. -/
abbrev Asks {α : Type} (m : Writer α) (names : List String) : Prop :=
  Gives poolDiscipline Reference.name m names

theorem asks_utf8Index (value : String) : Asks (utf8Index value) [value] := by
  apply gives_refer
  · exact fun cp => prefix_ensureUtf8 cp value
  · exact fun cp => ⟨cp, _, List.prefix_refl cp, .utf8 value, List.prefix_refl _⟩
  · exact fun cp => rfl

theorem asks_classIndex (name : String) : Asks (classIndex name) [] := by
  apply gives_refer
  · exact fun cp => prefix_ensureClass cp name
  · exact fun cp => ⟨cp, _, List.prefix_refl cp, .class_ name, List.prefix_refl _⟩
  · exact fun cp => rfl

theorem asks_addUtf8 (value : String) : Asks (addUtf8 value) [] :=
  gives_change fun cp => prefix_ensureUtf8 cp value

theorem asks_toVerificationType (value : FrameType) : Asks (toVerificationType value) [] := by
  cases value with
  | object name => exact gives_bind (asks_classIndex name) fun _ => gives_pure _
  | _ => exact gives_pure _

theorem asks_toVerificationTypes (values : List FrameType) :
    Asks (toVerificationTypes values) [] := by
  induction values with
  | nil => exact gives_pure _
  | cons value values ih =>
      exact gives_bind (asks_toVerificationType value) fun _ => gives_bind ih fun _ => gives_pure _

theorem asks_toFullFrames (frames : List AnalysedFrame) : Asks (toFullFrames frames) [] := by
  induction frames with
  | nil => exact gives_pure _
  | cons frame frames ih =>
      apply gives_bind (asks_toVerificationTypes frame.locals)
      intro locals
      apply gives_bind (asks_toVerificationTypes frame.stack)
      intro stack
      exact gives_bind ih fun _ => gives_pure _

theorem asks_computeStackMapTable (analysis : FrameAnalysis) (method : MethodNode)
    (classNode : ClassNode) (code : CodeAttribute) (maxLocals : UInt16) :
    Asks (computeStackMapTable analysis method classNode code maxLocals) [] :=
  gives_bind (gives_inspect _) asks_toFullFrames

theorem asks_stackMapOf (ctx : WriteContext) (stackMap : Option (List StackMapFrame))
    (code : CodeAttribute) (maxLocals : UInt16) :
    Asks (stackMapOf ctx stackMap code maxLocals) [] := by
  unfold stackMapOf
  cases stackMap with
  | some entries => exact gives_pure _
  | none =>
      cases ctx.method with
      | none => exact gives_fail _ _
      | some context => exact asks_computeStackMapTable ctx.analysis context.1 context.2 code maxLocals

theorem asks_writePlainAttribute (attr : AttributeInfo) :
    Asks (writePlainAttribute attr) [writtenName attr] :=
  gives_bind (asks_utf8Index _) fun _ => gives_bind (gives_lift _) fun _ => gives_pure _

/-! ### The names of attributes at every depth -/

mutual

/-- The names an attribute is written with: its own and those of what is nested in it. Where frames
are computed, a code attribute has a computed table in place of its own. -/
def attributeNames (frames : Bool) : AttributeInfo → List String
  | .code code => "Code" :: codeNames frames code
  | .record components => "Record" :: componentsNames frames components
  | attr => [writtenName attr]

def codeNames (frames : Bool) : CodeAttribute → List String
  | ⟨_, _, _, _, _, attributes⟩ =>
      if frames then
        attributesNames frames (fun attr => ! isStackMapTable attr) attributes ++ ["StackMapTable"]
      else attributesNames frames (fun _ => true) attributes

def componentNames (frames : Bool) : RecordComponent → List String
  | ⟨_, _, attributes⟩ => attributesNames frames (fun _ => true) attributes

def componentsNames (frames : Bool) : List RecordComponent → List String
  | [] => []
  | component :: components => componentNames frames component ++ componentsNames frames components

def attributesNames (frames : Bool) (keep : AttributeInfo → Bool) :
    List AttributeInfo → List String
  | [] => []
  | attr :: attrs =>
      (if keep attr then attributeNames frames attr else []) ++ attributesNames frames keep attrs

end

mutual

/-- Writing an attribute asks for its names, at every depth. -/
theorem asks_writeAttribute (ctx : WriteContext) :
    ∀ (stackMap : Option (List StackMapFrame)) (maxs : Option (UInt16 × UInt16))
      (attr : AttributeInfo),
      Asks (writeAttribute ctx stackMap maxs attr) (attributeNames ctx.computesFrames attr)
  | stackMap, maxs, .code code => by
      rw [writeAttribute, attributeNames]
      apply gives_bind (asks_utf8Index "Code")
      intro nameIndex
      apply gives_of_eq (gives_bind (asks_writeCodeInfo ctx stackMap maxs code) fun _ => gives_pure _)
      exact List.append_nil _
  | stackMap, maxs, .record components => by
      rw [writeAttribute, attributeNames]
      apply gives_bind (asks_utf8Index "Record")
      intro nameIndex
      apply gives_of_eq
        (gives_bind (asks_writeRecordComponents ctx components) fun _ => gives_pure _)
      exact List.append_nil _
  | _, _, .constantValue _ | _, _, .exceptions _ | _, _, .sourceFile _ | _, _, .lineNumberTable _
  | _, _, .localVariableTable _ | _, _, .signature _ | _, _, .stackMapTable _ | _, _, .deprecated
  | _, _, .synthetic | _, _, .innerClasses _ | _, _, .enclosingMethod _ _ | _, _, .module_ _
  | _, _, .modulePackages _ | _, _, .moduleMainClass _ | _, _, .bootstrapMethods _
  | _, _, .methodParameters _ | _, _, .runtimeVisibleAnnotations _
  | _, _, .runtimeInvisibleAnnotations _ | _, _, .runtimeVisibleParameterAnnotations _
  | _, _, .runtimeInvisibleParameterAnnotations _ | _, _, .runtimeVisibleTypeAnnotations _
  | _, _, .runtimeInvisibleTypeAnnotations _ | _, _, .permittedSubclasses _
  | _, _, .annotationDefault _ | _, _, .unknown _ _ => by
      rw [writeAttribute, attributeNames]
      · exact asks_writePlainAttribute _
      all_goals nofun

theorem asks_writeCodeInfo (ctx : WriteContext) (stackMap : Option (List StackMapFrame))
    (maxs : Option (UInt16 × UInt16)) :
    ∀ code : CodeAttribute,
      Asks (writeCodeInfo ctx stackMap maxs code) (codeNames ctx.computesFrames code)
  | ⟨_, _, _, _, _, attributes⟩ => by
      rw [writeCodeInfo, codeNames]
      by_cases frames : ctx.computesFrames = true
      · rw [if_pos frames, if_pos frames]
        apply gives_bind (asks_stackMapOf ctx stackMap _ _)
        intro entries
        apply gives_bind (asks_writeAttributes ctx _ attributes)
        intro kept
        exact gives_bind (asks_writePlainAttribute (.stackMapTable entries)) fun _ => gives_pure _
      · rw [if_neg frames, if_neg frames]
        apply gives_of_eq (gives_bind (asks_writeAttributes ctx _ attributes) fun _ => gives_pure _)
        exact List.append_nil _

theorem asks_writeRecordComponent (ctx : WriteContext) :
    ∀ component : RecordComponent,
      Asks (writeRecordComponent ctx component) (componentNames ctx.computesFrames component)
  | ⟨_, _, attributes⟩ => by
      rw [writeRecordComponent, componentNames]
      apply gives_of_eq (gives_bind (asks_writeAttributes ctx _ attributes) fun _ => gives_pure _)
      exact List.append_nil _

theorem asks_writeRecordComponents (ctx : WriteContext) :
    ∀ components : List RecordComponent,
      Asks (writeRecordComponents ctx components) (componentsNames ctx.computesFrames components)
  | [] => by
      rw [writeRecordComponents, componentsNames]
      exact gives_pure _
  | component :: components => by
      rw [writeRecordComponents, componentsNames]
      apply gives_bind (asks_writeRecordComponent ctx component)
      intro bytes
      apply gives_of_eq
        (gives_bind (asks_writeRecordComponents ctx components) fun _ => gives_pure _)
      exact List.append_nil _

theorem asks_writeAttributes (ctx : WriteContext) (keep : AttributeInfo → Bool) :
    ∀ attributes : List AttributeInfo,
      Asks (writeAttributes ctx keep attributes)
        (attributesNames ctx.computesFrames keep attributes)
  | [] => by
      rw [writeAttributes, attributesNames]
      exact gives_pure _
  | attr :: attrs => by
      rw [writeAttributes, attributesNames]
      apply gives_bind
      · by_cases kept : keep attr = true
        · rw [if_pos kept, if_pos kept]
          exact asks_writeAttribute ctx none none attr
        · rw [if_neg kept, if_neg kept]
          exact gives_pure _
      · intro bytes
        apply gives_of_eq (gives_bind (asks_writeAttributes ctx keep attrs) fun _ => gives_pure _)
        exact List.append_nil _

end

/-! ### The pool only grows -/

theorem prefix_findOrPush (cp : Pool) (wanted : CpInfo → Bool) (entry : CpInfo) :
    cp <+: (findOrPush cp wanted entry).2 := by
  unfold findOrPush
  cases cp.findIdx? wanted with
  | some index => exact List.prefix_refl cp
  | none => exact List.prefix_append cp _

theorem prefix_ensureWide (cp : Pool) (entry : CpInfo) : cp <+: (ensureWide cp entry).2 := by
  unfold ensureWide
  cases cp.findIdx? (· == entry) with
  | some index => exact List.prefix_refl cp
  | none => exact List.prefix_append cp _

theorem prefix_ensureNameAndType (cp : Pool) (name descriptor : String) :
    cp <+: (ensureNameAndType cp name descriptor).2 :=
  (prefix_ensureUtf8 cp name).trans
    ((prefix_ensureUtf8 _ descriptor).trans (prefix_findOrPush _ _ _))

theorem prefix_ensureMemberRef (ref : UInt16 → UInt16 → CpInfo) (cp : Pool)
    (owner name descriptor : String) :
    cp <+: (ensureMemberRef ref cp owner name descriptor).2 :=
  (prefix_ensureClass cp owner).trans
    ((prefix_ensureNameAndType _ name descriptor).trans (prefix_findOrPush _ _ _))

theorem prefix_ensureMethodHandle (cp : Pool) (handle : Handle) :
    cp <+: (ensureMethodHandle cp handle).2 := by
  unfold ensureMethodHandle
  by_cases field : 1 ≤ handle.referenceKind ∧ handle.referenceKind ≤ 4
  · simp only [if_pos field]
    exact (prefix_ensureMemberRef _ _ _ _ _).trans (prefix_findOrPush _ _ _)
  · by_cases interface : handle.referenceKind = 9
    · simp only [if_neg field, if_pos interface]
      exact (prefix_ensureMemberRef _ _ _ _ _).trans (prefix_findOrPush _ _ _)
    · simp only [if_neg field, if_neg interface]
      exact (prefix_ensureMemberRef _ _ _ _ _).trans (prefix_findOrPush _ _ _)

theorem prefix_ensureBootstrapArg (cp : Pool) (arg : BootstrapArgument) :
    cp <+: (ensureBootstrapArg cp arg).2 := by
  cases arg with
  | integer value => exact prefix_findOrPush _ _ _
  | float bits => exact prefix_findOrPush _ _ _
  | long value => exact prefix_ensureWide _ _
  | double bits => exact prefix_ensureWide _ _
  | string value => exact (prefix_ensureUtf8 cp value).trans (prefix_findOrPush _ _ _)
  | class_ name => exact prefix_ensureClass cp name
  | methodType descriptor => exact (prefix_ensureUtf8 cp descriptor).trans (prefix_findOrPush _ _ _)
  | handle handle => exact prefix_ensureMethodHandle cp handle

theorem prefix_ensureBootstrapArgs (cp : Pool) (args : List BootstrapArgument) :
    cp <+: (ensureBootstrapArgs cp args).2 := by
  induction args generalizing cp with
  | nil => exact List.prefix_refl cp
  | cons arg args ih => exact (prefix_ensureBootstrapArg cp arg).trans (ih _)

theorem prefix_resolveInvokedynamic (cp : Pool) (classAttributes : List AttributeInfo)
    (insn : Insn) : cp <+: (resolveInvokedynamic cp classAttributes insn).2.1 := by
  unfold resolveInvokedynamic
  split
  · split
    · split
      · exact (prefix_ensureMethodHandle cp _).trans ((prefix_ensureBootstrapArgs _ _).trans
          ((prefix_ensureNameAndType _ _ _).trans (prefix_findOrPush _ _ _)))
      · exact List.prefix_refl cp
    · exact List.prefix_refl cp
  · exact List.prefix_refl cp

theorem prefix_resolveInsns (cp : Pool) (classAttributes : List AttributeInfo)
    (insns : List Insn) : cp <+: (resolveInsns cp classAttributes insns).2.1 := by
  induction insns generalizing cp classAttributes with
  | nil => exact List.prefix_refl cp
  | cons insn insns ih => exact (prefix_resolveInvokedynamic cp classAttributes insn).trans (ih _ _)

theorem prefix_resolveInvokedynamicMethods (cp : Pool) (classAttributes : List AttributeInfo)
    (methods : List MethodNode) :
    cp <+: (resolveInvokedynamicMethods cp classAttributes methods).2.1 := by
  induction methods generalizing cp classAttributes with
  | nil => exact List.prefix_refl cp
  | cons method methods ih =>
      exact (prefix_resolveInsns cp classAttributes method.instructions).trans (ih _ _)

/-- A use of the builder that only adds to its pool. -/
def Adds {α : Type} (m : Builder α) : Prop :=
  ∀ builder, builder.cp <+: (m builder).2.cp

theorem adds_pure {α : Type} (value : α) : Adds (pure value : Builder α) :=
  fun builder => List.prefix_refl builder.cp

theorem adds_bind {α β : Type} {m : Builder α} {next : α → Builder β} (first : Adds m)
    (second : ∀ value, Adds (next value)) : Adds (m >>= next) :=
  fun builder => (first builder).trans (second _ _)

theorem adds_mapM {α β : Type} {f : α → Builder β} (each : ∀ value, Adds (f value))
    (values : List α) : Adds (values.mapM f) := by
  induction values with
  | nil => exact adds_pure _
  | cons value values ih =>
      rw [List.mapM_cons]
      exact adds_bind (each value) fun _ => adds_bind ih fun _ => adds_pure _

theorem adds_builderUtf8 (value : String) : Adds (builderUtf8 value) := by
  intro builder
  unfold builderUtf8 ConstantPoolBuilder.ensure
  cases builder.utf8.lookup value with
  | some index => exact List.prefix_refl _
  | none => exact List.prefix_append _ _

theorem setMapOf_cp (builder : ConstantPoolBuilder) (map : IndexMap) (kind : Named) :
    (builder.setMapOf map kind).cp = builder.cp := by
  cases kind <;> rfl

theorem adds_builderNamed (kind : Named) (name : String) : Adds (builderNamed kind name) := by
  intro builder
  unfold builderNamed ConstantPoolBuilder.named
  cases (builder.mapOf kind).lookup name with
  | some index => exact List.prefix_refl _
  | none =>
      apply (adds_builderUtf8 name builder).trans
      simp only [setMapOf_cp]
      exact List.prefix_append _ _

theorem adds_versionIndex (version : Option String) : Adds (versionIndex version) := by
  cases version with
  | none => exact adds_pure _
  | some version => exact adds_builderUtf8 version

theorem adds_buildModulePackages (packages : List String) :
    Adds (buildModulePackages packages) := by
  cases packages with
  | nil => exact adds_pure _
  | cons package packages =>
      exact adds_bind (adds_mapM (adds_builderNamed _) _) fun _ => adds_pure _

theorem adds_buildModuleMainClass (mainClass : Option String) :
    Adds (buildModuleMainClass mainClass) := by
  cases mainClass with
  | none => exact adds_pure _
  | some mainClass => exact adds_bind (adds_builderNamed _ _) fun _ => adds_pure _

theorem adds_buildModuleAttributes (module_ : ModuleNode) :
    Adds (buildModuleAttributes module_) := by
  have named (kind : Named) (names : List String) : Adds (names.mapM (builderNamed kind)) :=
    adds_mapM (adds_builderNamed kind) names
  unfold buildModuleAttributes
  apply adds_bind
  · apply adds_mapM
    intro require
    apply adds_bind (adds_builderNamed _ _)
    intro requiresIndex
    exact adds_bind (adds_versionIndex _) fun _ => adds_pure _
  intro requires
  apply adds_bind
  · apply adds_mapM
    intro export_
    exact adds_bind (adds_builderNamed _ _) fun _ => adds_bind (named _ _) fun _ => adds_pure _
  intro exports
  apply adds_bind
  · apply adds_mapM
    intro open_
    exact adds_bind (adds_builderNamed _ _) fun _ => adds_bind (named _ _) fun _ => adds_pure _
  intro opens
  apply adds_bind (named _ _)
  intro usesIndex
  apply adds_bind
  · apply adds_mapM
    intro provide
    exact adds_bind (adds_builderNamed _ _) fun _ => adds_bind (named _ _) fun _ => adds_pure _
  intro provides
  apply adds_bind (adds_builderNamed _ _)
  intro moduleNameIndex
  apply adds_bind (adds_versionIndex _)
  intro moduleVersionIndex
  apply adds_bind (adds_buildModulePackages _)
  intro packages
  exact adds_bind (adds_buildModuleMainClass _) fun _ => adds_pure _

theorem indexAll_cp (cp : Pool) (entries : List (CpInfo × Nat)) (builder : ConstantPoolBuilder) :
    (entries.foldl (fun builder (entry, slot) => .index cp builder slot entry) builder).cp =
      builder.cp := by
  induction entries generalizing builder with
  | nil => rfl
  | cons entry entries ih =>
      rw [List.foldl_cons, ih]
      cases entry with | mk entry slot => cases entry <;> rfl

theorem fromPool_cp (pool : Pool) : pool <+: (ConstantPoolBuilder.fromPool pool).cp := by
  unfold ConstantPoolBuilder.fromPool
  rw [indexAll_cp]
  cases pool with
  | nil => exact List.nil_prefix
  | cons entry rest => exact List.prefix_refl _

theorem prefix_addModuleAttributes (module_ : Option ModuleNode)
    (classAttributes : List AttributeInfo) (cp : Pool) :
    cp <+: (addModuleAttributes module_ classAttributes cp).2 := by
  unfold addModuleAttributes
  cases module_ with
  | none => exact List.prefix_refl cp
  | some module_ =>
      by_cases present : classAttributes.any isModule = true
      · simp only [if_pos present]
        exact List.prefix_refl cp
      · simp only [if_neg present]
        exact (fromPool_cp cp).trans (adds_buildModuleAttributes module_ _)

/-! ### The two halves of the writer -/

theorem asks_addSourceFile (sourceFile : Option String) (classAttributes : List AttributeInfo) :
    Asks (addSourceFile sourceFile classAttributes) sourceFile.toList := by
  cases sourceFile with
  | none => exact gives_pure _
  | some sourceFile => exact gives_bind (asks_utf8Index sourceFile) fun _ => gives_pure _

theorem asks_addNames (names : List String) : Asks (addNames names) [] := by
  induction names with
  | nil => exact gives_pure _
  | cons name names ih => exact gives_bind (asks_addUtf8 name) fun _ => ih

theorem asks_precomputeMaxs (analysis : FrameAnalysis) (classNode : ClassNode)
    (method : MethodNode) (code : CodeAttribute) (computeMaxs : Bool) :
    Asks (precomputeMaxs analysis classNode method code computeMaxs) [] := by
  cases computeMaxs with
  | false => exact gives_pure _
  | true => exact gives_bind (gives_inspect _) fun _ => gives_pure _

theorem asks_precomputeMethod (analysis : FrameAnalysis) (classNode : ClassNode)
    (computeFrames computeMaxs : Bool) (method : MethodNode) :
    Asks (precomputeMethod analysis classNode computeFrames computeMaxs method) [] := by
  unfold precomputeMethod
  cases method.hasCode && (computeFrames || computeMaxs) with
  | false => exact gives_pure _
  | true =>
      apply gives_bind (gives_lift _)
      intro code
      apply gives_bind (asks_precomputeMaxs analysis classNode method code computeMaxs)
      intro maxs
      cases computeFrames with
      | false => exact gives_pure _
      | true => exact gives_bind (asks_computeStackMapTable _ _ _ _ _) fun _ => gives_pure _

theorem asks_precomputeMethods (analysis : FrameAnalysis) (classNode : ClassNode)
    (computeFrames computeMaxs : Bool) (methods : List MethodNode) :
    Asks (precomputeMethods analysis classNode computeFrames computeMaxs methods) [] := by
  induction methods with
  | nil => exact gives_pure _
  | cons method methods ih =>
      apply gives_bind (asks_precomputeMethod analysis classNode computeFrames computeMaxs method)
      intro one
      exact gives_bind ih fun _ => gives_pure _

theorem asks_superClassIndex (classNode : ClassNode) : Asks (superClassIndex classNode) [] := by
  unfold superClassIndex
  cases classNode.superName with
  | some name => exact asks_classIndex name
  | none =>
      by_cases isObject : classNode.name = "java/lang/Object"
      · simp only [if_pos isObject]
        exact gives_pure _
      · simp only [if_neg isObject]
        exact asks_classIndex _

/-- Of the strings looked up before the pool is written, only that of the source file is written as an
index after it. -/
theorem asks_prepare (analysis : FrameAnalysis) (options : UInt32) (classNode : ClassNode) :
    Asks (prepare analysis options classNode) classNode.sourceFile.toList := by
  unfold prepare
  apply gives_of_eq
  · apply gives_bind (gives_change fun cp => prefix_resolveInvokedynamicMethods cp _ _)
    intro resolved
    apply gives_bind (asks_addSourceFile classNode.sourceFile _)
    intro classAttributes
    apply gives_bind (gives_change fun cp => prefix_addModuleAttributes _ _ cp)
    intro classAttributes
    apply gives_bind (asks_addNames _)
    intro _
    apply gives_bind (asks_addNames _)
    intro _
    apply gives_bind (asks_precomputeMethods _ _ _ _ _)
    intro methods
    exact gives_bind (asks_superClassIndex classNode) fun _ => gives_pure _
  · exact List.append_nil _

theorem asks_writeAttributeList (ctx : WriteContext) (stackMap : Option (List StackMapFrame))
    (maxs : Option (UInt16 × UInt16)) (attributes : List AttributeInfo) :
    Asks (writeAttributeList ctx stackMap maxs attributes)
      (attributes.flatMap (attributeNames ctx.computesFrames)) := by
  induction attributes with
  | nil => exact gives_pure _
  | cons attr attrs ih =>
      rw [List.flatMap_cons]
      apply gives_bind (asks_writeAttribute ctx stackMap maxs attr)
      intro bytes
      apply gives_of_eq (gives_bind ih fun _ => gives_pure _)
      exact List.append_nil _

/-- The names a field is written with. -/
def fieldNames (field : FieldNode) : List String :=
  field.name :: field.descriptor :: field.attributes.flatMap (attributeNames false)

/-- The names a method is written with. Its code has the tables of the node. -/
def methodNames (frames : Bool) (method : MethodNode) : List String :=
  method.name :: method.descriptor ::
    if method.hasCode then
      (method.attributes.filter fun attr => ! isCode attr).flatMap (attributeNames frames) ++
        "Code" :: codeNames frames ⟨0, 0, [], [], [], codeAttributesOf method⟩
    else method.attributes.flatMap (attributeNames frames)

theorem asks_writeField (analysis : FrameAnalysis) (field : FieldNode) :
    Asks (writeField analysis field) (fieldNames field) := by
  apply gives_of_eq
  · apply gives_bind (asks_utf8Index field.name)
    intro nameIndex
    apply gives_bind (asks_utf8Index field.descriptor)
    intro descriptorIndex
    exact gives_bind (asks_writeAttributeList _ none none field.attributes) fun _ => gives_pure _
  · simp [fieldNames, WriteContext.computesFrames]

theorem methodAttributes_names {method : MethodNode} {attributes : List AttributeInfo}
    (built : methodAttributes method = .ok attributes) (frames : Bool) :
    method.name :: method.descriptor :: attributes.flatMap (attributeNames frames) =
      methodNames frames method := by
  unfold methodAttributes at built
  unfold methodNames
  cases hasCode : method.hasCode with
  | false =>
      rw [hasCode, if_neg Bool.false_ne_true] at built
      obtain rfl := Except.ok.inj built
      rfl
  | true =>
      rw [hasCode, if_pos rfl] at built
      cases instructions : buildCodeFromInsnList method.instructions with
      | error fault =>
          simp [methodCodeAttribute, instructions, bind, Except.bind] at built
      | ok code =>
          simp only [methodCodeAttribute, instructions, bind, Except.bind] at built
          obtain rfl := Except.ok.inj built
          simp [List.flatMap_append, attributeNames, codeNames]

theorem asks_writeMethod (analysis : FrameAnalysis) (options : UInt32) (classNode : ClassNode)
    (entry : Precomputed) :
    Asks (writeMethod analysis options classNode entry)
      (methodNames (options &&& COMPUTE_FRAMES ≠ 0) entry.method) := by
  apply gives_bind (asks_utf8Index entry.method.name)
  intro nameIndex
  apply gives_bind (asks_utf8Index entry.method.descriptor)
  intro descriptorIndex
  apply gives_lift_bind
  intro attributes built
  have same := methodAttributes_names built (options &&& COMPUTE_FRAMES ≠ 0)
  apply gives_of_eq
    (gives_bind (asks_writeAttributeList _ entry.stackMap entry.maxs attributes) fun _ => gives_pure _)
  have tail := (List.cons.inj (List.cons.inj same).2).2
  rw [List.append_nil]
  exact tail

theorem asks_writeEach {α : Type} {write : α → Writer (List UInt8)} {names : α → List String}
    (each : ∀ member, Asks (write member) (names member)) (members : List α) :
    Asks (writeEach write members) (members.flatMap names) := by
  induction members with
  | nil => exact gives_pure _
  | cons member members ih =>
      rw [List.flatMap_cons]
      apply gives_bind (each member)
      intro bytes
      apply gives_of_eq (gives_bind ih fun _ => gives_pure _)
      exact List.append_nil _

/-- The names looked up after the pool is written: those of the fields, of the methods with their
code, and of the attributes of the class. -/
def writtenNames (options : UInt32) (classNode : ClassNode) (prepared : Prepared) : List String :=
  classNode.fields.flatMap fieldNames ++
    prepared.methods.flatMap (fun entry =>
      methodNames (options &&& COMPUTE_FRAMES ≠ 0) entry.method) ++
    prepared.classAttributes.flatMap (attributeNames (options &&& COMPUTE_FRAMES ≠ 0))

theorem asks_writeMembers (analysis : FrameAnalysis) (options : UInt32) (classNode : ClassNode)
    (prepared : Prepared) :
    Asks (writeMembers analysis options classNode prepared)
      (writtenNames options classNode prepared) := by
  apply gives_of_eq
  · apply gives_bind (asks_writeEach (asks_writeField analysis) classNode.fields)
    intro fields
    apply gives_bind (asks_writeEach (asks_writeMethod analysis options classNode) prepared.methods)
    intro methods
    exact gives_bind (asks_writeAttributeList _ none none prepared.classAttributes) fun _ =>
      gives_pure _
  · simp [writtenNames, WriteContext.computesFrames]

/-! ### Closure of the written pool -/

/-- A string that stands in the written pool: its first slot is one that is written. -/
def Standing (cp : Pool) (name : String) : Prop :=
  ∃ slot, cp.findIdx? (· == .utf8 name) = some slot ∧ Slot cp slot

theorem findIdx_ensureUtf8 (cp : Pool) (value : String) :
    (ensureUtf8 cp value).2.findIdx? (· == .utf8 value) = some (utf8Slot cp value) := by
  unfold utf8Slot ensureUtf8 findOrPush
  cases found : cp.findIdx? (· == .utf8 value) with
  | some slot => exact found
  | none => simp [pushEntry, List.findIdx?_append, found]

/-- A string looked up before or after the pool is written has a written slot exactly when it stands
in the written pool. -/
theorem slot_utf8Slot_iff {cp written : Pool} {value : String}
    (order : (ensureUtf8 cp value).2 <+: written ∨ written <+: cp) :
    Slot written (utf8Slot cp value) ↔ Standing written value := by
  have first := findIdx_ensureUtf8 cp value
  rcases order with early | late
  · have found := early.findIdx?_eq_some first
    constructor
    · intro slot
      exact ⟨_, found, slot⟩
    · rintro ⟨slot, foundHere, slotWritten⟩
      rw [found] at foundHere
      rwa [Option.some.inj foundHere]
  · have order := late.trans (prefix_ensureUtf8 cp value)
    constructor
    · intro slot
      obtain ⟨rest, appended⟩ := order
      have here := ensureUtf8_get cp value
      rw [← appended, List.getElem?_append_left slot.lt_length] at here
      cases found : written.findIdx? (· == .utf8 value) with
      | some other =>
          have same := (List.prefix_append written rest).findIdx?_eq_some found
          rw [appended, first] at same
          obtain rfl := Option.some.inj same
          exact ⟨_, found, slot⟩
      | none =>
          have absent := List.findIdx?_eq_none_iff.mp found _ (List.mem_of_getElem? here)
          rw [beq_self_eq_true] at absent
          cases absent
    · rintro ⟨slot, found, slotWritten⟩
      have same := order.findIdx?_eq_some found
      rw [first] at same
      rwa [Option.some.inj same]

theorem Resolved.denotes_iff {before after written : Pool} {reference : Reference}
    (resolved : Resolved before reference after) (along : Along after written) :
    Denotes written reference.index reference.constant ↔
      ∀ slot ∈ reference.slots, Slot written slot := by
  cases resolved with
  | utf8 value =>
      rw [denotes_utf8_iff along]
      simp
  | class_ name => exact denotes_class_iff along

/-- Every index written after the pool, with what it is for, denotes it in the pool as written. -/
def PoolClosed (analysis : FrameAnalysis) (options : UInt32) (classNode : ClassNode) : Prop :=
  ∀ run, toBytes analysis options classNode = .ok run →
    ∀ reference ∈ run.references, Denotes run.pool reference.index reference.constant

/-- In the pool as it is handed to `write_constant_pool` stand the name of the source file and every
name looked up later, and the super class and the classes of stack maps are found, or were put, at
slots that are written. -/
def PoolComplete (analysis : FrameAnalysis) (options : UInt32) (classNode : ClassNode) : Prop :=
  ∀ before run, prepare analysis options classNode classNode.constantPool = .ok before →
    toBytes analysis options classNode = .ok run →
      (∀ name ∈ classNode.sourceFile.toList ++ writtenNames options classNode before.value,
        Standing before.table name) ∧
      ∀ reference ∈ run.references, ∀ name, reference.constant = .class_ name →
        ∀ slot ∈ reference.slots, Slot before.table slot

theorem toBytes_eq_ok {analysis : FrameAnalysis} {options : UInt32} {classNode : ClassNode}
    {run : Written} (ran : toBytes analysis options classNode = .ok run) :
    ∃ before after, prepare analysis options classNode classNode.constantPool = .ok before ∧
      writeMembers analysis options classNode before.value before.table = .ok after ∧
      run.pool = before.table ∧ run.references = before.references ++ after.references := by
  unfold toBytes at ran
  by_cases empty : classNode.constantPool.isEmpty = true
  · rw [if_pos empty] at ran
    cases ran
  · rw [if_neg empty] at ran
    cases prepared : prepare analysis options classNode classNode.constantPool with
    | error fault =>
        simp [prepared, bind, Except.bind] at ran
    | ok before =>
        cases members : writeMembers analysis options classNode before.value before.table with
        | error fault =>
            simp [prepared, members, bind, Except.bind] at ran
        | ok after =>
            simp only [prepared, members, bind, Except.bind] at ran
            obtain rfl := Except.ok.inj ran
            exact ⟨before, after, rfl, members, rfl, rfl⟩

/-- Where the references of a run were looked up: before the pool was written, in a part of it, or
after, in more than it; and which strings they are for. -/
theorem references_spec {analysis : FrameAnalysis} {options : UInt32} {classNode : ClassNode}
    {before : Registered Pool Reference Prepared} {run : Written}
    (prepared : prepare analysis options classNode classNode.constantPool = .ok before)
    (ran : toBytes analysis options classNode = .ok run) :
    run.pool = before.table ∧
      (∀ reference ∈ run.references, ∃ cp cp', Resolved cp reference cp' ∧
        (cp' <+: run.pool ∨ run.pool <+: cp)) ∧
      run.references.filterMap Reference.name =
        classNode.sourceFile.toList ++ writtenNames options classNode before.value := by
  obtain ⟨first, after, firstRan, afterRan, pool, references⟩ := toBytes_eq_ok ran
  obtain rfl := Except.ok.inj (prepared.symm.trans firstRan)
  obtain ⟨-, soundFirst, namesFirst⟩ := asks_prepare analysis options classNode _ _ prepared
  obtain ⟨-, soundAfter, namesAfter⟩ :=
    asks_writeMembers analysis options classNode before.value _ _ afterRan
  refine ⟨pool, ?_, ?_⟩
  · intro reference member
    rw [references] at member
    rw [pool]
    rcases List.mem_append.mp member with early | late
    · obtain ⟨cp, cp', -, resolved, left⟩ := soundFirst reference early
      exact ⟨cp, cp', resolved, .inl left⟩
    · obtain ⟨cp, cp', start, resolved, -⟩ := soundAfter reference late
      exact ⟨cp, cp', resolved, .inr start⟩
  · rw [references, List.filterMap_append, namesFirst, namesAfter]

theorem Resolved.prefix {before after : Pool} {reference : Reference}
    (resolved : Resolved before reference after) : before <+: after := by
  cases resolved with
  | utf8 value => exact prefix_ensureUtf8 before value
  | class_ name => exact prefix_ensureClass before name

theorem Resolved.along {before after written : Pool} {reference : Reference}
    (resolved : Resolved before reference after)
    (order : after <+: written ∨ written <+: before) : Along after written := by
  rcases order with early | late
  · exact .inl early
  · exact .inr (late.trans resolved.prefix)

/-- The slot of a string is written exactly when the string stands in the pool. -/
theorem Resolved.standing_iff {before after written : Pool} {reference : Reference} {value : String}
    (resolved : Resolved before reference after)
    (order : after <+: written ∨ written <+: before) (name : reference.name = some value) :
    (∀ slot ∈ reference.slots, Slot written slot) ↔ Standing written value := by
  cases resolved with
  | utf8 other =>
      obtain rfl := Option.some.inj name
      simpa using slot_utf8Slot_iff order
  | class_ other => cases name

/-- The writer emits, after the pool, only indexes that denote what is meant in the pool as written,
exactly when that pool has all strings looked up later and all classes in slots that are written. -/
theorem poolClosed_iff (analysis : FrameAnalysis) (options : UInt32) (classNode : ClassNode) :
    PoolClosed analysis options classNode ↔ PoolComplete analysis options classNode := by
  constructor
  · intro closed before run prepared ran
    obtain ⟨pool, resolved, names⟩ := references_spec prepared ran
    have slots : ∀ reference ∈ run.references, ∀ slot ∈ reference.slots, Slot run.pool slot := by
      intro reference member
      obtain ⟨cp, cp', lookedUp, order⟩ := resolved reference member
      exact (lookedUp.denotes_iff (lookedUp.along order)).mp (closed run ran reference member)
    rw [← pool, ← names]
    constructor
    · intro name asked
      obtain ⟨reference, member, named⟩ := List.mem_filterMap.mp asked
      obtain ⟨cp, cp', lookedUp, order⟩ := resolved reference member
      exact (lookedUp.standing_iff order named).mp (slots reference member)
    · exact fun reference member _ _ => slots reference member
  · intro complete run ran reference member
    obtain ⟨before, after, prepared, -⟩ := toBytes_eq_ok ran
    obtain ⟨pool, resolved, names⟩ := references_spec prepared ran
    obtain ⟨standing, classes⟩ := complete before run prepared ran
    rw [← pool, ← names] at standing
    rw [← pool] at classes
    obtain ⟨cp, cp', lookedUp, order⟩ := resolved reference member
    apply (lookedUp.denotes_iff (lookedUp.along order)).mpr
    cases constant : reference.constant with
    | class_ name => exact classes reference member name constant
    | utf8 value =>
        have named : reference.name = some value := by
          cases reference
          cases constant
          rfl
        apply (lookedUp.standing_iff order named).mpr
        exact standing value (List.mem_filterMap.mpr ⟨reference, member, named⟩)

/-! ### A field whose name is in no collection -/

/-- `class A { int f; }` with a pool that has the name of the class only. -/
def unnamedField : ClassNode where
  minorVersion := 0
  majorVersion := 61
  accessFlags := 0x21
  constantPool := [.unusable, .utf8 "A", .class_ 1]
  thisClass := 2
  name := "A"
  superName := none
  sourceFile := none
  interfaces := []
  interfaceIndices := []
  fields := [{ accessFlags := 0, name := "f", descriptor := "I", attributes := [] }]
  methods := []
  attributes := []
  innerClasses := []
  outerClass := ""
  module_ := none
  permittedSubclasses := []
  recordComponents := []

/-- An analysis for runs that compute no frames. -/
def noAnalysis : FrameAnalysis where
  frames := fun _ _ _ _ _ => .ok []
  maxs := fun _ _ _ _ => .ok (0, 0)

/-- The name of the field is written as index 5 of a pool of 5. -/
theorem unnamedField_not_closed : ¬ PoolClosed noAnalysis 0 unnamedField := by
  have outside : ((toBytes noAnalysis 0 unnamedField).toOption.any fun run =>
      run.references.any fun reference =>
        (asU16 run.pool.length).toNat ≤ reference.index.toNat) = true := by
    decide +kernel
  intro closed
  obtain ⟨run, ran, found⟩ := Option.any_eq_true _ _ |>.mp outside
  obtain ⟨reference, member, high⟩ := List.any_eq_true.mp found
  have denotes := closed run (by
    cases result : toBytes noAnalysis 0 unnamedField with
    | error fault => simp [result, Except.toOption] at ran
    | ok other => simpa [result, Except.toOption] using ran) reference member
  have slot : Slot run.pool reference.index.toNat := by
    cases constant : reference.constant with
    | utf8 value =>
        rw [constant] at denotes
        exact denotes.1
    | class_ name =>
        rw [constant] at denotes
        exact denotes.1
  exact Nat.not_lt.mpr (of_decide_eq_true high) slot.2

end CaffeineLs.RustAsm
