/-
Module: CaffeineLs.Proofs.ClassReading
Purpose: When reading a class file is safe: exactly when the numbers it comes past do not overflow and
  the tables it leaves unfinished claim no more rows than bytes were left.
Trusted boundary: none
Main exports: Place.Overflows, sound_readInsn, reading_safe_iff
-/
import CaffeineLs.RustAsm.ClassReader

namespace CaffeineLs.RustAsm

open ByteReader

/-- The arithmetic at the place leaves `i32`, or makes a capacity of a negative number. -/
def Place.Overflows : Place → Prop
  | .span low high => ¬ high < low ∧ ¬ high.toInt - low.toInt + 1 < 2 ^ 31
  | .pairs npairs => npairs < 0
  | .target offset delta => ¬ (offset.toNat + delta.toInt < 2 ^ 31)

variable {limit least : Nat}

/-- Every run with fewer than `limit` bytes ahead takes at least `least` and goes as the places it comes
past allow. -/
abbrev Reads {α : Type} (limit least : Nat) (r : Reader α) : Prop :=
  Sound Place.Overflows limit least r

/-! ### Numbers and tables -/

theorem reads_bytes (len : Nat) : Reads limit len (readBytes len) := sound_bytes _ len

theorem reads_u1 : Reads limit 1 readU1 := sound_map (reads_bytes 1) _

theorem reads_u2 : Reads limit 2 readU2 := sound_map (reads_bytes 2) _

theorem reads_u4 : Reads limit 4 readU4 := sound_map (reads_bytes 4) _

theorem reads_u8 : Reads limit 8 readU8 := sound_map (reads_bytes 8) _

theorem reads_i1 : Reads limit 1 readI1 := sound_map reads_u1 _

theorem reads_i2 : Reads limit 2 readI2 := sound_map reads_u2 _

theorem reads_i4 : Reads limit 4 readI4 := sound_map reads_u4 _

theorem reads_align4 (opcodeOffset : Nat) : Reads limit 0 (align4 opcodeOffset) :=
  (sound_map (sound_rows reads_u1 _) _).loose

theorem reads_table {α : Type} {row : Reader α} (each : Reads limit 1 row) :
    Reads limit 2 (readTable row) :=
  sound_start reads_u2 fun count => (sound_table each count.toNat).loose

theorem reads_shortTable {α : Type} {row : Reader α} (each : Reads limit 1 row) :
    Reads limit 1 (readShortTable row) :=
  sound_start reads_u1 fun count => (sound_table each count.toNat).loose

theorem reads_tableU2 : Reads limit 2 (readTable readU2) :=
  reads_table (reads_u2.mono (Nat.le_refl _) (by decide))

/-- Two numbers of two bytes. -/
theorem reads_two {α : Type} {next : UInt16 → UInt16 → α} :
    Reads limit 2 (do
      let first ← readU2
      let second ← readU2
      pure (next first second)) :=
  sound_start reads_u2 fun _ => sound_then reads_u2.loose fun _ => sound_pure _

/-! ### The constant pool -/

theorem reads_cpInfo (tag : UInt8) : Reads limit 0 (readCpInfo tag) := by
  unfold readCpInfo
  split
  · exact sound_then reads_u2.loose fun len => sound_then (reads_bytes _).loose fun bs =>
      sound_then (sound_ofExcept _) fun _ => sound_pure _
  · exact (sound_map reads_u4 _).loose
  · exact (sound_map reads_u4 _).loose
  · exact (sound_map reads_u8 _).loose
  · exact (sound_map reads_u8 _).loose
  · exact (sound_map reads_u2 _).loose
  · exact (sound_map reads_u2 _).loose
  · exact reads_two.loose
  · exact reads_two.loose
  · exact reads_two.loose
  · exact reads_two.loose
  · exact sound_then reads_u1.loose fun _ => (sound_map reads_u2 _).loose
  · exact (sound_map reads_u2 _).loose
  · exact reads_two.loose
  · exact reads_two.loose
  · exact (sound_map reads_u2 _).loose
  · exact (sound_map reads_u2 _).loose
  · exact sound_fail _

/-- An entry that takes two slots takes bytes behind its tag. -/
theorem reads_cpInfo_wide {tag : UInt8} (wide : tag = 5 ∨ tag = 6) :
    Reads limit 1 (readCpInfo tag) := by
  rcases wide with rfl | rfl
  · have whole : Reads limit 8 (readCpInfo 5) :=
      sound_map reads_u8 fun value => CpInfo.long value.toInt64
    exact whole.mono (Nat.le_refl _) (by decide)
  · have whole : Reads limit 8 (readCpInfo 6) := sound_map reads_u8 CpInfo.double
    exact whole.mono (Nat.le_refl _) (by decide)

/-- The entries of a pool take at least a byte for each slot. -/
theorem reads_entries (left : Nat) : Reads limit left (readEntries left) := by
  induction left using Nat.strongRecOn generalizing limit with
  | ind left ih =>
      cases left with
      | zero =>
          rw [readEntries]
          exact sound_pure []
      | succ left =>
          rw [readEntries]
          have afterTag (tag : UInt8) : Reads limit left (do
              let entry ← readCpInfo tag
              if tag = 5 ∨ tag = 6 then do
                let entries ← readEntries (left - 1)
                pure (entry :: .unusable :: entries)
              else do
                let entries ← readEntries left
                pure (entry :: entries)) := by
            by_cases wide : tag = 5 ∨ tag = 6
            · simp only [if_pos wide]
              have rest (entry : CpInfo) : Reads (limit - 1) (left - 1) (do
                  let entries ← readEntries (left - 1)
                  pure (entry :: .unusable :: entries)) :=
                sound_map (ih (left - 1) (by omega)) _
              exact (sound_bind (reads_cpInfo_wide wide) rest).mono (Nat.le_refl _) (by omega)
            · simp only [if_neg wide]
              exact sound_then (reads_cpInfo tag) fun entry => sound_map (ih left (by omega)) _
          have first : Reads limit 1 readU1 := reads_u1
          have all := sound_bind first fun tag =>
            (afterTag tag).mono (Nat.sub_le limit 1) (Nat.le_refl left)
          exact all.mono (Nat.le_refl _) (by omega)

theorem reads_pool (count : Nat) : Reads limit (count - 1) (readPool count) :=
  sound_map (reads_entries (count - 1)) _

/-! ### Instructions -/

theorem reads_switchCount (low high : Int32) : Reads limit 0 (switchCount low high) := by
  unfold switchCount
  by_cases empty : high < low
  · simp only [if_pos empty]
    have fine : ¬ (Place.span low high).Overflows := fun bad => bad.1 empty
    exact sound_then (sound_pass fine) fun _ => sound_pure 0
  · simp only [if_neg empty]
    by_cases fits : high.toInt - low.toInt + 1 < 2 ^ 31
    · simp only [if_pos fits]
      have fine : ¬ (Place.span low high).Overflows := fun bad => bad.2 fits
      exact sound_then (sound_pass fine) fun _ => sound_pure _
    · simp only [if_neg fits]
      have bad : (Place.span low high).Overflows := ⟨empty, fits⟩
      exact sound_pass_panic bad _ rfl

theorem reads_pairCount (npairs : Int32) : Reads limit 0 (pairCount npairs) := by
  unfold pairCount
  by_cases negative : npairs < 0
  · simp only [if_pos negative]
    have bad : (Place.pairs npairs).Overflows := negative
    exact sound_pass_panic bad _ rfl
  · simp only [if_neg negative]
    have fine : ¬ (Place.pairs npairs).Overflows := negative
    exact sound_then (sound_pass fine) fun _ => sound_pure _

theorem reads_jumpTarget (offset : UInt16) (delta : Int32) :
    Reads limit 0 (jumpTarget offset delta) := by
  unfold jumpTarget
  by_cases fits : offset.toNat + delta.toInt < 2 ^ 31
  · simp only [if_pos fits]
    have fine : ¬ (Place.target offset delta).Overflows := fun bad => bad fits
    exact sound_then (sound_pass fine) fun _ => sound_pure ()
  · simp only [if_neg fits]
    have bad : (Place.target offset delta).Overflows := fits
    exact sound_pass_panic bad _ rfl

theorem reads_pair : Reads limit 4 readPair :=
  sound_start reads_i4 fun _ => (sound_map reads_i4 _).loose

theorem reads_tableSwitch (opcodeOffset : Nat) : Reads limit 0 (readTableSwitch opcodeOffset) := by
  unfold readTableSwitch
  have row : Reads limit 1 readI4 := reads_i4.mono (Nat.le_refl _) (by decide)
  apply sound_then (reads_align4 opcodeOffset)
  intro _
  apply sound_then reads_i4.loose
  intro defaultOffset
  apply sound_then reads_i4.loose
  intro low
  apply sound_then reads_i4.loose
  intro high
  apply sound_then (reads_switchCount low high)
  intro count
  exact (sound_map (sound_table row count) _).loose

theorem reads_lookupSwitch (opcodeOffset : Nat) :
    Reads limit 0 (readLookupSwitch opcodeOffset) := by
  unfold readLookupSwitch
  have row : Reads limit 1 readPair := reads_pair.mono (Nat.le_refl _) (by decide)
  apply sound_then (reads_align4 opcodeOffset)
  intro _
  apply sound_then reads_i4.loose
  intro defaultOffset
  apply sound_then reads_i4.loose
  intro npairs
  apply sound_then (reads_pairCount npairs)
  intro count
  exact (sound_map (sound_table row count) _).loose

theorem reads_wide : Reads limit 0 readWide := by
  unfold readWide
  apply sound_then sound_position
  intro input
  apply sound_then reads_u1.loose
  intro opcode
  split
  · exact (sound_map reads_u2 _).loose
  · exact sound_then reads_u2.loose fun _ => (sound_map reads_i2 _).loose
  · exact sound_fail _

theorem reads_operands (opcodeOffset : Nat) (opcode : UInt8) :
    Reads limit 0 (readOperands opcodeOffset opcode) := by
  unfold readOperands
  cases operandKind opcode with
  | simple => exact sound_pure _
  | byte => exact (sound_map reads_i1 _).loose
  | short => exact (sound_map reads_i2 _).loose
  | ldc => exact (sound_map reads_u1 _).loose
  | ldcWide => exact (sound_map reads_u2 _).loose
  | var => exact (sound_map reads_u1 _).loose
  | iinc => exact sound_then reads_u1.loose fun _ => (sound_map reads_i1 _).loose
  | jump => exact (sound_map reads_i2 _).loose
  | tableSwitch => exact reads_tableSwitch opcodeOffset
  | lookupSwitch => exact reads_lookupSwitch opcodeOffset
  | field => exact (sound_map reads_u2 _).loose
  | method => exact (sound_map reads_u2 _).loose
  | invokeInterface =>
      exact sound_then reads_u2.loose fun _ => sound_then reads_u1.loose fun _ =>
        (sound_map reads_u1 _).loose
  | invokeDynamic => exact sound_then reads_u2.loose fun _ => (sound_map reads_u2 _).loose
  | type => exact (sound_map reads_u2 _).loose
  | newarray => exact (sound_map reads_u1 _).loose
  | wide => exact reads_wide
  | multiANewArray => exact sound_then reads_u2.loose fun _ => (sound_map reads_u1 _).loose
  | jumpWide => exact (sound_map reads_i4 _).loose
  | invalid => exact sound_fail _

/-- An instruction takes its opcode at least. -/
theorem reads_insn : Reads limit 1 readInsn :=
  sound_then sound_position fun _ => sound_start reads_u1 fun _ =>
    sound_then (reads_operands _ _) fun _ => sound_pure _

theorem reads_codeInstructionsWithOffsets (code : List UInt8) :
    Reads limit 0 (parseCodeInstructionsWithOffsets code) := by
  have all : Reads (code.length + 1) 0 (untilEnd readInsn (code.length + 1)) :=
    sound_untilEnd (fun _ => reads_insn) (code.length + 1)
  unfold parseCodeInstructionsWithOffsets
  apply sound_then (sound_within all)
  intro result
  exact sound_pure result.1

theorem reads_codeInstructions (code : List UInt8) : Reads limit 0 (parseCodeInstructions code) :=
  sound_map (reads_codeInstructionsWithOffsets code) _

theorem reads_forEach {α : Type} {f : α → Reader Unit} (each : ∀ value, Reads limit 0 (f value))
    (values : List α) : Reads limit 0 (forEach f values) := by
  induction values with
  | nil => exact sound_pure ()
  | cons value values ih => exact sound_then (each value) fun _ => ih

theorem reads_jumps (instruction : UInt16 × Insn) : Reads limit 0 (match instruction with
    | (offset, insn) => forEach (jumpTarget offset) (jumpsOf insn)) := by
  obtain ⟨offset, insn⟩ := instruction
  exact reads_forEach (reads_jumpTarget offset) (jumpsOf insn)

theorem reads_insnNodes (code : List UInt8) (exceptionTable : List ExceptionTableEntry) (cp : Pool) :
    Reads limit 0 (buildInsnNodes code exceptionTable cp) := by
  unfold buildInsnNodes
  apply sound_then (reads_codeInstructionsWithOffsets code)
  intro instructions
  apply sound_then (reads_forEach reads_jumps instructions)
  intro _
  apply reads_forEach
  intro entry
  by_cases any : entry.catchType = 0
  · simp only [if_pos any]
    exact sound_pure ()
  · simp only [if_neg any]
    exact sound_then (sound_ofExcept _) fun _ => sound_pure ()

/-! ### Rows of attributes -/

/-- A row that starts with a number of two bytes takes a byte. -/
theorem reads_row {α : Type} {next : UInt16 → Reader α} (rest : ∀ value, Reads limit 0 (next value)) :
    Reads limit 1 (readU2 >>= next) :=
  (sound_start reads_u2 rest).mono (Nat.le_refl _) (by decide)

theorem reads_exceptionTableEntry : Reads limit 1 readExceptionTableEntry :=
  reads_row fun _ => sound_then reads_u2.loose fun _ => reads_two.loose

theorem reads_lineNumber : Reads limit 1 readLineNumber :=
  reads_row fun _ => (sound_map reads_u2 _).loose

theorem reads_localVariable : Reads limit 1 readLocalVariable :=
  reads_row fun _ => sound_then reads_u2.loose fun _ => sound_then reads_u2.loose fun _ =>
    reads_two.loose

theorem reads_innerClass : Reads limit 1 readInnerClass :=
  reads_row fun _ => sound_then reads_u2.loose fun _ => reads_two.loose

theorem reads_bootstrapMethod : Reads limit 1 readBootstrapMethod :=
  reads_row fun _ => (sound_map reads_tableU2 _).loose

theorem reads_methodParameter : Reads limit 1 readMethodParameter :=
  reads_row fun _ => (sound_map reads_u2 _).loose

theorem reads_moduleRequire : Reads limit 1 readModuleRequire :=
  reads_row fun _ => reads_two.loose

theorem reads_moduleExport : Reads limit 1 readModuleExport :=
  reads_row fun _ => sound_then reads_u2.loose fun _ => (sound_map reads_tableU2 _).loose

theorem reads_moduleOpen : Reads limit 1 readModuleOpen :=
  reads_row fun _ => sound_then reads_u2.loose fun _ => (sound_map reads_tableU2 _).loose

theorem reads_moduleProvide : Reads limit 1 readModuleProvide :=
  reads_row fun _ => (sound_map reads_tableU2 _).loose

theorem reads_moduleAttribute : Reads limit 0 parseModuleAttribute := by
  unfold parseModuleAttribute
  apply sound_then reads_u2.loose
  intro moduleNameIndex
  apply sound_then reads_u2.loose
  intro moduleFlags
  apply sound_then reads_u2.loose
  intro moduleVersionIndex
  apply sound_then (reads_table reads_moduleRequire).loose
  intro requires
  apply sound_then (reads_table reads_moduleExport).loose
  intro exports
  apply sound_then (reads_table reads_moduleOpen).loose
  intro opens
  apply sound_then reads_tableU2.loose
  intro usesIndex
  exact (sound_map (reads_table reads_moduleProvide) _).loose

theorem reads_verificationType : Reads limit 1 parseVerificationType := by
  unfold parseVerificationType
  apply sound_start reads_u1
  intro tag
  split
  · exact sound_pure _
  · exact sound_pure _
  · exact sound_pure _
  · exact sound_pure _
  · exact sound_pure _
  · exact sound_pure _
  · exact sound_pure _
  · exact (sound_map reads_u2 _).loose
  · exact (sound_map reads_u2 _).loose
  · exact sound_fail _

theorem reads_frame (frameType : UInt8) : Reads limit 0 (readFrame frameType) := by
  unfold readFrame
  split
  · exact sound_pure _
  split
  · exact (sound_map reads_verificationType _).loose
  split
  · exact sound_then reads_u2.loose fun _ => (sound_map reads_verificationType _).loose
  split
  · exact (sound_map reads_u2 _).loose
  split
  · exact (sound_map reads_u2 _).loose
  split
  · exact sound_then reads_u2.loose fun _ =>
      (sound_map (sound_table reads_verificationType _) _).loose
  split
  · exact sound_then reads_u2.loose fun _ =>
      sound_then (reads_table reads_verificationType).loose fun _ =>
        (sound_map (reads_table reads_verificationType) _).loose
  · exact sound_fail _

theorem reads_stackMapFrame : Reads limit 1 readStackMapFrame :=
  sound_start reads_u1 reads_frame

/-! ### Values of annotations -/

theorem reads_elementValuePair {value : Reader ElementValue} (inner : Reads limit 0 value) :
    Reads limit 1 (readElementValuePair value) :=
  reads_row fun _ => sound_then inner fun _ => sound_pure _

theorem reads_annotationWith {value : Reader ElementValue} (inner : Reads limit 0 value) :
    Reads limit 1 (parseAnnotationWith value) :=
  reads_row fun _ => (sound_map (reads_table (reads_elementValuePair inner)) _).loose

/-- Inside a value only values of one level less are read, on fewer bytes. -/
theorem reads_elementValue (depth : Nat) : Reads depth 1 (parseElementValue depth) := by
  induction depth with
  | zero => exact fun input ahead => absurd ahead (Nat.not_lt_zero _)
  | succ depth ih =>
      have afterTag (tag : UInt8) :
          Reads depth 0 (readElementValue (parseElementValue depth) tag) := by
        unfold readElementValue
        split
        · exact (sound_map reads_u2 _).loose
        split
        · exact sound_then reads_u2.loose fun _ => (sound_map reads_u2 _).loose
        split
        · exact (sound_map reads_u2 _).loose
        split
        · exact (sound_map (reads_annotationWith ih.loose) _).loose
        split
        · exact (sound_map (reads_table ih) _).loose
        · exact sound_fail _
      have all : Reads (depth + 1) (1 + 0) (parseElementValue (depth + 1)) :=
        sound_bind (reads_u1 : Reads (depth + 1) 1 readU1) afterTag
      exact all

theorem reads_annotationEntry (depth : Nat) : Reads depth 1 (parseAnnotationEntry depth) :=
  reads_annotationWith (reads_elementValue depth).loose

theorem reads_typePathEntry : Reads limit 1 readTypePathEntry :=
  sound_start reads_u1 fun _ => (sound_map reads_u1 _).loose

theorem reads_typePath : Reads limit 1 parseTypePath :=
  sound_map (reads_shortTable reads_typePathEntry) _

theorem reads_localVarTargetTableEntry : Reads limit 1 readLocalVarTargetTableEntry :=
  reads_row fun _ => reads_two.loose

theorem reads_targetInfo (targetType : UInt8) :
    Reads limit 0 (parseTypeAnnotationTargetInfo targetType) := by
  unfold parseTypeAnnotationTargetInfo
  cases targetKind targetType with
  | typeParameter => exact (sound_map reads_u1 _).loose
  | supertype => exact (sound_map reads_u2 _).loose
  | typeParameterBound => exact sound_then reads_u1.loose fun _ => (sound_map reads_u1 _).loose
  | empty => exact sound_pure _
  | formalParameter => exact (sound_map reads_u1 _).loose
  | throws => exact (sound_map reads_u2 _).loose
  | localVar => exact (sound_map (reads_table reads_localVarTargetTableEntry) _).loose
  | catch_ => exact (sound_map reads_u2 _).loose
  | offset => exact (sound_map reads_u2 _).loose
  | typeArgument => exact sound_then reads_u2.loose fun _ => (sound_map reads_u1 _).loose
  | invalid => exact sound_fail _

theorem reads_typeAnnotationEntry (depth : Nat) :
    Reads depth 1 (parseTypeAnnotationEntry depth) := by
  unfold parseTypeAnnotationEntry
  apply sound_start reads_u1
  intro targetType
  apply sound_then (reads_targetInfo targetType)
  intro targetInfo
  apply sound_then reads_typePath.loose
  intro targetPath
  exact (sound_map (reads_annotationEntry depth) _).loose

/-! ### Attributes -/

theorem reads_code {nested : Reader (List AttributeInfo)} (inner : Reads limit 0 nested) (cp : Pool) :
    Reads limit 0 (parseCode nested cp) := by
  unfold parseCode
  apply sound_then reads_u2.loose
  intro maxStack
  apply sound_then reads_u2.loose
  intro maxLocals
  apply sound_then reads_u4.loose
  intro codeLength
  apply sound_then (reads_bytes codeLength.toNat).loose
  intro code
  apply sound_then (reads_codeInstructions code)
  intro instructions
  apply sound_then (reads_table reads_exceptionTableEntry).loose
  intro exceptionTable
  apply sound_then inner
  intro attributes
  exact sound_then (reads_insnNodes code exceptionTable cp) fun _ => sound_pure _

theorem reads_recordComponent {nested : Reader (List AttributeInfo)} (inner : Reads limit 0 nested) :
    Reads limit 1 (readRecordComponent nested) :=
  reads_row fun _ => sound_then reads_u2.loose fun _ => sound_map inner _

/-- The contents of an attribute, whose length bounds the nesting of values in it. -/
theorem reads_known {nested : Reader (List AttributeInfo)} {depth : Nat}
    (inner : Reads depth 0 nested) (cp : Pool) (kind : AttributeKind) :
    Reads depth 0 (parseKnown nested cp depth kind) := by
  cases kind with
  | code => exact sound_map (reads_code inner cp) _
  | constantValue => exact (sound_map reads_u2 _).loose
  | exceptions => exact (sound_map reads_tableU2 _).loose
  | sourceFile => exact (sound_map reads_u2 _).loose
  | lineNumberTable => exact (sound_map (reads_table reads_lineNumber) _).loose
  | localVariableTable => exact (sound_map (reads_table reads_localVariable) _).loose
  | signature => exact (sound_map reads_u2 _).loose
  | stackMapTable => exact (sound_map (reads_table reads_stackMapFrame) _).loose
  | deprecated => exact sound_pure _
  | synthetic => exact sound_pure _
  | innerClasses => exact (sound_map (reads_table reads_innerClass) _).loose
  | enclosingMethod => exact reads_two.loose
  | module_ => exact sound_map reads_moduleAttribute _
  | modulePackages => exact (sound_map reads_tableU2 _).loose
  | moduleMainClass => exact (sound_map reads_u2 _).loose
  | bootstrapMethods => exact (sound_map (reads_table reads_bootstrapMethod) _).loose
  | methodParameters => exact (sound_map (reads_shortTable reads_methodParameter) _).loose
  | runtimeVisibleAnnotations =>
      exact (sound_map (reads_table (reads_annotationEntry depth)) _).loose
  | runtimeInvisibleAnnotations =>
      exact (sound_map (reads_table (reads_annotationEntry depth)) _).loose
  | runtimeVisibleParameterAnnotations =>
      have row := (reads_table (reads_annotationEntry depth)).mono (Nat.le_refl depth)
        (by decide : 1 ≤ 2)
      exact (sound_map (reads_shortTable row) _).loose
  | runtimeInvisibleParameterAnnotations =>
      have row := (reads_table (reads_annotationEntry depth)).mono (Nat.le_refl depth)
        (by decide : 1 ≤ 2)
      exact (sound_map (reads_shortTable row) _).loose
  | runtimeVisibleTypeAnnotations =>
      exact (sound_map (reads_table (reads_typeAnnotationEntry depth)) _).loose
  | runtimeInvisibleTypeAnnotations =>
      exact (sound_map (reads_table (reads_typeAnnotationEntry depth)) _).loose
  | permittedSubclasses => exact (sound_map reads_tableU2 _).loose
  | record => exact (sound_map (reads_table (reads_recordComponent inner)) _).loose
  | annotationDefault => exact (sound_map (reads_elementValue depth) _).loose

theorem reads_attributeContents {nested : Reader (List AttributeInfo)} {info : List UInt8}
    (inner : Reads (info.length + 1) 0 nested) (cp : Pool) (name : String) :
    Reads limit 0 (parseAttribute nested cp name info) := by
  unfold parseAttribute
  cases attributeKinds.lookup name with
  | none => exact sound_pure _
  | some kind =>
      apply sound_then (sound_within (reads_known inner cp kind))
      intro result
      obtain ⟨attr, left⟩ := result
      cases used : left.rest.isEmpty with
      | true => simpa only [used, if_true] using sound_pure attr
      | false => simpa [used] using sound_fail (ClassReadError.invalidAttribute name)

/-- The contents of an attribute are fewer bytes than it takes. -/
theorem reads_attribute {nested : Reader (List AttributeInfo)} {depth : Nat}
    (inner : Reads depth 0 nested) (cp : Pool) :
    Reads (depth + 1) 1 (readAttribute nested cp) := by
  have contents (length : UInt32) (name : String) :
      Reads depth 0 (readBytes length.toNat >>= parseAttribute nested cp name) := by
    have fewer (info : List UInt8) (ahead : info.length < depth) :
        Reads (depth - length.toNat) 0 (parseAttribute nested cp name info) :=
      reads_attributeContents (inner.mono ahead (Nat.le_refl _)) cp name
    exact (sound_bytes_bind fewer).loose
  have afterIndex (nameIndex : UInt16) : Reads depth 0 (do
      let length ← readU4
      let name ← ofExcept (cpUtf8At cp nameIndex)
      let info ← readBytes length.toNat
      parseAttribute nested cp name info) :=
    sound_then reads_u4.loose fun length => sound_then (sound_ofExcept _) fun name =>
      contents length name
  have all := sound_bind (reads_u2 : Reads (depth + 1) 2 readU2) fun nameIndex =>
    (afterIndex nameIndex).mono (by omega : depth + 1 - 2 ≤ depth) (Nat.le_refl _)
  exact all.mono (Nat.le_refl _) (by decide)

theorem reads_attributes (cp : Pool) (depth : Nat) : Reads depth 0 (readAttributes cp depth) := by
  induction depth with
  | zero => exact fun input ahead => absurd ahead (Nat.not_lt_zero _)
  | succ depth ih => exact (reads_table (reads_attribute ih cp)).loose

/-! ### The class file -/

theorem reads_field {attributes : Reader (List AttributeInfo)} (inner : Reads limit 0 attributes) :
    Reads limit 1 (readField attributes) :=
  reads_row fun _ => sound_then reads_u2.loose fun _ => sound_then reads_u2.loose fun _ =>
    sound_map inner _

theorem reads_method {attributes : Reader (List AttributeInfo)} (inner : Reads limit 0 attributes) :
    Reads limit 1 (readMethod attributes) :=
  reads_row fun _ => sound_then reads_u2.loose fun _ => sound_then reads_u2.loose fun _ =>
    sound_map inner _

theorem reads_members (depth : Nat) (minorVersion majorVersion : UInt16) (cp : Pool) :
    Reads depth 1 (readMembers depth minorVersion majorVersion cp) := by
  have attributes := reads_attributes cp depth
  unfold readMembers
  apply reads_row
  intro accessFlags
  apply sound_then reads_u2.loose
  intro thisClass
  apply sound_then reads_u2.loose
  intro superClass
  apply sound_then reads_tableU2.loose
  intro interfaces
  apply sound_then (reads_table (reads_field attributes)).loose
  intro fields
  apply sound_then (reads_table (reads_method attributes)).loose
  intro methods
  exact sound_map attributes _

/-- The entries of the pool and what follows them take a byte for each slot that is reserved. -/
theorem reads_poolAndMembers (depth : Nat) (minorVersion majorVersion : UInt16) (count : Nat) :
    Reads depth count (reserving count do
      let cp ← readPool count
      readMembers depth minorVersion majorVersion cp) := by
  have body : Reads depth (count - 1 + 1) (do
      let cp ← readPool count
      readMembers depth minorVersion majorVersion cp) :=
    sound_bind (reads_pool count) fun cp =>
      (reads_members depth minorVersion majorVersion cp).mono (Nat.sub_le _ _) (Nat.le_refl _)
  exact sound_reserving (body.mono (Nat.le_refl _) (by omega)) (Nat.le_refl count)

theorem reads_classFile (depth : Nat) : Reads depth 0 (classFileReader depth) := by
  unfold classFileReader
  apply sound_then reads_u4.loose
  intro magic
  by_cases known : magic ≠ 0xCAFEBABE
  · simp only [if_pos known]
    exact sound_fail _
  · simp only [if_neg known]
    apply sound_then reads_u2.loose
    intro minorVersion
    apply sound_then reads_u2.loose
    intro majorVersion
    by_cases newer : V25 < majorVersion
    · simp only [if_pos newer]
      exact sound_fail _
    · simp only [if_neg newer]
      apply sound_then reads_u2.loose
      intro count
      exact (reads_poolAndMembers depth minorVersion majorVersion count.toNat).loose

/-! ### The class node -/

theorem reads_methodNode (cp : Pool) (method : MethodInfo) : Reads limit 0 (methodNode cp method) := by
  unfold methodNode
  apply sound_then (sound_ofExcept _)
  intro name
  apply sound_then (sound_ofExcept _)
  intro descriptor
  apply sound_then (reads_codeInstructionsWithOffsets _)
  intro instructionOffsets
  exact sound_map (sound_ofExcept _) _

theorem reads_methodNodes (cp : Pool) (methods : List MethodInfo) :
    Reads limit 0 (methodNodes cp methods) := by
  induction methods with
  | nil => exact sound_pure []
  | cons method methods ih =>
      exact sound_then (reads_methodNode cp method) fun _ => sound_map ih _

theorem reads_toClassNode (classFile : ClassFile) : Reads limit 0 (toClassNode classFile) := by
  unfold toClassNode
  apply sound_then (sound_ofExcept _)
  intro name
  apply sound_then (sound_ofExcept _)
  intro superName
  apply sound_then (sound_ofExcept _)
  intro interfaces
  apply sound_then (sound_ofExcept _)
  intro fields
  apply sound_then (reads_methodNodes _ _)
  intro methods
  apply sound_then (sound_ofExcept _)
  intro innerClasses
  apply sound_then (sound_ofExcept _)
  intro outerClass
  apply sound_then (sound_ofExcept _)
  intro module_
  apply sound_then (sound_ofExcept _)
  intro permittedSubclasses
  exact sound_map (sound_ofExcept _) _

theorem reads_classNode (depth : Nat) : Reads depth 0 (classNodeReader depth) :=
  sound_then (reads_classFile depth) reads_toClassNode

/-- Reading some bytes as a class node is safe exactly when no number it comes past overflows, and no table
it leaves unfinished was reserved for more rows than bytes were left. -/
theorem reading_safe_iff (bytes : List UInt8) :
    (readClassNode bytes).Safe ↔
      (∀ place ∈ (readClassNode bytes).passed, ¬ place.Overflows) ∧
        ∀ r ∈ (readClassNode bytes).outcome.opened, r.Bounded :=
  (reads_classNode (bytes.length + 1) ⟨0, bytes⟩ (Nat.lt_succ_self _)).safe_iff

/-- A class whose one method is a table switch from the least `i32` to zero. -/
def overflowingSwitch : List UInt8 :=
  [0xCA, 0xFE, 0xBA, 0xBE, 0, 0, 0, 52, 0, 2, 1, 0, 4, 0x43, 0x6F, 0x64, 0x65,
   0, 0, 0, 0, 0, 0, 0, 0, 0, 0, 0, 1,
   0, 0, 0, 1, 0, 1, 0, 1, 0, 1, 0, 0, 0, 28, 0, 0, 0, 0, 0, 0, 0, 16,
   0xAA, 0, 0, 0, 0, 0, 0, 0, 0x80, 0, 0, 0, 0, 0, 0, 0, 0, 0, 0, 0, 0, 0]

/-- The number of its offsets overflows; and a class file that ends behind the count of its pool has
reserved that many slots for nothing. -/
theorem reading_unsafe :
    ¬ (readClassNode overflowingSwitch).Safe ∧
      ¬ (readClassNode [0xCA, 0xFE, 0xBA, 0xBE, 0, 0, 0, 61, 0xFF, 0xFF]).Safe := by
  constructor
  · intro safe
    have run := reads_classNode (overflowingSwitch.length + 1) ⟨0, overflowingSwitch⟩
      (Nat.lt_succ_self _)
    have met : Place.span (-2147483648) 0 ∈ (readClassNode overflowingSwitch).passed := by
      decide +kernel
    exact (run.safe_iff.mp safe).1 _ met ⟨by decide, by decide⟩
  · intro safe
    have bounded := safe.2 ⟨65535, 0⟩ (by decide +kernel)
    simp [Reservation.Bounded] at bounded

end CaffeineLs.RustAsm
