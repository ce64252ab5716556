/-
Module: CaffeineLs.Proofs.BytecodeRoundTrip
Purpose: The instructions of a code array, emitted again: the same bytes in number and the same
  instructions at the same offsets, as long as none of them is in a `wide` form.
Trusted boundary: none
Main exports: exact_readU2, accepts_readInsn, opcodesOf
-/
import CaffeineLs.RustAsm.CodeReader
import CaffeineLs.Lib.ByteCodec

namespace CaffeineLs.RustAsm

open Wire ByteReader

/-! ### Numbers -/

theorem exact_readU1 : Exact readU1 writeU1 := by
  have number := @exact_number ClassReadError Place UInt8 .unexpectedEof 1 UInt8.ofNat UInt8.toNat
    (fun _ => UInt8.ofNat_toNat) (fun a => a.toNat_lt)
    (fun _ small => UInt8.toNat_ofNat_of_lt' small)
  have same : (fun value : UInt8 => bigEndian 1 value.toNat) = writeU1 := by
    funext value
    simp [bigEndian, writeU1]
  rw [same] at number
  exact number

theorem exact_readU2 : Exact readU2 writeU2 :=
  @exact_number ClassReadError Place UInt16 .unexpectedEof 2 UInt16.ofNat UInt16.toNat
    (fun _ => UInt16.ofNat_toNat) (fun a => a.toNat_lt)
    (fun _ small => UInt16.toNat_ofNat_of_lt' small)

theorem exact_readU4 : Exact readU4 writeU4 :=
  @exact_number ClassReadError Place UInt32 .unexpectedEof 4 UInt32.ofNat UInt32.toNat
    (fun _ => UInt32.ofNat_toNat) (fun a => a.toNat_lt)
    (fun _ small => UInt32.toNat_ofNat_of_lt' small)

theorem exact_readI1 : Exact readI1 writeI1 :=
  exact_readU1.map (f := UInt8.toInt8) (g := Int8.toUInt8) (fun _ => rfl) (fun _ => rfl)

theorem exact_readI2 : Exact readI2 writeI2 :=
  exact_readU2.map (f := UInt16.toInt16) (g := Int16.toUInt16) (fun _ => rfl) (fun _ => rfl)

theorem exact_readI4 : Exact readI4 writeI4 :=
  exact_readU4.map (f := UInt32.toInt32) (g := Int32.toUInt32) (fun _ => rfl) (fun _ => rfl)

@[simp] theorem length_writeU1 (value : UInt8) : (writeU1 value).length = 1 := rfl

@[simp] theorem length_writeI1 (value : Int8) : (writeI1 value).length = 1 := rfl

@[simp] theorem length_writeU2 (value : UInt16) : (writeU2 value).length = 2 := rfl

@[simp] theorem length_writeI2 (value : Int16) : (writeI2 value).length = 2 := rfl

@[simp] theorem length_writeU4 (value : UInt32) : (writeU4 value).length = 4 := rfl

@[simp] theorem length_writeI4 (value : Int32) : (writeI4 value).length = 4 := rfl

/-! ### Opcodes -/

theorem forall_byte {P : UInt8 → Prop} (all : ∀ n, n < 256 → P (UInt8.ofNat n)) (byte : UInt8) :
    P byte := by
  have here := all byte.toNat byte.toNat_lt
  rw [UInt8.ofNat_toNat] at here
  exact here

/-- The opcodes whose operands are of a kind, for the kinds that few opcodes have. -/
def OperandKind.HasOpcode (opcode : UInt8) : OperandKind → Prop
  | .byte => opcode = opcodes.BIPUSH
  | .short => opcode = opcodes.SIPUSH
  | .newarray => opcode = opcodes.NEWARRAY
  | .ldc => opcode = opcodes.LDC
  | .ldcWide => opcode = opcodes.LDC_W ∨ opcode = opcodes.LDC2_W
  | .jump => opcode ≠ opcodes.GOTO_W ∧ opcode ≠ opcodes.JSR_W
  | .jumpWide => opcode = opcodes.GOTO_W ∨ opcode = opcodes.JSR_W
  | .tableSwitch => opcode = 0xAA
  | .lookupSwitch => opcode = 0xAB
  | .invokeDynamic => opcode = 0xBA
  | .wide => opcode = 0xC4
  | _ => True

instance (opcode : UInt8) (kind : OperandKind) : Decidable (kind.HasOpcode opcode) := by
  cases kind <;> unfold OperandKind.HasOpcode <;> infer_instance

theorem hasOpcode_operandKind : ∀ opcode, (operandKind opcode).HasOpcode opcode :=
  forall_byte (by decide +kernel)

/-- What the kind of the operands says of the opcode. -/
theorem opcode_of_kind {opcode : UInt8} {kind : OperandKind} (here : operandKind opcode = kind) :
    kind.HasOpcode opcode :=
  here ▸ hasOpcode_operandKind opcode

theorem kind_wide (opcode : UInt8) : operandKind opcode = .wide ↔ opcode = 0xC4 := by
  constructor
  · exact opcode_of_kind
  · intro here
    rw [here]
    rfl

/-! ### One instruction -/

/-- The instruction is emitted in as many bytes as it was read from, and these are read as the same
instruction. -/
def Reemitted (offset : Nat) (opcode : UInt8) (input : Input) (insn : Insn) (input' : Input) : Prop :=
  ∃ operands, emitInsnRaw offset insn = .ok (opcode :: operands, insn) ∧
    input.rest.length = operands.length + input'.rest.length ∧
    input'.pos = input.pos + operands.length ∧ Decodes (readOperands offset opcode) operands insn

/-- An instruction whose operands are read and written as one value. -/
theorem reemitted_of_recodes {α : Type} {offset : Nat} {opcode : UInt8} {r : Reader α}
    {emit : α → List UInt8} {f : α → Insn} (recodes : Recodes r emit)
    (reads : readOperands offset opcode = do
      let value ← r
      pure (f value))
    (emits : ∀ value, emitInsnRaw offset (f value) = .ok (opcode :: emit value, f value))
    {input input' : Input} {insn : Insn}
    (accepted : Accepts (readOperands offset opcode) input insn input') :
    Reemitted offset opcode input insn input' := by
  rw [reads] at accepted
  obtain ⟨value, input₁, first, rest⟩ := accepts_bind.mp accepted
  obtain ⟨rfl, rfl⟩ := accepts_pure.mp rest
  obtain ⟨length, moved, decodes⟩ := recodes _ _ _ first
  refine ⟨emit value, emits value, length, moved, ?_⟩
  rw [reads, ← List.append_nil (emit value)]
  exact decodes_bind decodes (decodes_pure _)

/-- The padding of a switch is read as any bytes and written as zeros. -/
theorem recodes_align4 (opcodeOffset : Nat) :
    Recodes (align4 opcodeOffset) fun _ => writeSwitchPadding opcodeOffset := by
  let width := (4 - (opcodeOffset + 1) % 4) % 4
  have zeros : Decodes (rows readU1 width) (writeSwitchPadding opcodeOffset)
      (List.replicate width 0) := by
    have each := @decodes_rows _ _ _ readU1 writeU1 (List.replicate width 0) fun value _ =>
      exact_readU1.decodes value
    have same : (List.replicate width (0 : UInt8)).flatMap writeU1 =
        writeSwitchPadding opcodeOffset := by
      have single : writeU1 = fun value => [value] := rfl
      rw [single, List.flatMap_singleton']
      rfl
    rw [List.length_replicate, same] at each
    exact each
  apply (Recodes.rows exact_readU1 width).ignore zeros
  intro input values input' accepted
  obtain ⟨length, -, -⟩ := (accepts_rows exact_readU1 width).mp accepted
  have single : writeU1 = fun value => [value] := rfl
  rw [single, List.flatMap_singleton', length, writeSwitchPadding, List.length_replicate]

/-- The count of a table switch takes no bytes. -/
theorem switchCount_silent (low high : Int32) (input : Input) (count : Nat) (input' : Input)
    (accepted : Accepts (switchCount low high) input count input') :
    input = input' ∧ Decodes (switchCount low high) [] count := by
  unfold switchCount at accepted ⊢
  obtain ⟨_, input₁, passed, rest⟩ := accepts_bind.mp accepted
  obtain rfl := accepts_pass.mp passed
  by_cases empty : high < low
  · rw [if_pos empty] at rest
    obtain ⟨rfl, rfl⟩ := accepts_pure.mp rest
    refine ⟨rfl, decodes_bind (decodes_pass _) ?_⟩
    rw [if_pos empty]
    exact decodes_pure _
  · rw [if_neg empty] at rest
    by_cases small : high.toInt - low.toInt + 1 < 2 ^ 31
    · rw [if_pos small] at rest
      obtain ⟨rfl, rfl⟩ := accepts_pure.mp rest
      refine ⟨rfl, decodes_bind (decodes_pass _) ?_⟩
      rw [if_neg empty, if_pos small]
      exact decodes_pure _
    · rw [if_neg small] at rest
      exact absurd rest not_accepts_stop

/-- The number of pairs takes no bytes, and is the number that was read. -/
theorem pairCount_silent {npairs : Int32} {input : Input} {count : Nat} {input' : Input}
    (accepted : Accepts (pairCount npairs) input count input') :
    input = input' ∧ Decodes (pairCount npairs) [] count ∧
      writeI4 npairs = writeU4 (UInt32.ofNat count) := by
  unfold pairCount at accepted ⊢
  obtain ⟨_, input₁, passed, rest⟩ := accepts_bind.mp accepted
  obtain rfl := accepts_pass.mp passed
  by_cases negative : npairs < 0
  · rw [if_pos negative] at rest
    exact absurd rest not_accepts_stop
  · rw [if_neg negative] at rest
    obtain ⟨rfl, rfl⟩ := accepts_pure.mp rest
    refine ⟨rfl, decodes_bind (decodes_pass _) ?_, ?_⟩
    · rw [if_neg negative]
      exact decodes_pure _
    · have positive : 0 ≤ npairs.toInt := by
        rw [Int32.lt_iff_toInt_lt, Int.not_lt] at negative
        exact negative
      have bits : npairs.toInt = npairs.toBitVec.toInt := rfl
      rw [writeI4]
      congr 1
      apply UInt32.toNat_inj.mp
      rw [UInt32.toNat_ofNat', bits]
      rw [bits, BitVec.toInt_eq_toNat_cond] at positive
      rw [BitVec.toInt_eq_toNat_cond]
      have bounded := npairs.toBitVec.isLt
      change npairs.toBitVec.toNat = _
      split at positive
      · rename_i small
        rw [if_pos small]
        omega
      · omega

theorem exact_readPair : Exact readPair fun p => writeI4 p.1 ++ writeI4 p.2 := by
  intro input value input'
  unfold readPair
  rw [accepts_bind]
  constructor
  · intro ⟨key, input₁, first, later⟩
    obtain ⟨offset, input₂, second, ends⟩ := accepts_bind.mp later
    obtain ⟨rfl, rfl⟩ := accepts_pure.mp ends
    obtain ⟨ahead₁, moved₁⟩ := (exact_readI4 _ _ _).mp first
    obtain ⟨ahead₂, moved₂⟩ := (exact_readI4 _ _ _).mp second
    refine ⟨by rw [ahead₁, ahead₂, List.append_assoc], ?_⟩
    rw [moved₂, moved₁, List.length_append, Nat.add_assoc]
  · intro ⟨ahead, moved⟩
    obtain ⟨key, offset⟩ := value
    rw [List.append_assoc] at ahead
    rw [List.length_append, ← Nat.add_assoc] at moved
    refine ⟨key, ⟨input.pos + (writeI4 key).length, writeI4 offset ++ input'.rest⟩,
      (exact_readI4 _ _ _).mpr ⟨ahead, rfl⟩, accepts_bind.mpr ⟨offset, input', ?_, ?_⟩⟩
    · exact (exact_readI4 _ _ _).mpr ⟨rfl, moved⟩
    · exact accepts_pure.mpr ⟨rfl, rfl⟩

/-- The number of pairs of a lookup switch is written from the pairs. -/
theorem recodes_pairs :
    Recodes (do
      let npairs ← readI4
      let count ← pairCount npairs
      table count readPair) fun pairs =>
      writeU4 (UInt32.ofNat pairs.length) ++ pairs.flatMap fun p => writeI4 p.1 ++ writeI4 p.2 := by
  intro input pairs input' accepted
  obtain ⟨npairs, input₁, first, later⟩ := accepts_bind.mp accepted
  obtain ⟨count, input₂, second, third⟩ := accepts_bind.mp later
  obtain ⟨ahead₁, moved₁⟩ := (exact_readI4 _ _ _).mp first
  obtain ⟨length, ahead₃, moved₃⟩ := (accepts_table exact_readPair count).mp third
  obtain ⟨rfl, decodes, same⟩ := pairCount_silent second
  have written : Decodes (table count readPair)
      (pairs.flatMap fun p => writeI4 p.1 ++ writeI4 p.2) pairs := by
    rw [← length]
    exact decodes_table fun value _ => exact_readPair.decodes value
  dsimp only
  rw [length, ← same]
  refine ⟨?_, ?_, decodes_bind (exact_readI4.decodes npairs) (decodes_bind decodes written)⟩
  · rw [ahead₁, ahead₃, List.length_append, List.length_append, List.length_append, Nat.add_assoc]
  · rw [moved₃, moved₁, List.length_append, Nat.add_assoc]

theorem reemitted_operands {offset : Nat} {opcode : UInt8} {input input' : Input} {insn : Insn}
    (narrow : operandKind opcode ≠ .wide)
    (accepted : Accepts (readOperands offset opcode) input insn input') :
    Reemitted offset opcode input insn input' := by
  cases kind : operandKind opcode with
  | wide => exact absurd kind narrow
  | invalid =>
      rw [readOperands, kind] at accepted
      exact absurd accepted not_accepts_fail
  | simple =>
      have reads : readOperands offset opcode = (do
          let _ ← pure ()
          pure (.simple ⟨opcode⟩)) := by
        rw [readOperands, kind]
      exact reemitted_of_recodes (f := fun _ => .simple ⟨opcode⟩) (recodes_pure ()) reads
        (fun _ => rfl) accepted
  | byte =>
      obtain rfl := opcode_of_kind kind
      exact reemitted_of_recodes exact_readI1.recodes rfl (fun value => by simp [emitInsnRaw]) accepted
  | short =>
      obtain rfl := opcode_of_kind kind
      have long : opcodes.SIPUSH ≠ opcodes.BIPUSH := by decide
      exact reemitted_of_recodes exact_readI2.recodes rfl
        (fun value => by simp [emitInsnRaw, long]) accepted
  | newarray =>
      obtain rfl := opcode_of_kind kind
      have other : opcodes.NEWARRAY ≠ opcodes.BIPUSH ∧ opcodes.NEWARRAY ≠ opcodes.SIPUSH := by decide
      have back : ∀ value : UInt8, value.toUInt32.toInt32.toInt8.toUInt8 = value :=
        forall_byte (by decide +kernel)
      exact reemitted_of_recodes exact_readU1.recodes rfl
        (fun value => by simp [emitInsnRaw, other.1, other.2, back]) accepted
  | ldc =>
      obtain rfl := opcode_of_kind kind
      exact reemitted_of_recodes exact_readU1.recodes rfl (fun value => by simp [emitInsnRaw]) accepted
  | ldcWide =>
      have listed : opcode = opcodes.LDC_W ∨ opcode = opcodes.LDC2_W := opcode_of_kind kind
      have wide : opcode ≠ opcodes.LDC := by
        rcases listed with rfl | rfl <;> decide
      exact reemitted_of_recodes (f := fun index => .ldc { insn := ⟨opcode⟩, value := .index index })
        exact_readU2.recodes (by rw [readOperands, kind])
        (fun value => by simp [emitInsnRaw, listed, wide]) accepted
  | var =>
      exact reemitted_of_recodes
        (f := fun varIndex => .var { insn := ⟨opcode⟩, varIndex := varIndex.toUInt16 })
        exact_readU1.recodes (by rw [readOperands, kind]) (fun value => by simp [emitInsnRaw])
        accepted
  | iinc =>
      have reads : readOperands offset opcode = (do
          let p ← (do
            let varIndex ← readU1
            let increment ← readI1
            pure (varIndex, increment))
          pure (.iinc
            { insn := ⟨opcode⟩, varIndex := p.1.toUInt16, increment := p.2.toInt16 })) := by
        rw [readOperands, kind]
        simp
      exact reemitted_of_recodes (exact_readU1.recodes.pair fun _ => exact_readI1.recodes) reads
        (fun value => by simp [emitInsnRaw]) accepted
  | jump =>
      have short := opcode_of_kind kind
      exact reemitted_of_recodes
        (f := fun offset => .jump { insn := ⟨opcode⟩, offset := offset.toInt32 })
        exact_readI2.recodes (by rw [readOperands, kind])
        (fun value => by simp [emitInsnRaw, short.1, short.2]) accepted
  | jumpWide =>
      have listed : opcode = opcodes.GOTO_W ∨ opcode = opcodes.JSR_W := opcode_of_kind kind
      exact reemitted_of_recodes (f := fun offset => .jump { insn := ⟨opcode⟩, offset := offset })
        exact_readI4.recodes (by rw [readOperands, kind])
        (fun value => by simp [emitInsnRaw, listed]) accepted
  | field =>
      exact reemitted_of_recodes (f := fun index => .field { insn := ⟨opcode⟩, fieldRef := .index index })
        exact_readU2.recodes (by rw [readOperands, kind]) (fun value => by simp [emitInsnRaw])
        accepted
  | method =>
      exact reemitted_of_recodes (f := fun index => .method { insn := ⟨opcode⟩, methodRef := .index index })
        exact_readU2.recodes (by rw [readOperands, kind]) (fun value => by simp [emitInsnRaw])
        accepted
  | type =>
      exact reemitted_of_recodes (f := fun index => .type { insn := ⟨opcode⟩, typeIndex := index })
        exact_readU2.recodes (by rw [readOperands, kind]) (fun value => by simp [emitInsnRaw])
        accepted
  | multiANewArray =>
      have reads : readOperands offset opcode = (do
          let p ← (do
            let typeIndex ← readU2
            let dimensions ← readU1
            pure (typeIndex, dimensions))
          pure (.multiANewArray { insn := ⟨opcode⟩, typeIndex := p.1, dimensions := p.2 })) := by
        rw [readOperands, kind]
        simp
      exact reemitted_of_recodes (exact_readU2.recodes.pair fun _ => exact_readU1.recodes) reads
        (fun value => by simp [emitInsnRaw]) accepted
  | invokeInterface =>
      have ignored := exact_readU1.recodes.ignore (exact_readU1.decodes 0) fun _ _ _ _ => rfl
      have reads : readOperands offset opcode = (do
          let p ← (do
            let methodIndex ← readU2
            let q ← (do
              let count ← readU1
              let u ← (do
                let _ ← readU1
                pure ())
              pure (count, u))
            pure (methodIndex, q))
          pure (.invokeInterface { insn := ⟨opcode⟩, methodIndex := p.1, count := p.2.1 })) := by
        rw [readOperands, kind]
        simp
      exact reemitted_of_recodes
        (exact_readU2.recodes.pair fun _ => exact_readU1.recodes.pair fun _ => ignored) reads
        (fun value => by simp [emitInsnRaw]) accepted
  | invokeDynamic =>
      obtain rfl := opcode_of_kind kind
      have ignored := exact_readU2.recodes.ignore (exact_readU2.decodes 0) fun _ _ _ _ => rfl
      have reads : readOperands offset 0xBA = (do
          let p ← (do
            let methodIndex ← readU2
            let u ← (do
              let _ ← readU2
              pure ())
            pure (methodIndex, u))
          pure (.invokeDynamic
            { insn := ⟨0xBA⟩
              methodIndex := p.1
              name := none
              descriptor := none
              bootstrapMethod := none
              bootstrapArgs := [] })) := by
        rw [readOperands, kind]
        simp
      exact reemitted_of_recodes (exact_readU2.recodes.pair fun _ => ignored) reads
        (fun value => by simp [emitInsnRaw]) accepted
  | tableSwitch =>
      obtain rfl := opcode_of_kind kind
      have reads : readOperands offset 0xAA = (do
          let p ← (do
            let u ← align4 offset
            let q ← (do
              let defaultOffset ← readI4
              let q ← (do
                let low ← readI4
                let q ← (do
                  let high ← readI4
                  let offsets ← (do
                    let count ← switchCount low high
                    table count readI4)
                  pure (high, offsets))
                pure (low, q))
              pure (defaultOffset, q))
            pure (u, q))
          pure (.tableSwitch
            { insn := ⟨0xAA⟩, defaultOffset := p.2.1, low := p.2.2.1, high := p.2.2.2.1,
              offsets := p.2.2.2.2 })) := by
        rw [readOperands, kind]
        simp [readTableSwitch]
      have offsets (low high : Int32) :=
        Recodes.behind (switchCount_silent low high) fun count => Recodes.table exact_readI4 count
      exact reemitted_of_recodes
        ((recodes_align4 offset).pair fun _ => exact_readI4.recodes.pair fun _ =>
          exact_readI4.recodes.pair fun low => exact_readI4.recodes.pair fun high =>
            offsets low high) reads
        (fun value => by simp [emitInsnRaw]) accepted
  | lookupSwitch =>
      obtain rfl := opcode_of_kind kind
      have reads : readOperands offset 0xAB = (do
          let p ← (do
            let u ← align4 offset
            let q ← (do
              let defaultOffset ← readI4
              let pairs ← (do
                let npairs ← readI4
                let count ← pairCount npairs
                table count readPair)
              pure (defaultOffset, pairs))
            pure (u, q))
          pure (.lookupSwitch { insn := ⟨0xAB⟩, defaultOffset := p.2.1, pairs := p.2.2 })) := by
        rw [readOperands, kind]
        simp [readLookupSwitch]
      exact reemitted_of_recodes
        ((recodes_align4 offset).pair fun _ => exact_readI4.recodes.pair fun _ => recodes_pairs) reads
        (fun value => by simp [emitInsnRaw]) accepted

theorem length_rest {input input' : Input} {written : List UInt8}
    (ahead : input.rest = written ++ input'.rest) :
    input.rest.length = written.length + input'.rest.length := by
  rw [ahead, List.length_append]

/-- A widened instruction is emitted in its narrow form, which is shorter by two bytes for an access
of a variable and by three for an increment. -/
theorem widened_operands {offset : Nat} {input input' : Input} {insn : Insn}
    (accepted : Accepts (readOperands offset 0xC4) input insn input') :
    ∃ opcode operands narrow lost, operandKind opcode ≠ .wide ∧ 0 < lost ∧ lost < 4 ∧
      emitInsnRaw offset insn = .ok (opcode :: operands, insn) ∧
      Decodes (readOperands offset opcode) operands narrow ∧
      input.rest.length = operands.length + lost + input'.rest.length ∧
      input'.pos = input.pos + operands.length + lost := by
  have wide : readOperands offset 0xC4 = readWide := by
    rw [readOperands, (kind_wide 0xC4).mpr rfl]
  rw [wide] at accepted
  obtain ⟨place, input₀, here, rest⟩ := accepts_bind.mp accepted
  obtain ⟨rfl, rfl⟩ := accepts_position.mp here
  obtain ⟨opcode, input₁, first, later⟩ := accepts_bind.mp rest
  obtain ⟨ahead₁, moved₁⟩ := (exact_readU1 _ _ _).mp first
  cases kind : operandKind opcode with
  | var =>
      rw [kind] at later
      obtain ⟨varIndex, input₂, second, ends⟩ := accepts_bind.mp later
      obtain ⟨rfl, rfl⟩ := accepts_pure.mp ends
      obtain ⟨ahead₂, moved₂⟩ := (exact_readU2 _ _ _).mp second
      refine ⟨opcode, writeU1 varIndex.toUInt8 ++ [],
        .var { insn := ⟨opcode⟩, varIndex := varIndex.toUInt8.toUInt16 }, 2, ?_, by decide,
        by decide, ?_, ?_, ?_, ?_⟩
      · rw [kind]
        decide
      · simp [emitInsnRaw]
      · rw [readOperands, kind]
        exact decodes_bind (exact_readU1.decodes _) (decodes_pure _)
      · rw [length_rest ahead₁, length_rest ahead₂]
        simp
        omega
      · rw [moved₂, moved₁]
        simp
  | iinc =>
      rw [kind] at later
      obtain ⟨varIndex, input₂, second, later'⟩ := accepts_bind.mp later
      obtain ⟨increment, input₃, third, ends⟩ := accepts_bind.mp later'
      obtain ⟨rfl, rfl⟩ := accepts_pure.mp ends
      obtain ⟨ahead₂, moved₂⟩ := (exact_readU2 _ _ _).mp second
      obtain ⟨ahead₃, moved₃⟩ := (exact_readI2 _ _ _).mp third
      refine ⟨opcode, writeU1 varIndex.toUInt8 ++ (writeI1 increment.toInt8 ++ []),
        .iinc
          { insn := ⟨opcode⟩, varIndex := varIndex.toUInt8.toUInt16,
            increment := increment.toInt8.toInt16 }, 3, ?_, by decide, by decide, ?_, ?_, ?_, ?_⟩
      · rw [kind]
        decide
      · simp [emitInsnRaw]
      · rw [readOperands, kind]
        exact decodes_bind (exact_readU1.decodes _)
          (decodes_bind (exact_readI1.decodes _) (decodes_pure _))
      · rw [length_rest ahead₁, length_rest ahead₂, length_rest ahead₃]
        simp
        omega
      · rw [moved₃, moved₂, moved₁]
        simp
  | _ =>
      rw [kind] at later
      exact absurd later not_accepts_fail

/-! ### A whole code array -/

/-- The instructions that are read from a code array, with their offsets. -/
def InstructionsOf (code : List UInt8) (insns : List (UInt16 × Insn)) : Prop :=
  ∀ input, Accepts (parseCodeInstructionsWithOffsets code) input insns input

/-- One instruction, for the opcode it starts with. -/
def readOpcode : Reader UInt8 := do
  let input ← position
  let opcode ← readU1
  let _ ← readOperands input.pos opcode
  pure opcode

/-- The opcodes at which the instructions of a code array start. -/
def OpcodesOf (code opcodes : List UInt8) : Prop :=
  ∃ left, Accepts (untilEnd readOpcode (code.length + 1)) { pos := 0, rest := code } opcodes left

/-- Some instruction is in a `wide` form. -/
def HasWide (code : List UInt8) : Prop := ∃ opcodes, OpcodesOf code opcodes ∧ 0xC4 ∈ opcodes

/-- The instructions are emitted as a code array of the same length, in which the same instructions
stand at the same offsets. -/
def RoundTrips (code : List UInt8) (insns : List (UInt16 × Insn)) : Prop :=
  ∃ code' instructions, buildCodeFromInsnList (insns.map Prod.snd) = .ok (code', instructions) ∧
    code'.length = code.length ∧ InstructionsOf code' insns

/-- The instructions ahead with their opcodes and offsets. -/
inductive Parsed : Input → List (UInt8 × UInt16 × Insn) → Prop where
  | finished (pos : Nat) : Parsed { pos := pos, rest := [] } []
  | insn {input input₁ input' : Input} {opcode : UInt8} {insn : Insn}
      {rows : List (UInt8 × UInt16 × Insn)} (first : Accepts readU1 input opcode input₁)
      (operands : Accepts (readOperands input.pos opcode) input₁ insn input')
      (later : Parsed input' rows) : Parsed input ((opcode, UInt16.ofNat input.pos, insn) :: rows)

theorem Accepts.unique {α : Type} {r : Reader α} {input input₁ input₂ : Input} {a b : α}
    (one : Accepts r input a input₁) (two : Accepts r input b input₂) : a = b ∧ input₁ = input₂ :=
  Outcome.ok.inj (one.symm.trans two)

theorem Parsed.unique {input : Input} {rows rows' : List (UInt8 × UInt16 × Insn)}
    (parsed : Parsed input rows) (parsed' : Parsed input rows') : rows = rows' := by
  induction parsed generalizing rows' with
  | finished pos =>
      cases parsed' with
      | finished => rfl
      | insn first _ _ =>
          obtain ⟨ahead, -⟩ := (exact_readU1 _ _ _).mp first
          cases ahead
  | insn first operands _ ih =>
      cases parsed' with
      | finished =>
          obtain ⟨ahead, -⟩ := (exact_readU1 _ _ _).mp first
          cases ahead
      | insn first' operands' later' =>
          obtain ⟨rfl, rfl⟩ := Accepts.unique first first'
          obtain ⟨rfl, rfl⟩ := Accepts.unique operands operands'
          rw [ih later']

theorem operands_le {offset : Nat} {opcode : UInt8} {input input' : Input} {insn : Insn}
    (accepted : Accepts (readOperands offset opcode) input insn input') :
    input'.rest.length ≤ input.rest.length := by
  by_cases wide : opcode = 0xC4
  · subst wide
    obtain ⟨_, operands, _, lost, -, -, -, -, -, length, -⟩ := widened_operands accepted
    omega
  · obtain ⟨operands, -, length, -⟩ :=
      reemitted_operands (fun kind => wide ((kind_wide opcode).mp kind)) accepted
    omega

/-- A reader of one instruction run over all that is ahead. -/
theorem accepts_all {α : Type} {step : Reader α} {view : UInt8 × UInt16 × Insn → α}
    (steps : ∀ input value input', Accepts step input value input' ↔
      ∃ opcode input₁ insn, Accepts readU1 input opcode input₁ ∧
        Accepts (readOperands input.pos opcode) input₁ insn input' ∧
        value = view (opcode, UInt16.ofNat input.pos, insn))
    {fuel : Nat} {input : Input} {values : List α} (enough : input.rest.length < fuel) :
    (∃ left, Accepts (untilEnd step fuel) input values left) ↔
      ∃ rows, Parsed input rows ∧ values = rows.map view := by
  induction fuel generalizing input values with
  | zero => cases enough
  | succ fuel ih =>
      constructor
      · intro ⟨left, accepted⟩
        rcases accepts_untilEnd_succ.mp accepted with
          ⟨finished, rfl, -⟩ | ⟨-, value, middle, others, first, later, rfl⟩
        · refine ⟨[], ?_, rfl⟩
          obtain ⟨pos, rest⟩ := input
          obtain rfl : rest = [] := finished
          exact .finished pos
        · obtain ⟨opcode, input₁, insn, one, operands, rfl⟩ := (steps _ _ _).mp first
          have shorter := operands_le operands
          rw [length_rest ((exact_readU1 _ _ _).mp one).1, length_writeU1] at enough
          obtain ⟨rows, parsed, rfl⟩ := (ih (by omega)).mp ⟨left, later⟩
          exact ⟨_, .insn one operands parsed, rfl⟩
      · intro ⟨rows, parsed, same⟩
        subst same
        cases parsed with
        | finished pos => exact ⟨_, accepts_untilEnd_succ.mpr (.inl ⟨rfl, rfl, rfl⟩)⟩
        | insn one operands later =>
            rename_i input₁ middle opcode insn rows
            have shorter := operands_le operands
            have ahead := ((exact_readU1 _ _ _).mp one).1
            rw [length_rest ahead, length_writeU1] at enough
            have more : input.rest ≠ [] := by
              rw [ahead]
              exact List.cons_ne_nil _ _
            have short : middle.rest.length < fuel := by omega
            obtain ⟨left, accepted⟩ := (ih short).mpr ⟨rows, later, rfl⟩
            exact ⟨left, accepts_untilEnd_succ.mpr (.inr ⟨more, _, _, _,
              (steps _ _ _).mpr ⟨_, _, _, one, operands, rfl⟩, accepted, rfl⟩)⟩

/-- What is made of an instruction is made of its offset, its opcode and its operands. -/
theorem accepts_withOperands {α : Type} (f : Nat → UInt8 → Insn → α) (input : Input) (value : α)
    (input' : Input) :
    Accepts (do
      let here ← position
      let opcode ← readU1
      let insn ← readOperands here.pos opcode
      pure (f here.pos opcode insn)) input value input' ↔
      ∃ opcode input₁ insn, Accepts readU1 input opcode input₁ ∧
        Accepts (readOperands input.pos opcode) input₁ insn input' ∧
        value = f input.pos opcode insn := by
  constructor
  · intro accepted
    obtain ⟨place, input₀, here, rest⟩ := accepts_bind.mp accepted
    obtain ⟨rfl, rfl⟩ := accepts_position.mp here
    obtain ⟨opcode, input₁, first, later⟩ := accepts_bind.mp rest
    obtain ⟨insn, input₂, operands, ends⟩ := accepts_bind.mp later
    obtain ⟨rfl, rfl⟩ := accepts_pure.mp ends
    exact ⟨opcode, input₁, insn, first, operands, rfl⟩
  · rintro ⟨opcode, input₁, insn, first, operands, rfl⟩
    apply accepts_bind.mpr
    refine ⟨input, input, accepts_position.mpr ⟨rfl, rfl⟩, accepts_bind.mpr ⟨opcode, input₁, first, ?_⟩⟩
    exact accepts_bind.mpr ⟨insn, input', operands, accepts_pure.mpr ⟨rfl, rfl⟩⟩

theorem accepts_readInsn (input : Input) (value : UInt16 × Insn) (input' : Input) :
    Accepts readInsn input value input' ↔
      ∃ opcode input₁ insn, Accepts readU1 input opcode input₁ ∧
        Accepts (readOperands input.pos opcode) input₁ insn input' ∧
        value = (UInt16.ofNat input.pos, insn) :=
  accepts_withOperands (fun pos _ insn => (UInt16.ofNat pos, insn)) input value input'

theorem accepts_readOpcode (input : Input) (value : UInt8) (input' : Input) :
    Accepts readOpcode input value input' ↔
      ∃ opcode input₁ insn, Accepts readU1 input opcode input₁ ∧
        Accepts (readOperands input.pos opcode) input₁ insn input' ∧ value = opcode :=
  accepts_withOperands (fun _ opcode _ => opcode) input value input'

theorem instructionsOf_iff {code : List UInt8} {insns : List (UInt16 × Insn)} :
    InstructionsOf code insns ↔
      ∃ rows, Parsed { pos := 0, rest := code } rows ∧ insns = rows.map Prod.snd := by
  rw [← @accepts_all _ _ Prod.snd accepts_readInsn _ _ _ (Nat.lt_succ_self code.length)]
  unfold InstructionsOf parseCodeInstructionsWithOffsets
  constructor
  · intro parsed
    obtain ⟨⟨all, left⟩, input₁, within_, ends⟩ := accepts_bind.mp (parsed { pos := 0, rest := [] })
    obtain ⟨rfl, rfl⟩ := accepts_pure.mp ends
    exact ⟨left, (accepts_within.mp within_).1⟩
  · intro ⟨left, accepted⟩ input
    exact accepts_bind.mpr ⟨(insns, left), input, accepts_within.mpr ⟨accepted, rfl⟩,
      accepts_pure.mpr ⟨rfl, rfl⟩⟩

theorem opcodesOf_iff {code opcodes : List UInt8} :
    OpcodesOf code opcodes ↔
      ∃ rows, Parsed { pos := 0, rest := code } rows ∧ opcodes = rows.map Prod.fst :=
  accepts_all accepts_readOpcode (Nat.lt_succ_self code.length)

/-! ### Emission -/

/-- Narrow instructions are emitted in as many bytes, which are read as the same instructions. -/
theorem emits_narrow {input : Input} {rows : List (UInt8 × UInt16 × Insn)}
    (parsed : Parsed input rows) (narrow : ∀ row ∈ rows, row.1 ≠ 0xC4) (code : List UInt8)
    (standing : code.length = input.pos) (done : List Insn) :
    ∃ bytes instructions,
      emitInsns code done (rows.map fun row => row.2.2) = .ok (code ++ bytes, instructions) ∧
        bytes.length = input.rest.length ∧ Parsed { pos := input.pos, rest := bytes } rows := by
  induction parsed generalizing code done with
  | finished pos => exact ⟨[], done, by simp [emitInsns], rfl, .finished pos⟩
  | @insn input input₁ input' opcode insn rows first operands later ih =>
      obtain ⟨ahead₁, moved₁⟩ := (exact_readU1 _ _ _).mp first
      have plain : operandKind opcode ≠ .wide := fun kind =>
        narrow _ List.mem_cons_self ((kind_wide opcode).mp kind)
      obtain ⟨emitted, emits, length, moved, decodes⟩ := reemitted_operands plain operands
      rw [length_writeU1] at moved₁
      have place : (code ++ opcode :: emitted).length = input'.pos := by
        rw [List.length_append, List.length_cons, standing, moved, moved₁]
        omega
      obtain ⟨bytes, instructions, rest, total, parsed⟩ :=
        ih (fun row member => narrow row (List.mem_cons_of_mem _ member)) _ place (done ++ [insn])
      refine ⟨opcode :: emitted ++ bytes, instructions, ?_, ?_, ?_⟩
      · rw [List.map_cons, emitInsns, standing, emits]
        simp only [bind, Except.bind]
        rw [rest, List.append_assoc]
      · rw [length_rest ahead₁, length, List.length_append, total, length_writeU1, List.length_cons]
        omega
      · have one : Accepts readU1 { pos := input.pos, rest := opcode :: emitted ++ bytes } opcode
            { pos := input.pos + 1, rest := emitted ++ bytes } :=
          exact_readU1.decodes opcode input.pos (emitted ++ bytes)
        have two := decodes (input.pos + 1) bytes
        have there : input.pos + 1 + emitted.length = input'.pos := by rw [moved, moved₁]
        rw [there] at two
        exact .insn one two parsed

theorem emitInsns_prefix {insns : List Insn} {code code' : List UInt8} {done done' : List Insn}
    (emits : emitInsns code done insns = .ok (code', done')) : ∃ bytes, code' = code ++ bytes := by
  induction insns generalizing code done with
  | nil =>
      cases emits
      exact ⟨[], (List.append_nil _).symm⟩
  | cons insn insns ih =>
      rw [emitInsns] at emits
      cases one : emitInsnRaw code.length insn with
      | error fault => simp [one, bind, Except.bind] at emits
      | ok result =>
          simp only [one, bind, Except.bind] at emits
          obtain ⟨bytes, rfl⟩ := ih emits
          exact ⟨result.1 ++ bytes, List.append_assoc _ _ _⟩

/-- One instruction at the head of emitted bytes, and what is read behind it. -/
theorem Parsed.behind {pos : Nat} {opcode : UInt8} {operands bytes : List UInt8} {insn : Insn}
    (decodes : Decodes (readOperands pos opcode) operands insn)
    {rows : List (UInt8 × UInt16 × Insn)}
    (parsed : Parsed { pos := pos, rest := opcode :: operands ++ bytes } rows) :
    ∃ others, rows = (opcode, UInt16.ofNat pos, insn) :: others ∧
      Parsed { pos := pos + 1 + operands.length, rest := bytes } others := by
  cases parsed with
  | insn first operands' later =>
      have one : Accepts readU1 { pos := pos, rest := opcode :: operands ++ bytes } opcode
          { pos := pos + 1, rest := operands ++ bytes } :=
        exact_readU1.decodes opcode pos (operands ++ bytes)
      obtain ⟨rfl, rfl⟩ := Accepts.unique first one
      have two := decodes (pos + 1) bytes
      obtain ⟨rfl, rfl⟩ := Accepts.unique operands' two
      exact ⟨_, rfl, later⟩

theorem Parsed.offset {input : Input} {row : UInt8 × UInt16 × Insn}
    {rows : List (UInt8 × UInt16 × Insn)} (parsed : Parsed input (row :: rows)) :
    row.2.1 = UInt16.ofNat input.pos := by
  cases parsed with
  | insn _ _ _ => rfl

theorem ofNat_ne_of_near {n lost : Nat} (some_ : 0 < lost) (few : lost < 4) :
    UInt16.ofNat n ≠ UInt16.ofNat (n + lost) := by
  intro same
  have residues := congrArg UInt16.toNat same
  rw [UInt16.toNat_ofNat', UInt16.toNat_ofNat'] at residues
  omega

/-- A widened instruction among them is emitted shorter: the next instruction is at another offset,
or there is none and the code is shorter. -/
theorem emits_widened {input : Input} {rows : List (UInt8 × UInt16 × Insn)}
    (parsed : Parsed input rows) (wide : ∃ row ∈ rows, row.1 = 0xC4) {code : List UInt8}
    (standing : code.length = input.pos) {done instructions : List Insn} {bytes : List UInt8}
    (emits : emitInsns code done (rows.map fun row => row.2.2) = .ok (code ++ bytes, instructions))
    (length : bytes.length = input.rest.length) {rows' : List (UInt8 × UInt16 × Insn)}
    (parsed' : Parsed { pos := input.pos, rest := bytes } rows')
    (same : rows'.map Prod.snd = rows.map Prod.snd) : False := by
  induction parsed generalizing code done bytes rows' with
  | finished pos =>
      obtain ⟨row, member, -⟩ := wide
      cases member
  | @insn input input₁ input' opcode insn rows first operands later ih =>
      obtain ⟨ahead₁, moved₁⟩ := (exact_readU1 _ _ _).mp first
      rw [length_writeU1] at moved₁
      rw [length_rest ahead₁, length_writeU1] at length
      rw [List.map_cons, emitInsns, standing] at emits
      by_cases widened : opcode = 0xC4
      · subst widened
        obtain ⟨opcode, narrowed, other, lost, plain, some_, few, one, decodes, total, moved⟩ :=
          widened_operands operands
        simp only [one, bind, Except.bind] at emits
        obtain ⟨rest, split⟩ := emitInsns_prefix emits
        rw [List.append_assoc] at split
        obtain rfl := List.append_cancel_left split
        obtain ⟨others, rfl, behind⟩ := parsed'.behind decodes
        rw [List.map_cons, List.map_cons] at same
        cases rows with
        | nil =>
            -- nothing follows: the code has become shorter
            have none_ : others = [] := by
              have tails := (List.cons.inj same).2
              exact List.map_eq_nil_iff.mp tails
            subst none_
            have finished : rest = [] := by
              cases behind
              rfl
            have finished' : input'.rest = [] := by
              cases later
              rfl
            rw [finished', List.length_nil] at total
            rw [finished, List.append_nil, List.length_cons] at length
            omega
        | cons next rows =>
            cases others with
            | nil => cases (List.cons.inj same).2
            | cons next' others =>
                have offsets : next'.2.1 = next.2.1 := by
                  have heads := (List.cons.inj (List.cons.inj same).2).1
                  rw [heads]
                rw [behind.offset, later.offset, moved, moved₁] at offsets
                exact ofNat_ne_of_near some_ few offsets
      · have plain : operandKind opcode ≠ .wide := fun kind => widened ((kind_wide opcode).mp kind)
        obtain ⟨emitted, one, total, moved, decodes⟩ := reemitted_operands plain operands
        have wide' : ∃ row ∈ rows, row.1 = 0xC4 := by
          obtain ⟨row, member, isWide⟩ := wide
          rcases List.mem_cons.mp member with rfl | member
          · exact absurd isWide widened
          · exact ⟨row, member, isWide⟩
        simp only [one, bind, Except.bind] at emits
        obtain ⟨rest, split⟩ := emitInsns_prefix emits
        rw [List.append_assoc] at split
        obtain rfl := List.append_cancel_left split
        obtain ⟨others, rfl, behind⟩ := parsed'.behind decodes
        have place : (code ++ opcode :: emitted).length = input'.pos := by
          rw [List.length_append, List.length_cons, standing, moved, moved₁]
          omega
        have there : input.pos + 1 + emitted.length = input'.pos := by rw [moved, moved₁]
        rw [there] at behind
        rw [← List.append_assoc] at emits
        refine ih wide' place emits ?_ behind (List.cons.inj same).2
        rw [List.length_append, List.length_cons] at length
        omega

/-! ### The round trip -/

/-- The instructions of a code array survive emission exactly where none of them is in a `wide`
form. -/
theorem roundTrips_iff {code : List UInt8} {insns : List (UInt16 × Insn)}
    (parsed : InstructionsOf code insns) : RoundTrips code insns ↔ ¬ HasWide code := by
  obtain ⟨rows, runs, rfl⟩ := instructionsOf_iff.mp parsed
  have insns : (rows.map Prod.snd).map Prod.snd = rows.map fun row => row.2.2 := by
    rw [List.map_map]
    rfl
  constructor
  · intro ⟨code', instructions, builds, length, parsed'⟩ ⟨opcodes, starts, wide⟩
    obtain ⟨rows₁, runs₁, rfl⟩ := opcodesOf_iff.mp starts
    obtain rfl := runs.unique runs₁
    rw [buildCodeFromInsnList, insns] at builds
    obtain ⟨rows', runs', same⟩ := instructionsOf_iff.mp parsed'
    have listed : ∃ row ∈ rows, row.1 = 0xC4 := List.mem_map.mp wide
    exact emits_widened runs listed rfl builds length runs' same.symm
  · intro narrow
    have each : ∀ row ∈ rows, row.1 ≠ 0xC4 := by
      intro row member wide
      exact narrow ⟨rows.map Prod.fst, opcodesOf_iff.mpr ⟨rows, runs, rfl⟩,
        List.mem_map.mpr ⟨row, member, wide⟩⟩
    obtain ⟨bytes, instructions, emits, length, runs'⟩ := emits_narrow runs each [] rfl []
    refine ⟨bytes, instructions, ?_, length, instructionsOf_iff.mpr ⟨rows, runs', rfl⟩⟩
    rw [buildCodeFromInsnList, insns]
    exact emits

/-- `sipush 300; goto +3; ireturn` -/
theorem roundTrips_jump :
    RoundTrips [0x11, 1, 44, 0xA7, 0, 3, 0xAC]
      [(0, .int ⟨⟨0x11⟩, 300⟩), (3, .jump ⟨⟨0xA7⟩, 3⟩), (6, .simple ⟨0xAC⟩)] := by
  have parsed : InstructionsOf [0x11, 1, 44, 0xA7, 0, 3, 0xAC]
      [(0, .int ⟨⟨0x11⟩, 300⟩), (3, .jump ⟨⟨0xA7⟩, 3⟩), (6, .simple ⟨0xAC⟩)] := fun _ => rfl
  refine (roundTrips_iff parsed).mpr ?_
  intro ⟨opcodes, ⟨left, starts⟩, wide⟩
  have known : Accepts (untilEnd readOpcode 8) { pos := 0, rest := [0x11, 1, 44, 0xA7, 0, 3, 0xAC] }
      [0x11, 0xA7, 0xAC] { pos := 7, rest := [] } := rfl
  obtain ⟨rfl, -⟩ := Accepts.unique starts known
  revert wide
  decide

/-- `wide iload 300; ireturn` is emitted as `iload 44; ireturn`, two bytes shorter. -/
theorem wide_is_dropped :
    ¬ ∀ code insns, InstructionsOf code insns → RoundTrips code insns := by
  intro always
  have parsed : InstructionsOf [0xC4, 0x15, 1, 44, 0xAC]
      [(0, .var ⟨⟨0x15⟩, 300⟩), (4, .simple ⟨0xAC⟩)] := fun _ => rfl
  obtain ⟨code', instructions, builds, length, -⟩ := always _ _ parsed
  have emitted : buildCodeFromInsnList [.var ⟨⟨0x15⟩, 300⟩, .simple ⟨0xAC⟩] =
      .ok ([0x15, 44, 0xAC], [.var ⟨⟨0x15⟩, 300⟩, .simple ⟨0xAC⟩]) := rfl
  have same := emitted.symm.trans builds
  cases same
  cases length

end CaffeineLs.RustAsm
