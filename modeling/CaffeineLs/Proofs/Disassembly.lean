/-
Module: CaffeineLs.Proofs.Disassembly
Purpose: The class writer reads the instructions that the class reader reads: at the same offsets, and
  as long as it computes them to be.
Trusted boundary: none
Main exports: follows_readInsn, Disassembles, disassembles_modulo
-/
import CaffeineLs.RustAsm.CodeParser
import CaffeineLs.Lib.Following
import CaffeineLs.Proofs.BytecodeRoundTrip

namespace CaffeineLs.RustAsm

open Wire ByteReader

/-! ### Numbers -/

section Numbers

variable {pos : Nat}

/-- The same value, of a fixed number of bytes. -/
def SameOf {α : Type} (size : Nat) (a b : α) (taken : Nat) : Prop := a = b ∧ taken = size

/-- What is computed from the same value is the same. -/
theorem follows_sameOf {α β : Type} {size : Nat} {r : Reader α} {s : CodeParser α} (f : α → β)
    (first : Follows pos r s (SameOf size)) :
    Follows pos (do let a ← r; pure (f a)) (do let a ← s; pure (f a)) (SameOf size) := by
  apply follows_map first
  intro a b taken ⟨same, sized⟩
  exact ⟨congrArg f same, sized⟩

theorem follows_readU1 : Follows pos readU1 CodeParser.readU1 (SameOf 1) :=
  follows_sameOf _ follows_bytes

theorem follows_readU2 : Follows pos readU2 CodeParser.readU2 (SameOf 2) :=
  follows_sameOf _ follows_bytes

theorem follows_readI1 : Follows pos readI1 CodeParser.readI1 (SameOf 1) :=
  follows_sameOf _ follows_readU1

theorem follows_readI2 : Follows pos readI2 CodeParser.readI2 (SameOf 2) :=
  follows_sameOf _ follows_readU2

theorem follows_readI4 : Follows pos readI4 CodeParser.readI4 (SameOf 4) := by
  have number : Follows pos (do let value ← readU4; pure value.toInt32)
      (do let value ← (do let bs ← bytes CodeParser.unexpectedEof 4
                          pure (UInt32.ofNat (ofBigEndian bs)) : CodeParser UInt32)
          pure value.toInt32) (SameOf 4) :=
    follows_sameOf _ (follows_sameOf _ follows_bytes)
  rw [LawfulMonad.bind_assoc] at number
  exact number

/-- Two numbers one after another. -/
theorem follows_readPair : Follows pos readPair CodeParser.readPair fun _ _ taken => taken = 8 := by
  apply follows_bind follows_readI4
  intro key key' _ ⟨_, four⟩
  apply follows_map follows_readI4
  intro offset value more ⟨_, four'⟩
  rw [four, four']

end Numbers

/-! ### Switches -/

/-- The padding of a switch is read by the one and skipped by the other. -/
theorem follows_padding (pos : Nat) :
    Follows (pos + 1) (align4 pos) CodeParser.skipPadding
      fun _ _ taken => taken = switchPadding (UInt16.ofNat pos) := by
  intro rest a input' accepted
  obtain ⟨padding, input₁, read, ends⟩ := accepts_bind.mp accepted
  obtain ⟨-, rfl⟩ := accepts_pure.mp ends
  obtain ⟨length, ahead, moved⟩ := (accepts_rows exact_readU1 _).mp read
  have plain : padding.flatMap writeU1 = padding := List.flatMap_singleton' padding
  rw [plain] at ahead moved
  obtain ⟨pos', rest'⟩ := input₁
  obtain rfl : rest = padding ++ rest' := ahead
  obtain rfl : pos' = pos + 1 + padding.length := moved
  refine ⟨(), padding.length, ?_, rfl, List.length_append, ?_⟩
  · apply accepts_bind.mpr
    refine ⟨_, _, accepts_position.mpr ⟨rfl, rfl⟩, ?_⟩
    change Outcome.ok () (Input.mk _ _) = Outcome.ok () (Input.mk _ _)
    rw [← length, List.drop_left]
  · unfold switchPadding
    simp only [UInt16.toNat_ofNat']
    have residue : (pos % 2 ^ 16 + 1) % 4 = (pos + 1) % 4 := by omega
    rw [residue, length]

theorem follows_switchCount {pos : Nat} (low high : Int32) :
    Follows pos (switchCount low high) (CodeParser.offsetCount low high) (SameOf 0) := by
  apply follows_bind follows_pass
  intro _ _ _ none_
  subst none_
  split
  · exact follows_pure ⟨rfl, rfl⟩
  · split
    · exact follows_pure ⟨rfl, rfl⟩
    · exact follows_stop

theorem follows_pairCount {pos : Nat} (npairs : Int32) :
    Follows pos (pairCount npairs) (CodeParser.pairCount npairs) (SameOf 0) := by
  apply follows_bind follows_pass
  intro _ _ _ none_
  subst none_
  split
  · exact follows_stop
  · exact follows_pure ⟨rfl, rfl⟩

/-- The operand, read behind the opcode at `pos`, is as long as it is computed to be. -/
def Measured (pos : Nat) (opcode : UInt8) (_ : Insn) (operand : Operand) (taken : Nat) : Prop :=
  1 + taken = instructionLength ⟨UInt16.ofNat pos, opcode, operand⟩

theorem follows_tableSwitch (pos : Nat) (opcode : UInt8) :
    Follows (pos + 1) (readTableSwitch pos) CodeParser.readTableSwitch (Measured pos opcode) := by
  apply follows_bind (follows_padding pos)
  intro _ _ padding padded
  apply follows_bind follows_readI4
  intro defaultOffset _ _ ⟨same₁, four₁⟩
  apply follows_bind follows_readI4
  intro low _ _ ⟨same₂, four₂⟩
  apply follows_bind follows_readI4
  intro high _ _ ⟨same₃, four₃⟩
  subst same₁ same₂ same₃ four₁ four₂ four₃
  apply follows_bind (follows_switchCount low high)
  intro count _ _ ⟨same₄, none_⟩
  subst same₄ none_
  apply follows_map (follows_table (fun pos => (@follows_readI4 pos).weaken
    fun _ _ _ same => same.2) count)
  intro offsets offsets' more ⟨length, sized⟩
  unfold Measured instructionLength
  simp only
  rw [padded, sized, length]
  omega

theorem follows_lookupSwitch (pos : Nat) (opcode : UInt8) :
    Follows (pos + 1) (readLookupSwitch pos) CodeParser.readLookupSwitch (Measured pos opcode) := by
  apply follows_bind (follows_padding pos)
  intro _ _ padding padded
  apply follows_bind follows_readI4
  intro defaultOffset _ _ ⟨same₁, four₁⟩
  apply follows_bind follows_readI4
  intro npairs _ _ ⟨same₂, four₂⟩
  subst same₁ same₂ four₁ four₂
  apply follows_bind (follows_pairCount npairs)
  intro count _ _ ⟨same₃, none_⟩
  subst same₃ none_
  apply follows_map (follows_table (fun _ => follows_readPair) count)
  intro pairs pairs' more ⟨length, sized⟩
  unfold Measured instructionLength
  simp only
  rw [padded, sized, length]
  omega

/-! ### Opcodes -/

open CodeParser (OperandShape operandShape isVarOpcode)

/-- The arm of the writer's match that takes the operands of a kind. -/
def OperandKind.shape : OperandKind → OperandShape
  | .simple | .invalid => .none
  | .byte => .i1
  | .short => .i2
  | .ldc | .var | .newarray => .u1
  | .ldcWide | .field | .method | .type => .u2
  | .iinc => .iinc
  | .jump => .jump
  | .jumpWide => .jumpWide
  | .tableSwitch => .tableSwitch
  | .lookupSwitch => .lookupSwitch
  | .invokeInterface => .invokeInterface
  | .invokeDynamic => .invokeDynamic
  | .wide => .wide
  | .multiANewArray => .multiANewArray

/-- Both matches sort the opcodes alike, also those that may be widened. -/
theorem sorted_alike : ∀ opcode, operandShape opcode = (operandKind opcode).shape ∧
    (operandKind opcode = .var ↔ isVarOpcode opcode = true) ∧
    (operandKind opcode = .iinc ↔ opcode = 0x84) :=
  forall_byte (by decide +kernel)

theorem follows_wide (pos : Nat) (opcode : UInt8) :
    Follows (pos + 1) readWide CodeParser.readWide (Measured pos opcode) := by
  apply follows_look
  intro input
  apply follows_bind follows_readU1
  intro widened _ _ ⟨same, one⟩
  subst same one
  obtain ⟨-, var_iff, iinc_iff⟩ := sorted_alike widened
  split
  · rename_i var
    rw [if_pos (var_iff.mp var)]
    apply follows_map follows_readU2
    intro index _ _ ⟨_, two⟩
    subst two
    unfold Measured instructionLength
    simp
  · rename_i iinc
    have plain : ¬ isVarOpcode widened = true := by
      rw [← var_iff, iinc]
      exact OperandKind.noConfusion
    rw [if_neg plain, if_pos (iinc_iff.mp iinc)]
    apply follows_bind follows_readU2
    intro index _ _ ⟨_, two⟩
    apply follows_map follows_readI2
    intro increment _ _ ⟨_, two'⟩
    subst two two'
    unfold Measured instructionLength
    simp [iinc_iff.mp iinc]
  · exact follows_fail

/-! ### Instructions -/

/-- An operand that is one number. -/
theorem follows_operand {α : Type} {pos size : Nat} {opcode : UInt8} {r : Reader α}
    {s : CodeParser α} {f : α → Insn} {g : α → Operand}
    (first : Follows (pos + 1) r s (SameOf size))
    (sized : ∀ a, instructionLength ⟨UInt16.ofNat pos, opcode, g a⟩ = 1 + size) :
    Follows (pos + 1) (do let a ← r; pure (f a)) (do let a ← s; pure (g a))
      (Measured pos opcode) := by
  apply follows_map first
  intro a b taken ⟨_, taken_⟩
  rw [Measured, sized, taken_]

theorem follows_readOperands (pos : Nat) (opcode : UInt8) :
    Follows (pos + 1) (readOperands pos opcode) (CodeParser.readOperand (operandShape opcode))
      (Measured pos opcode) := by
  rw [(sorted_alike opcode).1]
  unfold readOperands
  cases operandKind opcode with
  | simple => exact follows_pure rfl
  | invalid => exact follows_fail
  | byte => exact follows_operand follows_readI1 fun _ => rfl
  | short => exact follows_operand follows_readI2 fun _ => rfl
  | ldc => exact follows_operand follows_readU1 fun _ => rfl
  | var => exact follows_operand follows_readU1 fun _ => rfl
  | newarray => exact follows_operand follows_readU1 fun _ => rfl
  | ldcWide => exact follows_operand follows_readU2 fun _ => rfl
  | field => exact follows_operand follows_readU2 fun _ => rfl
  | method => exact follows_operand follows_readU2 fun _ => rfl
  | type => exact follows_operand follows_readU2 fun _ => rfl
  | jump => exact follows_operand follows_readI2 fun _ => rfl
  | jumpWide => exact follows_operand follows_readI4 fun _ => rfl
  | iinc =>
      apply follows_bind follows_readU1
      intro index _ _ ⟨_, one⟩
      subst one
      exact follows_map follows_readI1 fun _ _ _ same => by rw [same.2]; rfl
  | tableSwitch => exact follows_tableSwitch pos opcode
  | lookupSwitch => exact follows_lookupSwitch pos opcode
  | invokeInterface =>
      apply follows_bind follows_readU2
      intro index _ _ ⟨_, two⟩
      subst two
      apply follows_bind follows_readU1
      intro count _ _ ⟨_, one⟩
      subst one
      exact follows_map follows_readU1 fun _ _ _ same => by rw [same.2]; rfl
  | invokeDynamic =>
      apply follows_bind follows_readU2
      intro index _ _ ⟨_, two⟩
      subst two
      exact follows_map follows_readU2 fun _ _ _ same => by rw [same.2]; rfl
  | wide => exact follows_wide pos opcode
  | multiANewArray =>
      apply follows_bind follows_readU2
      intro index _ _ ⟨_, two⟩
      subst two
      exact follows_map follows_readU1 fun _ _ _ same => by rw [same.2]; rfl

/-- An instruction that both read at `pos`, as long as it is computed to be. -/
def ReadAlike (pos : Nat) (read : UInt16 × Insn) (parsed : ParsedInstruction) (taken : Nat) : Prop :=
  read.1 = UInt16.ofNat pos ∧ parsed.offset = UInt16.ofNat pos ∧ taken = instructionLength parsed

theorem follows_readInsn (pos : Nat) :
    Follows pos readInsn CodeParser.parseInstruction (ReadAlike pos) := by
  apply follows_bind follows_position
  intro input _ _ ⟨same, place, none_⟩
  subst same none_
  rw [place]
  apply follows_bind follows_readU1
  intro opcode _ _ ⟨same, one⟩
  subst same one
  apply follows_map (follows_readOperands pos opcode)
  intro insn operand taken measured
  exact ⟨rfl, rfl, by rw [Nat.zero_add, measured]⟩

/-! ### The code array -/

/-- The instructions that are read of a code array are parsed at the same places, of the lengths that
are computed for them. -/
theorem parses_alike {code : List UInt8} {insns : List (UInt16 × Insn)}
    (read : InstructionsOf code insns) :
    ∃ parsed left, parseInstructions code = .ok parsed left ∧
      Paired ReadAlike 0 insns parsed code.length := by
  obtain ⟨⟨all, left⟩, input₁, within_, ends⟩ := accepts_bind.mp (read { pos := 0, rest := [] })
  obtain ⟨rfl, rfl⟩ := accepts_pure.mp ends
  have accepted := (accepts_within.mp within_).1
  have finished := untilEnd_finishes accepted
  obtain ⟨parsed, taken, accepted', -, length, paired⟩ :=
    follows_untilEnd follows_readInsn _ code all left accepted
  rw [finished, List.length_nil, Nat.add_zero] at length
  exact ⟨parsed, left, accepted', length ▸ paired⟩

/-- The offset of the instruction behind the one at an index, or the end of the code. -/
def nextOffset (code : List UInt8) (parsed : List ParsedInstruction) (i : Nat) : Nat :=
  match parsed[i + 1]? with
  | some next => next.offset.toNat
  | none => code.length

/-- The writer's instructions are at the offsets of the reader's, and the offset of each with its
length is the next offset. -/
structure Disassembles (code : List UInt8) (insns : List (UInt16 × Insn))
    (parsed : List ParsedInstruction) : Prop where
  offsets : parsed.map ParsedInstruction.offset = insns.map Prod.fst
  lengths : ∀ i insn, parsed[i]? = some insn →
    insn.offset.toNat + instructionLength insn = nextOffset code parsed i

/-- The same, with offsets that are counted modulo the range of their type. The lengths make up the
code array. -/
structure DisassemblesModulo (code : List UInt8) (insns : List (UInt16 × Insn))
    (parsed : List ParsedInstruction) : Prop where
  offsets : parsed.map ParsedInstruction.offset = insns.map Prod.fst
  lengths : ∀ i insn, parsed[i]? = some insn →
    (insn.offset.toNat + instructionLength insn) % 2 ^ 16 = nextOffset code parsed i % 2 ^ 16
  whole : (parsed.map instructionLength).sum = code.length
  exact_ : code.length ≤ 2 ^ 16 → Disassembles code insns parsed

theorem instructionLength_pos (insn : ParsedInstruction) : 0 < instructionLength insn := by
  unfold instructionLength
  cases insn.operand with
  | wide opcode index increment =>
      dsimp only
      split <;> decide
  | tableSwitch defaultOffset low high offsets =>
      dsimp only
      omega
  | lookupSwitch defaultOffset pairs =>
      dsimp only
      omega
  | _ => exact Nat.succ_pos _

section Places

variable {pos taken : Nat} {insns : List (UInt16 × Insn)} {parsed : List ParsedInstruction}

theorem offsets_of_paired (paired : Paired ReadAlike pos insns parsed taken) :
    parsed.map ParsedInstruction.offset = insns.map Prod.fst := by
  induction paired with
  | nil pos => rfl
  | cons step later ih =>
      obtain ⟨read, here, -⟩ := step
      rw [List.map_cons, List.map_cons, ih, read, here]

theorem lengths_of_paired (paired : Paired ReadAlike pos insns parsed taken) :
    (parsed.map instructionLength).sum = taken := by
  induction paired with
  | nil pos => rfl
  | cons step later ih =>
      rw [List.map_cons, List.sum_cons, ih, step.2.2]

/-- Where an instruction starts, and that the next one or the end follows it. -/
theorem places_of_paired (paired : Paired ReadAlike pos insns parsed taken) {i : Nat}
    {insn : ParsedInstruction} (here : parsed[i]? = some insn) :
    ∃ start, insn.offset = UInt16.ofNat start ∧
      (parsed[i + 1]? = none ∧ start + instructionLength insn = pos + taken ∨
        ∃ next, parsed[i + 1]? = some next ∧
          next.offset = UInt16.ofNat (start + instructionLength insn) ∧
          start + instructionLength insn < pos + taken) := by
  induction paired generalizing i with
  | nil pos => cases here
  | @cons pos taken more a b as bs step later ih =>
      obtain ⟨-, place, sized⟩ := step
      cases i with
      | succ i =>
          obtain ⟨start, offset, follows⟩ := ih here
          rw [Nat.add_assoc] at follows
          exact ⟨start, offset, follows⟩
      | zero =>
          obtain rfl : b = insn := Option.some.inj here
          refine ⟨pos, place, ?_⟩
          rw [← sized]
          cases later with
          | nil => exact .inl ⟨rfl, rfl⟩
          | cons step' later' =>
              obtain ⟨-, place', sized'⟩ := step'
              refine .inr ⟨_, rfl, place', ?_⟩
              have positive := instructionLength_pos
              rw [sized']
              exact Nat.add_lt_add_left (Nat.lt_add_of_pos_right
                (Nat.lt_of_lt_of_le (positive _) (Nat.le_add_right _ _))) pos

end Places

/-- The writer parses every code array that the reader accepts, into instructions at the same offsets;
each is followed by the next as its length says, where offsets are counted modulo their range. -/
theorem disassembles_modulo {code : List UInt8} {insns : List (UInt16 × Insn)}
    (read : InstructionsOf code insns) :
    ∃ parsed left, parseInstructions code = .ok parsed left ∧ DisassemblesModulo code insns parsed := by
  obtain ⟨parsed, left, parses, paired⟩ := parses_alike read
  refine ⟨parsed, left, parses, ?_⟩
  have offsets := offsets_of_paired paired
  have next (i : Nat) (insn : ParsedInstruction) (here : parsed[i]? = some insn) :
      (insn.offset.toNat + instructionLength insn) % 2 ^ 16 = nextOffset code parsed i % 2 ^ 16 ∧
        (code.length ≤ 2 ^ 16 →
          insn.offset.toNat + instructionLength insn = nextOffset code parsed i) := by
    have positive := instructionLength_pos insn
    obtain ⟨start, offset, follows⟩ := places_of_paired paired here
    rw [Nat.zero_add] at follows
    rw [nextOffset, offset, UInt16.toNat_ofNat']
    rcases follows with ⟨last, ends⟩ | ⟨other, listed, offset', inside⟩
    · rw [last]
      simp only
      omega
    · rw [listed]
      simp only [offset', UInt16.toNat_ofNat']
      omega
  exact {
    offsets := offsets
    lengths := fun i insn here => (next i insn here).1
    whole := lengths_of_paired paired
    exact_ := fun short =>
      { offsets := offsets
        lengths := fun i insn here => (next i insn here).2 short } }

/-- `nop; tableswitch` of one case, with two bytes of padding, and `return` -/
theorem disassembles_switch :
    ∃ parsed left,
      parseInstructions [0, 0xAA, 0, 0, 0, 0, 0, 19, 0, 0, 0, 0, 0, 0, 0, 0, 0, 0, 0, 19, 0xB1] =
        .ok parsed left ∧
      DisassemblesModulo [0, 0xAA, 0, 0, 0, 0, 0, 19, 0, 0, 0, 0, 0, 0, 0, 0, 0, 0, 0, 19, 0xB1]
        [(0, .simple ⟨0⟩), (1, .tableSwitch ⟨⟨0xAA⟩, 19, 0, 0, [19]⟩), (20, .simple ⟨0xB1⟩)] parsed :=
  disassembles_modulo fun _ => rfl

/-! ### A long code array -/

theorem parsed_nops (pos count : Nat) :
    Parsed { pos := pos, rest := List.replicate count 0 }
      ((List.range' pos count).map fun i => (0, UInt16.ofNat i, .simple ⟨0⟩)) := by
  induction count generalizing pos with
  | zero => exact .finished pos
  | succ count ih =>
      have first : Accepts readU1 { pos := pos, rest := List.replicate (count + 1) 0 } 0
          { pos := pos + 1, rest := List.replicate count 0 } :=
        exact_readU1.decodes 0 pos (List.replicate count 0)
      exact .insn first (accepts_pure.mpr ⟨rfl, rfl⟩) (ih (pos + 1))

theorem instructionsOf_nops (count : Nat) :
    InstructionsOf (List.replicate count 0)
      ((List.range' 0 count).map fun i => (UInt16.ofNat i, .simple ⟨0⟩)) := by
  refine instructionsOf_iff.mpr ⟨_, parsed_nops 0 count, ?_⟩
  rw [List.map_map]
  rfl

/-- Behind 65536 bytes the offsets start again: 65535 and the length of a `nop` is not 0. -/
theorem offsets_start_again :
    ¬ ∀ code insns, InstructionsOf code insns →
      ∃ parsed left, parseInstructions code = .ok parsed left ∧ Disassembles code insns parsed := by
  intro always
  obtain ⟨parsed, left, -, offsets, lengths⟩ := always _ _ (instructionsOf_nops 65537)
  have placed (i : Nat) (inside : i < 65537) :
      ∃ insn, parsed[i]? = some insn ∧ insn.offset = UInt16.ofNat i := by
    have listed := congrArg (fun offsets => offsets[i]?) offsets
    simp only [List.map_map, List.getElem?_map, List.getElem?_range' inside, Option.map_some,
      Option.map_eq_some_iff] at listed
    obtain ⟨insn, here, offset⟩ := listed
    refine ⟨insn, here, ?_⟩
    simpa using offset
  obtain ⟨insn, here, offset⟩ := placed 65535 (by decide)
  obtain ⟨next, there, offset'⟩ := placed 65536 (by decide)
  have length := lengths 65535 insn here
  have wrapped : (UInt16.ofNat 65536).toNat = 0 := rfl
  have last : (UInt16.ofNat 65535).toNat = 65535 := rfl
  rw [nextOffset, there, offset] at length
  simp only [offset', wrapped, last] at length
  omega

end CaffeineLs.RustAsm
