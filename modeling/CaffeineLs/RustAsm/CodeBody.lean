/-
Module: CaffeineLs.RustAsm.CodeBody
Purpose: Building a method body from a list of nodes: emission with room for what labels decide, and
  the fixups afterwards.
Trusted boundary: integer arithmetic wraps as in a release build; `HashMap` is a list of pairs whose
  first entry counts; the nodes and try/catch blocks kept beside the code are left out
Main exports: AbstractInsnNode, emitInsn, Emission
-/
import CaffeineLs.RustAsm.ClassNode
import CaffeineLs.RustAsm.Descriptor
import CaffeineLs.RustAsm.PoolBuilder
import CaffeineLs.Lib.Patches

namespace CaffeineLs.RustAsm

open Patches

namespace opcodes

def INVOKEINTERFACE : UInt8 := 0xB9
def TABLESWITCH : UInt8 := 0xAA
def LOOKUPSWITCH : UInt8 := 0xAB

end opcodes

/-! ### Nodes -/

structure LabelNode where
  id : Nat
deriving DecidableEq, Repr

structure LineNumberInsnNode where
  line : UInt16
  start : LabelNode
deriving DecidableEq, Repr

structure JumpLabelInsnNode where
  insn : InsnNode
  target : LabelNode
deriving DecidableEq, Repr

structure TableSwitchLabelInsnNode where
  insn : InsnNode
  defaultTarget : LabelNode
  low : Int32
  high : Int32
  targets : List LabelNode
deriving DecidableEq, Repr

structure LookupSwitchLabelInsnNode where
  insn : InsnNode
  defaultTarget : LabelNode
  pairs : List (Int32 × LabelNode)
deriving DecidableEq, Repr

inductive AbstractInsnNode where
  | label (label : LabelNode)
  | lineNumber (line : LineNumberInsnNode)
  | insn (insn : Insn)
  | jumpLabel (node : JumpLabelInsnNode)
  | tableSwitchLabel (node : TableSwitchLabelInsnNode)
  | lookupSwitchLabel (node : LookupSwitchLabelInsnNode)
deriving DecidableEq, Repr

/-! ### Instructions -/

def resolveFieldRef (node : FieldInsnNode) (cp : PoolBuilder) :
    (UInt16 × FieldInsnNode) × PoolBuilder :=
  match node.fieldRef with
  | .index index => ((index, node), cp)
  | .symbolic owner name descriptor =>
      let (index, cp) := cp.ref .field owner name descriptor
      ((index, { node with fieldRef := .index index }), cp)

def resolveMethodRef (node : MethodInsnNode) (cp : PoolBuilder) :
    (UInt16 × MethodInsnNode) × PoolBuilder :=
  match node.methodRef with
  | .index index => ((index, node), cp)
  | .symbolic owner name descriptor =>
      let kind : RefKind :=
        if node.insn.opcode = opcodes.INVOKEINTERFACE then .interfaceMethod else .method
      let (index, cp) := cp.ref kind owner name descriptor
      ((index, { node with methodRef := .index index }), cp)

def argumentSlots : FieldType → UInt16
  | .long | .double => 2
  | _ => 1

/-- The slots of the receiver and the arguments. -/
def methodRefInterfaceCount (methodRef : MemberRef) : UInt8 :=
  match methodRef with
  | .index _ => 1
  | .symbolic _ _ descriptor =>
      match parseMethodDescriptor descriptor with
      | .error _ => 1
      | .ok (args, _) =>
          let count := args.foldl (fun count arg => count + argumentSlots arg) 1
          (min count 255).toUInt8

/-- The index of the constant, before the opcode is chosen. -/
def ldcIndex (value : LdcValue) (cp : PoolBuilder) : UInt16 × PoolBuilder :=
  match value with
  | .index index => (index, cp)
  | .string value => cp.string value
  | .type descriptor =>
      match descriptor.toList with
      | 'L' :: name => cp.named .class_ (String.ofList name.dropLast)
      | '(' :: _ => cp.methodType descriptor
      | _ => cp.named .class_ descriptor
  | .int value => cp.integer value
  | .float bits => cp.float bits
  | .long value => cp.wide (.long value)
  | .double bits => cp.wide (.double bits)

def resolveLdc (node : LdcInsnNode) (cp : PoolBuilder) :
    (UInt8 × UInt16 × LdcInsnNode) × PoolBuilder :=
  let (index, cp) := ldcIndex node.value cp
  let opcode :=
    match node.value with
    | .long _ | .double _ => opcodes.LDC2_W
    | _ => if index ≤ 0xFF then opcodes.LDC else opcodes.LDC_W
  ((opcode, index, { insn := ⟨opcode⟩, value := .index index }), cp)

open opcodes in
/-- The bytes of an instruction at `offset` and the instruction as resolved. Everything it can name
is found or put into the pool, so that there is no error. -/
def emitInsn (offset : Nat) (insn : Insn) (cp : PoolBuilder) : (List UInt8 × Insn) × PoolBuilder :=
  match insn with
  | .simple node => (([node.opcode], .simple node), cp)
  | .int node =>
      let operand :=
        if node.insn.opcode = BIPUSH then writeI1 node.operand.toInt8
        else if node.insn.opcode = SIPUSH then writeI2 node.operand.toInt16
        else if node.insn.opcode = NEWARRAY then writeU1 node.operand.toInt8.toUInt8
        else writeI1 node.operand.toInt8
      ((node.insn.opcode :: operand, .int node), cp)
  | .var node => ((node.insn.opcode :: writeU1 node.varIndex.toUInt8, .var node), cp)
  | .type node => ((node.insn.opcode :: writeU2 node.typeIndex, .type node), cp)
  | .field node =>
      let ((index, resolved), cp) := resolveFieldRef node cp
      ((node.insn.opcode :: writeU2 index, .field resolved), cp)
  | .method node =>
      let interfaceCount :=
        if node.insn.opcode = INVOKEINTERFACE then methodRefInterfaceCount node.methodRef else 0
      let ((index, resolved), cp) := resolveMethodRef node cp
      if resolved.insn.opcode = INVOKEINTERFACE then
        ((node.insn.opcode :: writeU2 index ++ writeU1 interfaceCount ++ writeU1 0,
          .invokeInterface ⟨⟨INVOKEINTERFACE⟩, index, interfaceCount⟩), cp)
      else ((node.insn.opcode :: writeU2 index, .method resolved), cp)
  | .invokeInterface node =>
      ((node.insn.opcode :: writeU2 node.methodIndex ++ writeU1 node.count ++ writeU1 0,
        .invokeInterface node), cp)
  | .invokeDynamic node =>
      ((node.insn.opcode :: writeU2 node.methodIndex ++ writeU2 0, .invokeDynamic node), cp)
  | .jump node =>
      let operand :=
        if node.insn.opcode = GOTO_W ∨ node.insn.opcode = JSR_W then writeI4 node.offset
        else writeI2 node.offset.toInt16
      ((node.insn.opcode :: operand, .jump node), cp)
  | .ldc node =>
      let ((opcode, index, resolved), cp) := resolveLdc node cp
      let operand := if opcode = LDC then writeU1 index.toUInt8 else writeU2 index
      ((opcode :: operand, .ldc resolved), cp)
  | .iinc node =>
      ((node.insn.opcode :: writeU1 node.varIndex.toUInt8 ++ writeI1 node.increment.toInt8,
        .iinc node), cp)
  | .tableSwitch node =>
      ((node.insn.opcode :: writeSwitchPadding offset ++ writeI4 node.defaultOffset ++
          writeI4 node.low ++ writeI4 node.high ++ node.offsets.flatMap writeI4,
        .tableSwitch node), cp)
  | .lookupSwitch node =>
      ((node.insn.opcode :: writeSwitchPadding offset ++ writeI4 node.defaultOffset ++
          writeI4 (Int32.ofNat node.pairs.length) ++
          node.pairs.flatMap fun (key, value) => writeI4 key ++ writeI4 value,
        .lookupSwitch node), cp)
  | .multiANewArray node =>
      ((node.insn.opcode :: writeU2 node.typeIndex ++ writeU1 node.dimensions,
        .multiANewArray node), cp)

/-! ### Emission -/

structure JumpFixup where
  start : Nat
  opcode : UInt8
  target : LabelNode
  insnIndex : Nat
deriving DecidableEq, Repr

structure TableSwitchFixup where
  start : Nat
  defaultTarget : LabelNode
  defaultPosition : Nat
  targets : List LabelNode
  targetPositions : List Nat
  low : Int32
  high : Int32
  insnIndex : Nat
deriving DecidableEq, Repr

structure LookupSwitchFixup where
  start : Nat
  defaultTarget : LabelNode
  defaultPosition : Nat
  pairs : List (Int32 × LabelNode)
  pairPositions : List Nat
  insnIndex : Nat
deriving DecidableEq, Repr

def isWideJump (opcode : UInt8) : Bool :=
  opcode == opcodes.GOTO_W || opcode == opcodes.JSR_W

def jumpSize (opcode : UInt8) : Nat := if isWideJump opcode then 5 else 3

/-- The map of label offsets: the last one inserted comes first. -/
abbrev LabelOffsets := List (Nat × UInt16)

/-- The local variables of the loop over the nodes. -/
structure Emission where
  code : List UInt8
  instructions : List Insn
  labelOffsets : LabelOffsets
  pendingLines : List LineNumberInsnNode
  jumpFixups : List JumpFixup
  tableSwitchFixups : List TableSwitchFixup
  lookupSwitchFixups : List LookupSwitchFixup
  cp : PoolBuilder

def Emission.start (cp : PoolBuilder) : Emission :=
  { code := [], instructions := [], labelOffsets := [], pendingLines := [], jumpFixups := []
    tableSwitchFixups := [], lookupSwitchFixups := [], cp := cp }

/-- Room for one offset after the key of each entry, and where it stands. -/
def reserve {α : Type} (key : α → List UInt8) (code : List UInt8) :
    List α → List UInt8 × List Nat
  | [] => (code, [])
  | entry :: entries =>
      let position := (code ++ key entry).length
      let (code, positions) := reserve key (code ++ key entry ++ writeI4 0) entries
      (code, position :: positions)

/-- One round of the loop. -/
def emitNode (state : Emission) : AbstractInsnNode → Emission
  | .insn insn =>
      let ((bytes, resolved), cp) := emitInsn state.code.length insn state.cp
      { state with
        code := state.code ++ bytes, instructions := state.instructions ++ [resolved], cp := cp }
  | .jumpLabel node =>
      let operand := if isWideJump node.insn.opcode then writeI4 0 else writeI2 0
      { state with
        code := state.code ++ node.insn.opcode :: operand
        instructions := state.instructions ++ [.jump ⟨node.insn, 0⟩]
        jumpFixups := state.jumpFixups ++
          [⟨state.code.length, node.insn.opcode, node.target, state.instructions.length⟩] }
  | .label label =>
      let offset := state.code.length
      -- a label further on is not kept
      if offset ≤ 65535 then
        { state with labelOffsets := (label.id, asU16 offset) :: state.labelOffsets }
      else state
  | .lineNumber line => { state with pendingLines := state.pendingLines ++ [line] }
  | .tableSwitchLabel node =>
      let start := state.code.length
      let code := state.code ++ node.insn.opcode :: writeSwitchPadding start
      let defaultPosition := code.length
      let (code, targetPositions) :=
        reserve (fun _ => []) (code ++ writeI4 0 ++ writeI4 node.low ++ writeI4 node.high)
          node.targets
      { state with
        code := code
        instructions := state.instructions ++
          [.tableSwitch ⟨node.insn, 0, node.low, node.high, node.targets.map fun _ => 0⟩]
        tableSwitchFixups := state.tableSwitchFixups ++
          [⟨start, node.defaultTarget, defaultPosition, node.targets, targetPositions, node.low,
            node.high, state.instructions.length⟩] }
  | .lookupSwitchLabel node =>
      let start := state.code.length
      let code := state.code ++ node.insn.opcode :: writeSwitchPadding start
      let defaultPosition := code.length
      let (code, pairPositions) :=
        reserve (fun pair => writeI4 pair.1)
          (code ++ writeI4 0 ++ writeI4 (Int32.ofNat node.pairs.length)) node.pairs
      { state with
        code := code
        instructions := state.instructions ++
          [.lookupSwitch ⟨node.insn, 0, node.pairs.map fun pair => (pair.1, 0)⟩]
        lookupSwitchFixups := state.lookupSwitchFixups ++
          [⟨start, node.defaultTarget, defaultPosition, node.pairs, pairPositions,
            state.instructions.length⟩] }

/-! ### Fixups -/

/-- `*target_offset as i32 - fixup.start as i32` -/
def labelDelta (target : UInt16) (start : Nat) : Int32 :=
  Int32.ofNat target.toNat - Int32.ofNat start

def writeI2At (code : List UInt8) (pos : Nat) (value : Int16) : List UInt8 :=
  Patch.apply code ⟨pos, writeI2 value⟩

def writeI4At (code : List UInt8) (pos : Nat) (value : Int32) : List UInt8 :=
  Patch.apply code ⟨pos, writeI4 value⟩

/-- The code and the instructions as far as they are fixed. -/
abbrev Fixed := List UInt8 × List Insn

def fixJump (labels : LabelOffsets) (fixed : Fixed) (fixup : JumpFixup) : Fixed :=
  match labels.lookup fixup.target.id with
  | none => fixed
  | some target =>
      let offset := labelDelta target fixup.start
      let code :=
        if isWideJump fixup.opcode then writeI4At fixed.1 (fixup.start + 1) offset
        else writeI2At fixed.1 (fixup.start + 1) offset.toInt16
      (code, fixed.2.set fixup.insnIndex (.jump ⟨⟨fixup.opcode⟩, offset⟩))

/-- The loop over the entries of a switch: an entry without its label is left out. -/
def fixEntries (labels : LabelOffsets) (start : Nat) (code : List UInt8) :
    List (LabelNode × Nat) → List UInt8 × List (Option Int32)
  | [] => (code, [])
  | (target, position) :: entries =>
      match labels.lookup target.id with
      | none =>
          let (code, deltas) := fixEntries labels start code entries
          (code, none :: deltas)
      | some targetOffset =>
          let delta := labelDelta targetOffset start
          let (code, deltas) := fixEntries labels start (writeI4At code position delta) entries
          (code, some delta :: deltas)

def fixTableSwitch (labels : LabelOffsets) (fixed : Fixed) (fixup : TableSwitchFixup) : Fixed :=
  match labels.lookup fixup.defaultTarget.id with
  | none => fixed
  | some target =>
      let defaultDelta := labelDelta target fixup.start
      let (code, deltas) :=
        fixEntries labels fixup.start (writeI4At fixed.1 fixup.defaultPosition defaultDelta)
          (fixup.targets.zip fixup.targetPositions)
      (code, fixed.2.set fixup.insnIndex (.tableSwitch
        ⟨⟨opcodes.TABLESWITCH⟩, defaultDelta, fixup.low, fixup.high, deltas.filterMap id⟩))

def fixLookupSwitch (labels : LabelOffsets) (fixed : Fixed) (fixup : LookupSwitchFixup) : Fixed :=
  match labels.lookup fixup.defaultTarget.id with
  | none => fixed
  | some target =>
      let defaultDelta := labelDelta target fixup.start
      let (code, deltas) :=
        fixEntries labels fixup.start (writeI4At fixed.1 fixup.defaultPosition defaultDelta)
          ((fixup.pairs.map Prod.snd).zip fixup.pairPositions)
      let pairs := (fixup.pairs.zip deltas).filterMap fun (pair, delta) =>
        delta.map fun delta => (pair.1, delta)
      (code, fixed.2.set fixup.insnIndex (.lookupSwitch
        ⟨⟨opcodes.LOOKUPSWITCH⟩, defaultDelta, pairs⟩))

/-- The three loops over the fixups. -/
def Emission.fix (state : Emission) : Fixed :=
  let fixed := state.jumpFixups.foldl (fixJump state.labelOffsets) (state.code, state.instructions)
  let fixed := state.tableSwitchFixups.foldl (fixTableSwitch state.labelOffsets) fixed
  state.lookupSwitchFixups.foldl (fixLookupSwitch state.labelOffsets) fixed

/-! ### The body -/

structure PendingTryCatchBlock where
  start : LabelNode
  end_ : LabelNode
  handler : LabelNode
  catchType : Option String
deriving DecidableEq, Repr

structure CodeBody where
  maxStack : UInt16
  maxLocals : UInt16
  insns : List AbstractInsnNode
  exceptionTable : List ExceptionTableEntry
  pendingTryCatchBlocks : List PendingTryCatchBlock
  attributes : List AttributeInfo

/-- The entry of a block whose labels are all known; the others are passed over. -/
def buildTryCatch (labels : LabelOffsets) (cp : PoolBuilder) (pending : PendingTryCatchBlock) :
    Option ExceptionTableEntry × PoolBuilder :=
  match labels.lookup pending.start.id, labels.lookup pending.end_.id,
      labels.lookup pending.handler.id with
  | some startPc, some endPc, some handlerPc =>
      let (catchType, cp) :=
        match pending.catchType with
        | some name => cp.named .class_ name
        | none => (0, cp)
      (some ⟨startPc, endPc, handlerPc, catchType⟩, cp)
  | _, _, _ => (none, cp)

def buildTryCatches (labels : LabelOffsets) :
    PoolBuilder → List PendingTryCatchBlock → List ExceptionTableEntry × PoolBuilder
  | cp, [] => ([], cp)
  | cp, pending :: blocks =>
      let (entry, cp) := buildTryCatch labels cp pending
      let (entries, cp) := buildTryCatches labels cp blocks
      (entry.toList ++ entries, cp)

def buildLines (labels : LabelOffsets) (lines : List LineNumberInsnNode) : List LineNumber :=
  lines.filterMap fun line =>
    (labels.lookup line.start.id).map fun startPc => ⟨startPc, line.line⟩

namespace CodeBody

def emit (body : CodeBody) (cp : PoolBuilder) : Emission :=
  body.insns.foldl emitNode (Emission.start cp)

/-- There is no way to end but with a code attribute. -/
def build (body : CodeBody) (cp : PoolBuilder) : CodeAttribute × PoolBuilder :=
  let state := body.emit cp
  let (code, instructions) := state.fix
  let (entries, cp) := buildTryCatches state.labelOffsets state.cp body.pendingTryCatchBlocks
  let lines := buildLines state.labelOffsets state.pendingLines
  ({ maxStack := body.maxStack
     maxLocals := body.maxLocals
     code := code
     instructions := instructions
     exceptionTable := body.exceptionTable ++ entries
     attributes := body.attributes ++
       if lines.isEmpty then [] else [.lineNumberTable lines] }, cp)

end CodeBody

end CaffeineLs.RustAsm
