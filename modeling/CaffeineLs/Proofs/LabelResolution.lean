/-
Module: CaffeineLs.Proofs.LabelResolution
Purpose: The offsets, ranges and lines of a built method body against the places of its labels.
Trusted boundary: none
Main exports: Mark, entriesOf, meets_build_iff
-/
import CaffeineLs.Proofs.BytecodeRoundTrip
import CaffeineLs.RustAsm.CodeBody
import Mathlib.Data.List.Forall2
import Mathlib.Data.List.Pairwise

namespace CaffeineLs.RustAsm

open ByteReader Patches

/-! ### Where nodes stand -/

/-- A node with where its bytes start and where the next ones do. -/
structure Mark where
  node : AbstractInsnNode
  start : Nat
  stop : Nat

/-- Where the operands of a switch at `pos` start. -/
def switchBase (pos : Nat) : Nat := pos + 1 + (writeSwitchPadding pos).length

/-- The bytes of a node at `pos`, and the pool after it. -/
def sizeAt (pos : Nat) (cp : PoolBuilder) : AbstractInsnNode → Nat × PoolBuilder
  | .insn insn => ((emitInsn pos insn cp).1.1.length, (emitInsn pos insn cp).2)
  | .jumpLabel node => (jumpSize node.insn.opcode, cp)
  | .label _ => (0, cp)
  | .lineNumber _ => (0, cp)
  | .tableSwitchLabel node => (switchBase pos + 12 + 4 * node.targets.length - pos, cp)
  | .lookupSwitchLabel node => (switchBase pos + 8 + 8 * node.pairs.length - pos, cp)

/-- The nodes one behind another. -/
def marksFrom (pos : Nat) (cp : PoolBuilder) : List AbstractInsnNode → List Mark
  | [] => []
  | node :: nodes =>
      ⟨node, pos, pos + (sizeAt pos cp node).1⟩ ::
        marksFrom (pos + (sizeAt pos cp node).1) (sizeAt pos cp node).2 nodes

def CodeBody.marks (body : CodeBody) (cp : PoolBuilder) : List Mark := marksFrom 0 cp body.insns

/-- The label is placed at `pos`. -/
def CodeBody.LabelAt (body : CodeBody) (cp : PoolBuilder) (label : LabelNode) (pos : Nat) : Prop :=
  ∃ mark ∈ body.marks cp, mark.node = .label label ∧ mark.start = pos

/-! ### What a node says of labels -/

/-- An offset in the code: where it stands, whether in four bytes or two, and where it leads. -/
structure Entry where
  position : Nat
  wide : Bool
  target : LabelNode
deriving DecidableEq, Repr

/-- Four-byte offsets at a fixed distance from each other. -/
def entriesAlong (stride : Nat) : Nat → List LabelNode → List Entry
  | _, [] => []
  | position, target :: targets =>
      ⟨position, true, target⟩ :: entriesAlong stride (position + stride) targets

/-- The offsets of a node at `pos`. Those of a switch follow its default with the bounds or the
number of pairs and the first key between. -/
def entriesOf (pos : Nat) : AbstractInsnNode → List Entry
  | .jumpLabel node => [⟨pos + 1, isWideJump node.insn.opcode, node.target⟩]
  | .tableSwitchLabel node =>
      ⟨switchBase pos, true, node.defaultTarget⟩ ::
        entriesAlong 4 (switchBase pos + 12) node.targets
  | .lookupSwitchLabel node =>
      ⟨switchBase pos, true, node.defaultTarget⟩ ::
        entriesAlong 8 (switchBase pos + 12) (node.pairs.map Prod.snd)
  | _ => []

/-- The opcode of a node with offsets. -/
def opcodeOf : AbstractInsnNode → Option UInt8
  | .jumpLabel node => some node.insn.opcode
  | .tableSwitchLabel node => some node.insn.opcode
  | .lookupSwitchLabel node => some node.insn.opcode
  | _ => none

def lineOf : AbstractInsnNode → Option LineNumberInsnNode
  | .lineNumber line => some line
  | _ => none

def PendingTryCatchBlock.labels (block : PendingTryCatchBlock) : List LabelNode :=
  [block.start, block.end_, block.handler]

/-- The labels that jumps, switches, lines and try/catch blocks refer to. -/
def CodeBody.referred (body : CodeBody) : List LabelNode :=
  body.insns.flatMap (fun node => (entriesOf 0 node).map Entry.target) ++
    ((body.insns.filterMap lineOf).map LineNumberInsnNode.start ++
      body.pendingTryCatchBlocks.flatMap PendingTryCatchBlock.labels)

/-- Each label that is referred to is placed once. -/
def CodeBody.PlacedOnce (body : CodeBody) : Prop :=
  ∀ label ∈ body.referred, body.insns.count (.label label) = 1

instance (body : CodeBody) : Decidable body.PlacedOnce :=
  inferInstanceAs (Decidable (∀ label ∈ body.referred, body.insns.count (.label label) = 1))

/-! ### What a build has to give -/

/-- The offset that stands in the code at a position. -/
def ReadsOffset (code : List UInt8) (position : Nat) (wide : Bool) (offset : Int) : Prop :=
  if wide then
    ∃ value rest, Accepts readI4 ⟨position, code.drop position⟩ value rest ∧ value.toInt = offset
  else
    ∃ value rest, Accepts readI2 ⟨position, code.drop position⟩ value rest ∧ value.toInt = offset

/-- Every offset, range and line is the one its labels give. -/
structure LabelsResolved (body : CodeBody) (cp : PoolBuilder) (built : CodeAttribute) : Prop where
  opcodes : ∀ mark ∈ body.marks cp, ∀ opcode, opcodeOf mark.node = some opcode →
    built.code[mark.start]? = some opcode
  offsets : ∀ mark ∈ body.marks cp, ∀ entry ∈ entriesOf mark.start mark.node, ∀ target,
    body.LabelAt cp entry.target target →
      ReadsOffset built.code entry.position entry.wide ((target : Int) - mark.start)
  ranges : ∃ entries, built.exceptionTable = body.exceptionTable ++ entries ∧
    List.Forall₂ (fun block entry =>
      body.LabelAt cp block.start entry.startPc.toNat ∧
        body.LabelAt cp block.end_ entry.endPc.toNat ∧
        body.LabelAt cp block.handler entry.handlerPc.toNat) body.pendingTryCatchBlocks entries
  lines : ∃ entries, built.attributes = body.attributes ++
      (if entries.isEmpty then [] else [.lineNumberTable entries]) ∧
    List.Forall₂ (fun line entry =>
      body.LabelAt cp line.start entry.startPc.toNat ∧ entry.lineNumber = line.line)
      (body.insns.filterMap lineOf) entries

/-- The offsets that a number of bytes can hold. -/
def InReach (wide : Bool) (offset : Int) : Prop :=
  if wide then -(2 ^ 31) ≤ offset ∧ offset < 2 ^ 31 else -(2 ^ 15) ≤ offset ∧ offset < 2 ^ 15

/-- What is to be reported: a label that is referred to lies beyond 65535, or a branch does not fit
into 16 bits. -/
inductive Misfit (body : CodeBody) (cp : PoolBuilder) : Prop where
  | label (label : LabelNode) (pos : Nat) (refers : label ∈ body.referred)
      (placed : body.LabelAt cp label pos) (beyond : 65535 < pos)
  | branch (mark : Mark) (entry : Entry) (target : Nat) (here : mark ∈ body.marks cp)
      (among : entry ∈ entriesOf mark.start mark.node) (narrow : entry.wide = false)
      (placed : body.LabelAt cp entry.target target)
      (beyond : ¬ InReach false ((target : Int) - mark.start))

/-- What building a body may end with: the code, or `none` for a report. -/
def MeetsLabels (body : CodeBody) (cp : PoolBuilder) : Option CodeAttribute → Prop
  | some built => LabelsResolved body cp built ∧ ¬ Misfit body cp
  | none => Misfit body cp

/-- Every label that is referred to lies within the first 65536 bytes. -/
def Near (body : CodeBody) (cp : PoolBuilder) : Prop :=
  ∀ label pos, label ∈ body.referred → body.LabelAt cp label pos → pos ≤ 65535

/-- The labels are near, and every offset fits into its bytes. -/
structure LabelsFit (body : CodeBody) (cp : PoolBuilder) : Prop where
  labels : Near body cp
  offsets : ∀ mark ∈ body.marks cp, ∀ entry ∈ entriesOf mark.start mark.node, ∀ target,
    body.LabelAt cp entry.target target → InReach entry.wide ((target : Int) - mark.start)

/-! ### Offsets within a node -/

def Entry.width (entry : Entry) : Nat := if entry.wide then 4 else 2

def Entry.region (entry : Entry) : Region := ⟨entry.position, entry.width⟩

theorem mem_entriesAlong {stride position : Nat} {targets : List LabelNode} {entry : Entry}
    (member : entry ∈ entriesAlong stride position targets) :
    entry.wide = true ∧ position ≤ entry.position ∧
      entry.position + stride ≤ position + stride * targets.length := by
  induction targets generalizing position with
  | nil => cases member
  | cons target targets ih =>
      rw [List.length_cons, Nat.mul_succ]
      rcases List.mem_cons.mp member with rfl | later
      · exact ⟨rfl, Nat.le_refl _, by simp only; omega⟩
      · obtain ⟨wide, after, before⟩ := ih later
        exact ⟨wide, by omega, by omega⟩

theorem apart_entriesAlong {stride : Nat} (room : 4 ≤ stride) (position : Nat)
    (targets : List LabelNode) :
    ((entriesAlong stride position targets).map Entry.region).Pairwise Region.Apart := by
  induction targets generalizing position with
  | nil => exact .nil
  | cons target targets ih =>
      refine List.pairwise_cons.mpr ⟨?_, ih _⟩
      intro region member
      obtain ⟨entry, later, rfl⟩ := List.mem_map.mp member
      obtain ⟨_, after, _⟩ := mem_entriesAlong later
      left
      simp only [Entry.region, Entry.width, if_true]
      omega

theorem switchBase_gt (pos : Nat) : pos < switchBase pos := by
  unfold switchBase
  omega

/-- The offsets of a node lie behind its opcode and before the next node. -/
theorem entriesOf_within {pos : Nat} (cp : PoolBuilder) {node : AbstractInsnNode} {entry : Entry}
    (member : entry ∈ entriesOf pos node) :
    pos < entry.position ∧ entry.position + entry.width ≤ pos + (sizeAt pos cp node).1 := by
  have base := switchBase_gt pos
  cases node with
  | label _ => cases member
  | lineNumber _ => cases member
  | insn _ => cases member
  | jumpLabel node =>
      obtain rfl := List.mem_singleton.mp member
      simp only [Entry.width, sizeAt, jumpSize]
      split <;> omega
  | tableSwitchLabel node =>
      simp only [sizeAt]
      rcases List.mem_cons.mp member with rfl | later
      · simp only [Entry.width, if_true]
        omega
      · obtain ⟨wide, after, before⟩ := mem_entriesAlong later
        simp only [Entry.width, wide, if_true]
        omega
  | lookupSwitchLabel node =>
      simp only [sizeAt]
      rcases List.mem_cons.mp member with rfl | later
      · simp only [Entry.width, if_true]
        omega
      · obtain ⟨wide, after, before⟩ := mem_entriesAlong later
        rw [List.length_map] at before
        simp only [Entry.width, wide, if_true]
        omega

/-- The default of a switch and the offsets behind it. -/
theorem apart_switch {stride pos : Nat} (room : 4 ≤ stride) (target : LabelNode)
    (targets : List LabelNode) :
    ((⟨pos, true, target⟩ :: entriesAlong stride (pos + 12) targets).map Entry.region).Pairwise
      Region.Apart := by
  refine List.pairwise_cons.mpr ⟨?_, apart_entriesAlong room _ _⟩
  intro region member
  obtain ⟨entry, later, rfl⟩ := List.mem_map.mp member
  obtain ⟨_, after, _⟩ := mem_entriesAlong later
  left
  simp only [Entry.region, Entry.width, if_true]
  omega

theorem entriesOf_apart (pos : Nat) (node : AbstractInsnNode) :
    ((entriesOf pos node).map Entry.region).Pairwise Region.Apart := by
  cases node with
  | label _ => exact .nil
  | lineNumber _ => exact .nil
  | insn _ => exact .nil
  | jumpLabel node => exact List.pairwise_singleton _ _
  | tableSwitchLabel node => exact apart_switch (Nat.le_refl 4) _ _
  | lookupSwitchLabel node => exact apart_switch (by omega) _ _

/-! ### The order of the nodes -/

theorem marksFrom_after {pos : Nat} {cp : PoolBuilder} {nodes : List AbstractInsnNode} {mark : Mark}
    (member : mark ∈ marksFrom pos cp nodes) : pos ≤ mark.start := by
  induction nodes generalizing pos cp with
  | nil => cases member
  | cons node nodes ih =>
      rcases List.mem_cons.mp member with rfl | later
      · exact Nat.le_refl _
      · exact Nat.le_trans (Nat.le_add_right _ _) (ih later)

theorem marksFrom_ordered (pos : Nat) (cp : PoolBuilder) (nodes : List AbstractInsnNode) :
    (marksFrom pos cp nodes).Pairwise fun first second => first.stop ≤ second.start := by
  induction nodes generalizing pos cp with
  | nil => exact .nil
  | cons node nodes ih =>
      exact List.pairwise_cons.mpr ⟨fun mark member => marksFrom_after member, ih _ _⟩

/-- The offsets of a mark. -/
def Mark.entries (mark : Mark) : List Entry := entriesOf mark.start mark.node

theorem Mark.entries_within {pos : Nat} {cp : PoolBuilder} {nodes : List AbstractInsnNode}
    {mark : Mark} (member : mark ∈ marksFrom pos cp nodes) {entry : Entry}
    (among : entry ∈ mark.entries) :
    mark.start < entry.position ∧ entry.position + entry.width ≤ mark.stop := by
  induction nodes generalizing pos cp with
  | nil => cases member
  | cons node nodes ih =>
      rcases List.mem_cons.mp member with rfl | later
      · exact entriesOf_within cp among
      · exact ih later

/-- All the offsets of a body are apart from each other. -/
theorem marks_apart (pos : Nat) (cp : PoolBuilder) (nodes : List AbstractInsnNode) :
    (((marksFrom pos cp nodes).flatMap Mark.entries).map Entry.region).Pairwise Region.Apart := by
  rw [List.map_flatMap, List.pairwise_flatMap]
  constructor
  · exact fun mark _ => entriesOf_apart _ _
  · refine (marksFrom_ordered pos cp nodes).imp_of_mem ?_
    intro first second firstIn secondIn ordered region regionIn region' regionIn'
    obtain ⟨entry, among, rfl⟩ := List.mem_map.mp regionIn
    obtain ⟨entry', among', rfl⟩ := List.mem_map.mp regionIn'
    have before := Mark.entries_within firstIn among
    have after := Mark.entries_within secondIn among'
    left
    simp only [Entry.region]
    omega

/-- No offset lies over the first byte of a node with offsets. -/
theorem start_outside {pos : Nat} {cp : PoolBuilder} {nodes : List AbstractInsnNode}
    {mark other : Mark} (member : mark ∈ marksFrom pos cp nodes)
    (otherIn : other ∈ marksFrom pos cp nodes) (long : mark.start < mark.stop) {entry : Entry}
    (among : entry ∈ other.entries) :
    mark.start < entry.position ∨ entry.position + entry.width ≤ mark.start := by
  have within := Mark.entries_within otherIn among
  by_cases same : mark = other
  · subst same
    exact Or.inl within.1
  · have ordered : (marksFrom pos cp nodes).Pairwise fun first second =>
        first.stop ≤ second.start ∨ second.stop ≤ first.start :=
      (marksFrom_ordered pos cp nodes).imp Or.inl
    have : Std.Symm fun first second : Mark =>
      first.stop ≤ second.start ∨ second.stop ≤ first.start := ⟨fun _ _ => Or.symm⟩
    rcases ordered.forall member otherIn same with after | before
    · left
      omega
    · right
      omega

/-! ### Emission -/

/-- An offset to fix, with the position it counts from. -/
abbrev OffsetSlot := Nat × Entry

def switchSlots (start : Nat) (defaultTarget : LabelNode) (defaultPosition : Nat)
    (entries : List (LabelNode × Nat)) : List OffsetSlot :=
  (start, ⟨defaultPosition, true, defaultTarget⟩) ::
    entries.map fun entry => (start, ⟨entry.2, true, entry.1⟩)

def JumpFixup.slots (fixup : JumpFixup) : List OffsetSlot :=
  [(fixup.start, ⟨fixup.start + 1, isWideJump fixup.opcode, fixup.target⟩)]

def TableSwitchFixup.slots (fixup : TableSwitchFixup) : List OffsetSlot :=
  switchSlots fixup.start fixup.defaultTarget fixup.defaultPosition
    (fixup.targets.zip fixup.targetPositions)

def LookupSwitchFixup.slots (fixup : LookupSwitchFixup) : List OffsetSlot :=
  switchSlots fixup.start fixup.defaultTarget fixup.defaultPosition
    ((fixup.pairs.map Prod.snd).zip fixup.pairPositions)

/-- What the fixups are to fill in, in their order. -/
def Emission.slots (state : Emission) : List OffsetSlot :=
  state.jumpFixups.flatMap JumpFixup.slots ++
    (state.tableSwitchFixups.flatMap TableSwitchFixup.slots ++
      state.lookupSwitchFixups.flatMap LookupSwitchFixup.slots)

def Mark.slots (mark : Mark) : List OffsetSlot := mark.entries.map (Prod.mk mark.start)

/-- What is kept of a label. -/
def Mark.labelOffset (mark : Mark) : Option (Nat × UInt16) :=
  match mark.node with
  | .label label => if mark.start ≤ 65535 then some (label.id, asU16 mark.start) else none
  | _ => none

/-- The room made for the entries of a switch. -/
theorem reserve_entries {α : Type} {key : α → List UInt8} {width : Nat}
    (fixed : ∀ entry, (key entry).length = width) (label : α → LabelNode) (code : List UInt8)
    (entries : List α) :
    code <+: (reserve key code entries).1 ∧
      (reserve key code entries).1.length = code.length + (width + 4) * entries.length ∧
      ((entries.map label).zip (reserve key code entries).2).map
          (fun entry => (⟨entry.2, true, entry.1⟩ : Entry)) =
        entriesAlong (width + 4) (code.length + width) (entries.map label) := by
  induction entries generalizing code with
  | nil => exact ⟨List.prefix_refl _, by simp [reserve], rfl⟩
  | cons entry entries ih =>
      obtain ⟨kept, length, along⟩ := ih (code ++ key entry ++ writeI4 0)
      have ahead : (code ++ key entry ++ writeI4 0).length = code.length + width + 4 := by
        simp only [List.length_append, fixed, length_writeI4]
      have first : code <+: code ++ key entry ++ writeI4 0 :=
        ⟨key entry ++ writeI4 0, (List.append_assoc _ _ _).symm⟩
      rw [ahead] at length along
      refine ⟨first.trans kept, ?_, ?_⟩
      · rw [List.length_cons, Nat.mul_succ]
        change (reserve key (code ++ key entry ++ writeI4 0) entries).1.length = _
        omega
      · simp only [reserve, List.map_cons, List.zip_cons_cons, along, entriesAlong,
          List.length_append, fixed]
        congr 2
        omega

theorem getElem?_of_prefix {code code' : List UInt8} (kept : code <+: code') {pos : Nat}
    {byte : UInt8} (stands : code[pos]? = some byte) : code'[pos]? = some byte := by
  obtain ⟨rest, rfl⟩ := kept
  obtain ⟨inside, _⟩ := List.getElem?_eq_some_iff.mp stands
  rw [List.getElem?_append_left inside, stands]

/-- What emitting nodes from a state on adds to it. -/
structure Emitted (state : Emission) (marks : List Mark) (state' : Emission) : Prop where
  kept : state.code <+: state'.code
  within : ∀ mark ∈ marks, mark.stop ≤ state'.code.length
  opcodes : ∀ mark ∈ marks, ∀ opcode, opcodeOf mark.node = some opcode →
    mark.start < mark.stop ∧ state'.code[mark.start]? = some opcode
  slots : state'.slots.Perm (state.slots ++ marks.flatMap Mark.slots)
  labels : state'.labelOffsets = (marks.filterMap Mark.labelOffset).reverse ++ state.labelOffsets
  lines : state'.pendingLines = state.pendingLines ++ marks.filterMap fun mark => lineOf mark.node

theorem Emitted.refl (state : Emission) : Emitted state [] state where
  kept := List.prefix_refl _
  within := nofun
  opcodes := nofun
  slots := by simp
  labels := rfl
  lines := by simp

theorem Emitted.trans {first second third : Emission} {marks marks' : List Mark}
    (before : Emitted first marks second) (after : Emitted second marks' third) :
    Emitted first (marks ++ marks') third where
  kept := before.kept.trans after.kept
  within := by
    intro mark member
    rcases List.mem_append.mp member with here | later
    · exact Nat.le_trans (before.within mark here) after.kept.length_le
    · exact after.within mark later
  opcodes := by
    intro mark member opcode same
    rcases List.mem_append.mp member with here | later
    · obtain ⟨long, stands⟩ := before.opcodes mark here opcode same
      exact ⟨long, getElem?_of_prefix after.kept stands⟩
    · exact after.opcodes mark later opcode same
  slots := by
    rw [List.flatMap_append, ← List.append_assoc]
    exact after.slots.trans (before.slots.append_right _)
  labels := by
    rw [after.labels, before.labels, List.filterMap_append, List.reverse_append, List.append_assoc]
  lines := by
    rw [after.lines, before.lines, List.filterMap_append, List.append_assoc]

/-- The room made in the code for a node, and the positions in it. -/
theorem tableSwitch_room (state : Emission) (node : TableSwitchLabelInsnNode) :
    let start := state.code.length
    let code := state.code ++ node.insn.opcode :: writeSwitchPadding start
    let room := reserve (fun _ => []) (code ++ writeI4 0 ++ writeI4 node.low ++ writeI4 node.high)
      node.targets
    code.length = switchBase start ∧ code <+: room.1 ∧
      room.1.length = switchBase start + 12 + 4 * node.targets.length ∧
      (node.targets.zip room.2).map (fun entry => (⟨entry.2, true, entry.1⟩ : Entry)) =
        entriesAlong 4 (switchBase start + 12) node.targets := by
  intro start code room
  have base : code.length = switchBase start := by
    simp only [code, List.length_append, List.length_cons, switchBase, start]
    omega
  obtain ⟨kept, length, along⟩ := @reserve_entries LabelNode (fun _ => []) 0 (fun _ => rfl) id
    (code ++ writeI4 0 ++ writeI4 node.low ++ writeI4 node.high) node.targets
  have ahead : (code ++ writeI4 0 ++ writeI4 node.low ++ writeI4 node.high).length =
      switchBase start + 12 := by
    simp only [List.length_append, base, length_writeI4]
  rw [ahead] at length along
  rw [List.map_id] at along
  have first : code <+: code ++ writeI4 0 ++ writeI4 node.low ++ writeI4 node.high :=
    ⟨writeI4 0 ++ writeI4 node.low ++ writeI4 node.high, by simp only [List.append_assoc]⟩
  exact ⟨base, first.trans kept, length, along⟩

theorem lookupSwitch_room (state : Emission) (node : LookupSwitchLabelInsnNode) :
    let start := state.code.length
    let code := state.code ++ node.insn.opcode :: writeSwitchPadding start
    let room := reserve (fun pair : Int32 × LabelNode => writeI4 pair.1)
      (code ++ writeI4 0 ++ writeI4 (Int32.ofNat node.pairs.length)) node.pairs
    code.length = switchBase start ∧ code <+: room.1 ∧
      room.1.length = switchBase start + 8 + 8 * node.pairs.length ∧
      ((node.pairs.map Prod.snd).zip room.2).map (fun entry => (⟨entry.2, true, entry.1⟩ : Entry)) =
        entriesAlong 8 (switchBase start + 12) (node.pairs.map Prod.snd) := by
  intro start code room
  have base : code.length = switchBase start := by
    simp only [code, List.length_append, List.length_cons, switchBase, start]
    omega
  obtain ⟨kept, length, along⟩ := @reserve_entries (Int32 × LabelNode)
    (fun pair => writeI4 pair.1) 4 (fun _ => rfl) Prod.snd
    (code ++ writeI4 0 ++ writeI4 (Int32.ofNat node.pairs.length)) node.pairs
  have ahead : (code ++ writeI4 0 ++ writeI4 (Int32.ofNat node.pairs.length)).length =
      switchBase start + 8 := by
    simp only [List.length_append, base, length_writeI4]
  rw [ahead] at length along
  have first : code <+: code ++ writeI4 0 ++ writeI4 (Int32.ofNat node.pairs.length) :=
    ⟨writeI4 0 ++ writeI4 (Int32.ofNat node.pairs.length), by simp only [List.append_assoc]⟩
  exact ⟨base, first.trans kept, length, along⟩

theorem emitNode_label (state : Emission) (label : LabelNode) :
    emitNode state (.label label) =
      if state.code.length ≤ 65535 then
        { state with labelOffsets := (label.id, asU16 state.code.length) :: state.labelOffsets }
      else state := rfl

theorem length_emitNode (state : Emission) (node : AbstractInsnNode) :
    (emitNode state node).code.length =
      state.code.length + (sizeAt state.code.length state.cp node).1 := by
  have base := switchBase_gt state.code.length
  cases node with
  | label label =>
      rw [emitNode_label]
      split <;> rfl
  | lineNumber line => rfl
  | insn insn => exact List.length_append
  | jumpLabel node =>
      simp only [emitNode, sizeAt, jumpSize, List.length_append, List.length_cons]
      split <;> rfl
  | tableSwitchLabel node =>
      have length := (tableSwitch_room state node).2.2.1
      simp only [emitNode, sizeAt]
      rw [length]
      omega
  | lookupSwitchLabel node =>
      have length := (lookupSwitch_room state node).2.2.1
      simp only [emitNode, sizeAt]
      rw [length]
      omega

theorem cp_emitNode (state : Emission) (node : AbstractInsnNode) :
    (emitNode state node).cp = (sizeAt state.code.length state.cp node).2 := by
  cases node with
  | label label =>
      rw [emitNode_label]
      split <;> rfl
  | _ => rfl

theorem filterMap_one {α β : Type} (f : α → Option β) (a : α) :
    [a].filterMap f = (f a).toList := by
  cases value : f a with
  | none => rw [List.filterMap_cons_none value]; rfl
  | some b => rw [List.filterMap_cons_some value]; rfl

/-- One node more. -/
theorem Emitted.single {state state' : Emission} {mark : Mark}
    (kept : state.code <+: state'.code) (within : mark.stop ≤ state'.code.length)
    (opcodes : ∀ opcode, opcodeOf mark.node = some opcode →
      mark.start < mark.stop ∧ state'.code[mark.start]? = some opcode)
    (slots : state'.slots.Perm (state.slots ++ mark.slots))
    (labels : state'.labelOffsets = mark.labelOffset.toList ++ state.labelOffsets)
    (lines : state'.pendingLines = state.pendingLines ++ (lineOf mark.node).toList) :
    Emitted state [mark] state' where
  kept := kept
  within := by
    intro other member
    rwa [List.mem_singleton.mp member]
  opcodes := by
    intro other member
    rwa [List.mem_singleton.mp member]
  slots := by
    rwa [List.flatMap_cons, List.flatMap_nil, List.append_nil]
  labels := by
    rw [labels, filterMap_one]
    cases mark.labelOffset <;> rfl
  lines := by
    rw [lines, filterMap_one]

/-- What goes behind the first list may go behind both. -/
theorem perm_behind {α : Type} (first second new : List α) :
    (first ++ new ++ second).Perm (first ++ second ++ new) := by
  rw [List.append_assoc, List.append_assoc]
  exact List.perm_append_comm.append_left first

/-- The slots of a switch are its offsets. -/
theorem switchSlots_eq {start defaultPosition base stride : Nat} {defaultTarget : LabelNode}
    {entries : List (LabelNode × Nat)} {targets : List LabelNode}
    (position : defaultPosition = base)
    (along : entries.map (fun entry => (⟨entry.2, true, entry.1⟩ : Entry)) =
      entriesAlong stride (base + 12) targets) :
    switchSlots start defaultTarget defaultPosition entries =
      (⟨base, true, defaultTarget⟩ :: entriesAlong stride (base + 12) targets).map
        (Prod.mk start) := by
  unfold switchSlots
  rw [List.map_cons, ← along, List.map_map, position]
  rfl

theorem opcode_first {code : List UInt8} {opcode : UInt8} {operands code' : List UInt8}
    (kept : code ++ opcode :: operands <+: code') : code'[code.length]? = some opcode := by
  apply getElem?_of_prefix kept
  rw [List.getElem?_append_right (Nat.le_refl _), Nat.sub_self]
  rfl

/-- What one round of the loop adds. -/
theorem emitNode_emitted (state : Emission) (node : AbstractInsnNode) :
    Emitted state
      [⟨node, state.code.length, state.code.length + (sizeAt state.code.length state.cp node).1⟩]
      (emitNode state node) := by
  have length := length_emitNode state node
  have within : state.code.length + (sizeAt state.code.length state.cp node).1 ≤
      (emitNode state node).code.length := Nat.le_of_eq length.symm
  have base := switchBase_gt state.code.length
  cases node with
  | label label =>
      rw [emitNode_label]
      split
      case isTrue near =>
        exact .single (List.prefix_refl _) (Nat.le_refl _) nofun (by simp [Mark.slots, Mark.entries,
          entriesOf, Emission.slots]) (by simp [Mark.labelOffset, near]) (by simp [lineOf])
      case isFalse far =>
        exact .single (List.prefix_refl _) (Nat.le_refl _) nofun (by simp [Mark.slots, Mark.entries,
          entriesOf, Emission.slots]) (by simp [Mark.labelOffset, far]) (by simp [lineOf])
  | lineNumber line =>
      exact .single (List.prefix_refl _) (Nat.le_refl _) nofun
        (by simp [Mark.slots, Mark.entries, entriesOf, Emission.slots, emitNode]) rfl rfl
  | insn insn =>
      exact .single (List.prefix_append _ _) within nofun
        (by simp [Mark.slots, Mark.entries, entriesOf, Emission.slots, emitNode]) rfl
        (by simp [lineOf, emitNode])
  | jumpLabel node =>
      refine .single (List.prefix_append _ _) within ?_ ?_ rfl (by simp [lineOf, emitNode])
      · intro opcode same
        obtain rfl := Option.some.inj same
        refine ⟨?_, opcode_first (List.prefix_refl _)⟩
        simp only [sizeAt, jumpSize]
        split <;> omega
      · simp only [Emission.slots, emitNode, List.flatMap_append]
        exact perm_behind _ _ _
  | tableSwitchLabel node =>
      obtain ⟨position, kept, _, along⟩ := tableSwitch_room state node
      refine .single ((List.prefix_append _ _).trans kept) within ?_ ?_ rfl
        (by simp [lineOf, emitNode])
      · intro opcode same
        obtain rfl := Option.some.inj same
        refine ⟨?_, opcode_first kept⟩
        simp only [sizeAt]
        omega
      · have same := @switchSlots_eq state.code.length _ _ _ node.defaultTarget _ _ position along
        have slots : (emitNode state (.tableSwitchLabel node)).slots =
            state.jumpFixups.flatMap JumpFixup.slots ++
              (state.tableSwitchFixups.flatMap TableSwitchFixup.slots ++
                (⟨.tableSwitchLabel node, state.code.length, 0⟩ : Mark).slots ++
                state.lookupSwitchFixups.flatMap LookupSwitchFixup.slots) := by
          simp only [Emission.slots, emitNode, List.flatMap_append, List.flatMap_cons,
            List.flatMap_nil, List.append_nil, TableSwitchFixup.slots, same]
          rfl
        rw [slots, Emission.slots, List.append_assoc (state.jumpFixups.flatMap JumpFixup.slots)]
        exact (perm_behind _ _ _).append_left _
  | lookupSwitchLabel node =>
      obtain ⟨position, kept, _, along⟩ := lookupSwitch_room state node
      refine .single ((List.prefix_append _ _).trans kept) within ?_ ?_ rfl
        (by simp [lineOf, emitNode])
      · intro opcode same
        obtain rfl := Option.some.inj same
        refine ⟨?_, opcode_first kept⟩
        simp only [sizeAt]
        omega
      · have same := @switchSlots_eq state.code.length _ _ _ node.defaultTarget _ _ position along
        have slots : (emitNode state (.lookupSwitchLabel node)).slots =
            state.jumpFixups.flatMap JumpFixup.slots ++
              (state.tableSwitchFixups.flatMap TableSwitchFixup.slots ++
                (state.lookupSwitchFixups.flatMap LookupSwitchFixup.slots ++
                  (⟨.lookupSwitchLabel node, state.code.length, 0⟩ : Mark).slots)) := by
          simp only [Emission.slots, emitNode, List.flatMap_append, List.flatMap_cons,
            List.flatMap_nil, List.append_nil, LookupSwitchFixup.slots, same]
          rfl
        rw [slots, Emission.slots, List.append_assoc, List.append_assoc]
        exact List.Perm.refl _

/-- What the loop adds. -/
theorem emitNodes_emitted (state : Emission) (nodes : List AbstractInsnNode) :
    Emitted state (marksFrom state.code.length state.cp nodes) (nodes.foldl emitNode state) := by
  induction nodes generalizing state with
  | nil => exact Emitted.refl state
  | cons node nodes ih =>
      have rest := ih (emitNode state node)
      rw [length_emitNode, cp_emitNode] at rest
      exact (emitNode_emitted state node).trans rest

theorem emit_emitted (body : CodeBody) (cp : PoolBuilder) :
    Emitted (Emission.start cp) (body.marks cp) (body.emit cp) :=
  emitNodes_emitted (Emission.start cp) body.insns

/-! ### Labels -/

/-- The entry of the map for a label. -/
def offsetFor (labels : LabelOffsets) (label : LabelNode) : UInt16 :=
  (labels.lookup label.id).getD 0

theorem lookup_append {labels labels' : LabelOffsets} {id : Nat}
    (absent : ∀ entry ∈ labels, entry.1 ≠ id) : (labels ++ labels').lookup id = labels'.lookup id := by
  induction labels with
  | nil => rfl
  | cons entry labels ih =>
      have other : (id == entry.1) = false := by
        rw [beq_eq_false_iff_ne]
        exact (absent entry List.mem_cons_self).symm
      rw [List.cons_append, List.lookup_cons, other]
      exact ih fun entry member => absent entry (List.mem_cons_of_mem _ member)

theorem labelOffset_eq_some {mark : Mark} {entry : Nat × UInt16}
    (kept : mark.labelOffset = some entry) :
    ∃ label : LabelNode, mark.node = .label label ∧ entry = (label.id, asU16 mark.start) := by
  unfold Mark.labelOffset at kept
  split at kept
  case h_1 label node =>
    split at kept
    · obtain rfl := Option.some.inj kept
      exact ⟨label, node, rfl⟩
    · cases kept
  case h_2 => cases kept

theorem node_marksFrom (pos : Nat) (cp : PoolBuilder) (nodes : List AbstractInsnNode) :
    (marksFrom pos cp nodes).map Mark.node = nodes := by
  induction nodes generalizing pos cp with
  | nil => rfl
  | cons node nodes ih => exact congrArg _ (ih _ _)

/-- A label placed once, with the nodes before it and behind it. -/
theorem placed_once {body : CodeBody} {cp : PoolBuilder} {label : LabelNode}
    (once : body.insns.count (.label label) = 1) :
    ∃ before mark after, body.marks cp = before ++ mark :: after ∧ mark.node = .label label ∧
      (∀ other ∈ before, other.node ≠ .label label) ∧
        ∀ other ∈ after, other.node ≠ .label label := by
  have nodes : (body.marks cp).map Mark.node = body.insns := node_marksFrom _ _ _
  have placed : AbstractInsnNode.label label ∈ (body.marks cp).map Mark.node := by
    rw [nodes]
    exact List.count_pos_iff.mp (by omega)
  obtain ⟨mark, member, node⟩ := List.mem_map.mp placed
  obtain ⟨before, after, split⟩ := List.append_of_mem member
  rw [← nodes, split, List.map_append, List.map_cons, List.count_append, node,
    List.count_cons_self] at once
  have none_before : (before.map Mark.node).count (.label label) = 0 := by omega
  have none_after : (after.map Mark.node).count (.label label) = 0 := by omega
  rw [List.count_eq_zero] at none_before none_after
  exact ⟨before, mark, after, split, node,
    fun other otherIn same => none_before (List.mem_map.mpr ⟨other, otherIn, same⟩),
    fun other otherIn same => none_after (List.mem_map.mpr ⟨other, otherIn, same⟩)⟩

/-- There is one place, and the map has it unless it lies beyond 65535. -/
theorem LabelAt.resolved {body : CodeBody} {cp : PoolBuilder} {label : LabelNode}
    (once : body.insns.count (.label label) = 1) :
    ∃ pos, (∀ pos', body.LabelAt cp label pos' ↔ pos' = pos) ∧
      (pos ≤ 65535 → (body.emit cp).labelOffsets.lookup label.id = some (asU16 pos)) := by
  obtain ⟨before, mark, after, split, node, none_before, none_after⟩ := @placed_once body cp _ once
  refine ⟨mark.start, fun pos' => ⟨?_, ?_⟩, ?_⟩
  · intro ⟨other, otherIn, same, start⟩
    rw [split] at otherIn
    rcases List.mem_append.mp otherIn with early | late
    · exact absurd same (none_before other early)
    · rcases List.mem_cons.mp late with rfl | later
      · exact start.symm
      · exact absurd same (none_after other later)
  · intro here
    refine ⟨mark, ?_, node, here.symm⟩
    rw [split]
    exact List.mem_append_right _ List.mem_cons_self
  · intro near
    have kept : mark.labelOffset = some (label.id, asU16 mark.start) := by
      unfold Mark.labelOffset
      rw [node]
      exact if_pos near
    rw [(emit_emitted body cp).labels, split, List.filterMap_append,
      List.filterMap_cons_some kept, List.reverse_append, List.reverse_cons, List.append_assoc,
      List.append_assoc, lookup_append]
    · rw [List.singleton_append, List.lookup_cons_self]
    · intro entry member
      obtain ⟨other, otherIn, some_⟩ := List.mem_filterMap.mp (List.mem_reverse.mp member)
      obtain ⟨label', node', rfl⟩ := labelOffset_eq_some some_
      intro same
      apply none_after other otherIn
      rw [node']
      exact congrArg (fun id => AbstractInsnNode.label ⟨id⟩) same

/-! ### Fixups -/

/-- The bytes of an offset. -/
def offsetBytes (wide : Bool) (offset : Int32) : List UInt8 :=
  if wide then writeI4 offset else writeI2 offset.toInt16

theorem length_offsetBytes (entry : Entry) (offset : Int32) :
    (offsetBytes entry.wide offset).length = entry.width := by
  unfold offsetBytes Entry.width
  split <;> rfl

/-- What a fixup writes at one of its slots. -/
def patchFor (labels : LabelOffsets) (slot : OffsetSlot) : Patch UInt8 :=
  ⟨slot.2.position, offsetBytes slot.2.wide (labelDelta (offsetFor labels slot.2.target) slot.1)⟩

theorem region_patchFor (labels : LabelOffsets) (slot : OffsetSlot) :
    (patchFor labels slot).region = slot.2.region := by
  unfold Patch.region Entry.region patchFor
  rw [length_offsetBytes]

/-- The labels of the slots are in the map. -/
def Known (labels : LabelOffsets) (slots : List OffsetSlot) : Prop :=
  ∀ slot ∈ slots, labels.lookup slot.2.target.id = some (offsetFor labels slot.2.target)

theorem fixJump_code {labels : LabelOffsets} {fixup : JumpFixup} (known : Known labels fixup.slots)
    (fixed : Fixed) :
    (fixJump labels fixed fixup).1 = applyPatches fixed.1 (fixup.slots.map (patchFor labels)) := by
  have target := known _ (List.mem_singleton_self _)
  unfold fixJump
  simp only at target
  rw [target]
  unfold JumpFixup.slots patchFor offsetBytes writeI4At writeI2At
  simp only [List.map_cons, List.map_nil, applyPatches, List.foldl_cons, List.foldl_nil]
  split <;> rfl

theorem fixEntries_code {labels : LabelOffsets} {start : Nat} {entries : List (LabelNode × Nat)}
    (known : Known labels (entries.map fun entry => (start, ⟨entry.2, true, entry.1⟩)))
    (code : List UInt8) :
    (fixEntries labels start code entries).1 =
      applyPatches code ((entries.map fun entry =>
        ((start, ⟨entry.2, true, entry.1⟩) : OffsetSlot)).map (patchFor labels)) := by
  induction entries generalizing code with
  | nil => rfl
  | cons entry entries ih =>
      have target := known _ List.mem_cons_self
      have rest := ih (fun slot member => known slot (List.mem_cons_of_mem _ member))
        (writeI4At code entry.2 (labelDelta (offsetFor labels entry.1) start))
      simp only at target
      simp only [fixEntries, target]
      exact rest

theorem fixSwitch_code {labels : LabelOffsets} {start defaultPosition : Nat}
    {defaultTarget : LabelNode} {entries : List (LabelNode × Nat)}
    (known : Known labels (switchSlots start defaultTarget defaultPosition entries))
    (code : List UInt8) :
    labels.lookup defaultTarget.id = some (offsetFor labels defaultTarget) ∧
      (fixEntries labels start (writeI4At code defaultPosition
        (labelDelta (offsetFor labels defaultTarget) start)) entries).1 =
        applyPatches code
          ((switchSlots start defaultTarget defaultPosition entries).map (patchFor labels)) :=
  ⟨known _ List.mem_cons_self,
    fixEntries_code (fun slot member => known slot (List.mem_cons_of_mem _ member)) _⟩

theorem fixTableSwitch_code {labels : LabelOffsets} {fixup : TableSwitchFixup}
    (known : Known labels fixup.slots) (fixed : Fixed) :
    (fixTableSwitch labels fixed fixup).1 =
      applyPatches fixed.1 (fixup.slots.map (patchFor labels)) := by
  obtain ⟨target, code⟩ := fixSwitch_code known fixed.1
  unfold fixTableSwitch
  rw [target]
  exact code

theorem fixLookupSwitch_code {labels : LabelOffsets} {fixup : LookupSwitchFixup}
    (known : Known labels fixup.slots) (fixed : Fixed) :
    (fixLookupSwitch labels fixed fixup).1 =
      applyPatches fixed.1 (fixup.slots.map (patchFor labels)) := by
  obtain ⟨target, code⟩ := fixSwitch_code known fixed.1
  unfold fixLookupSwitch
  rw [target]
  exact code

/-- One of the three loops. -/
theorem foldl_code {α : Type} {labels : LabelOffsets} {fix : Fixed → α → Fixed}
    {slots : α → List OffsetSlot}
    (step : ∀ {fixup}, Known labels (slots fixup) → ∀ fixed,
      (fix fixed fixup).1 = applyPatches fixed.1 ((slots fixup).map (patchFor labels)))
    {fixups : List α} (known : Known labels (fixups.flatMap slots)) (fixed : Fixed) :
    (fixups.foldl fix fixed).1 =
      applyPatches fixed.1 ((fixups.flatMap slots).map (patchFor labels)) := by
  induction fixups generalizing fixed with
  | nil => rfl
  | cons fixup fixups ih =>
      rw [List.flatMap_cons] at known ⊢
      rw [List.foldl_cons, ih fun slot member => known slot (List.mem_append_right _ member),
        step fun slot member => known slot (List.mem_append_left _ member), List.map_append,
        applyPatches_append]

/-- With all labels known, the fixups fill in every slot. -/
theorem fix_code {state : Emission} (known : Known state.labelOffsets state.slots) :
    state.fix.1 =
      applyPatches state.code (state.slots.map (patchFor state.labelOffsets)) := by
  unfold Emission.slots at known ⊢
  rw [List.map_append, List.map_append, applyPatches_append, applyPatches_append]
  have jumps : Known state.labelOffsets (state.jumpFixups.flatMap JumpFixup.slots) :=
    fun slot member => known slot (List.mem_append_left _ member)
  have tables : Known state.labelOffsets
      (state.tableSwitchFixups.flatMap TableSwitchFixup.slots) := fun slot member =>
    known slot (List.mem_append_right _ (List.mem_append_left _ member))
  have lookups : Known state.labelOffsets
      (state.lookupSwitchFixups.flatMap LookupSwitchFixup.slots) := fun slot member =>
    known slot (List.mem_append_right _ (List.mem_append_right _ member))
  unfold Emission.fix
  rw [foldl_code fixLookupSwitch_code lookups, foldl_code fixTableSwitch_code tables,
    foldl_code fixJump_code jumps]

/-! ### The finished code -/

theorem slots_emit (body : CodeBody) (cp : PoolBuilder) :
    (body.emit cp).slots.Perm ((body.marks cp).flatMap Mark.slots) :=
  (emit_emitted body cp).slots

theorem mem_slots {body : CodeBody} {cp : PoolBuilder} {slot : OffsetSlot} :
    slot ∈ (body.emit cp).slots ↔
      ∃ mark ∈ body.marks cp, ∃ entry ∈ mark.entries, slot = (mark.start, entry) := by
  rw [(slots_emit body cp).mem_iff, List.mem_flatMap]
  constructor
  · intro ⟨mark, member, among⟩
    obtain ⟨entry, entryIn, rfl⟩ := List.mem_map.mp among
    exact ⟨mark, member, entry, entryIn, rfl⟩
  · intro ⟨mark, member, entry, entryIn, same⟩
    exact ⟨mark, member, same ▸ List.mem_map_of_mem entryIn⟩

theorem slots_apart (body : CodeBody) (cp : PoolBuilder) (labels : LabelOffsets) :
    (((body.emit cp).slots.map (patchFor labels)).map Patch.region).Pairwise Region.Apart := by
  have regions : ((body.emit cp).slots.map (patchFor labels)).map Patch.region =
      ((body.emit cp).slots.map Prod.snd).map Entry.region := by
    rw [List.map_map, List.map_map]
    exact List.map_congr_left fun slot _ => region_patchFor labels slot
  have entries : ((body.marks cp).flatMap Mark.slots).map Prod.snd =
      (body.marks cp).flatMap Mark.entries := by
    rw [List.map_flatMap]
    congr 1
    funext mark
    unfold Mark.slots
    rw [List.map_map]
    exact List.map_id _
  have ordered := ((slots_emit body cp).map Prod.snd).map Entry.region
  rw [entries] at ordered
  rw [regions, ordered.pairwise_iff Region.Apart.symm]
  exact marks_apart _ _ _

theorem slots_fit (body : CodeBody) (cp : PoolBuilder) (labels : LabelOffsets) :
    ∀ patch ∈ (body.emit cp).slots.map (patchFor labels),
      patch.Fits (body.emit cp).code.length := by
  intro patch member
  obtain ⟨slot, slotIn, rfl⟩ := List.mem_map.mp member
  obtain ⟨mark, markIn, entry, entryIn, rfl⟩ := mem_slots.mp slotIn
  have inside := Mark.entries_within markIn entryIn
  have stop := (emit_emitted body cp).within mark markIn
  unfold Patch.Fits patchFor
  simp only [length_offsetBytes]
  omega

/-- With all labels known, every slot holds its offset. -/
theorem build_holds {body : CodeBody} {cp : PoolBuilder}
    (known : Known (body.emit cp).labelOffsets (body.emit cp).slots) {mark : Mark}
    (markIn : mark ∈ body.marks cp) {entry : Entry} (entryIn : entry ∈ mark.entries) :
    Holds (body.build cp).1.code entry.position (offsetBytes entry.wide
      (labelDelta (offsetFor (body.emit cp).labelOffsets entry.target) mark.start)) := by
  have slotIn : (mark.start, entry) ∈ (body.emit cp).slots :=
    mem_slots.mpr ⟨mark, markIn, entry, entryIn, rfl⟩
  have code : (body.build cp).1.code = applyPatches (body.emit cp).code
      ((body.emit cp).slots.map (patchFor (body.emit cp).labelOffsets)) := fix_code known
  rw [code]
  apply holds_of_getElem?
  intro i inside
  exact applyPatches_holds (slots_fit body cp _) (slots_apart body cp _)
    (List.mem_map_of_mem slotIn) inside

/-- The opcodes stay as they were emitted. -/
theorem build_opcodes {body : CodeBody} {cp : PoolBuilder}
    (known : Known (body.emit cp).labelOffsets (body.emit cp).slots) {mark : Mark}
    (markIn : mark ∈ body.marks cp) {opcode : UInt8} (some_ : opcodeOf mark.node = some opcode) :
    (body.build cp).1.code[mark.start]? = some opcode := by
  obtain ⟨long, stands⟩ := (emit_emitted body cp).opcodes mark markIn opcode some_
  have code : (body.build cp).1.code = applyPatches (body.emit cp).code
      ((body.emit cp).slots.map (patchFor (body.emit cp).labelOffsets)) := fix_code known
  rw [code, applyPatches_outside (slots_fit body cp _), stands]
  intro patch member
  obtain ⟨slot, slotIn, rfl⟩ := List.mem_map.mp member
  obtain ⟨other, otherIn, entry, entryIn, rfl⟩ := mem_slots.mp slotIn
  have outside := start_outside markIn otherIn long entryIn
  unfold patchFor
  simp only [length_offsetBytes]
  exact outside

/-! ### Reading an offset back -/

theorem reads_of_holds {code : List UInt8} {position : Nat} {wide : Bool} {offset : Int32}
    (holds : Holds code position (offsetBytes wide offset)) :
    ReadsOffset code position wide (if wide then offset.toInt else offset.toInt16.toInt) := by
  obtain ⟨rest, ahead⟩ := holds
  unfold ReadsOffset
  cases wide with
  | true =>
      exact ⟨offset, ⟨position + 4, rest⟩, (exact_readI4 _ _ _).mpr ⟨ahead.symm, rfl⟩, rfl⟩
  | false =>
      exact ⟨offset.toInt16, ⟨position + 2, rest⟩, (exact_readI2 _ _ _).mpr ⟨ahead.symm, rfl⟩, rfl⟩

/-- What can be read is in reach. -/
theorem ReadsOffset.inReach {code : List UInt8} {position : Nat} {wide : Bool} {offset : Int}
    (reads : ReadsOffset code position wide offset) : InReach wide offset := by
  unfold ReadsOffset at reads
  unfold InReach
  cases wide with
  | true =>
      obtain ⟨value, _, _, rfl⟩ := reads
      exact ⟨Int32.le_toInt value, Int32.toInt_lt value⟩
  | false =>
      obtain ⟨value, _, _, rfl⟩ := reads
      exact ⟨Int16.le_toInt value, Int16.toInt_lt value⟩

theorem toInt_labelDelta (target : UInt16) (start : Nat) :
    (labelDelta target start).toInt = ((target.toNat : Int) - start).bmod (2 ^ 32) := by
  unfold labelDelta
  rw [Int32.toInt_sub, Int32.toInt_ofNat', Int32.toInt_ofNat']
  exact Int.sub_bmod_bmod.trans Int.bmod_sub_bmod

/-- The offset that is left of the difference of two positions. -/
def wrapped (wide : Bool) (offset : Int) : Int := offset.bmod (if wide then 2 ^ 32 else 2 ^ 16)

theorem toInt_offset (wide : Bool) (target : UInt16) (start : Nat) :
    (if wide then (labelDelta target start).toInt else (labelDelta target start).toInt16.toInt) =
      wrapped wide ((target.toNat : Int) - start) := by
  unfold wrapped
  cases wide with
  | true => exact toInt_labelDelta target start
  | false =>
      simp only [Bool.false_eq_true, if_false]
      rw [Int32.toInt_toInt16, toInt_labelDelta, Int.bmod_bmod_of_dvd (by decide)]

theorem wrapped_of_inReach {wide : Bool} {offset : Int} (reach : InReach wide offset) :
    wrapped wide offset = offset := by
  unfold InReach at reach
  unfold wrapped
  cases wide with
  | true =>
      simp only [if_true] at reach ⊢
      exact Int.bmod_eq_of_le (by omega) (by omega)
  | false =>
      simp only [Bool.false_eq_true, if_false] at reach ⊢
      exact Int.bmod_eq_of_le (by omega) (by omega)

/-! ### When the labels are near -/

theorem target_entriesAlong (stride position : Nat) (targets : List LabelNode) :
    (entriesAlong stride position targets).map Entry.target = targets := by
  induction targets generalizing position with
  | nil => rfl
  | cons target targets ih => exact congrArg _ (ih _)

/-- Which labels a node refers to does not depend on where it stands. -/
theorem target_entriesOf (pos : Nat) (node : AbstractInsnNode) :
    (entriesOf pos node).map Entry.target = (entriesOf 0 node).map Entry.target := by
  cases node with
  | tableSwitchLabel node =>
      simp only [entriesOf, List.map_cons, target_entriesAlong]
  | lookupSwitchLabel node =>
      simp only [entriesOf, List.map_cons, target_entriesAlong]
  | _ => rfl

theorem refers_entry {body : CodeBody} {cp : PoolBuilder} {mark : Mark}
    (markIn : mark ∈ body.marks cp) {entry : Entry} (entryIn : entry ∈ mark.entries) :
    entry.target ∈ body.referred := by
  have node : mark.node ∈ body.insns := by
    rw [← node_marksFrom 0 cp body.insns]
    exact List.mem_map_of_mem markIn
  have target : entry.target ∈ (entriesOf 0 mark.node).map Entry.target := by
    rw [← target_entriesOf mark.start]
    exact List.mem_map_of_mem entryIn
  exact List.mem_append_left _ (List.mem_flatMap.mpr ⟨mark.node, node, target⟩)

/-- The map has the place of every label that is referred to. -/
theorem Near.resolves {body : CodeBody} {cp : PoolBuilder} (near : Near body cp)
    (once : body.PlacedOnce) {label : LabelNode} (refers : label ∈ body.referred) :
    (body.emit cp).labelOffsets.lookup label.id =
        some (offsetFor (body.emit cp).labelOffsets label) ∧
      ∀ pos, body.LabelAt cp label pos ↔
        pos = (offsetFor (body.emit cp).labelOffsets label).toNat := by
  obtain ⟨pos, unique, kept⟩ := @LabelAt.resolved body cp label (once label refers)
  have within := near label pos refers ((unique pos).mpr rfl)
  have lookup := kept within
  have offset : offsetFor (body.emit cp).labelOffsets label = asU16 pos := by
    unfold offsetFor
    rw [lookup]
    rfl
  have exact_ : (asU16 pos).toNat = pos := UInt16.toNat_ofNat_of_lt' (by
    change pos < 65536
    omega)
  rw [offset, exact_]
  exact ⟨lookup, unique⟩

theorem Near.known {body : CodeBody} {cp : PoolBuilder} (near : Near body cp)
    (once : body.PlacedOnce) : Known (body.emit cp).labelOffsets (body.emit cp).slots := by
  intro slot member
  obtain ⟨mark, markIn, entry, entryIn, rfl⟩ := mem_slots.mp member
  exact (near.resolves once (refers_entry markIn entryIn)).1

/-- The difference of the positions stands in the code as far as there is room for it. -/
theorem Near.reads {body : CodeBody} {cp : PoolBuilder} (near : Near body cp)
    (once : body.PlacedOnce) {mark : Mark} (markIn : mark ∈ body.marks cp) {entry : Entry}
    (entryIn : entry ∈ mark.entries) {target : Nat}
    (placed : body.LabelAt cp entry.target target) :
    ReadsOffset (body.build cp).1.code entry.position entry.wide
      (wrapped entry.wide ((target : Int) - mark.start)) := by
  obtain rfl := ((near.resolves once (refers_entry markIn entryIn)).2 target).mp placed
  rw [← toInt_offset]
  exact reads_of_holds (build_holds (near.known once) markIn entryIn)

/-- With all labels known, no block is passed over. -/
theorem buildTryCatches_known {labels : LabelOffsets} {blocks : List PendingTryCatchBlock}
    (known : ∀ block ∈ blocks, ∀ label ∈ block.labels,
      labels.lookup label.id = some (offsetFor labels label)) (cp : PoolBuilder) :
    List.Forall₂ (fun block entry =>
      entry.startPc = offsetFor labels block.start ∧ entry.endPc = offsetFor labels block.end_ ∧
        entry.handlerPc = offsetFor labels block.handler)
      blocks (buildTryCatches labels cp blocks).1 := by
  induction blocks generalizing cp with
  | nil => exact .nil
  | cons block blocks ih =>
      have here := known block List.mem_cons_self
      have start := here block.start List.mem_cons_self
      have end_ := here block.end_ (List.mem_cons_of_mem _ List.mem_cons_self)
      have handler := here block.handler
        (List.mem_cons_of_mem _ (List.mem_cons_of_mem _ List.mem_cons_self))
      have rest := ih fun block member => known block (List.mem_cons_of_mem _ member)
      simp only [buildTryCatches, buildTryCatch, start, end_, handler]
      exact .cons ⟨rfl, rfl, rfl⟩ (rest _)

theorem buildLines_known {labels : LabelOffsets} {lines : List LineNumberInsnNode}
    (known : ∀ line ∈ lines,
      labels.lookup line.start.id = some (offsetFor labels line.start)) :
    List.Forall₂ (fun line entry =>
      entry.startPc = offsetFor labels line.start ∧ entry.lineNumber = line.line)
      lines (buildLines labels lines) := by
  induction lines with
  | nil => exact .nil
  | cons line lines ih =>
      have here := known line List.mem_cons_self
      unfold buildLines
      rw [List.filterMap_cons_some (by rw [here]; rfl)]
      exact .cons ⟨rfl, rfl⟩ (ih fun line member => known line (List.mem_cons_of_mem _ member))

theorem pendingLines_emit (body : CodeBody) (cp : PoolBuilder) :
    (body.emit cp).pendingLines = body.insns.filterMap lineOf := by
  have lines := (emit_emitted body cp).lines
  rw [lines, ← node_marksFrom 0 cp body.insns, List.filterMap_map]
  rfl

/-- The body is built right when everything fits. -/
theorem LabelsFit.resolved {body : CodeBody} {cp : PoolBuilder} (fits : LabelsFit body cp)
    (once : body.PlacedOnce) : LabelsResolved body cp (body.build cp).1 where
  opcodes := fun _ markIn _ some_ => build_opcodes (fits.labels.known once) markIn some_
  offsets := by
    intro mark markIn entry entryIn target placed
    have reads := fits.labels.reads once markIn entryIn placed
    rwa [wrapped_of_inReach (fits.offsets mark markIn entry entryIn target placed)] at reads
  ranges := by
    refine ⟨(buildTryCatches (body.emit cp).labelOffsets (body.emit cp).cp
      body.pendingTryCatchBlocks).1, rfl, ?_⟩
    have refers : ∀ block ∈ body.pendingTryCatchBlocks, ∀ label ∈ block.labels,
        label ∈ body.referred := fun block member label among =>
      List.mem_append_right _ (List.mem_append_right _
        (List.mem_flatMap.mpr ⟨block, member, among⟩))
    have entries := buildTryCatches_known (fun block member label among =>
      (fits.labels.resolves once (refers block member label among)).1) (body.emit cp).cp
    refine ((List.forall₂_and_left _ _).mpr ⟨refers, entries⟩).imp ?_
    intro block entry ⟨refers, start, end_, handler⟩
    have place : ∀ label ∈ block.labels, body.LabelAt cp label
        (offsetFor (body.emit cp).labelOffsets label).toNat := fun label among =>
      ((fits.labels.resolves once (refers label among)).2 _).mpr rfl
    rw [start, end_, handler]
    exact ⟨place _ List.mem_cons_self, place _ (List.mem_cons_of_mem _ List.mem_cons_self),
      place _ (List.mem_cons_of_mem _ (List.mem_cons_of_mem _ List.mem_cons_self))⟩
  lines := by
    refine ⟨buildLines (body.emit cp).labelOffsets (body.emit cp).pendingLines, rfl, ?_⟩
    rw [pendingLines_emit]
    have refers : ∀ line ∈ body.insns.filterMap lineOf, line.start ∈ body.referred :=
      fun line member => List.mem_append_right _
        (List.mem_append_left _ (List.mem_map_of_mem member))
    have entries := buildLines_known fun line member =>
      (fits.labels.resolves once (refers line member)).1
    refine ((List.forall₂_and_left _ _).mpr ⟨refers, entries⟩).imp ?_
    intro line entry ⟨refers, start, number⟩
    rw [start]
    exact ⟨((fits.labels.resolves once refers).2 _).mpr rfl, number⟩

/-- A body is built as it has to be, or would be reported, exactly when everything fits. -/
theorem meets_build_iff {body : CodeBody} {cp : PoolBuilder} (once : body.PlacedOnce) :
    MeetsLabels body cp (some (body.build cp).1) ↔ LabelsFit body cp := by
  constructor
  · intro ⟨resolved, fine⟩
    constructor
    · intro label pos refers placed
      by_contra beyond
      exact fine (.label label pos refers placed (Nat.lt_of_not_le beyond))
    · intro mark markIn entry entryIn target placed
      exact (resolved.offsets mark markIn entry entryIn target placed).inReach
  · intro fits
    refine ⟨fits.resolved once, ?_⟩
    intro misfit
    cases misfit with
    | label label pos refers placed beyond =>
        exact Nat.not_lt_of_le (fits.labels label pos refers placed) beyond
    | branch mark entry target here among narrow placed beyond =>
        have reach := fits.offsets mark here entry among target placed
        rw [narrow] at reach
        exact beyond reach

/-- Everything fits where all nodes start in the first half of the 65536 bytes. -/
theorem fits_of_short {body : CodeBody} {cp : PoolBuilder}
    (short : ∀ mark ∈ body.marks cp, mark.start ≤ 32767) : LabelsFit body cp where
  labels := by
    intro label pos _ ⟨mark, markIn, _, here⟩
    have near := short mark markIn
    omega
  offsets := by
    intro mark markIn entry _ target ⟨other, otherIn, _, here⟩
    have near := short mark markIn
    have near' := short other otherIn
    unfold InReach
    split <;> omega

/-- A line, a loop and a switch: with `goto` and `tableswitch` back to the start. -/
def shortBody : CodeBody :=
  { maxStack := 1
    maxLocals := 1
    insns := [.label ⟨0⟩, .lineNumber ⟨7, ⟨0⟩⟩, .insn (.var ⟨⟨0x15⟩, 0⟩),
      .tableSwitchLabel ⟨⟨0xAA⟩, ⟨1⟩, 3, 4, [⟨0⟩, ⟨1⟩]⟩, .label ⟨1⟩, .jumpLabel ⟨⟨0xA7⟩, ⟨0⟩⟩]
    exceptionTable := []
    pendingTryCatchBlocks := [⟨⟨0⟩, ⟨1⟩, ⟨1⟩, none⟩]
    attributes := [] }

theorem shortBody_meets :
    shortBody.PlacedOnce ∧ MeetsLabels shortBody ⟨[.unusable], []⟩
      (some (shortBody.build ⟨[.unusable], []⟩).1) :=
  ⟨by decide, (meets_build_iff (by decide)).mpr (fits_of_short (by decide))⟩

/-- A `goto` over a switch. -/
def overSwitch (offsets : List Int32) : CodeBody :=
  { maxStack := 1
    maxLocals := 1
    insns := [.jumpLabel ⟨⟨0xA7⟩, ⟨0⟩⟩, .insn (.tableSwitch ⟨⟨0xAA⟩, 0, 0, 8191, offsets⟩),
      .label ⟨0⟩]
    exceptionTable := []
    pendingTryCatchBlocks := []
    attributes := [] }

theorem length_emitInsn_tableSwitch (pos : Nat) (node : TableSwitchInsnNode) (cp : PoolBuilder) :
    pos + (emitInsn pos (.tableSwitch node) cp).1.1.length =
      switchBase pos + 12 + 4 * node.offsets.length := by
  have offsets : (node.offsets.flatMap writeI4).length = 4 * node.offsets.length := by
    induction node.offsets with
    | nil => rfl
    | cons offset offsets ih =>
        rw [List.flatMap_cons, List.length_append, ih, length_writeI4, List.length_cons]
        omega
  simp only [emitInsn, List.length_append, List.length_cons, length_writeI4, offsets, switchBase]
  omega

/-- Where the nodes stand. -/
theorem marks_overSwitch (offsets : List Int32) (cp : PoolBuilder) :
    (overSwitch offsets).marks cp =
      [⟨.jumpLabel ⟨⟨0xA7⟩, ⟨0⟩⟩, 0, 3⟩,
        ⟨.insn (.tableSwitch ⟨⟨0xAA⟩, 0, 0, 8191, offsets⟩), 3, 16 + 4 * offsets.length⟩,
        ⟨.label ⟨0⟩, 16 + 4 * offsets.length, 16 + 4 * offsets.length⟩] := by
  have size := length_emitInsn_tableSwitch 3 ⟨⟨0xAA⟩, 0, 0, 8191, offsets⟩ cp
  have base : switchBase 3 + 12 = 16 := rfl
  rw [base] at size
  have marks : (overSwitch offsets).marks cp =
      [⟨.jumpLabel ⟨⟨0xA7⟩, ⟨0⟩⟩, 0, 3⟩,
        ⟨.insn (.tableSwitch ⟨⟨0xAA⟩, 0, 0, 8191, offsets⟩), 3,
          3 + (emitInsn 3 (.tableSwitch ⟨⟨0xAA⟩, 0, 0, 8191, offsets⟩) cp).1.1.length⟩,
        ⟨.label ⟨0⟩, 3 + (emitInsn 3 (.tableSwitch ⟨⟨0xAA⟩, 0, 0, 8191, offsets⟩) cp).1.1.length,
          3 + (emitInsn 3 (.tableSwitch ⟨⟨0xAA⟩, 0, 0, 8191, offsets⟩) cp).1.1.length⟩] := rfl
  rw [marks, size]

/-- What the `goto` is left with. -/
theorem reads_overSwitch {offsets : List Int32} (near : 16 + 4 * offsets.length ≤ 65535)
    (cp : PoolBuilder) :
    (overSwitch offsets).LabelAt cp ⟨0⟩ (16 + 4 * offsets.length) ∧
      ReadsOffset ((overSwitch offsets).build cp).1.code 1 false
        (wrapped false (16 + 4 * offsets.length : Nat)) := by
  have marks := marks_overSwitch offsets cp
  have placed : (overSwitch offsets).LabelAt cp ⟨0⟩ (16 + 4 * offsets.length) := by
    refine ⟨⟨.label ⟨0⟩, 16 + 4 * offsets.length, 16 + 4 * offsets.length⟩, ?_, rfl, rfl⟩
    rw [marks]
    exact List.mem_cons_of_mem _ (List.mem_cons_of_mem _ List.mem_cons_self)
  have once : (overSwitch offsets).PlacedOnce := by
    intro label member
    obtain rfl := List.mem_singleton.mp member
    rfl
  have labels : Near (overSwitch offsets) cp := by
    intro label pos _ ⟨mark, member, _, start⟩
    rw [marks] at member
    simp only [List.mem_cons, List.not_mem_nil, or_false] at member
    rcases member with rfl | rfl | rfl <;> simp only at start <;> omega
  refine ⟨placed, ?_⟩
  have first : (⟨.jumpLabel ⟨⟨0xA7⟩, ⟨0⟩⟩, 0, 3⟩ : Mark) ∈ (overSwitch offsets).marks cp := by
    rw [marks]
    exact List.mem_cons_self
  have entry : (⟨1, false, ⟨0⟩⟩ : Entry) ∈
      (⟨.jumpLabel ⟨⟨0xA7⟩, ⟨0⟩⟩, 0, 3⟩ : Mark).entries := List.mem_singleton_self _
  have reads := labels.reads once first entry placed
  rwa [Int.natCast_zero, Int.sub_zero] at reads

theorem overSwitch_misfit {offsets : List Int32} {cp : PoolBuilder} {target : Nat}
    (far : 32767 < target) (placed : (overSwitch offsets).LabelAt cp ⟨0⟩ target) :
    Misfit (overSwitch offsets) cp := by
  refine .branch ⟨.jumpLabel ⟨⟨0xA7⟩, ⟨0⟩⟩, 0, 3⟩ ⟨1, false, ⟨0⟩⟩ target List.mem_cons_self
    List.mem_cons_self rfl placed ?_
  unfold InReach
  simp only [Bool.false_eq_true, if_false]
  omega

def longBody : CodeBody := overSwitch (List.replicate 8192 0)

/-- A `goto` that needs an offset of 32784 is left with -32752, and nothing is reported. -/
theorem long_goto_wraps :
    longBody.PlacedOnce ∧ longBody.LabelAt ⟨[.unusable], []⟩ ⟨0⟩ 32784 ∧
      ReadsOffset (longBody.build ⟨[.unusable], []⟩).1.code 1 false (-32752) ∧
      ¬ MeetsLabels longBody ⟨[.unusable], []⟩ (some (longBody.build ⟨[.unusable], []⟩).1) := by
  have length : 16 + 4 * (List.replicate 8192 (0 : Int32)).length = 32784 := by
    rw [List.length_replicate]
  have reads := @reads_overSwitch (List.replicate 8192 0) (by omega) ⟨[.unusable], []⟩
  have value : wrapped false ((32784 : Nat) : Int) = -32752 := rfl
  rw [length, value] at reads
  have once : longBody.PlacedOnce := by decide
  unfold longBody at once ⊢
  exact ⟨once, reads.1, reads.2, fun meets => meets.2 (overSwitch_misfit (by omega) reads.1)⟩

end CaffeineLs.RustAsm
