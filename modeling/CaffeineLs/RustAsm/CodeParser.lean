/-
Module: CaffeineLs.RustAsm.CodeParser
Purpose: The instructions of a method body as the class writer reads them again for stack-map frames,
  with the lengths it computes for them.
Trusted boundary: a `usize` has 64 bits
Main exports: ParsedInstruction, Operand, parseInstructions
-/
import CaffeineLs.RustAsm.CodeReader

namespace CaffeineLs.RustAsm

open Wire ByteReader

inductive Operand where
  | none
  | i1 (value : Int8)
  | i2 (value : Int16)
  | i4 (value : Int32)
  | u1 (value : UInt8)
  | u2 (value : UInt16)
  | u4 (value : UInt32)
  | jump (offset : Int16)
  | jumpWide (offset : Int32)
  | tableSwitch (defaultOffset low high : Int32) (offsets : List Int32)
  | lookupSwitch (defaultOffset : Int32) (pairs : List (Int32 × Int32))
  | iinc (index : UInt16) (increment : Int16)
  | invokeInterface (index : UInt16) (count : UInt8)
  | invokeDynamic (index : UInt16)
  | multiANewArray (index : UInt16) (dims : UInt8)
  | wide (opcode : UInt8) (index : UInt16) (increment : Option Int16)
deriving DecidableEq, Repr

structure ParsedInstruction where
  offset : UInt16
  opcode : UInt8
  operand : Operand
deriving DecidableEq, Repr

/-- The code array with the position in it. -/
abbrev CodeParser := ByteReader ClassWriteError Place

namespace CodeParser

def unexpectedEof : ClassWriteError := .frameComputation "unexpected eof"

def readU1 : CodeParser UInt8 := do
  let bs ← bytes unexpectedEof 1
  pure (UInt8.ofNat (ofBigEndian bs))

def readU2 : CodeParser UInt16 := do
  let bs ← bytes unexpectedEof 2
  pure (UInt16.ofNat (ofBigEndian bs))

def readI1 : CodeParser Int8 := do
  let value ← readU1
  pure value.toInt8

def readI2 : CodeParser Int16 := do
  let value ← readU2
  pure value.toInt16

def readI4 : CodeParser Int32 := do
  let bs ← bytes unexpectedEof 4
  pure (UInt32.ofNat (ofBigEndian bs)).toInt32

/-- `pos += padding`, which may lead beyond the end. -/
def skip (padding : Nat) : CodeParser Unit := fun input =>
  { outcome := .ok () { pos := input.pos + padding, rest := input.rest.drop padding }
    reserved := []
    passed := [] }

/-- `let padding = (4 - (pos % 4)) % 4; pos += padding;` -/
def skipPadding : CodeParser Unit := do
  let input ← position
  skip ((4 - input.pos % 4) % 4)

/-- `high - low + 1` as an `i32`, no offsets where `high < low`. -/
def offsetCount (low high : Int32) : CodeParser Nat := do
  pass (.span low high)
  if high < low then pure 0
  else if high.toInt - low.toInt + 1 < 2 ^ 31 then pure (high.toInt - low.toInt + 1).toNat
  else stop .panic

def readTableSwitch : CodeParser Operand := do
  skipPadding
  let defaultOffset ← readI4
  let low ← readI4
  let high ← readI4
  let count ← offsetCount low high
  let offsets ← table count readI4
  pure (.tableSwitch defaultOffset low high offsets)

/-- `npairs as usize`: a negative number is a capacity that cannot be had. -/
def pairCount (npairs : Int32) : CodeParser Nat := do
  pass (.pairs npairs)
  if npairs < 0 then stop .panic else pure npairs.toInt.toNat

def readPair : CodeParser (Int32 × Int32) := do
  let key ← readI4
  let value ← readI4
  pure (key, value)

def readLookupSwitch : CodeParser Operand := do
  skipPadding
  let defaultOffset ← readI4
  let npairs ← readI4
  let count ← pairCount npairs
  let pairs ← table count readPair
  pure (.lookupSwitch defaultOffset pairs)

/-- `ILOAD..=ALOAD | ISTORE..=ASTORE | RET` -/
def isVarOpcode (opcode : UInt8) : Bool :=
  (0x15 ≤ opcode && opcode ≤ 0x19) || (0x36 ≤ opcode && opcode ≤ 0x3A) || opcode = 0xA9

def readWide : CodeParser Operand := do
  let wideOpcode ← readU1
  if isVarOpcode wideOpcode then do
    let index ← readU2
    pure (.wide wideOpcode index none)
  else if wideOpcode = 0x84 then do
    let index ← readU2
    let increment ← readI2
    pure (.wide wideOpcode index (some increment))
  else do
    let input ← position
    fail (.invalidOpcode wideOpcode (input.pos - 1))

/-- What the arms of the match on the opcode read. -/
inductive OperandShape where
  | none
  | i1
  | i2
  | u1
  | u2
  | iinc
  | jump
  | jumpWide
  | tableSwitch
  | lookupSwitch
  | invokeInterface
  | invokeDynamic
  | wide
  | multiANewArray
deriving DecidableEq, Repr

/-- The arms of the match on the opcode, in order. -/
def operandShape (opcode : UInt8) : OperandShape :=
  if opcode = 0x10 then .i1
  else if opcode = 0x11 then .i2
  else if opcode = 0x12 then .u1
  else if opcode = 0x13 ∨ opcode = 0x14 then .u2
  else if isVarOpcode opcode then .u1
  else if opcode = 0x84 then .iinc
  else if 0x99 ≤ opcode ∧ opcode ≤ 0xA8 ∨ opcode = 0xC6 ∨ opcode = 0xC7 then .jump
  else if opcode = 0xC8 ∨ opcode = 0xC9 then .jumpWide
  else if opcode = 0xAA then .tableSwitch
  else if opcode = 0xAB then .lookupSwitch
  else if 0xB2 ≤ opcode ∧ opcode ≤ 0xB8 ∨ opcode = 0xBB ∨ opcode = 0xBD ∨ opcode = 0xC0 ∨
      opcode = 0xC1 then .u2
  else if opcode = 0xB9 then .invokeInterface
  else if opcode = 0xBA then .invokeDynamic
  else if opcode = 0xBC then .u1
  else if opcode = 0xC4 then .wide
  else if opcode = 0xC5 then .multiANewArray
  else .none

def readOperand : OperandShape → CodeParser Operand
  | .none => pure .none
  | .i1 => do
    let value ← readI1
    pure (.i1 value)
  | .i2 => do
    let value ← readI2
    pure (.i2 value)
  | .u1 => do
    let value ← readU1
    pure (.u1 value)
  | .u2 => do
    let value ← readU2
    pure (.u2 value)
  | .iinc => do
    let index ← readU1
    let inc ← readI1
    pure (.iinc index.toUInt16 inc.toInt16)
  | .jump => do
    let offset ← readI2
    pure (.jump offset)
  | .jumpWide => do
    let offset ← readI4
    pure (.jumpWide offset)
  | .tableSwitch => readTableSwitch
  | .lookupSwitch => readLookupSwitch
  | .invokeInterface => do
    let index ← readU2
    let count ← readU1
    let _ ← readU1
    pure (.invokeInterface index count)
  | .invokeDynamic => do
    let index ← readU2
    let _ ← readU2
    pure (.invokeDynamic index)
  | .wide => readWide
  | .multiANewArray => do
    let index ← readU2
    let dims ← readU1
    pure (.multiANewArray index dims)

/-- A round of `while pos < code.len()`. -/
def parseInstruction : CodeParser ParsedInstruction := do
  let input ← position
  let opcode ← readU1
  let operand ← readOperand (operandShape opcode)
  pure { offset := UInt16.ofNat input.pos, opcode := opcode, operand := operand }

end CodeParser

/-- The writer's `parse_instructions` -/
def parseInstructions (code : List UInt8) : Outcome ClassWriteError (List ParsedInstruction) :=
  (untilEnd CodeParser.parseInstruction (code.length + 1) { pos := 0, rest := code }).outcome

def switchPadding (offset : UInt16) : Nat :=
  let pos := (offset.toNat + 1) % 4
  (4 - pos) % 4

def instructionLength (insn : ParsedInstruction) : Nat :=
  match insn.operand with
  | .none => 1
  | .i1 _ | .u1 _ => 2
  | .i2 _ | .u2 _ | .jump _ => 3
  | .i4 _ | .u4 _ | .jumpWide _ => 5
  | .iinc _ _ => 3
  | .invokeInterface _ _ => 5
  | .invokeDynamic _ => 5
  | .multiANewArray _ _ => 4
  | .wide opcode _ increment => if opcode = 0x84 ∧ increment.isSome then 6 else 4
  | .tableSwitch _ _ _ offsets => 1 + switchPadding insn.offset + 12 + offsets.length * 4
  | .lookupSwitch _ pairs => 1 + switchPadding insn.offset + 8 + pairs.length * 8

end CaffeineLs.RustAsm
