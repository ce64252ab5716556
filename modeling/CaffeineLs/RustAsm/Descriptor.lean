/-
Module: CaffeineLs.RustAsm.Descriptor
Purpose: Field and method descriptors as the class writer parses them.
Trusted boundary: none
Main exports: FieldType, parseFieldType, parseMethodDescriptor
-/
import CaffeineLs.RustAsm.Insn

namespace CaffeineLs.RustAsm

inductive FieldType where
  | boolean
  | byte
  | char
  | short
  | int
  | float
  | long
  | double
  | object (name : String)
  | array (descriptor : String)
  | void
deriving DecidableEq, Repr

/-- What an element type adds to the descriptor of its array. -/
def FieldType.element : FieldType → String
  | .boolean => "Z"
  | .byte => "B"
  | .char => "C"
  | .short => "S"
  | .int => "I"
  | .float => "F"
  | .long => "J"
  | .double => "D"
  | .object name => "L" ++ name ++ ";"
  | .array descriptor => descriptor
  | .void => ""

def parseFieldType : List Char → Except ClassWriteError (FieldType × List Char)
  | 'Z' :: chars => .ok (.boolean, chars)
  | 'B' :: chars => .ok (.byte, chars)
  | 'C' :: chars => .ok (.char, chars)
  | 'S' :: chars => .ok (.short, chars)
  | 'I' :: chars => .ok (.int, chars)
  | 'F' :: chars => .ok (.float, chars)
  | 'J' :: chars => .ok (.long, chars)
  | 'D' :: chars => .ok (.double, chars)
  | 'L' :: chars =>
      -- a name without its `;` goes to the end
      let name := chars.takeWhile (· ≠ ';')
      .ok (.object (String.ofList name), chars.drop (name.length + 1))
  | '[' :: chars => do
      let (inner, chars) ← parseFieldType chars
      .ok (.array ("[" ++ inner.element), chars)
  | _ => .error (.frameComputation "bad field descriptor")

def parseReturnType : List Char → Except ClassWriteError (FieldType × List Char)
  | 'V' :: chars => .ok (.void, chars)
  | chars => parseFieldType chars

/-- The loop over the parameters. Each one takes a character, so the number of them is fuel. -/
def parseParameters : Nat → List Char → Except ClassWriteError (List FieldType × List Char)
  | _, [] => .ok ([], [])
  | _, ')' :: chars => .ok ([], chars)
  | 0, chars => .ok ([], chars)
  | fuel + 1, chars => do
      let (param, chars) ← parseFieldType chars
      let (params, chars) ← parseParameters fuel chars
      .ok (param :: params, chars)

def parseMethodDescriptor (desc : String) : Except ClassWriteError (List FieldType × FieldType) :=
  match desc.toList with
  | '(' :: chars => do
      let (params, chars) ← parseParameters chars.length chars
      let (ret, _) ← parseReturnType chars
      .ok (params, ret)
  | _ => .error (.frameComputation "bad method descriptor")

end CaffeineLs.RustAsm
