/-
Module: CaffeineLs.ClassParser.Sig
Purpose: The parser of generic signatures of class files.
Trusted boundary: a symbol is the string it stands for
Main exports: parseReferenceTypeSignature, parseTypeParameters, parseClassSignature
-/
import CaffeineLs.Hir.Stub

namespace CaffeineLs.ClassParser

open Hir

/-- The primitive type or `void` of a letter. -/
def baseType : Char → Option (TypeRef String)
  | 'B' => some (.primitive .byte)
  | 'C' => some (.primitive .char)
  | 'D' => some (.primitive .double)
  | 'F' => some (.primitive .float)
  | 'I' => some (.primitive .int)
  | 'J' => some (.primitive .long)
  | 'S' => some (.primitive .short)
  | 'Z' => some (.primitive .boolean)
  | 'V' => some .void
  | _ => none

/-- `name.replace("/", ".")` -/
def dotted (name : List Char) : String :=
  String.ofList (name.map fun c => if c = '/' then '.' else c)

mutual

/-- `parse_reference_type_signature`, with the characters it leaves. An unknown character is taken, so
that the loops progress. Nothing is given where the fuel does not last. -/
def parseReferenceTypeSignature : Nat → List Char → Option (TypeRef String × List Char)
  | 0, _ => none
  | _ + 1, [] => some (.error, [])
  | fuel + 1, c :: rest =>
    if c = 'T' then
      let name := rest.span fun c => c ≠ ';'
      some (.typeVariable (String.ofList name.1), name.2.drop 1)
    else if c = 'L' then do
      let ((name, genericArgs), rest) ← parseClassName fuel [] [] rest
      some (.reference (dotted name) genericArgs, rest)
    else if c = '[' then do
      let (inner, rest) ← parseTypeSignature fuel rest
      some (.array inner, rest)
    else some (.error, rest)

def parseTypeSignature : Nat → List Char → Option (TypeRef String × List Char)
  | 0, _ => none
  | _ + 1, [] => some (.error, [])
  | fuel + 1, c :: rest =>
    match baseType c with
    | some type => some (type, rest)
    | none =>
      if c = '[' ∨ c = 'T' ∨ c = 'L' then parseReferenceTypeSignature fuel (c :: rest)
      else some (.error, rest)

/-- The loop over the name of a class, with the name and the arguments found so far. -/
def parseClassName : Nat → List Char → List (TypeRef String) → List Char →
    Option ((List Char × List (TypeRef String)) × List Char)
  | 0, _, _, _ => none
  | _ + 1, name, genericArgs, [] => some ((name, genericArgs), [])
  | fuel + 1, name, genericArgs, c :: rest =>
    if c = ';' then some ((name, genericArgs), rest)
    else if c = '<' then do
      let (arguments, rest) ← parseTypeArguments fuel rest
      parseClassName fuel name (genericArgs ++ arguments) (rest.drop 1)
    else if c = '.' then parseClassName fuel (name ++ ['$']) genericArgs rest
    else parseClassName fuel (name ++ [c]) genericArgs rest

/-- `while self.peek() != Some('>') && self.peek().is_some()` -/
def parseTypeArguments : Nat → List Char → Option (List (TypeRef String) × List Char)
  | 0, _ => none
  | _ + 1, [] => some ([], [])
  | fuel + 1, c :: rest =>
    if c = '>' then some ([], c :: rest)
    else do
      let (argument, rest) ← parseTypeArgument fuel (c :: rest)
      let (arguments, rest) ← parseTypeArguments fuel rest
      some (argument :: arguments, rest)

def parseTypeArgument : Nat → List Char → Option (TypeRef String × List Char)
  | 0, _ => none
  | _ + 1, '*' :: rest => some (.wildcard none, rest)
  | fuel + 1, '+' :: rest => do
    let (bound, rest) ← parseReferenceTypeSignature fuel rest
    some (.wildcard (some (.upper bound)), rest)
  | fuel + 1, '-' :: rest => do
    let (bound, rest) ← parseReferenceTypeSignature fuel rest
    some (.wildcard (some (.lower bound)), rest)
  | fuel + 1, chars => parseReferenceTypeSignature fuel chars

end

/-- Zero or more interface bounds, each behind a `:`. -/
def parseInterfaceBounds : Nat → List Char → Option (List (TypeRef String) × List Char)
  | 0, _ => none
  | fuel + 1, ':' :: rest => do
    let (bound, rest) ← parseReferenceTypeSignature fuel rest
    let (bounds, rest) ← parseInterfaceBounds fuel rest
    some (bound :: bounds, rest)
  | _ + 1, chars => some ([], chars)

/-- The class bound: `if self.peek() != Some(':') && self.peek() != Some('>')` -/
def parseClassBound (fuel : Nat) (chars : List Char) : Option (List (TypeRef String) × List Char) :=
  if chars.head? ≠ some ':' ∧ chars.head? ≠ some '>' then do
    let (bound, rest) ← parseReferenceTypeSignature fuel chars
    some ([bound], rest)
  else some ([], chars)

/-- A round of the loop over type parameters. The character behind the name is taken. -/
def parseTypeParameter (fuel : Nat) (chars : List Char) : Option (TypeParameter String × List Char) := do
  let name := chars.span fun c => c ≠ ':' ∧ c ≠ '>'
  let (classBound, rest) ← parseClassBound fuel (name.2.drop 1)
  let (interfaceBounds, rest) ← parseInterfaceBounds fuel rest
  some (⟨String.ofList name.1, classBound ++ interfaceBounds, []⟩, rest)

def parseTypeParameterList : Nat → List Char → Option (List (TypeParameter String) × List Char)
  | 0, _ => none
  | _ + 1, [] => some ([], [])
  | fuel + 1, c :: rest =>
    if c = '>' then some ([], c :: rest)
    else do
      let (param, rest) ← parseTypeParameter fuel (c :: rest)
      let (params, rest) ← parseTypeParameterList fuel rest
      some (param :: params, rest)

def parseTypeParameters (fuel : Nat) : List Char → Option (List (TypeParameter String) × List Char)
  | '<' :: rest => do
    let (params, rest) ← parseTypeParameterList fuel rest
    some (params, rest.drop 1)
  | chars => some ([], chars)

/-- `while self.peek().is_some()` -/
def parseInterfaces : Nat → List Char → Option (List (TypeRef String) × List Char)
  | 0, _ => none
  | _ + 1, [] => some ([], [])
  | fuel + 1, c :: rest => do
    let (interface, rest) ← parseReferenceTypeSignature fuel (c :: rest)
    let (interfaces, rest) ← parseInterfaces fuel rest
    some (interface :: interfaces, rest)

/-- `while self.peek() != Some(')') && self.peek().is_some()` -/
def parseParameterTypes : Nat → List Char → Option (List (TypeRef String) × List Char)
  | 0, _ => none
  | _ + 1, [] => some ([], [])
  | fuel + 1, c :: rest =>
    if c = ')' then some ([], c :: rest)
    else do
      let (type, rest) ← parseTypeSignature fuel (c :: rest)
      let (types, rest) ← parseParameterTypes fuel rest
      some (type :: types, rest)

/-- `while self.peek() == Some('^')` -/
def parseThrows : Nat → List Char → Option (List (TypeRef String) × List Char)
  | 0, _ => none
  | fuel + 1, '^' :: rest => do
    let (thrown, rest) ← parseReferenceTypeSignature fuel rest
    let (throws, rest) ← parseThrows fuel rest
    some (thrown :: throws, rest)
  | _ + 1, chars => some ([], chars)

/-- Fuel for every step over the characters of a signature. -/
def sigFuel (chars : List Char) : Nat := 4 * chars.length + 4

structure ClassSignature where
  typeParams : List (TypeParameter String)
  superClass : TypeRef String
  interfaces : List (TypeRef String)

structure MethodSignature where
  typeParams : List (TypeParameter String)
  paramTypes : List (TypeRef String)
  returnType : TypeRef String
  throwsList : List (TypeRef String)

/-- The signature of a field or a record component. -/
def parseFieldSignature (chars : List Char) : Option (TypeRef String × List Char) :=
  parseReferenceTypeSignature (sigFuel chars) chars

def parseClassSignature (chars : List Char) : Option (ClassSignature × List Char) := do
  let fuel := sigFuel chars
  let (typeParams, rest) ← parseTypeParameters fuel chars
  let (superClass, rest) ← parseReferenceTypeSignature fuel rest
  let (interfaces, rest) ← parseInterfaces fuel rest
  some (⟨typeParams, superClass, interfaces⟩, rest)

/-- The parameter types, where there is a `(`. -/
def parseParameters (fuel : Nat) : List Char → Option (List (TypeRef String) × List Char)
  | '(' :: rest => do
    let (paramTypes, rest) ← parseParameterTypes fuel rest
    some (paramTypes, rest.drop 1)
  | chars => some ([], chars)

def parseMethodSignature (chars : List Char) : Option (MethodSignature × List Char) := do
  let fuel := sigFuel chars
  let (typeParams, rest) ← parseTypeParameters fuel chars
  let (paramTypes, rest) ← parseParameters fuel rest
  let (returnType, rest) ← parseTypeSignature fuel rest
  let (throwsList, rest) ← parseThrows fuel rest
  some (⟨typeParams, paramTypes, returnType, throwsList⟩, rest)

end CaffeineLs.ClassParser
