/-
Module: CaffeineLs.Proofs.SignatureAlignment
Purpose: Which parameters of a method get the types of its generic signature, and which the names of its
  local variables.
Trusted boundary: none
Main exports: ErasesTo, ErasesToBlock, mapsMethod_iff
-/
import CaffeineLs.ClassParser.MapMethod
import CaffeineLs.Proofs.SignatureReading

namespace CaffeineLs.ClassParser

open Hir RustAsm

/-! ### Erasure -/

/-- A type of a signature and a type of a descriptor that it may erase to. A type variable erases to
the class of its bound. -/
inductive ErasesTo : TypeRef String → TypeRef String → Prop where
  | primitive (type : PrimitiveType) : ErasesTo (.primitive type) (.primitive type)
  | reference (name : String) (genericArgs : List (TypeRef String)) :
      ErasesTo (.reference name genericArgs) (.reference name [])
  | typeVariable (variable_ name : String) : ErasesTo (.typeVariable variable_) (.reference name [])
  | array {inner erased : TypeRef String} (erases : ErasesTo inner erased) :
      ErasesTo (.array inner) (.array erased)

/-- The types erase to a block of the descriptor's types, behind `added` of them. -/
structure ErasesToBlock (added : Nat) (sigTypes descTypes : List (TypeRef String)) : Prop where
  room : added + sigTypes.length ≤ descTypes.length
  erases : ∀ j type, sigTypes[j]? = some type →
    ∃ erased, descTypes[added + j]? = some erased ∧ ErasesTo type erased

theorem slots_of_erasesTo {type erased : TypeRef String} (erases : ErasesTo type erased) :
    slots type = slots erased := by
  cases erases <;> rfl

/-! ### The loop over local variables -/

def totalSlots (params : List (ParamData String)) : Nat :=
  (params.map fun param => slots param.paramType).sum

/-- The loop ends unless an index of a local variable would exceed `u16`. -/
theorem isSome_nameLocals (locals : List LocalVariable) (cp : Pool) (params : List (ParamData String))
    {start : Nat} (inside : start < 2 ^ 16) :
    (nameLocals locals cp start params).isSome = true ↔ start + totalSlots params < 2 ^ 16 := by
  induction params generalizing start with
  | nil =>
      rw [nameLocals]
      exact iff_of_true rfl inside
  | cons param params ih =>
      have total : totalSlots (param :: params) = slots param.paramType + totalSlots params := rfl
      rw [nameLocals, total, ← Nat.add_assoc]
      by_cases next : start + slots param.paramType < 2 ^ 16
      · rw [← ih next]
        simp only [if_pos next]
        cases nameLocals locals cp (start + slots param.paramType) params <;> rfl
      · simp only [if_neg next, Option.isSome_none, Bool.false_eq_true, false_iff]
        omega

/-- Each parameter keeps its type, and its name or else that of the variable at its slot. -/
theorem nameLocals_spec {locals : List LocalVariable} {cp : Pool} {params named : List (ParamData String)}
    {start : Nat} (names : nameLocals locals cp start params = some named) (i : Nat) :
    named[i]? = params[i]?.map fun param =>
      { param with
        name := param.name.or
          (localName locals cp (UInt16.ofNat (start + totalSlots (params.take i)))) } := by
  induction params generalizing start named i with
  | nil =>
      obtain rfl : [] = named := Option.some.inj names
      rfl
  | cons param params ih =>
      rw [nameLocals] at names
      by_cases next : start + slots param.paramType < 2 ^ 16
      · simp only [if_pos next] at names
        cases others : nameLocals locals cp (start + slots param.paramType) params with
        | none =>
            rw [others] at names
            cases names
        | some rest =>
            rw [others] at names
            obtain rfl := Option.some.inj names
            cases i with
            | zero =>
                obtain ⟨flags, name, paramType, annotations⟩ := param
                cases name <;> simp [totalSlots]
            | succ i =>
                have total : totalSlots ((param :: params).take (i + 1)) =
                    slots param.paramType + totalSlots (params.take i) := rfl
                rw [List.getElem?_cons_succ, List.getElem?_cons_succ, total, ← Nat.add_assoc]
                exact ih others i
      · simp only [if_neg next] at names
        cases names

/-! ### Alignment -/

theorem lookup_zip_range (first : Nat) (types : List (TypeRef String)) (i : Nat) :
    ((List.range' first types.length).zip types).lookup i =
      if first ≤ i then types[i - first]? else none := by
  induction types generalizing first with
  | nil => simp
  | cons type types ih =>
      rw [List.length_cons, List.range'_succ, List.zip_cons_cons, List.lookup_cons, ih]
      by_cases here : i = first
      · subst here
        simp
      · have apart : (i == first) = false := by simpa using here
        rw [apart]
        simp only
        by_cases later : first + 1 ≤ i
        · have behind : i - first = (i - (first + 1)) + 1 := by omega
          rw [if_pos later, if_pos (by omega), behind, List.getElem?_cons_succ]
        · rw [if_neg later, if_neg (by omega)]

/-- The alignment is that of a block exactly where the block has no types or starts where the
parameters that are skipped end. -/
theorem alignment_eq_iff {synthetic descriptorParams added : Nat} {types : List (TypeRef String)}
    (room : added + types.length ≤ descriptorParams) :
    alignment synthetic descriptorParams types = (List.range' added types.length).zip types ↔
      types = [] ∨ synthetic = added := by
  unfold alignment
  rw [List.range_eq_range', List.drop_range']
  cases types with
  | nil => simp
  | cons type types =>
      simp only [reduceCtorEq, false_or]
      rw [List.length_cons] at room ⊢
      constructor
      · intro same
        rw [List.range'_succ] at same
        cases left : descriptorParams - synthetic with
        | zero => simp [left] at same
        | succ more =>
            simp only [left, List.range'_succ, List.take_succ_cons, List.zip_cons_cons,
              List.cons.injEq, Prod.mk.injEq] at same
            omega
      · intro same
        subst same
        rw [List.take_range'_of_length_ge (by omega), Nat.zero_add, Nat.mul_one]

theorem assignType_paramType (assigned : List (Nat × TypeRef String)) (param : ParamData String)
    (i : Nat) : (assignType assigned (param, i)).paramType = (assigned.lookup i).getD param.paramType := by
  unfold assignType
  cases assigned.lookup i <;> rfl

theorem assignType_name (assigned : List (Nat × TypeRef String)) (param : ParamData String × Nat) :
    (assignType assigned param).name = param.1.name := by
  unfold assignType
  cases assigned.lookup param.2 <;> rfl

/-- The name that the `MethodParameters` attribute has for a position. -/
def declaredName (node : MethodNode) (cp : Pool) (i : Nat) : Option String :=
  node.methodParameters[i]?.bind fun methodParam =>
    if methodParam.nameIndex ≠ 0 then cpUtf8 cp methodParam.nameIndex else none

theorem declareParam_paramType (node : MethodNode) (cp : Pool) (param : ParamData String × Nat) :
    (declareParam node cp param).paramType = param.1.paramType := by
  unfold declareParam
  cases node.methodParameters[param.2]? with
  | none => rfl
  | some methodParam =>
      simp only
      split
      · cases cpUtf8 cp methodParam.nameIndex <;> rfl
      · rfl

theorem declareParam_name (node : MethodNode) (cp : Pool) (param : ParamData String × Nat) :
    (declareParam node cp param).name = (declaredName node cp param.2).or param.1.name := by
  unfold declareParam declaredName
  cases node.methodParameters[param.2]? with
  | none => rfl
  | some methodParam =>
      simp only [Option.bind_some]
      split
      · cases cpUtf8 cp methodParam.nameIndex <;> rfl
      · rfl

/-! ### Methods -/

/-- The types of the parameters in the descriptor. -/
def descriptorTypes (node : MethodNode) : List (TypeRef String) :=
  (parseMethodDescriptor node.descriptor).1.map ParamData.paramType

/-- The slot of a parameter: those before it count as the descriptor has them. -/
def slotOf (node : MethodNode) (i : Nat) : Nat :=
  firstLocal node + (((descriptorTypes node).take i).map slots).sum

/-- The type of a position: of the signature in the block, of the descriptor elsewhere. -/
def expectedType (node : MethodNode) (added : Nat) (sigTypes : List (TypeRef String)) (i : Nat) :
    Option (TypeRef String) :=
  (if added ≤ i then sigTypes[i - added]? else none).or (descriptorTypes node)[i]?

/-- The name of a position: as declared, or that of the variable at its slot. -/
def expectedName (node : MethodNode) (cp : Pool) (i : Nat) : Option String :=
  (declaredName node cp i).or (localName node.localVariables cp (UInt16.ofNat (slotOf node i)))

/-- The method is mapped: each type of the signature is assigned to the position that it erases to,
every position has its type, and the name that belongs to it. -/
structure Maps (node : MethodNode) (cp : Pool) (added : Nat) (sigTypes : List (TypeRef String))
    (mapped : MappedMethod) : Prop where
  result : mapMethod node cp = some mapped
  assigned : alignment
      (leadingSyntheticParams node (descriptorTypes node).length sigTypes.length)
      (descriptorTypes node).length sigTypes = (List.range' added sigTypes.length).zip sigTypes
  types : ∀ i, mapped.params[i]?.map ParamData.paramType = expectedType node added sigTypes i
  names : ∀ i param, mapped.params[i]? = some param → param.name = expectedName node cp i

/-- The parameters that are taken for synthetic are those that the compiler added: the flagged ones
where the attribute covers the descriptor and starts with such, else all that the signature lacks. -/
def SyntheticAreAdded (node : MethodNode) (added sigParams descriptorParams : Nat) : Prop :=
  if node.methodParameters.length = descriptorParams ∧ 0 < flaggedParams node descriptorParams then
    flaggedParams node descriptorParams = added
  else descriptorParams = added + sigParams

theorem leadingSyntheticParams_eq_iff {node : MethodNode} {added sigParams descriptorParams : Nat}
    (room : added + sigParams ≤ descriptorParams) :
    leadingSyntheticParams node descriptorParams sigParams = added ↔
      SyntheticAreAdded node added sigParams descriptorParams := by
  unfold leadingSyntheticParams SyntheticAreAdded
  simp only [gt_iff_lt]
  split
  · exact Iff.rfl
  · omega

/-- The parameters before local variables are looked at. -/
def declaredParams (node : MethodNode) (cp : Pool) (sigTypes : List (TypeRef String)) :
    List (ParamData String) :=
  let params := (parseMethodDescriptor node.descriptor).1
  let assigned := alignment (leadingSyntheticParams node params.length sigTypes.length) params.length
    sigTypes
  (params.zipIdx.map (assignType assigned)).zipIdx.map (declareParam node cp)

section Method

variable {node : MethodNode} {cp : Pool} {added : Nat} {text : String} {signature : MethodSignature}
  {rest : List Char}

theorem mapMethod_eq (generic : getSignature node.attributes cp = some text)
    (parsed : parseMethodSignature text.toList = some (signature, rest)) :
    mapMethod node cp =
      (nameLocals node.localVariables cp (firstLocal node)
        (declaredParams node cp signature.paramTypes)).map fun params =>
          { alignSignature node signature (mapDescriptor node) with params := params } := by
  have declared : (alignSignature node signature (mapDescriptor node)).params.zipIdx.map
      (declareParam node cp) = declaredParams node cp signature.paramTypes := rfl
  unfold mapMethod
  simp only [generic, parsed, bind, Option.bind, declared]
  cases nameLocals node.localVariables cp (firstLocal node)
    (declaredParams node cp signature.paramTypes) <;> rfl

theorem params_name_none (desc : String) (i : Nat) (param : ParamData String)
    (here : (parseMethodDescriptor desc).1[i]? = some param) : param.name = none := by
  unfold parseMethodDescriptor at here
  split at here
  · rw [List.getElem?_map, Option.map_eq_some_iff] at here
    obtain ⟨type, -, rfl⟩ := here
    rfl
  · cases here

theorem declaredParams_name (sigTypes : List (TypeRef String)) {i : Nat} {param : ParamData String}
    (here : (declaredParams node cp sigTypes)[i]? = some param) :
    param.name = declaredName node cp i := by
  unfold declaredParams at here
  simp only [List.getElem?_map, List.getElem?_zipIdx, Option.map_map, Option.map_eq_some_iff,
    Function.comp_apply, Nat.zero_add] at here
  obtain ⟨first, listed, rfl⟩ := here
  rw [declareParam_name, assignType_name, params_name_none node.descriptor i first listed,
    Option.or_none]

/-- The types where the alignment is that of the block. -/
theorem declaredParams_paramType (cp : Pool) {sigTypes : List (TypeRef String)}
    (block : ErasesToBlock added sigTypes (descriptorTypes node))
    (assigned : alignment
      (leadingSyntheticParams node (descriptorTypes node).length sigTypes.length)
      (descriptorTypes node).length sigTypes = (List.range' added sigTypes.length).zip sigTypes)
    (i : Nat) :
    (declaredParams node cp sigTypes)[i]?.map ParamData.paramType =
      expectedType node added sigTypes i := by
  have count : (descriptorTypes node).length = (parseMethodDescriptor node.descriptor).1.length :=
    List.length_map _
  rw [count] at assigned
  unfold declaredParams expectedType
  simp only [List.getElem?_map, List.getElem?_zipIdx, Option.map_map, Nat.zero_add, assigned]
  have listed : (descriptorTypes node)[i]? =
      (parseMethodDescriptor node.descriptor).1[i]?.map ParamData.paramType := List.getElem?_map
  rw [listed, ← lookup_zip_range]
  cases here : (parseMethodDescriptor node.descriptor).1[i]? with
  | some param =>
      simp only [Option.map_some, Function.comp_apply, declareParam_paramType, assignType_paramType]
      cases ((List.range' added sigTypes.length).zip sigTypes).lookup i <;> rfl
  | none =>
      have outside : (descriptorTypes node).length ≤ i := by
        rw [count]
        exact List.getElem?_eq_none_iff.mp here
      have room := block.room
      have unassigned : (if added ≤ i then sigTypes[i - added]? else none) = none := by
        rw [List.getElem?_eq_none (by omega), ite_self]
      rw [lookup_zip_range, unassigned]
      rfl

/-- The expected types take the slots that those of the descriptor take. -/
theorem slots_expectedType {sigTypes : List (TypeRef String)}
    (block : ErasesToBlock added sigTypes (descriptorTypes node)) (i : Nat) :
    (expectedType node added sigTypes i).map slots = ((descriptorTypes node)[i]?).map slots := by
  unfold expectedType
  by_cases inside : added ≤ i
  · rw [if_pos inside]
    cases here : sigTypes[i - added]? with
    | none => rw [Option.none_or]
    | some type =>
        obtain ⟨erased, listed, erases⟩ := block.erases _ type here
        rw [Nat.add_sub_cancel' inside] at listed
        rw [Option.some_or, listed, Option.map_some, Option.map_some, slots_of_erasesTo erases]
  · rw [if_neg inside, Option.none_or]

theorem totalSlots_declaredParams (cp : Pool) {sigTypes : List (TypeRef String)}
    (block : ErasesToBlock added sigTypes (descriptorTypes node))
    (assigned : alignment
      (leadingSyntheticParams node (descriptorTypes node).length sigTypes.length)
      (descriptorTypes node).length sigTypes = (List.range' added sigTypes.length).zip sigTypes)
    (i : Nat) :
    firstLocal node + totalSlots ((declaredParams node cp sigTypes).take i) = slotOf node i := by
  have same : (declaredParams node cp sigTypes).map (fun param => slots param.paramType) =
      (descriptorTypes node).map slots := by
    apply List.ext_getElem?
    intro i
    have types := congrArg (Option.map slots) (declaredParams_paramType cp block assigned i)
    rw [slots_expectedType block, Option.map_map] at types
    rw [List.getElem?_map, List.getElem?_map]
    exact types
  rw [totalSlots, slotOf, List.map_take, same, List.map_take]

/-- The alignment and the names are right exactly where the slots of the parameters fit an index and
the signature has no parameters or those taken for synthetic are those added by the compiler. -/
theorem mapsMethod_iff (generic : getSignature node.attributes cp = some text)
    (parsed : parseMethodSignature text.toList = some (signature, rest))
    (block : ErasesToBlock added signature.paramTypes (descriptorTypes node)) :
    (∃ mapped, Maps node cp added signature.paramTypes mapped) ↔
      slotOf node (descriptorTypes node).length < 2 ^ 16 ∧
        (signature.paramTypes = [] ∨ SyntheticAreAdded node added signature.paramTypes.length
          (descriptorTypes node).length) := by
  have aligned : alignment (leadingSyntheticParams node (descriptorTypes node).length
      signature.paramTypes.length) (descriptorTypes node).length signature.paramTypes =
        (List.range' added signature.paramTypes.length).zip signature.paramTypes ↔
      signature.paramTypes = [] ∨ SyntheticAreAdded node added signature.paramTypes.length
        (descriptorTypes node).length := by
    rw [alignment_eq_iff block.room, leadingSyntheticParams_eq_iff block.room]
  have whole : (declaredParams node cp signature.paramTypes).take (descriptorTypes node).length =
      declaredParams node cp signature.paramTypes := by
    apply List.take_of_length_le
    simp [declaredParams, descriptorTypes]
  have start : firstLocal node < 2 ^ 16 := by
    unfold firstLocal
    split <;> decide
  have ends := isSome_nameLocals node.localVariables cp (declaredParams node cp signature.paramTypes) start
  constructor
  · rintro ⟨mapped, maps⟩
    refine ⟨?_, aligned.mp maps.assigned⟩
    have total := totalSlots_declaredParams cp block maps.assigned (descriptorTypes node).length
    rw [whole] at total
    rw [← total, ← ends]
    have result := maps.result
    rw [mapMethod_eq generic parsed, Option.map_eq_some_iff] at result
    obtain ⟨params, named, -⟩ := result
    rw [named]
    rfl
  · rintro ⟨fits, synthetic⟩
    have assigned := aligned.mpr synthetic
    have total := totalSlots_declaredParams cp block assigned (descriptorTypes node).length
    rw [whole] at total
    rw [← total, ← ends, Option.isSome_iff_exists] at fits
    obtain ⟨params, named⟩ := fits
    have spec := nameLocals_spec named
    refine ⟨{ alignSignature node signature (mapDescriptor node) with params := params }, ?_, assigned,
      ?_, ?_⟩
    · rw [mapMethod_eq generic parsed, named]
      rfl
    · intro i
      simp only
      rw [spec, Option.map_map, ← declaredParams_paramType cp block assigned]
      rfl
    · intro i param here
      simp only at here
      rw [spec, Option.map_eq_some_iff] at here
      obtain ⟨before, listed, rfl⟩ := here
      rw [expectedName, ← totalSlots_declaredParams cp block assigned,
        declaredParams_name _ listed]

end Method

/-! ### Examples -/

/-- The pool with a signature at index 1. -/
def signaturePool (text : String) : Pool := [.unusable, .utf8 text]

/-- A method with that signature. -/
def signedMethod (accessFlags : UInt16) (descriptor : String) (methodParameters : List MethodParameter) :
    MethodNode where
  accessFlags := accessFlags
  name := "<init>"
  descriptor := descriptor
  hasCode := false
  maxStack := 0
  maxLocals := 0
  instructions := []
  instructionOffsets := []
  exceptionTable := []
  lineNumbers := []
  localVariables := []
  methodParameters := methodParameters
  exceptions := []
  signature := none
  codeAttributes := []
  attributes := [.signature 1]

def identL : Identifier := ⟨['L'], List.cons_ne_nil _ _, by simp⟩

/-- `(LL<*>;)V` -/
def listMethod : MethodSig where
  typeParams := []
  params := [.ref (.class_ [] (.mk identL [.any]) [])]
  result := none
  throwsList := []

/-- The descriptor `(LL;)V` -/
def listDescriptor : String := String.ofList ['(', 'L', 'L', ';', ')', 'V']

/-- A method with this descriptor and this signature. -/
def listNode (methodParameters : List MethodParameter) : MethodNode :=
  signedMethod 0x0001 listDescriptor methodParameters

theorem descriptorTypes_list (methodParameters : List MethodParameter) :
    descriptorTypes (listNode methodParameters) = [.reference (String.ofList ['L']) []] := by
  have chars : listDescriptor.toList = ['(', 'L', 'L', ';', ')', 'V'] := String.toList_ofList
  unfold descriptorTypes parseMethodDescriptor
  rw [show (listNode methodParameters).descriptor = listDescriptor from rfl, chars]
  rfl

theorem list_erases (methodParameters : List MethodParameter) :
    ErasesToBlock 0 listMethod.toSignature.paramTypes (descriptorTypes (listNode methodParameters)) := by
  rw [descriptorTypes_list]
  constructor
  · exact Nat.le_refl 1
  · intro j type listed
    cases j with
    | zero =>
        obtain rfl := Option.some.inj listed
        exact ⟨_, rfl, .reference _ _⟩
    | succ j => cases listed

theorem listMethod_parsed :
    parseMethodSignature (String.ofList listMethod.write).toList = some (listMethod.toSignature, []) := by
  rw [String.toList_ofList]
  exact reads_method listMethod trivial

/-- Without a `MethodParameters` attribute the constructor is mapped. -/
theorem unmarked_maps :
    ∃ mapped, Maps (listNode []) (signaturePool (String.ofList listMethod.write)) 0
      listMethod.toSignature.paramTypes mapped := by
  refine (mapsMethod_iff rfl listMethod_parsed (list_erases [])).mpr ⟨?_, .inr ?_⟩
  · rw [descriptorTypes_list]
    decide
  · rw [descriptorTypes_list, SyntheticAreAdded, if_neg]
    · rfl
    · exact fun both => nomatch both.1

/-- The canonical constructor of a record, whose parameter is marked as mandated: the only parameter is
taken for one that the compiler added. -/
theorem mandated_unaligned :
    ¬ ∀ node cp added text signature rest, getSignature node.attributes cp = some text →
      parseMethodSignature text.toList = some (signature, rest) →
      ErasesToBlock added signature.paramTypes (descriptorTypes node) →
      ∃ mapped, Maps node cp added signature.paramTypes mapped := by
  intro always
  obtain ⟨mapped, maps⟩ := always (listNode [⟨0, accMandated⟩])
    (signaturePool (String.ofList listMethod.write)) 0 _ _ _ rfl listMethod_parsed (list_erases _)
  have assigned := maps.assigned
  rw [descriptorTypes_list] at assigned
  have counts := congrArg List.length assigned
  cases counts

end CaffeineLs.ClassParser
