/-
Module: CaffeineLs.Hir.StubTable
Purpose: The string table of a library and the two conversions of stubs: to indices into the table,
  and back through the table and the interner of the session.
Trusted boundary: the interner is a parameter; hash maps are association lists, the newest entry first
Main exports: ThreadedRodeo, StubStringTable, StubStringTable.stubs
-/
import CaffeineLs.Hir.Stub

namespace CaffeineLs.Hir

/-- The interner of a session. A `Symbol` is a key that it handed out. -/
structure ThreadedRodeo (Symbol : Type) where
  resolve : Symbol → String
  getOrIntern : String → Symbol

structure StubStringTable (Symbol : Type) where
  strings : List String := []
  strToIdx : List (String × UInt32) := []
  symbolToIdx : List (Symbol × UInt32) := []

namespace StubStringTable

variable {Symbol : Type}

/-- `StubStringTable::new`. -/
def new : StubStringTable Symbol := {}

/-- The index of a string, which the table gains when it lacks it. `strings.len() as u32` drops the
high bits. -/
def internStr (s : String) : StateM (StubStringTable Symbol) UInt32 := fun table =>
  match table.strToIdx.lookup s with
  | some idx => (idx, table)
  | none =>
      let idx := UInt32.ofNat table.strings.length
      (idx, { table with strings := table.strings ++ [s], strToIdx := (s, idx) :: table.strToIdx })

variable [BEq Symbol] (interner : ThreadedRodeo Symbol)

def symbol (s : Symbol) : StateM (StubStringTable Symbol) UInt32 := fun table =>
  match table.symbolToIdx.lookup s with
  | some idx => (idx, table)
  | none =>
      let (idx, table) := internStr (interner.resolve s) table
      (idx, { table with symbolToIdx := (s, idx) :: table.symbolToIdx })

mutual

def typeRef : TypeRef Symbol → StateM (StubStringTable Symbol) (TypeRef UInt32)
  | .primitive p => pure (.primitive p)
  | .reference name genericArgs => do
      let name ← symbol interner name
      let genericArgs ← typeRefs genericArgs
      pure (.reference name genericArgs)
  | .wildcard none => pure (.wildcard none)
  | .wildcard (some bound) => do
      let bound ← typeBound bound
      pure (.wildcard (some bound))
  | .typeVariable v => do
      let v ← symbol interner v
      pure (.typeVariable v)
  | .array inner => do
      let inner ← typeRef inner
      pure (.array inner)
  | .error => pure .error
  | .nullable inner => do
      let inner ← typeRef inner
      pure (.nullable inner)
  | .definitelyNonNull inner => do
      let inner ← typeRef inner
      pure (.definitelyNonNull inner)
  | .void => pure .void

def typeBound : TypeBound Symbol → StateM (StubStringTable Symbol) (TypeBound UInt32)
  | .upper t => do
      let t ← typeRef t
      pure (.upper t)
  | .lower t => do
      let t ← typeRef t
      pure (.lower t)

/-- `.iter().map(|arg| self.type_ref(arg)).collect()`. -/
def typeRefs : List (TypeRef Symbol) → StateM (StubStringTable Symbol) (List (TypeRef UInt32))
  | [] => pure []
  | t :: ts => do
      let t ← typeRef t
      let ts ← typeRefs ts
      pure (t :: ts)

end

mutual

/-- `annotation`. -/
def annotationSig : AnnotationSig Symbol → StateM (StubStringTable Symbol) (AnnotationSig UInt32)
  | .mk annotationType arguments => do
      let annotationType ← typeRef interner annotationType
      let arguments ← annotationArguments arguments
      pure (.mk annotationType arguments)

def annotationArguments : List (Symbol × AnnotationValue Symbol) →
    StateM (StubStringTable Symbol) (List (UInt32 × AnnotationValue UInt32))
  | [] => pure []
  | (name, value) :: rest => do
      let name ← symbol interner name
      let value ← annotationValue value
      let rest ← annotationArguments rest
      pure ((name, value) :: rest)

def annotationValue : AnnotationValue Symbol →
    StateM (StubStringTable Symbol) (AnnotationValue UInt32)
  | .string s => do
      let s ← symbol interner s
      pure (.string s)
  | .primitive p => pure (.primitive p)
  | .class_ t => do
      let t ← typeRef interner t
      pure (.class_ t)
  | .enum classType entryName => do
      let classType ← typeRef interner classType
      let entryName ← symbol interner entryName
      pure (.enum classType entryName)
  | .annotation_ a => do
      let a ← annotationSig a
      pure (.annotation_ a)
  | .array values => do
      let values ← annotationValues values
      pure (.array values)

def annotationValues : List (AnnotationValue Symbol) →
    StateM (StubStringTable Symbol) (List (AnnotationValue UInt32))
  | [] => pure []
  | value :: rest => do
      let value ← annotationValue value
      let rest ← annotationValues rest
      pure (value :: rest)

end

def typeParameter (p : TypeParameter Symbol) :
    StateM (StubStringTable Symbol) (TypeParameter UInt32) := do
  let name ← symbol interner p.name
  let bounds ← p.bounds.mapM (typeRef interner)
  let annotations ← p.annotations.mapM (annotationSig interner)
  pure { name := name, bounds := bounds, annotations := annotations }

def param (p : ParamData Symbol) : StateM (StubStringTable Symbol) (ParamData UInt32) := do
  let name ← p.name.mapM (symbol interner)
  let paramType ← typeRef interner p.paramType
  let annotations ← p.annotations.mapM (annotationSig interner)
  pure { flags := p.flags, name := name, paramType := paramType, annotations := annotations }

def method (m : MethodStub Symbol) : StateM (StubStringTable Symbol) (MethodStub UInt32) := do
  let name ← symbol interner m.name
  let descriptor ← symbol interner m.descriptor
  let returnType ← typeRef interner m.returnType
  let typeParams ← m.typeParams.mapM (typeParameter interner)
  let throwsList ← m.throwsList.mapM (typeRef interner)
  let params ← m.params.mapM (param interner)
  let annotations ← m.annotations.mapM (annotationSig interner)
  let defaultValue ← m.defaultValue.mapM (annotationValue interner)
  pure { flags := m.flags, name := name, descriptor := descriptor, returnType := returnType,
         typeParams := typeParams, throwsList := throwsList, params := params,
         annotations := annotations, defaultValue := defaultValue, deprecated := m.deprecated }

def field (f : FieldStub Symbol) : StateM (StubStringTable Symbol) (FieldStub UInt32) := do
  let name ← symbol interner f.name
  let descriptor ← symbol interner f.descriptor
  let fieldType ← typeRef interner f.fieldType
  let annotations ← f.annotations.mapM (annotationSig interner)
  let constantValue ← f.constantValue.mapM (annotationValue interner)
  pure { name := name, descriptor := descriptor, flags := f.flags, fieldType := fieldType,
         annotations := annotations, constantValue := constantValue, deprecated := f.deprecated }

def recordComponent (r : RecordComponentData Symbol) :
    StateM (StubStringTable Symbol) (RecordComponentData UInt32) := do
  let name ← symbol interner r.name
  let componentType ← typeRef interner r.componentType
  let annotations ← r.annotations.mapM (annotationSig interner)
  pure { name := name, componentType := componentType, varargs := r.varargs,
         annotations := annotations }

def class_ (c : ClassStub Symbol) : StateM (StubStringTable Symbol) (ClassStub UInt32) := do
  let fqn ← symbol interner c.fqn
  let name ← symbol interner c.name
  let superClass ← c.superClass.mapM (typeRef interner)
  let interfaces ← c.interfaces.mapM (typeRef interner)
  let typeParams ← c.typeParams.mapM (typeParameter interner)
  let methods ← c.methods.mapM (method interner)
  let fields ← c.fields.mapM (field interner)
  let permittedSubclasses ← c.permittedSubclasses.mapM (typeRef interner)
  let recordComponents ← c.recordComponents.mapM (recordComponent interner)
  let annotations ← c.annotations.mapM (annotationSig interner)
  pure { fqn := fqn, name := name, flags := c.flags, isRecord := c.isRecord,
         deprecated := c.deprecated, superClass := superClass, interfaces := interfaces,
         typeParams := typeParams, permittedSubclasses := permittedSubclasses,
         recordComponents := recordComponents, methods := methods, fields := fields,
         annotations := annotations }

def requires (r : ModuleRequires Symbol) :
    StateM (StubStringTable Symbol) (ModuleRequires UInt32) := do
  let moduleName ← symbol interner r.moduleName
  let compiledVersion ← r.compiledVersion.mapM (symbol interner)
  pure { moduleName := moduleName, flags := r.flags, compiledVersion := compiledVersion }

def exports (e : ModuleExports Symbol) :
    StateM (StubStringTable Symbol) (ModuleExports UInt32) := do
  let packageName ← symbol interner e.packageName
  let toModules ← e.toModules.mapM (symbol interner)
  pure { packageName := packageName, flags := e.flags, toModules := toModules }

def opens (o : ModuleOpens Symbol) : StateM (StubStringTable Symbol) (ModuleOpens UInt32) := do
  let packageName ← symbol interner o.packageName
  let toModules ← o.toModules.mapM (symbol interner)
  pure { packageName := packageName, flags := o.flags, toModules := toModules }

def provides (p : ModuleProvides Symbol) :
    StateM (StubStringTable Symbol) (ModuleProvides UInt32) := do
  let serviceInterface ← typeRef interner p.serviceInterface
  let withImplementations ← p.withImplementations.mapM (typeRef interner)
  pure { serviceInterface := serviceInterface, withImplementations := withImplementations }

def module_ (m : ModuleStub Symbol) : StateM (StubStringTable Symbol) (ModuleStub UInt32) := do
  let name ← symbol interner m.name
  let version ← m.version.mapM (symbol interner)
  let requireRows ← m.requires.mapM (requires interner)
  let exportRows ← m.exports.mapM (exports interner)
  let openRows ← m.opens.mapM (opens interner)
  let uses ← m.uses.mapM (typeRef interner)
  let provideRows ← m.provides.mapM (provides interner)
  pure { name := name, flags := m.flags, version := version, requires := requireRows,
         exports := exportRows, opens := openRows, uses := uses, provides := provideRows }

/-- The two calls of the loader: a record is a class or a module. -/
def classOrModule : ClassOrModuleStub Symbol →
    StateM (StubStringTable Symbol) (ClassOrModuleStub UInt32)
  | .class_ stub => do
      let stub ← class_ interner stub
      pure (.class_ stub)
  | .module_ stub => do
      let stub ← module_ interner stub
      pure (.module_ stub)

/-- The stubs of a library, one after another through one table. -/
def stubs (records : List (ClassOrModuleStub Symbol)) :
    StateM (StubStringTable Symbol) (List (ClassOrModuleStub UInt32)) :=
  records.mapM (classOrModule interner)

end StubStringTable

/-- `DiskResolver`: a string table and the interner its strings are looked up in. -/
structure DiskResolver (Symbol : Type) where
  strings : List String
  interner : ThreadedRodeo Symbol

namespace DiskResolver

variable {Symbol : Type} (resolver : DiskResolver Symbol)

/-- An index outside the table panics. -/
def symbol (idx : UInt32) : Option Symbol :=
  (resolver.strings[idx.toNat]?).map resolver.interner.getOrIntern

mutual

def typeRef : TypeRef UInt32 → Option (TypeRef Symbol)
  | .primitive p => pure (.primitive p)
  | .reference name genericArgs => do
      let name ← symbol resolver name
      let genericArgs ← typeRefs genericArgs
      pure (.reference name genericArgs)
  | .wildcard none => pure (.wildcard none)
  | .wildcard (some bound) => do
      let bound ← typeBound bound
      pure (.wildcard (some bound))
  | .typeVariable v => do
      let v ← symbol resolver v
      pure (.typeVariable v)
  | .array inner => do
      let inner ← typeRef inner
      pure (.array inner)
  | .error => pure .error
  | .nullable inner => do
      let inner ← typeRef inner
      pure (.nullable inner)
  | .definitelyNonNull inner => do
      let inner ← typeRef inner
      pure (.definitelyNonNull inner)
  | .void => pure .void

def typeBound : TypeBound UInt32 → Option (TypeBound Symbol)
  | .upper t => do
      let t ← typeRef t
      pure (.upper t)
  | .lower t => do
      let t ← typeRef t
      pure (.lower t)

/-- `.iter().map(|arg| self.type_ref(arg)).collect()`. -/
def typeRefs : List (TypeRef UInt32) → Option (List (TypeRef Symbol))
  | [] => pure []
  | t :: ts => do
      let t ← typeRef t
      let ts ← typeRefs ts
      pure (t :: ts)

end

mutual

/-- `annotation`. -/
def annotationSig : AnnotationSig UInt32 → Option (AnnotationSig Symbol)
  | .mk annotationType arguments => do
      let annotationType ← typeRef resolver annotationType
      let arguments ← annotationArguments arguments
      pure (.mk annotationType arguments)

def annotationArguments : List (UInt32 × AnnotationValue UInt32) →
    Option (List (Symbol × AnnotationValue Symbol))
  | [] => pure []
  | (name, value) :: rest => do
      let name ← symbol resolver name
      let value ← annotationValue value
      let rest ← annotationArguments rest
      pure ((name, value) :: rest)

def annotationValue : AnnotationValue UInt32 →
    Option (AnnotationValue Symbol)
  | .string s => do
      let s ← symbol resolver s
      pure (.string s)
  | .primitive p => pure (.primitive p)
  | .class_ t => do
      let t ← typeRef resolver t
      pure (.class_ t)
  | .enum classType entryName => do
      let classType ← typeRef resolver classType
      let entryName ← symbol resolver entryName
      pure (.enum classType entryName)
  | .annotation_ a => do
      let a ← annotationSig a
      pure (.annotation_ a)
  | .array values => do
      let values ← annotationValues values
      pure (.array values)

def annotationValues : List (AnnotationValue UInt32) →
    Option (List (AnnotationValue Symbol))
  | [] => pure []
  | value :: rest => do
      let value ← annotationValue value
      let rest ← annotationValues rest
      pure (value :: rest)

end

def typeParameter (p : TypeParameter UInt32) :
    Option (TypeParameter Symbol) := do
  let name ← symbol resolver p.name
  let bounds ← p.bounds.mapM (typeRef resolver)
  let annotations ← p.annotations.mapM (annotationSig resolver)
  pure { name := name, bounds := bounds, annotations := annotations }

def param (p : ParamData UInt32) : Option (ParamData Symbol) := do
  let name ← p.name.mapM (symbol resolver)
  let paramType ← typeRef resolver p.paramType
  let annotations ← p.annotations.mapM (annotationSig resolver)
  pure { flags := p.flags, name := name, paramType := paramType, annotations := annotations }

def method (m : MethodStub UInt32) : Option (MethodStub Symbol) := do
  let name ← symbol resolver m.name
  let descriptor ← symbol resolver m.descriptor
  let returnType ← typeRef resolver m.returnType
  let typeParams ← m.typeParams.mapM (typeParameter resolver)
  let throwsList ← m.throwsList.mapM (typeRef resolver)
  let params ← m.params.mapM (param resolver)
  let annotations ← m.annotations.mapM (annotationSig resolver)
  let defaultValue ← m.defaultValue.mapM (annotationValue resolver)
  pure { flags := m.flags, name := name, descriptor := descriptor, returnType := returnType,
         typeParams := typeParams, throwsList := throwsList, params := params,
         annotations := annotations, defaultValue := defaultValue, deprecated := m.deprecated }

def field (f : FieldStub UInt32) : Option (FieldStub Symbol) := do
  let name ← symbol resolver f.name
  let descriptor ← symbol resolver f.descriptor
  let fieldType ← typeRef resolver f.fieldType
  let annotations ← f.annotations.mapM (annotationSig resolver)
  let constantValue ← f.constantValue.mapM (annotationValue resolver)
  pure { name := name, descriptor := descriptor, flags := f.flags, fieldType := fieldType,
         annotations := annotations, constantValue := constantValue, deprecated := f.deprecated }

def recordComponent (r : RecordComponentData UInt32) :
    Option (RecordComponentData Symbol) := do
  let name ← symbol resolver r.name
  let componentType ← typeRef resolver r.componentType
  let annotations ← r.annotations.mapM (annotationSig resolver)
  pure { name := name, componentType := componentType, varargs := r.varargs,
         annotations := annotations }

def class_ (c : ClassStub UInt32) : Option (ClassStub Symbol) := do
  let fqn ← symbol resolver c.fqn
  let name ← symbol resolver c.name
  let superClass ← c.superClass.mapM (typeRef resolver)
  let interfaces ← c.interfaces.mapM (typeRef resolver)
  let typeParams ← c.typeParams.mapM (typeParameter resolver)
  let methods ← c.methods.mapM (method resolver)
  let fields ← c.fields.mapM (field resolver)
  let permittedSubclasses ← c.permittedSubclasses.mapM (typeRef resolver)
  let recordComponents ← c.recordComponents.mapM (recordComponent resolver)
  let annotations ← c.annotations.mapM (annotationSig resolver)
  pure { fqn := fqn, name := name, flags := c.flags, isRecord := c.isRecord,
         deprecated := c.deprecated, superClass := superClass, interfaces := interfaces,
         typeParams := typeParams, permittedSubclasses := permittedSubclasses,
         recordComponents := recordComponents, methods := methods, fields := fields,
         annotations := annotations }

def requires (r : ModuleRequires UInt32) :
    Option (ModuleRequires Symbol) := do
  let moduleName ← symbol resolver r.moduleName
  let compiledVersion ← r.compiledVersion.mapM (symbol resolver)
  pure { moduleName := moduleName, flags := r.flags, compiledVersion := compiledVersion }

def exports (e : ModuleExports UInt32) :
    Option (ModuleExports Symbol) := do
  let packageName ← symbol resolver e.packageName
  let toModules ← e.toModules.mapM (symbol resolver)
  pure { packageName := packageName, flags := e.flags, toModules := toModules }

def opens (o : ModuleOpens UInt32) : Option (ModuleOpens Symbol) := do
  let packageName ← symbol resolver o.packageName
  let toModules ← o.toModules.mapM (symbol resolver)
  pure { packageName := packageName, flags := o.flags, toModules := toModules }

def provides (p : ModuleProvides UInt32) :
    Option (ModuleProvides Symbol) := do
  let serviceInterface ← typeRef resolver p.serviceInterface
  let withImplementations ← p.withImplementations.mapM (typeRef resolver)
  pure { serviceInterface := serviceInterface, withImplementations := withImplementations }

def module_ (m : ModuleStub UInt32) : Option (ModuleStub Symbol) := do
  let name ← symbol resolver m.name
  let version ← m.version.mapM (symbol resolver)
  let requireRows ← m.requires.mapM (requires resolver)
  let exportRows ← m.exports.mapM (exports resolver)
  let openRows ← m.opens.mapM (opens resolver)
  let uses ← m.uses.mapM (typeRef resolver)
  let provideRows ← m.provides.mapM (provides resolver)
  pure { name := name, flags := m.flags, version := version, requires := requireRows,
         exports := exportRows, opens := openRows, uses := uses, provides := provideRows }

def classOrModule : ClassOrModuleStub UInt32 → Option (ClassOrModuleStub Symbol)
  | .class_ stub => do
      let stub ← class_ resolver stub
      pure (.class_ stub)
  | .module_ stub => do
      let stub ← module_ resolver stub
      pure (.module_ stub)

end DiskResolver

end CaffeineLs.Hir
