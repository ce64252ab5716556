/-
Module: CaffeineLs.HirTy.DepIndex
Purpose: The files a Java or Kotlin file depends on through its types.
Trusted boundary: the resolution of names and type references, the types of bodies and the declared
  supertypes of a class are what the database's queries answer.
Main exports: TyDatabase, Deps, JavaDeps.fileResolvedDeps
-/
import CaffeineLs.HirDef.KotlinItemTree
import CaffeineLs.HirTy.Ty
import CaffeineLs.Lib.Worklist

namespace CaffeineLs.HirTy

open HirExpand HirDef Worklist

/-- A class resolved to a library entry, to a source declaration, or to the facade of a file's
top-level declarations. -/
inductive Resolved where
  | library
  | source (source : SourceClass)
  | facade (file : FileId)

/-- The inferred types of a Java body's expressions and locals. -/
structure BodyTypes where
  exprs : List Ty
  locals : List Ty

/-- The declaration a name of a Kotlin body resolved to. -/
inductive KotlinResolvedMember where
  | loc
  | kotlin (file : FileId) (item : ItemId)
  | java (ownerFile : Option FileId)
  | javaField (ownerFile : Option FileId)

structure KotlinBodyTypes where
  exprs : List Ty
  locals : List Ty
  resolved : List KotlinResolvedMember

/-- What the queries answer. `Scope` is what a file's names are resolved in. The workspace declares
finitely many classes. -/
structure TyDatabase (Scope : Type) where
  javaTree : FileId → ItemTree
  kotlinTree : FileId → Option KotlinItemTree
  scopeForFile : FileId → Scope
  fqnResolve : Scope → Name → Option Resolved
  resolveTypeRef : FileId → ItemId → TypeRef → Ty
  bodyTypes : FileId → ItemId → Option BodyTypes
  sourceSupertypes : SourceClass → List Ty
  tyFromTypeRef : FileId → ItemId → TypeRef → Ty
  declarationTypes : FileId → ItemId → KotlinBodyTypes
  scriptBodyTypes : FileId → Option KotlinBodyTypes
  kotlinSupertypes : FileId → ItemId → List Ty
  classes : Finset SourceClass
  resolved : ∀ {scope name source}, fqnResolve scope name = some (.source source) → source ∈ classes
  members : ∀ {file item target declared},
    .kotlin target declared ∈ (declarationTypes file item).resolved → ⟨target, declared⟩ ∈ classes

/-- The set being built, with the classes whose supertypes are still to be walked. -/
structure Deps where
  out : Finset FileId
  agenda : Agenda SourceClass

namespace Deps

def empty : Deps := { out := ∅, agenda := { visited := ∅, queue := [] } }

/-- `queue.pop()` -/
def pop (s : Deps) : Option (SourceClass × Deps) :=
  match s.agenda.queue with
  | [] => none
  | source :: queue => some (source, { s with agenda := { s.agenda with queue := queue } })

/-- A source class of another file is a dependency, and its supertypes are to be walked. -/
def recordSourceClass (file : FileId) (source : SourceClass) (s : Deps) : Deps :=
  if source.file = file then s
  else { out := insert source.file s.out, agenda := s.agenda.push source }

/-- Another file is a dependency. -/
def recordFile (file target : FileId) (s : Deps) : Deps :=
  if target = file then s else { s with out := insert target s.out }

end Deps

/-- The visitor runs over a list of types. -/
def forEachReferenceOf {σ : Type} (f : Name → Option SourceClass → σ → σ) (tys : List Ty) (s : σ) :
    σ :=
  tys.foldl (fun s ty => ty.forEachReference f s) s

variable {Scope : Type} (db : TyDatabase Scope)

/-! ### The items of a tree -/

/-- A declaration, its members and its local types, parents before children. -/
def walkItems (tree : ItemTree) :
    Nat → ItemId → List (ItemId × ItemData) → List (ItemId × ItemData)
  | 0, _, out => out
  | fuel + 1, id, out =>
      let out := out ++ [(id, tree.data id)]
      let out := (tree.data id).body.foldl (fun out child => walkItems tree fuel child out) out
      (tree.localTypesOf id).foldl (fun out loc => walkItems tree fuel loc out) out

def allItemsData (tree : ItemTree) : List (ItemId × ItemData) :=
  tree.top.foldl (fun out top => walkItems tree (tree.height top + 1) top out) []

/-- Every item of the tree, parents before children. -/
def allItems (tree : ItemTree) : List ItemId := (allItemsData tree).map Prod.fst

/-- Whether a declaration's supertypes are a source of inherited members. -/
def isClassLike : ItemData → Bool
  | .class _ | .interface _ | .enum _ | .record _ | ItemData.annotation _ => true
  | _ => false

namespace JavaDeps

/-- A reference name resolved in the file's scope is a dependency when it names a source class. A
local type is in the file itself. -/
def recordSource (file : FileId) (scope : Scope) (name : Name) (loc : Option SourceClass)
    (s : Deps) : Deps :=
  if loc.isSome then s
  else
    match db.fqnResolve scope name with
    | some (.source source) => s.recordSourceClass file source
    | _ => s

/-- The declared type of an item. -/
def itemTy (file : FileId) (item : ItemId) : Ty :=
  let resolve := db.resolveTypeRef file item
  match (db.javaTree file).data item with
  | .field field => resolve field.ty.ty
  | .method method =>
      match method.sig.ret with
      | some ret => resolve ret.ty
      | none => .error
  | .class data | .interface data => resolve (.reference data.name [])
  | .enum data => resolve (.reference data.name [])
  | .record data => resolve (.reference data.name [])
  | ItemData.annotation data => resolve (.reference data.name [])
  | _ => .error

/-- The parameter types of a method or constructor. -/
def methodParams (file : FileId) (item : ItemId) : List Ty :=
  match (db.javaTree file).data item with
  | .method method => method.sig.params.map fun param => db.resolveTypeRef file item param.ty.ty
  | _ => []

/-- The types of one item are visited: the declared type, the parameter types and the types its
body was inferred to have. -/
def visitItem (file : FileId) (record : Name → Option SourceClass → Deps → Deps) (s : Deps)
    (item : ItemId) : Deps :=
  let s := (itemTy db file item).forEachReference record s
  let s :=
    if ((db.javaTree file).data item).isMethod then
      forEachReferenceOf record (methodParams db file item) s
    else s
  match db.bodyTypes file item with
  | some types => forEachReferenceOf record types.locals (forEachReferenceOf record types.exprs s)
  | none => s

/-- The supertypes of the file's own class-like declarations are visited. -/
def visitSupertypes (file : FileId) (record : Name → Option SourceClass → Deps → Deps) (s : Deps)
    (entry : ItemId × ItemData) : Deps :=
  if isClassLike entry.2 then
    forEachReferenceOf record (db.sourceSupertypes ⟨file, entry.1⟩) s
  else s

/-- The source files whose declarations a Java file's types resolve against. -/
def fileResolvedDeps (file : FileId) (fuel : Nat) : Option (Finset FileId) :=
  let record := recordSource db file (db.scopeForFile file)
  let tree := db.javaTree file
  let s := (allItems tree).foldl (visitItem db file record) .empty
  let s := (allItemsData tree).foldl (visitSupertypes db file record) s
  (drain Deps.pop (fun source => forEachReferenceOf record (db.sourceSupertypes source)) fuel s).map
    Deps.out

end JavaDeps

namespace KotlinDeps

/-- The file a resolved class is declared in, or that a facade stands for, is a dependency. -/
def recordClass (file : FileId) (resolved : Resolved) (s : Deps) : Deps :=
  match resolved with
  | .source source => s.recordSourceClass file source
  | .facade facade => s.recordFile file facade
  | .library => s

def recordSource (file : FileId) (scope : Scope) (name : Name) (loc : Option SourceClass)
    (s : Deps) : Deps :=
  if loc.isSome then s
  else
    match db.fqnResolve scope name with
    | some resolved => recordClass file resolved s
    | none => s

/-- Whether an item is a classifier of a Kotlin file. -/
def isSourceClass (file : FileId) (item : ItemId) : Bool :=
  match db.kotlinTree file with
  | some tree =>
      match tree.data item with
      | .class _ => true
      | _ => false
  | none => false

/-- The declaration a name of a body resolved to is in a file that is a dependency; a classifier's
supertypes are walked. -/
def recordMember (file : FileId) (member : KotlinResolvedMember) (s : Deps) : Deps :=
  match member with
  | .kotlin target item =>
      if isSourceClass db target item then s.recordSourceClass file ⟨target, item⟩
      else s.recordFile file target
  | .java (some owner) | .javaField (some owner) => s.recordFile file owner
  | .java none | .javaField none | .loc => s

/-- The declared supertypes of a classifier, by the language that declares it. -/
def sourceSupertypes (source : SourceClass) : List Ty :=
  if (db.kotlinTree source.file).isSome then db.kotlinSupertypes source.file source.item
  else db.sourceSupertypes source

/-- What an import names is recorded. -/
def visitImport (file : FileId) (s : Deps) (item : KotlinImportItem) : Deps :=
  match db.fqnResolve (db.scopeForFile file) item.path with
  | some resolved => recordClass file resolved s
  | none => s

/-- The written types of a declaration, the inferred types of its body and the members its names
resolved to. -/
def visitItem (file : FileId) (record : Name → Option SourceClass → Deps → Deps) (s : Deps)
    (entry : ItemId × KotlinItemData) : Deps :=
  let written := entry.2.itemTypeRefs.map fun tyref => db.tyFromTypeRef file entry.1 tyref.ty
  let types := db.declarationTypes file entry.1
  let s := forEachReferenceOf record written s
  let s := forEachReferenceOf record types.locals (forEachReferenceOf record types.exprs s)
  types.resolved.foldl (fun s member => recordMember db file member s) s

/-- The source files whose declarations a Kotlin file's types resolve against. -/
def fileResolvedDeps (file : FileId) (fuel : Nat) : Option (Finset FileId) :=
  match db.kotlinTree file with
  | none => some ∅
  | some tree =>
      let record := recordSource db file (db.scopeForFile file)
      let s := tree.imports.foldl (visitImport db file) .empty
      let s := tree.iter.foldl (visitItem db file record) s
      (drain Deps.pop (fun source => forEachReferenceOf record (sourceSupertypes db source)) fuel
        s).map Deps.out

end KotlinDeps

end CaffeineLs.HirTy
