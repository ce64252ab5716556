/-
Module: CaffeineLs.HirTy.MemberAccess
Purpose: Access control of members: the classes an access stands in, and the rules for each access
  level.
Trusted boundary: the answers of the subtype query are a parameter. A compilation unit has a package
  with a name, or none; simple names have no dot; declarations are nested in what stands around them.
Main exports: JavaUnit, ClassKey, memberAccessible
-/
import CaffeineLs.HirDef.JavaItemTree
import CaffeineLs.HirTy.Ty

namespace CaffeineLs.HirTy

open HirExpand HirDef

/-! ### Declarations -/

def classLikeName : ItemData → Option Name
  | .class d | .interface d => some d.name
  | .enum d => some d.name
  | .record d => some d.name
  | ItemData.annotation d => some d.name
  | _ => none

/-- `ItemData::name` -/
def itemName : ItemData → Option Name
  | .module d => some d.name
  | .method d => some d.name
  | .field d => some d.name
  | .enumConstant d => some d.name
  | .staticInit _ | .instanceInit _ => none
  | data => classLikeName data

/-- A compilation unit. -/
structure JavaUnit where
  package : Option Name
  tree : ItemTree
  depth : ItemId → Nat
  nested : ∀ item owner, tree.parentOf item = some owner → depth owner < depth item
  undotted : ∀ item name, classLikeName (tree.data item) = some name → '.' ∉ name.text
  packageNamed : package ≠ some ⟨[]⟩

def joinNames (front : Name) (back : Name) : Name := ⟨front.text ++ '.' :: back.text⟩

namespace JavaUnit

variable (unit : JavaUnit)

def isLocalType (item : ItemId) : Bool := item ∈ unit.tree.localTypes

/-- The item, what it is nested in, and so on out to a top-level declaration. -/
def outwardFrom : Nat → ItemId → List ItemId
  | 0, item => [item]
  | fuel + 1, item =>
      match unit.tree.parentOf item with
      | some owner => item :: outwardFrom fuel owner
      | none => [item]

def outward (item : ItemId) : List ItemId := unit.outwardFrom (unit.depth item) item

/-- The names of the class-like declarations around an item, innermost first. -/
def classNames (item : ItemId) : List Name :=
  (unit.outward item).filterMap fun id => classLikeName (unit.tree.data id)

/-- `canonical_class_fqn`: a local declaration has no canonical name, and nothing in one does. -/
def canonicalClassFqn (item : ItemId) : Option Name :=
  if (unit.outward item).any unit.isLocalType then none
  else
    match (unit.classNames item).reverse with
    | [] => none
    | outermost :: names =>
        let acc := match unit.package with
          | some package => joinNames package outermost
          | none => outermost
        some (names.foldl joinNames acc)

/-- `enclosing_type_chain`, the names accumulated from the outside in. -/
def enclosingTypeChain (item : ItemId) : List Name :=
  let names := ((unit.tree.parentOf item).toList.flatMap unit.outward).filterMap fun id =>
    if (unit.canonicalClassFqn id).isSome then classLikeName (unit.tree.data id) else none
  (names.reverse.foldl (fun (acc, out) name =>
    let fqn := match acc with
      | some front => joinNames front name
      | none => name
    (some fqn, fqn :: out)) (unit.package, [])).2

end JavaUnit

/-! ### Classes -/

/-- A class named by its canonical name, or a declaration without one. -/
inductive ClassKey where
  | named (fqn : Name)
  | loc («class» : SourceClass)
deriving DecidableEq, Repr

def ClassKey.isNamed : ClassKey → Bool
  | .named _ => true
  | .loc _ => false

/-- `str::rsplit_once` at a dot, the part in front. -/
def beforeLastDot (text : List Char) : Option (List Char) :=
  match text.reverse.dropWhile (· ≠ '.') with
  | [] => none
  | _ :: front => some front.reverse

/-- A canonical name, trimmed segment by segment while the package is in front. -/
def trimmedNames (packagePrefix : List Char) : Nat → List Char → List Name
  | 0, _ => []
  | fuel + 1, candidate =>
      match beforeLastDot candidate with
      | some front =>
          if packagePrefix.isPrefixOf front then ⟨front⟩ :: trimmedNames packagePrefix fuel front
          else []
      | none => []

def sourceTopLevel (package : Option Name) (fqn : Name) : Name :=
  let rest := match package with
    | some package =>
        if (package.text ++ ['.']).isPrefixOf fqn.text then fqn.text.drop (package.text.length + 1)
        else fqn.text
    | none => fqn.text
  let top : Name := ⟨rest.takeWhile (· ≠ '.')⟩
  match package with
  | some package => if package.text.isEmpty then top else joinNames package top
  | none => top

inductive Access where
  | «public»
  | «protected»
  | package
  | «private»
deriving DecidableEq, Repr

inductive InvocationMode where
  | static
  | super
  | methodName
  | virtual
  | instanceReceiver
deriving DecidableEq, Repr

structure InvocationContext where
  mode : InvocationMode
  enclosingClass : Option ClassKey
  package : Option Name
  subclassOf : Option ClassKey

section

variable (units : FileId → JavaUnit)

namespace ClassKey

/-- `ClassKey::of` -/
def of (file : FileId) (item : ItemId) : ClassKey :=
  match (units file).canonicalClassFqn item with
  | some fqn => .named fqn
  | none => .loc ⟨file, item⟩

def simpleName : ClassKey → Name
  | .named fqn => fqn.simpleName
  | .loc c => (itemName ((units c.file).tree.data c.item)).getD ⟨[]⟩

/-- `ClassKey::as_ty` without type arguments. -/
def asTy : ClassKey → Ty
  | .named fqn => .reference fqn [] none
  | .loc c => .reference (simpleName units (.loc c)) [] (some c)

def topLevel (package : Option Name) : ClassKey → Option Name
  | .named fqn => some (sourceTopLevel package fqn)
  | .loc c => ((units c.file).enclosingTypeChain c.item).getLast?

end ClassKey

def enclosingClassKeys (package : Option Name) (key : ClassKey) : List ClassKey :=
  key :: match key with
    | .loc c => ((units c.file).enclosingTypeChain c.item).map .named
    | .named fqn =>
        let packagePrefix := match package with
          | some package => if package.text.isEmpty then [] else package.text ++ ['.']
          | none => []
        (trimmedNames packagePrefix fqn.text.length fqn.text).map .named

def withinTopLevel (enclosing declaring : Name) : Bool :=
  enclosing = declaring || (declaring.text ++ ['.']).isPrefixOf enclosing.text

variable (subtype : Ty → Ty → Bool)

/-- The class is the other one or a subclass of it. -/
def isSubclass (sub sup : ClassKey) : Bool := subtype (sub.asTy units) (sup.asTy units)

def memberAccessible (access : Access) (declaringPackage : Option Name) (owner : ClassKey)
    (declaringTopLevel : Option Name) (receiver : Ty) (staticMember : Bool)
    (ctx : InvocationContext) : Bool :=
  match access with
  | .public => true
  | .private =>
      match ctx.enclosingClass, declaringTopLevel with
      | some enclosing, some declaring =>
          match enclosing.topLevel units ctx.package with
          | some enclosing => withinTopLevel enclosing declaring
          | none => false
      | _, _ => false
  | .package =>
      match ctx.package, declaringPackage with
      | some invocation, some declaring => invocation = declaring
      | _, _ => false
  | .protected =>
      let samePackage := match ctx.package, declaringPackage with
        | some invocation, some declaring => decide (invocation = declaring)
        | _, _ => false
      let anonymous := match ctx.subclassOf with
        | some subclassOf => isSubclass units subtype subclassOf owner
        | none => false
      -- The innermost enclosing subclass decides, whatever stands around it.
      let subclass := ctx.enclosingClass.bind fun enclosing =>
        (enclosingClassKeys units ctx.package enclosing).find? fun candidate =>
          isSubclass units subtype candidate owner
      samePackage || anonymous ||
        match subclass with
        | some subclass =>
            staticMember || ctx.mode = .super || subtype receiver (subclass.asTy units)
        | none => false

/-! ### Access sites -/

/-- An access in a source file: the innermost class around it, if there is one, how the member is
named, and the class that an anonymous class is created from when its constructor is called. -/
structure AccessSite where
  file : FileId
  innermost : Option ItemId
  classLike : ∀ item ∈ innermost, (classLikeName ((units file).tree.data item)).isSome
  mode : InvocationMode
  creation : Option Name

variable {units} (site : AccessSite units)

/-- `access_context`, with the mode of the access and the superclass of an anonymous class. -/
def accessContext : InvocationContext where
  mode := site.mode
  enclosingClass := site.innermost.map (ClassKey.of units site.file)
  package := some ((units site.file).package.getD ⟨[]⟩)
  subclassOf := site.creation.map .named

/-- The classes around the access, innermost first. -/
def lexicalClasses : List ClassKey :=
  ((site.innermost.toList.flatMap (units site.file).outward).filter fun id =>
    (classLikeName ((units site.file).tree.data id)).isSome).map (ClassKey.of units site.file)

/-- The classes around the access that its evaluation looks at: a local class around another class
is passed over. -/
def consideredClasses : List ClassKey :=
  (lexicalClasses site).take 1 ++ ((lexicalClasses site).drop 1).filter ClassKey.isNamed

section Protected

variable (declaringPackage : Option Name) (owner : ClassKey) (receiver : Ty) (staticMember : Bool)

/-- The access stands in the package that declares the member. -/
def SamePackage : Prop := declaringPackage = some ((units site.file).package.getD ⟨[]⟩)

/-- The body of the class may access the member, whose owner it is a subclass of. -/
def Reaches (subclass : ClassKey) : Prop :=
  staticMember = true ∨ site.mode = .super ∨ subtype receiver (subclass.asTy units) = true

/-- The protected access is permitted, JLS §6.6.2: in the declaring package, to the anonymous class
that calls the constructor of its superclass, and in the body of a subclass that reaches the
member. -/
def PermitsProtected : Prop :=
  SamePackage site declaringPackage ∨
    (∃ superclass ∈ site.creation, isSubclass units subtype (.named superclass) owner = true) ∨
    ∃ subclass ∈ lexicalClasses site, isSubclass units subtype subclass owner = true ∧
      Reaches subtype site receiver staticMember subclass

/-- The innermost subclass that is considered reaches the member. -/
def InnermostReaches : Prop :=
  ∃ inner innermost outer, consideredClasses site = inner ++ innermost :: outer ∧
    (∀ other ∈ inner, isSubclass units subtype other owner = false) ∧
    isSubclass units subtype innermost owner = true ∧
    Reaches subtype site receiver staticMember innermost

/-- If the body of some subclass around the access reaches the member, the innermost subclass that
is considered does. -/
def InnermostDecides : Prop :=
  ∀ subclass ∈ lexicalClasses site, isSubclass units subtype subclass owner = true →
    Reaches subtype site receiver staticMember subclass →
      InnermostReaches subtype site owner receiver staticMember

end Protected

end

end CaffeineLs.HirTy
