/-
Module: CaffeineLs.Proofs.MemberAccess
Purpose: The classes that access control looks at, and when they decide protected access like the
  language.
Trusted boundary: none
Main exports: enclosingClassKeys_eq, memberAccessible_protected, protectedAccess_iff
-/
import CaffeineLs.HirTy.MemberAccess

namespace CaffeineLs.HirTy

open HirExpand HirDef

/-! ### Declarations around a declaration -/

section

variable {unit : JavaUnit}

/-- What holds of a declaration when it holds of what stands around it holds of every one. -/
theorem JavaUnit.outward_induction {P : ItemId → Prop}
    (step : ∀ item, (∀ owner, unit.tree.parentOf item = some owner → P owner) → P item)
    (item : ItemId) : P item := by
  induction rank : unit.depth item using Nat.strongRecOn generalizing item with
  | ind n ih =>
      subst rank
      exact step item fun owner around => ih _ (unit.nested item owner around) owner rfl

theorem outwardFrom_eq {fuel : Nat} {item : ItemId} (enough : unit.depth item ≤ fuel) :
    unit.outwardFrom fuel item = unit.outward item := by
  induction item using @JavaUnit.outward_induction unit generalizing fuel with
  | step item ih =>
      cases around : unit.tree.parentOf item with
      | none =>
          have alone (fuel : Nat) : unit.outwardFrom fuel item = [item] := by
            cases fuel <;> simp [JavaUnit.outwardFrom, around]
          rw [JavaUnit.outward, alone, alone]
      | some owner =>
          have below := unit.nested item owner around
          obtain ⟨fuel, rfl⟩ : ∃ n, fuel = n + 1 := ⟨fuel - 1, by omega⟩
          obtain ⟨depth, deep⟩ : ∃ n, unit.depth item = n + 1 := ⟨unit.depth item - 1, by omega⟩
          rw [JavaUnit.outward, deep]
          simp only [JavaUnit.outwardFrom, around]
          rw [ih owner around (by omega), ih owner around (by omega)]

theorem outward_eq (item : ItemId) :
    unit.outward item = item :: (unit.tree.parentOf item).toList.flatMap unit.outward := by
  cases around : unit.tree.parentOf item with
  | none =>
      rw [JavaUnit.outward]
      cases unit.depth item <;> simp [JavaUnit.outwardFrom, around]
  | some owner =>
      have below := unit.nested item owner around
      obtain ⟨depth, deep⟩ : ∃ n, unit.depth item = n + 1 := ⟨unit.depth item - 1, by omega⟩
      rw [JavaUnit.outward, deep]
      simp only [JavaUnit.outwardFrom, around]
      rw [outwardFrom_eq (by omega)]
      simp

/-! ### Canonical names -/

/-- The names qualified by those after them and the package. -/
def qualify (package : Option Name) : List Name → Option Name
  | [] => package
  | name :: outer =>
      match qualify package outer with
      | some front => some (joinNames front name)
      | none => some name

/-- The qualified name of every declaration, from the innermost out. -/
def qualified (package : Option Name) : List Name → List Name
  | [] => []
  | name :: outer => (qualify package (name :: outer)).toList ++ qualified package outer

theorem qualify_append (package : Option Name) (names : List Name) (outermost : Name) :
    qualify package (names ++ [outermost]) =
      some (names.foldr (fun name front => joinNames front name)
        (match package with
          | some package => joinNames package outermost
          | none => outermost)) := by
  induction names with
  | nil => cases package <;> rfl
  | cons name names ih => simp only [List.cons_append, qualify, ih, List.foldr_cons]

theorem canonicalClassFqn_eq (item : ItemId) :
    unit.canonicalClassFqn item =
      if (unit.outward item).any unit.isLocalType || (unit.classNames item).isEmpty then none
      else qualify unit.package (unit.classNames item) := by
  unfold JavaUnit.canonicalClassFqn
  by_cases inLocal : (unit.outward item).any unit.isLocalType
  · simp [inLocal]
  · cases backwards : (unit.classNames item).reverse with
    | nil =>
        have none_ : unit.classNames item = [] := List.reverse_eq_nil_iff.mp backwards
        simp [none_]
    | cons outermost names =>
        have forwards : unit.classNames item = names.reverse ++ [outermost] := by
          rw [← List.reverse_reverse (unit.classNames item), backwards, List.reverse_cons]
        have filled : (names.reverse ++ [outermost]).isEmpty = false := by simp
        have free : (unit.outward item).any unit.isLocalType = false := by simpa using inLocal
        have folded (acc : Name) : names.reverse.foldr (fun name front => joinNames front name) acc =
            names.foldl joinNames acc := List.foldr_reverse
        rw [forwards, qualify_append]
        cases unit.package <;>
          simp only [free, filled, folded, Bool.or_false, Bool.false_eq_true, if_false]

theorem chain_eq (package : Option Name) (names : List Name) :
    names.reverse.foldl (fun (acc, out) name =>
      let fqn := match acc with
        | some front => joinNames front name
        | none => name
      (some fqn, fqn :: out)) (package, ([] : List Name)) =
        (qualify package names, qualified package names) := by
  induction names with
  | nil => rfl
  | cons name names ih =>
      rw [List.reverse_cons, List.foldl_append, ih]
      simp only [List.foldl_cons, List.foldl_nil, qualified, qualify]
      cases qualify package names <;> rfl

theorem classNames_eq (item : ItemId) :
    unit.classNames item = (classLikeName (unit.tree.data item)).toList ++
      (unit.tree.parentOf item).toList.flatMap unit.classNames := by
  have around (owners : List ItemId) :
      (owners.flatMap unit.outward).filterMap (fun id => classLikeName (unit.tree.data id)) =
        owners.flatMap unit.classNames := by
    induction owners with
    | nil => rfl
    | cons owner rest ih =>
        rw [List.flatMap_cons, List.filterMap_append, ih]
        rfl
  rw [JavaUnit.classNames, outward_eq, List.filterMap_cons, around]
  cases classLikeName (unit.tree.data item) <;> rfl

/-- A local declaration stands around the item, or is it. -/
def JavaUnit.StandsInLocal (unit : JavaUnit) (item : ItemId) : Prop :=
  (unit.outward item).any unit.isLocalType = true

theorem standsInLocal_of_owner {item owner : ItemId} (around : unit.tree.parentOf item = some owner)
    (inLocal : unit.StandsInLocal owner) : unit.StandsInLocal item := by
  unfold JavaUnit.StandsInLocal at inLocal ⊢
  rw [outward_eq, around, List.any_cons]
  simp [inLocal]

/-- A class outside local declarations is named by what stands around it. -/
theorem canonicalClassFqn_of_name {item : ItemId} {name : Name}
    (named : classLikeName (unit.tree.data item) = some name)
    (outside : ¬unit.StandsInLocal item) :
    unit.canonicalClassFqn item = qualify unit.package (unit.classNames item) := by
  have known : unit.classNames item ≠ [] := by
    rw [classNames_eq, named]
    simp
  have free : (unit.outward item).any unit.isLocalType = false := Bool.eq_false_iff.mpr outside
  rw [canonicalClassFqn_eq, free, if_neg (by simp [known])]

theorem canonicalClassFqn_of_local {item : ItemId} (inLocal : unit.StandsInLocal item) :
    unit.canonicalClassFqn item = none := by
  rw [canonicalClassFqn_eq, if_pos]
  unfold JavaUnit.StandsInLocal at inLocal
  simp [inLocal]

theorem qualify_isSome (package : Option Name) (name : Name) (outer : List Name) :
    ∃ fqn, qualify package (name :: outer) = some fqn := by
  cases around : qualify package outer with
  | none => exact ⟨name, by simp [qualify, around]⟩
  | some front => exact ⟨joinNames front name, by simp [qualify, around]⟩

end

/-! ### Enclosing classes -/

section

variable (units : FileId → JavaUnit) (file : FileId)

/-- The keys of the class-like declarations from an item out. -/
def classKeys (item : ItemId) : List ClassKey :=
  (((units file).outward item).filter fun id =>
    (classLikeName ((units file).tree.data id)).isSome).map (ClassKey.of units file)

theorem classKeys_eq (item : ItemId) :
    classKeys units file item =
      (if (classLikeName ((units file).tree.data item)).isSome then [ClassKey.of units file item]
        else []) ++ ((units file).tree.parentOf item).toList.flatMap (classKeys units file) := by
  have around (owners : List ItemId) :
      ((owners.flatMap (units file).outward).filter fun id =>
        (classLikeName ((units file).tree.data id)).isSome).map (ClassKey.of units file) =
          owners.flatMap (classKeys units file) := by
    induction owners with
    | nil => rfl
    | cons owner rest ih =>
        rw [List.flatMap_cons, List.filter_append, List.map_append, ih]
        rfl
  rw [classKeys, outward_eq, List.filter_cons, ← around]
  split <;> rfl

/-- Outside local declarations every class around an item has its canonical name. -/
theorem classKeys_outside {item : ItemId} (outside : ¬(units file).StandsInLocal item) :
    classKeys units file item =
      (qualified (units file).package ((units file).classNames item)).map .named := by
  induction item using @JavaUnit.outward_induction (units file) with
  | step item ih =>
      have further : ((units file).tree.parentOf item).toList.flatMap (classKeys units file) =
          (qualified (units file).package (((units file).tree.parentOf item).toList.flatMap
            (units file).classNames)).map .named := by
        cases around : (units file).tree.parentOf item with
        | none => rfl
        | some owner =>
            have same := ih owner around fun inLocal =>
              outside (standsInLocal_of_owner around inLocal)
            simpa using same
      rw [classKeys_eq, further]
      cases named : classLikeName ((units file).tree.data item) with
      | none => rw [classNames_eq item, named]; rfl
      | some name =>
          have key := canonicalClassFqn_of_name named outside
          rw [classNames_eq item, named] at key ⊢
          obtain ⟨fqn, is_⟩ := qualify_isSome (units file).package name
            (((units file).tree.parentOf item).toList.flatMap (units file).classNames)
          simp only [Option.toList_some, List.singleton_append] at key ⊢
          rw [is_] at key
          simp only [qualified, is_, ClassKey.of, key]
          rfl

/-- The names that the chain around a local declaration keeps. -/
def keptNames (unit : JavaUnit) (item : ItemId) : List Name :=
  (unit.outward item).filterMap fun id =>
    if (unit.canonicalClassFqn id).isSome then classLikeName (unit.tree.data id) else none

theorem keptNames_eq {unit : JavaUnit} (item : ItemId) :
    keptNames unit item =
      (if (unit.canonicalClassFqn item).isSome then classLikeName (unit.tree.data item)
        else none).toList ++ (unit.tree.parentOf item).toList.flatMap (keptNames unit) := by
  have around (owners : List ItemId) :
      (owners.flatMap unit.outward).filterMap (fun id =>
        if (unit.canonicalClassFqn id).isSome then classLikeName (unit.tree.data id) else none) =
          owners.flatMap (keptNames unit) := by
    induction owners with
    | nil => rfl
    | cons owner rest ih =>
        rw [List.flatMap_cons, List.filterMap_append, ih]
        rfl
  rw [keptNames, outward_eq, List.filterMap_cons, ← around]
  split <;> simp_all

/-- Outside local declarations the chain keeps every name. -/
theorem keptNames_outside {unit : JavaUnit} {item : ItemId} (outside : ¬unit.StandsInLocal item) :
    keptNames unit item = unit.classNames item := by
  induction item using @JavaUnit.outward_induction unit with
  | step item ih =>
      have further : (unit.tree.parentOf item).toList.flatMap (keptNames unit) =
          (unit.tree.parentOf item).toList.flatMap unit.classNames := by
        cases around : unit.tree.parentOf item with
        | none => rfl
        | some owner =>
            simpa using ih owner around fun inLocal =>
              outside (standsInLocal_of_owner around inLocal)
      rw [keptNames_eq, classNames_eq, further]
      cases named : classLikeName (unit.tree.data item) with
      | none => simp
      | some name =>
          have key := canonicalClassFqn_of_name named outside
          rw [classNames_eq, named] at key
          obtain ⟨fqn, is_⟩ := qualify_isSome unit.package name
            ((unit.tree.parentOf item).toList.flatMap unit.classNames)
          simp only [Option.toList_some, List.singleton_append, is_] at key
          simp [key]

/-- The classes around an item that have a canonical name are those of the kept names. -/
theorem classKeys_named (item : ItemId) :
    (classKeys units file item).filter ClassKey.isNamed =
      (qualified (units file).package (keptNames (units file) item)).map .named := by
  induction item using @JavaUnit.outward_induction (units file) with
  | step item ih =>
      by_cases inLocal : (units file).StandsInLocal item
      · have noName := canonicalClassFqn_of_local inLocal
        have further : (((units file).tree.parentOf item).toList.flatMap
            (classKeys units file)).filter ClassKey.isNamed =
              (qualified (units file).package (((units file).tree.parentOf item).toList.flatMap
                (keptNames (units file)))).map .named := by
          cases around : (units file).tree.parentOf item with
          | none => rfl
          | some owner => simpa using ih owner around
        rw [classKeys_eq, keptNames_eq, List.filter_append, further]
        simp only [noName, ClassKey.of]
        split <;> simp [ClassKey.isNamed]
      · rw [classKeys_outside units file inLocal, keptNames_outside inLocal, List.filter_eq_self]
        intro key there
        obtain ⟨fqn, -, rfl⟩ := List.mem_map.mp there
        rfl

theorem enclosingTypeChain_eq (unit : JavaUnit) (item : ItemId) :
    unit.enclosingTypeChain item =
      qualified unit.package ((unit.tree.parentOf item).toList.flatMap (keptNames unit)) := by
  have around (owners : List ItemId) :
      (owners.flatMap unit.outward).filterMap (fun id =>
        if (unit.canonicalClassFqn id).isSome then classLikeName (unit.tree.data id) else none) =
          owners.flatMap (keptNames unit) := by
    induction owners with
    | nil => rfl
    | cons owner rest ih =>
        rw [List.flatMap_cons, List.filterMap_append, ih]
        rfl
  unfold JavaUnit.enclosingTypeChain
  rw [around]
  exact congrArg Prod.snd (chain_eq unit.package _)

/-! ### Trimming a name -/

theorem dropWhile_simple {back : List Char} (simple : '.' ∉ back) (rest : List Char) :
    (back.reverse ++ rest).dropWhile (· ≠ '.') = rest.dropWhile (· ≠ '.') := by
  apply List.dropWhile_append_of_pos
  intro c there
  simp only [ne_eq, decide_eq_true_eq]
  rintro rfl
  exact simple (List.mem_reverse.mp there)

theorem beforeLastDot_join {front back : List Char} (simple : '.' ∉ back) :
    beforeLastDot (front ++ '.' :: back) = some front := by
  have backwards : (front ++ '.' :: back).reverse = back.reverse ++ '.' :: front.reverse := by simp
  have skipped : ('.' :: front.reverse).dropWhile (· ≠ '.') = '.' :: front.reverse := rfl
  rw [beforeLastDot, backwards, dropWhile_simple simple, skipped]
  simp

theorem beforeLastDot_simple {text : List Char} (simple : '.' ∉ text) :
    beforeLastDot text = none := by
  have skipped := dropWhile_simple simple []
  rw [List.append_nil] at skipped
  rw [beforeLastDot, skipped]
  rfl

/-- What a canonical name starts with: the package and a dot. -/
def packagePrefix : Option Name → List Char
  | some package => package.text ++ ['.']
  | none => []

theorem packagePrefix_front {package : Option Name} {name fqn : Name} {outer : List Name}
    (is_ : qualify package (name :: outer) = some fqn) : packagePrefix package <+: fqn.text := by
  induction outer generalizing name fqn with
  | nil =>
      cases package with
      | none => exact List.nil_prefix
      | some package =>
          cases is_
          exact ⟨name.text, by simp [packagePrefix, joinNames]⟩
  | cons owner outer ih =>
      obtain ⟨front, around⟩ := qualify_isSome package owner outer
      have longer : fqn = joinNames front name := by
        rw [qualify, around] at is_
        exact (Option.some.inj is_).symm
      rw [longer]
      exact (ih around).trans ⟨'.' :: name.text, rfl⟩

/-- Trimming a canonical name gives the canonical names of what stands around. -/
theorem trimmedNames_eq {package : Option Name} {name fqn : Name} {outer : List Name}
    (is_ : qualify package (name :: outer) = some fqn)
    (simple : ∀ n ∈ name :: outer, '.' ∉ n.text) {fuel : Nat} (enough : fqn.text.length ≤ fuel) :
    trimmedNames (packagePrefix package) fuel fqn.text = qualified package outer := by
  induction outer generalizing name fqn fuel with
  | nil =>
      have last : '.' ∉ name.text := simple name List.mem_cons_self
      cases package with
      | none =>
          obtain rfl : name = fqn := Option.some.inj is_
          cases fuel with
          | zero => rfl
          | succ fuel => simp only [trimmedNames, beforeLastDot_simple last, qualified]
      | some package =>
          obtain rfl : joinNames package name = fqn := Option.some.inj is_
          obtain ⟨fuel, rfl⟩ : ∃ n, fuel = n + 1 := by
            refine ⟨fuel - 1, ?_⟩
            simp only [joinNames, List.length_append, List.length_cons] at enough
            omega
          have tooLong : (package.text ++ ['.']).isPrefixOf package.text = false := by
            rw [Bool.eq_false_iff]
            intro starts
            have shorter := (List.isPrefixOf_iff_prefix.mp starts).length_le
            rw [List.length_append, List.length_singleton] at shorter
            omega
          simp only [trimmedNames, joinNames, beforeLastDot_join last, packagePrefix, tooLong,
            qualified]
          rfl
  | cons owner outer ih =>
      have last : '.' ∉ name.text := simple name List.mem_cons_self
      obtain ⟨front, around⟩ := qualify_isSome package owner outer
      obtain rfl : joinNames front name = fqn := by
        rw [qualify, around] at is_
        exact Option.some.inj is_
      obtain ⟨fuel, rfl⟩ : ∃ n, fuel = n + 1 := by
        refine ⟨fuel - 1, ?_⟩
        simp only [joinNames, List.length_append, List.length_cons] at enough
        omega
      have starts : (packagePrefix package).isPrefixOf front.text = true :=
        List.isPrefixOf_iff_prefix.mpr (packagePrefix_front around)
      have shorter : front.text.length ≤ fuel := by
        simp only [joinNames, List.length_append, List.length_cons] at enough
        omega
      have rest := ih around (fun n there => simple n (List.mem_cons_of_mem _ there)) shorter
      simp only [trimmedNames, joinNames, beforeLastDot_join last, starts, if_true, rest, qualified,
        around, Option.toList_some, List.singleton_append]

theorem packagePrefix_eq (unit : JavaUnit) :
    (if (unit.package.getD ⟨[]⟩).text.isEmpty then []
      else (unit.package.getD ⟨[]⟩).text ++ ['.']) = packagePrefix unit.package := by
  cases package : unit.package with
  | none => rfl
  | some name =>
      have text : name.text ≠ [] := by
        intro nothing
        apply unit.packageNamed
        rw [package]
        exact congrArg (fun text => some (Name.mk text)) nothing
      simp [packagePrefix, text]

theorem undotted_classNames {unit : JavaUnit} {item : ItemId} :
    ∀ name ∈ unit.classNames item, '.' ∉ name.text := by
  intro name there
  obtain ⟨id, -, named⟩ := List.mem_filterMap.mp there
  exact unit.undotted id name named

/-- The evaluation looks at the innermost class, and around it at those with a canonical name. -/
theorem enclosingClassKeys_of {item : ItemId}
    (classLike : (classLikeName ((units file).tree.data item)).isSome) :
    enclosingClassKeys units (some ((units file).package.getD ⟨[]⟩)) (.of units file item) =
      .of units file item :: (((units file).tree.parentOf item).toList.flatMap
        (classKeys units file)).filter ClassKey.isNamed := by
  have further : (((units file).tree.parentOf item).toList.flatMap
      (classKeys units file)).filter ClassKey.isNamed =
        (qualified (units file).package (((units file).tree.parentOf item).toList.flatMap
          (keptNames (units file)))).map .named := by
    cases (units file).tree.parentOf item with
    | none => rfl
    | some owner => simpa using classKeys_named units file owner
  obtain ⟨name, named⟩ := Option.isSome_iff_exists.mp classLike
  rw [further]
  unfold enclosingClassKeys
  congr 1
  by_cases inLocal : (units file).StandsInLocal item
  · simp only [ClassKey.of, canonicalClassFqn_of_local inLocal, enclosingTypeChain_eq]
  · have key := canonicalClassFqn_of_name named inLocal
    have names := @undotted_classNames (units file) item
    rw [classNames_eq, named, Option.toList_some, List.singleton_append] at key names
    obtain ⟨fqn, is_⟩ := qualify_isSome (units file).package name
      (((units file).tree.parentOf item).toList.flatMap (units file).classNames)
    rw [is_] at key
    simp only [ClassKey.of, key, packagePrefix_eq]
    rw [trimmedNames_eq is_ names (Nat.le_refl _)]
    congr 2
    have kept := keptNames_outside inLocal
    rw [keptNames_eq, classNames_eq, key, named] at kept
    simpa using kept.symm

/-! ### Protected access -/

variable {units} (site : AccessSite units)

theorem lexicalClasses_eq :
    lexicalClasses site = site.innermost.toList.flatMap (classKeys units site.file) := by
  rw [lexicalClasses]
  cases site.innermost with
  | none => rfl
  | some item => simp [classKeys]

theorem enclosingClassKeys_eq {enclosing : ClassKey}
    (around : (accessContext site).enclosingClass = some enclosing) :
    enclosingClassKeys units (accessContext site).package enclosing = consideredClasses site := by
  obtain ⟨item, innermost, rfl⟩ := Option.map_eq_some_iff.mp around
  have classLike := site.classLike item innermost
  rw [consideredClasses, lexicalClasses_eq, innermost]
  simp only [Option.toList_some, List.flatMap_cons, List.flatMap_nil, List.append_nil]
  rw [classKeys_eq, if_pos classLike]
  exact enclosingClassKeys_of units site.file classLike

theorem considered_nil (around : (accessContext site).enclosingClass = none) :
    consideredClasses site = [] := by
  rw [consideredClasses, lexicalClasses_eq, Option.map_eq_none_iff.mp around]
  rfl

variable {site}

/-- A class that is considered stands around the access. -/
theorem mem_lexical_of_considered {key : ClassKey} (there : key ∈ consideredClasses site) :
    key ∈ lexicalClasses site := by
  rcases List.mem_append.mp there with first | further
  · exact List.mem_of_mem_take first
  · exact List.mem_of_mem_drop (List.mem_of_mem_filter further)

variable (subtype : Ty → Ty → Bool) (declaringPackage : Option Name) (owner : ClassKey)
  (declaringTopLevel : Option Name) (receiver : Ty) (staticMember : Bool)

/-- What the evaluation of a protected access says. -/
theorem memberAccessible_protected :
    memberAccessible units subtype .protected declaringPackage owner declaringTopLevel receiver
        staticMember (accessContext site) = true ↔
      SamePackage site declaringPackage ∨
        (∃ superclass ∈ site.creation, isSubclass units subtype (.named superclass) owner = true) ∨
        InnermostReaches subtype site owner receiver staticMember := by
  simp only [memberAccessible, Bool.or_eq_true, or_assoc]
  apply or_congr
  · cases declaringPackage with
    | none => simp [SamePackage, accessContext]
    | some package => simp [SamePackage, accessContext, eq_comm]
  apply or_congr
  · cases creation : site.creation with
    | none => simp [accessContext, creation]
    | some superclass => simp [accessContext, creation]
  · have looked : ((accessContext site).enclosingClass.bind fun enclosing =>
        (enclosingClassKeys units (accessContext site).package enclosing).find? fun candidate =>
          isSubclass units subtype candidate owner) =
        (consideredClasses site).find? fun candidate => isSubclass units subtype candidate owner := by
      cases around : (accessContext site).enclosingClass with
      | none => rw [considered_nil site around]; rfl
      | some enclosing => rw [Option.bind_some, enclosingClassKeys_eq site around]
    rw [looked]
    constructor
    · intro reaches
      split at reaches
      · rename_i innermost found
        obtain ⟨below, inner, outer, split_, before⟩ := List.find?_eq_some_iff_append.mp found
        refine ⟨inner, innermost, outer, split_, ?_, below, ?_⟩
        · intro other there
          simpa using before other there
        · simp only [Bool.or_eq_true, decide_eq_true_eq, or_assoc] at reaches
          exact reaches
      · cases reaches
    · rintro ⟨inner, innermost, outer, split_, before, below, reaches⟩
      have found : ((consideredClasses site).find? fun candidate =>
          isSubclass units subtype candidate owner) = some innermost :=
        List.find?_eq_some_iff_append.mpr ⟨below, inner, outer, split_, by simpa using before⟩
      rw [found]
      simp only [Bool.or_eq_true, decide_eq_true_eq, or_assoc]
      exact reaches

/-- An innermost subclass that reaches the member is a subclass around the access that does. -/
theorem exists_of_innermostReaches
    (reaches : InnermostReaches subtype site owner receiver staticMember) :
    ∃ subclass ∈ lexicalClasses site, isSubclass units subtype subclass owner = true ∧
      Reaches subtype site receiver staticMember subclass := by
  obtain ⟨inner, innermost, outer, split_, -, below, reaches⟩ := reaches
  have there : innermost ∈ consideredClasses site := by simp [split_]
  exact ⟨innermost, mem_lexical_of_considered there, below, reaches⟩

end

/-- `class B`, in `class C`. -/
def nestedClass (name : Char) (body : List ItemId) : ItemData :=
  .class
    { name := ⟨[name]⟩
      annotations := []
      superClass := none
      interfaces := []
      permits := []
      typeParams := []
      body }

/-- `package q; class C extends A { class B extends A {} }` -/
def nestedUnit : JavaUnit where
  package := some ⟨['q']⟩
  tree :=
    { imports := []
      top := [⟨0⟩]
      localTypes := []
      parent := [none, some ⟨0⟩]
      items := [nestedClass 'C' [⟨1⟩], nestedClass 'B' []]
      height := fun id => 1 - id.raw
      bodyDeeper := by
        intro i data known child inside
        match i with
        | 0 =>
            obtain rfl := (Option.some.inj known).symm
            obtain rfl := List.mem_singleton.mp inside
            decide
        | 1 =>
            obtain rfl := (Option.some.inj known).symm
            cases inside
        | i + 2 => cases known
      localDeeper := by
        intro id known
        cases known }
  depth id := id.raw
  nested := by
    intro item owner around
    match item with
    | ⟨0⟩ => cases around
    | ⟨1⟩ =>
        obtain rfl := (Option.some.inj around).symm
        decide
    | ⟨i + 2⟩ => cases around
  undotted := by
    intro item name named
    match item with
    | ⟨0⟩ =>
        obtain rfl := (Option.some.inj named).symm
        decide
    | ⟨1⟩ =>
        obtain rfl := (Option.some.inj named).symm
        decide
    | ⟨i + 2⟩ => cases named
  packageNamed := by decide

/-- An access in the body of `q.C.B`. -/
def nestedSite : AccessSite fun _ => nestedUnit where
  file := ⟨0⟩
  innermost := some ⟨1⟩
  classLike := by
    rintro item ⟨⟩
    rfl
  mode := .virtual
  creation := none

/-- The class `p.A` that declares the member, and the subclasses `q.C` and `q.C.B`. -/
def classA : ClassKey := .named ⟨"p.A".toList⟩

def classC : ClassKey := .named ⟨"q.C".toList⟩

def classB : ClassKey := .named ⟨"q.C.B".toList⟩

/-- Every class is below itself, and both subclasses are below `p.A`. -/
def nestedSubtype (sub sup : Ty) : Bool :=
  let ty := ClassKey.asTy fun _ => nestedUnit
  sub = sup || sup = ty classA && (sub = ty classB || sub = ty classC)

end CaffeineLs.HirTy
