import Mathlib.Data.List.Perm.Basic
import Stad.CompilationReachable
import Stad.PairedLists

/-!
Members along a chain of base classes. Every class of the chain adds its own, so a
member that overrides or hides another one is listed beside it.
-/

namespace Stad.TypeCollectorForCompilation

open Bounded Bounded.Outcome PairedLists TypeCollector

variable {σ : Type}

/-! What the declarations mean. -/

def isDescribedProperty (item : PropertySymbol σ) : Bool :=
  !item.isIndexer && !item.isStatic &&
    (item.getMethod = some .publicAccess || item.setMethod = some .publicAccess)

def isDescribedField (item : FieldSymbol σ) : Bool :=
  !item.isImplicitlyDeclared && !item.isStatic && item.declaredAccessibility = .publicAccess

def ownProperties (symbols : TypeSymbols σ) (declaring : σ) : List (PropertySymbol σ) :=
  ((symbols.getMembers declaring).filterMap MemberSymbol.asProperty).filter isDescribedProperty

def ownFields (symbols : TypeSymbols σ) (declaring : σ) : List (FieldSymbol σ) :=
  ((symbols.getMembers declaring).filterMap MemberSymbol.asField).filter isDescribedField

def ownMembers (symbols : TypeSymbols σ) (declaring : σ) : List MemberSerializationInfo :=
  (ownProperties symbols declaring).map (propertyEntry symbols) ++
    (ownFields symbols declaring).map (memberOfField symbols)

def declaredNames (symbols : TypeSymbols σ) (declaring : σ) : List String :=
  (ownMembers symbols declaring).map (·.name)

def inheritanceChain (symbols : TypeSymbols σ) (type : σ) : List σ :=
  type :: symbols.baseTypes type

def mostDerived (symbols : TypeSymbols σ) (type : σ) (name : String) :
    Option MemberSerializationInfo :=
  (inheritanceChain symbols type).findSome? fun declaring =>
    (ownMembers symbols declaring).find? (·.name = name)

structure InheritsOnce (symbols : TypeSymbols σ) (type : σ)
    (members : List MemberSerializationInfo) : Prop where
  distinct : (members.map (·.name)).Nodup
  described : ∀ name, members.find? (·.name = name) = mostDerived symbols type name

/-- No class of the chain declares a name that one nearer to the type declares. -/
structure NoneRedeclared (symbols : TypeSymbols σ) (type : σ) : Prop where
  within : ∀ declaring ∈ inheritanceChain symbols type, (declaredNames symbols declaring).Nodup
  along : (inheritanceChain symbols type).Pairwise fun nearer farther =>
    ∀ name ∈ declaredNames symbols nearer, name ∉ declaredNames symbols farther

variable {symbols : TypeSymbols σ}

theorem isDescribedProperty_eq (item : PropertySymbol σ) :
    (!item.isIndexer && visible (memberOfProperty symbols item none)) =
      isDescribedProperty item := by
  simp only [visible, memberOfProperty, isDescribedProperty]
  cases item.isIndexer <;> cases item.isStatic <;> simp

theorem isDescribedField_eq (item : FieldSymbol σ) :
    (!item.isImplicitlyDeclared && visible (memberOfField symbols item)) =
      isDescribedField item := by
  simp only [visible, memberOfField, isDescribedField]
  cases item.isImplicitlyDeclared <;> cases item.isStatic <;> cases item.isReadOnly <;> simp

theorem properties_eq (type : σ) : properties symbols type =
    (inheritanceChain symbols type).flatMap (ownProperties symbols) := by
  simp only [properties, getAllMembers, List.filterMap_flatMap, List.filter_flatMap,
    isDescribedProperty_eq]
  rfl

theorem fields_eq (type : σ) : fields symbols type =
    (inheritanceChain symbols type).flatMap (ownFields symbols) := by
  simp only [fields, getAllMembers, List.filterMap_flatMap, List.filter_flatMap,
    isDescribedField_eq]
  rfl

theorem members_perm (symbols : TypeSymbols σ) (type : σ) : (objectEntry symbols type).members.Perm
    ((inheritanceChain symbols type).flatMap (ownMembers symbols)) := by
  rw [objectEntry, properties_eq, fields_eq, List.map_flatMap, List.map_flatMap]
  exact List.flatMap_append_perm _ _ _

theorem chain_nodup_iff (type : σ) :
    (((inheritanceChain symbols type).flatMap (ownMembers symbols)).map (·.name)).Nodup ↔
      NoneRedeclared symbols type := by
  rw [List.map_flatMap, List.nodup_flatMap]
  constructor
  · rintro ⟨within, along⟩
    exact ⟨within, along.imp fun apart name listed listed' => apart listed listed'⟩
  · rintro ⟨within, along⟩
    exact ⟨within, along.imp fun apart name listed listed' => apart name listed listed'⟩

theorem inheritsOnce_iff (type : σ) :
    InheritsOnce symbols type (objectEntry symbols type).members ↔
      NoneRedeclared symbols type := by
  have permuted := members_perm symbols type
  rw [← chain_nodup_iff, ← (permuted.map (·.name)).nodup_iff]
  constructor
  · exact InheritsOnce.distinct
  · intro distinct
    refine ⟨distinct, fun name => ?_⟩
    rw [find?_key_perm distinct permuted name, List.find?_flatMap, mostDerived]

/-- Whatever was collected before, and in whatever way the types of the members are
collected, each name is described once and by its most derived declaration exactly
when no class declares a name again. -/
theorem getObjectInfo_inheritsOnce_iff {call : CollectCall σ} {workspace last : Workspace σ}
    {type : σ} {info : ObjectSerializationInfo}
    (returned : getObjectInfo symbols call workspace type = value (last, info)) :
    InheritsOnce symbols type info.members ↔ NoneRedeclared symbols type := by
  obtain ⟨_, rfl, _⟩ := getObjectInfo_returned returned
  exact inheritsOnce_iff type

/-! `class Dog : Animal` overrides the property `Age` of `class Animal`, an `int`, and
`class Cat : Animal` has a property `Lives` of its own. -/

inductive Kennel where
  | dog
  | cat
  | animal
  | number
  deriving DecidableEq, Repr

def Kennel.name : Kennel → String
  | dog => "Dog"
  | cat => "Cat"
  | animal => "Animal"
  | number => "Int32"

def kennelProperty (name : String) : PropertySymbol Kennel :=
  ⟨name, .number, false, false, some .publicAccess, none, []⟩

def kennel : TypeSymbols Kennel where
  declaredAccessibility _ := .publicAccess
  containingTypes _ := []
  baseTypes
    | .dog | .cat => [.animal]
    | _ => []
  isNamedType _ := true
  isEnum _ := false
  isGenericType _ := false
  isValueType type := type = .number
  tupleUnderlyingType _ := none
  locations type := [type = .number]
  containingNamespace type := some (if type = .number then "System" else "Pets")
  shortTypeName := Kennel.name
  fullyQualified type := if type = .number then "int" else "global::Pets." ++ type.name
  minimallyQualified := Kennel.name
  binaryWrite := Kennel.name
  enumUnderlyingType := id
  typeArguments _ := []
  getMembers
    | .dog | .animal => [.property (kennelProperty "Age")]
    | .cat => [.property (kennelProperty "Lives")]
    | .number => []
  getAttributes _ := []

theorem kennel_collected (type : Kennel) (declared : type ≠ .number) :
    getObjectInfo kennel (collectCore kennel true 1) ⟨[], [], [], []⟩ type =
      value (⟨[.number], [], [], []⟩, objectEntry kennel type) := by
  cases type with
  | number => exact absurd rfl declared
  | dog => rfl
  | cat => rfl
  | animal => rfl

theorem cat_inheritsOnce :
    InheritsOnce kennel .cat (objectEntry kennel .cat).members ∧
      (objectEntry kennel .cat).members.map (·.name) = ["Lives", "Age"] := by
  refine ⟨(getObjectInfo_inheritsOnce_iff (kennel_collected .cat (by decide))).mpr ?_, rfl⟩
  constructor
  · decide
  · decide

theorem dog_listedTwice :
    getObjectInfo kennel (collectCore kennel true 1) ⟨[], [], [], []⟩ .dog =
        value (⟨[.number], [], [], []⟩, objectEntry kennel .dog) ∧
      (objectEntry kennel .dog).members.map (·.name) = ["Age", "Age"] ∧
      ¬InheritsOnce kennel .dog (objectEntry kennel .dog).members := by
  refine ⟨kennel_collected .dog (by decide), by rfl, fun once => ?_⟩
  exact absurd once.distinct (by decide)

end Stad.TypeCollectorForCompilation
