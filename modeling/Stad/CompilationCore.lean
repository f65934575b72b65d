import Stad.CollectorCore

/-!
Executable model of `TypeCollectorForCompilation`, which collects the types of a
compilation that is not built. `TypeSymbols` is what the compiler answers about
the types. Reading the attributes may fail, since `TypedConstant.Value` refuses
an array.
-/

namespace Stad

open Bounded

inductive TypedConstant where
  | value (boxed : Argument)
  | array
  deriving DecidableEq, Repr

def TypedConstant.getValue : TypedConstant → Except Thrown Argument
  | .value boxed => .ok boxed
  | .array => .error .invalidOperation

structure AttributeData where
  attributeClass : Option String
  constructorArguments : List TypedConstant
  deriving DecidableEq, Repr

def NeutralAttributeData.fromAttributeData (attributeData : AttributeData) :
    Except Thrown NeutralAttributeData := do
  let arguments ← attributeData.constructorArguments.mapM TypedConstant.getValue
  return ⟨some (attributeData.attributeClass.getD ""), arguments⟩

def NeutralAttributeData.fromAttributeDataArray (array : List AttributeData) :
    Except Thrown (List NeutralAttributeData) :=
  array.mapM fromAttributeData

inductive Accessibility where
  | publicAccess
  | internalAccess
  | otherAccess (name : String)
  deriving DecidableEq, Repr

structure PropertySymbol (σ : Type) where
  name : String
  type : σ
  isIndexer : Bool
  isStatic : Bool
  getMethod : Option Accessibility
  setMethod : Option Accessibility
  getAttributes : List AttributeData
  deriving DecidableEq, Repr

structure FieldSymbol (σ : Type) where
  name : String
  type : σ
  isImplicitlyDeclared : Bool
  declaredAccessibility : Accessibility
  isStatic : Bool
  isReadOnly : Bool
  getAttributes : List AttributeData
  deriving DecidableEq, Repr

inductive MemberSymbol (σ : Type) where
  | property (symbol : PropertySymbol σ)
  | field (symbol : FieldSymbol σ)
  | other
  deriving DecidableEq, Repr

def MemberSymbol.asProperty {σ : Type} : MemberSymbol σ → Option (PropertySymbol σ)
  | .property symbol => some symbol
  | _ => none

def MemberSymbol.asField {σ : Type} : MemberSymbol σ → Option (FieldSymbol σ)
  | .field symbol => some symbol
  | _ => none

/-- The chains of `ContainingType` and of `BaseType` are given as lists, and the location
as whether it is in metadata. -/
structure TypeSymbols (σ : Type) where
  declaredAccessibility : σ → Accessibility
  containingTypes : σ → List σ
  baseTypes : σ → List σ
  isNamedType : σ → Bool
  isEnum : σ → Bool
  isGenericType : σ → Bool
  isValueType : σ → Bool
  tupleUnderlyingType : σ → Option σ
  locations : σ → List Bool
  containingNamespace : σ → Option String
  shortTypeName : σ → String
  fullyQualified : σ → String
  minimallyQualified : σ → String
  binaryWrite : σ → String
  enumUnderlyingType : σ → σ
  typeArguments : σ → List σ
  getMembers : σ → List (MemberSymbol σ)
  getAttributes : σ → List AttributeData

namespace TypeCollectorForCompilation

open TypeCollector NeutralAttributeData

variable {σ : Type}

def getAllMembers (symbols : TypeSymbols σ) (type : σ) : List (MemberSymbol σ) :=
  (type :: symbols.baseTypes type).flatMap symbols.getMembers

def isAllowed (disallowInternal : Bool) : List Accessibility → Bool
  | [] => true
  | accessibility :: containing =>
    if accessibility = .publicAccess then isAllowed disallowInternal containing
    else if disallowInternal then false
    else if accessibility = .internalAccess then isAllowed disallowInternal containing
    else true

def isAllowAccessibility (symbols : TypeSymbols σ) (disallowInternal : Bool) (type : σ) : Bool :=
  isAllowed disallowInternal
    ((type :: symbols.containingTypes type).map symbols.declaredAccessibility)

def memberOfProperty (symbols : TypeSymbols σ) (item : PropertySymbol σ)
    (attributes : Option (List NeutralAttributeData)) : MemberSerializationInfo where
  isReadable := item.getMethod = some .publicAccess && !item.isStatic
  isWritable := item.setMethod = some .publicAccess && !item.isStatic
  isProperty := true
  isField := false
  name := item.name
  type := symbols.fullyQualified item.type
  shortTypeName := symbols.binaryWrite item.type
  attributes := attributes

def memberOfField (symbols : TypeSymbols σ) (item : FieldSymbol σ) : MemberSerializationInfo where
  isReadable := item.declaredAccessibility = .publicAccess && !item.isStatic
  isWritable := item.declaredAccessibility = .publicAccess && !item.isReadOnly && !item.isStatic
  isProperty := true
  isField := false
  name := item.name
  type := symbols.fullyQualified item.type
  shortTypeName := symbols.binaryWrite item.type
  attributes := none

/-- The attributes are those of the type of the property, as in the source. -/
def collectProperty (symbols : TypeSymbols σ) (call : CollectCall σ) (state : MemberState σ)
    (item : PropertySymbol σ) : Outcome Thrown (MemberState σ) :=
  if item.isIndexer then return state
  else do
    let attributes ← .ofExcept (fromAttributeDataArray (symbols.getAttributes item.type))
    collectMember call state (memberOfProperty symbols item (some attributes)) item.type

def collectField (symbols : TypeSymbols σ) (call : CollectCall σ) (state : MemberState σ)
    (item : FieldSymbol σ) : Outcome Thrown (MemberState σ) :=
  if item.isImplicitlyDeclared then return state
  else collectMember call state (memberOfField symbols item) item.type

def getObjectInfo (symbols : TypeSymbols σ) (call : CollectCall σ) (workspace : Workspace σ)
    (type : σ) : Outcome Thrown (Workspace σ × ObjectSerializationInfo) := do
  let properties ← ((getAllMembers symbols type).filterMap MemberSymbol.asProperty).foldlM
    (collectProperty symbols call) (workspace, [])
  let collected ← ((getAllMembers symbols type).filterMap MemberSymbol.asField).foldlM
    (collectField symbols call) properties
  let attributes ← .ofExcept (fromAttributeDataArray (symbols.getAttributes type))
  return (collected.1, {
    isClass := !symbols.isValueType type
    constructorParameters := none
    members := collected.2
    name := replaceInName (symbols.minimallyQualified type)
    fullName := symbols.fullyQualified type
    nameSpace := symbols.containingNamespace type
    attributes := some attributes })

def collectEnum (symbols : TypeSymbols σ) (workspace : Workspace σ) (type : σ) :
    Outcome Thrown (Workspace σ) := do
  let attributes ← .ofExcept (fromAttributeDataArray (symbols.getAttributes type))
  return { workspace with
    collectedEnumInfo := workspace.collectedEnumInfo ++ [{
      name := (symbols.shortTypeName type).replace "." "_"
      nameSpace := symbols.containingNamespace type
      fullName := symbols.fullyQualified type
      underlyingType := symbols.binaryWrite (symbols.enumUnderlyingType type)
      attributes := some attributes }] }

/-- `ConstructUnboundGenericType` refuses a type that is not generic. -/
def collectGeneric (symbols : TypeSymbols σ) (call : CollectCall σ) (workspace : Workspace σ)
    (type : σ) : Outcome Thrown (Workspace σ) :=
  if !symbols.isGenericType type then .error .invalidOperation
  else if isArraySegment (symbols.fullyQualified type) then return workspace
  else do
    let workspace ← (symbols.typeArguments type).foldlM
      (fun workspace item => call (workspace, item)) workspace
    let collected ← getObjectInfo symbols call workspace type
    return { collected.1 with
      collectedClosedTypeGenericInfo :=
        collected.1.collectedClosedTypeGenericInfo ++ [collected.2] }

def collectObject (symbols : TypeSymbols σ) (call : CollectCall σ) (workspace : Workspace σ)
    (type : σ) : Outcome Thrown (Workspace σ) := do
  let collected ← getObjectInfo symbols call workspace type
  return { collected.1 with
    collectedObjectInfo := collected.1.collectedObjectInfo ++ [collected.2] }

variable [DecidableEq σ]

def collectCoreBody (symbols : TypeSymbols σ) (disallowInternal : Bool) (call : CollectCall σ) :
    CollectCall σ :=
  fun (workspace, type) =>
    if type ∈ workspace.alreadyCollected then return workspace
    else
      let workspace := { workspace with alreadyCollected := type :: workspace.alreadyCollected }
      if !isAllowAccessibility symbols disallowInternal type then return workspace
      else if !symbols.isNamedType type then return workspace
      else if symbols.isEnum type then collectEnum symbols workspace type
      else if symbols.isGenericType type then collectGeneric symbols call workspace type
      else
        match symbols.tupleUnderlyingType type with
        | some underlying => collectGeneric symbols call workspace underlying
        | none =>
          match symbols.locations type with
          | [] => .error .indexOutOfRange
          | isInMetadata :: _ =>
            if isInMetadata then return workspace else collectObject symbols call workspace type

def collectCore (symbols : TypeSymbols σ) (disallowInternal : Bool) (depth : Nat) : CollectCall σ :=
  unroll (collectCoreBody symbols disallowInternal) depth

def targetTypes (symbols : TypeSymbols σ) (disallowInternal : Bool) (declared : List σ) : List σ :=
  declared.filter fun type =>
    symbols.declaredAccessibility type = .publicAccess ||
      !disallowInternal && symbols.declaredAccessibility type = .internalAccess

def collect (symbols : TypeSymbols σ) (disallowInternal : Bool) (comparer : Comparer)
    (declared : List σ) (depth : Nat) : Outcome Thrown TypeCollectorResult := do
  let workspace ← (targetTypes symbols disallowInternal declared).foldlM
    (fun workspace item => collectCore symbols disallowInternal depth (workspace, item))
    ⟨[], [], [], []⟩
  return workspace.toResult comparer

end TypeCollectorForCompilation

end Stad
