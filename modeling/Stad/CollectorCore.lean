import Stad.AnalyzerCore

/-!
Executable model of `TypeCollectorForAssembly`. A `TypeGraph` is what reflection
answers about the types, which may be infinitely many, and the workspace is
passed from call to call. The depth bounds how far `CollectCore` may call itself.
-/

namespace Stad

open Bounded

structure MethodInfo where
  isPublic : Bool
  deriving DecidableEq, Repr

/-- `overriddenAttributes` are those declared on the properties that this one overrides,
the nearest first. -/
structure PropertyInfo (τ : Type) where
  name : String
  propertyType : τ
  getMethod : Option MethodInfo
  setMethod : Option MethodInfo
  declaredAttributes : List CustomAttribute
  overriddenAttributes : List (List CustomAttribute)
  deriving DecidableEq, Repr

structure FieldInfo (τ : Type) where
  name : String
  fieldType : τ
  isPublic : Bool
  isStatic : Bool
  isInitOnly : Bool
  declaredAttributes : List CustomAttribute
  deriving DecidableEq, Repr

/-- An inherited attribute counts when its class is inherited, and a class that was seen
before counts again only when it allows multiple attributes. -/
def addInherited (state : List String × List CustomAttribute) (custom : CustomAttribute) :
    List String × List CustomAttribute :=
  if custom.classFullName ∈ state.1 then
    if custom.inherited && custom.allowMultiple then (state.1, state.2 ++ [custom]) else state
  else
    (custom.classFullName :: state.1, if custom.inherited then state.2 ++ [custom] else state.2)

def PropertyInfo.getCustomAttributes {τ : Type} (property : PropertyInfo τ) :
    List CustomAttribute :=
  (property.overriddenAttributes.flatten.foldl addInherited
    (property.declaredAttributes.map (·.classFullName), property.declaredAttributes)).2

structure TypeGraph (τ : Type) where
  name : τ → String
  nameSpace : τ → Option String
  fullName : τ → Option String
  isEnum : τ → Bool
  isGenericType : τ → Bool
  isValueType : τ → Bool
  enumUnderlyingType : τ → Except Thrown τ
  genericTypeArguments : τ → List τ
  getProperties : τ → List (PropertyInfo τ)
  getFields : τ → List (FieldInfo τ)
  getCustomAttributes : τ → List CustomAttribute
  genericName : ∀ type, isGenericType type = true →
    ∀ name, fullName type = some name → contains name "`" = true

/-- The order of `OrderBy` on names. -/
structure Comparer where
  le : Option String → Option String → Bool
  trans : ∀ first second third, le first second → le second third → le first third
  total : ∀ first second, (le first second || le second first) = true

def Comparer.orderBy (comparer : Comparer) {α : Type} (key : α → Option String)
    (infos : List α) : List α :=
  infos.mergeSort fun first second => comparer.le (key first) (key second)

/-! The parts that both collectors have, word for word. -/

namespace TypeCollector

def replaceChar (letter : Char) : Char :=
  if letter = '.' ∨ letter = '<' ∨ letter = '>' then '_' else letter

/-- `\[([,])*\]` becomes `Array` and the rank. The number counts commas after a bracket
that may still close. -/
def replaceRanks : Option Nat → List Char → List Char
  | none, [] => []
  | some commas, [] => '[' :: List.replicate commas ','
  | none, letter :: rest =>
    if letter = '[' then replaceRanks (some 0) rest else letter :: replaceRanks none rest
  | some commas, letter :: rest =>
    if letter = ',' then replaceRanks (some (commas + 1)) rest
    else if letter = ']' then
      "Array".toList ++ (toString (commas + 1)).toList ++ replaceRanks none rest
    else if letter = '[' then '[' :: List.replicate commas ',' ++ replaceRanks (some 0) rest
    else '[' :: List.replicate commas ',' ++ letter :: replaceRanks none rest

def replaceInName (name : String) : String :=
  String.ofList (replaceRanks none (name.toList.map replaceChar))

def isArraySegment (fullName : Option String) : Bool :=
  fullName = some "global::System.ArraySegment<byte>" ||
    fullName = some "global::System.ArraySegment<byte>?"

structure Workspace (τ : Type) where
  alreadyCollected : List τ
  collectedObjectInfo : List ObjectSerializationInfo
  collectedEnumInfo : List EnumSerializationInfo
  collectedClosedTypeGenericInfo : List ObjectSerializationInfo
  deriving DecidableEq, Repr

variable {τ : Type}

def Workspace.toResult (workspace : Workspace τ) (comparer : Comparer) : TypeCollectorResult where
  collectedObjectInfo := comparer.orderBy (·.fullName) workspace.collectedObjectInfo
  collectedEnumInfo := comparer.orderBy (·.fullName) workspace.collectedEnumInfo
  collectedClosedTypeGenericInfo :=
    comparer.orderBy (·.fullName) workspace.collectedClosedTypeGenericInfo

abbrev CollectCall (τ : Type) := Workspace τ × τ → Outcome Thrown (Workspace τ)

abbrev MemberState (τ : Type) := Workspace τ × List MemberSerializationInfo

def collectMember (call : CollectCall τ) (state : MemberState τ) (member : MemberSerializationInfo)
    (memberType : τ) : Outcome Thrown (MemberState τ) :=
  if !member.isReadable && !member.isWritable then return state
  else do
    let workspace ← call (state.1, memberType)
    return (workspace, state.2 ++ [member])

end TypeCollector

namespace TypeCollectorForAssembly

open TypeCollector

def getMinimallyQualifiedClassName (fullName : Option String) : String :=
  match fullName with
  | none => ""
  | some name => replaceInName name

section Collect

variable {τ : Type}

/-- `GetCustomAttributes` creates the attributes, also those of overridden properties that
it then leaves out, and `FromCustomAttributeArray` reads the others. -/
def readAttributes (created shown : List CustomAttribute) :
    Except Thrown (List NeutralAttributeData) := do
  created.forM (·.created)
  NeutralAttributeData.fromCustomAttributeArray shown

def propertyAttributes (item : PropertyInfo τ) : Except Thrown (List NeutralAttributeData) :=
  readAttributes (item.declaredAttributes ++ item.overriddenAttributes.flatten)
    item.getCustomAttributes

def typeAttributes (graph : TypeGraph τ) (type : τ) : Except Thrown (List NeutralAttributeData) :=
  readAttributes (graph.getCustomAttributes type) (graph.getCustomAttributes type)

def memberOfProperty (graph : TypeGraph τ) (item : PropertyInfo τ)
    (attributes : Option (List NeutralAttributeData)) : MemberSerializationInfo where
  isReadable := item.getMethod.any (·.isPublic)
  isWritable := item.setMethod.any (·.isPublic)
  isProperty := true
  isField := false
  name := item.name
  type := graph.fullName item.propertyType
  shortTypeName := graph.name item.propertyType
  attributes := attributes

/-- The source sets no `Attributes` here, which leaves the default array. -/
def memberOfField (graph : TypeGraph τ) (item : FieldInfo τ) : MemberSerializationInfo where
  isReadable := item.isPublic && !item.isStatic
  isWritable := item.isPublic && !item.isInitOnly && !item.isStatic
  isProperty := true
  isField := false
  name := item.name
  type := graph.fullName item.fieldType
  shortTypeName := graph.name item.fieldType
  attributes := none

def collectProperty (graph : TypeGraph τ) (call : CollectCall τ) (state : MemberState τ)
    (item : PropertyInfo τ) : Outcome Thrown (MemberState τ) := do
  let attributes ← .ofExcept (propertyAttributes item)
  collectMember call state (memberOfProperty graph item (some attributes)) item.propertyType

def collectField (graph : TypeGraph τ) (call : CollectCall τ) (state : MemberState τ)
    (item : FieldInfo τ) : Outcome Thrown (MemberState τ) :=
  collectMember call state (memberOfField graph item) item.fieldType

def getObjectInfo (graph : TypeGraph τ) (call : CollectCall τ) (workspace : Workspace τ)
    (type : τ) : Outcome Thrown (Workspace τ × ObjectSerializationInfo) := do
  let properties ← (graph.getProperties type).foldlM (collectProperty graph call) (workspace, [])
  let collected ← (graph.getFields type).foldlM (collectField graph call) properties
  let attributes ← .ofExcept (typeAttributes graph type)
  return (collected.1, {
    isClass := !graph.isValueType type
    constructorParameters := none
    members := collected.2
    name := getMinimallyQualifiedClassName (graph.fullName type)
    fullName := graph.fullName type
    nameSpace := graph.nameSpace type
    attributes := some attributes })

def collectEnum (graph : TypeGraph τ) (workspace : Workspace τ) (type : τ) :
    Outcome Thrown (Workspace τ) := do
  let underlyingType ← .ofExcept (graph.enumUnderlyingType type)
  let attributes ← .ofExcept (typeAttributes graph type)
  return { workspace with
    collectedEnumInfo := workspace.collectedEnumInfo ++ [{
      name := graph.name type
      nameSpace := graph.nameSpace type
      fullName := graph.fullName type
      underlyingType := graph.fullName underlyingType
      attributes := some attributes }] }

def collectGeneric (graph : TypeGraph τ) (call : CollectCall τ) (workspace : Workspace τ)
    (type : τ) : Outcome Thrown (Workspace τ) :=
  if isArraySegment (graph.fullName type) then return workspace
  else do
    let workspace ← (graph.genericTypeArguments type).foldlM
      (fun workspace item => call (workspace, item)) workspace
    let collected ← getObjectInfo graph call workspace type
    return { collected.1 with
      collectedClosedTypeGenericInfo :=
        collected.1.collectedClosedTypeGenericInfo ++ [collected.2] }

def collectObject (graph : TypeGraph τ) (call : CollectCall τ) (workspace : Workspace τ)
    (type : τ) : Outcome Thrown (Workspace τ) := do
  let collected ← getObjectInfo graph call workspace type
  return { collected.1 with
    collectedObjectInfo := collected.1.collectedObjectInfo ++ [collected.2] }

variable [DecidableEq τ]

def collectCoreBody (graph : TypeGraph τ) (call : CollectCall τ) : CollectCall τ :=
  fun (workspace, type) =>
    if type ∈ workspace.alreadyCollected then return workspace
    else
      let workspace := { workspace with alreadyCollected := type :: workspace.alreadyCollected }
      if graph.isEnum type then collectEnum graph workspace type
      else if graph.isGenericType type then collectGeneric graph call workspace type
      else collectObject graph call workspace type

def collectCore (graph : TypeGraph τ) (depth : Nat) : CollectCall τ :=
  unroll (collectCoreBody graph) depth

def collect (graph : TypeGraph τ) (comparer : Comparer) (targetTypes : List τ) (depth : Nat) :
    Outcome Thrown TypeCollectorResult := do
  let workspace ← targetTypes.foldlM (fun workspace item => collectCore graph depth (workspace, item))
    ⟨[], [], [], []⟩
  return workspace.toResult comparer

end Collect

end TypeCollectorForAssembly

end Stad
