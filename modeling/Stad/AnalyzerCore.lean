import Stad.AnnotationCore
import Stad.Bounded

/-!
Executable model of `StadAnalyzer`. Every `StadModel` is put into
`AnalyzeContext.AllModels` as soon as it is constructed, so a reference to a
model is its position in that list, and the list is passed from call to call.
The depth bounds how far `MakeStadModel` may call itself. In `Utility.ToTypeCode` C#'s
`int` is a 32-bit vector, its `>>` the signed shift, and a string its UTF-16 units.
-/

namespace Stad

open Bounded

namespace Utility

def codeUnits (char : Char) : List (BitVec 16) :=
  let scalar := char.toNat
  if scalar < 0x10000 then [BitVec.ofNat 16 scalar]
  else
    let offset := scalar - 0x10000
    [BitVec.ofNat 16 (0xD800 + offset / 0x400), BitVec.ofNat 16 (0xDC00 + offset % 0x400)]

def utf16 (value : String) : List (BitVec 16) := value.toList.flatMap codeUnits

def mixUnit (hash : BitVec 32) (unit : BitVec 16) : BitVec 32 :=
  let added := hash + unit.zeroExtend 32
  let spread := added + added <<< 10
  spread ^^^ spread.sshiftRight 6

def scramble (hash : BitVec 32) : BitVec 32 :=
  let spread := hash + hash <<< 3
  let folded := spread ^^^ spread.sshiftRight 11
  folded + folded <<< 15

def toTypeCode (value : List (BitVec 16)) : BitVec 32 := scramble (value.foldl mixUnit 0)

end Utility

structure MemberSerializationInfo where
  isProperty : Bool
  isField : Bool
  isWritable : Bool
  isReadable : Bool
  type : Option String
  name : String
  shortTypeName : String
  attributes : Option (List NeutralAttributeData)
  deriving DecidableEq, Repr

structure ObjectSerializationInfo where
  name : String
  fullName : Option String
  nameSpace : Option String
  isClass : Bool
  constructorParameters : Option (List MemberSerializationInfo)
  members : List MemberSerializationInfo
  attributes : Option (List NeutralAttributeData)
  deriving DecidableEq, Repr

structure EnumSerializationInfo where
  nameSpace : Option String
  name : String
  fullName : Option String
  underlyingType : Option String
  attributes : Option (List NeutralAttributeData)
  deriving DecidableEq, Repr

structure TypeCollectorResult where
  collectedObjectInfo : List ObjectSerializationInfo
  collectedEnumInfo : List EnumSerializationInfo
  collectedClosedTypeGenericInfo : List ObjectSerializationInfo
  deriving DecidableEq, Repr

inductive MemberKind where
  | undefined
  | field
  | property
  deriving DecidableEq, Repr

structure MemberDefinition where
  type : Option String
  name : String
  kind : MemberKind
  annotationInfo : AnnotationInfo
  model : Option Nat
  deriving DecidableEq, Repr

structure StadModel where
  type : String
  typeCode : BitVec 32
  annotationInfo : AnnotationInfo
  members : List MemberDefinition
  deriving DecidableEq, Repr

structure DataSetModel where
  name : Option String
  listModels : List Nat
  singleModels : List Nat
  deriving DecidableEq, Repr

/-- A registry together with the models that its references mean. -/
structure StadRegistry where
  models : List StadModel
  dataSets : List DataSetModel
  deriving DecidableEq, Repr

def MemberDefinition.setModel (definition : MemberDefinition) (model : Option Nat) :
    MemberDefinition :=
  { definition with model }

/-- `ToTypeCode` reads the length of the name, which a null name does not have. -/
def StadModel.create (type : Option String) (annotationInfo : AnnotationInfo)
    (members : List MemberDefinition) : Except Thrown StadModel :=
  match type with
  | none => .error .nullReference
  | some type => .ok ⟨type, Utility.toTypeCode (Utility.utf16 type), annotationInfo, members⟩

namespace StadAnalyzer

def getObjectInfo (collectorResult : TypeCollectorResult) (type : Option String) :
    Option ObjectSerializationInfo :=
  match collectorResult.collectedObjectInfo.find? (·.fullName = type) with
  | some memberObjectInfo => some memberObjectInfo
  | none => collectorResult.collectedClosedTypeGenericInfo.find? (·.fullName = type)

def firstContaining (part : String) :
    List NeutralAttributeData → Except Thrown (Option NeutralAttributeData)
  | [] => .ok none
  | data :: rest =>
    match data.type with
    | none => .error .nullReference
    | some type => if contains type part then .ok (some data) else firstContaining part rest

/-- `attributes.FirstOrDefault(a => a.Type.Contains(part)) != null`. -/
def anyContaining (attributes : Option (List NeutralAttributeData)) (part : String) :
    Except Thrown Bool :=
  match attributes with
  | none => .error .nullReference
  | some attributes => do return (← firstContaining part attributes).isSome

def hasModel (allModels : List StadModel) (type : Option String) : Bool :=
  allModels.any fun model => some model.type = type

def findModel (allModels : List StadModel) (type : Option String) : Option Nat :=
  allModels.findIdx? fun model => some model.type = type

abbrev MakeCall := List StadModel × ObjectSerializationInfo →
  Outcome Thrown (List StadModel × Nat)

def makeMember (result : TypeCollectorResult) (call : MakeCall)
    (state : List StadModel × List MemberDefinition) (eachMember : MemberSerializationInfo) :
    Outcome Thrown (List StadModel × List MemberDefinition) := do
  let annotationInfo ← .ofExcept (makeAnnotationInfo eachMember.attributes)
  let memberDefinition : MemberDefinition :=
    ⟨eachMember.type, eachMember.name, if eachMember.isField then .field else .property,
      annotationInfo, none⟩
  let memberDefinitions := state.2 ++ [memberDefinition]
  if hasModel state.1 eachMember.type then return (state.1, memberDefinitions)
  else
    match getObjectInfo result memberDefinition.type with
    | none => return (state.1, memberDefinitions)
    | some memberObjectInfo =>
      let made ← call (state.1, memberObjectInfo)
      return (made.1, memberDefinitions)

def makeStadModelBody (result : TypeCollectorResult) (call : MakeCall) : MakeCall :=
  fun (allModels, objectInfo) => do
    let expanded ← objectInfo.members.foldlM (makeMember result call) (allModels, [])
    let annotationInfo ← .ofExcept (makeAnnotationInfo objectInfo.attributes)
    let model ← .ofExcept (StadModel.create objectInfo.fullName annotationInfo expanded.2)
    return (expanded.1 ++ [model], expanded.1.length)

def makeStadModel (result : TypeCollectorResult) (depth : Nat) : MakeCall :=
  unroll (makeStadModelBody result) depth

structure DataSetState where
  allModels : List StadModel
  listModels : List Nat
  singleModels : List Nat
  deriving DecidableEq, Repr

def makeDataSetMember (result : TypeCollectorResult) (depth : Nat) (state : DataSetState)
    (member : MemberSerializationInfo) : Outcome Thrown DataSetState :=
  match getObjectInfo result member.type with
  | none => .error (.exception ("Member not found, " ++ member.type.getD ""))
  | some memberObjectInfo => do
    let ignored ← .ofExcept (anyContaining memberObjectInfo.attributes "IgnoreMemberAttribute")
    if ignored then return state
    else
      let made ← makeStadModel result depth (state.allModels, memberObjectInfo)
      if made.1[made.2]?.any fun memberModel => contains memberModel.type "StadKeyValueCollection"
      then return { state with allModels := made.1, listModels := state.listModels ++ [made.2] }
      else return { state with allModels := made.1, singleModels := state.singleModels ++ [made.2] }

def linkModels (allModels : List StadModel) : List StadModel :=
  allModels.map fun model =>
    { model with members := model.members.map fun memberDefinition =>
        memberDefinition.setModel (findModel allModels memberDefinition.type) }

def makeDataSetModel (result : TypeCollectorResult) (depth : Nat) (allModels : List StadModel)
    (info : ObjectSerializationInfo) : Outcome Thrown (List StadModel × DataSetModel) := do
  let state ← info.members.foldlM (makeDataSetMember result depth) ⟨allModels, [], []⟩
  return (linkModels state.allModels, ⟨info.fullName, state.listModels, state.singleModels⟩)

def isDataSet (info : ObjectSerializationInfo) : Except Thrown Bool :=
  if isDefaultOrEmpty info.attributes then .ok false
  else anyContaining info.attributes "DataSetDefinition"

def makeRegistryRound (result : TypeCollectorResult) (depth : Nat) (state : StadRegistry)
    (info : ObjectSerializationInfo) : Outcome Thrown StadRegistry := do
  let defined ← .ofExcept (isDataSet info)
  if defined then
    let made ← makeDataSetModel result depth state.models info
    return ⟨made.1, state.dataSets ++ [made.2]⟩
  else return state

def makeRegistry (result : TypeCollectorResult) (depth : Nat) : Outcome Thrown StadRegistry :=
  result.collectedObjectInfo.foldlM (makeRegistryRound result depth) ⟨[], []⟩

def MakeRegistryEnds (result : TypeCollectorResult) : Prop :=
  ∃ depth, makeRegistry result depth ≠ .exhausted

end StadAnalyzer

end Stad
