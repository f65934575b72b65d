import Stad.AnalyzerLinks
import Stad.Transcription

/-!
`CreateFrom`, which rebuilds a registry from the message that lists it. It makes a
new model for each one listed, and links none.
-/

namespace Stad

open Bounded Bounded.Outcome PairedLists

structure StadAnnotationProto where
  json : String
  deriving DecidableEq, Repr

structure AnnotationInfoProto where
  annotations : List StadAnnotationProto
  deriving DecidableEq, Repr

structure MemberDefinitionProto where
  type : String
  name : String
  kind : MemberKind
  annotationInfo : Option AnnotationInfoProto
  deriving DecidableEq, Repr

structure StadModelProto where
  type : String
  typeCode : BitVec 32
  annotationinfo : Option AnnotationInfoProto
  members : List MemberDefinitionProto
  deriving DecidableEq, Repr

structure DataSetProto where
  name : String
  listModels : List StadModelProto
  singleModels : List StadModelProto
  deriving DecidableEq, Repr

structure RegistryProto where
  dataSets : List DataSetProto
  deriving DecidableEq, Repr

/-- The source leaves it out. -/
def AnnotationInfo.createFrom (_ : Option AnnotationInfoProto) : AnnotationInfo := ⟨none⟩

def MemberDefinition.createFrom (proto : MemberDefinitionProto) : MemberDefinition :=
  ⟨some proto.type, proto.name, proto.kind, AnnotationInfo.createFrom proto.annotationInfo, none⟩

def StadModel.createFrom (proto : StadModelProto) : StadModel :=
  ⟨proto.type, Utility.toTypeCode (Utility.utf16 proto.type),
    AnnotationInfo.createFrom proto.annotationinfo, proto.members.map MemberDefinition.createFrom⟩

def DataSetModel.createFrom (models : List StadModel) (proto : DataSetProto) :
    List StadModel × DataSetModel :=
  let listed := models ++ proto.listModels.map StadModel.createFrom
  (listed ++ proto.singleModels.map StadModel.createFrom,
    ⟨some proto.name, List.range' models.length proto.listModels.length,
      List.range' listed.length proto.singleModels.length⟩)

def StadRegistry.createFromRound (registry : StadRegistry) (proto : DataSetProto) : StadRegistry :=
  let made := DataSetModel.createFrom registry.models proto
  ⟨made.1, registry.dataSets ++ [made.2]⟩

def StadRegistry.createFrom (proto : RegistryProto) : StadRegistry :=
  proto.dataSets.foldl createFromRound ⟨[], []⟩

/-- A message that lists a registry field by field. -/
structure ListsMember (definition : MemberDefinition) (proto : MemberDefinitionProto) : Prop where
  type : definition.type = some proto.type
  name : definition.name = proto.name
  kind : definition.kind = proto.kind

structure ListsModel (model : StadModel) (proto : StadModelProto) : Prop where
  type : model.type = proto.type
  typeCode : model.typeCode = proto.typeCode
  members : List.Forall₂ ListsMember model.members proto.members

def ListsModelAt (models : List StadModel) (ref : Nat) (proto : StadModelProto) : Prop :=
  ∃ model, models[ref]? = some model ∧ ListsModel model proto

structure ListsDataSet (models : List StadModel) (dataSet : DataSetModel) (proto : DataSetProto) :
    Prop where
  name : dataSet.name = some proto.name
  listModels : List.Forall₂ (ListsModelAt models) dataSet.listModels proto.listModels
  singleModels : List.Forall₂ (ListsModelAt models) dataSet.singleModels proto.singleModels

def Lists (registry : StadRegistry) (proto : RegistryProto) : Prop :=
  List.Forall₂ (ListsDataSet registry.models) registry.dataSets proto.dataSets

/-- The same data sets, models, type codes and members in the same order. -/
structure SameMember (definition definition' : MemberDefinition) : Prop where
  type : definition.type = definition'.type
  name : definition.name = definition'.name
  kind : definition.kind = definition'.kind

structure SameModel (model model' : StadModel) : Prop where
  type : model.type = model'.type
  typeCode : model.typeCode = model'.typeCode
  members : List.Forall₂ SameMember model.members model'.members

def SameModelAt (models models' : List StadModel) (ref ref' : Nat) : Prop :=
  ∃ model model', models[ref]? = some model ∧ models'[ref']? = some model' ∧ SameModel model model'

structure SameDataSet (models models' : List StadModel) (dataSet dataSet' : DataSetModel) :
    Prop where
  name : dataSet.name = dataSet'.name
  listModels : List.Forall₂ (SameModelAt models models') dataSet.listModels dataSet'.listModels
  singleModels :
    List.Forall₂ (SameModelAt models models') dataSet.singleModels dataSet'.singleModels

def SameListing (registry registry' : StadRegistry) : Prop :=
  List.Forall₂ (SameDataSet registry.models registry'.models) registry.dataSets registry'.dataSets

def DataSetProto.models (proto : DataSetProto) : List StadModelProto :=
  proto.listModels ++ proto.singleModels

def RegistryProto.models (proto : RegistryProto) : List StadModelProto :=
  proto.dataSets.flatMap DataSetProto.models

/-- The members whose type is that of a listed model have their link to such a model. -/
def LinksSet (proto : RegistryProto) (registry : StadRegistry) : Prop :=
  ∀ model ∈ registry.models, ∀ definition ∈ model.members, ∀ listed ∈ proto.models,
    definition.type = some listed.type → ∃ target other, definition.model = some target ∧
      registry.models[target]? = some other ∧ other.type = listed.type

def NoLinkNeeded (proto : RegistryProto) : Prop :=
  ∀ model ∈ proto.models, ∀ member ∈ model.members, ∀ listed ∈ proto.models,
    member.type ≠ listed.type

def CreatedAt (models : List StadModel) (ref : Nat) (proto : StadModelProto) : Prop :=
  models[ref]? = some (StadModel.createFrom proto)

structure Created (models : List StadModel) (dataSet : DataSetModel) (proto : DataSetProto) :
    Prop where
  name : dataSet.name = some proto.name
  listModels : List.Forall₂ (CreatedAt models) dataSet.listModels proto.listModels
  singleModels : List.Forall₂ (CreatedAt models) dataSet.singleModels proto.singleModels

theorem CreatedAt.grow {models : List StadModel} (added : List StadModel) {ref : Nat}
    {proto : StadModelProto} (created : CreatedAt models ref proto) :
    CreatedAt (models ++ added) ref proto := by
  obtain ⟨bound, _⟩ := List.getElem?_eq_some_iff.mp created
  rw [CreatedAt, List.getElem?_append_left bound]
  exact created

theorem Created.grow {models : List StadModel} (added : List StadModel) {dataSet : DataSetModel}
    {proto : DataSetProto} (created : Created models dataSet proto) :
    Created (models ++ added) dataSet proto :=
  ⟨created.name, created.listModels.imp fun _ _ made => made.grow added,
    created.singleModels.imp fun _ _ made => made.grow added⟩

theorem createdAt_range (models : List StadModel) (protos : List StadModelProto) :
    List.Forall₂ (CreatedAt (models ++ protos.map StadModel.createFrom))
      (List.range' models.length protos.length) protos := by
  induction protos generalizing models with
  | nil => exact List.Forall₂.nil
  | cons proto rest ih =>
      rw [List.length_cons, List.range'_succ, List.map_cons]
      refine List.Forall₂.cons ?_ ?_
      · simp [CreatedAt]
      · have later := ih (models ++ [StadModel.createFrom proto])
        rw [List.length_append, List.length_singleton, List.append_assoc] at later
        exact later

theorem dataSet_created (models : List StadModel) (proto : DataSetProto) :
    Created (DataSetModel.createFrom models proto).1 (DataSetModel.createFrom models proto).2
      proto := by
  refine ⟨rfl, ?_, ?_⟩
  · exact (createdAt_range models proto.listModels).imp fun _ _ made => made.grow _
  · exact createdAt_range _ proto.singleModels

theorem createFrom_created (protos done : List DataSetProto) (registry : StadRegistry)
    (before : List.Forall₂ (Created registry.models) registry.dataSets done) :
    List.Forall₂ (Created (protos.foldl StadRegistry.createFromRound registry).models)
      (protos.foldl StadRegistry.createFromRound registry).dataSets (done ++ protos) := by
  induction protos generalizing done registry with
  | nil => simpa using before
  | cons proto rest ih =>
      rw [List.foldl_cons, List.append_cons]
      refine ih _ _ (List.rel_append (before.imp fun _ _ created => ?_)
        (List.Forall₂.cons (dataSet_created registry.models proto) List.Forall₂.nil))
      rw [StadRegistry.createFromRound, DataSetModel.createFrom, List.append_assoc]
      exact created.grow _

theorem createFrom_models (protos : List DataSetProto) (registry : StadRegistry) :
    (protos.foldl StadRegistry.createFromRound registry).models =
      registry.models ++ (protos.flatMap DataSetProto.models).map StadModel.createFrom := by
  induction protos generalizing registry with
  | nil => simp
  | cons proto rest ih =>
      rw [List.foldl_cons, ih]
      simp [StadRegistry.createFromRound, DataSetModel.createFrom, DataSetProto.models]

theorem ListsModel.same {model : StadModel} {proto : StadModelProto}
    (lists : ListsModel model proto)
    (code : model.typeCode = Utility.toTypeCode (Utility.utf16 model.type)) :
    SameModel model (StadModel.createFrom proto) := by
  refine ⟨lists.type, ?_, ?_⟩
  · rw [code, lists.type]
    rfl
  · rw [StadModel.createFrom, List.forall₂_map_right_iff]
    exact lists.members.imp fun _ _ member => ⟨member.type, member.name, member.kind⟩

section Registry

variable {result : TypeCollectorResult} {depth : Nat} {registry : StadRegistry}
  {proto : RegistryProto}

theorem sameModels (returned : StadAnalyzer.makeRegistry result depth = value registry)
    {models : List StadModel} {refs refs' : List Nat} {protos : List StadModelProto}
    (lists : List.Forall₂ (ListsModelAt registry.models) refs protos)
    (created : List.Forall₂ (CreatedAt models) refs' protos) :
    List.Forall₂ (SameModelAt registry.models models) refs refs' := by
  refine (forall₂_join lists created).imp ?_
  rintro ref ref' ⟨proto, ⟨model, placed, listed⟩, placed'⟩
  obtain ⟨_, _, code, _⟩ :=
    StadAnalyzer.makeRegistry_transcribed returned model (List.mem_of_getElem? placed)
  exact ⟨model, _, placed, placed', listed.same code⟩

theorem createFrom_sameListing (returned : StadAnalyzer.makeRegistry result depth = value registry)
    (lists : Lists registry proto) : SameListing registry (StadRegistry.createFrom proto) := by
  have created := createFrom_created proto.dataSets [] ⟨[], []⟩ List.Forall₂.nil
  rw [List.nil_append] at created
  refine (forall₂_join lists created).imp ?_
  rintro dataSet dataSet' ⟨proto, listed, made⟩
  exact ⟨listed.name.trans made.name.symm, sameModels returned listed.listModels made.listModels,
    sameModels returned listed.singleModels made.singleModels⟩

theorem Lists.model (lists : Lists registry proto) :
    ∀ listed ∈ proto.models, ∃ model ∈ registry.models, model.type = listed.type := by
  intro listed inProto
  obtain ⟨dataSetProto, inDataSets, inModels⟩ := List.mem_flatMap.mp inProto
  obtain ⟨dataSet, _, lists⟩ := forall₂_right lists dataSetProto inDataSets
  have listing := List.rel_append lists.listModels lists.singleModels
  obtain ⟨ref, _, model, placed, same⟩ := forall₂_right listing listed inModels
  exact ⟨model, List.mem_of_getElem? placed, same.type⟩

theorem makeRegistry_linksSet (returned : StadAnalyzer.makeRegistry result depth = value registry)
    (lists : Lists registry proto) : LinksSet proto registry := by
  obtain ⟨_, linked⟩ := StadAnalyzer.makeRegistry_coherent returned
  intro model inModels definition member listed inProto type
  obtain ⟨other, otherListed, named⟩ := lists.model listed inProto
  have present : StadAnalyzer.hasModel registry.models definition.type = true :=
    StadAnalyzer.hasModel_iff.mpr ⟨other, otherListed, by rw [named, type]⟩
  rw [linked model inModels definition member]
  cases found : StadAnalyzer.findModel registry.models definition.type with
  | none => simp [StadAnalyzer.findModel_none_iff.mp found] at present
  | some target =>
      obtain ⟨last, placed, lastType⟩ := StadAnalyzer.findModel_some found
      exact ⟨target, last, rfl, placed, Option.some.inj (lastType.trans type)⟩

theorem createFrom_linksSet_iff :
    LinksSet proto (StadRegistry.createFrom proto) ↔ NoLinkNeeded proto := by
  have models : (StadRegistry.createFrom proto).models =
      proto.models.map StadModel.createFrom := by
    rw [StadRegistry.createFrom, createFrom_models, List.nil_append, RegistryProto.models]
  constructor
  · intro set model inProto member listed other otherListed same
    obtain ⟨target, _, link, _⟩ := set (StadModel.createFrom model)
      (by rw [models]; exact List.mem_map_of_mem inProto) (MemberDefinition.createFrom member)
      (List.mem_map_of_mem listed) other otherListed (congrArg some same)
    cases link
  · intro none model inModels definition member listed inProto type
    rw [models] at inModels
    obtain ⟨source, inSources, made⟩ := List.mem_map.mp inModels
    rw [← made] at member
    obtain ⟨memberProto, inMembers, madeMember⟩ := List.mem_map.mp member
    rw [← madeMember] at type
    exact absurd (Option.some.inj type) (none source inSources memberProto inMembers listed inProto)

/-- What `CreateFrom` makes of a listed registry has the same data sets, models and
members, and the links of the registry exactly when there are none to set. -/
theorem createFrom_agrees_iff (returned : StadAnalyzer.makeRegistry result depth = value registry)
    (lists : Lists registry proto) :
    SameListing registry (StadRegistry.createFrom proto) ∧ LinksSet proto registry ∧
      (LinksSet proto (StadRegistry.createFrom proto) ↔ NoLinkNeeded proto) :=
  ⟨createFrom_sameListing returned lists, makeRegistry_linksSet returned lists,
    createFrom_linksSet_iff⟩

end Registry

open StadAnalyzer

def int32Proto : StadModelProto :=
  ⟨"System.Int32", Utility.toTypeCode (Utility.utf16 "System.Int32"), none, []⟩

def leafProto : StadModelProto :=
  ⟨"Sample.Leaf", Utility.toTypeCode (Utility.utf16 "Sample.Leaf"), none,
    [⟨"System.Int32", "Value", .property, none⟩]⟩

def treeProto (singleModels : List StadModelProto) : RegistryProto :=
  ⟨[⟨"Sample.Tree", [], singleModels⟩]⟩

theorem leafProto_lists : ListsModel leafModel leafProto :=
  ⟨rfl, rfl, .cons ⟨rfl, rfl, rfl⟩ .nil⟩

theorem oneLeaf_lists : Lists oneLeafRegistry (treeProto [leafProto]) :=
  .cons ⟨rfl, .nil, .cons ⟨leafModel, rfl, leafProto_lists⟩ .nil⟩ .nil

theorem oneLeaf_agrees :
    SameListing oneLeafRegistry (StadRegistry.createFrom (treeProto [leafProto])) ∧
      LinksSet (treeProto [leafProto]) oneLeafRegistry ∧
      LinksSet (treeProto [leafProto]) (StadRegistry.createFrom (treeProto [leafProto])) := by
  obtain ⟨sameListing, set, created⟩ := createFrom_agrees_iff oneLeaf_returned oneLeaf_lists
  refine ⟨sameListing, set, created.mpr ?_⟩
  intro model inProto member listed other otherListed
  rw [List.mem_singleton.mp inProto] at listed
  rw [List.mem_singleton.mp listed, List.mem_singleton.mp otherListed]
  decide

def leafAndCount : TypeCollectorResult :=
  ⟨[leafInfo, treeInfo [⟨true, false, true, true, some "System.Int32", "Count", "Int32", none⟩,
    leafMember "Left"], int32Info], [], []⟩

def leafAndCountRegistry : StadRegistry :=
  ⟨[int32Model, leafModel], [⟨some "Sample.Tree", [], [0, 1]⟩]⟩

theorem leafAndCount_unlinked :
    makeRegistry leafAndCount 2 = value leafAndCountRegistry ∧
      Lists leafAndCountRegistry (treeProto [int32Proto, leafProto]) ∧
      ¬LinksSet (treeProto [int32Proto, leafProto])
        (StadRegistry.createFrom (treeProto [int32Proto, leafProto])) := by
  refine ⟨by rfl, ?_, ?_⟩
  · exact .cons ⟨rfl, .nil, .cons ⟨int32Model, rfl, rfl, rfl, .nil⟩
      (.cons ⟨leafModel, rfl, leafProto_lists⟩ .nil)⟩ .nil
  · rw [createFrom_linksSet_iff]
    intro none
    exact none leafProto (by simp [RegistryProto.models, DataSetProto.models, treeProto]) _
      (List.mem_singleton_self _) int32Proto
      (by simp [RegistryProto.models, DataSetProto.models, treeProto]) rfl

end Stad
