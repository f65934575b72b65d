import Stad.TaggedMessages

/-!
The messages that describe a registry, with the fields that their writers and
readers know and those they only hand on.
-/

namespace Stad.StadProtoModel

open PrefixCodes TaggedMessages

structure StadAnnotationProto (υ : Type) where
  json : String
  unknownFields : υ
  deriving DecidableEq, Repr

structure AnnotationInfoProto (υ : Type) where
  annotations : List (StadAnnotationProto υ)
  unknownFields : υ
  deriving DecidableEq, Repr

/-- The kind is an open enumeration: a reader keeps a number that has no name. -/
structure MemberDefinitionProto (υ : Type) where
  type : String
  name : String
  kind : BitVec 32
  annotationInfo : Option (AnnotationInfoProto υ)
  unknownFields : υ
  deriving DecidableEq, Repr

structure StadModelProto (υ : Type) where
  type : String
  typeCode : BitVec 32
  annotationinfo : Option (AnnotationInfoProto υ)
  members : List (MemberDefinitionProto υ)
  unknownFields : υ
  deriving DecidableEq, Repr

structure DataSetProto (υ : Type) where
  name : String
  listModels : List (StadModelProto υ)
  singleModels : List (StadModelProto υ)
  unknownFields : υ
  deriving DecidableEq, Repr

structure RegistryProto (υ : Type) where
  dataSets : List (DataSetProto υ)
  unknownFields : υ
  deriving DecidableEq, Repr

variable {β υ : Type} (runtime : Runtime β υ)

namespace StadAnnotationProto

def writeTo (message : StadAnnotationProto υ) : List β :=
  writeScalar runtime runtime.string "" 10 message.json ++
    writeUnknown runtime message.unknownFields

def calculateSize (message : StadAnnotationProto υ) : Nat :=
  scalarSize runtime.string "" message.json + unknownSize runtime message.unknownFields

def mergeFrom (message other : StadAnnotationProto υ) : StadAnnotationProto υ :=
  ⟨mergeScalar "" message.json other.json,
    mergeUnknown runtime message.unknownFields other.unknownFields⟩

def mergeField (tag : Nat) (message : StadAnnotationProto υ) :
    List β → Option (StadAnnotationProto υ × List β) :=
  match tag with
  | 10 => readMap runtime.string.read fun json => { message with json }
  | _ => readMap (readUnknown runtime tag message.unknownFields) fun unknownFields =>
      { message with unknownFields }

theorem mergeField_unknown (json : String) (tag : Nat) (foreign : tag ∉ [10]) (store : υ) :
    mergeField runtime tag ⟨json, store⟩ = readMap (readUnknown runtime tag store) (mk json) := by
  unfold mergeField
  split
  all_goals first | rfl | simp at foreign

def Proper (message : StadAnnotationProto υ) : Prop := Settled runtime [10] message.unknownFields

def message : Message runtime (StadAnnotationProto υ) where
  fresh := ⟨"", runtime.unknown.empty⟩
  writeTo := writeTo runtime
  calculateSize := calculateSize runtime
  mergeFrom := mergeFrom runtime
  mergeField := mergeField runtime
  Proper := Proper runtime
  size_eq := by
    intro value
    rw [writeTo, calculateSize, List.length_append, unknownSize_eq,
      scalarSize_eq runtime _ _ (show 10 < 128 by decide)]
  takesFront := by
    intro tag state
    unfold mergeField
    split
    · exact runtime.string.takesFront.map _
    · exact (takesFront_readUnknown _ _ _).map _
  feeds := by
    rintro ⟨json, unknownFields⟩ value proper fits
    change calculateSize runtime value < runtime.limit at fits
    rw [calculateSize] at fits
    have jsonFits : scalarSize runtime.string "" value.json < runtime.limit := by omega
    have jsonFeeds := feeds_scalar (mergeField runtime) (mk · unknownFields)
      (runtime.tag_valid 10 (by decide) (by decide)) (fun _ => rfl) (runtime.string_fits jsonFits) json
    exact jsonFeeds.append (feeds_unknown (mergeField runtime) _ (mergeField_unknown runtime _) proper
      unknownFields)
  fresh_mergeFrom := by
    intro value
    simp [mergeFrom]
  proper_fresh := settled_empty _
  proper_field := by
    intro number state text next rest valid found proper
    unfold mergeField at found
    split at found
    · obtain ⟨json, _, rfl⟩ := readMap_eq_some.mp found
      exact proper
    · obtain ⟨store, read, rfl⟩ := readMap_eq_some.mp found
      have foreign : number ∉ [10] := by grind
      exact proper.read foreign valid read

end StadAnnotationProto

namespace AnnotationInfoProto

def writeTo (message : AnnotationInfoProto υ) : List β :=
  (StadAnnotationProto.message runtime).writeRepeated 10 message.annotations ++
    writeUnknown runtime message.unknownFields

def calculateSize (message : AnnotationInfoProto υ) : Nat :=
  (StadAnnotationProto.message runtime).repeatedSize 10 message.annotations +
    unknownSize runtime message.unknownFields

def mergeFrom (message other : AnnotationInfoProto υ) : AnnotationInfoProto υ :=
  ⟨message.annotations ++ other.annotations,
    mergeUnknown runtime message.unknownFields other.unknownFields⟩

def mergeField (tag : Nat) (message : AnnotationInfoProto υ) :
    List β → Option (AnnotationInfoProto υ × List β) :=
  match tag with
  | 10 => readMap ((StadAnnotationProto.message runtime).addEntriesFrom message.annotations)
      fun annotations => { message with annotations }
  | _ => readMap (readUnknown runtime tag message.unknownFields) fun unknownFields =>
      { message with unknownFields }

theorem mergeField_unknown (annotations : List (StadAnnotationProto υ)) (tag : Nat)
    (foreign : tag ∉ [10]) (store : υ) : mergeField runtime tag ⟨annotations, store⟩ =
      readMap (readUnknown runtime tag store) (mk annotations) := by
  unfold mergeField
  split
  all_goals first | rfl | simp at foreign

structure Proper (message : AnnotationInfoProto υ) : Prop where
  annotations : (StadAnnotationProto.message runtime).ProperRepeated message.annotations
  unknownFields : Settled runtime [10] message.unknownFields

def message : Message runtime (AnnotationInfoProto υ) where
  fresh := ⟨[], runtime.unknown.empty⟩
  writeTo := writeTo runtime
  calculateSize := calculateSize runtime
  mergeFrom := mergeFrom runtime
  mergeField := mergeField runtime
  Proper := Proper runtime
  size_eq := by
    intro value
    rw [writeTo, calculateSize, List.length_append, unknownSize_eq, Message.repeatedSize_eq]
  takesFront := by
    intro tag state
    unfold mergeField
    split
    · exact (Message.takesFront_addEntriesFrom _ _).map _
    · exact (takesFront_readUnknown _ _ _).map _
  feeds := by
    rintro ⟨annotations, unknownFields⟩ value proper fits
    change calculateSize runtime value < runtime.limit at fits
    rw [calculateSize] at fits
    have annotationsFit : (StadAnnotationProto.message runtime).repeatedSize 10 value.annotations <
        runtime.limit := by omega
    have annotationsFeed := Message.feeds_repeated (mergeField runtime) (mk · unknownFields)
      (runtime.tag_valid 10 (by decide) (by decide)) (fun _ => rfl) proper.annotations annotationsFit
      annotations
    exact annotationsFeed.append (feeds_unknown (mergeField runtime) _
      (mergeField_unknown runtime _) proper.unknownFields unknownFields)
  fresh_mergeFrom := by
    intro value
    simp [mergeFrom]
  proper_fresh := ⟨by simp [Message.ProperRepeated], settled_empty _⟩
  proper_field := by
    intro number state text next rest valid found proper
    unfold mergeField at found
    split at found
    · obtain ⟨annotations, read, rfl⟩ := readMap_eq_some.mp found
      exact ⟨proper.annotations.read read, proper.unknownFields⟩
    · obtain ⟨store, read, rfl⟩ := readMap_eq_some.mp found
      have foreign : number ∉ [10] := by grind
      exact ⟨proper.annotations, proper.unknownFields.read foreign valid read⟩

end AnnotationInfoProto

namespace MemberDefinitionProto

def writeTo (message : MemberDefinitionProto υ) : List β :=
  writeScalar runtime runtime.string "" 10 message.type ++
    writeScalar runtime runtime.string "" 18 message.name ++
    writeScalar runtime runtime.int32 0 24 message.kind ++
    (AnnotationInfoProto.message runtime).writeOptional 34 message.annotationInfo ++
    writeUnknown runtime message.unknownFields

def calculateSize (message : MemberDefinitionProto υ) : Nat :=
  scalarSize runtime.string "" message.type + scalarSize runtime.string "" message.name +
    scalarSize runtime.int32 0 message.kind +
    (AnnotationInfoProto.message runtime).optionalSize message.annotationInfo +
    unknownSize runtime message.unknownFields

def mergeFrom (message other : MemberDefinitionProto υ) : MemberDefinitionProto υ :=
  ⟨mergeScalar "" message.type other.type, mergeScalar "" message.name other.name,
    mergeScalar 0 message.kind other.kind,
    (AnnotationInfoProto.message runtime).mergeOptional message.annotationInfo other.annotationInfo,
    mergeUnknown runtime message.unknownFields other.unknownFields⟩

def mergeField (tag : Nat) (message : MemberDefinitionProto υ) :
    List β → Option (MemberDefinitionProto υ × List β) :=
  match tag with
  | 10 => readMap runtime.string.read fun type => { message with type }
  | 18 => readMap runtime.string.read fun name => { message with name }
  | 24 => readMap runtime.int32.read fun kind => { message with kind }
  | 34 => readMap ((AnnotationInfoProto.message runtime).readOptional message.annotationInfo)
      fun annotationInfo => { message with annotationInfo }
  | _ => readMap (readUnknown runtime tag message.unknownFields) fun unknownFields =>
      { message with unknownFields }

theorem mergeField_unknown (type name : String) (kind : BitVec 32)
    (annotationInfo : Option (AnnotationInfoProto υ)) (tag : Nat) (foreign : tag ∉ [10, 18, 24, 34])
    (store : υ) : mergeField runtime tag ⟨type, name, kind, annotationInfo, store⟩ =
      readMap (readUnknown runtime tag store) (mk type name kind annotationInfo) := by
  unfold mergeField
  split
  all_goals first | rfl | simp at foreign

structure Proper (message : MemberDefinitionProto υ) : Prop where
  annotationInfo : (AnnotationInfoProto.message runtime).ProperOptional message.annotationInfo
  unknownFields : Settled runtime [10, 18, 24, 34] message.unknownFields

def message : Message runtime (MemberDefinitionProto υ) where
  fresh := ⟨"", "", 0, none, runtime.unknown.empty⟩
  writeTo := writeTo runtime
  calculateSize := calculateSize runtime
  mergeFrom := mergeFrom runtime
  mergeField := mergeField runtime
  Proper := Proper runtime
  size_eq := by
    intro value
    simp only [writeTo, calculateSize, List.length_append, unknownSize_eq]
    rw [scalarSize_eq runtime _ _ (show 10 < 128 by decide),
      scalarSize_eq runtime _ _ (show 18 < 128 by decide),
      scalarSize_eq runtime _ _ (show 24 < 128 by decide),
      Message.optionalSize_eq _ (show 34 < 128 by decide)]
  takesFront := by
    intro tag state
    unfold mergeField
    split
    · exact runtime.string.takesFront.map _
    · exact runtime.string.takesFront.map _
    · exact runtime.int32.takesFront.map _
    · exact (Message.takesFront_readOptional _ _).map _
    · exact (takesFront_readUnknown _ _ _).map _
  feeds := by
    rintro ⟨type, name, kind, annotationInfo, unknownFields⟩ value proper fits
    change calculateSize runtime value < runtime.limit at fits
    rw [calculateSize] at fits
    have typeFits : scalarSize runtime.string "" value.type < runtime.limit := by omega
    have nameFits : scalarSize runtime.string "" value.name < runtime.limit := by omega
    have infoFits : (AnnotationInfoProto.message runtime).optionalSize value.annotationInfo <
        runtime.limit := by omega
    have typeFeeds := feeds_scalar (mergeField runtime) (mk · name kind annotationInfo unknownFields)
      (runtime.tag_valid 10 (by decide) (by decide)) (fun _ => rfl) (runtime.string_fits typeFits) type
    have nameFeeds := feeds_scalar (mergeField runtime) (mk (mergeScalar "" type value.type) · kind annotationInfo unknownFields)
      (runtime.tag_valid 18 (by decide) (by decide)) (fun _ => rfl) (runtime.string_fits nameFits) name
    have kindFeeds := feeds_scalar (mergeField runtime)
      (mk (mergeScalar "" type value.type) (mergeScalar "" name value.name) · annotationInfo unknownFields)
      (runtime.tag_valid 24 (by decide) (by decide)) (fun _ => rfl)
      (runtime.int32_fits value.kind) kind
    have infoFeeds := Message.feeds_optional (mergeField runtime)
      (mk (mergeScalar "" type value.type) (mergeScalar "" name value.name)
        (mergeScalar 0 kind value.kind) · unknownFields)
      (runtime.tag_valid 34 (by decide) (by decide)) (fun _ => rfl) proper.annotationInfo infoFits
      annotationInfo
    exact (((typeFeeds.append nameFeeds).append kindFeeds).append infoFeeds).append
      (feeds_unknown (mergeField runtime) _ (mergeField_unknown runtime _ _ _ _) proper.unknownFields unknownFields)
  fresh_mergeFrom := by
    intro value
    simp [mergeFrom]
  proper_fresh := ⟨by simp [Message.ProperOptional], settled_empty _⟩
  proper_field := by
    intro number state text next rest valid found proper
    unfold mergeField at found
    split at found
    · obtain ⟨type, _, rfl⟩ := readMap_eq_some.mp found
      exact ⟨proper.annotationInfo, proper.unknownFields⟩
    · obtain ⟨name, _, rfl⟩ := readMap_eq_some.mp found
      exact ⟨proper.annotationInfo, proper.unknownFields⟩
    · obtain ⟨kind, _, rfl⟩ := readMap_eq_some.mp found
      exact ⟨proper.annotationInfo, proper.unknownFields⟩
    · obtain ⟨annotationInfo, read, rfl⟩ := readMap_eq_some.mp found
      exact ⟨proper.annotationInfo.read read, proper.unknownFields⟩
    · obtain ⟨store, read, rfl⟩ := readMap_eq_some.mp found
      have foreign : number ∉ [10, 18, 24, 34] := by grind
      exact ⟨proper.annotationInfo, proper.unknownFields.read foreign valid read⟩

end MemberDefinitionProto

namespace StadModelProto

def writeTo (message : StadModelProto υ) : List β :=
  writeScalar runtime runtime.string "" 10 message.type ++
    writeScalar runtime runtime.int32 0 16 message.typeCode ++
    (AnnotationInfoProto.message runtime).writeOptional 26 message.annotationinfo ++
    (MemberDefinitionProto.message runtime).writeRepeated 34 message.members ++
    writeUnknown runtime message.unknownFields

def calculateSize (message : StadModelProto υ) : Nat :=
  scalarSize runtime.string "" message.type + scalarSize runtime.int32 0 message.typeCode +
    (AnnotationInfoProto.message runtime).optionalSize message.annotationinfo +
    (MemberDefinitionProto.message runtime).repeatedSize 34 message.members +
    unknownSize runtime message.unknownFields

def mergeFrom (message other : StadModelProto υ) : StadModelProto υ :=
  ⟨mergeScalar "" message.type other.type, mergeScalar 0 message.typeCode other.typeCode,
    (AnnotationInfoProto.message runtime).mergeOptional message.annotationinfo other.annotationinfo,
    message.members ++ other.members,
    mergeUnknown runtime message.unknownFields other.unknownFields⟩

def mergeField (tag : Nat) (message : StadModelProto υ) :
    List β → Option (StadModelProto υ × List β) :=
  match tag with
  | 10 => readMap runtime.string.read fun type => { message with type }
  | 16 => readMap runtime.int32.read fun typeCode => { message with typeCode }
  | 26 => readMap ((AnnotationInfoProto.message runtime).readOptional message.annotationinfo)
      fun annotationinfo => { message with annotationinfo }
  | 34 => readMap ((MemberDefinitionProto.message runtime).addEntriesFrom message.members)
      fun members => { message with members }
  | _ => readMap (readUnknown runtime tag message.unknownFields) fun unknownFields =>
      { message with unknownFields }

theorem mergeField_unknown (type : String) (typeCode : BitVec 32)
    (annotationinfo : Option (AnnotationInfoProto υ)) (members : List (MemberDefinitionProto υ))
    (tag : Nat) (foreign : tag ∉ [10, 16, 26, 34]) (store : υ) :
    mergeField runtime tag ⟨type, typeCode, annotationinfo, members, store⟩ =
      readMap (readUnknown runtime tag store) (mk type typeCode annotationinfo members) := by
  unfold mergeField
  split
  all_goals first | rfl | simp at foreign

structure Proper (message : StadModelProto υ) : Prop where
  annotationinfo : (AnnotationInfoProto.message runtime).ProperOptional message.annotationinfo
  members : (MemberDefinitionProto.message runtime).ProperRepeated message.members
  unknownFields : Settled runtime [10, 16, 26, 34] message.unknownFields

def message : Message runtime (StadModelProto υ) where
  fresh := ⟨"", 0, none, [], runtime.unknown.empty⟩
  writeTo := writeTo runtime
  calculateSize := calculateSize runtime
  mergeFrom := mergeFrom runtime
  mergeField := mergeField runtime
  Proper := Proper runtime
  size_eq := by
    intro value
    simp only [writeTo, calculateSize, List.length_append, unknownSize_eq, Message.repeatedSize_eq]
    rw [scalarSize_eq runtime _ _ (show 10 < 128 by decide),
      scalarSize_eq runtime _ _ (show 16 < 128 by decide),
      Message.optionalSize_eq _ (show 26 < 128 by decide)]
  takesFront := by
    intro tag state
    unfold mergeField
    split
    · exact runtime.string.takesFront.map _
    · exact runtime.int32.takesFront.map _
    · exact (Message.takesFront_readOptional _ _).map _
    · exact (Message.takesFront_addEntriesFrom _ _).map _
    · exact (takesFront_readUnknown _ _ _).map _
  feeds := by
    rintro ⟨type, typeCode, annotationinfo, members, unknownFields⟩ value proper fits
    change calculateSize runtime value < runtime.limit at fits
    rw [calculateSize] at fits
    have typeFits : scalarSize runtime.string "" value.type < runtime.limit := by omega
    have infoFits : (AnnotationInfoProto.message runtime).optionalSize value.annotationinfo <
        runtime.limit := by omega
    have membersFit : (MemberDefinitionProto.message runtime).repeatedSize 34 value.members <
        runtime.limit := by omega
    have typeFeeds := feeds_scalar (mergeField runtime)
      (mk · typeCode annotationinfo members unknownFields)
      (runtime.tag_valid 10 (by decide) (by decide)) (fun _ => rfl) (runtime.string_fits typeFits) type
    have codeFeeds := feeds_scalar (mergeField runtime)
      (mk (mergeScalar "" type value.type) · annotationinfo members unknownFields)
      (runtime.tag_valid 16 (by decide) (by decide)) (fun _ => rfl)
      (runtime.int32_fits value.typeCode) typeCode
    have infoFeeds := Message.feeds_optional (mergeField runtime)
      (mk (mergeScalar "" type value.type) (mergeScalar 0 typeCode value.typeCode) · members
        unknownFields)
      (runtime.tag_valid 26 (by decide) (by decide)) (fun _ => rfl) proper.annotationinfo infoFits
      annotationinfo
    have membersFeed := Message.feeds_repeated (mergeField runtime)
      (mk (mergeScalar "" type value.type) (mergeScalar 0 typeCode value.typeCode)
        ((AnnotationInfoProto.message runtime).mergeOptional annotationinfo value.annotationinfo) ·
        unknownFields)
      (runtime.tag_valid 34 (by decide) (by decide)) (fun _ => rfl) proper.members membersFit members
    exact (((typeFeeds.append codeFeeds).append infoFeeds).append membersFeed).append
      (feeds_unknown (mergeField runtime) _ (mergeField_unknown runtime _ _ _ _)
        proper.unknownFields unknownFields)
  fresh_mergeFrom := by
    intro value
    simp [mergeFrom]
  proper_fresh :=
    ⟨by simp [Message.ProperOptional], by simp [Message.ProperRepeated], settled_empty _⟩
  proper_field := by
    intro number state text next rest valid found proper
    unfold mergeField at found
    split at found
    · obtain ⟨type, _, rfl⟩ := readMap_eq_some.mp found
      exact ⟨proper.annotationinfo, proper.members, proper.unknownFields⟩
    · obtain ⟨typeCode, _, rfl⟩ := readMap_eq_some.mp found
      exact ⟨proper.annotationinfo, proper.members, proper.unknownFields⟩
    · obtain ⟨annotationinfo, read, rfl⟩ := readMap_eq_some.mp found
      exact ⟨proper.annotationinfo.read read, proper.members, proper.unknownFields⟩
    · obtain ⟨members, read, rfl⟩ := readMap_eq_some.mp found
      exact ⟨proper.annotationinfo, proper.members.read read, proper.unknownFields⟩
    · obtain ⟨store, read, rfl⟩ := readMap_eq_some.mp found
      have foreign : number ∉ [10, 16, 26, 34] := by grind
      exact ⟨proper.annotationinfo, proper.members, proper.unknownFields.read foreign valid read⟩

end StadModelProto

namespace DataSetProto

def writeTo (message : DataSetProto υ) : List β :=
  writeScalar runtime runtime.string "" 10 message.name ++
    (StadModelProto.message runtime).writeRepeated 18 message.listModels ++
    (StadModelProto.message runtime).writeRepeated 26 message.singleModels ++
    writeUnknown runtime message.unknownFields

def calculateSize (message : DataSetProto υ) : Nat :=
  scalarSize runtime.string "" message.name +
    (StadModelProto.message runtime).repeatedSize 18 message.listModels +
    (StadModelProto.message runtime).repeatedSize 26 message.singleModels +
    unknownSize runtime message.unknownFields

def mergeFrom (message other : DataSetProto υ) : DataSetProto υ :=
  ⟨mergeScalar "" message.name other.name, message.listModels ++ other.listModels,
    message.singleModels ++ other.singleModels,
    mergeUnknown runtime message.unknownFields other.unknownFields⟩

def mergeField (tag : Nat) (message : DataSetProto υ) :
    List β → Option (DataSetProto υ × List β) :=
  match tag with
  | 10 => readMap runtime.string.read fun name => { message with name }
  | 18 => readMap ((StadModelProto.message runtime).addEntriesFrom message.listModels)
      fun listModels => { message with listModels }
  | 26 => readMap ((StadModelProto.message runtime).addEntriesFrom message.singleModels)
      fun singleModels => { message with singleModels }
  | _ => readMap (readUnknown runtime tag message.unknownFields) fun unknownFields =>
      { message with unknownFields }

theorem mergeField_unknown (name : String) (listModels singleModels : List (StadModelProto υ))
    (tag : Nat) (foreign : tag ∉ [10, 18, 26]) (store : υ) :
    mergeField runtime tag ⟨name, listModels, singleModels, store⟩ =
      readMap (readUnknown runtime tag store) (mk name listModels singleModels) := by
  unfold mergeField
  split
  all_goals first | rfl | simp at foreign

structure Proper (message : DataSetProto υ) : Prop where
  listModels : (StadModelProto.message runtime).ProperRepeated message.listModels
  singleModels : (StadModelProto.message runtime).ProperRepeated message.singleModels
  unknownFields : Settled runtime [10, 18, 26] message.unknownFields

def message : Message runtime (DataSetProto υ) where
  fresh := ⟨"", [], [], runtime.unknown.empty⟩
  writeTo := writeTo runtime
  calculateSize := calculateSize runtime
  mergeFrom := mergeFrom runtime
  mergeField := mergeField runtime
  Proper := Proper runtime
  size_eq := by
    intro value
    simp only [writeTo, calculateSize, List.length_append, unknownSize_eq, Message.repeatedSize_eq]
    rw [scalarSize_eq runtime _ _ (show 10 < 128 by decide)]
  takesFront := by
    intro tag state
    unfold mergeField
    split
    · exact runtime.string.takesFront.map _
    · exact (Message.takesFront_addEntriesFrom _ _).map _
    · exact (Message.takesFront_addEntriesFrom _ _).map _
    · exact (takesFront_readUnknown _ _ _).map _
  feeds := by
    rintro ⟨name, listModels, singleModels, unknownFields⟩ value proper fits
    change calculateSize runtime value < runtime.limit at fits
    rw [calculateSize] at fits
    have nameFits : scalarSize runtime.string "" value.name < runtime.limit := by omega
    have listFits : (StadModelProto.message runtime).repeatedSize 18 value.listModels <
        runtime.limit := by omega
    have singleFits : (StadModelProto.message runtime).repeatedSize 26 value.singleModels <
        runtime.limit := by omega
    have nameFeeds := feeds_scalar (mergeField runtime)
      (mk · listModels singleModels unknownFields)
      (runtime.tag_valid 10 (by decide) (by decide)) (fun _ => rfl) (runtime.string_fits nameFits) name
    have listFeeds := Message.feeds_repeated (mergeField runtime)
      (mk (mergeScalar "" name value.name) · singleModels unknownFields)
      (runtime.tag_valid 18 (by decide) (by decide)) (fun _ => rfl) proper.listModels listFits
      listModels
    have singleFeeds := Message.feeds_repeated (mergeField runtime)
      (mk (mergeScalar "" name value.name) (listModels ++ value.listModels) · unknownFields)
      (runtime.tag_valid 26 (by decide) (by decide)) (fun _ => rfl) proper.singleModels singleFits
      singleModels
    exact ((nameFeeds.append listFeeds).append singleFeeds).append
      (feeds_unknown (mergeField runtime) _ (mergeField_unknown runtime _ _ _)
        proper.unknownFields unknownFields)
  fresh_mergeFrom := by
    intro value
    simp [mergeFrom]
  proper_fresh :=
    ⟨by simp [Message.ProperRepeated], by simp [Message.ProperRepeated], settled_empty _⟩
  proper_field := by
    intro number state text next rest valid found proper
    unfold mergeField at found
    split at found
    · obtain ⟨name, _, rfl⟩ := readMap_eq_some.mp found
      exact ⟨proper.listModels, proper.singleModels, proper.unknownFields⟩
    · obtain ⟨listModels, read, rfl⟩ := readMap_eq_some.mp found
      exact ⟨proper.listModels.read read, proper.singleModels, proper.unknownFields⟩
    · obtain ⟨singleModels, read, rfl⟩ := readMap_eq_some.mp found
      exact ⟨proper.listModels, proper.singleModels.read read, proper.unknownFields⟩
    · obtain ⟨store, read, rfl⟩ := readMap_eq_some.mp found
      have foreign : number ∉ [10, 18, 26] := by grind
      exact ⟨proper.listModels, proper.singleModels, proper.unknownFields.read foreign valid read⟩

end DataSetProto

namespace RegistryProto

def writeTo (message : RegistryProto υ) : List β :=
  (DataSetProto.message runtime).writeRepeated 10 message.dataSets ++
    writeUnknown runtime message.unknownFields

def calculateSize (message : RegistryProto υ) : Nat :=
  (DataSetProto.message runtime).repeatedSize 10 message.dataSets +
    unknownSize runtime message.unknownFields

def mergeFrom (message other : RegistryProto υ) : RegistryProto υ :=
  ⟨message.dataSets ++ other.dataSets,
    mergeUnknown runtime message.unknownFields other.unknownFields⟩

def mergeField (tag : Nat) (message : RegistryProto υ) :
    List β → Option (RegistryProto υ × List β) :=
  match tag with
  | 10 => readMap ((DataSetProto.message runtime).addEntriesFrom message.dataSets)
      fun dataSets => { message with dataSets }
  | _ => readMap (readUnknown runtime tag message.unknownFields) fun unknownFields =>
      { message with unknownFields }

theorem mergeField_unknown (dataSets : List (DataSetProto υ)) (tag : Nat) (foreign : tag ∉ [10])
    (store : υ) : mergeField runtime tag ⟨dataSets, store⟩ =
      readMap (readUnknown runtime tag store) (mk dataSets) := by
  unfold mergeField
  split
  all_goals first | rfl | simp at foreign

structure Proper (message : RegistryProto υ) : Prop where
  dataSets : (DataSetProto.message runtime).ProperRepeated message.dataSets
  unknownFields : Settled runtime [10] message.unknownFields

def message : Message runtime (RegistryProto υ) where
  fresh := ⟨[], runtime.unknown.empty⟩
  writeTo := writeTo runtime
  calculateSize := calculateSize runtime
  mergeFrom := mergeFrom runtime
  mergeField := mergeField runtime
  Proper := Proper runtime
  size_eq := by
    intro value
    rw [writeTo, calculateSize, List.length_append, unknownSize_eq, Message.repeatedSize_eq]
  takesFront := by
    intro tag state
    unfold mergeField
    split
    · exact (Message.takesFront_addEntriesFrom _ _).map _
    · exact (takesFront_readUnknown _ _ _).map _
  feeds := by
    rintro ⟨dataSets, unknownFields⟩ value proper fits
    change calculateSize runtime value < runtime.limit at fits
    rw [calculateSize] at fits
    have dataSetsFit : (DataSetProto.message runtime).repeatedSize 10 value.dataSets <
        runtime.limit := by omega
    have dataSetsFeed := Message.feeds_repeated (mergeField runtime) (mk · unknownFields)
      (runtime.tag_valid 10 (by decide) (by decide)) (fun _ => rfl) proper.dataSets dataSetsFit
      dataSets
    exact dataSetsFeed.append (feeds_unknown (mergeField runtime) _ (mergeField_unknown runtime _)
      proper.unknownFields unknownFields)
  fresh_mergeFrom := by
    intro value
    simp [mergeFrom]
  proper_fresh := ⟨by simp [Message.ProperRepeated], settled_empty _⟩
  proper_field := by
    intro number state text next rest valid found proper
    unfold mergeField at found
    split at found
    · obtain ⟨dataSets, read, rfl⟩ := readMap_eq_some.mp found
      exact ⟨proper.dataSets.read read, proper.unknownFields⟩
    · obtain ⟨store, read, rfl⟩ := readMap_eq_some.mp found
      have foreign : number ∉ [10] := by grind
      exact ⟨proper.dataSets, proper.unknownFields.read foreign valid read⟩

end RegistryProto

end Stad.StadProtoModel
