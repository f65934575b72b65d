import Stad.StadProtoModel
import Stad.RegistryFromProto

/-!
A registry on its way: described by messages, written to bytes in one piece or in
several, read back, and built again from what was read.
-/

namespace Stad.StadProtoModel

open PrefixCodes TaggedMessages Bounded Bounded.Outcome

section Bytes

variable {β υ : Type} {runtime : Runtime β υ}

/-- What was written is read back, and its length is what `CalculateSize` computes. -/
theorem registry_parseFrom_writeTo {registry : RegistryProto υ}
    (proper : RegistryProto.Proper runtime registry)
    (fits : RegistryProto.calculateSize runtime registry < runtime.limit) :
    (RegistryProto.message runtime).parseFrom (RegistryProto.writeTo runtime registry) =
        some registry ∧
      (RegistryProto.writeTo runtime registry).length =
        RegistryProto.calculateSize runtime registry :=
  ⟨(RegistryProto.message runtime).parseFrom_writeTo proper fits,
    ((RegistryProto.message runtime).size_eq registry).symm⟩

def gatherUnknown (runtime : Runtime β υ) (parts : List (RegistryProto υ)) (store : υ) : υ :=
  parts.foldl (fun store part => mergeUnknown runtime store part.unknownFields) store

theorem mergeFromText_parts {parts : List (RegistryProto υ)}
    (proper : ∀ part ∈ parts, RegistryProto.Proper runtime part)
    (fits : ∀ part ∈ parts, RegistryProto.calculateSize runtime part < runtime.limit)
    (state : RegistryProto υ) :
    (RegistryProto.message runtime).mergeFromText state
        (parts.flatMap (RegistryProto.writeTo runtime)) =
      some ⟨state.dataSets ++ parts.flatMap (·.dataSets),
        gatherUnknown runtime parts state.unknownFields⟩ := by
  induction parts generalizing state with
  | nil =>
      rw [List.flatMap_nil, List.flatMap_nil, List.append_nil]
      exact mergeText_nil state
  | cons part rest ih =>
      have first := (RegistryProto.message runtime).mergeFromText_writeTo state
        (proper part (by simp)) (fits part (by simp))
      have later := ih (fun other member => proper other (List.mem_cons_of_mem _ member))
        (fun other member => fits other (List.mem_cons_of_mem _ member))
        (RegistryProto.mergeFrom runtime state part)
      rw [List.flatMap_cons]
      refine ((RegistryProto.message runtime).mergeFromText_append first _).trans ?_
      refine later.trans ?_
      simp [RegistryProto.mergeFrom, gatherUnknown, List.append_assoc]

/-- A registry that is written in parts is read as one. -/
theorem registry_parseFrom_parts {parts : List (RegistryProto υ)}
    (proper : ∀ part ∈ parts, RegistryProto.Proper runtime part)
    (fits : ∀ part ∈ parts, RegistryProto.calculateSize runtime part < runtime.limit) :
    (RegistryProto.message runtime).parseFrom (parts.flatMap (RegistryProto.writeTo runtime)) =
      some ⟨parts.flatMap (·.dataSets), gatherUnknown runtime parts runtime.unknown.empty⟩ := by
  refine (mergeFromText_parts proper fits _).trans ?_
  rfl

/-- Accepted bytes may be replaced by those that `WriteTo` makes of the message, whatever
follows them. -/
theorem registry_rewritten {text : List β} {registry : RegistryProto υ}
    (accepted : (RegistryProto.message runtime).parseFrom text = some registry)
    (fits : RegistryProto.calculateSize runtime registry < runtime.limit) (more : List β) :
    (RegistryProto.message runtime).parseFrom (RegistryProto.writeTo runtime registry ++ more) =
      (RegistryProto.message runtime).parseFrom (text ++ more) := by
  have proper := (RegistryProto.message runtime).parseFrom_proper accepted
  have back := (RegistryProto.message runtime).parseFrom_writeTo proper fits
  refine ((RegistryProto.message runtime).mergeFromText_append back more).trans ?_
  exact ((RegistryProto.message runtime).mergeFromText_append accepted more).symm

end Bytes

/-! A registry with fields of a later version: a number and two bytes. -/

abbrev Kept := List (Nat × (Nat ⊕ List UInt8))

def leafMessage : StadModelProto Kept :=
  ⟨"Sample.Leaf", 7, none,
    [⟨"System.Int32", "Value", 2, some ⟨[⟨"null", []⟩], []⟩, []⟩], [(80, .inl 300)]⟩

def treeMessage : RegistryProto Kept :=
  ⟨[⟨"Sample.Tree", [], [leafMessage], []⟩], [(18, .inr [1, 2])]⟩

theorem treeMessage_proper : RegistryProto.Proper Base128.runtime treeMessage := by
  have member : (AnnotationInfoProto.message Base128.runtime).ProperOptional
      (some ⟨[⟨"null", []⟩], []⟩) := by
    rintro info ⟨⟩
    exact ⟨by rintro annotation (_ | ⟨_, ⟨⟩⟩); exact settled_empty _, settled_empty _⟩
  have leaf : StadModelProto.Proper Base128.runtime leafMessage := by
    refine ⟨by rintro info ⟨⟩, ?_, ?_⟩
    · rintro listed (_ | ⟨_, ⟨⟩⟩)
      exact ⟨member, settled_empty _⟩
    · rintro item (_ | ⟨_, ⟨⟩⟩)
      exact ⟨by decide, Base128.runtime.tag_valid 80 (by decide) (by decide),
        show 300 < 128 ^ 10 by decide, rfl⟩
  refine ⟨?_, ?_⟩
  · rintro dataSet (_ | ⟨_, ⟨⟩⟩)
    refine ⟨by rintro model ⟨⟩, ?_, settled_empty _⟩
    rintro model (_ | ⟨_, ⟨⟩⟩)
    exact leaf
  · rintro item (_ | ⟨_, ⟨⟩⟩)
    exact ⟨by decide, Base128.runtime.tag_valid 18 (by decide) (by decide),
      ⟨show 2 < 128 ^ 10 by decide, rfl⟩, rfl⟩

theorem treeMessage_fits :
    RegistryProto.calculateSize Base128.runtime treeMessage < Base128.runtime.limit := by
  decide +kernel

theorem treeMessage_read :
    (RegistryProto.message Base128.runtime).parseFrom
        (RegistryProto.writeTo Base128.runtime treeMessage) = some treeMessage ∧
      (RegistryProto.writeTo Base128.runtime treeMessage).length =
        RegistryProto.calculateSize Base128.runtime treeMessage :=
  registry_parseFrom_writeTo treeMessage_proper treeMessage_fits

theorem treeMessage_twice :
    (RegistryProto.message Base128.runtime).parseFrom
        ([treeMessage, treeMessage].flatMap (RegistryProto.writeTo Base128.runtime)) =
      some ⟨treeMessage.dataSets ++ treeMessage.dataSets,
        treeMessage.unknownFields ++ treeMessage.unknownFields⟩ :=
  registry_parseFrom_parts (by simp [treeMessage_proper]) (by simp [treeMessage_fits])

/-! A data set that is named twice: the later name counts. -/

def renamed : List UInt8 := [10, 6, 10, 1, 65, 10, 1, 66]

theorem renamed_rewritten :
    (RegistryProto.message Base128.runtime).parseFrom
        (RegistryProto.writeTo Base128.runtime ⟨[⟨"B", [], [], []⟩], []⟩ ++ renamed) =
      (RegistryProto.message Base128.runtime).parseFrom (renamed ++ renamed) :=
  registry_rewritten (by decide +kernel) (by decide +kernel) renamed

/-! The messages that say no more than a listing. -/

section Listing

variable {β υ : Type} (runtime : Runtime β υ)

def kindNumber : MemberKind → BitVec 32
  | .undefined => 0
  | .field => 1
  | .property => 2

/-- A number that names no kind stays what it is in the source; a listing has no place for it. -/
def kindNamed (number : BitVec 32) : Option MemberKind :=
  if number = 0 then some .undefined
  else if number = 1 then some .field
  else if number = 2 then some .property
  else none

def AnnotationInfoProto.ofListing (info : Stad.AnnotationInfoProto) : AnnotationInfoProto υ :=
  ⟨info.annotations.map fun listed => ⟨listed.json, runtime.unknown.empty⟩,
    runtime.unknown.empty⟩

def MemberDefinitionProto.ofListing (member : Stad.MemberDefinitionProto) :
    MemberDefinitionProto υ :=
  ⟨member.type, member.name, kindNumber member.kind,
    member.annotationInfo.map (AnnotationInfoProto.ofListing runtime), runtime.unknown.empty⟩

def StadModelProto.ofListing (model : Stad.StadModelProto) : StadModelProto υ :=
  ⟨model.type, model.typeCode, model.annotationinfo.map (AnnotationInfoProto.ofListing runtime),
    model.members.map (MemberDefinitionProto.ofListing runtime), runtime.unknown.empty⟩

def DataSetProto.ofListing (dataSet : Stad.DataSetProto) : DataSetProto υ :=
  ⟨dataSet.name, dataSet.listModels.map (StadModelProto.ofListing runtime),
    dataSet.singleModels.map (StadModelProto.ofListing runtime), runtime.unknown.empty⟩

def RegistryProto.ofListing (registry : Stad.RegistryProto) : RegistryProto υ :=
  ⟨registry.dataSets.map (DataSetProto.ofListing runtime), runtime.unknown.empty⟩

def AnnotationInfoProto.listing (info : AnnotationInfoProto υ) : Stad.AnnotationInfoProto :=
  ⟨info.annotations.map fun written => ⟨written.json⟩⟩

def MemberDefinitionProto.listing (member : MemberDefinitionProto υ) :
    Option Stad.MemberDefinitionProto :=
  (kindNamed member.kind).map fun kind =>
    ⟨member.type, member.name, kind, member.annotationInfo.map AnnotationInfoProto.listing⟩

def StadModelProto.listing (model : StadModelProto υ) : Option Stad.StadModelProto :=
  (model.members.mapM MemberDefinitionProto.listing).map fun members =>
    ⟨model.type, model.typeCode, model.annotationinfo.map AnnotationInfoProto.listing, members⟩

def DataSetProto.listing (dataSet : DataSetProto υ) : Option Stad.DataSetProto :=
  (dataSet.listModels.mapM StadModelProto.listing).bind fun listModels =>
    (dataSet.singleModels.mapM StadModelProto.listing).map fun singleModels =>
      ⟨dataSet.name, listModels, singleModels⟩

def RegistryProto.listing (registry : RegistryProto υ) : Option Stad.RegistryProto :=
  (registry.dataSets.mapM DataSetProto.listing).map Stad.RegistryProto.mk

theorem mapM_map_of_inverse {α γ : Type} {view : γ → Option α} {put : α → γ}
    (inverse : ∀ item, view (put item) = some item) (items : List α) :
    (items.map put).mapM view = some items := by
  induction items with
  | nil => rfl
  | cons item rest ih => simp [List.mapM_cons, inverse, ih]

@[simp] theorem annotationInfo_listing (info : Stad.AnnotationInfoProto) :
    (AnnotationInfoProto.ofListing runtime info).listing = info := by
  rcases info with ⟨annotations⟩
  simp [AnnotationInfoProto.ofListing, AnnotationInfoProto.listing, Function.comp_def]

@[simp] theorem kindNamed_kindNumber (kind : MemberKind) :
    kindNamed (kindNumber kind) = some kind := by
  cases kind <;> rfl

theorem member_listing (member : Stad.MemberDefinitionProto) :
    (MemberDefinitionProto.ofListing runtime member).listing = some member := by
  simp [MemberDefinitionProto.ofListing, MemberDefinitionProto.listing, Function.comp_def]

theorem model_listing (model : Stad.StadModelProto) :
    (StadModelProto.ofListing runtime model).listing = some model := by
  simp [StadModelProto.ofListing, StadModelProto.listing, Function.comp_def,
    mapM_map_of_inverse (member_listing runtime)]

theorem dataSet_listing (dataSet : Stad.DataSetProto) :
    (DataSetProto.ofListing runtime dataSet).listing = some dataSet := by
  simp [DataSetProto.ofListing, DataSetProto.listing, mapM_map_of_inverse (model_listing runtime)]

theorem annotationInfo_proper (info : Stad.AnnotationInfoProto) :
    AnnotationInfoProto.Proper runtime (AnnotationInfoProto.ofListing runtime info) := by
  refine ⟨?_, settled_empty _⟩
  intro annotation member
  obtain ⟨_, _, rfl⟩ := List.mem_map.mp member
  exact settled_empty _

theorem optional_proper (present : Option Stad.AnnotationInfoProto) :
    (AnnotationInfoProto.message runtime).ProperOptional
      (present.map (AnnotationInfoProto.ofListing runtime)) := by
  intro info member
  obtain ⟨_, _, rfl⟩ := Option.map_eq_some_iff.mp member
  exact annotationInfo_proper runtime _

theorem member_proper (member : Stad.MemberDefinitionProto) :
    MemberDefinitionProto.Proper runtime (MemberDefinitionProto.ofListing runtime member) :=
  ⟨optional_proper runtime _, settled_empty _⟩

theorem model_proper (model : Stad.StadModelProto) :
    StadModelProto.Proper runtime (StadModelProto.ofListing runtime model) := by
  refine ⟨optional_proper runtime _, ?_, settled_empty _⟩
  intro member inMembers
  obtain ⟨listed, _, rfl⟩ := List.mem_map.mp inMembers
  exact member_proper runtime listed

theorem models_proper (models : List Stad.StadModelProto) :
    (StadModelProto.message runtime).ProperRepeated
      (models.map (StadModelProto.ofListing runtime)) := by
  intro model inModels
  obtain ⟨listed, _, rfl⟩ := List.mem_map.mp inModels
  exact model_proper runtime listed

theorem registry_proper (registry : Stad.RegistryProto) :
    RegistryProto.Proper runtime (RegistryProto.ofListing runtime registry) := by
  refine ⟨?_, settled_empty _⟩
  intro dataSet inDataSets
  obtain ⟨listed, _, rfl⟩ := List.mem_map.mp inDataSets
  exact ⟨models_proper runtime _, models_proper runtime _, settled_empty _⟩

variable {runtime}

/-- A registry described part by part, written, read and created again has the same
data sets, models and members. -/
theorem registry_transferred {result : TypeCollectorResult} {depth : Nat}
    {registry : StadRegistry} {proto : Stad.RegistryProto}
    (returned : StadAnalyzer.makeRegistry result depth = value registry)
    (lists : Lists registry proto) {parts : List Stad.RegistryProto}
    (divided : parts.flatMap (·.dataSets) = proto.dataSets)
    (fits : ∀ part ∈ parts,
      RegistryProto.calculateSize runtime (RegistryProto.ofListing runtime part) < runtime.limit) :
    ∃ received listing, (RegistryProto.message runtime).parseFrom (parts.flatMap fun part =>
        RegistryProto.writeTo runtime (RegistryProto.ofListing runtime part)) = some received ∧
      received.listing = some listing ∧ SameListing registry (StadRegistry.createFrom listing) := by
  have proper : ∀ part ∈ parts.map (RegistryProto.ofListing runtime),
      RegistryProto.Proper runtime part := by
    intro part member
    obtain ⟨listed, _, rfl⟩ := List.mem_map.mp member
    exact registry_proper runtime listed
  have small : ∀ part ∈ parts.map (RegistryProto.ofListing runtime),
      RegistryProto.calculateSize runtime part < runtime.limit := by
    intro part member
    obtain ⟨listed, inParts, rfl⟩ := List.mem_map.mp member
    exact fits listed inParts
  have read := mergeFromText_parts proper small (RegistryProto.message runtime).fresh
  rw [List.flatMap_map] at read
  refine ⟨_, proto, read, ?_, createFrom_sameListing returned lists⟩
  have dataSets : (parts.map (RegistryProto.ofListing runtime)).flatMap (·.dataSets) =
      proto.dataSets.map (DataSetProto.ofListing runtime) := by
    rw [← divided, List.map_flatMap, List.flatMap_map]
    rfl
  change (List.mapM DataSetProto.listing
    ([] ++ (parts.map (RegistryProto.ofListing runtime)).flatMap (·.dataSets))).map _ = some proto
  rw [List.nil_append, dataSets, mapM_map_of_inverse (dataSet_listing runtime)]
  rfl

theorem oneLeaf_transferred :
    ∃ received listing, (RegistryProto.message Base128.runtime).parseFrom
        ([⟨[]⟩, treeProto [leafProto]].flatMap fun part =>
          RegistryProto.writeTo Base128.runtime (RegistryProto.ofListing Base128.runtime part)) =
        some received ∧
      received.listing = some listing ∧
      SameListing StadAnalyzer.oneLeafRegistry (StadRegistry.createFrom listing) :=
  registry_transferred StadAnalyzer.oneLeaf_returned oneLeaf_lists rfl (by decide +kernel)

end Listing

end Stad.StadProtoModel
