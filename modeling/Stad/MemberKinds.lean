import Stad.NameLookup
import Stad.Transcription

/-!
How a model lists the members of the type that it was made from. Names and types
come through both programs, and the kind of a field is lost in the first.
-/

namespace Stad.TypeCollectorForAssembly

open Bounded Bounded.Outcome PairedLists TypeCollector StadAnalyzer

variable {τ : Type}

def accessibleProperties (graph : TypeGraph τ) (type : τ) : List (PropertyInfo τ) :=
  (graph.getProperties type).filter fun item =>
    item.getMethod.any (·.isPublic) || item.setMethod.any (·.isPublic)

def publicInstanceFields (graph : TypeGraph τ) (type : τ) : List (FieldInfo τ) :=
  (graph.getFields type).filter fun item => item.isPublic && !item.isStatic

def listedMembers (graph : TypeGraph τ) (type : τ) : List (String × Option String × MemberKind) :=
  ((accessibleProperties graph type).map fun item =>
    (item.name, graph.fullName item.propertyType, .property)) ++
  (publicInstanceFields graph type).map fun item =>
    (item.name, graph.fullName item.fieldType, .field)

def shownMember (definition : MemberDefinition) : String × Option String × MemberKind :=
  (definition.name, definition.type, definition.kind)

def ListsMembers (graph : TypeGraph τ) (type : τ) (model : StadModel) : Prop :=
  model.members.map shownMember = listedMembers graph type

theorem visibleProperties_eq (graph : TypeGraph τ) (type : τ) :
    visibleProperties graph type = accessibleProperties graph type := rfl

theorem visibleFields_eq (graph : TypeGraph τ) (type : τ) :
    visibleFields graph type = publicInstanceFields graph type := by
  refine List.filter_congr fun item _ => ?_
  rw [Bool.eq_iff_iff, visible_field, Bool.and_eq_true, Bool.not_eq_true']

theorem shown_of_transcribes {definitions : List MemberDefinition}
    {members : List MemberSerializationInfo} (each : List.Forall₂ Transcribes definitions members) :
    definitions.map shownMember = members.map fun member =>
      (member.name, member.type, if member.isField then .field else .property) := by
  apply map_eq_map
  exact each.imp fun definition member same => by rw [shownMember, same.name, same.type, same.kind]

theorem objectEntry_members (graph : TypeGraph τ) (type : τ) :
    (objectEntry graph type).members.map (fun member =>
        (member.name, member.type, if member.isField then MemberKind.field else .property)) =
      ((accessibleProperties graph type).map fun item =>
        (item.name, graph.fullName item.propertyType, .property)) ++
      (publicInstanceFields graph type).map fun item =>
        (item.name, graph.fullName item.fieldType, .property) := by
  rw [← visibleProperties_eq, ← visibleFields_eq]
  simp [objectEntry, propertyEntry, memberOfProperty, memberOfField, Function.comp_def]

theorem listsMembers_iff {graph : TypeGraph τ} {type : τ} {model : StadModel}
    (transcribes : List.Forall₂ Transcribes model.members (objectEntry graph type).members) :
    ListsMembers graph type model ↔ publicInstanceFields graph type = [] := by
  rw [ListsMembers, shown_of_transcribes transcribes, objectEntry_members, listedMembers,
    List.append_cancel_left_eq]
  cases publicInstanceFields graph type with
  | nil => simp
  | cons item rest => simp

theorem objectEntry_collected {graph : TypeGraph τ} {comparer : Comparer} {types : List τ} {type : τ}
    (listed : type ∈ types) (object : graph.isEnum type = false) :
    objectEntry graph type ∈ (resultOf graph comparer types).collectedObjectInfo ++
      (resultOf graph comparer types).collectedClosedTypeGenericInfo := by
  rw [List.mem_append, mem_objectInfo, mem_genericInfo]
  cases generic : graph.isGenericType type with
  | false => exact Or.inl ⟨type, listed, by simp [isObject, object, generic], rfl⟩
  | true => exact Or.inr ⟨type, listed, by simp [isOtherGeneric, object, generic], rfl⟩

variable [DecidableEq τ]

/-- The info of a collected type is the entry made for it, and its model lists the
members of the type exactly when there is no field among them. -/
theorem makeStadModel_listsMembers_iff {graph : TypeGraph τ} {comparer : Comparer}
    {targets : List τ} {depth : Nat} {result : TypeCollectorResult} {type : τ}
    (collected : collect graph comparer targets depth = value result)
    (reached : Reachable (Leads graph) targets type) (object : graph.isEnum type = false) :
    objectEntry graph type ∈
        result.collectedObjectInfo ++ result.collectedClosedTypeGenericInfo ∧
      ∀ depth' allModels made,
        makeStadModel result depth' (allModels, objectEntry graph type) = value made →
        ∃ model, made.1[made.2]? = some model ∧
          (ListsMembers graph type model ↔ publicInstanceFields graph type = []) := by
  obtain ⟨types, _, exact', rfl⟩ := collect_returned collected
  refine ⟨objectEntry_collected ((exact' type).mpr reached) object, ?_⟩
  intro depth' allModels made returned
  obtain ⟨model, placed, transcribes⟩ := makeStadModel_transcribes returned
  exact ⟨model, placed, listsMembers_iff transcribes⟩

theorem parentAndChild_parent_lists :
    objectEntry parentAndChild true ∈
        (resultOf parentAndChild ordinal [false, true]).collectedObjectInfo ++
          (resultOf parentAndChild ordinal [false, true]).collectedClosedTypeGenericInfo ∧
      ∀ depth' allModels made,
        makeStadModel (resultOf parentAndChild ordinal [false, true]) depth'
          (allModels, objectEntry parentAndChild true) = value made →
        ∃ model, made.1[made.2]? = some model ∧ ListsMembers parentAndChild true model := by
  obtain ⟨listed, lists⟩ := makeStadModel_listsMembers_iff collect_parentAndChild
    ⟨true, List.mem_singleton_self true, .refl⟩ rfl
  refine ⟨listed, fun depth' allModels made returned => ?_⟩
  obtain ⟨model, placed, listsMembers⟩ := lists depth' allModels made returned
  exact ⟨model, placed, listsMembers.mpr rfl⟩

/-- `true` is the class `Point` with a field of type `false`, which is `int`. -/
def pointAndNumber : TypeGraph Bool where
  name type := if type then "Point" else "Int32"
  nameSpace type := some (if type then "Terrain" else "System")
  fullName type := some (if type then "Terrain.Point" else "System.Int32")
  isEnum _ := false
  isGenericType _ := false
  isValueType type := !type
  enumUnderlyingType := .ok
  genericTypeArguments _ := []
  getProperties _ := []
  getFields type :=
    if type then [⟨"X", false, true, false, false, []⟩]
    else [⟨"MaxValue", false, true, true, false, []⟩]
  getCustomAttributes _ := []
  genericName := by simp

def numberModel : StadModel :=
  ⟨"System.Int32", Utility.toTypeCode (Utility.utf16 "System.Int32"), ⟨none⟩, []⟩

def pointModel : StadModel :=
  ⟨"Terrain.Point", Utility.toTypeCode (Utility.utf16 "Terrain.Point"), ⟨none⟩,
    [⟨some "System.Int32", "X", .property, ⟨none⟩, none⟩]⟩

def pointAndNumberResult : TypeCollectorResult :=
  ⟨[false, true].map (objectEntry pointAndNumber), [], []⟩

theorem pointAndNumber_readable : ∀ type, Readable pointAndNumber type := by decide

theorem collect_pointAndNumber :
    collect pointAndNumber ordinal [true] 3 = value pointAndNumberResult := by
  have explored : collect pointAndNumber ordinal [true] 3 =
      value (resultOf pointAndNumber ordinal [false, true]) :=
    collect_of_finished (fun type _ => pointAndNumber_readable type) rfl
  rw [explored, resultOf_sorted pointAndNumber ordinal (by decide)]
  rfl

theorem pointAndNumber_mislabelled :
    collect pointAndNumber ordinal [true] 3 = value pointAndNumberResult ∧
      makeStadModel pointAndNumberResult 2 ([], objectEntry pointAndNumber true) =
        value ([numberModel, pointModel], 1) ∧
      ¬ListsMembers pointAndNumber true pointModel := by
  refine ⟨collect_pointAndNumber, by rfl, ?_⟩
  unfold ListsMembers
  decide

end Stad.TypeCollectorForAssembly
