import Stad.AnnotationMapping
import Stad.DataSetMembers
import Stad.NameLookup
import Stad.PairedLists

/-!
Where the mark `IgnoreMember` has an effect. The members of a data set are left
out by the attributes of their types, and no other member is ever left out.
-/

namespace Stad.TypeCollectorForAssembly

open Bounded Bounded.Outcome PairedLists TypeCollector StadAnalyzer Relation

variable {τ : Type}

def carriesIgnoreMember (attributes : List CustomAttribute) : Bool :=
  attributes.any fun custom => custom.classFullName = "Stad.Annotation.IgnoreMemberAttribute"

/-- A visible member of the program. It is marked by its own attributes or by
those of its type. -/
structure SourceMember (τ : Type) where
  name : String
  type : τ
  marked : Bool

def sourceMembers (graph : TypeGraph τ) (type : τ) : List (SourceMember τ) :=
  ((visibleProperties graph type).map fun item =>
    ⟨item.name, item.propertyType, carriesIgnoreMember item.getCustomAttributes ||
      carriesIgnoreMember (graph.getCustomAttributes item.propertyType)⟩) ++
  (visibleFields graph type).map fun item =>
    ⟨item.name, item.fieldType, carriesIgnoreMember item.declaredAttributes ||
      carriesIgnoreMember (graph.getCustomAttributes item.fieldType)⟩

def unmarkedMembers (graph : TypeGraph τ) (type : τ) : List (SourceMember τ) :=
  (sourceMembers graph type).filter fun member => !member.marked

def dataSetTypes (graph : TypeGraph τ) (comparer : Comparer) (types : List τ) : List τ :=
  (sortedByName graph comparer (types.filter (isObject graph))).filter fun type =>
    definesDataSet (objectEntry graph type)

/-- Marked members, and only these, are left out of the data sets and of all models. -/
structure Honoured (graph : TypeGraph τ) (comparer : Comparer) (types : List τ)
    (registry : StadRegistry) : Prop where
  dataSets : List.Forall₂ (fun type (dataSet : DataSetModel) =>
      (typesAt registry.models (dataSet.listModels ++ dataSet.singleModels)).Perm
        ((unmarkedMembers graph type).map fun member => graph.fullName member.type))
    (dataSetTypes graph comparer types) registry.dataSets
  models : ∀ ref model type, ModelReachable registry ref → registry.models[ref]? = some model →
    typeNamed graph comparer types (some model.type) = some type →
    (model.members.map fun definition => (definition.type, definition.name)).Perm
      ((unmarkedMembers graph type).map fun member => (graph.fullName member.type, member.name))

def looksIgnored (graph : TypeGraph τ) (comparer : Comparer) (types : List τ)
    (name : Option String) : Bool :=
  (typeNamed graph comparer types name).any fun type =>
    (graph.getCustomAttributes type).any fun custom =>
      contains custom.classFullName "IgnoreMemberAttribute"

/-- The type has a model: an expanded data-set member has it or leads to it. -/
def IsModelled (graph : TypeGraph τ) (comparer : Comparer) (types : List τ) (type : τ) : Prop :=
  ∃ root ∈ rootTypes (resultOf graph comparer types)
      (resultOf graph comparer types).collectedObjectInfo,
    ∃ name, ReflTransGen (MemberStep (resultOf graph comparer types)) root name ∧
      typeNamed graph comparer types name = some type

structure MarkedByTypes (graph : TypeGraph τ) (comparer : Comparer) (types : List τ) : Prop where
  dataSets : ∀ type ∈ dataSetTypes graph comparer types, ∀ member ∈ sourceMembers graph type,
    member.marked = looksIgnored graph comparer types (graph.fullName member.type)
  nested : ∀ type, IsModelled graph comparer types type →
    ∀ member ∈ sourceMembers graph type, member.marked = false

theorem sourceMembers_entry (graph : TypeGraph τ) (type : τ) :
    (objectEntry graph type).members.map (fun member => (member.type, member.name)) =
      (sourceMembers graph type).map fun member => (graph.fullName member.type, member.name) := by
  simp [objectEntry, sourceMembers, propertyEntry, memberOfProperty, memberOfField, Function.comp_def]

theorem sourceMembers_types (graph : TypeGraph τ) (type : τ) :
    (objectEntry graph type).members.map (·.type) =
      (sourceMembers graph type).map fun member => graph.fullName member.type := by
  simp [objectEntry, sourceMembers, propertyEntry, memberOfProperty, memberOfField, Function.comp_def]

theorem anyContaining_customs {customs : List CustomAttribute} {datas : List NeutralAttributeData}
    (turned : NeutralAttributeData.fromCustomAttributeArray customs = .ok datas) (part : String) :
    anyContaining (some datas) part =
      .ok (customs.any fun custom => contains custom.classFullName part) := by
  suffices search : (firstContaining part datas).map Option.isSome =
      .ok (customs.any fun custom => contains custom.classFullName part) from search
  induction customs generalizing datas with
  | nil =>
      cases turned
      rfl
  | cons custom rest ih =>
      rw [NeutralAttributeData.fromCustomAttributeArray, List.mapM_cons] at turned
      obtain ⟨data, here, turned⟩ := except_bind_eq_ok.mp turned
      obtain ⟨others, later, same⟩ := except_bind_eq_ok.mp turned
      cases same
      simp only [firstContaining, fromCustomAttribute_type here, List.any_cons]
      cases found : contains custom.classFullName part with
      | true => rfl
      | false => exact ih later

theorem isExpanded_resultOf {graph : TypeGraph τ} (comparer : Comparer) {types : List τ}
    (readable : ∀ type ∈ types, Readable graph type) {member : MemberSerializationInfo}
    (found : (StadAnalyzer.getObjectInfo (resultOf graph comparer types) member.type).isSome) :
    isExpanded (resultOf graph comparer types) member =
      !looksIgnored graph comparer types member.type := by
  rw [getObjectInfo_resultOf, Option.isSome_map] at found
  obtain ⟨type, named⟩ := Option.isSome_iff_exists.mp found
  simp only [isExpanded, getObjectInfo_resultOf, named, Option.map_some, looksIgnored,
    Option.any_some]
  have listed := (typeNamed_some named).1
  obtain ⟨datas, read⟩ := readAttributes_returns_iff.mpr (readable type listed).own
  obtain ⟨_, _, turned⟩ := except_bind_eq_ok.mp read
  have tested := anyContaining_customs turned "IgnoreMemberAttribute"
  have attributes : (objectEntry graph type).attributes = some datas := by
    rw [objectEntry, typeAttributes, read]
    rfl
  simp only [attributes, tested]
  cases (graph.getCustomAttributes type).any fun custom =>
    contains custom.classFullName "IgnoreMemberAttribute" <;> rfl

theorem filter_keys_perm_iff {α β : Type} {items : List α} (key : α → β) (kept : β → Bool)
    (wanted : α → Bool) :
    ((items.filter fun item => kept (key item)).map key).Perm ((items.filter wanted).map key) ↔
      ∀ item ∈ items, kept (key item) = wanted item := by
  constructor
  · intro permuted
    have implied : ∀ item ∈ items, wanted item = true → kept (key item) = true := by
      intro item listed isWanted
      have inWanted := List.mem_map_of_mem (f := key) (List.mem_filter.mpr ⟨listed, isWanted⟩)
      obtain ⟨other, inKept, same⟩ := List.mem_map.mp (permuted.mem_iff.mpr inWanted)
      rw [← same]
      exact (List.mem_filter.mp inKept).2
    refine filter_eq_of_length implied ?_
    rw [← List.length_map key, ← permuted.length_eq, List.length_map]
  · intro same
    rw [List.filter_congr same]

section Registry

variable {graph : TypeGraph τ} {comparer : Comparer} {types : List τ} {depth : Nat}
  {registry : StadRegistry}

theorem dataSetOf_honoured_iff (readable : ∀ type ∈ types, Readable graph type) {type : τ}
    {dataSet : DataSetModel} (made : DataSetOf (resultOf graph comparer types) registry.models (objectEntry graph type)
      dataSet) :
    (typesAt registry.models (dataSet.listModels ++ dataSet.singleModels)).Perm
        ((unmarkedMembers graph type).map fun member => graph.fullName member.type) ↔
      ∀ member ∈ sourceMembers graph type,
        member.marked = looksIgnored graph comparer types (graph.fullName member.type) := by
  have kept : ((objectEntry graph type).members.filter
        (isExpanded (resultOf graph comparer types))).map (·.type) =
      ((sourceMembers graph type).filter fun member =>
        !looksIgnored graph comparer types (graph.fullName member.type)).map
          fun member => graph.fullName member.type := by
    have byName : (objectEntry graph type).members.filter
          (isExpanded (resultOf graph comparer types)) =
        (objectEntry graph type).members.filter fun member =>
          !looksIgnored graph comparer types member.type :=
      List.filter_congr fun member listed =>
        isExpanded_resultOf comparer readable (made.found member listed)
    have onTypes := congrArg (List.filter fun name => !looksIgnored graph comparer types name)
      (sourceMembers_types graph type)
    rw [List.filter_map, List.filter_map] at onTypes
    rw [byName]
    exact onTypes
  have selected := made.types
  rw [kept] at selected
  rw [List.perm_comm, (selected.congr_right _), List.perm_comm, unmarkedMembers,
    filter_keys_perm_iff _ fun name => !looksIgnored graph comparer types name]
  refine forall₂_congr fun member listed => ?_
  rw [Bool.not_inj_iff, eq_comm]

theorem dataSets_honoured_iff (readable : ∀ type ∈ types, Readable graph type)
    (returned : makeRegistry (resultOf graph comparer types) depth = value registry) :
    List.Forall₂ (fun type (dataSet : DataSetModel) =>
        (typesAt registry.models (dataSet.listModels ++ dataSet.singleModels)).Perm
          ((unmarkedMembers graph type).map fun member => graph.fullName member.type))
      (dataSetTypes graph comparer types) registry.dataSets ↔
    ∀ type ∈ dataSetTypes graph comparer types, ∀ member ∈ sourceMembers graph type,
      member.marked = looksIgnored graph comparer types (graph.fullName member.type) := by
  have made := makeRegistry_dataSets returned
  have infos : (resultOf graph comparer types).collectedObjectInfo.filter definesDataSet =
      (dataSetTypes graph comparer types).map (objectEntry graph) := by
    have objects : (resultOf graph comparer types).collectedObjectInfo =
        (sortedByName graph comparer (types.filter (isObject graph))).map (objectEntry graph) :=
      orderBy_entries graph comparer _
    rw [objects, List.filter_map]
    rfl
  rw [infos, List.forall₂_map_left_iff] at made
  exact forall₂_iff_of made fun type dataSet => dataSetOf_honoured_iff readable

theorem unmarked_perm_iff (type : τ) :
    ((sourceMembers graph type).map fun member => (graph.fullName member.type, member.name)).Perm
        ((unmarkedMembers graph type).map fun member => (graph.fullName member.type, member.name)) ↔
      ∀ member ∈ sourceMembers graph type, member.marked = false := by
  constructor
  · intro permuted
    have lengths := permuted.length_eq
    rw [List.length_map, List.length_map, unmarkedMembers] at lengths
    have all := List.length_filter_eq_length_iff.mp lengths.symm
    intro member listed
    simpa using all member listed
  · intro unmarked
    have all : unmarkedMembers graph type = sourceMembers graph type :=
      List.filter_eq_self.mpr fun member listed => by simp [unmarked member listed]
    rw [all]

theorem models_honoured_iff (returned : makeRegistry (resultOf graph comparer types) depth =
      value registry) :
    (∀ ref model type, ModelReachable registry ref → registry.models[ref]? = some model →
      typeNamed graph comparer types (some model.type) = some type →
      (model.members.map fun definition => (definition.type, definition.name)).Perm
        ((unmarkedMembers graph type).map fun member =>
          (graph.fullName member.type, member.name))) ↔
    ∀ type, IsModelled graph comparer types type →
      ∀ member ∈ sourceMembers graph type, member.marked = false := by
  obtain ⟨coherent, linked⟩ := makeRegistry_coherent returned
  have listsAll : ∀ model ∈ registry.models, ∀ type,
      typeNamed graph comparer types (some model.type) = some type →
      model.members.map (fun definition => (definition.type, definition.name)) =
        (sourceMembers graph type).map fun member => (graph.fullName member.type, member.name) := by
    intro model listed type named
    obtain ⟨info, found, pairs⟩ := coherent.described model listed
    rw [getObjectInfo_resultOf, named, Option.map_some, Option.some.injEq] at found
    rw [pairs, ← found, sourceMembers_entry]
  constructor
  · rintro honoured type ⟨root, isRoot, name, path, named⟩
    have present := (coherent.covered name).mpr ⟨root, isRoot, path⟩
    obtain ⟨model, listed, same⟩ := hasModel_iff.mp present
    obtain ⟨ref, placed⟩ := List.getElem?_of_mem listed
    have reachable := coherent.all_reachable linked placed
    rw [← same] at named
    have kept := honoured ref model type reachable placed named
    rw [listsAll model listed type named] at kept
    exact (unmarked_perm_iff type).mp kept
  · intro unmarked ref model type _ placed named
    have listed := List.mem_of_getElem? placed
    have present := hasModel_iff.mpr ⟨model, listed, rfl⟩
    obtain ⟨root, isRoot, path⟩ := (coherent.covered _).mp present
    rw [listsAll model listed type named]
    exact (unmarked_perm_iff type).mpr (unmarked type ⟨root, isRoot, _, path, named⟩)

variable [DecidableEq τ]

/-- In a returned registry `IgnoreMember` is honoured everywhere exactly when it
stands on types of data-set members only and no other member would need it. -/
theorem makeRegistry_honoured_iff {targets : List τ} {collectDepth : Nat}
    {result : TypeCollectorResult}
    (collected : collect graph comparer targets collectDepth = value result)
    (returned : makeRegistry result depth = value registry) :
    ∃ types : List τ, types.Nodup ∧ (∀ type, type ∈ types ↔ Reachable (Leads graph) targets type) ∧
      result = resultOf graph comparer types ∧
      (Honoured graph comparer types registry ↔ MarkedByTypes graph comparer types) := by
  obtain ⟨types, nodup, reached, readable, same⟩ := collect_traversed collected
  refine ⟨types, nodup, reached, same, ?_⟩
  rw [same] at returned
  constructor
  · rintro ⟨dataSets, models⟩
    exact ⟨(dataSets_honoured_iff readable returned).mp dataSets, (models_honoured_iff returned).mp models⟩
  · rintro ⟨dataSets, nested⟩
    exact ⟨(dataSets_honoured_iff readable returned).mpr dataSets, (models_honoured_iff returned).mpr nested⟩

end Registry

/-- `true` is `[DataSetDefinition] class Tree` with a property of type `Leaf`, and `false` the
class `Leaf`. The marks are those of the property and those of `Leaf`. -/
def grove (onProperty onLeaf : List CustomAttribute) : TypeGraph Bool where
  name type := if type then "Tree" else "Leaf"
  nameSpace _ := some "Sample"
  fullName type := some (if type then "Sample.Tree" else "Sample.Leaf")
  isEnum _ := false
  isGenericType _ := false
  isValueType _ := false
  enumUnderlyingType := .ok
  genericTypeArguments _ := []
  getProperties type := if type then [⟨"Left", false, some ⟨true⟩, none, onProperty, []⟩] else []
  getFields _ := []
  getCustomAttributes type :=
    if type then
      [⟨"Stad.Annotation.DataSetDefinition", true, false, .ok (),
        [.ok (.type (some "Stad.Annotation.DataSetDefinition"))]⟩]
    else onLeaf
  genericName := by simp

def ignoreMark : CustomAttribute :=
  ⟨"Stad.Annotation.IgnoreMemberAttribute", true, false, .ok (),
    [.ok (.type (some "Stad.Annotation.IgnoreMemberAttribute"))]⟩

def groveResult (onProperty onLeaf : List CustomAttribute) : TypeCollectorResult :=
  ⟨[objectEntry (grove onProperty onLeaf) false, objectEntry (grove onProperty onLeaf) true], [], []⟩

def groveRegistry : StadRegistry :=
  ⟨[⟨"Sample.Leaf", Utility.toTypeCode (Utility.utf16 "Sample.Leaf"), ⟨none⟩, []⟩],
    [⟨some "Sample.Tree", [], [0]⟩]⟩

theorem collect_grove {onProperty onLeaf : List CustomAttribute}
    (readable : ∀ type, Readable (grove onProperty onLeaf) type) :
    collect (grove onProperty onLeaf) ordinal [true] 3 = value (groveResult onProperty onLeaf) := by
  have explored : collect (grove onProperty onLeaf) ordinal [true] 3 =
      value (resultOf (grove onProperty onLeaf) ordinal [false, true]) :=
    collect_of_finished (fun type _ => readable type) rfl
  have sorted : [false, true].Pairwise fun first second =>
      ordinal.le ((grove onProperty onLeaf).fullName first)
        ((grove onProperty onLeaf).fullName second) = true := by
    simp only [grove]
    decide
  rw [explored, resultOf_sorted (grove onProperty onLeaf) ordinal sorted]
  rfl

theorem markedLeaf_byTypes {types : List Bool} (listed : false ∈ types)
    (same : groveResult [] [ignoreMark] = resultOf (grove [] [ignoreMark]) ordinal types) :
    MarkedByTypes (grove [] [ignoreMark]) ordinal types := by
  have ignored : looksIgnored (grove [] [ignoreMark]) ordinal types (some "Sample.Leaf") = true := by
    cases named : typeNamed (grove [] [ignoreMark]) ordinal types (some "Sample.Leaf") with
    | none => exact absurd (typeNamed_none_iff.mp named false listed rfl) (by decide)
    | some type =>
        have leaf : ∀ type, (grove [] [ignoreMark]).fullName type = some "Sample.Leaf" →
            type = false := by decide
        rw [looksIgnored, named, leaf type (typeNamed_some named).2.2]
        decide
  constructor
  · intro type _ member isMember
    cases type with
    | true =>
        rw [List.mem_singleton.mp isMember]
        exact ignored.symm
    | false => cases isMember
  · rintro type ⟨root, isRoot, _⟩
    have noRoots : rootTypes (groveResult [] [ignoreMark])
        (groveResult [] [ignoreMark]).collectedObjectInfo = [] := by rfl
    rw [← same, noRoots] at isRoot
    cases isRoot

theorem markedLeaf_honoured :
    ∃ types : List Bool, (∀ type, type ∈ types ↔ Reachable (Leads (grove [] [ignoreMark])) [true] type) ∧
      Honoured (grove [] [ignoreMark]) ordinal types ⟨[], [⟨some "Sample.Tree", [], []⟩]⟩ := by
  have returned : makeRegistry (groveResult [] [ignoreMark]) 2 =
      value ⟨[], [⟨some "Sample.Tree", [], []⟩]⟩ := by rfl
  obtain ⟨types, _, reached, same, honoured⟩ :=
    makeRegistry_honoured_iff (collect_grove (by decide)) returned
  have toLeaf : Leads (grove [] [ignoreMark]) true false := mem_children_iff.mp (by decide)
  have listed := (reached false).mpr ⟨true, List.mem_singleton_self true, .single toLeaf⟩
  exact ⟨types, reached, honoured.mpr (markedLeaf_byTypes listed same)⟩

theorem grove_mark_lost :
    collect (grove [ignoreMark] []) ordinal [true] 3 = value (groveResult [ignoreMark] []) ∧
    makeRegistry (groveResult [ignoreMark] []) 2 = value groveRegistry ∧
    ∀ types : List Bool, (∀ type, type ∈ types ↔
      Reachable (Leads (grove [ignoreMark] [])) [true] type) →
      ¬Honoured (grove [ignoreMark] []) ordinal types groveRegistry := by
  refine ⟨collect_grove (by decide), by rfl, ?_⟩
  rintro types reached ⟨dataSets, -⟩
  have tree : true ∈ types := (reached true).mpr ⟨true, List.mem_singleton_self true, .refl⟩
  have defined : true ∈ dataSetTypes (grove [ignoreMark] []) ordinal types := by
    refine List.mem_filter.mpr ⟨mem_sortedByName.mpr ?_, by rfl⟩
    exact List.mem_filter.mpr ⟨tree, by rfl⟩
  obtain ⟨type, others, permuted, rest, same⟩ := List.forall₂_cons_right_iff.mp dataSets
  rw [same, List.forall₂_nil_right_iff.mp rest, List.mem_singleton] at defined
  rw [← defined] at permuted
  exact absurd permuted.length_eq (by decide)

end Stad.TypeCollectorForAssembly
