import Stad.AnalyzerRun
import Stad.CompilationReachable
import Stad.PairedLists

/-!
Which annotations of a member get from its declaration into the model. Both
collectors leave the attributes of fields out; the one for assemblies adds what
a property inherits, and the one for compilations takes the attributes of the
type of a property for those of the property.
-/

namespace Stad

open Bounded Bounded.Outcome PairedLists TypeCollector
open TypeCollectorForAssembly (ordinal parentAndChild)

structure CarriesOwn (declared : Except Thrown (List NeutralAttributeData))
    (member : MemberSerializationInfo) : Prop where
  attributes : declared = .ok (member.attributes.getD [])
  definition : ∀ result call state made,
    StadAnalyzer.makeMember result call state member = value made →
    ∃ own definition, declared = .ok own ∧ made.2 = state.2 ++ [definition] ∧
      StadAnalyzer.makeAnnotationInfo (some own) = .ok definition.annotationInfo

theorem carriesOwn_iff {declared : Except Thrown (List NeutralAttributeData)}
    {member : MemberSerializationInfo} :
    CarriesOwn declared member ↔ declared = .ok (member.attributes.getD []) := by
  constructor
  · exact CarriesOwn.attributes
  · intro same
    refine ⟨same, ?_⟩
    intro result call state made returned
    obtain ⟨annotationInfo, read, appended, _⟩ := StadAnalyzer.makeMember_cases returned
    refine ⟨_, _, same, appended, ?_⟩
    have default : StadAnalyzer.makeAnnotationInfo (some (member.attributes.getD [])) =
        StadAnalyzer.makeAnnotationInfo member.attributes := by
      cases absent : member.attributes <;> rfl
    rw [default, read]

namespace TypeCollectorForAssembly

variable {τ : Type}

def Quiet (seen : List String) (overridden : List CustomAttribute) : Prop :=
  ∀ before custom after, overridden = before ++ custom :: after → custom.inherited = true →
    custom.allowMultiple = false ∧
      custom.classFullName ∈ seen ++ before.map (·.classFullName)

theorem quiet_cons {seen : List String} {custom : CustomAttribute} {rest : List CustomAttribute} :
    Quiet seen (custom :: rest) ↔
      (custom.inherited = true → custom.allowMultiple = false ∧ custom.classFullName ∈ seen) ∧
        Quiet (custom.classFullName :: seen) rest := by
  constructor
  · intro quiet
    constructor
    · intro inherited
      simpa using quiet [] custom rest rfl inherited
    · intro before other after split inherited
      have nearer := quiet (custom :: before) other after (by simp [split]) inherited
      refine ⟨nearer.1, ?_⟩
      have found := nearer.2
      simp only [List.map_cons, List.mem_append, List.mem_cons, List.cons_append] at found ⊢
      tauto
  · rintro ⟨first, later⟩ before other after split inherited
    cases before with
    | nil =>
        simp only [List.nil_append, List.cons.injEq] at split
        rw [← split.1] at inherited ⊢
        simpa using first inherited
    | cons head before =>
        simp only [List.cons_append, List.cons.injEq] at split
        have nearer := later before other after split.2 inherited
        refine ⟨nearer.1, ?_⟩
        have found := nearer.2
        rw [split.1] at found
        simp only [List.map_cons, List.mem_append, List.mem_cons, List.cons_append] at found ⊢
        tauto

theorem quiet_congr {seen seen' : List String} (same : ∀ name, name ∈ seen ↔ name ∈ seen')
    {overridden : List CustomAttribute} : Quiet seen overridden ↔ Quiet seen' overridden := by
  simp only [Quiet, List.mem_append, same]

theorem addInherited_foldl (overridden : List CustomAttribute) (seen : List String)
    (own : List CustomAttribute) :
    ∃ extra, (overridden.foldl addInherited (seen, own)).2 = own ++ extra ∧
      (extra = [] ↔ Quiet seen overridden) := by
  induction overridden generalizing seen own with
  | nil => exact ⟨[], by simp, by simp [Quiet]⟩
  | cons custom rest ih =>
      rw [quiet_cons, List.foldl_cons, addInherited]
      by_cases known : custom.classFullName ∈ seen
      · have same : ∀ name, name ∈ custom.classFullName :: seen ↔ name ∈ seen := by
          intro name
          rw [List.mem_cons]
          constructor
          · rintro (rfl | listed)
            · exact known
            · exact listed
          · exact Or.inr
        rw [if_pos known, quiet_congr same]
        cases counts : custom.inherited && custom.allowMultiple with
        | true =>
            obtain ⟨extra, appended, _⟩ := ih seen (own ++ [custom])
            obtain ⟨inherited, multiple⟩ := Bool.and_eq_true_iff.mp counts
            refine ⟨custom :: extra, by simpa using appended, ?_⟩
            simp [inherited, multiple]
        | false =>
            obtain ⟨extra, appended, quiet⟩ := ih seen own
            refine ⟨extra, by simpa using appended, ?_⟩
            rw [quiet]
            have silent : custom.inherited = true → custom.allowMultiple = false := by
              intro inherited
              simpa [inherited] using counts
            exact ⟨fun later => ⟨fun inherited => ⟨silent inherited, known⟩, later⟩, And.right⟩
      · rw [if_neg known]
        cases inherited : custom.inherited with
        | true =>
            obtain ⟨extra, appended, _⟩ := ih (custom.classFullName :: seen) (own ++ [custom])
            refine ⟨custom :: extra, by simpa using appended, ?_⟩
            simp [known]
        | false =>
            obtain ⟨extra, appended, quiet⟩ := ih (custom.classFullName :: seen) own
            exact ⟨extra, by simpa using appended, by simp [quiet]⟩

def InheritsNothing (item : PropertyInfo τ) : Prop :=
  Quiet (item.declaredAttributes.map (·.classFullName)) item.overriddenAttributes.flatten

theorem fromCustomAttributeArray_nil_iff {array : List CustomAttribute} :
    NeutralAttributeData.fromCustomAttributeArray array = .ok [] ↔ array = [] := by
  cases array with
  | nil => simp [NeutralAttributeData.fromCustomAttributeArray]; rfl
  | cons custom rest =>
      refine iff_of_false ?_ (List.cons_ne_nil _ _)
      intro read
      rw [NeutralAttributeData.fromCustomAttributeArray, List.mapM_cons] at read
      obtain ⟨data, _, read⟩ := except_bind_eq_ok.mp read
      obtain ⟨datas, _, same⟩ := except_bind_eq_ok.mp read
      cases same

theorem fromCustomAttributeArray_own_iff {item : PropertyInfo τ}
    {datas : List NeutralAttributeData}
    (read : NeutralAttributeData.fromCustomAttributeArray item.getCustomAttributes = .ok datas) :
    NeutralAttributeData.fromCustomAttributeArray item.declaredAttributes = .ok datas ↔
      InheritsNothing item := by
  obtain ⟨extra, appended, quiet⟩ := addInherited_foldl item.overriddenAttributes.flatten
    (item.declaredAttributes.map (·.classFullName)) item.declaredAttributes
  rw [PropertyInfo.getCustomAttributes, appended, NeutralAttributeData.fromCustomAttributeArray,
    List.mapM_append] at read
  obtain ⟨own, readOwn, read⟩ := except_bind_eq_ok.mp read
  obtain ⟨others, readOthers, same⟩ := except_bind_eq_ok.mp read
  cases same
  have inherited : others = [] ↔ extra = [] := by
    rw [← fromCustomAttributeArray_nil_iff, NeutralAttributeData.fromCustomAttributeArray, readOthers,
      Except.ok.injEq]
  rw [InheritsNothing, ← quiet, ← inherited, NeutralAttributeData.fromCustomAttributeArray, readOwn,
    Except.ok.injEq, List.self_eq_append_right]

def declaredMembers (graph : TypeGraph τ) (type : τ) :
    List (Except Thrown (List NeutralAttributeData)) :=
  (visibleProperties graph type).map (fun item =>
      NeutralAttributeData.fromCustomAttributeArray item.declaredAttributes) ++
    (visibleFields graph type).map fun item =>
      NeutralAttributeData.fromCustomAttributeArray item.declaredAttributes

def AttributesKept (graph : TypeGraph τ) (targets : List τ) (result : TypeCollectorResult) : Prop :=
  ∀ type, Reachable (Leads graph) targets type → graph.isEnum type = false →
    objectEntry graph type ∈ result.collectedObjectInfo ++ result.collectedClosedTypeGenericInfo ∧
      List.Forall₂ CarriesOwn (declaredMembers graph type) (objectEntry graph type).members

/-- The declarations whose attributes the collector happens to keep. -/
def PlainlyDeclared (graph : TypeGraph τ) (targets : List τ) : Prop :=
  ∀ type, Reachable (Leads graph) targets type → graph.isEnum type = false →
    (∀ item ∈ visibleProperties graph type, InheritsNothing item) ∧
      ∀ item ∈ visibleFields graph type, item.declaredAttributes = []

theorem members_carryOwn_iff {graph : TypeGraph τ} {type : τ} (readable : Readable graph type)
    (notEnum : graph.isEnum type = false) :
    List.Forall₂ CarriesOwn (declaredMembers graph type) (objectEntry graph type).members ↔
      (∀ item ∈ visibleProperties graph type, InheritsNothing item) ∧
        ∀ item ∈ visibleFields graph type, item.declaredAttributes = [] := by
  rw [declaredMembers, objectEntry, forall₂_maps]
  apply and_congr
  · apply forall₂_congr
    intro item shown
    obtain ⟨datas, read⟩ := readAttributes_returns_iff.mpr
      (readable.ofProperties notEnum item (List.mem_filter.mp shown).1)
    obtain ⟨_, _, turned⟩ := except_bind_eq_ok.mp read
    have entry : (propertyEntry graph item).attributes = some datas := by
      rw [propertyEntry, propertyAttributes, read]
      rfl
    rw [carriesOwn_iff, entry, Option.getD_some, fromCustomAttributeArray_own_iff turned]
  · apply forall₂_congr
    intro item _
    rw [carriesOwn_iff, ← fromCustomAttributeArray_nil_iff]
    rfl

variable [DecidableEq τ]

theorem attributesKept_iff {graph : TypeGraph τ} {comparer : Comparer} {targets : List τ}
    {depth : Nat} {result : TypeCollectorResult}
    (returned : collect graph comparer targets depth = value result) :
    AttributesKept graph targets result ↔ PlainlyDeclared graph targets := by
  obtain ⟨types, _, reached, same⟩ := collect_returned returned
  have readable := collect_readable returned
  have described : ∀ type, Reachable (Leads graph) targets type → graph.isEnum type = false →
      objectEntry graph type ∈ result.collectedObjectInfo ++ result.collectedClosedTypeGenericInfo := by
    intro type reachable notEnum
    have listed := (reached type).mpr reachable
    rw [same, List.mem_append, mem_objectInfo, mem_genericInfo]
    cases generic : graph.isGenericType type with
    | true =>
        right
        exact ⟨type, listed, by simp [isOtherGeneric, notEnum, generic], rfl⟩
    | false =>
        left
        exact ⟨type, listed, by simp [isObject, notEnum, generic], rfl⟩
  constructor
  · intro kept type reachable notEnum
    exact (members_carryOwn_iff (readable type reachable) notEnum).mp (kept type reachable notEnum).2
  · intro plain type reachable notEnum
    exact ⟨described type reachable notEnum,
      (members_carryOwn_iff (readable type reachable) notEnum).mpr (plain type reachable notEnum)⟩

end TypeCollectorForAssembly

namespace TypeCollectorForCompilation

open NeutralAttributeData Traversal

variable {σ : Type}

def declaredMembers (symbols : TypeSymbols σ) (type : σ) :
    List (Except Thrown (List NeutralAttributeData)) :=
  (properties symbols type).map (fun item => fromAttributeDataArray item.getAttributes) ++
    (fields symbols type).map fun item => fromAttributeDataArray item.getAttributes

def Listed (symbols : TypeSymbols σ) (disallowInternal : Bool) (declared : List σ) (subject : σ) :
    Prop :=
  ∃ type, Reached (children symbols disallowInternal)
      (targetTypes symbols disallowInternal declared) type ∧
    subject ∈ subjectOf symbols disallowInternal type

def AttributesKept (symbols : TypeSymbols σ) (disallowInternal : Bool) (declared : List σ)
    (result : TypeCollectorResult) : Prop :=
  ∀ type, Listed symbols disallowInternal declared type →
    objectEntry symbols type ∈ result.collectedObjectInfo ++ result.collectedClosedTypeGenericInfo ∧
      List.Forall₂ CarriesOwn (declaredMembers symbols type) (objectEntry symbols type).members

/-- Properties declare what their types do, and fields declare nothing. -/
def PlainlyDeclared (symbols : TypeSymbols σ) (disallowInternal : Bool) (declared : List σ) : Prop :=
  ∀ type, Listed symbols disallowInternal declared type →
    (∀ item ∈ properties symbols type, fromAttributeDataArray item.getAttributes =
        fromAttributeDataArray (symbols.getAttributes item.type)) ∧
      ∀ item ∈ fields symbols type, item.getAttributes = []

theorem fromAttributeDataArray_nil_iff {array : List AttributeData} :
    fromAttributeDataArray array = .ok [] ↔ array = [] := by
  cases array with
  | nil => simp [fromAttributeDataArray]; rfl
  | cons data rest =>
      rw [fromAttributeDataArray, List.mapM_cons]
      cases fromAttributeData data with
      | error thrown => simp [bind, Except.bind]
      | ok neutral =>
          cases List.mapM fromAttributeData rest with
          | error thrown => simp [bind, Except.bind]
          | ok later => simp [bind, Except.bind, pure, Except.pure]

theorem mem_subjectOf {symbols : TypeSymbols σ} {disallowInternal : Bool} {type subject : σ} :
    subject ∈ subjectOf symbols disallowInternal type ↔
      genericOf symbols disallowInternal type = some subject ∨
        objectOf symbols disallowInternal type = some subject := by
  unfold subjectOf genericOf objectOf
  cases treatment symbols disallowInternal type <;> simp

theorem members_carryOwn_iff {symbols : TypeSymbols σ} {type : σ} (readable : Readable symbols type) :
    List.Forall₂ CarriesOwn (declaredMembers symbols type) (objectEntry symbols type).members ↔
      (∀ item ∈ properties symbols type, fromAttributeDataArray item.getAttributes =
        fromAttributeDataArray (symbols.getAttributes item.type)) ∧
      ∀ item ∈ fields symbols type, item.getAttributes = [] := by
  rw [declaredMembers, objectEntry, forall₂_maps]
  apply and_congr
  · apply forall₂_congr
    intro item listed
    obtain ⟨attributes, read⟩ := readable item listed
    have entry : (propertyEntry symbols item).attributes = some attributes := by
      rw [propertyEntry, read]
      rfl
    rw [carriesOwn_iff, entry, read, Option.getD_some]
  · apply forall₂_congr
    intro item _
    rw [carriesOwn_iff, ← fromAttributeDataArray_nil_iff]
    rfl

variable [DecidableEq σ]

theorem attributesKept_iff {symbols : TypeSymbols σ} {disallowInternal : Bool} {comparer : Comparer}
    {declared : List σ} {depth : Nat} {result : TypeCollectorResult}
    (returned : collect symbols disallowInternal comparer declared depth = value result) :
    AttributesKept symbols disallowInternal declared result ↔
      PlainlyDeclared symbols disallowInternal declared := by
  obtain ⟨types, _, reached, readable, same⟩ := collect_returned returned
  have read : ∀ subject, Listed symbols disallowInternal declared subject →
      Readable symbols subject := by
    rintro subject ⟨type, reachable, listed⟩
    exact readable type ((reached type).mpr reachable) subject listed
  have described : ∀ subject, Listed symbols disallowInternal declared subject →
      objectEntry symbols subject ∈
        result.collectedObjectInfo ++ result.collectedClosedTypeGenericInfo := by
    rintro subject ⟨type, reachable, listed⟩
    have finished := (reached type).mpr reachable
    rw [same, List.mem_append, mem_objectInfo, mem_genericInfo]
    rcases mem_subjectOf.mp listed with generic | object
    · right
      exact ⟨subject, ⟨type, finished, generic⟩, rfl⟩
    · left
      exact ⟨subject, ⟨type, finished, object⟩, rfl⟩
  constructor
  · intro kept type listed
    exact (members_carryOwn_iff (read type listed)).mp (kept type listed).2
  · intro plain type listed
    exact ⟨described type listed, (members_carryOwn_iff (read type listed)).mpr (plain type listed)⟩

end TypeCollectorForCompilation

/-- When the members of all collected types carry their own attributes, for each collector. -/
theorem memberAttributes_kept_iff {τ σ : Type} [DecidableEq τ] [DecidableEq σ]
    (graph : TypeGraph τ) (symbols : TypeSymbols σ) (disallowInternal : Bool) (comparer : Comparer)
    (targets : List τ) (declared : List σ) :
    (∀ depth result,
      TypeCollectorForAssembly.collect graph comparer targets depth = value result →
      (TypeCollectorForAssembly.AttributesKept graph targets result ↔
        TypeCollectorForAssembly.PlainlyDeclared graph targets)) ∧
    (∀ depth result,
      TypeCollectorForCompilation.collect symbols disallowInternal comparer declared depth =
        value result →
      (TypeCollectorForCompilation.AttributesKept symbols disallowInternal declared result ↔
        TypeCollectorForCompilation.PlainlyDeclared symbols disallowInternal declared)) :=
  ⟨fun _ _ returned => TypeCollectorForAssembly.attributesKept_iff returned,
    fun _ _ returned => TypeCollectorForCompilation.attributesKept_iff returned⟩

def obsoleteData : AttributeData :=
  ⟨some "global::System.ObsoleteAttribute", [.value (.string "Use Branch")]⟩

/-- `true` is the public class `Holder` with a property of the class `Leaf`. Both the
property and the class `Leaf` are obsolete. -/
def holderAndLeaf : TypeSymbols Bool where
  declaredAccessibility _ := .publicAccess
  containingTypes _ := []
  baseTypes _ := []
  isNamedType _ := true
  isEnum _ := false
  isGenericType _ := false
  isValueType _ := false
  tupleUnderlyingType _ := none
  locations _ := [false]
  containingNamespace _ := some "Sample"
  shortTypeName type := if type then "Holder" else "Leaf"
  fullyQualified type := if type then "global::Sample.Holder" else "global::Sample.Leaf"
  minimallyQualified type := if type then "Holder" else "Leaf"
  binaryWrite type := if type then "Holder" else "Leaf"
  enumUnderlyingType := id
  typeArguments _ := []
  getMembers type :=
    if type then [.property ⟨"Leaf", false, false, false, some .publicAccess, none, [obsoleteData]⟩]
    else []
  getAttributes type := if type then [] else [obsoleteData]

theorem parentAndChild_plain :
    TypeCollectorForAssembly.PlainlyDeclared parentAndChild [true, false] := by
  rintro type - -
  have noOverridden : ∀ item ∈ TypeCollectorForAssembly.visibleProperties parentAndChild type,
      item.overriddenAttributes = [] := by
    cases type <;> decide
  have noField : ∀ item ∈ TypeCollectorForAssembly.visibleFields parentAndChild type,
      item.declaredAttributes = [] := by
    cases type <;> decide
  refine ⟨fun item listed => ?_, noField⟩
  rw [TypeCollectorForAssembly.InheritsNothing, noOverridden item listed]
  simp [TypeCollectorForAssembly.Quiet]

theorem holderAndLeaf_plain :
    TypeCollectorForCompilation.PlainlyDeclared holderAndLeaf true [true, false] := by
  rintro type -
  have sameData : ∀ item ∈ TypeCollectorForCompilation.properties holderAndLeaf type,
      item.getAttributes = holderAndLeaf.getAttributes item.type := by
    cases type <;> decide
  have noField : ∀ item ∈ TypeCollectorForCompilation.fields holderAndLeaf type,
      item.getAttributes = [] := by
    cases type <;> decide
  exact ⟨fun item listed => by rw [sameData item listed], noField⟩

theorem parentAndChild_collected :
    TypeCollectorForAssembly.collect parentAndChild ordinal [true, false] 3 =
      value (TypeCollectorForAssembly.resultOf parentAndChild ordinal [false, true]) :=
  TypeCollectorForAssembly.collect_of_finished
    (fun type _ => TypeCollectorForAssembly.parentAndChild_readable type) rfl

theorem plainMembers_kept :
    TypeCollectorForAssembly.AttributesKept parentAndChild [true, false]
        (TypeCollectorForAssembly.resultOf parentAndChild ordinal [false, true]) ∧
      TypeCollectorForCompilation.AttributesKept holderAndLeaf true [true, false]
        (TypeCollectorForCompilation.resultOf holderAndLeaf true ordinal [false, true]) := by
  have kept := memberAttributes_kept_iff parentAndChild holderAndLeaf true ordinal [true, false]
    [true, false]
  have collected : TypeCollectorForCompilation.collect holderAndLeaf true ordinal [true, false] 3 =
      value (TypeCollectorForCompilation.resultOf holderAndLeaf true ordinal [false, true]) := rfl
  exact ⟨(kept.1 3 _ parentAndChild_collected).mpr parentAndChild_plain,
    (kept.2 3 _ collected).mpr holderAndLeaf_plain⟩

/-- `true` is `ComplexDataModel` with the field `RangeIntField`, an `int`. -/
def complexDataModel : TypeGraph Bool where
  name type := if type then "ComplexDataModel" else "Int32"
  nameSpace type := some (if type then "Stad.Sample" else "System")
  fullName type := some (if type then "Stad.Sample.ComplexDataModel" else "System.Int32")
  isEnum _ := false
  isGenericType _ := false
  isValueType type := !type
  enumUnderlyingType := .ok
  genericTypeArguments _ := []
  getProperties _ := []
  getFields type :=
    if type then [⟨"RangeIntField", false, true, false, false,
      [⟨"Stad.Annotation.RangeAttribute", true, false, .ok (),
        [.ok (.type (some "Stad.Annotation.RangeAttribute")), .ok (.int (-10)), .ok (.int 10),
          .ok (.float 0), .ok (.float 0)]⟩]⟩]
    else []
  getCustomAttributes _ := []
  genericName := by simp

theorem complexDataModel_attributesLost :
    ∃ depth result,
      TypeCollectorForAssembly.collect complexDataModel ordinal [true] depth = value result ∧
        ¬ TypeCollectorForAssembly.AttributesKept complexDataModel [true] result := by
  have readable : ∀ type, TypeCollectorForAssembly.Readable complexDataModel type := by decide
  obtain ⟨depth, result, returned⟩ : ∃ depth result,
      TypeCollectorForAssembly.collect complexDataModel ordinal [true] depth = value result :=
    TypeCollectorForAssembly.collect_succeeds_iff.mpr ⟨Set.toFinite _, fun type _ => readable type⟩
  refine ⟨depth, result, returned, ?_⟩
  rw [TypeCollectorForAssembly.attributesKept_iff returned]
  intro plain
  have listed := (plain true ⟨true, List.mem_singleton_self true, .refl⟩ rfl).2
  exact absurd (listed _ (List.mem_singleton_self _)) (by decide)

end Stad
