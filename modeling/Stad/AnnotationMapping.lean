import Stad.AnnotationCore
import Stad.Bounded

/-!
What `MakeAnnotationInfo` does with the attributes the assembly collector hands
to it. The collector records the full name of an attribute's class, and the
switch of the analyzer compares it with the simple names of the annotation
classes.
-/

namespace Stad

open StadAnalyzer NeutralAttributeData Bounded

/-- The annotation classes that the switch of `MakeAnnotationInfo` names. -/
inductive AnnotationClass where
  | reference
  | range
  | ignoreMember
  | name
  | desc
  | dataSetDefinition
  deriving DecidableEq, Repr

namespace AnnotationClass

def simpleName : AnnotationClass → String
  | reference => "ReferenceAttribute"
  | range => "RangeAttribute"
  | ignoreMember => "IgnoreMemberAttribute"
  | name => "NameAttribute"
  | desc => "DescAttribute"
  | dataSetDefinition => "DataSetDefinition"

def fullName (annotationClass : AnnotationClass) : String :=
  "Stad.Annotation." ++ annotationClass.simpleName

def fromArgument (arguments : List Argument) : AnnotationClass → Except Thrown StadAnnotation
  | reference => do return .reference (← ReferenceAttribute.fromArgument arguments)
  | range => do return .range (← RangeAttribute.fromArgument arguments)
  | ignoreMember => .ok .ignoreMember
  | name => do return .name (← NameAttribute.fromArgument arguments)
  | desc => do return .desc (← DescAttribute.fromArgument arguments)
  | dataSetDefinition => .ok .dataSetDefinition

def all : List AnnotationClass := [reference, range, ignoreMember, name, desc, dataSetDefinition]

end AnnotationClass

def StadAnnotation.className : StadAnnotation → String
  | dataSetDefinition => "DataSetDefinition"
  | range _ => "RangeAttribute"
  | name _ => "NameAttribute"
  | desc _ => "DescAttribute"
  | reference _ => "ReferenceAttribute"
  | ignoreMember => "IgnoreMemberAttribute"
  | jsonFormatterProxy _ => "JsonFormatterProxyAttribute"

/-- The attributes the analyzer is meant to understand, which have a neutral form. -/
inductive Supported (custom : CustomAttribute) : Prop
  | named (annotationClass : AnnotationClass) (data : NeutralAttributeData) (made : StadAnnotation) :
      custom.classFullName = annotationClass.fullName → fromCustomAttribute custom = .ok data →
      annotationClass.fromArgument data.arguments = .ok made → Supported custom
  | system (rest : String) (data : NeutralAttributeData) :
      custom.classFullName = "System." ++ rest → fromCustomAttribute custom = .ok data →
      Supported custom
  | jsonFormatter (data : NeutralAttributeData) :
      custom.classFullName = "Utf8Json.JsonFormatterAttribute" →
      fromCustomAttribute custom = .ok data → data.arguments ≠ [] → Supported custom

def IsAnnotated (custom : CustomAttribute) : Prop :=
  ∃ annotationClass : AnnotationClass, custom.classFullName = annotationClass.fullName

def expectedClass (custom : CustomAttribute) : Option String :=
  if custom.classFullName = "Utf8Json.JsonFormatterAttribute" then
    some "JsonFormatterProxyAttribute"
  else
    (AnnotationClass.all.find? fun annotationClass =>
      custom.classFullName = annotationClass.fullName).map AnnotationClass.simpleName

/-- One annotation of its class for every attribute that stands for one, in order. -/
def MapsInOrder (attributes : List CustomAttribute) : Prop :=
  ∃ datas info, fromCustomAttributeArray attributes = .ok datas ∧
    makeAnnotationInfo (some datas) = .ok info ∧
    (info.annotations.getD []).map StadAnnotation.className = attributes.filterMap expectedClass

theorem contains_start (part rest : String) : contains (part ++ rest) part = true := by
  simp only [contains, String.toList_append, decide_eq_true_eq]
  exact (List.prefix_append _ _).isInfix

theorem starting_ne {part rest other : String} (lacks : contains other part = false) :
    part ++ rest ≠ other := by
  rintro rfl
  simp [contains_start] at lacks

theorem fullName_notSystem (annotationClass : AnnotationClass) :
    contains annotationClass.fullName "System." = false := by
  cases annotationClass <;> decide

theorem fromCustomAttribute_type {custom : CustomAttribute} {data : NeutralAttributeData}
    (turned : fromCustomAttribute custom = .ok data) : data.type = some custom.classFullName := by
  obtain ⟨values, _, made⟩ := Bounded.except_bind_eq_ok.mp turned
  cases made
  rfl

theorem handleAttribute_system {data : NeutralAttributeData} {rest : String}
    (named : data.type = some ("System." ++ rest)) : handleAttribute data = .ok none := by
  simp [handleAttribute, named, contains_start]

theorem handleAttribute_jsonFormatter {data : NeutralAttributeData}
    (named : data.type = some "Utf8Json.JsonFormatterAttribute") (recorded : data.arguments ≠ []) :
    ∃ proxy, handleAttribute data = .ok (some (.jsonFormatterProxy proxy)) := by
  obtain ⟨first, rest, values⟩ := List.exists_cons_of_ne_nil recorded
  have notSystem : contains "Utf8Json.JsonFormatterAttribute" "System." = false := by decide
  cases first with
  | type fullName =>
      cases fullName <;>
        exact ⟨_, by simp [handleAttribute, named, values, notSystem,
          JsonFormatterProxyAttribute.ofArguments, item]; rfl⟩
  | _ =>
      exact ⟨_, by simp [handleAttribute, named, values, notSystem,
        JsonFormatterProxyAttribute.ofArguments, item]; rfl⟩

/-- The full name of an annotation class is none of the names the switch knows. -/
theorem handleAttribute_named {data : NeutralAttributeData} {annotationClass : AnnotationClass}
    (named : data.type = some annotationClass.fullName) :
    handleAttribute data =
      .error (.exception ("Not handled attribute : " ++ annotationClass.fullName)) := by
  have notSystem := fullName_notSystem annotationClass
  have notSimple {simple : String} (unqualified : contains simple "Stad.Annotation." = false) :
      annotationClass.fullName ≠ simple := starting_ne unqualified
  simp only [handleAttribute, named, notSystem]
  rw [if_neg (notSimple (by decide)), if_neg (by decide), if_neg (notSimple (by decide)),
    if_neg (notSimple (by decide)), if_neg (notSimple (by decide)), if_neg (notSimple (by decide)),
    if_neg (notSimple (by decide)), if_neg (notSimple (by decide)), if_neg (notSimple (by decide))]

theorem expectedClass_system {custom : CustomAttribute} {rest : String}
    (named : custom.classFullName = "System." ++ rest) : expectedClass custom = none := by
  simp only [expectedClass, named, if_neg (starting_ne (by decide : contains
    "Utf8Json.JsonFormatterAttribute" "System." = false)), Option.map_eq_none_iff,
    List.find?_eq_none, decide_eq_true_eq]
  intro annotationClass _
  exact starting_ne (fullName_notSystem annotationClass)

theorem makeAnnotations_total {datas : List NeutralAttributeData} {made : List StadAnnotation}
    (returned : makeAnnotations datas = .ok made) {data : NeutralAttributeData}
    (member : data ∈ datas) : ∃ found, handleAttribute data = .ok found := by
  induction datas generalizing made with
  | nil => simp at member
  | cons head rest ih =>
      rw [makeAnnotations] at returned
      obtain ⟨found, first, returned⟩ := Bounded.except_bind_eq_ok.mp returned
      obtain ⟨others, tail, _⟩ := Bounded.except_bind_eq_ok.mp returned
      rcases List.mem_cons.mp member with same | later
      · exact ⟨found, by rw [same, first]⟩
      · exact ih tail later

theorem makeAnnotations_mapsInOrder {attributes : List CustomAttribute}
    (supported : ∀ custom ∈ attributes, Supported custom)
    (unannotated : ∀ custom ∈ attributes, ¬IsAnnotated custom) :
    ∃ datas made, fromCustomAttributeArray attributes = .ok datas ∧
      makeAnnotations datas = .ok made ∧
      made.map StadAnnotation.className = attributes.filterMap expectedClass := by
  induction attributes with
  | nil => exact ⟨[], [], rfl, rfl, rfl⟩
  | cons custom rest ih =>
      obtain ⟨datas, made, turnedAll, returned, classes⟩ := ih
        (fun other member => supported other (List.mem_cons_of_mem _ member))
        (fun other member => unannotated other (List.mem_cons_of_mem _ member))
      have array {data : NeutralAttributeData} (turned : fromCustomAttribute custom = .ok data) :
          fromCustomAttributeArray (custom :: rest) = .ok (data :: datas) := by
        rw [fromCustomAttributeArray, List.mapM_cons]
        refine except_bind_eq_ok.mpr ⟨data, turned, ?_⟩
        exact except_bind_eq_ok.mpr ⟨datas, turnedAll, rfl⟩
      cases supported custom (by simp) with
      | named annotationClass _ _ named =>
          exact absurd ⟨annotationClass, named⟩ (unannotated custom (by simp))
      | system tail data named turned =>
          have typed := fromCustomAttribute_type turned
          rw [named] at typed
          refine ⟨data :: datas, made, array turned, ?_, ?_⟩
          · simp [makeAnnotations, handleAttribute_system typed, returned, bind, Except.bind, pure,
              Except.pure]
          · rw [List.filterMap_cons, expectedClass_system named, classes]
      | jsonFormatter data named turned recorded =>
          have typed := fromCustomAttribute_type turned
          rw [named] at typed
          obtain ⟨proxy, first⟩ := handleAttribute_jsonFormatter typed recorded
          refine ⟨data :: datas, .jsonFormatterProxy proxy :: made, array turned, ?_, ?_⟩
          · simp [makeAnnotations, first, returned, bind, Except.bind, pure, Except.pure]
          · simp [expectedClass, named, classes, StadAnnotation.className]

theorem mapsInOrder_iff (attributes : List CustomAttribute) :
    MapsInOrder attributes ↔
      ∃ datas made, fromCustomAttributeArray attributes = .ok datas ∧
        makeAnnotations datas = .ok made ∧
        made.map StadAnnotation.className = attributes.filterMap expectedClass := by
  refine exists_congr fun datas => ?_
  rw [exists_and_left, exists_and_left]
  refine and_congr_right fun _ => ?_
  cases datas with
  | nil => simp [makeAnnotationInfo, isDefaultOrEmpty, makeAnnotations]
  | cons data rest =>
      simp only [makeAnnotationInfo, isDefaultOrEmpty, Option.getD_some, List.isEmpty_cons,
        Bool.false_eq_true, if_false]
      cases makeAnnotations (data :: rest) with
      | error thrown => simp [bind, Except.bind]
      | ok made => simp [bind, Except.bind, pure, Except.pure]

/-- Attributes the analyzer is meant to understand are mapped faithfully exactly
when none of them is an annotation of `Stad.Annotation`. -/
theorem makeAnnotationInfo_mapsInOrder_iff (attributes : List CustomAttribute)
    (supported : ∀ custom ∈ attributes, Supported custom) :
    MapsInOrder attributes ↔ ∀ custom ∈ attributes, ¬IsAnnotated custom := by
  rw [mapsInOrder_iff]
  constructor
  · rintro ⟨datas, made, turnedAll, returned, _⟩ custom member ⟨annotationClass, named⟩
    obtain ⟨data, turned⟩ := mapM_returns_iff.mp ⟨datas, turnedAll⟩ custom member
    obtain ⟨found, first⟩ := makeAnnotations_total returned
      ((mem_mapM_iff turnedAll).mpr ⟨custom, member, turned⟩)
    have typed := fromCustomAttribute_type turned
    rw [named] at typed
    rw [handleAttribute_named typed] at first
    cases first
  · exact makeAnnotations_mapsInOrder supported

def serializableAttribute : CustomAttribute :=
  ⟨"System.SerializableAttribute", false, false, .ok (),
    [.ok (.type (some "System.SerializableAttribute"))]⟩

def jsonFormatterAttribute : CustomAttribute :=
  ⟨"Utf8Json.JsonFormatterAttribute", true, false, .ok (),
    [.ok (.type (some "Stad.ModelKeyJsonFormatter")), .ok .null,
      .ok (.type (some "Utf8Json.JsonFormatterAttribute"))]⟩

def dataSetDefinitionAttribute : CustomAttribute :=
  ⟨"Stad.Annotation.DataSetDefinition", true, false, .ok (),
    [.ok (.type (some "Stad.Annotation.DataSetDefinition"))]⟩

theorem makeAnnotationInfo_mapsInOrder_serializable :
    MapsInOrder [serializableAttribute, jsonFormatterAttribute, serializableAttribute] := by
  have serializable : Supported serializableAttribute := .system "SerializableAttribute" _ rfl rfl
  have jsonFormatter : Supported jsonFormatterAttribute := .jsonFormatter _ rfl rfl (by simp)
  refine (makeAnnotationInfo_mapsInOrder_iff _ ?_).mpr ?_
  · simp [serializable, jsonFormatter]
  · have free (custom : CustomAttribute) (unlike : ∀ annotationClass : AnnotationClass,
        custom.classFullName ≠ annotationClass.fullName) : ¬IsAnnotated custom :=
      fun ⟨annotationClass, named⟩ => unlike annotationClass named
    have serializableFree := free serializableAttribute (by rintro (_ | _) <;> decide)
    have jsonFormatterFree := free jsonFormatterAttribute (by rintro (_ | _) <;> decide)
    simp [serializableFree, jsonFormatterFree]

theorem makeAnnotationInfo_dataSetDefinition_throws :
    Supported dataSetDefinitionAttribute ∧ ¬MapsInOrder [dataSetDefinitionAttribute] := by
  refine ⟨.named .dataSetDefinition _ .dataSetDefinition rfl rfl rfl, ?_⟩
  rintro ⟨datas, info, turned, returned, _⟩
  cases turned
  cases returned

end Stad
