import Stad.CompilationOutcome
import Stad.NameLookup

/-!
One program seen by the compiler and, once it is compiled, by reflection. The
compiler shows the members of a class and of its bases one class after the other;
reflection shows them in one list that leaves out what is overridden or hidden.
-/

namespace Stad

open Bounded Bounded.Outcome TypeCollector Traversal

/-- A property as the compiler and as reflection show it. Properties that override
one another have the same slot. -/
structure PropertyDeclaration (τ : Type) where
  symbol : PropertySymbol τ
  info : PropertyInfo τ
  slot : Option Nat
  sameName : symbol.isIndexer = false → info.name = symbol.name
  sameType : info.propertyType = symbol.type
  sameGet : info.getMethod = symbol.getMethod.map fun access => ⟨access = .publicAccess⟩
  sameSet : info.setMethod = symbol.setMethod.map fun access => ⟨access = .publicAccess⟩

structure FieldDeclaration (τ : Type) where
  symbol : FieldSymbol τ
  info : FieldInfo τ
  sameName : info.name = symbol.name
  sameType : info.fieldType = symbol.type
  samePublic : info.isPublic = decide (symbol.declaredAccessibility = .publicAccess)
  sameStatic : info.isStatic = symbol.isStatic
  explicit : symbol.declaredAccessibility = .publicAccess → symbol.isImplicitlyDeclared = false

structure Program (τ : Type) where
  declared : List τ
  bases : τ → List τ
  properties : τ → List (PropertyDeclaration τ)
  fields : τ → List (FieldDeclaration τ)

/-- Which inherited properties reflection does not list, because of one nearer by. -/
structure Reflection (τ : Type) where
  hides : PropertyDeclaration τ → PropertyDeclaration τ → Bool
  overridden : ∀ derived base, derived.slot ≠ none → derived.slot = base.slot →
    hides derived base = true

section Views

variable {τ : Type}

def PropertyDeclaration.isPublic (property : PropertyDeclaration τ) : Bool :=
  property.symbol.getMethod = some .publicAccess || property.symbol.setMethod = some .publicAccess

def PropertyDeclaration.isPlain (property : PropertyDeclaration τ) : Bool :=
  !property.symbol.isStatic && !property.symbol.isIndexer

def FieldDeclaration.isPublic (field : FieldDeclaration τ) : Bool :=
  field.symbol.declaredAccessibility = .publicAccess

def FieldDeclaration.isInstance (field : FieldDeclaration τ) : Bool := !field.symbol.isStatic

def Program.chain (program : Program τ) (type : τ) : List τ := type :: program.bases type

def Program.getFields (program : Program τ) (type : τ) : List (FieldDeclaration τ) :=
  (program.fields type).filter (·.isPublic) ++
    ((program.bases type).flatMap program.fields).filter fun field =>
      field.isPublic && field.isInstance

namespace Reflection

variable (reflection : Reflection τ)

def isHidden (nearer : List (PropertyDeclaration τ)) (property : PropertyDeclaration τ) : Bool :=
  nearer.any fun derived => reflection.hides derived property

def inherited (nearer : List (PropertyDeclaration τ)) :
    List (List (PropertyDeclaration τ)) → List (PropertyDeclaration τ)
  | [] => []
  | properties :: rest =>
    (properties.filter fun property => (property.isPublic && !property.symbol.isStatic) &&
      !reflection.isHidden nearer property) ++ inherited (nearer ++ properties) rest

def leftOut (nearer : List (PropertyDeclaration τ)) :
    List (List (PropertyDeclaration τ)) → List (PropertyDeclaration τ)
  | [] => []
  | properties :: rest =>
    (properties.filter fun property => (property.isPublic && !property.symbol.isStatic) &&
      reflection.isHidden nearer property) ++ leftOut (nearer ++ properties) rest

def getProperties (program : Program τ) (type : τ) : List (PropertyDeclaration τ) :=
  (program.properties type).filter (·.isPublic) ++
    reflection.inherited (program.properties type) ((program.bases type).map program.properties)

/-- The inherited properties that only the compiler shows. -/
def sourceOnly (program : Program τ) (type : τ) : List (PropertyDeclaration τ) :=
  (reflection.leftOut (program.properties type) ((program.bases type).map program.properties)).filter
    fun property => !property.symbol.isIndexer

/-- The static properties and indexers, which only reflection lists. -/
def assemblyOnly (program : Program τ) (type : τ) : List (PropertyDeclaration τ) :=
  (reflection.getProperties program type).filter fun property => !property.isPlain

end Reflection

structure SourceView (program : Program τ) (symbols : TypeSymbols τ) : Prop where
  isPublic : ∀ type ∈ program.declared, symbols.declaredAccessibility type = .publicAccess
  topLevel : ∀ type ∈ program.declared, symbols.containingTypes type = []
  named : ∀ type ∈ program.declared, symbols.isNamedType type = true
  notEnum : ∀ type ∈ program.declared, symbols.isEnum type = false
  notGeneric : ∀ type ∈ program.declared, symbols.isGenericType type = false
  notTuple : ∀ type ∈ program.declared, symbols.tupleUnderlyingType type = none
  inSource : ∀ type ∈ program.declared, (symbols.locations type).headD false = false
  baseTypes : ∀ type ∈ program.declared, symbols.baseTypes type = program.bases type
  properties : ∀ type ∈ program.declared, ∀ link ∈ program.chain type,
    (symbols.getMembers link).filterMap MemberSymbol.asProperty =
      (program.properties link).map (·.symbol)
  fields : ∀ type ∈ program.declared, ∀ link ∈ program.chain type,
    (symbols.getMembers link).filterMap MemberSymbol.asField = (program.fields link).map (·.symbol)

structure AssemblyView (reflection : Reflection τ) (program : Program τ) (graph : TypeGraph τ) :
    Prop where
  notEnum : ∀ type ∈ program.declared, graph.isEnum type = false
  notGeneric : ∀ type ∈ program.declared, graph.isGenericType type = false
  properties : ∀ type ∈ program.declared,
    (graph.getProperties type).Perm ((reflection.getProperties program type).map (·.info))
  fields : ∀ type ∈ program.declared,
    (graph.getFields type).Perm ((program.getFields type).map (·.info))

def recordedNames (info : ObjectSerializationInfo) : List String := info.members.map (·.name)

end Views

section Names

variable {τ : Type} {reflection : Reflection τ} {program : Program τ}

theorem visible_symbol (symbols : TypeSymbols τ) (property : PropertyDeclaration τ) :
    visible (TypeCollectorForCompilation.memberOfProperty symbols property.symbol none) =
      (property.isPublic && !property.symbol.isStatic) := by
  simp only [visible, TypeCollectorForCompilation.memberOfProperty, PropertyDeclaration.isPublic]
  rw [← Bool.and_or_distrib_right]

theorem visible_info (graph : TypeGraph τ) (property : PropertyDeclaration τ) :
    visible (TypeCollectorForAssembly.memberOfProperty graph property.info none) =
      property.isPublic := by
  have accessor : ∀ access : Option Accessibility,
      (access.map fun access => (⟨decide (access = .publicAccess)⟩ : MethodInfo)).any (·.isPublic) =
        decide (access = some .publicAccess) := by
    intro access
    cases access <;> simp
  simp only [visible, TypeCollectorForAssembly.memberOfProperty, PropertyDeclaration.isPublic,
    property.sameGet, property.sameSet, accessor]

theorem visible_fieldSymbol (symbols : TypeSymbols τ) (field : FieldDeclaration τ) :
    (!field.symbol.isImplicitlyDeclared &&
      visible (TypeCollectorForCompilation.memberOfField symbols field.symbol)) =
      (field.isPublic && field.isInstance) := by
  simp only [visible, TypeCollectorForCompilation.memberOfField, FieldDeclaration.isPublic,
    FieldDeclaration.isInstance]
  by_cases isPublic : field.symbol.declaredAccessibility = .publicAccess
  · rw [field.explicit isPublic]
    cases field.symbol.isStatic <;> simp [isPublic]
  · simp [isPublic]

theorem visible_fieldInfo (graph : TypeGraph τ) (field : FieldDeclaration τ) :
    visible (TypeCollectorForAssembly.memberOfField graph field.info) =
      (field.isPublic && field.isInstance) := by
  simp only [visible, TypeCollectorForAssembly.memberOfField, FieldDeclaration.isPublic,
    FieldDeclaration.isInstance, field.samePublic, field.sameStatic]
  cases decide (field.symbol.declaredAccessibility = .publicAccess) <;>
    cases field.symbol.isStatic <;> simp

theorem inherited_leftOut_perm (reflection : Reflection τ) (nearer : List (PropertyDeclaration τ))
    (chain : List (List (PropertyDeclaration τ))) :
    (reflection.inherited nearer chain ++ reflection.leftOut nearer chain).Perm
      (chain.flatten.filter fun property => property.isPublic && !property.symbol.isStatic) := by
  induction chain generalizing nearer with
  | nil => exact List.Perm.nil
  | cons properties rest ih =>
      simp only [Reflection.inherited, Reflection.leftOut, List.flatten_cons, List.filter_append]
      have here := List.filter_append_perm (fun property => !reflection.isHidden nearer property)
        (properties.filter fun property => property.isPublic && !property.symbol.isStatic)
      simp only [List.filter_filter, Bool.not_not, Bool.and_comm (!reflection.isHidden nearer _),
        Bool.and_comm (reflection.isHidden nearer _)] at here
      refine List.Perm.trans ?_ (here.append (ih (nearer ++ properties)))
      simp only [List.append_assoc]
      refine List.Perm.append_left _ ?_
      rw [← List.append_assoc, ← List.append_assoc]
      exact List.Perm.append_right _ List.perm_append_comm

theorem inherited_visible (nearer : List (PropertyDeclaration τ))
    (chain : List (List (PropertyDeclaration τ))) :
    ∀ property ∈ reflection.inherited nearer chain,
      property.isPublic = true ∧ property.symbol.isStatic = false := by
  induction chain generalizing nearer with
  | nil => simp [Reflection.inherited]
  | cons properties rest ih =>
      refine List.forall_mem_append.mpr ⟨?_, ih (nearer ++ properties)⟩
      intro property kept
      have passed := (List.mem_filter.mp kept).2
      simp only [Bool.and_eq_true, Bool.not_eq_true'] at passed
      exact passed.1

theorem getProperties_public (type : τ) :
    ∀ property ∈ reflection.getProperties program type, property.isPublic = true := by
  refine List.forall_mem_append.mpr ⟨?_, ?_⟩
  · intro property kept
    exact (List.mem_filter.mp kept).2
  · intro property kept
    exact (inherited_visible _ _ property kept).1

theorem plain_perm (reflection : Reflection τ) (program : Program τ) (type : τ) :
    (((program.chain type).flatMap program.properties).filter fun property =>
        property.isPublic && property.isPlain).Perm
      ((reflection.getProperties program type).filter (·.isPlain) ++
        reflection.sourceOnly program type) := by
  have own : ((program.properties type).filter (·.isPublic)).filter (·.isPlain) =
      (program.properties type).filter fun property => property.isPublic && property.isPlain := by
    rw [List.filter_filter]
    exact List.filter_congr fun property _ => Bool.and_comm _ _
  have listed : (reflection.inherited (program.properties type)
        ((program.bases type).map program.properties)).filter (·.isPlain) =
      (reflection.inherited (program.properties type)
        ((program.bases type).map program.properties)).filter fun property =>
          !property.symbol.isIndexer := by
    refine List.filter_congr fun property kept => ?_
    simp [PropertyDeclaration.isPlain, (inherited_visible _ _ property kept).2]
  have behind := (inherited_leftOut_perm reflection (program.properties type)
    ((program.bases type).map program.properties)).filter fun property => !property.symbol.isIndexer
  rw [List.filter_append, List.filter_filter] at behind
  have together : (((program.bases type).map program.properties).flatten.filter fun property =>
        !property.symbol.isIndexer && (property.isPublic && !property.symbol.isStatic)) =
      ((program.bases type).flatMap program.properties).filter fun property =>
        property.isPublic && property.isPlain := by
    rw [List.flatMap_def]
    refine List.filter_congr fun property _ => ?_
    rw [PropertyDeclaration.isPlain, Bool.and_comm, Bool.and_assoc]
  rw [together] at behind
  rw [Program.chain, List.flatMap_cons, List.filter_append, Reflection.getProperties,
    List.filter_append, own, listed, List.append_assoc]
  exact List.Perm.append_left _ behind.symm

theorem plain_sameName {property : PropertyDeclaration τ} (plain : property.isPlain = true) :
    property.info.name = property.symbol.name := by
  rw [PropertyDeclaration.isPlain, Bool.and_eq_true, Bool.not_eq_true', Bool.not_eq_true'] at plain
  exact property.sameName plain.2

section Source

variable {symbols : TypeSymbols τ}

theorem source_properties (view : SourceView program symbols) {type : τ}
    (declared : type ∈ program.declared) :
    (TypeCollectorForCompilation.properties symbols type).map (·.name) =
      (((program.chain type).flatMap program.properties).filter fun property =>
        property.isPublic && property.isPlain).map (·.info.name) := by
  have members : (TypeCollectorForCompilation.getAllMembers symbols type).filterMap
        MemberSymbol.asProperty =
      ((program.chain type).flatMap program.properties).map (·.symbol) := by
    rw [TypeCollectorForCompilation.getAllMembers, view.baseTypes type declared,
      List.filterMap_flatMap, List.map_flatMap]
    exact List.flatMap_congr fun link listed => view.properties type declared link listed
  rw [TypeCollectorForCompilation.properties, members, List.filter_map, List.map_map]
  have kept : ((program.chain type).flatMap program.properties).filter
        ((fun item => !item.isIndexer &&
          visible (TypeCollectorForCompilation.memberOfProperty symbols item none)) ∘ (·.symbol)) =
      ((program.chain type).flatMap program.properties).filter fun property =>
        property.isPublic && property.isPlain := by
    refine List.filter_congr fun property _ => ?_
    rw [Function.comp_apply, visible_symbol, PropertyDeclaration.isPlain, Bool.and_comm,
      Bool.and_assoc]
  rw [kept]
  refine List.map_congr_left fun property listed => ?_
  have passed := (List.mem_filter.mp listed).2
  rw [Bool.and_eq_true] at passed
  exact (plain_sameName passed.2).symm

theorem source_fields (view : SourceView program symbols) {type : τ}
    (declared : type ∈ program.declared) :
    (TypeCollectorForCompilation.fields symbols type).map (·.name) =
      (((program.chain type).flatMap program.fields).filter fun field =>
        field.isPublic && field.isInstance).map (·.info.name) := by
  have members : (TypeCollectorForCompilation.getAllMembers symbols type).filterMap
        MemberSymbol.asField =
      ((program.chain type).flatMap program.fields).map (·.symbol) := by
    rw [TypeCollectorForCompilation.getAllMembers, view.baseTypes type declared,
      List.filterMap_flatMap, List.map_flatMap]
    exact List.flatMap_congr fun link listed => view.fields type declared link listed
  rw [TypeCollectorForCompilation.fields, members, List.filter_map, List.map_map]
  have kept : ((program.chain type).flatMap program.fields).filter
        ((fun item => !item.isImplicitlyDeclared &&
          visible (TypeCollectorForCompilation.memberOfField symbols item)) ∘ (·.symbol)) =
      ((program.chain type).flatMap program.fields).filter fun field =>
        field.isPublic && field.isInstance :=
    List.filter_congr fun field _ => visible_fieldSymbol symbols field
  rw [kept]
  exact List.map_congr_left fun field _ => field.sameName.symm

theorem source_recorded (view : SourceView program symbols) {type : τ}
    (declared : type ∈ program.declared) :
    recordedNames (TypeCollectorForCompilation.objectEntry symbols type) =
      (((program.chain type).flatMap program.properties).filter fun property =>
        property.isPublic && property.isPlain).map (·.info.name) ++
      (((program.chain type).flatMap program.fields).filter fun field =>
        field.isPublic && field.isInstance).map (·.info.name) := by
  rw [← source_properties view declared, ← source_fields view declared]
  simp [recordedNames, TypeCollectorForCompilation.objectEntry,
    TypeCollectorForCompilation.propertyEntry, TypeCollectorForCompilation.memberOfProperty,
    TypeCollectorForCompilation.memberOfField, Function.comp_def]

end Source

section Assembly

variable {graph : TypeGraph τ}

theorem assembly_recorded (view : AssemblyView reflection program graph) {type : τ}
    (declared : type ∈ program.declared) :
    (recordedNames (TypeCollectorForAssembly.objectEntry graph type)).Perm
      ((reflection.getProperties program type).map (·.info.name) ++
      (((program.chain type).flatMap program.fields).filter fun field =>
        field.isPublic && field.isInstance).map (·.info.name)) := by
  have properties := ((view.properties type declared).filter fun item =>
    visible (TypeCollectorForAssembly.memberOfProperty graph item none)).map (·.name)
  have fields := ((view.fields type declared).filter fun item =>
    visible (TypeCollectorForAssembly.memberOfField graph item)).map (·.name)
  have allListed : (reflection.getProperties program type).filter
        ((fun item => visible (TypeCollectorForAssembly.memberOfProperty graph item none)) ∘ (·.info)) =
      reflection.getProperties program type :=
    List.filter_eq_self.mpr fun property listed => by
      rw [Function.comp_apply, visible_info]
      exact getProperties_public type property listed
  have instances : (program.getFields type).filter
        ((fun item => visible (TypeCollectorForAssembly.memberOfField graph item)) ∘ (·.info)) =
      ((program.chain type).flatMap program.fields).filter fun field =>
        field.isPublic && field.isInstance := by
    have shown : ((fun item => visible (TypeCollectorForAssembly.memberOfField graph item)) ∘
        fun field : FieldDeclaration τ => field.info) = fun field => field.isPublic && field.isInstance :=
      funext fun field => visible_fieldInfo graph field
    rw [shown, Program.getFields, Program.chain, List.flatMap_cons, List.filter_append,
      List.filter_append, List.filter_filter, List.filter_filter]
    congr 1
    · exact List.filter_congr fun field _ => by cases field.isPublic <;> simp
    · exact List.filter_congr fun field _ => by cases field.isPublic <;> simp
  rw [List.filter_map, allListed, List.map_map] at properties
  rw [List.filter_map, instances, List.map_map] at fields
  have entries : recordedNames (TypeCollectorForAssembly.objectEntry graph type) =
      ((TypeCollectorForAssembly.visibleProperties graph type).map (·.name)) ++
        (TypeCollectorForAssembly.visibleFields graph type).map (·.name) := by
    simp [recordedNames, TypeCollectorForAssembly.objectEntry,
      TypeCollectorForAssembly.propertyEntry, TypeCollectorForAssembly.memberOfProperty,
      TypeCollectorForAssembly.memberOfField, Function.comp_def]
  rw [entries]
  exact properties.append fields

end Assembly

theorem recordedNames_perm_iff {symbols : TypeSymbols τ} {graph : TypeGraph τ}
    (source : SourceView program symbols) (assembly : AssemblyView reflection program graph)
    {type : τ} (declared : type ∈ program.declared) :
    (recordedNames (TypeCollectorForCompilation.objectEntry symbols type)).Perm
        (recordedNames (TypeCollectorForAssembly.objectEntry graph type)) ↔
      ((reflection.sourceOnly program type).map (·.info.name)).Perm
        ((reflection.assemblyOnly program type).map (·.info.name)) := by
  have shown := (plain_perm reflection program type).map (·.info.name)
  have listed := (List.filter_append_perm (·.isPlain)
    (reflection.getProperties program type)).map (·.info.name)
  rw [List.map_append] at shown listed
  rw [source_recorded source declared, (assembly_recorded assembly declared).congr_right,
    List.perm_append_right_iff, shown.congr_left, ← listed.congr_right, List.perm_append_left_iff]
  rfl

theorem treatment_declared {symbols : TypeSymbols τ} (view : SourceView program symbols)
    (disallowInternal : Bool) {type : τ} (declared : type ∈ program.declared) :
    TypeCollectorForCompilation.treatment symbols disallowInternal type = .object := by
  have allowed :
      TypeCollectorForCompilation.isAllowAccessibility symbols disallowInternal type = true := by
    simp [TypeCollectorForCompilation.isAllowAccessibility, TypeCollectorForCompilation.isAllowed,
      view.topLevel type declared, view.isPublic type declared]
  have inSource : (symbols.locations type).head?.getD false = false := by
    simpa using view.inSource type declared
  simp [TypeCollectorForCompilation.treatment, allowed, view.named type declared,
    view.notEnum type declared, view.notGeneric type declared, view.notTuple type declared,
    inSource]

variable [DecidableEq τ]

theorem source_collected {symbols : TypeSymbols τ} {disallowInternal : Bool} {comparer : Comparer}
    {depth : Nat} {result : TypeCollectorResult} (view : SourceView program symbols)
    (compiled : TypeCollectorForCompilation.collect symbols disallowInternal comparer
      program.declared depth = value result) {type : τ} (declared : type ∈ program.declared) :
    TypeCollectorForCompilation.objectEntry symbols type ∈ result.collectedObjectInfo := by
  obtain ⟨types, _, reached, _, same⟩ := TypeCollectorForCompilation.collect_returned compiled
  have target : type ∈ TypeCollectorForCompilation.targetTypes symbols disallowInternal
      program.declared :=
    List.mem_filter.mpr ⟨declared, by simp [view.isPublic type declared]⟩
  have finished : type ∈ types := (reached type).mpr ⟨type, target, .refl⟩
  have isObject : TypeCollectorForCompilation.objectOf symbols disallowInternal type = some type := by
    rw [TypeCollectorForCompilation.objectOf, treatment_declared view disallowInternal declared]
  rw [same, TypeCollectorForCompilation.mem_objectInfo]
  exact ⟨type, ⟨type, finished, isObject⟩, rfl⟩

theorem assembly_collected {graph : TypeGraph τ} {comparer : Comparer} {targets : List τ}
    {depth : Nat} {result : TypeCollectorResult} (view : AssemblyView reflection program graph)
    (loaded : TypeCollectorForAssembly.collect graph comparer targets depth = value result)
    {type : τ} (declared : type ∈ program.declared) (target : type ∈ targets) :
    TypeCollectorForAssembly.objectEntry graph type ∈ result.collectedObjectInfo := by
  obtain ⟨types, _, reached, same⟩ := TypeCollectorForAssembly.collect_returned loaded
  have finished : type ∈ types := (reached type).mpr ⟨type, target, .refl⟩
  have isObject : TypeCollectorForAssembly.isObject graph type = true := by
    rw [TypeCollectorForAssembly.isObject, view.notEnum type declared,
      view.notGeneric type declared]
    rfl
  rw [same, TypeCollectorForAssembly.mem_objectInfo]
  exact ⟨type, finished, isObject, rfl⟩

/-- Both collectors return, and record each declared type with the same member names. -/
structure MemberNamesAgree (symbols : TypeSymbols τ) (graph : TypeGraph τ) (disallowInternal : Bool)
    (comparer : Comparer) (declared targets : List τ) : Prop where
  compiled : ∃ result,
    TypeCollectorForCompilation.Collects symbols disallowInternal comparer declared result
  loaded : ∃ result, TypeCollectorForAssembly.Collects graph comparer targets result
  agree : ∀ result result',
    TypeCollectorForCompilation.Collects symbols disallowInternal comparer declared result →
    TypeCollectorForAssembly.Collects graph comparer targets result' →
    ∀ type ∈ declared,
      TypeCollectorForCompilation.objectEntry symbols type ∈ result.collectedObjectInfo ∧
      TypeCollectorForAssembly.objectEntry graph type ∈ result'.collectedObjectInfo ∧
      (recordedNames (TypeCollectorForCompilation.objectEntry symbols type)).Perm
        (recordedNames (TypeCollectorForAssembly.objectEntry graph type))

end Names

inductive Tally
  | int
  | counter
  | meter
  deriving DecidableEq

instance : Fintype Tally := ⟨{.int, .counter, .meter}, by rintro ⟨⟩ <;> decide⟩

def intProperty (name : String) (isStatic : Bool) : PropertyDeclaration Tally where
  symbol := ⟨name, .int, false, isStatic, some .publicAccess, none, []⟩
  info := ⟨name, .int, some ⟨true⟩, none, [], []⟩
  slot := none
  sameName := by simp
  sameType := rfl
  sameGet := by simp
  sameSet := rfl

/-- `class Counter : Meter` with the property `Count`, static if `isShared`, and `class Meter`
with the property `Size`, both of type `int`. -/
def counterProgram (isShared : Bool) : Program (Tally) where
  declared := [.counter, .meter]
  bases
    | .counter => [.meter]
    | _ => []
  properties
    | .int => []
    | .counter => [intProperty "Count" isShared]
    | .meter => [intProperty "Size" false]
  fields _ := []

def slotReflection : Reflection (Tally) where
  hides derived base := derived.slot.isSome && derived.slot = base.slot
  overridden := by
    intro derived base slotted same
    simp [Option.isSome_iff_ne_none, slotted, ← same]

def counterSymbols (isShared : Bool) : TypeSymbols (Tally) where
  declaredAccessibility _ := .publicAccess
  containingTypes _ := []
  baseTypes := (counterProgram isShared).bases
  isNamedType _ := true
  isEnum _ := false
  isGenericType _ := false
  isValueType type := type == .int
  tupleUnderlyingType _ := none
  locations type := [type == .int]
  containingNamespace type := some (if type = .int then "System" else "Tally")
  shortTypeName
    | .int => "int"
    | .counter => "Counter"
    | .meter => "Meter"
  fullyQualified
    | .int => "int"
    | .counter => "global::Tally.Counter"
    | .meter => "global::Tally.Meter"
  minimallyQualified
    | .int => "int"
    | .counter => "Counter"
    | .meter => "Meter"
  binaryWrite
    | .int => "Int32"
    | .counter => "Counter"
    | .meter => "Meter"
  enumUnderlyingType := id
  typeArguments _ := []
  getMembers type :=
    ((counterProgram isShared).properties type).map fun property => .property property.symbol
  getAttributes _ := []

def counterGraph (isShared : Bool) : TypeGraph (Tally) where
  name
    | .int => "Int32"
    | .counter => "Counter"
    | .meter => "Meter"
  nameSpace type := some (if type = .int then "System" else "Tally")
  fullName
    | .int => some "System.Int32"
    | .counter => some "Tally.Counter"
    | .meter => some "Tally.Meter"
  isEnum _ := false
  isGenericType _ := false
  isValueType type := type == .int
  enumUnderlyingType := .ok
  genericTypeArguments _ := []
  getProperties type := (slotReflection.getProperties (counterProgram isShared) type).map (·.info)
  getFields _ := []
  getCustomAttributes _ := []
  genericName := by simp

theorem counter_sourceView (isShared : Bool) :
    SourceView (counterProgram isShared) (counterSymbols isShared) where
  isPublic _ _ := rfl
  topLevel _ _ := rfl
  named _ _ := rfl
  notEnum _ _ := rfl
  notGeneric _ _ := rfl
  notTuple _ _ := rfl
  inSource := by cases isShared <;> decide
  baseTypes _ _ := rfl
  properties := by cases isShared <;> decide
  fields := by cases isShared <;> decide

theorem counter_assemblyView (isShared : Bool) :
    AssemblyView slotReflection (counterProgram isShared) (counterGraph isShared) where
  notEnum _ _ := rfl
  notGeneric _ _ := rfl
  properties _ _ := List.Perm.refl _
  fields := by cases isShared <;> decide

theorem counter_describable (isShared : Bool) (type : Tally) :
    TypeCollectorForCompilation.Describable (counterSymbols isShared) true type := by
  have unattributed (other : Tally) :
      TypeCollectorForCompilation.AttributesReadable (counterSymbols isShared) other :=
    fun data listed => absurd listed (List.not_mem_nil)
  have subject (other : Tally) :
      TypeCollectorForCompilation.SubjectReadable (counterSymbols isShared) other :=
    ⟨unattributed other, fun item _ _ => unattributed item.type⟩
  exact ⟨fun _ => unattributed type, fun other _ => subject other, fun _ => subject type,
    fun _ underlying listed => (nomatch listed), fun _ _ => List.cons_ne_nil _ _⟩

theorem counter_readable (isShared : Bool) :
    ∀ type, TypeCollectorForAssembly.Readable (counterGraph isShared) type := by
  cases isShared <;> decide

end Stad
