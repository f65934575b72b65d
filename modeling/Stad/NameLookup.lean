import Stad.AnalyzerRun
import Stad.CollectorReachable

/-!
The analyzer looks types up by name in what the collector returned. The lookup
takes the first entry with that name, objects before generic types and never an
enum, so it gives the own entry of a type when no other type has its name.
-/

namespace Stad.TypeCollectorForAssembly

open Bounded Bounded.Outcome TypeCollector StadAnalyzer

variable {τ : Type}

def sortedByName (graph : TypeGraph τ) (comparer : Comparer) (types : List τ) : List τ :=
  types.mergeSort fun first second => comparer.le (graph.fullName first) (graph.fullName second)

def lookupOrder (graph : TypeGraph τ) (comparer : Comparer) (types : List τ) : List τ :=
  sortedByName graph comparer (types.filter (isObject graph)) ++
    sortedByName graph comparer (types.filter (isOtherGeneric graph))

def typeNamed (graph : TypeGraph τ) (comparer : Comparer) (types : List τ)
    (name : Option String) : Option τ :=
  (lookupOrder graph comparer types).find? fun type => graph.fullName type = name

/-- The member info that the property or field of type `type` of `owner` is made into. -/
inductive MadeFrom (graph : TypeGraph τ) (owner type : τ) : MemberSerializationInfo → Prop
  | property {item : PropertyInfo τ} : item ∈ visibleProperties graph owner →
      item.propertyType = type → MadeFrom graph owner type (propertyEntry graph item)
  | field {item : FieldInfo τ} : item ∈ visibleFields graph owner →
      item.fieldType = type → MadeFrom graph owner type (memberOfField graph item)

theorem mem_sortedByName {graph : TypeGraph τ} {comparer : Comparer} {types : List τ} {type : τ} :
    type ∈ sortedByName graph comparer types ↔ type ∈ types :=
  (List.mergeSort_perm _ _).mem_iff

theorem orderBy_entries (graph : TypeGraph τ) (comparer : Comparer) (types : List τ) :
    comparer.orderBy (·.fullName) (types.map (objectEntry graph)) =
      (sortedByName graph comparer types).map (objectEntry graph) := by
  symm
  apply List.map_mergeSort
  intro first _ second _
  rfl

theorem resultOf_sorted (graph : TypeGraph τ) (comparer : Comparer) {types : List τ}
    (sorted : types.Pairwise fun first second =>
      comparer.le (graph.fullName first) (graph.fullName second) = true) :
    resultOf graph comparer types =
      ⟨(types.filter (isObject graph)).map (objectEntry graph),
        (types.filter graph.isEnum).map (enumEntry graph),
        (types.filter (isOtherGeneric graph)).map (objectEntry graph)⟩ := by
  have each : ∀ {α : Type} (key : α → Option String) (select : τ → Bool) (entry : τ → α),
      (∀ type, key (entry type) = graph.fullName type) →
      comparer.orderBy key ((types.filter select).map entry) = (types.filter select).map entry := by
    intro α key select entry keyed
    refine List.mergeSort_of_pairwise (List.pairwise_map.mpr ?_)
    simp only [keyed]
    exact sorted.filter select
  have objects := each (·.fullName) (isObject graph) (objectEntry graph) fun _ => rfl
  have enums := each (·.fullName) graph.isEnum (enumEntry graph) fun _ => rfl
  have generics := each (·.fullName) (isOtherGeneric graph) (objectEntry graph) fun _ => rfl
  simp only [resultOf, Workspace.toResult, workspaceOf, objects, enums, generics]

theorem mem_lookupOrder {graph : TypeGraph τ} {comparer : Comparer} {types : List τ} {type : τ} :
    type ∈ lookupOrder graph comparer types ↔ type ∈ types ∧ graph.isEnum type = false := by
  have kinds : isObject graph type = true ∨ isOtherGeneric graph type = true ↔
      graph.isEnum type = false := by
    unfold isObject isOtherGeneric
    cases graph.isEnum type <;> cases graph.isGenericType type <;> simp
  simp only [lookupOrder, List.mem_append, mem_sortedByName, List.mem_filter]
  rw [← and_or_left, kinds]

theorem getObjectInfo_resultOf (graph : TypeGraph τ) (comparer : Comparer) (types : List τ)
    (name : Option String) :
    StadAnalyzer.getObjectInfo (resultOf graph comparer types) name =
      (typeNamed graph comparer types name).map (objectEntry graph) := by
  have objects : (resultOf graph comparer types).collectedObjectInfo =
      (sortedByName graph comparer (types.filter (isObject graph))).map (objectEntry graph) :=
    orderBy_entries graph comparer _
  have generics : (resultOf graph comparer types).collectedClosedTypeGenericInfo =
      (sortedByName graph comparer (types.filter (isOtherGeneric graph))).map (objectEntry graph) :=
    orderBy_entries graph comparer _
  rw [StadAnalyzer.getObjectInfo_find, objects, generics, ← List.map_append, List.find?_map]
  rfl

theorem typeNamed_some {graph : TypeGraph τ} {comparer : Comparer} {types : List τ}
    {name : Option String} {type : τ} (found : typeNamed graph comparer types name = some type) :
    type ∈ types ∧ graph.isEnum type = false ∧ graph.fullName type = name := by
  obtain ⟨listed, notEnum⟩ := mem_lookupOrder.mp (List.mem_of_find?_eq_some found)
  exact ⟨listed, notEnum, by simpa using List.find?_some found⟩

theorem typeNamed_none_iff {graph : TypeGraph τ} {comparer : Comparer} {types : List τ}
    {name : Option String} : typeNamed graph comparer types name = none ↔
      ∀ type ∈ types, graph.fullName type = name → graph.isEnum type = true := by
  unfold typeNamed
  rw [List.find?_eq_none]
  constructor
  · intro absent type listed named
    by_contra notEnum
    exact absent type (mem_lookupOrder.mpr ⟨listed, by simpa using notEnum⟩) (by simpa using named)
  · intro enums type listed named
    obtain ⟨listed, notEnum⟩ := mem_lookupOrder.mp listed
    rw [enums type listed (by simpa using named)] at notEnum
    cases notEnum

theorem MadeFrom.type_eq {graph : TypeGraph τ} {owner type : τ} {member : MemberSerializationInfo}
    (made : MadeFrom graph owner type member) : member.type = graph.fullName type := by
  cases made with
  | property _ same => simp [propertyEntry, memberOfProperty, same]
  | field _ same => simp [memberOfField, same]

theorem MadeFrom.leads {graph : TypeGraph τ} {owner type : τ} {member : MemberSerializationInfo}
    (notEnum : graph.isEnum owner = false) (made : MadeFrom graph owner type member) :
    Leads graph owner type := by
  cases made with
  | @property item shown same =>
      obtain ⟨declared, shown⟩ := List.mem_filter.mp shown
      rw [← same]
      exact Leads.property notEnum declared ((visible_property graph item).mp shown)
  | @field item shown same =>
      obtain ⟨declared, shown⟩ := List.mem_filter.mp shown
      obtain ⟨isPublic, isInstance⟩ := (visible_field graph item).mp shown
      rw [← same]
      exact Leads.field notEnum declared isPublic isInstance

/-- What the analyzer finds under the name of a member's type: the own info of a
type that is not an enum and shares its name with no other info, some info of
that name in any case, and nothing under the name of an enum. -/
structure LookupAgrees (graph : TypeGraph τ) (included : τ → Prop) (result : TypeCollectorResult)
    (type : τ) (name : Option String) : Prop where
  own : graph.isEnum type = false →
    (∀ other, included other → graph.isEnum other = false →
      graph.fullName other = graph.fullName type → objectEntry graph other = objectEntry graph type) →
    StadAnalyzer.getObjectInfo result name = some (objectEntry graph type)
  found : graph.isEnum type = false → (StadAnalyzer.getObjectInfo result name).isSome
  missing : (∀ other, included other → graph.fullName other = graph.fullName type →
    graph.isEnum other = true) → StadAnalyzer.getObjectInfo result name = none

variable [DecidableEq τ]

theorem getObjectInfo_agrees {graph : TypeGraph τ} {comparer : Comparer} {targets : List τ}
    {depth : Nat} {result : TypeCollectorResult} {owner type : τ} {member : MemberSerializationInfo}
    (returned : collect graph comparer targets depth = value result)
    (collected : Reachable (Leads graph) targets owner) (notEnum : graph.isEnum owner = false)
    (made : MadeFrom graph owner type member) :
    LookupAgrees graph (Reachable (Leads graph) targets) result type member.type := by
  obtain ⟨types, _, reached, rfl⟩ := collect_returned returned
  obtain ⟨target, isTarget, path⟩ := collected
  have listed : type ∈ types :=
    (reached type).mpr ⟨target, isTarget, path.tail (made.leads notEnum)⟩
  rw [made.type_eq]
  constructor
  · intro plain alone
    rw [getObjectInfo_resultOf]
    cases first : typeNamed graph comparer types (graph.fullName type) with
    | none =>
        have impossible := typeNamed_none_iff.mp first type listed rfl
        rw [plain] at impossible
        cases impossible
    | some other =>
        obtain ⟨otherListed, otherPlain, named⟩ := typeNamed_some first
        rw [Option.map_some, alone other ((reached other).mp otherListed) otherPlain named]
  · intro plain
    rw [getObjectInfo_resultOf, Option.isSome_map, Option.isSome_iff_ne_none]
    intro first
    have impossible := typeNamed_none_iff.mp first type listed rfl
    rw [plain] at impossible
    cases impossible
  · intro enums
    rw [getObjectInfo_resultOf, Option.map_eq_none_iff, typeNamed_none_iff]
    exact fun other otherListed => enums other ((reached other).mp otherListed)

theorem collect_parentAndChild : collect parentAndChild ordinal [true] 3 =
    value (resultOf parentAndChild ordinal [false, true]) :=
  collect_of_finished (fun type _ => parentAndChild_readable type) rfl

theorem parentAndChild_agrees :
    LookupAgrees parentAndChild (Reachable (Leads parentAndChild) [true])
      (resultOf parentAndChild ordinal [false, true]) false (some "Sample.Child") := by
  have listed : ⟨"Child", false, some ⟨true⟩, none, [obsoleteAttribute], []⟩ ∈
      visibleProperties parentAndChild true := by decide
  exact getObjectInfo_agrees collect_parentAndChild ⟨true, List.mem_singleton_self true, .refl⟩ rfl
    (MadeFrom.property listed rfl)

/-! `shelf` has a property of the enum type `binding` and one of the class `far`. The class
`near` of another assembly has the full name of `far`. -/

inductive Library where
  | shelf
  | binding
  | near
  | far
  deriving DecidableEq, Repr

def library : TypeGraph Library where
  name
    | .shelf => "Shelf"
    | .binding => "Binding"
    | _ => "Book"
  nameSpace _ := some "Sample"
  fullName
    | .shelf => some "Sample.Shelf"
    | .binding => some "Sample.Binding"
    | _ => some "Sample.Book"
  isEnum type := type = .binding
  isGenericType _ := false
  isValueType type := type = .binding
  enumUnderlyingType := .ok
  genericTypeArguments _ := []
  getProperties type :=
    if type = .shelf then
      [⟨"Binding", .binding, some ⟨true⟩, none, [], []⟩, ⟨"Book", .far, some ⟨true⟩, none, [], []⟩]
    else []
  getFields type := if type = .near then [⟨"Title", .binding, true, false, false, []⟩] else []
  getCustomAttributes type :=
    if type = .shelf then
      [⟨"Stad.Annotation.DataSetDefinition", true, false, .ok (),
        [.ok (.type (some "Stad.Annotation.DataSetDefinition"))]⟩]
    else []
  genericName := by simp

def libraryResult : TypeCollectorResult :=
  ⟨[.near, .far, .shelf].map (objectEntry library), [enumEntry library .binding], []⟩

def shelfMember (name type : String) : MemberSerializationInfo :=
  ⟨true, false, false, true, some ("Sample." ++ type), name, type, some []⟩

theorem library_readable (type : Library) : Readable library type := by
  cases type <;> decide

theorem collect_library :
    collect library ordinal [.near, .far, .binding, .shelf] 3 = value libraryResult := by
  have explored : collect library ordinal [.near, .far, .binding, .shelf] 3 =
      value (resultOf library ordinal [.binding, .near, .far, .shelf]) :=
    collect_of_finished (fun type _ => library_readable type) rfl
  rw [explored, resultOf_sorted library ordinal (by decide)]
  rfl

theorem library_misled :
    collect library ordinal [.near, .far, .binding, .shelf] 3 = value libraryResult ∧
    (objectEntry library .shelf).members = [shelfMember "Binding" "Binding", shelfMember "Book" "Book"] ∧
    StadAnalyzer.getObjectInfo libraryResult (some "Sample.Binding") = none ∧
    makeRegistry libraryResult 3 = error (.exception "Member not found, Sample.Binding") ∧
    StadAnalyzer.getObjectInfo libraryResult (some "Sample.Book") =
      some (objectEntry library .near) ∧
    (objectEntry library .near).members ≠ (objectEntry library .far).members :=
  ⟨collect_library, by rfl, by rfl, by rfl, by rfl, by decide⟩

end Stad.TypeCollectorForAssembly
