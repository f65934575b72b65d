import Stad.CollectorCore
import Stad.Traversal

/-!
`CollectCore` is a depth-first traversal of the graph whose edges are the member
types and the generic arguments: the workspace is at every moment determined by
which types were marked and which were finished. What the collector returns is
therefore determined by the types that are reachable from the targets.
-/

namespace Stad

open Bounded Bounded.Outcome Traversal

namespace TypeCollector

variable {τ : Type}

def visible (member : MemberSerializationInfo) : Bool := member.isReadable || member.isWritable

theorem collectMember_eq (call : CollectCall τ) (state : MemberState τ)
    (member : MemberSerializationInfo) (memberType : τ) :
    collectMember call state member memberType =
      if visible member then
        call (state.1, memberType) >>= fun workspace => value (workspace, state.2 ++ [member])
      else value state := by
  have tested : (!member.isReadable && !member.isWritable) = !visible member :=
    (Bool.not_or _ _).symm
  cases shown : visible member with
  | true => simp [collectMember, tested, shown]
  | false => simp [collectMember, tested, shown]

theorem members_eq {ι : Type} (call : CollectCall τ)
    {collectItem : MemberState τ → ι → Outcome Thrown (MemberState τ)} {shown : ι → Bool}
    {member : ι → MemberSerializationInfo} {memberType : ι → τ} (items : List ι)
    (each : ∀ item ∈ items, ∀ state, collectItem state item =
      if shown item then
        call (state.1, memberType item) >>= fun workspace => value (workspace, state.2 ++ [member item])
      else value state)
    (workspace : Workspace τ) (members : List MemberSerializationInfo) :
    items.foldlM collectItem (workspace, members) =
      (fun last => (last, members ++ (items.filter shown).map member)) <$>
        ((items.filter shown).map memberType).foldlM
          (fun workspace type => call (workspace, type)) workspace := by
  induction items generalizing workspace members with
  | nil => simp
  | cons item rest ih =>
      obtain ⟨here, later⟩ := List.forall_mem_cons.mp each
      rw [List.foldlM_cons, here]
      cases isShown : shown item with
      | true => simp [isShown, ih later]
      | false => simp [isShown, ih later]

theorem orderBy_perm (comparer : Comparer) {α : Type} (key : α → Option String)
    (infos : List α) : (comparer.orderBy key infos).Perm infos := List.mergeSort_perm _ _

@[simp] theorem mem_orderBy {comparer : Comparer} {α : Type} {key : α → Option String}
    {infos : List α} {info : α} : info ∈ comparer.orderBy key infos ↔ info ∈ infos :=
  (orderBy_perm comparer key infos).mem_iff

theorem orderBy_sorted (comparer : Comparer) {α : Type} (key : α → Option String)
    (infos : List α) : (comparer.orderBy key infos).Pairwise fun first second =>
      comparer.le (key first) (key second) = true := by
  apply List.pairwise_mergeSort
  · intro first second third
    exact comparer.trans (key first) (key second) (key third)
  · intro first second
    exact comparer.total (key first) (key second)

end TypeCollector

namespace TypeCollectorForAssembly

open TypeCollector

section Entries

variable {τ : Type} (graph : TypeGraph τ)

def visibleProperties (type : τ) : List (PropertyInfo τ) :=
  (graph.getProperties type).filter fun item => visible (memberOfProperty graph item none)

def visibleFields (type : τ) : List (FieldInfo τ) :=
  (graph.getFields type).filter fun item => visible (memberOfField graph item)

def memberTypes (type : τ) : List τ :=
  (visibleProperties graph type).map (·.propertyType) ++ (visibleFields graph type).map (·.fieldType)

def children (type : τ) : List τ :=
  if graph.isEnum type then []
  else if graph.isGenericType type then graph.genericTypeArguments type ++ memberTypes graph type
  else memberTypes graph type

def propertyEntry (item : PropertyInfo τ) : MemberSerializationInfo :=
  memberOfProperty graph item (propertyAttributes item).toOption

def objectEntry (type : τ) : ObjectSerializationInfo where
  isClass := !graph.isValueType type
  constructorParameters := none
  members := (visibleProperties graph type).map (propertyEntry graph) ++
    (visibleFields graph type).map (memberOfField graph)
  name := getMinimallyQualifiedClassName (graph.fullName type)
  fullName := graph.fullName type
  nameSpace := graph.nameSpace type
  attributes := (typeAttributes graph type).toOption

def enumEntry (type : τ) : EnumSerializationInfo where
  name := graph.name type
  nameSpace := graph.nameSpace type
  fullName := graph.fullName type
  underlyingType := (graph.enumUnderlyingType type).toOption.bind graph.fullName
  attributes := (typeAttributes graph type).toOption

def isOtherGeneric (type : τ) : Bool := !graph.isEnum type && graph.isGenericType type

def isObject (type : τ) : Bool := !graph.isEnum type && !graph.isGenericType type

/-- No constructor throws among these attributes, and no getter among those that are shown. -/
structure AttributesReadable (created shown : List CustomAttribute) : Prop where
  created : ∀ custom ∈ created, custom.created = .ok ()
  shown : ∀ custom ∈ shown, ∀ value ∈ custom.memberValues, value.isOk = true

/-- What `CollectCore` asks of the type itself can be answered. Its properties count
whether or not they are visible. -/
structure Readable (type : τ) : Prop where
  own : AttributesReadable (graph.getCustomAttributes type) (graph.getCustomAttributes type)
  underlying : graph.isEnum type = true → (graph.enumUnderlyingType type).isOk = true
  ofProperties : graph.isEnum type = false → ∀ item ∈ graph.getProperties type,
    AttributesReadable (item.declaredAttributes ++ item.overriddenAttributes.flatten)
      item.getCustomAttributes

instance (created shown : List CustomAttribute) : Decidable (AttributesReadable created shown) :=
  decidable_of_iff ((∀ custom ∈ created, custom.created = .ok ()) ∧
      ∀ custom ∈ shown, ∀ value ∈ custom.memberValues, value.isOk = true)
    ⟨fun ⟨created, shown⟩ => ⟨created, shown⟩, fun readable => ⟨readable.created, readable.shown⟩⟩

instance (type : τ) : Decidable (Readable graph type) :=
  decidable_of_iff (AttributesReadable (graph.getCustomAttributes type)
        (graph.getCustomAttributes type) ∧
      (graph.isEnum type = true → (graph.enumUnderlyingType type).isOk = true) ∧
      (graph.isEnum type = false → ∀ item ∈ graph.getProperties type,
        AttributesReadable (item.declaredAttributes ++ item.overriddenAttributes.flatten)
          item.getCustomAttributes))
    ⟨fun ⟨own, underlying, ofProperties⟩ => ⟨own, underlying, ofProperties⟩,
      fun readable => ⟨readable.own, readable.underlying, readable.ofProperties⟩⟩

def workspaceOf (state : State τ) : Workspace τ where
  alreadyCollected := state.visited
  collectedObjectInfo := (state.finished.filter (isObject graph)).map (objectEntry graph)
  collectedEnumInfo := (state.finished.filter graph.isEnum).map (enumEntry graph)
  collectedClosedTypeGenericInfo :=
    (state.finished.filter (isOtherGeneric graph)).map (objectEntry graph)

def addEntry (type : τ) (workspace : Workspace τ) : Workspace τ :=
  if graph.isEnum type then
    { workspace with collectedEnumInfo := workspace.collectedEnumInfo ++ [enumEntry graph type] }
  else if graph.isGenericType type then
    { workspace with
      collectedClosedTypeGenericInfo :=
        workspace.collectedClosedTypeGenericInfo ++ [objectEntry graph type] }
  else
    { workspace with
      collectedObjectInfo := workspace.collectedObjectInfo ++ [objectEntry graph type] }

def resultOf (comparer : Comparer) (types : List τ) : TypeCollectorResult :=
  (workspaceOf graph ⟨[], types⟩).toResult comparer

variable {graph} {comparer : Comparer} {types : List τ}

theorem mem_objectInfo {info : ObjectSerializationInfo} :
    info ∈ (resultOf graph comparer types).collectedObjectInfo ↔
      ∃ type ∈ types, isObject graph type = true ∧ objectEntry graph type = info := by
  simp [resultOf, Workspace.toResult, workspaceOf, and_assoc]

theorem mem_genericInfo {info : ObjectSerializationInfo} :
    info ∈ (resultOf graph comparer types).collectedClosedTypeGenericInfo ↔
      ∃ type ∈ types, isOtherGeneric graph type = true ∧ objectEntry graph type = info := by
  simp [resultOf, Workspace.toResult, workspaceOf, and_assoc]

theorem addEntry_finish (state : State τ) (type : τ) :
    addEntry graph type (workspaceOf graph state) =
      workspaceOf graph { state with finished := state.finished ++ [type] } := by
  cases enum : graph.isEnum type <;> cases generic : graph.isGenericType type <;>
    simp [addEntry, workspaceOf, isObject, isOtherGeneric, enum, generic]

@[simp] theorem addEntry_alreadyCollected (type : τ) (workspace : Workspace τ) :
    (addEntry graph type workspace).alreadyCollected = workspace.alreadyCollected := by
  unfold addEntry
  split
  · rfl
  · split <;> rfl

theorem readAttributes_returns_iff {created shown : List CustomAttribute} :
    (∃ attributes, readAttributes created shown = .ok attributes) ↔
      AttributesReadable created shown := by
  have each (custom : CustomAttribute) :
      (∃ data, NeutralAttributeData.fromCustomAttribute custom = .ok data) ↔
        ∀ value ∈ custom.memberValues, value.isOk = true := by
    have values : (∃ arguments, custom.memberValues.mapM id = .ok arguments) ↔
        ∀ value ∈ custom.memberValues, ∃ argument, value = .ok argument := mapM_returns_iff
    have isOk (value : Except Thrown Argument) :
        (∃ argument, value = .ok argument) ↔ value.isOk = true := by
      cases value <;> simp [Except.isOk, Except.toBool]
    simp only [NeutralAttributeData.fromCustomAttribute, except_bind_eq_ok, ← isOk, ← values]
    exact ⟨fun ⟨_, arguments, read, _⟩ => ⟨arguments, read⟩, fun ⟨arguments, read⟩ =>
      ⟨_, arguments, read, rfl⟩⟩
  have all : (∃ datas, NeutralAttributeData.fromCustomAttributeArray shown = .ok datas) ↔
      ∀ custom ∈ shown, ∀ value ∈ custom.memberValues, value.isOk = true := by
    rw [NeutralAttributeData.fromCustomAttributeArray, mapM_returns_iff]
    simp only [each]
  constructor
  · rintro ⟨attributes, returned⟩
    obtain ⟨_, created, read⟩ := except_bind_eq_ok.mp returned
    exact ⟨forM_returns_iff.mp created, all.mp ⟨attributes, read⟩⟩
  · intro readable
    obtain ⟨datas, read⟩ := all.mpr readable.shown
    exact ⟨datas, except_bind_eq_ok.mpr ⟨(), forM_returns_iff.mpr readable.created, read⟩⟩

end Entries

section Simulation

variable {τ : Type} {graph : TypeGraph τ}

theorem collectProperty_eq (graph : TypeGraph τ) {item : PropertyInfo τ}
    (readable : AttributesReadable (item.declaredAttributes ++ item.overriddenAttributes.flatten)
      item.getCustomAttributes) (call : CollectCall τ) (state : MemberState τ) :
    collectProperty graph call state item =
      if visible (memberOfProperty graph item none) then
        call (state.1, item.propertyType) >>= fun workspace =>
          value (workspace, state.2 ++ [propertyEntry graph item])
      else value state := by
  obtain ⟨attributes, read⟩ := readAttributes_returns_iff.mpr readable
  have entry : propertyEntry graph item = memberOfProperty graph item (some attributes) := by
    rw [propertyEntry, propertyAttributes, read]
    rfl
  simp only [collectProperty, propertyAttributes, read, entry, ofExcept_ok, value_bind]
  exact collectMember_eq call state _ _

theorem collectField_eq (graph : TypeGraph τ) (call : CollectCall τ) (state : MemberState τ)
    (item : FieldInfo τ) : collectField graph call state item =
      if visible (memberOfField graph item) then
        call (state.1, item.fieldType) >>= fun workspace =>
          value (workspace, state.2 ++ [memberOfField graph item])
      else value state :=
  collectMember_eq call state _ _

theorem collectProperty_readable {call : CollectCall τ} {state next : MemberState τ}
    {item : PropertyInfo τ} (returned : collectProperty graph call state item = value next) :
    AttributesReadable (item.declaredAttributes ++ item.overriddenAttributes.flatten)
      item.getCustomAttributes := by
  obtain ⟨attributes, read, _⟩ := bind_eq_value.mp returned
  exact readAttributes_returns_iff.mp ⟨attributes, ofExcept_eq_value.mp read⟩

theorem getObjectInfo_eq {type : τ} (readable : Readable graph type)
    (notEnum : graph.isEnum type = false) (call : CollectCall τ) (workspace : Workspace τ) :
    getObjectInfo graph call workspace type =
      (fun last => (last, objectEntry graph type)) <$>
        (memberTypes graph type).foldlM (fun workspace item => call (workspace, item)) workspace := by
  obtain ⟨attributes, read⟩ := readAttributes_returns_iff.mpr readable.own
  have properties := members_eq call (graph.getProperties type)
    (fun item listed => collectProperty_eq graph (readable.ofProperties notEnum item listed) call)
    workspace []
  have fields (middle : MemberState τ) := members_eq call (graph.getFields type)
    (fun item _ state => collectField_eq graph call state item) middle.1 middle.2
  simp only [getObjectInfo, properties, bind_map_left, fields, typeAttributes, read,
    memberTypes, visibleProperties, visibleFields, List.foldlM_append, map_bind, List.nil_append,
    objectEntry]
  rfl

theorem getObjectInfo_readable {call : CollectCall τ} {workspace : Workspace τ} {type : τ}
    {last : Workspace τ × ObjectSerializationInfo} (notEnum : graph.isEnum type = false)
    (returned : getObjectInfo graph call workspace type = value last) : Readable graph type := by
  obtain ⟨middle, looped, returned⟩ := bind_eq_value.mp returned
  obtain ⟨collected, _, returned⟩ := bind_eq_value.mp returned
  obtain ⟨attributes, read, _⟩ := bind_eq_value.mp returned
  refine ⟨readAttributes_returns_iff.mp ⟨attributes, ofExcept_eq_value.mp read⟩,
    by simp [notEnum], fun _ item listed => ?_⟩
  obtain ⟨state, next, stepped⟩ := foldlM_rounds looped item listed
  exact collectProperty_readable stepped

theorem not_isArraySegment {type : τ} (generic : graph.isGenericType type = true) :
    isArraySegment (graph.fullName type) = false := by
  have arity := graph.genericName type generic
  simp only [isArraySegment, Bool.or_eq_false_iff, decide_eq_false_iff_not]
  constructor
  · intro named
    have marked := arity _ named
    revert marked
    decide
  · intro named
    have marked := arity _ named
    revert marked
    decide

variable [DecidableEq τ]

theorem collectCoreBody_eq {call : CollectCall τ} {workspace : Workspace τ} {type : τ}
    (readable : Readable graph type) (unknown : type ∉ workspace.alreadyCollected) :
    collectCoreBody graph call (workspace, type) = addEntry graph type <$>
      (children graph type).foldlM (fun workspace item => call (workspace, item))
        { workspace with alreadyCollected := type :: workspace.alreadyCollected } := by
  simp only [collectCoreBody, if_neg unknown]
  cases enum : graph.isEnum type with
  | true =>
      obtain ⟨attributes, read⟩ := readAttributes_returns_iff.mpr readable.own
      have underlying := readable.underlying enum
      cases known : graph.enumUnderlyingType type with
      | error thrown => simp [known, Except.isOk, Except.toBool] at underlying
      | ok underlyingType =>
          simp [collectEnum, typeAttributes, read, known, children, enum, addEntry, enumEntry,
            Except.toOption]
  | false =>
      have described := getObjectInfo_eq readable enum call
      cases generic : graph.isGenericType type with
      | true =>
          simp [collectGeneric, not_isArraySegment generic, described, children, enum, generic,
            addEntry, List.foldlM_append, map_eq_pure_bind]
      | false =>
          simp [collectObject, described, children, enum, generic, addEntry, map_eq_pure_bind]

theorem collectCoreBody_readable {call : CollectCall τ} {workspace next : Workspace τ} {type : τ}
    (unknown : type ∉ workspace.alreadyCollected)
    (returned : collectCoreBody graph call (workspace, type) = value next) :
    Readable graph type := by
  simp only [collectCoreBody, if_neg unknown] at returned
  cases enum : graph.isEnum type with
  | true =>
      rw [enum] at returned
      obtain ⟨underlyingType, known, returned⟩ := bind_eq_value.mp returned
      obtain ⟨attributes, read, _⟩ := bind_eq_value.mp returned
      refine ⟨readAttributes_returns_iff.mp ⟨attributes, ofExcept_eq_value.mp read⟩, fun _ => ?_,
        by simp [enum]⟩
      rw [ofExcept_eq_value.mp known]
      rfl
  | false =>
      rw [enum] at returned
      cases generic : graph.isGenericType type with
      | true =>
          simp only [generic, collectGeneric, not_isArraySegment generic] at returned
          obtain ⟨middle, _, returned⟩ := bind_eq_value.mp returned
          obtain ⟨collected, described, _⟩ := bind_eq_value.mp returned
          exact getObjectInfo_readable enum described
      | false =>
          rw [generic] at returned
          obtain ⟨collected, described, _⟩ := bind_eq_value.mp returned
          exact getObjectInfo_readable enum described

/-- Among types whose attributes can be read, `CollectCore` is a traversal. -/
theorem collectCore_eq {inside : τ → Prop}
    (closed : ∀ type, inside type → ∀ child ∈ children graph type, inside child)
    (readable : ∀ type, inside type → Readable graph type) (depth : Nat) (state : State τ) {type : τ}
    (within : inside type) : collectCore graph depth (workspaceOf graph state, type) =
      workspaceOf graph <$> explore (children graph) depth state type := by
  induction depth generalizing state type with
  | zero => rfl
  | succ depth ih =>
      have body : collectCore graph (depth + 1) =
          collectCoreBody graph (collectCore graph depth) := rfl
      have explored : (explore (children graph) (depth + 1) state type : Outcome Thrown (State τ)) =
          exploreBody (children graph)
            (fun call => explore (children graph) depth call.1 call.2) (state, type) := rfl
      rw [body, explored]
      by_cases known : type ∈ state.visited
      · simp [collectCoreBody, exploreBody, workspaceOf, known]
      · have unknown : type ∉ (workspaceOf graph state).alreadyCollected := known
        have marked : { workspaceOf graph state with
            alreadyCollected := type :: (workspaceOf graph state).alreadyCollected } =
            workspaceOf graph { state with visited := type :: state.visited } := rfl
        have loop (state : State τ) : (children graph type).foldlM
            (fun workspace item => collectCore graph depth (workspace, item))
            (workspaceOf graph state) = workspaceOf graph <$>
              (children graph type).foldlM (explore (children graph) depth) state :=
          foldlM_view_of_mem (fun child listed state => ih state (closed type within child listed)) state
        rw [collectCoreBody_eq (readable type within) unknown, marked, loop]
        simp only [exploreBody, if_neg known, map_bind, Functor.map_map, addEntry_finish]
        rfl

/-- The workspace of a run that has finished the types in `state`, all of which it could read. -/
structure Represents (graph : TypeGraph τ) (state : State τ) (workspace : Workspace τ) : Prop where
  workspace : workspace = workspaceOf graph state
  readable : ∀ type ∈ state.finished, Readable graph type

theorem collectCore_follows {depth : Nat} {state : State τ} {workspace next : Workspace τ} {type : τ}
    (start : Represents graph state workspace)
    (returned : collectCore graph depth (workspace, type) = value next) :
    ∃ last, explore (children graph) depth state type = (value last : Outcome Thrown (State τ)) ∧
      Represents graph last next := by
  induction depth generalizing state workspace next type with
  | zero => simp [collectCore] at returned
  | succ depth ih =>
      have body : collectCore graph (depth + 1) =
          collectCoreBody graph (collectCore graph depth) := rfl
      rw [body] at returned
      have marks : workspace.alreadyCollected = state.visited := by rw [start.workspace]; rfl
      by_cases known : type ∈ state.visited
      · have seen : type ∈ workspace.alreadyCollected := by rwa [marks]
        simp only [collectCoreBody, if_pos seen, pure_eq, value.injEq] at returned
        refine ⟨state, by simp [explore, exploreBody, known], ?_⟩
        rw [← returned]
        exact start
      · have unseen : type ∉ workspace.alreadyCollected := by rwa [marks]
        have readable := collectCoreBody_readable unseen returned
        rw [collectCoreBody_eq readable unseen] at returned
        obtain ⟨last, looped, added⟩ := map_eq_value.mp returned
        have marked : Represents graph { state with visited := type :: state.visited }
            { workspace with alreadyCollected := type :: workspace.alreadyCollected } := by
          refine ⟨?_, start.readable⟩
          rw [start.workspace]
          rfl
        obtain ⟨final, followed, kept⟩ : ∃ final, (children graph type).foldlM
            (explore (children graph) depth) { state with visited := type :: state.visited } =
              (value final : Outcome Thrown (State τ)) ∧ Represents graph final last := by
          apply foldlM_follows (Represents graph) _ marked looped
          intro state workspace item next related stepped
          exact ih related stepped
        refine ⟨{ final with finished := final.finished ++ [type] }, ?_, ?_, ?_⟩
        · unfold explore at followed
          simp [explore, exploreBody, known, followed]
        · rw [← added, kept.workspace, addEntry_finish]
        · exact List.forall_mem_append.mpr ⟨kept.readable, by simpa using readable⟩

end Simulation

/-! What the collector is for. -/

section Specification

variable {τ : Type}

inductive Leads (graph : TypeGraph τ) : τ → τ → Prop
  | property {type : τ} {item : PropertyInfo τ} (notEnum : graph.isEnum type = false)
      (declared : item ∈ graph.getProperties type)
      (accessible : item.getMethod = some ⟨true⟩ ∨ item.setMethod = some ⟨true⟩) :
      Leads graph type item.propertyType
  | field {type : τ} {item : FieldInfo τ} (notEnum : graph.isEnum type = false)
      (declared : item ∈ graph.getFields type) (isPublic : item.isPublic = true)
      (isInstance : item.isStatic = false) : Leads graph type item.fieldType
  | genericArgument {type item : τ} (notEnum : graph.isEnum type = false)
      (generic : graph.isGenericType type = true)
      (listed : item ∈ graph.genericTypeArguments type) : Leads graph type item

def Reachable (edge : τ → τ → Prop) (targets : List τ) (type : τ) : Prop :=
  ∃ target ∈ targets, Relation.ReflTransGen edge target type

/-- The three arrays hold one entry for each type of `included`, sorted by full name. -/
structure HoldsExactly (graph : TypeGraph τ) (comparer : Comparer) (included : τ → Prop)
    (result : TypeCollectorResult) : Prop where
  entries : ∃ types : List τ, types.Nodup ∧ (∀ type, type ∈ types ↔ included type) ∧
    result.collectedEnumInfo.Perm ((types.filter graph.isEnum).map (enumEntry graph)) ∧
    result.collectedClosedTypeGenericInfo.Perm
      ((types.filter (isOtherGeneric graph)).map (objectEntry graph)) ∧
    result.collectedObjectInfo.Perm ((types.filter (isObject graph)).map (objectEntry graph))
  enumsSorted : result.collectedEnumInfo.Pairwise fun first second =>
    comparer.le first.fullName second.fullName = true
  genericsSorted : result.collectedClosedTypeGenericInfo.Pairwise fun first second =>
    comparer.le first.fullName second.fullName = true
  objectsSorted : result.collectedObjectInfo.Pairwise fun first second =>
    comparer.le first.fullName second.fullName = true

/-- `Collect` returns, and whatever it returns holds the types reachable along `edge`. -/
def CollectsReachable [DecidableEq τ] (edge : τ → τ → Prop) (graph : TypeGraph τ)
    (comparer : Comparer) (targets : List τ) : Prop :=
  (∃ depth result, collect graph comparer targets depth = value result) ∧
    ∀ depth result, collect graph comparer targets depth = value result →
      HoldsExactly graph comparer (Reachable edge targets) result

theorem visible_property (graph : TypeGraph τ) (item : PropertyInfo τ) :
    visible (memberOfProperty graph item none) = true ↔
      item.getMethod = some ⟨true⟩ ∨ item.setMethod = some ⟨true⟩ := by
  have accessor : ∀ method : Option MethodInfo,
      method.any (·.isPublic) = true ↔ method = some ⟨true⟩ := by
    rintro (_ | ⟨_ | _⟩) <;> simp
  simp only [visible, memberOfProperty, Bool.or_eq_true, accessor]

theorem visible_field (graph : TypeGraph τ) (item : FieldInfo τ) :
    visible (memberOfField graph item) = true ↔ item.isPublic = true ∧ item.isStatic = false := by
  rcases item with ⟨_, _, isPublic, isStatic, isInitOnly, _⟩
  cases isPublic <;> cases isStatic <;> simp [visible, memberOfField]

theorem mem_memberTypes {graph : TypeGraph τ} {type child : τ} :
    child ∈ memberTypes graph type ↔
      (∃ item ∈ graph.getProperties type,
        (item.getMethod = some ⟨true⟩ ∨ item.setMethod = some ⟨true⟩) ∧ item.propertyType = child) ∨
      ∃ item ∈ graph.getFields type,
        (item.isPublic = true ∧ item.isStatic = false) ∧ item.fieldType = child := by
  simp only [memberTypes, visibleProperties, visibleFields, List.mem_append, List.mem_map,
    List.mem_filter, visible_property, visible_field, and_assoc]

theorem mem_children_iff {graph : TypeGraph τ} {type child : τ} :
    child ∈ children graph type ↔ Leads graph type child := by
  constructor
  · intro listed
    cases enum : graph.isEnum type with
    | true => simp [children, enum] at listed
    | false =>
        have either : (graph.isGenericType type = true ∧ child ∈ graph.genericTypeArguments type) ∨
            child ∈ memberTypes graph type := by
          cases generic : graph.isGenericType type with
          | true => simpa [children, enum, generic] using listed
          | false => simpa [children, enum, generic] using listed
        rcases either with ⟨generic, argument⟩ | member
        · exact .genericArgument enum generic argument
        · rcases mem_memberTypes.mp member with ⟨item, declared, accessible, rfl⟩ |
            ⟨item, declared, ⟨isPublic, isInstance⟩, rfl⟩
          · exact .property enum declared accessible
          · exact .field enum declared isPublic isInstance
  · rintro (⟨enum, declared, accessible⟩ | ⟨enum, declared, isPublic, isInstance⟩ |
      ⟨enum, generic, listed⟩)
    · have member := mem_memberTypes.mpr (Or.inl ⟨_, declared, accessible, rfl⟩)
      cases generic : graph.isGenericType type <;> simp [children, enum, generic, member]
    · have member := mem_memberTypes.mpr (Or.inr ⟨_, declared, ⟨isPublic, isInstance⟩, rfl⟩)
      cases generic : graph.isGenericType type <;> simp [children, enum, generic, member]
    · simp [children, enum, generic, listed]

theorem reached_iff {graph : TypeGraph τ} {targets : List τ} {type : τ} :
    Reached (children graph) targets type ↔ Reachable (Leads graph) targets type := by
  have same : Edge (children graph) = Leads graph := by
    funext type child
    exact propext mem_children_iff
  simp only [Reached, Reachable, same]

theorem resultOf_holds (graph : TypeGraph τ) (comparer : Comparer) {types : List τ}
    {included : τ → Prop} (nodup : types.Nodup) (exact : ∀ type, type ∈ types ↔ included type) :
    HoldsExactly graph comparer included (resultOf graph comparer types) where
  entries := ⟨types, nodup, exact, orderBy_perm comparer _ _, orderBy_perm comparer _ _,
    orderBy_perm comparer _ _⟩
  enumsSorted := orderBy_sorted comparer _ _
  genericsSorted := orderBy_sorted comparer _ _
  objectsSorted := orderBy_sorted comparer _ _

theorem Reachable.child {graph : TypeGraph τ} {targets : List τ} {type child : τ}
    (reachable : Reachable (Leads graph) targets type) (listed : child ∈ children graph type) :
    Reachable (Leads graph) targets child := by
  obtain ⟨target, isTarget, path⟩ := reachable
  exact ⟨target, isTarget, path.tail (mem_children_iff.mp listed)⟩

variable [DecidableEq τ]

theorem collect_eq {graph : TypeGraph τ} {targets : List τ}
    (readable : ∀ type, Reachable (Leads graph) targets type → Readable graph type)
    (comparer : Comparer) (depth : Nat) : collect graph comparer targets depth =
      (fun state => resultOf graph comparer state.finished) <$>
        exploreAll (children graph) depth targets := by
  have empty : workspaceOf graph ⟨[], []⟩ = ⟨[], [], [], []⟩ := rfl
  have loop : targets.foldlM (fun workspace item => collectCore graph depth (workspace, item))
      ⟨[], [], [], []⟩ = workspaceOf graph <$> exploreAll (children graph) depth targets := by
    rw [← empty, exploreAll]
    exact foldlM_view_of_mem (fun item listed state => collectCore_eq
      (fun _ reachable _ => reachable.child) readable depth state ⟨item, listed, .refl⟩) ⟨[], []⟩
  rw [collect, loop, bind_map_left]
  rfl

theorem collect_of_finished {graph : TypeGraph τ} {comparer : Comparer} {targets types : List τ}
    {depth : Nat} (readable : ∀ type, Reachable (Leads graph) targets type → Readable graph type)
    (finished : State.finished <$> exploreAll (children graph) depth targets =
      (value types : Outcome Thrown (List τ))) :
    collect graph comparer targets depth = value (resultOf graph comparer types) := by
  obtain ⟨state, explored, same⟩ := map_eq_value.mp finished
  rw [collect_eq readable, explored, ← same]
  rfl

theorem collect_traversed {graph : TypeGraph τ} {comparer : Comparer} {targets : List τ}
    {depth : Nat} {result : TypeCollectorResult}
    (returned : collect graph comparer targets depth = value result) :
    ∃ types : List τ, types.Nodup ∧
      (∀ type, type ∈ types ↔ Reachable (Leads graph) targets type) ∧
      (∀ type ∈ types, Readable graph type) ∧ result = resultOf graph comparer types := by
  obtain ⟨workspace, looped, made⟩ := bind_eq_value.mp returned
  have empty : Represents graph ⟨[], []⟩ ⟨[], [], [], []⟩ := ⟨rfl, by simp⟩
  obtain ⟨last, explored, represents⟩ : ∃ last, exploreAll (children graph) depth targets =
      (value last : Outcome Thrown (State τ)) ∧ Represents graph last workspace := by
    apply foldlM_follows (Represents graph) _ empty looped
    intro state workspace item next related stepped
    exact collectCore_follows related stepped
  obtain ⟨nodup, reached⟩ := exploreAll_returned explored
  refine ⟨last.finished, nodup, fun type => (reached type).trans reached_iff, represents.readable, ?_⟩
  have same : workspace.toResult comparer = result := by simpa using made
  rw [← same, represents.workspace]
  rfl

theorem collect_returned {graph : TypeGraph τ} {comparer : Comparer} {targets : List τ}
    {depth : Nat} {result : TypeCollectorResult}
    (returned : collect graph comparer targets depth = value result) :
    ∃ types : List τ, types.Nodup ∧
      (∀ type, type ∈ types ↔ Reachable (Leads graph) targets type) ∧
      result = resultOf graph comparer types := by
  obtain ⟨types, nodup, reached, _, same⟩ := collect_traversed returned
  exact ⟨types, nodup, reached, same⟩

theorem collect_readable {graph : TypeGraph τ} {comparer : Comparer} {targets : List τ}
    {depth : Nat} {result : TypeCollectorResult}
    (returned : collect graph comparer targets depth = value result) :
    ∀ type, Reachable (Leads graph) targets type → Readable graph type := by
  obtain ⟨types, _, reached, readable, _⟩ := collect_traversed returned
  exact fun type reachable => readable type ((reached type).mpr reachable)

/-- `Collect` returns exactly when finitely many types are reachable and all can be read. -/
theorem collect_succeeds_iff {graph : TypeGraph τ} {comparer : Comparer} {targets : List τ} :
    (∃ depth result, collect graph comparer targets depth = value result) ↔
      {type | Reachable (Leads graph) targets type}.Finite ∧
        ∀ type, Reachable (Leads graph) targets type → Readable graph type := by
  constructor
  · rintro ⟨depth, result, returned⟩
    obtain ⟨types, _, reached, _⟩ := collect_returned returned
    exact ⟨(List.finite_toSet types).subset fun type => (reached type).mpr,
      collect_readable returned⟩
  · rintro ⟨finite, readable⟩
    obtain ⟨depth, last, explored⟩ := exploreAll_returns
      (finite.subset fun _ => reached_iff.mp)
    refine ⟨depth, resultOf graph comparer last.finished, collect_of_finished readable ?_⟩
    rw [explored]
    rfl

end Specification

def ordinal : Comparer where
  le
    | none, _ => true
    | some _, none => false
    | some first, some second => decide (first ≤ second)
  trans := by
    rintro (_ | first) (_ | second) (_ | third) <;> simp
    exact String.le_trans
  total := by
    rintro (_ | first) (_ | second) <;> simp
    exact String.le_total first second

def obsoleteAttribute : CustomAttribute :=
  ⟨"System.ObsoleteAttribute", false, false, .ok (),
    [.ok .null, .ok (.other "System.Boolean"), .ok (.type (some "System.ObsoleteAttribute"))]⟩

/-- `true` is the class `Parent` with a property of type `Child`, which is obsolete, and
`false` the struct `Child` with a field of type `Parent`. -/
def parentAndChild : TypeGraph Bool where
  name type := if type then "Parent" else "Child"
  nameSpace _ := some "Sample"
  fullName type := some (if type then "Sample.Parent" else "Sample.Child")
  isEnum _ := false
  isGenericType _ := false
  isValueType type := !type
  enumUnderlyingType := .ok
  genericTypeArguments _ := []
  getProperties type :=
    if type then [⟨"Child", false, some ⟨true⟩, none, [obsoleteAttribute], []⟩] else []
  getFields type := if type then [] else [⟨"Parent", true, true, false, false, []⟩]
  getCustomAttributes _ := []
  genericName := by simp

theorem parentAndChild_readable : ∀ type, Readable parentAndChild type := by decide

end TypeCollectorForAssembly

end Stad
