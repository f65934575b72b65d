import Stad.CollectorOrder
import Stad.MemberAttributes

/-!
When `TypeCollectorForCompilation` returns, which is not always: an attribute may have an
array among its arguments, and types may be instantiated for ever. What it returns does
not depend on the order in which the source files are found.
-/

namespace Stad.TypeCollectorForCompilation

open Bounded Bounded.Outcome Traversal TypeCollector NeutralAttributeData

section Describes

variable {σ : Type} (symbols : TypeSymbols σ) (disallowInternal : Bool)

def AttributesReadable (type : σ) : Prop :=
  ∀ attributeData ∈ symbols.getAttributes type,
    TypedConstant.array ∉ attributeData.constructorArguments

/-- The attributes that `GetObjectInfo` reads, also for properties that it does not list. -/
structure SubjectReadable (type : σ) : Prop where
  own : AttributesReadable symbols type
  ofProperties : ∀ item, .property item ∈ getAllMembers symbols type → item.isIndexer = false →
    AttributesReadable symbols item.type

structure Plain (type : σ) : Prop where
  allowed : isAllowAccessibility symbols disallowInternal type = true
  named : symbols.isNamedType type = true
  notEnum : symbols.isEnum type = false
  notGeneric : symbols.isGenericType type = false

/-- `CollectCore` has nothing to refuse in the type itself. -/
structure Describable (type : σ) : Prop where
  enum : treatment symbols disallowInternal type = .enum → AttributesReadable symbols type
  generic : ∀ subject, treatment symbols disallowInternal type = .generic subject →
    SubjectReadable symbols subject
  object : treatment symbols disallowInternal type = .object → SubjectReadable symbols type
  tuple : Plain symbols disallowInternal type →
    ∀ underlying ∈ symbols.tupleUnderlyingType type, symbols.isGenericType underlying = true
  located : Plain symbols disallowInternal type → symbols.tupleUnderlyingType type = none →
    symbols.locations type ≠ []

def addEntries (type : σ) (workspace : Workspace σ) : Workspace σ :=
  { workspace with
    collectedObjectInfo := workspace.collectedObjectInfo ++
      (objectOf symbols disallowInternal type).toList.map (objectEntry symbols)
    collectedEnumInfo := workspace.collectedEnumInfo ++
      (enumOf symbols disallowInternal type).toList.map (enumEntry symbols)
    collectedClosedTypeGenericInfo := workspace.collectedClosedTypeGenericInfo ++
      (genericOf symbols disallowInternal type).toList.map (objectEntry symbols) }

end Describes

section Outcomes

variable {σ : Type} {symbols : TypeSymbols σ} {disallowInternal : Bool}

theorem attributes_read_iff {type : σ} :
    (∃ attributes, fromAttributeDataArray (symbols.getAttributes type) = .ok attributes) ↔
      AttributesReadable symbols type := by
  have constant_iff (constant : TypedConstant) :
      (∃ boxed, constant.getValue = .ok boxed) ↔ constant ≠ .array := by
    cases constant <;> simp [TypedConstant.getValue]
  have each (attributeData : AttributeData) : (∃ data, fromAttributeData attributeData = .ok data) ↔
      TypedConstant.array ∉ attributeData.constructorArguments := by
    have arguments : (∃ values, attributeData.constructorArguments.mapM TypedConstant.getValue =
        .ok values) ↔ ∀ constant ∈ attributeData.constructorArguments,
          ∃ boxed, constant.getValue = .ok boxed := mapM_returns_iff
    constructor
    · rintro ⟨data, read⟩ listed
      obtain ⟨values, readAll, _⟩ := except_bind_eq_ok.mp read
      exact (constant_iff _).mp (arguments.mp ⟨values, readAll⟩ _ listed) rfl
    · intro scalar
      obtain ⟨values, readAll⟩ := arguments.mpr fun constant listed =>
        (constant_iff constant).mpr fun same => scalar (same ▸ listed)
      exact ⟨_, except_bind_eq_ok.mpr ⟨values, readAll, rfl⟩⟩
  rw [fromAttributeDataArray, mapM_returns_iff]
  simp only [each, AttributesReadable]

theorem collectProperty_eq {item : PropertySymbol σ}
    (readable : item.isIndexer = false → AttributesReadable symbols item.type)
    (call : CollectCall σ) (state : MemberState σ) :
    collectProperty symbols call state item =
      if !item.isIndexer && visible (memberOfProperty symbols item none) then
        call (state.1, item.type) >>= fun workspace =>
          value (workspace, state.2 ++ [propertyEntry symbols item])
      else value state := by
  cases indexer : item.isIndexer with
  | true => simp [collectProperty, indexer]
  | false =>
      obtain ⟨attributes, read⟩ := attributes_read_iff.mpr (readable indexer)
      have entry : propertyEntry symbols item = memberOfProperty symbols item (some attributes) := by
        rw [propertyEntry, read]
        rfl
      simp only [collectProperty, indexer, read, entry, ofExcept_ok, value_bind, Bool.not_false,
        Bool.true_and]
      exact collectMember_eq call state _ _

theorem collectField_eq (call : CollectCall σ) (state : MemberState σ) (item : FieldSymbol σ) :
    collectField symbols call state item =
      if !item.isImplicitlyDeclared && visible (memberOfField symbols item) then
        call (state.1, item.type) >>= fun workspace =>
          value (workspace, state.2 ++ [memberOfField symbols item])
      else value state := by
  cases implicit : item.isImplicitlyDeclared with
  | true => simp [collectField, implicit]
  | false =>
      simp only [collectField, implicit, Bool.not_false, Bool.true_and]
      exact collectMember_eq call state _ _

theorem getObjectInfo_eq {type : σ} (readable : SubjectReadable symbols type)
    (call : CollectCall σ) (workspace : Workspace σ) :
    getObjectInfo symbols call workspace type =
      (fun last => (last, objectEntry symbols type)) <$>
        (memberTypes symbols type).foldlM (fun workspace item => call (workspace, item)) workspace := by
  obtain ⟨attributes, read⟩ := attributes_read_iff.mpr readable.own
  have ofProperties : ∀ item ∈ (getAllMembers symbols type).filterMap MemberSymbol.asProperty,
      item.isIndexer = false → AttributesReadable symbols item.type := by
    intro item listed
    obtain ⟨symbol, declared, isProperty⟩ := List.mem_filterMap.mp listed
    cases symbol with
    | property symbol =>
        cases isProperty
        exact readable.ofProperties item declared
    | _ => cases isProperty
  have properties := members_eq call _
    (fun item listed => collectProperty_eq (ofProperties item listed) call) workspace []
  have fields (middle : MemberState σ) := members_eq call
    ((getAllMembers symbols type).filterMap MemberSymbol.asField)
    (fun item _ state => @collectField_eq σ symbols call state item) middle.1 middle.2
  simp only [getObjectInfo, properties, bind_map_left, fields, read, memberTypes,
    TypeCollectorForCompilation.properties, TypeCollectorForCompilation.fields,
    List.foldlM_append, map_bind, List.nil_append, objectEntry]
  rfl

theorem addEntries_skipped {type : σ} (how : treatment symbols disallowInternal type = .skipped) :
    addEntries symbols disallowInternal type = id := by
  funext workspace
  simp [addEntries, objectOf, enumOf, genericOf, how]

theorem addEntries_enum {type : σ} (how : treatment symbols disallowInternal type = .enum) :
    addEntries symbols disallowInternal type = fun workspace => { workspace with
      collectedEnumInfo := workspace.collectedEnumInfo ++ [enumEntry symbols type] } := by
  funext workspace
  simp [addEntries, objectOf, enumOf, genericOf, how]

theorem addEntries_generic {type subject : σ}
    (how : treatment symbols disallowInternal type = .generic subject) :
    addEntries symbols disallowInternal type = fun workspace => { workspace with
      collectedClosedTypeGenericInfo :=
        workspace.collectedClosedTypeGenericInfo ++ [objectEntry symbols subject] } := by
  funext workspace
  simp [addEntries, objectOf, enumOf, genericOf, how]

theorem addEntries_object {type : σ} (how : treatment symbols disallowInternal type = .object) :
    addEntries symbols disallowInternal type = fun workspace => { workspace with
      collectedObjectInfo := workspace.collectedObjectInfo ++ [objectEntry symbols type] } := by
  funext workspace
  simp [addEntries, objectOf, enumOf, genericOf, how]

theorem collectGeneric_eq {type subject : σ}
    (how : treatment symbols disallowInternal type = treatGeneric symbols subject)
    (generic : symbols.isGenericType subject = true)
    (describable : Describable symbols disallowInternal type)
    (call : CollectCall σ) (workspace : Workspace σ) :
    collectGeneric symbols call workspace subject =
      addEntries symbols disallowInternal type <$>
        (children symbols disallowInternal type).foldlM
          (fun workspace item => call (workspace, item)) workspace := by
  cases segment : isArraySegment (symbols.fullyQualified subject) with
  | true =>
      have skipped : treatment symbols disallowInternal type = .skipped := by
        simp [how, treatGeneric, segment]
      simp [collectGeneric, generic, segment, children, skipped, addEntries_skipped skipped]
  | false =>
      have entered : treatment symbols disallowInternal type = .generic subject := by
        simp [how, treatGeneric, segment]
      simp [collectGeneric, generic, segment, children, entered, addEntries_generic entered,
        getObjectInfo_eq (describable.generic subject entered), List.foldlM_append, map_eq_pure_bind]

variable [DecidableEq σ]

theorem collectCoreBody_new {call : CollectCall σ} {workspace : Workspace σ} {type : σ}
    (describable : Describable symbols disallowInternal type)
    (unknown : type ∉ workspace.alreadyCollected) :
    collectCoreBody symbols disallowInternal call (workspace, type) =
      addEntries symbols disallowInternal type <$>
        (children symbols disallowInternal type).foldlM
          (fun workspace item => call (workspace, item))
          { workspace with alreadyCollected := type :: workspace.alreadyCollected } := by
  have skip (marked : Workspace σ) (how : treatment symbols disallowInternal type = .skipped) :
      (value marked : Outcome Thrown (Workspace σ)) = addEntries symbols disallowInternal type <$>
        (children symbols disallowInternal type).foldlM
          (fun workspace item => call (workspace, item)) marked := by
    simp [children, how, addEntries_skipped how]
  simp only [collectCoreBody, if_neg unknown]
  cases allowed : isAllowAccessibility symbols disallowInternal type with
  | false => exact skip _ (by simp [treatment, allowed])
  | true =>
  cases named : symbols.isNamedType type with
  | false => exact skip _ (by simp [treatment, allowed, named])
  | true =>
  cases enum : symbols.isEnum type with
  | true =>
      have how : treatment symbols disallowInternal type = .enum := by
        simp [treatment, allowed, named, enum]
      obtain ⟨attributes, read⟩ := attributes_read_iff.mpr (describable.enum how)
      simp [collectEnum, read, children, how, addEntries_enum how, enumEntry, Except.toOption]
  | false =>
  cases generic : symbols.isGenericType type with
  | true =>
      have how : treatment symbols disallowInternal type = treatGeneric symbols type := by
        simp [treatment, allowed, named, enum, generic]
      exact collectGeneric_eq how generic describable call _
  | false =>
  have plain : Plain symbols disallowInternal type := ⟨allowed, named, enum, generic⟩
  cases tuple : symbols.tupleUnderlyingType type with
  | some underlying =>
      have how : treatment symbols disallowInternal type = treatGeneric symbols underlying := by
        simp [treatment, allowed, named, enum, generic, tuple]
      exact collectGeneric_eq how (describable.tuple plain underlying tuple) describable call _
  | none =>
  cases located : symbols.locations type with
  | nil => exact absurd located (describable.located plain tuple)
  | cons isInMetadata others =>
  cases isInMetadata with
  | true => exact skip _ (by simp [treatment, allowed, named, enum, generic, tuple, located])
  | false =>
      have how : treatment symbols disallowInternal type = .object := by
        simp [treatment, allowed, named, enum, generic, tuple, located]
      simp [collectObject, getObjectInfo_eq (describable.object how), children, how,
        addEntries_object how, map_eq_pure_bind]

omit [DecidableEq σ] in
theorem addEntries_finish (state : State σ) (type : σ) :
    addEntries symbols disallowInternal type (workspaceOf symbols disallowInternal state) =
      workspaceOf symbols disallowInternal { state with finished := state.finished ++ [type] } := by
  cases how : treatment symbols disallowInternal type <;>
    simp [addEntries, workspaceOf, objectOf, enumOf, genericOf, how]

/-- Inside types with nothing to refuse, `CollectCore` is a traversal. -/
theorem collectCore_eq {inside : σ → Prop}
    (closed : ∀ type, inside type → ∀ child ∈ children symbols disallowInternal type, inside child)
    (describable : ∀ type, inside type → Describable symbols disallowInternal type)
    (depth : Nat) (state : State σ) {type : σ} (within : inside type) :
    collectCore symbols disallowInternal depth (workspaceOf symbols disallowInternal state, type) =
      workspaceOf symbols disallowInternal <$>
        explore (children symbols disallowInternal) depth state type := by
  induction depth generalizing state type with
  | zero => rfl
  | succ depth ih =>
      have body : collectCore symbols disallowInternal (depth + 1) =
          collectCoreBody symbols disallowInternal (collectCore symbols disallowInternal depth) := rfl
      have explored : (explore (children symbols disallowInternal) (depth + 1) state type :
          Outcome Thrown (State σ)) = exploreBody (children symbols disallowInternal)
            (fun call => explore (children symbols disallowInternal) depth call.1 call.2)
            (state, type) := rfl
      rw [body, explored]
      by_cases known : type ∈ state.visited
      · simp [collectCoreBody, exploreBody, workspaceOf, known]
      · have unknown : type ∉ (workspaceOf symbols disallowInternal state).alreadyCollected := known
        have marked : { workspaceOf symbols disallowInternal state with
            alreadyCollected := type :: (workspaceOf symbols disallowInternal state).alreadyCollected } =
            workspaceOf symbols disallowInternal { state with visited := type :: state.visited } := rfl
        have loop (state : State σ) : (children symbols disallowInternal type).foldlM
            (fun workspace item => collectCore symbols disallowInternal depth (workspace, item))
            (workspaceOf symbols disallowInternal state) = workspaceOf symbols disallowInternal <$>
              (children symbols disallowInternal type).foldlM
                (explore (children symbols disallowInternal) depth) state :=
          foldlM_view_of_mem (fun child listed state => ih state (closed type within child listed)) state
        rw [collectCoreBody_new (describable type within) unknown, marked, loop]
        simp only [exploreBody, if_neg known, map_bind, Functor.map_map, addEntries_finish]
        rfl

/-! What a run that returns has read. -/

omit [DecidableEq σ] in
theorem collectProperty_readable {call : CollectCall σ} {state next : MemberState σ}
    {item : PropertySymbol σ} (notIndexer : item.isIndexer = false)
    (returned : collectProperty symbols call state item = value next) :
    AttributesReadable symbols item.type := by
  rw [collectProperty, notIndexer] at returned
  obtain ⟨attributes, read, _⟩ := bind_eq_value.mp returned
  exact attributes_read_iff.mp ⟨attributes, ofExcept_eq_value.mp read⟩

omit [DecidableEq σ] in
theorem getObjectInfo_readable {call : CollectCall σ} {workspace last : Workspace σ} {type : σ}
    {info : ObjectSerializationInfo}
    (returned : getObjectInfo symbols call workspace type = value (last, info)) :
    SubjectReadable symbols type := by
  obtain ⟨middle, looped, returned⟩ := bind_eq_value.mp returned
  obtain ⟨collected, _, returned⟩ := bind_eq_value.mp returned
  obtain ⟨attributes, read, _⟩ := bind_eq_value.mp returned
  refine ⟨attributes_read_iff.mp ⟨attributes, ofExcept_eq_value.mp read⟩, ?_⟩
  intro item declared notIndexer
  have listed : item ∈ (getAllMembers symbols type).filterMap MemberSymbol.asProperty :=
    List.mem_filterMap.mpr ⟨_, declared, rfl⟩
  obtain ⟨state, next, stepped⟩ := foldlM_rounds looped item listed
  exact collectProperty_readable notIndexer stepped

omit [DecidableEq σ] in
theorem collectGeneric_readable {call : CollectCall σ} {workspace next : Workspace σ} {subject : σ}
    (returned : collectGeneric symbols call workspace subject = value next) :
    symbols.isGenericType subject = true ∧
      (treatGeneric symbols subject = .generic subject → SubjectReadable symbols subject) := by
  unfold collectGeneric at returned
  split at returned
  · simp at returned
  · rename_i generic
    refine ⟨by simpa using generic, fun entered => ?_⟩
    split at returned
    · rename_i segment
      simp [treatGeneric, segment] at entered
    · obtain ⟨middle, _, returned⟩ := bind_eq_value.mp returned
      obtain ⟨⟨last, info⟩, described, _⟩ := bind_eq_value.mp returned
      exact getObjectInfo_readable described

omit [DecidableEq σ] in
theorem Describable.of_generic {type subject : σ}
    (how : treatment symbols disallowInternal type = treatGeneric symbols subject)
    (readable : treatGeneric symbols subject = .generic subject → SubjectReadable symbols subject)
    (tuple : Plain symbols disallowInternal type → symbols.tupleUnderlyingType type = some subject ∧
      symbols.isGenericType subject = true) :
    Describable symbols disallowInternal type := by
  have segments : treatGeneric symbols subject = .skipped ∨
      treatGeneric symbols subject = .generic subject := by
    unfold treatGeneric
    split
    · exact Or.inl rfl
    · exact Or.inr rfl
  constructor
  · rcases segments with same | same <;> simp [how, same]
  · intro other entered
    rcases segments with same | same
    · simp [how, same] at entered
    · simp only [how, same, Treatment.generic.injEq] at entered
      rw [← entered]
      exact readable same
  · rcases segments with same | same <;> simp [how, same]
  · intro plain underlying listed
    obtain ⟨is, generic⟩ := tuple plain
    rw [is, Option.mem_some] at listed
    rw [← listed]
    exact generic
  · intro plain none
    simp [(tuple plain).1] at none

theorem collectCoreBody_describable {call : CollectCall σ} {workspace next : Workspace σ} {type : σ}
    (unknown : type ∉ workspace.alreadyCollected)
    (returned : collectCoreBody symbols disallowInternal call (workspace, type) = value next) :
    Describable symbols disallowInternal type := by
  have passedOver (how : treatment symbols disallowInternal type = .skipped)
      (notPlain : ¬Plain symbols disallowInternal type) : Describable symbols disallowInternal type :=
    ⟨by simp [how], by simp [how], by simp [how], fun plain => absurd plain notPlain,
      fun plain => absurd plain notPlain⟩
  simp only [collectCoreBody, if_neg unknown] at returned
  cases allowed : isAllowAccessibility symbols disallowInternal type with
  | false =>
      refine passedOver (by simp [treatment, allowed]) fun plain => ?_
      cases plain.allowed.symm.trans allowed
  | true =>
  cases named : symbols.isNamedType type with
  | false =>
      refine passedOver (by simp [treatment, allowed, named]) fun plain => ?_
      cases plain.named.symm.trans named
  | true =>
  cases enum : symbols.isEnum type with
  | true =>
      have how : treatment symbols disallowInternal type = .enum := by
        simp [treatment, allowed, named, enum]
      have notPlain : ¬Plain symbols disallowInternal type := by
        intro plain
        cases plain.notEnum.symm.trans enum
      simp only [allowed, named, enum, Bool.not_true, Bool.false_eq_true, if_false, if_true]
        at returned
      obtain ⟨attributes, read, _⟩ := bind_eq_value.mp returned
      exact ⟨fun _ => attributes_read_iff.mp ⟨attributes, ofExcept_eq_value.mp read⟩,
        by simp [how], by simp [how], fun plain => absurd plain notPlain,
        fun plain => absurd plain notPlain⟩
  | false =>
  simp only [allowed, named, enum, Bool.not_true, Bool.false_eq_true, if_false] at returned
  cases generic : symbols.isGenericType type with
  | true =>
      have how : treatment symbols disallowInternal type = treatGeneric symbols type := by
        simp [treatment, allowed, named, enum, generic]
      simp only [generic, if_true] at returned
      refine Describable.of_generic how (collectGeneric_readable returned).2 fun plain => ?_
      cases plain.notGeneric.symm.trans generic
  | false =>
  simp only [generic, Bool.false_eq_true, if_false] at returned
  cases tuple : symbols.tupleUnderlyingType type with
  | some underlying =>
      have how : treatment symbols disallowInternal type = treatGeneric symbols underlying := by
        simp [treatment, allowed, named, enum, generic, tuple]
      simp only [tuple] at returned
      obtain ⟨isGeneric, readable⟩ := collectGeneric_readable returned
      exact Describable.of_generic how readable fun _ => ⟨tuple, isGeneric⟩
  | none =>
  simp only [tuple] at returned
  cases located : symbols.locations type with
  | nil => simp [located] at returned
  | cons isInMetadata others =>
  simp only [located] at returned
  cases isInMetadata with
  | true =>
      have how : treatment symbols disallowInternal type = .skipped := by
        simp [treatment, allowed, named, enum, generic, tuple, located]
      exact ⟨by simp [how], by simp [how], by simp [how], by simp [tuple], by simp [located]⟩
  | false =>
      have how : treatment symbols disallowInternal type = .object := by
        simp [treatment, allowed, named, enum, generic, tuple, located]
      simp only [Bool.false_eq_true, if_false] at returned
      obtain ⟨⟨last, info⟩, described, _⟩ := bind_eq_value.mp returned
      exact ⟨by simp [how], by simp [how], fun _ => getObjectInfo_readable described,
        by simp [tuple], by simp [located]⟩

omit [DecidableEq σ] in
theorem foldlM_describable {call : CollectCall σ} {known : σ → Prop}
    (each : ∀ workspace type next, (∀ other ∈ workspace.alreadyCollected, known other) →
      call (workspace, type) = value next → ∀ other ∈ next.alreadyCollected, known other)
    {types : List σ} {first last : Workspace σ}
    (start : ∀ other ∈ first.alreadyCollected, known other)
    (looped : types.foldlM (fun workspace item => call (workspace, item)) first = value last) :
    ∀ other ∈ last.alreadyCollected, known other := by
  refine (foldlM_each looped (fun workspace => ∀ other ∈ workspace.alreadyCollected, known other)
    (fun _ => True) start ?_).1
  intro item state next holds stepped
  exact ⟨each state item next holds stepped, trivial⟩

theorem collectCore_describable {depth : Nat} {workspace next : Workspace σ} {type : σ}
    (marked : ∀ other ∈ workspace.alreadyCollected, Describable symbols disallowInternal other)
    (returned : collectCore symbols disallowInternal depth (workspace, type) = value next) :
    ∀ other ∈ next.alreadyCollected, Describable symbols disallowInternal other := by
  induction depth generalizing workspace next type with
  | zero => cases returned
  | succ depth ih =>
      have body : collectCore symbols disallowInternal (depth + 1) =
          collectCoreBody symbols disallowInternal (collectCore symbols disallowInternal depth) := rfl
      rw [body] at returned
      by_cases known : type ∈ workspace.alreadyCollected
      · simp only [collectCoreBody, if_pos known, pure_eq, value.injEq] at returned
        rw [← returned]
        exact marked
      · have describable := collectCoreBody_describable known returned
        rw [collectCoreBody_new describable known] at returned
        obtain ⟨last, looped, added⟩ := map_eq_value.mp returned
        have start : ∀ other ∈ type :: workspace.alreadyCollected,
            Describable symbols disallowInternal other :=
          List.forall_mem_cons.mpr ⟨describable, marked⟩
        have kept := foldlM_describable (fun _ _ _ holds => ih holds) start looped
        rw [← added]
        exact kept

variable {comparer : Comparer} {declared : List σ}

theorem describable_of_returned {depth : Nat} {result : TypeCollectorResult}
    (returned : collect symbols disallowInternal comparer declared depth = value result) {type : σ}
    (reached : Reached (children symbols disallowInternal)
      (targetTypes symbols disallowInternal declared) type) :
    Describable symbols disallowInternal type := by
  obtain ⟨workspace, looped, _⟩ := bind_eq_value.mp returned
  have empty : Represents symbols disallowInternal ⟨[], []⟩ ⟨[], [], [], []⟩ := ⟨rfl, by simp⟩
  obtain ⟨last, explored, represents⟩ : ∃ last,
      exploreAll (children symbols disallowInternal) depth
        (targetTypes symbols disallowInternal declared) = (value last : Outcome Thrown (State σ)) ∧
      Represents symbols disallowInternal last workspace := by
    apply foldlM_follows (Represents symbols disallowInternal) _ empty looped
    intro state workspace type next related returned
    exact collectCore_follows related returned
  obtain ⟨new, whole⟩ := explored_foldlM (fun _ _ _ => explore_explored) explored
  have finished : last.finished = new := by simpa using whole.finished
  have visited : type ∈ workspace.alreadyCollected := by
    rw [represents.workspace]
    refine (whole.visited type).mpr (Or.inr ?_)
    rw [← finished]
    exact ((exploreAll_returned explored).2 type).mpr reached
  exact foldlM_describable (fun _ _ _ holds => collectCore_describable holds) (by simp) looped
    type visited

theorem returns_iff_describable :
    (∃ depth result,
        collect symbols disallowInternal comparer declared depth = value result) ↔
      {type | Reached (children symbols disallowInternal)
        (targetTypes symbols disallowInternal declared) type}.Finite ∧
      ∀ type, Reached (children symbols disallowInternal)
        (targetTypes symbols disallowInternal declared) type →
          Describable symbols disallowInternal type := by
  constructor
  · rintro ⟨depth, result, returned⟩
    obtain ⟨types, _, reached, _⟩ := collect_returned returned
    refine ⟨(List.finite_toSet types).subset fun type => (reached type).mpr, ?_⟩
    exact fun type => describable_of_returned returned
  · rintro ⟨finite, describable⟩
    obtain ⟨depth, last, explored⟩ := exploreAll_returns finite
    have same : (targetTypes symbols disallowInternal declared).foldlM
        (fun workspace item => collectCore symbols disallowInternal depth (workspace, item))
        (workspaceOf symbols disallowInternal ⟨[], []⟩) = workspaceOf symbols disallowInternal <$>
          exploreAll (children symbols disallowInternal) depth
            (targetTypes symbols disallowInternal declared) :=
      foldlM_view_of_mem (fun type listed state => collectCore_eq
        (fun _ reached _ edge => reached.child edge) describable depth state (Reached.root listed)) _
    refine ⟨depth, (workspaceOf symbols disallowInternal last).toResult comparer, ?_⟩
    have empty : workspaceOf symbols disallowInternal ⟨[], []⟩ = ⟨[], [], [], []⟩ := rfl
    rw [explored, empty] at same
    rw [collect, same]
    rfl

end Outcomes

/-! Which arrays come out. -/

section Arrays

variable {σ : Type} [DecidableEq σ] {symbols : TypeSymbols σ} {disallowInternal : Bool}
  {comparer : Comparer} {declared : List σ}

/-- The three arrays hold the entries of the types of `included`, each type once, sorted by
full name. -/
structure HoldsExactly (symbols : TypeSymbols σ) (disallowInternal : Bool) (comparer : Comparer)
    (included : σ → Prop) (result : TypeCollectorResult) : Prop where
  entries : ∃ types : List σ, types.Nodup ∧ (∀ type, type ∈ types ↔ included type) ∧
    result.collectedObjectInfo.Perm
      ((types.filterMap (objectOf symbols disallowInternal)).map (objectEntry symbols)) ∧
    result.collectedEnumInfo.Perm
      ((types.filterMap (enumOf symbols disallowInternal)).map (enumEntry symbols)) ∧
    result.collectedClosedTypeGenericInfo.Perm
      ((types.filterMap (genericOf symbols disallowInternal)).map (objectEntry symbols))
  objectsSorted : result.collectedObjectInfo.Pairwise fun first second =>
    comparer.le first.fullName second.fullName = true
  enumsSorted : result.collectedEnumInfo.Pairwise fun first second =>
    comparer.le first.fullName second.fullName = true
  genericsSorted : result.collectedClosedTypeGenericInfo.Pairwise fun first second =>
    comparer.le first.fullName second.fullName = true

/-- `Collect` returns exactly when it reaches finitely many types and has nothing to refuse in
any of them, and then it has an entry for each of them. -/
theorem collect_exact :
    ((∃ depth result,
        collect symbols disallowInternal comparer declared depth = value result) ↔
      {type | Reached (children symbols disallowInternal)
        (targetTypes symbols disallowInternal declared) type}.Finite ∧
      ∀ type, Reached (children symbols disallowInternal)
        (targetTypes symbols disallowInternal declared) type →
          Describable symbols disallowInternal type) ∧
    ∀ depth result, collect symbols disallowInternal comparer declared depth = value result →
      HoldsExactly symbols disallowInternal comparer
        (Reached (children symbols disallowInternal)
          (targetTypes symbols disallowInternal declared)) result := by
  refine ⟨returns_iff_describable, ?_⟩
  intro depth result returned
  obtain ⟨types, nodup, reached, _, is⟩ := collect_returned returned
  rw [is]
  exact ⟨⟨types, nodup, reached, orderBy_perm comparer _ _, orderBy_perm comparer _ _,
    orderBy_perm comparer _ _⟩, orderBy_sorted comparer _ _, orderBy_sorted comparer _ _,
    orderBy_sorted comparer _ _⟩

end Arrays

section Order

variable {σ : Type} {symbols : TypeSymbols σ} {disallowInternal : Bool} {comparer : Comparer}

def HasEntry (symbols : TypeSymbols σ) (disallowInternal : Bool) (included : σ → Prop)
    (subject : σ) : Prop :=
  ∃ type, included type ∧ (subjectOf symbols disallowInternal type = some subject ∨
    enumOf symbols disallowInternal type = some subject)

/-- The comparer tells the types apart that have an entry. -/
def NamesTell (symbols : TypeSymbols σ) (disallowInternal : Bool) (comparer : Comparer)
    (included : σ → Prop) : Prop :=
  ∀ first second, HasEntry symbols disallowInternal included first →
    HasEntry symbols disallowInternal included second →
    comparer.le (symbols.fullyQualified first) (symbols.fullyQualified second) = true →
    comparer.le (symbols.fullyQualified second) (symbols.fullyQualified first) = true → first = second

theorem HasEntry.of_object {included : σ → Prop} {type subject : σ} (isIncluded : included type)
    (entered : objectOf symbols disallowInternal type = some subject) :
    HasEntry symbols disallowInternal included subject := by
  refine ⟨type, isIncluded, Or.inl ?_⟩
  cases how : treatment symbols disallowInternal type <;> simp_all [objectOf, subjectOf]

theorem HasEntry.of_generic {included : σ → Prop} {type subject : σ} (isIncluded : included type)
    (entered : genericOf symbols disallowInternal type = some subject) :
    HasEntry symbols disallowInternal included subject := by
  refine ⟨type, isIncluded, Or.inl ?_⟩
  cases how : treatment symbols disallowInternal type <;> simp_all [genericOf, subjectOf]

theorem orderBy_entries_eq {included : σ → Prop}
    (told : NamesTell symbols disallowInternal comparer included) {types types' : List σ}
    (permuted : types.Perm types') {select : σ → Option σ} {α : Type} {key : α → Option String}
    {entry : σ → α} (keyed : ∀ subject, key (entry subject) = symbols.fullyQualified subject)
    (listed : ∀ type ∈ types, ∀ subject, select type = some subject →
      HasEntry symbols disallowInternal included subject) :
    comparer.orderBy key ((types.filterMap select).map entry) =
      comparer.orderBy key ((types'.filterMap select).map entry) := by
  apply TypeCollectorForAssembly.orderBy_eq comparer key ((permuted.filterMap select).map entry)
  intro first inFirst second inSecond le ge
  obtain ⟨subject, selected, rfl⟩ := List.mem_map.mp inFirst
  obtain ⟨subject', selected', rfl⟩ := List.mem_map.mp inSecond
  obtain ⟨type, inTypes, isSubject⟩ := List.mem_filterMap.mp selected
  obtain ⟨type', inTypes', isSubject'⟩ := List.mem_filterMap.mp selected'
  rw [keyed, keyed] at le ge
  rw [told subject subject' (listed type inTypes subject isSubject)
    (listed type' inTypes' subject' isSubject') le ge]

theorem resultOf_perm {included : σ → Prop}
    (told : NamesTell symbols disallowInternal comparer included) {types types' : List σ}
    (permuted : types.Perm types') (listed : ∀ type ∈ types, included type) :
    resultOf symbols disallowInternal comparer types =
      resultOf symbols disallowInternal comparer types' := by
  have objects : comparer.orderBy (·.fullName)
      ((types.filterMap (objectOf symbols disallowInternal)).map (objectEntry symbols)) =
      comparer.orderBy (·.fullName)
        ((types'.filterMap (objectOf symbols disallowInternal)).map (objectEntry symbols)) :=
    orderBy_entries_eq told permuted (fun _ => rfl)
      fun type inTypes _ => HasEntry.of_object (listed type inTypes)
  have generics : comparer.orderBy (·.fullName)
      ((types.filterMap (genericOf symbols disallowInternal)).map (objectEntry symbols)) =
      comparer.orderBy (·.fullName)
        ((types'.filterMap (genericOf symbols disallowInternal)).map (objectEntry symbols)) :=
    orderBy_entries_eq told permuted (fun _ => rfl)
      fun type inTypes _ => HasEntry.of_generic (listed type inTypes)
  have enums : comparer.orderBy (·.fullName)
      ((types.filterMap (enumOf symbols disallowInternal)).map (enumEntry symbols)) =
      comparer.orderBy (·.fullName)
        ((types'.filterMap (enumOf symbols disallowInternal)).map (enumEntry symbols)) :=
    orderBy_entries_eq told permuted (fun _ => rfl)
      fun type inTypes _ entered => ⟨type, listed type inTypes, Or.inr entered⟩
  simp only [resultOf, Workspace.toResult, workspaceOf, objects, generics, enums]

variable [DecidableEq σ]

def Visited (symbols : TypeSymbols σ) (disallowInternal : Bool) (declared : List σ) (type : σ) :
    Prop :=
  Reached (children symbols disallowInternal) (targetTypes symbols disallowInternal declared) type

def Collects (symbols : TypeSymbols σ) (disallowInternal : Bool) (comparer : Comparer)
    (declared : List σ) (result : TypeCollectorResult) : Prop :=
  ∃ depth, collect symbols disallowInternal comparer declared depth = value result

omit [DecidableEq σ] in
theorem visited_mono {declared declared' : List σ} (within : ∀ type ∈ declared, type ∈ declared')
    {type : σ} (visited : Visited symbols disallowInternal declared type) :
    Visited symbols disallowInternal declared' type := by
  refine visited.mono fun target isTarget => ?_
  obtain ⟨listed, allowed⟩ := List.mem_filter.mp isTarget
  exact List.mem_filter.mpr ⟨within target listed, allowed⟩

theorem collects_mono {declared declared' : List σ}
    (same : ∀ type, type ∈ declared ↔ type ∈ declared')
    (told : NamesTell symbols disallowInternal comparer
      (Visited symbols disallowInternal declared))
    {result : TypeCollectorResult}
    (collects : Collects symbols disallowInternal comparer declared result) :
    Collects symbols disallowInternal comparer declared' result := by
  have sameVisited (type : σ) : Visited symbols disallowInternal declared type ↔
      Visited symbols disallowInternal declared' type :=
    ⟨visited_mono fun other => (same other).mp, visited_mono fun other => (same other).mpr⟩
  obtain ⟨depth, returned⟩ := collects
  obtain ⟨finite, describable⟩ := returns_iff_describable.mp ⟨depth, result, returned⟩
  have finite' : {type | Visited symbols disallowInternal declared' type}.Finite :=
    finite.subset fun type => (sameVisited type).mpr
  obtain ⟨depth', result', returned'⟩ := returns_iff_describable.mpr
    ⟨finite', fun type visited => describable type ((sameVisited type).mpr visited)⟩
  obtain ⟨types, nodup, reached, _, is⟩ := collect_returned returned
  obtain ⟨types', nodup', reached', _, is'⟩ := collect_returned returned'
  have permuted : types.Perm types' := by
    rw [List.perm_ext_iff_of_nodup nodup nodup']
    intro type
    exact (reached type).trans ((sameVisited type).trans (reached' type).symm)
  have sameResult : result = result' := by
    rw [is, is']
    exact resultOf_perm told permuted fun type => (reached type).mp
  rw [sameResult]
  exact ⟨depth', returned'⟩

end Order

/-! `MakeRegistryFromSource`, from the syntax trees on. -/

section Source

inductive DeclaredSymbol (σ : Type) where
  | namedType (type : σ)
  | other
  deriving DecidableEq, Repr

def DeclaredSymbol.asNamedType {σ : Type} : DeclaredSymbol σ → Option σ
  | .namedType type => some type
  | .other => none

variable {σ ν : Type}

def getNamedTypeSymbols (getDeclaredSymbol : ν → Option (DeclaredSymbol σ))
    (syntaxTrees : List (List ν)) : List σ :=
  syntaxTrees.flatMap fun descendantNodes =>
    (descendantNodes.filterMap getDeclaredSymbol).filterMap DeclaredSymbol.asNamedType

variable [DecidableEq σ]

/-- What `MakeRegistryFromSource` comes to once the compilation is there. -/
def MakesRegistryFromSource (symbols : TypeSymbols σ) (comparer : Comparer) (declared : List σ)
    (registry : Outcome Thrown StadRegistry) : Prop :=
  ∃ result, Collects symbols true comparer declared result ∧ registry ≠ exhausted ∧
    ∃ depth, StadAnalyzer.makeRegistry result depth = registry

/-- Source files in another order, some of them twice, are collected into the same arrays
and make the same registry. -/
theorem collect_sourceOrderFree (symbols : TypeSymbols σ) (comparer : Comparer)
    (getDeclaredSymbol : ν → Option (DeclaredSymbol σ)) {syntaxTrees syntaxTrees' : List (List ν)}
    (same : ∀ tree, tree ∈ syntaxTrees ↔ tree ∈ syntaxTrees')
    (told : NamesTell symbols true comparer
      (Visited symbols true (getNamedTypeSymbols getDeclaredSymbol syntaxTrees))) :
    (∀ result,
      Collects symbols true comparer (getNamedTypeSymbols getDeclaredSymbol syntaxTrees) result ↔
        Collects symbols true comparer (getNamedTypeSymbols getDeclaredSymbol syntaxTrees') result) ∧
    ∀ registry, MakesRegistryFromSource symbols comparer
        (getNamedTypeSymbols getDeclaredSymbol syntaxTrees) registry ↔
      MakesRegistryFromSource symbols comparer
        (getNamedTypeSymbols getDeclaredSymbol syntaxTrees') registry := by
  have sameDeclared (type : σ) : type ∈ getNamedTypeSymbols getDeclaredSymbol syntaxTrees ↔
      type ∈ getNamedTypeSymbols getDeclaredSymbol syntaxTrees' := by
    simp only [getNamedTypeSymbols, List.mem_flatMap, same]
  have told' : NamesTell symbols true comparer
      (Visited symbols true (getNamedTypeSymbols getDeclaredSymbol syntaxTrees')) := by
    rintro first second ⟨type, visited, is⟩ ⟨type', visited', is'⟩
    exact told first second ⟨type, visited_mono (fun other => (sameDeclared other).mpr) visited, is⟩
      ⟨type', visited_mono (fun other => (sameDeclared other).mpr) visited', is'⟩
  have collects (result : TypeCollectorResult) :
      Collects symbols true comparer (getNamedTypeSymbols getDeclaredSymbol syntaxTrees) result ↔
        Collects symbols true comparer (getNamedTypeSymbols getDeclaredSymbol syntaxTrees') result :=
    ⟨collects_mono sameDeclared told, collects_mono (fun type => (sameDeclared type).symm) told'⟩
  refine ⟨collects, fun registry => ?_⟩
  simp only [MakesRegistryFromSource, collects]

end Source

/-- The files of `Holder` and of `Leaf`, where `none` is a declaration of no type. -/
def holderFile : List (Option Bool) := [some true, none]

def leafFile : List (Option Bool) := [some false]

def declaredIn : Option Bool → Option (DeclaredSymbol Bool)
  | some type => some (.namedType type)
  | none => some .other

theorem holderAndLeaf_sourceOrderFree :
    (∀ result,
      Collects holderAndLeaf true TypeCollectorForAssembly.ordinal
          (getNamedTypeSymbols declaredIn [holderFile, leafFile]) result ↔
        Collects holderAndLeaf true TypeCollectorForAssembly.ordinal
          (getNamedTypeSymbols declaredIn [leafFile, holderFile, leafFile]) result) ∧
    ∀ registry, MakesRegistryFromSource holderAndLeaf TypeCollectorForAssembly.ordinal
        (getNamedTypeSymbols declaredIn [holderFile, leafFile]) registry ↔
      MakesRegistryFromSource holderAndLeaf TypeCollectorForAssembly.ordinal
        (getNamedTypeSymbols declaredIn [leafFile, holderFile, leafFile]) registry := by
  refine collect_sourceOrderFree holderAndLeaf TypeCollectorForAssembly.ordinal declaredIn
    (by simp [or_comm]) ?_
  rintro (_ | _) (_ | _) - - le ge
  · rfl
  · exact absurd le (by decide)
  · exact absurd ge (by decide)
  · rfl

end Stad.TypeCollectorForCompilation
