import Stad.CollectorReachable
import Stad.CompilationCore

/-!
A run of `TypeCollectorForCompilation` that returns is a depth-first traversal as
well. Which types it describes, and with what, depends only on the types that
are reachable from the targets.
-/

namespace Stad.TypeCollectorForCompilation

open Bounded Bounded.Outcome Traversal TypeCollector NeutralAttributeData

/-- What `CollectCore` does with a type that it has not seen. -/
inductive Treatment (σ : Type) where
  | skipped
  | enum
  | generic (subject : σ)
  | object

section Entries

variable {σ : Type} (symbols : TypeSymbols σ) (disallowInternal : Bool)

def treatGeneric (type : σ) : Treatment σ :=
  if isArraySegment (symbols.fullyQualified type) then .skipped else .generic type

def treatment (type : σ) : Treatment σ :=
  if !isAllowAccessibility symbols disallowInternal type then .skipped
  else if !symbols.isNamedType type then .skipped
  else if symbols.isEnum type then .enum
  else if symbols.isGenericType type then treatGeneric symbols type
  else
    match symbols.tupleUnderlyingType type with
    | some underlying => treatGeneric symbols underlying
    | none => if (symbols.locations type).headD false then .skipped else .object

def properties (type : σ) : List (PropertySymbol σ) :=
  ((getAllMembers symbols type).filterMap MemberSymbol.asProperty).filter fun item =>
    !item.isIndexer && visible (memberOfProperty symbols item none)

def fields (type : σ) : List (FieldSymbol σ) :=
  ((getAllMembers symbols type).filterMap MemberSymbol.asField).filter fun item =>
    !item.isImplicitlyDeclared && visible (memberOfField symbols item)

def memberTypes (type : σ) : List σ :=
  (properties symbols type).map (·.type) ++ (fields symbols type).map (·.type)

def children (type : σ) : List σ :=
  match treatment symbols disallowInternal type with
  | .skipped => []
  | .enum => []
  | .generic subject => symbols.typeArguments subject ++ memberTypes symbols subject
  | .object => memberTypes symbols type

def propertyEntry (item : PropertySymbol σ) : MemberSerializationInfo :=
  memberOfProperty symbols item
    (fromAttributeDataArray (symbols.getAttributes item.type)).toOption

def objectEntry (type : σ) : ObjectSerializationInfo where
  isClass := !symbols.isValueType type
  constructorParameters := none
  members := (properties symbols type).map (propertyEntry symbols) ++
    (fields symbols type).map (memberOfField symbols)
  name := replaceInName (symbols.minimallyQualified type)
  fullName := symbols.fullyQualified type
  nameSpace := symbols.containingNamespace type
  attributes := (fromAttributeDataArray (symbols.getAttributes type)).toOption

def enumEntry (type : σ) : EnumSerializationInfo where
  name := (symbols.shortTypeName type).replace "." "_"
  nameSpace := symbols.containingNamespace type
  fullName := symbols.fullyQualified type
  underlyingType := symbols.binaryWrite (symbols.enumUnderlyingType type)
  attributes := (fromAttributeDataArray (symbols.getAttributes type)).toOption

def enumOf (type : σ) : Option σ :=
  match treatment symbols disallowInternal type with
  | .enum => some type
  | _ => none

def genericOf (type : σ) : Option σ :=
  match treatment symbols disallowInternal type with
  | .generic subject => some subject
  | _ => none

def objectOf (type : σ) : Option σ :=
  match treatment symbols disallowInternal type with
  | .object => some type
  | _ => none

def subjectOf (type : σ) : Option σ :=
  match treatment symbols disallowInternal type with
  | .generic subject => some subject
  | .object => some type
  | _ => none

def workspaceOf (state : State σ) : Workspace σ where
  alreadyCollected := state.visited
  collectedObjectInfo :=
    (state.finished.filterMap (objectOf symbols disallowInternal)).map (objectEntry symbols)
  collectedEnumInfo :=
    (state.finished.filterMap (enumOf symbols disallowInternal)).map (enumEntry symbols)
  collectedClosedTypeGenericInfo :=
    (state.finished.filterMap (genericOf symbols disallowInternal)).map (objectEntry symbols)

def Readable (type : σ) : Prop :=
  ∀ item ∈ properties symbols type, ∃ attributes,
    fromAttributeDataArray (symbols.getAttributes item.type) = .ok attributes

/-- The workspace of a run that has finished the types in `state` and read what it needed. -/
structure Represents (state : State σ) (workspace : Workspace σ) : Prop where
  workspace : workspace = workspaceOf symbols disallowInternal state
  readable : ∀ type ∈ state.finished, ∀ subject ∈ subjectOf symbols disallowInternal type,
    Readable symbols subject

def resultOf (comparer : Comparer) (types : List σ) : TypeCollectorResult :=
  (workspaceOf symbols disallowInternal ⟨[], types⟩).toResult comparer

variable {symbols disallowInternal} {comparer : Comparer} {types : List σ}

theorem mem_objectInfo {info : ObjectSerializationInfo} :
    info ∈ (resultOf symbols disallowInternal comparer types).collectedObjectInfo ↔
      ∃ subject, (∃ type ∈ types, objectOf symbols disallowInternal type = some subject) ∧
        objectEntry symbols subject = info := by
  simp [resultOf, Workspace.toResult, workspaceOf]

theorem mem_genericInfo {info : ObjectSerializationInfo} :
    info ∈ (resultOf symbols disallowInternal comparer types).collectedClosedTypeGenericInfo ↔
      ∃ subject, (∃ type ∈ types, genericOf symbols disallowInternal type = some subject) ∧
        objectEntry symbols subject = info := by
  simp [resultOf, Workspace.toResult, workspaceOf]

end Entries

section Simulation

variable {σ : Type} {symbols : TypeSymbols σ} {disallowInternal : Bool}

inductive MemberRound (call : CollectCall σ) (shown : Bool) (member : MemberSerializationInfo)
    (memberType : σ) (state next : MemberState σ) : Prop
  | skipped (hidden : shown = false) (same : next = state)
  | listed (isShown : shown = true) (workspace : Workspace σ)
      (called : call (state.1, memberType) = value workspace)
      (appended : next = (workspace, state.2 ++ [member]))

theorem collectMember_round {call : CollectCall σ} {state next : MemberState σ}
    {member : MemberSerializationInfo} {memberType : σ}
    (returned : collectMember call state member memberType = value next) :
    MemberRound call (visible member) member memberType state next := by
  rw [collectMember_eq] at returned
  cases shown : visible member with
  | true =>
      rw [shown, if_pos rfl] at returned
      obtain ⟨workspace, called, appended⟩ := bind_eq_value.mp returned
      exact .listed rfl workspace called (by simpa using appended.symm)
  | false =>
      rw [shown] at returned
      exact .skipped rfl (by simpa using returned.symm)

theorem collectProperty_round {call : CollectCall σ} {state next : MemberState σ}
    {item : PropertySymbol σ} (returned : collectProperty symbols call state item = value next) :
    MemberRound call (!item.isIndexer && visible (memberOfProperty symbols item none))
      (propertyEntry symbols item) item.type state next := by
  unfold collectProperty at returned
  cases indexer : item.isIndexer with
  | true =>
      rw [indexer] at returned
      exact .skipped rfl (by simpa using returned.symm)
  | false =>
      rw [indexer] at returned
      obtain ⟨attributes, read, collected⟩ := bind_eq_value.mp returned
      have entry : propertyEntry symbols item = memberOfProperty symbols item (some attributes) := by
        rw [propertyEntry, ofExcept_eq_value.mp read]
        rfl
      rw [entry]
      exact collectMember_round collected

theorem collectField_round {call : CollectCall σ} {state next : MemberState σ}
    {item : FieldSymbol σ} (returned : collectField symbols call state item = value next) :
    MemberRound call (!item.isImplicitlyDeclared && visible (memberOfField symbols item))
      (memberOfField symbols item) item.type state next := by
  unfold collectField at returned
  cases implicit : item.isImplicitlyDeclared with
  | true =>
      rw [implicit] at returned
      exact .skipped rfl (by simpa using returned.symm)
  | false =>
      rw [implicit] at returned
      exact collectMember_round returned

theorem members_returned {ι : Type} {call : CollectCall σ}
    {collectItem : MemberState σ → ι → Outcome Thrown (MemberState σ)} {shown : ι → Bool}
    {member : ι → MemberSerializationInfo} {memberType : ι → σ}
    (each : ∀ state item next, collectItem state item = value next →
      MemberRound call (shown item) (member item) (memberType item) state next)
    {items : List ι} {state last : MemberState σ}
    (returned : items.foldlM collectItem state = value last) :
    ((items.filter shown).map memberType).foldlM (fun workspace type => call (workspace, type))
        state.1 = value last.1 ∧
      last.2 = state.2 ++ (items.filter shown).map member := by
  induction items generalizing state with
  | nil =>
      have same : state = last := by simpa using returned
      simp [same]
  | cons item rest ih =>
      rw [List.foldlM_cons] at returned
      obtain ⟨next, stepped, looped⟩ := bind_eq_value.mp returned
      obtain ⟨visited, appended⟩ := ih looped
      rcases each state item next stepped with ⟨hidden, same⟩ | ⟨isShown, workspace, called, same⟩
      · rw [same] at visited appended
        simp [hidden, visited, appended]
      · rw [same] at visited appended
        simp [isShown, called, visited, appended]

theorem getObjectInfo_returned {call : CollectCall σ} {workspace last : Workspace σ} {type : σ}
    {info : ObjectSerializationInfo}
    (returned : getObjectInfo symbols call workspace type = value (last, info)) :
    (memberTypes symbols type).foldlM (fun workspace item => call (workspace, item)) workspace =
        value last ∧ info = objectEntry symbols type ∧ Readable symbols type := by
  obtain ⟨middle, looped, returned⟩ := bind_eq_value.mp returned
  obtain ⟨collected, looped', returned⟩ := bind_eq_value.mp returned
  obtain ⟨attributes, read, made⟩ := bind_eq_value.mp returned
  obtain ⟨visited, members⟩ := members_returned (fun _ _ _ => collectProperty_round) looped
  obtain ⟨visited', members'⟩ := members_returned (fun _ _ _ => collectField_round) looped'
  simp only [pure_eq, value.injEq, Prod.mk.injEq] at made
  obtain ⟨sameLast, sameInfo⟩ := made
  refine ⟨?_, ?_, ?_⟩
  · rw [memberTypes, List.foldlM_append, properties, visited, value_bind, fields, visited', sameLast]
  · rw [← sameInfo, objectEntry, ofExcept_eq_value.mp read, members', members]
    rfl
  · intro item listed
    obtain ⟨declared, shown⟩ := List.mem_filter.mp listed
    obtain ⟨state, next, stepped⟩ := foldlM_rounds looped item declared
    have notIndexer : item.isIndexer = false := by
      cases indexer : item.isIndexer with
      | true => simp [indexer] at shown
      | false => rfl
    rw [collectProperty, notIndexer] at stepped
    obtain ⟨attributes, read, _⟩ := bind_eq_value.mp stepped
    exact ⟨attributes, ofExcept_eq_value.mp read⟩

inductive CoreStep (symbols : TypeSymbols σ) (disallowInternal : Bool) (call : CollectCall σ)
    (type : σ) (marked next : Workspace σ) : Prop
  | skipped (how : treatment symbols disallowInternal type = .skipped) (same : next = marked)
  | enum (how : treatment symbols disallowInternal type = .enum)
      (added : next = { marked with
        collectedEnumInfo := marked.collectedEnumInfo ++ [enumEntry symbols type] })
  | generic (subject : σ) (last : Workspace σ)
      (how : treatment symbols disallowInternal type = .generic subject)
      (looped : (symbols.typeArguments subject ++ memberTypes symbols subject).foldlM
        (fun workspace item => call (workspace, item)) marked = value last)
      (readable : Readable symbols subject)
      (added : next = { last with
        collectedClosedTypeGenericInfo :=
          last.collectedClosedTypeGenericInfo ++ [objectEntry symbols subject] })
  | object (last : Workspace σ) (how : treatment symbols disallowInternal type = .object)
      (looped : (memberTypes symbols type).foldlM
        (fun workspace item => call (workspace, item)) marked = value last)
      (readable : Readable symbols type)
      (added : next = { last with
        collectedObjectInfo := last.collectedObjectInfo ++ [objectEntry symbols type] })

theorem collectEnum_step {call : CollectCall σ} {marked next : Workspace σ} {type : σ}
    (how : treatment symbols disallowInternal type = .enum)
    (returned : collectEnum symbols marked type = value next) :
    CoreStep symbols disallowInternal call type marked next := by
  obtain ⟨attributes, read, made⟩ := bind_eq_value.mp returned
  refine .enum how ?_
  rw [enumEntry, ofExcept_eq_value.mp read]
  simpa [Except.toOption] using made.symm

theorem collectGeneric_step {call : CollectCall σ} {marked next : Workspace σ} {type subject : σ}
    (how : treatment symbols disallowInternal type = treatGeneric symbols subject)
    (returned : collectGeneric symbols call marked subject = value next) :
    CoreStep symbols disallowInternal call type marked next := by
  unfold collectGeneric at returned
  split at returned
  · simp at returned
  · split at returned
    · rename_i segment
      have skipped : treatGeneric symbols subject = .skipped := by simp [treatGeneric, segment]
      exact .skipped (how.trans skipped) (by simpa using returned.symm)
    · rename_i ordinary
      have generic : treatGeneric symbols subject = .generic subject := by
        simp [treatGeneric, ordinary]
      obtain ⟨middle, arguments, returned⟩ := bind_eq_value.mp returned
      obtain ⟨⟨last, info⟩, described, made⟩ := bind_eq_value.mp returned
      obtain ⟨looped, same, readable⟩ := getObjectInfo_returned described
      refine .generic subject last (how.trans generic) ?_ readable ?_
      · rw [List.foldlM_append, arguments, value_bind, looped]
      · rw [← same]
        simpa using made.symm

theorem collectObject_step {call : CollectCall σ} {marked next : Workspace σ} {type : σ}
    (how : treatment symbols disallowInternal type = .object)
    (returned : collectObject symbols call marked type = value next) :
    CoreStep symbols disallowInternal call type marked next := by
  obtain ⟨⟨last, info⟩, described, made⟩ := bind_eq_value.mp returned
  obtain ⟨looped, same, readable⟩ := getObjectInfo_returned described
  refine .object last how looped readable ?_
  rw [← same]
  simpa using made.symm

theorem CoreStep.follows {call : CollectCall σ} {call' : State σ × σ → Outcome Thrown (State σ)}
    {type : σ} {marked next : Workspace σ} {state : State σ}
    (each : ∀ (types : List σ) (last : Workspace σ),
      types.foldlM (fun workspace item => call (workspace, item)) marked = value last →
      ∃ final, types.foldlM (fun state item => call' (state, item)) state = value final ∧
        Represents symbols disallowInternal final last)
    (start : Represents symbols disallowInternal state marked)
    (step : CoreStep symbols disallowInternal call type marked next) :
    ∃ final, (children symbols disallowInternal type).foldlM
        (fun state item => call' (state, item)) state = value final ∧
      Represents symbols disallowInternal
        { final with finished := final.finished ++ [type] } next := by
  have append : ∀ final : State σ, (∀ other ∈ final.finished,
      ∀ subject ∈ subjectOf symbols disallowInternal other, Readable symbols subject) →
      (∀ subject ∈ subjectOf symbols disallowInternal type, Readable symbols subject) →
      ∀ other ∈ final.finished ++ [type],
        ∀ subject ∈ subjectOf symbols disallowInternal other, Readable symbols subject := by
    intro final before own
    exact List.forall_mem_append.mpr ⟨before, by simpa using own⟩
  cases step with
  | skipped how same =>
      refine ⟨state, by simp [children, how], ?_, append state start.readable ?_⟩
      · simp [same, start.workspace, workspaceOf, enumOf, genericOf, objectOf, how]
      · simp [subjectOf, how]
  | enum how added =>
      refine ⟨state, by simp [children, how], ?_, append state start.readable ?_⟩
      · simp [added, start.workspace, workspaceOf, enumOf, genericOf, objectOf, how]
      · simp [subjectOf, how]
  | generic subject last how looped readable added =>
      obtain ⟨final, followed, kept⟩ := each _ last looped
      refine ⟨final, by simpa [children, how] using followed, ?_, append final kept.readable ?_⟩
      · simp [added, kept.workspace, workspaceOf, enumOf, genericOf, objectOf, how]
      · simpa [subjectOf, how] using readable
  | object last how looped readable added =>
      obtain ⟨final, followed, kept⟩ := each _ last looped
      refine ⟨final, by simpa [children, how] using followed, ?_, append final kept.readable ?_⟩
      · simp [added, kept.workspace, workspaceOf, enumOf, genericOf, objectOf, how]
      · simpa [subjectOf, how] using readable

variable [DecidableEq σ]

theorem collectCoreBody_step {call : CollectCall σ} {workspace next : Workspace σ} {type : σ}
    (unknown : type ∉ workspace.alreadyCollected)
    (returned : collectCoreBody symbols disallowInternal call (workspace, type) = value next) :
    CoreStep symbols disallowInternal call type
      { workspace with alreadyCollected := type :: workspace.alreadyCollected } next := by
  simp only [collectCoreBody, if_neg unknown] at returned
  cases allowed : isAllowAccessibility symbols disallowInternal type with
  | false =>
      simp only [allowed, Bool.not_false, if_true, pure_eq, value.injEq] at returned
      exact .skipped (by simp [treatment, allowed]) returned.symm
  | true =>
  cases named : symbols.isNamedType type with
  | false =>
      simp only [allowed, named, Bool.not_false, Bool.not_true, Bool.false_eq_true, if_true,
        if_false, pure_eq, value.injEq] at returned
      exact .skipped (by simp [treatment, allowed, named]) returned.symm
  | true =>
  simp only [allowed, named, Bool.not_true, Bool.false_eq_true, if_false] at returned
  split at returned
  · rename_i enum
    exact collectEnum_step (by simp [treatment, allowed, named, enum]) returned
  · rename_i notEnum
    split at returned
    · rename_i generic
      exact collectGeneric_step (by simp [treatment, allowed, named, notEnum, generic]) returned
    · rename_i plain
      split at returned
      · rename_i underlying tuple
        exact collectGeneric_step (by simp [treatment, allowed, named, notEnum, plain, tuple]) returned
      · rename_i noTuple
        split at returned
        · simp at returned
        · rename_i isInMetadata _ located
          split at returned
          · rename_i inMetadata
            exact .skipped (by simp [treatment, allowed, named, notEnum, plain, noTuple, located,
              inMetadata]) (by simpa using returned.symm)
          · rename_i inSource
            exact collectObject_step (by simp [treatment, allowed, named, notEnum, plain, noTuple,
              located, inSource]) returned

theorem exploreBody_follows {call : CollectCall σ} {call' : State σ × σ → Outcome Thrown (State σ)}
    (each : ∀ state workspace type next, Represents symbols disallowInternal state workspace →
      call (workspace, type) = value next →
      ∃ last, call' (state, type) = value last ∧ Represents symbols disallowInternal last next)
    {state : State σ} {workspace next : Workspace σ} {type : σ}
    (start : Represents symbols disallowInternal state workspace)
    (returned : collectCoreBody symbols disallowInternal call (workspace, type) = value next) :
    ∃ last, exploreBody (children symbols disallowInternal) call' (state, type) = value last ∧
      Represents symbols disallowInternal last next := by
  have marks : workspace.alreadyCollected = state.visited := by rw [start.workspace]; rfl
  by_cases known : type ∈ state.visited
  · have seen : type ∈ workspace.alreadyCollected := by rwa [marks]
    simp only [collectCoreBody, if_pos seen, pure_eq, value.injEq] at returned
    refine ⟨state, by simp [exploreBody, known], ?_⟩
    rw [← returned]
    exact start
  · have unseen : type ∉ workspace.alreadyCollected := by rwa [marks]
    have marked : Represents symbols disallowInternal
        { state with visited := type :: state.visited }
        { workspace with alreadyCollected := type :: workspace.alreadyCollected } := by
      refine ⟨?_, start.readable⟩
      rw [start.workspace]
      rfl
    have step := collectCoreBody_step unseen returned
    obtain ⟨final, followed, kept⟩ := step.follows
      (fun types last looped => foldlM_follows (Represents symbols disallowInternal)
        (fun state workspace item next related => each state workspace item next related)
        marked looped) marked
    exact ⟨_, by simp [exploreBody, known, followed], kept⟩

theorem collectCore_follows {depth : Nat} {state : State σ} {workspace next : Workspace σ} {type : σ}
    (start : Represents symbols disallowInternal state workspace)
    (returned : collectCore symbols disallowInternal depth (workspace, type) = value next) :
    ∃ last, explore (children symbols disallowInternal) depth state type =
        (value last : Outcome Thrown (State σ)) ∧
      Represents symbols disallowInternal last next := by
  induction depth generalizing state workspace next type with
  | zero => simp [collectCore] at returned
  | succ depth ih =>
      exact exploreBody_follows (fun _ _ _ _ related => ih related) start returned

/-- A run that returns has described the types reachable from the targets. -/
theorem collect_returned {comparer : Comparer} {declared : List σ} {depth : Nat}
    {result : TypeCollectorResult}
    (returned : collect symbols disallowInternal comparer declared depth = value result) :
    ∃ types : List σ, types.Nodup ∧
      (∀ type, type ∈ types ↔ Reached (children symbols disallowInternal)
        (targetTypes symbols disallowInternal declared) type) ∧
      (∀ type ∈ types, ∀ subject ∈ subjectOf symbols disallowInternal type,
        Readable symbols subject) ∧
      result = resultOf symbols disallowInternal comparer types := by
  obtain ⟨workspace, looped, made⟩ := bind_eq_value.mp returned
  have empty : Represents symbols disallowInternal ⟨[], []⟩ ⟨[], [], [], []⟩ := ⟨rfl, by simp⟩
  obtain ⟨last, explored, represents⟩ : ∃ last,
      exploreAll (children symbols disallowInternal) depth
        (targetTypes symbols disallowInternal declared) = (value last : Outcome Thrown (State σ)) ∧
      Represents symbols disallowInternal last workspace := by
    apply foldlM_follows (Represents symbols disallowInternal) _ empty looped
    intro state workspace type next related returned
    exact collectCore_follows related returned
  obtain ⟨nodup, reached⟩ := exploreAll_returned explored
  refine ⟨last.finished, nodup, reached, represents.readable, ?_⟩
  have same : workspace.toResult comparer = result := by simpa using made
  rw [← same, represents.workspace]
  rfl

end Simulation

end Stad.TypeCollectorForCompilation
