import Mathlib.Data.List.Forall2
import Mathlib.Data.Option.Basic
import Stad.DataSetMembers
import Stad.Transcription

/-!
Two runs of `MakeRegistry` on infos that differ in their attributes only. Whatever
models the other data sets leave in `AllModels`, a data set that reaches no changed
info gets models that unfold alike: to the same trees of objects, to any depth. Objects
of two graphs that simulate each other step by step do, whatever is shared or copied.
-/

namespace Unfolding

structure Graph (object shown reference : Type) where
  content : object → Option (shown × List (reference × Option object))

inductive Tree (shown reference : Type) where
  | cut
  | missing
  | node (seen : shown) (targets : List (reference × Option (Tree shown reference)))

variable {object object' shown reference : Type}

def Graph.unfold (graph : Graph object shown reference) : Nat → object → Tree shown reference
  | 0, _ => .cut
  | depth + 1, node =>
    match graph.content node with
    | none => .missing
    | some (seen, targets) =>
      .node seen (targets.map fun target => (target.1, target.2.map (graph.unfold depth)))

def Parallel (related : object → object' → Prop) (target : reference × Option object)
    (target' : reference × Option object') : Prop :=
  target.1 = target'.1 ∧ Option.Rel related target.2 target'.2

/-- Related objects show the same and refer to related objects. -/
def Bisimulation (graph : Graph object shown reference) (graph' : Graph object' shown reference)
    (related : object → object' → Prop) : Prop :=
  ∀ node node', related node node' → ∃ seen targets targets',
    graph.content node = some (seen, targets) ∧ graph'.content node' = some (seen, targets') ∧
      List.Forall₂ (Parallel related) targets targets'

theorem Bisimulation.unfold_eq {graph : Graph object shown reference}
    {graph' : Graph object' shown reference} {related : object → object' → Prop}
    (bisimulation : Bisimulation graph graph' related) (depth : Nat) {node : object}
    {node' : object'} (same : related node node') :
    graph.unfold depth node = graph'.unfold depth node' := by
  induction depth generalizing node node' with
  | zero => rfl
  | succ depth ih =>
      obtain ⟨seen, targets, targets', content, content', parallel⟩ :=
        bisimulation node node' same
      have unfolded : targets.map (fun target => (target.1, target.2.map (graph.unfold depth))) =
          targets'.map fun target => (target.1, target.2.map (graph'.unfold depth)) := by
        rw [← List.forall₂_eq_eq_eq, List.forall₂_map_left_iff, List.forall₂_map_right_iff]
        refine parallel.imp ?_
        rintro ⟨kind, target⟩ ⟨_, target'⟩ ⟨rfl, both⟩
        cases both with
        | none => rfl
        | some next => exact congrArg (fun tree => (kind, some tree)) (ih next)
      simp only [Graph.unfold, content, content', unfolded]

end Unfolding

namespace Stad

def StadModel.shown (model : StadModel) : String × BitVec 32 × AnnotationInfo :=
  (model.type, model.typeCode, model.annotationInfo)

def MemberDefinition.shown (definition : MemberDefinition) :
    Option String × String × MemberKind × AnnotationInfo :=
  (definition.type, definition.name, definition.kind, definition.annotationInfo)

def StadRegistry.graph (registry : StadRegistry) :
    Unfolding.Graph Nat (String × BitVec 32 × AnnotationInfo)
      (Option String × String × MemberKind × AnnotationInfo) where
  content ref := registry.models[ref]?.map fun model =>
    (model.shown, model.members.map fun definition => (definition.shown, definition.model))

theorem StadRegistry.graph_content {registry : StadRegistry} {ref : Nat} {model : StadModel}
    (placed : registry.models[ref]? = some model) :
    registry.graph.content ref = some (model.shown,
      model.members.map fun definition => (definition.shown, definition.model)) := by
  simp [graph, placed]

namespace StadAnalyzer

open Bounded Bounded.Outcome PairedLists Relation Unfolding

variable {result result' : TypeCollectorResult}

theorem Transcribes.shown {definition definition' : MemberDefinition}
    {member : MemberSerializationInfo} (same : Transcribes definition member)
    (same' : Transcribes definition' member) : definition.shown = definition'.shown := by
  have annotationInfo := same.annotationInfo.symm.trans same'.annotationInfo
  rw [MemberDefinition.shown, MemberDefinition.shown, same.type, same'.type, same.name, same'.name,
    same.kind, same'.kind, Except.ok.inj annotationInfo]

/-- The same infos in the same places, up to their attributes. -/
structure SameButAttributes (result result' : TypeCollectorResult) : Prop where
  objects : List.Forall₂ (fun info info' => info' = { info with attributes := info'.attributes })
    result.collectedObjectInfo result'.collectedObjectInfo
  generics : result'.collectedClosedTypeGenericInfo = result.collectedClosedTypeGenericInfo

/-- The type is that of a member, or reached from one through members. -/
def ReachedFrom (result : TypeCollectorResult) (info : ObjectSerializationInfo)
    (type : Option String) : Prop :=
  ∃ member ∈ info.members, ReflTransGen (MemberStep result) member.type type

def Apart (result result' : TypeCollectorResult) (info : ObjectSerializationInfo) : Prop :=
  ∀ (index : Nat) (other other' : ObjectSerializationInfo),
    result.collectedObjectInfo[index]? = some other →
    result'.collectedObjectInfo[index]? = some other' → other ≠ other' →
    ¬ReachedFrom result info other.fullName

theorem SameButAttributes.getObjectInfo (same : SameButAttributes result result')
    (type : Option String) :
    StadAnalyzer.getObjectInfo result' type = StadAnalyzer.getObjectInfo result type ∨
      ∃ (index : Nat) (info info' : ObjectSerializationInfo),
        result.collectedObjectInfo[index]? = some info ∧
        result'.collectedObjectInfo[index]? = some info' ∧
        StadAnalyzer.getObjectInfo result type = some info ∧
        StadAnalyzer.getObjectInfo result' type = some info' := by
  unfold StadAnalyzer.getObjectInfo
  have agree : ∀ info info' : ObjectSerializationInfo,
      info' = { info with attributes := info'.attributes } →
      decide (info.fullName = type) = decide (info'.fullName = type) := by
    intro info info' equal
    rw [equal]
  rcases forall₂_find? agree same.objects with ⟨none, none'⟩ | ⟨index, info, info', placed, placed',
    found, found'⟩
  · rw [none, none', same.generics]
    exact Or.inl rfl
  · rw [found, found']
    exact Or.inr ⟨index, info, info', placed, placed', rfl, rfl⟩

theorem SameButAttributes.missing_iff (same : SameButAttributes result result')
    (type : Option String) :
    StadAnalyzer.getObjectInfo result' type = none ↔
      StadAnalyzer.getObjectInfo result type = none := by
  rcases same.getObjectInfo type with equal | ⟨_, _, _, _, _, found, found'⟩
  · rw [equal]
  · simp [found, found']

theorem Apart.getObjectInfo {info : ObjectSerializationInfo} (apart : Apart result result' info)
    (same : SameButAttributes result result') {type : Option String}
    (reached : ReachedFrom result info type) :
    StadAnalyzer.getObjectInfo result' type = StadAnalyzer.getObjectInfo result type := by
  rcases same.getObjectInfo type with equal | ⟨index, other, other', placed, placed', found, found'⟩
  · exact equal
  · rw [found, found']
    by_contra different
    refine apart index other other' placed placed' (fun equal => different (by rw [equal])) ?_
    rw [getObjectInfo_fullName found]
    exact reached

theorem ReachedFrom.step {info : ObjectSerializationInfo} {type next : Option String}
    (reached : ReachedFrom result info type) (step : MemberStep result type next) :
    ReachedFrom result info next := by
  obtain ⟨member, listed, path⟩ := reached
  exact ⟨member, listed, path.tail step⟩

def SameType (result : TypeCollectorResult) (info : ObjectSerializationInfo)
    (registry registry' : StadRegistry) (ref ref' : Nat) : Prop :=
  ∃ model model', registry.models[ref]? = some model ∧ registry'.models[ref']? = some model' ∧
    model.type = model'.type ∧ ReachedFrom result info (some model.type)

theorem sameType_bisimulation {depth depth' : Nat} {registry registry' : StadRegistry}
    (returned : makeRegistry result depth = value registry)
    (returned' : makeRegistry result' depth' = value registry')
    (same : SameButAttributes result result') {info : ObjectSerializationInfo}
    (apart : Apart result result' info) :
    Bisimulation registry.graph registry'.graph (SameType result info registry registry') := by
  rintro ref ref' ⟨model, model', placed, placed', type, reached⟩
  have listed := List.mem_of_getElem? placed
  have listed' := List.mem_of_getElem? placed'
  obtain ⟨coherent, linked⟩ := makeRegistry_coherent returned
  obtain ⟨coherent', linked'⟩ := makeRegistry_coherent returned'
  obtain ⟨source, found, code, annotations, definitions⟩ := makeRegistry_transcribed returned model listed
  obtain ⟨source', found', code', annotations', definitions'⟩ :=
    makeRegistry_transcribed returned' model' listed'
  rw [← type, apart.getObjectInfo same reached, found, Option.some.injEq] at found'
  subst found'
  rw [annotations, Except.ok.injEq] at annotations'
  rw [← type, ← code] at code'
  have shown : model'.shown = model.shown := by
    rw [StadModel.shown, StadModel.shown, type, code', annotations']
  have content' := StadRegistry.graph_content placed'
  rw [shown] at content'
  refine ⟨_, _, _, StadRegistry.graph_content placed, content', ?_⟩
  rw [List.forall₂_map_left_iff, List.forall₂_map_right_iff]
  have inside := (List.forall₂_and_left _ _).mpr ⟨fun _ member => member, definitions⟩
  have inside' := (List.forall₂_and_left _ _).mpr ⟨fun _ member => member, definitions'⟩
  refine (forall₂_join inside inside').imp ?_
  rintro definition definition' ⟨source, ⟨member, transcribed⟩, member', transcribed'⟩
  have sameType : definition'.type = definition.type := transcribed'.type.trans transcribed.type.symm
  refine ⟨transcribed.shown transcribed', ?_⟩
  have link := coherent.linkedAsCollected linked listed member
  have link' := coherent'.linkedAsCollected linked' listed' member'
  rw [LinkedAsCollected, sameType, same.missing_iff] at link'
  cases target : definition.model with
  | none =>
      rw [link'.1.mpr (link.1.mp target)]
      exact Option.Rel.none
  | some ref =>
      have collected : StadAnalyzer.getObjectInfo result definition.type ≠ none := by
        rw [Ne, ← link.1, target]
        simp
      obtain ⟨ref', target'⟩ := Option.ne_none_iff_exists'.mp (mt link'.1.mp collected)
      obtain ⟨next, _, nextPlaced, nextType, _⟩ := link.2 ref target
      obtain ⟨next', _, nextPlaced', nextType', _⟩ := link'.2 ref' target'
      have step := (coherent.described model listed).definition member
        (Option.isSome_iff_ne_none.mpr collected)
      rw [target']
      refine Option.Rel.some ⟨next, next', nextPlaced, nextPlaced', ?_, ?_⟩
      · exact Option.some.inj (nextType.trans nextType'.symm)
      · rw [nextType]
        exact reached.step step

structure OrderedDataSetOf (result : TypeCollectorResult) (models : List StadModel)
    (info : ObjectSerializationInfo) (dataSet : DataSetModel) : Prop
    extends DataSetOf result models info dataSet where
  lists : typesAt models dataSet.listModels =
    ((info.members.filter (isExpanded result)).filter (namesCollection · = true)).map (·.type)
  singles : typesAt models dataSet.singleModels =
    ((info.members.filter (isExpanded result)).filter (namesCollection · = false)).map (·.type)

theorem typesAt_pick {models : List StadModel} {members : List MemberSerializationInfo}
    {refs : List Nat} (types : typesAt models refs = members.map (·.type)) (kind : Bool) :
    typesAt models (pick (members.map namesCollection) refs kind) =
      (members.filter (namesCollection · = kind)).map (·.type) := by
  induction members generalizing refs with
  | nil => rfl
  | cons member rest ih =>
      cases refs with
      | nil => simp [typesAt] at types
      | cons ref refs =>
          simp only [typesAt, List.map_cons, List.cons.injEq] at types
          have later := ih types.2
          rw [List.map_cons, pick_cons]
          by_cases same : namesCollection member = kind
          · rw [if_pos same, List.filter_cons_of_pos (by simpa using same), List.map_cons, ← later,
              ← types.1]
            rfl
          · rw [if_neg same, List.filter_cons_of_neg (by simpa using same)]
            exact later

theorem makeRegistry_orderedDataSets {depth : Nat} {registry : StadRegistry}
    (returned : makeRegistry result depth = value registry) :
    List.Forall₂ (OrderedDataSetOf result registry.models)
      (result.collectedObjectInfo.filter definesDataSet) registry.dataSets := by
  refine makeRegistry_each returned ?_ ?_
  · intro models info final run
    obtain ⟨refs, expands, lists, singles⟩ := dataSetMembers_expand run
    rw [List.nil_append] at lists singles
    refine ⟨(dataSetMembers_dataSetOf run).1, ?_, ?_⟩
    · rw [lists]
      exact typesAt_pick expands.placed.2 true
    · rw [singles]
      exact typesAt_pick expands.placed.2 false
  · intro models models' added info dataSet made grown
    refine ⟨made.toDataSetOf.grow grown, ?_, ?_⟩
    · rw [typesAt_grow grown fun ref listed => made.inside ref (List.mem_append_left _ listed)]
      exact made.lists
    · rw [typesAt_grow grown fun ref listed => made.inside ref (List.mem_append_right _ listed)]
      exact made.singles

def dataSetAt (result : TypeCollectorResult) (registry : StadRegistry) (index : Nat) :
    Option DataSetModel :=
  registry.dataSets[((result.collectedObjectInfo.take index).filter definesDataSet).length]?

/-- References in order to models that unfold to the same trees, to every depth. -/
def UnfoldAlike (registry registry' : StadRegistry) : List Nat → List Nat → Prop :=
  List.Forall₂ fun ref ref' =>
    ∀ depth, registry.graph.unfold depth ref = registry'.graph.unfold depth ref'

theorem unfoldAlike_of_types {registry registry' : StadRegistry} {info : ObjectSerializationInfo}
    (bisimulation : Bisimulation registry.graph registry'.graph
      (SameType result info registry registry'))
    {refs refs' : List Nat} (inside : ∀ ref ∈ refs, ref < registry.models.length)
    (types : typesAt registry.models refs = typesAt registry'.models refs')
    (reached : ∀ type ∈ typesAt registry.models refs, ReachedFrom result info type) :
    UnfoldAlike registry registry' refs refs' := by
  have pairs := types
  rw [typesAt, typesAt, ← List.forall₂_eq_eq_eq, List.forall₂_map_left_iff,
    List.forall₂_map_right_iff] at pairs
  refine ((List.forall₂_and_left _ _).mpr ⟨fun _ listed => listed, pairs⟩).imp ?_
  rintro ref ref' ⟨listed, same⟩ depth
  have placed := List.getElem?_eq_getElem (inside ref listed)
  rw [placed] at same
  obtain ⟨model', placed', type⟩ := Option.map_eq_some_iff.mp same.symm
  refine bisimulation.unfold_eq depth ⟨_, model', placed, placed', type.symm, reached _ ?_⟩
  exact List.mem_map.mpr ⟨ref, listed, by rw [placed]; rfl⟩

/-- A data set that reaches no info that differs gets the same name and, on both
lists and in the same order, models that unfold to the same trees. -/
theorem makeRegistry_isolated {depth depth' : Nat} {registry registry' : StadRegistry}
    (returned : makeRegistry result depth = value registry)
    (returned' : makeRegistry result' depth' = value registry')
    (same : SameButAttributes result result') {index : Nat} {info : ObjectSerializationInfo}
    (placed : result.collectedObjectInfo[index]? = some info)
    (placed' : result'.collectedObjectInfo[index]? = some info)
    (defines : definesDataSet info = true) (apart : Apart result result' info) :
    ∃ dataSet dataSet', dataSetAt result registry index = some dataSet ∧
      dataSetAt result' registry' index = some dataSet' ∧ dataSet.name = dataSet'.name ∧
      UnfoldAlike registry registry' dataSet.listModels dataSet'.listModels ∧
      UnfoldAlike registry registry' dataSet.singleModels dataSet'.singleModels := by
  obtain ⟨dataSet, made, ordered⟩ :=
    forall₂_filter_at (makeRegistry_orderedDataSets returned) placed defines
  obtain ⟨dataSet', made', ordered'⟩ :=
    forall₂_filter_at (makeRegistry_orderedDataSets returned') placed' defines
  have bisimulation := sameType_bisimulation returned returned' same apart
  have expanded : info.members.filter (isExpanded result') =
      info.members.filter (isExpanded result) := by
    refine List.filter_congr fun member listed => ?_
    rw [isExpanded, isExpanded, apart.getObjectInfo same ⟨member, listed, .refl⟩]
  have reached : ∀ kind, ∀ type ∈ ((info.members.filter (isExpanded result)).filter
      (namesCollection · = kind)).map (·.type), ReachedFrom result info type := by
    intro kind type listed
    obtain ⟨member, kept, named⟩ := List.mem_map.mp listed
    have inMembers := (List.mem_filter.mp (List.mem_filter.mp kept).1).1
    exact ⟨member, inMembers, by rw [named]⟩
  refine ⟨dataSet, dataSet', made, made', ordered.name.trans ordered'.name.symm, ?_, ?_⟩
  · refine unfoldAlike_of_types bisimulation
      (fun ref listed => ordered.inside ref (List.mem_append_left _ listed)) ?_ ?_
    · rw [ordered.lists, ordered'.lists, expanded]
    · rw [ordered.lists]
      exact reached true
  · refine unfoldAlike_of_types bisimulation
      (fun ref listed => ordered.inside ref (List.mem_append_right _ listed)) ?_ ?_
    · rw [ordered.singles, ordered'.singles, expanded]
    · rw [ordered.singles]
      exact reached false

/-! `Sample.Grove` comes first and, if it is marked, leaves models of `Leaf` and `int`. -/

def groveInfo (isMarked : Bool) : ObjectSerializationInfo :=
  ⟨"Sample_Grove", some "Sample.Grove", some "Sample", true, none, [leafMember "First"],
    some (if isMarked then [⟨some "Stad.Annotation.DataSetDefinition", []⟩] else [])⟩

def besideGrove (isMarked : Bool) : TypeCollectorResult :=
  ⟨[groveInfo isMarked, leafInfo, treeInfo [leafMember "Left"], int32Info], [], []⟩

def besideGroveRegistry : StadRegistry :=
  ⟨[int32Model, leafModel, leafModel], [⟨some "Sample.Grove", [], [1]⟩, ⟨some "Sample.Tree", [], [2]⟩]⟩

theorem besideGrove_reached {type : Option String}
    (reached : ReachedFrom (besideGrove true) (treeInfo [leafMember "Left"]) type) :
    type = some "Sample.Leaf" ∨ type = some "System.Int32" := by
  obtain ⟨member, listed, path⟩ := reached
  rw [List.mem_singleton.mp listed] at path
  induction path with
  | refl => exact Or.inl rfl
  | tail _ step ih =>
      obtain ⟨info, found, next, inInfo, same, _⟩ := step
      rcases ih with isLeaf | isInt
      · rw [isLeaf] at found
        have isInfo : some leafInfo = some info := found
        rw [← Option.some.inj isInfo] at inInfo
        rw [← same, List.mem_singleton.mp inInfo]
        exact Or.inr rfl
      · rw [isInt] at found
        have isInfo : some int32Info = some info := found
        rw [← Option.some.inj isInfo] at inInfo
        cases inInfo

theorem besideGrove_apart :
    Apart (besideGrove true) (besideGrove false) (treeInfo [leafMember "Left"]) := by
  intro index other other' placed placed' different reached
  match index with
  | 0 =>
      cases placed
      rcases besideGrove_reached reached with isLeaf | isInt
      · simp [groveInfo] at isLeaf
      · simp [groveInfo] at isInt
  | index + 1 => exact different (Option.some.inj (placed.symm.trans placed'))

theorem besideGrove_same : SameButAttributes (besideGrove true) (besideGrove false) where
  objects := by simp [besideGrove, groveInfo]
  generics := rfl

theorem besideGrove_isolated :
    ∃ dataSet dataSet', dataSetAt (besideGrove true) besideGroveRegistry 2 = some dataSet ∧
      dataSetAt (besideGrove false) oneLeafRegistry 2 = some dataSet' ∧
      dataSet.name = dataSet'.name ∧
      UnfoldAlike besideGroveRegistry oneLeafRegistry dataSet.listModels dataSet'.listModels ∧
      UnfoldAlike besideGroveRegistry oneLeafRegistry dataSet.singleModels dataSet'.singleModels := by
  have marked : makeRegistry (besideGrove true) 2 = value besideGroveRegistry := by rfl
  have unmarked : makeRegistry (besideGrove false) 2 = value oneLeafRegistry := by rfl
  exact makeRegistry_isolated marked unmarked besideGrove_same rfl rfl rfl besideGrove_apart

end StadAnalyzer

end Stad
