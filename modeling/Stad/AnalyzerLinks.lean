import Stad.AnalyzerCoherence

/-!
The object graph of a returned registry: where the links of its members lead,
and when two of its models can have one type.
-/

namespace Stad.StadAnalyzer

open Bounded Bounded.Outcome Reachability Relation

variable {result : TypeCollectorResult}

def rootRefs (dataSets : List DataSetModel) (ref : Nat) : Prop :=
  ∃ dataSet ∈ dataSets, ref ∈ dataSet.listModels ++ dataSet.singleModels

inductive ModelReachable (registry : StadRegistry) : Nat → Prop
  | root {ref} : rootRefs registry.dataSets ref → ModelReachable registry ref
  | member {ref model definition target} : ModelReachable registry ref →
      registry.models[ref]? = some model → definition ∈ model.members →
      definition.model = some target → ModelReachable registry target

def LinkedAsCollected (result : TypeCollectorResult) (registry : StadRegistry)
    (definition : MemberDefinition) : Prop :=
  (definition.model = none ↔ getObjectInfo result definition.type = none) ∧
    ∀ target, definition.model = some target → ∃ model info,
      registry.models[target]? = some model ∧ some model.type = definition.type ∧
      getObjectInfo result definition.type = some info ∧
      model.members.map (fun other => (other.type, other.name)) =
        info.members.map fun member => (member.type, member.name)

def Canonical (registry : StadRegistry) : Prop :=
  ∀ ref ref' model model', ModelReachable registry ref → ModelReachable registry ref' →
    registry.models[ref]? = some model → registry.models[ref']? = some model' →
    model.type = model'.type → ref = ref'

theorem expandedTypes_snoc (members : List MemberSerializationInfo)
    (member : MemberSerializationInfo) :
    expandedTypes result (members ++ [member]) =
      expandedTypes result members ++ expandedTypes result [member] := by
  simp [expandedTypes]

theorem rootTypes_snoc (infos : List ObjectSerializationInfo) (info : ObjectSerializationInfo) :
    rootTypes result (infos ++ [info]) = rootTypes result infos ++ rootTypes result [info] := by
  simp [rootTypes]

theorem dataSetMembers_coherent {depth : Nat} {members : List MemberSerializationInfo}
    {first last : DataSetState} {done : List (Option String)} {roots : Nat → Prop}
    (run : members.foldlM (makeDataSetMember result depth) first = value last)
    (coherent : Coherent result done first.allModels fun ref =>
      roots ref ∨ ref ∈ first.listModels ++ first.singleModels) :
    Coherent result (done ++ expandedTypes result members) last.allModels fun ref =>
      roots ref ∨ ref ∈ last.listModels ++ last.singleModels := by
  refine foldlM_induction run (fun passed state =>
    Coherent result (done ++ expandedTypes result passed) state.allModels fun ref =>
      roots ref ∨ ref ∈ state.listModels ++ state.singleModels) ?_ ?_
  · simpa [expandedTypes] using coherent
  · intro passed member rest state next _ holds stepped
    obtain ⟨info, found, outcome⟩ := makeDataSetMember_cases stepped
    rw [expandedTypes_snoc]
    rcases outcome with ⟨marked, same⟩ | ⟨marked, made, returned, models, lists⟩
    · unfold Marked at marked
      subst same
      simpa [expandedTypes, found, marked] using holds
    · have named := getObjectInfo_fullName found
      have targetFound := getObjectInfo_self found
      obtain ⟨buildable, built⟩ := makeStadModel_buildable depth (state.allModels, info) made
        returned targetFound holds.built
      obtain ⟨added, last, appended⟩ := makeStadModel_appends depth (state.allModels, info) made
        returned targetFound holds.built holds.closed
      have grown := holds.append appended buildable built
      have expanded : expandedTypes result [member] = [info.fullName] := by
        unfold Marked at marked
        simp [expandedTypes, found, marked, named]
      rw [expanded, models, ← List.append_assoc]
      refine grown.congr ?_
      intro ref
      split at lists
      · simp only [lists.1, lists.2, List.mem_append, List.mem_singleton]
        tauto
      · simp only [lists.1, lists.2, List.mem_append, List.mem_singleton]
        tauto

theorem makeRegistry_coherent {depth : Nat} {registry : StadRegistry}
    (returned : makeRegistry result depth = value registry) :
    Coherent result (rootTypes result result.collectedObjectInfo) registry.models
      (rootRefs registry.dataSets) ∧ Linked registry.models := by
  refine foldlM_induction returned (fun passed state =>
    Coherent result (rootTypes result passed) state.models (rootRefs state.dataSets) ∧
      Linked state.models) ?_ ?_
  · refine ⟨Coherent.initial.congr ?_, by simp [Linked]⟩
    intro ref
    simp [rootRefs]
  · intro passed info rest state next _ holds stepped
    rw [rootTypes_snoc]
    rcases makeRegistryRound_cases stepped with ⟨plain, same⟩ | ⟨defined, final, members, same⟩
    · subst same
      simpa [rootTypes, plain] using holds
    · have start : Coherent result (rootTypes result passed) state.models fun ref =>
          rootRefs state.dataSets ref ∨ ref ∈ ([] : List Nat) ++ [] :=
        holds.1.congr fun ref => by simp
      have grown := (dataSetMembers_coherent members start).link
      have roots : rootTypes result [info] = expandedTypes result info.members := by
        simp [rootTypes, defined]
      rw [same, roots]
      refine ⟨grown.congr ?_, linkModels_linked _⟩
      intro ref
      simp [rootRefs, or_and_right, exists_or]

theorem findModel_some {models : List StadModel} {type : Option String} {ref : Nat}
    (found : findModel models type = some ref) :
    ∃ model, models[ref]? = some model ∧ some model.type = type := by
  unfold findModel at found
  obtain ⟨bound, named, _⟩ := List.findIdx?_eq_some_iff_getElem.mp found
  exact ⟨models[ref], List.getElem?_eq_getElem bound, by simpa using named⟩

theorem findModel_none_iff {models : List StadModel} {type : Option String} :
    findModel models type = none ↔ hasModel models type = false := by
  unfold findModel
  rw [List.findIdx?_eq_none_iff, hasModel_eq_false_iff]
  simp

theorem Described.definition {model : StadModel} (described : Described result model)
    {definition : MemberDefinition} (member : definition ∈ model.members)
    (collected : (getObjectInfo result definition.type).isSome) :
    MemberStep result (some model.type) definition.type := by
  obtain ⟨info, found, pairs⟩ := described
  have listed : (definition.type, definition.name) ∈
      info.members.map fun member => (member.type, member.name) := by
    rw [← pairs]
    exact List.mem_map_of_mem (f := fun other => (other.type, other.name)) member
  obtain ⟨source, sourceListed, same⟩ := List.mem_map.mp listed
  simp only [Prod.mk.injEq] at same
  exact ⟨info, found, source, sourceListed, same.1, collected⟩

theorem Described.step {model : StadModel} (described : Described result model)
    {target : Option String} (step : MemberStep result (some model.type) target) :
    ∃ definition ∈ model.members, definition.type = target := by
  obtain ⟨info, found, pairs⟩ := described
  obtain ⟨member, listed, same, _⟩ := step.member found
  have inPairs : (member.type, member.name) ∈
      model.members.map fun definition => (definition.type, definition.name) := by
    rw [pairs]
    exact List.mem_map_of_mem (f := fun member => (member.type, member.name)) listed
  obtain ⟨definition, inMembers, equal⟩ := List.mem_map.mp inPairs
  simp only [Prod.mk.injEq] at equal
  exact ⟨definition, inMembers, equal.1.trans same⟩

theorem Coherent.linkedAsCollected {done : List (Option String)} {registry : StadRegistry}
    {roots : Nat → Prop} (coherent : Coherent result done registry.models roots)
    (linked : Linked registry.models) {model : StadModel} (listed : model ∈ registry.models)
    {definition : MemberDefinition} (member : definition ∈ model.members) :
    LinkedAsCollected result registry definition := by
  rw [LinkedAsCollected, linked model listed definition member]
  constructor
  · rw [findModel_none_iff]
    constructor
    · intro absent
      by_contra collected
      have step := (coherent.described model listed).definition member
        (Option.isSome_iff_ne_none.mpr collected)
      have present := coherent.closed _ _ (hasModel_iff.mpr ⟨model, listed, rfl⟩) step
      simp [absent] at present
    · intro missing
      rw [hasModel_eq_false_iff]
      intro other otherListed named
      obtain ⟨info, found, _⟩ := coherent.described other otherListed
      rw [named, missing] at found
      cases found
  · intro target found
    obtain ⟨other, placed, named⟩ := findModel_some found
    obtain ⟨info, infoFound, pairs⟩ := coherent.described other (List.mem_of_getElem? placed)
    rw [named] at infoFound
    exact ⟨other, info, placed, named, infoFound, pairs⟩

theorem ModelReachable.placed {done : List (Option String)} {registry : StadRegistry}
    (coherent : Coherent result done registry.models (rootRefs registry.dataSets))
    (linked : Linked registry.models) {ref : Nat} (reachable : ModelReachable registry ref) :
    ∃ model, registry.models[ref]? = some model := by
  cases reachable with
  | root isRoot => exact ⟨_, List.getElem?_eq_getElem (coherent.inside ref isRoot)⟩
  | member _ placed member link =>
      rw [linked _ (List.mem_of_getElem? placed) _ member] at link
      obtain ⟨model, found, _⟩ := findModel_some link
      exact ⟨model, found⟩

/-- In a returned registry every link of a reachable model leads to the model of
the member's type, with the collected members, and is absent only where no info
was collected. -/
theorem makeRegistry_linkClosure {depth : Nat} {registry : StadRegistry}
    (returned : makeRegistry result depth = value registry) {ref : Nat}
    (reachable : ModelReachable registry ref) :
    ∃ model, registry.models[ref]? = some model ∧
      ∀ definition ∈ model.members, LinkedAsCollected result registry definition := by
  obtain ⟨coherent, linked⟩ := makeRegistry_coherent returned
  obtain ⟨model, placed⟩ := reachable.placed coherent linked
  exact ⟨model, placed, fun definition member =>
    coherent.linkedAsCollected linked (List.mem_of_getElem? placed) member⟩

/-! `class Leaf { public int Value; }` and a data set with one or two members of its type. -/

def int32Info : ObjectSerializationInfo :=
  ⟨"System_Int32", some "System.Int32", some "System", false, none, [], some []⟩

def leafInfo : ObjectSerializationInfo :=
  ⟨"Sample_Leaf", some "Sample.Leaf", some "Sample", true, none,
    [⟨true, false, true, true, some "System.Int32", "Value", "Int32", none⟩], some []⟩

def leafMember (name : String) : MemberSerializationInfo :=
  ⟨true, false, true, true, some "Sample.Leaf", name, "Leaf", none⟩

def treeInfo (members : List MemberSerializationInfo) : ObjectSerializationInfo :=
  ⟨"Sample_Tree", some "Sample.Tree", some "Sample", true, none, members,
    some [⟨some "Stad.Annotation.DataSetDefinition",
      [.type (some "Stad.Annotation.DataSetDefinition")]⟩]⟩

def oneLeaf : TypeCollectorResult := ⟨[leafInfo, treeInfo [leafMember "Left"], int32Info], [], []⟩

def twoLeaves : TypeCollectorResult :=
  ⟨[leafInfo, treeInfo [leafMember "Left", leafMember "Right"], int32Info], [], []⟩

def int32Model : StadModel :=
  ⟨"System.Int32", Utility.toTypeCode (Utility.utf16 "System.Int32"), ⟨none⟩, []⟩

def leafModel : StadModel :=
  ⟨"Sample.Leaf", Utility.toTypeCode (Utility.utf16 "Sample.Leaf"), ⟨none⟩,
    [⟨some "System.Int32", "Value", .property, ⟨none⟩, some 0⟩]⟩

def oneLeafRegistry : StadRegistry :=
  ⟨[int32Model, leafModel], [⟨some "Sample.Tree", [], [1]⟩]⟩

def twoLeavesRegistry : StadRegistry :=
  ⟨[int32Model, leafModel, leafModel], [⟨some "Sample.Tree", [], [1, 2]⟩]⟩

theorem oneLeaf_returned : makeRegistry oneLeaf 2 = value oneLeafRegistry := by rfl

theorem oneLeaf_linkClosure :
    LinkedAsCollected oneLeaf oneLeafRegistry
      ⟨some "System.Int32", "Value", .property, ⟨none⟩, some 0⟩ := by
  have leaf : ModelReachable oneLeafRegistry 1 :=
    ModelReachable.root ⟨⟨some "Sample.Tree", [], [1]⟩, by simp [oneLeafRegistry], by simp⟩
  obtain ⟨model, placed, linked⟩ := makeRegistry_linkClosure oneLeaf_returned leaf
  obtain rfl : leafModel = model := Option.some.inj placed
  exact linked _ (List.mem_singleton.mpr rfl)

theorem ModelReachable.follow {done : List (Option String)} {registry : StadRegistry}
    {roots : Nat → Prop} (coherent : Coherent result done registry.models roots)
    (linked : Linked registry.models) {ref : Nat} (reachable : ModelReachable registry ref)
    {model : StadModel} (placed : registry.models[ref]? = some model) {type : Option String}
    (path : TransGen (MemberStep result) (some model.type) type) :
    ∃ target, findModel registry.models type = some target ∧ ModelReachable registry target := by
  have advance {source : Nat} {from' : StadModel} {next : Option String}
      (reached : ModelReachable registry source) (at' : registry.models[source]? = some from')
      (step : MemberStep result (some from'.type) next) :
      ∃ target, findModel registry.models next = some target ∧ ModelReachable registry target := by
    have listed := List.mem_of_getElem? at'
    obtain ⟨definition, member, same⟩ := (coherent.described from' listed).step step
    have present := coherent.closed _ _ (hasModel_iff.mpr ⟨from', listed, rfl⟩) step
    cases found : findModel registry.models next with
    | none => simp [findModel_none_iff.mp found] at present
    | some target =>
        have link := linked from' listed definition member
        rw [same, found] at link
        exact ⟨target, rfl, ModelReachable.member reached at' member link⟩
  induction path with
  | single step => exact advance reachable placed step
  | tail _ step ih =>
      obtain ⟨middle, found, reached⟩ := ih
      obtain ⟨middleModel, middlePlaced, named⟩ := findModel_some found
      exact advance reached middlePlaced (by rw [named]; exact step)

theorem Coherent.all_reachable {done : List (Option String)} {registry : StadRegistry}
    (coherent : Coherent result done registry.models (rootRefs registry.dataSets))
    (linked : Linked registry.models) {ref : Nat} {model : StadModel}
    (placed : registry.models[ref]? = some model) : ModelReachable registry ref := by
  rcases coherent.explained ref model placed with
    isRoot | ⟨first, rootRef, root, isRoot, rootPlaced, path⟩
  · exact ModelReachable.root isRoot
  · obtain ⟨target, found, reached⟩ :=
      (ModelReachable.root isRoot).follow coherent linked rootPlaced path
    rw [first, Option.some.injEq] at found
    rw [found]
    exact reached

theorem Coherent.canonical_iff {done : List (Option String)} {registry : StadRegistry}
    (coherent : Coherent result done registry.models (rootRefs registry.dataSets))
    (linked : Linked registry.models) :
    Canonical registry ↔ (registry.models.map StadModel.type).Nodup := by
  constructor
  · intro canonical
    rw [List.nodup_iff_pairwise_ne, List.pairwise_iff_getElem]
    intro left right leftBound rightBound below same
    rw [List.length_map] at leftBound rightBound
    have leftPlaced := List.getElem?_eq_getElem leftBound
    have rightPlaced := List.getElem?_eq_getElem rightBound
    simp only [List.getElem_map] at same
    have equal := canonical left right _ _ (coherent.all_reachable linked leftPlaced)
      (coherent.all_reachable linked rightPlaced) leftPlaced rightPlaced same
    omega
  · intro unique ref ref' model model' _ _ placed placed' same
    have first := findModel_of_nodup unique placed
    rw [same, findModel_of_nodup unique placed', Option.some.injEq] at first
    exact first.symm

/-- The models of a returned registry are unique per type exactly when no
expanded data-set member has a type that an earlier one has or reaches. -/
theorem makeRegistry_canonical_iff {depth : Nat} {registry : StadRegistry}
    (returned : makeRegistry result depth = value registry) :
    (Canonical registry ↔ Separate result (rootTypes result result.collectedObjectInfo)) ∧
      ((registry.models.map StadModel.type).Nodup ↔
        Separate result (rootTypes result result.collectedObjectInfo)) := by
  obtain ⟨coherent, linked⟩ := makeRegistry_coherent returned
  exact ⟨(coherent.canonical_iff linked).trans coherent.distinct, coherent.distinct⟩

theorem oneLeaf_canonical :
    Separate oneLeaf (rootTypes oneLeaf oneLeaf.collectedObjectInfo) ∧ Canonical oneLeafRegistry := by
  obtain ⟨canonical, distinct⟩ := makeRegistry_canonical_iff oneLeaf_returned
  have separate := distinct.mp (by decide)
  exact ⟨separate, canonical.mpr separate⟩

theorem twoLeaves_not_canonical :
    makeRegistry twoLeaves 2 = value twoLeavesRegistry ∧ ¬Canonical twoLeavesRegistry := by
  refine ⟨by rfl, ?_⟩
  intro canonical
  have root (ref : Nat) (listed : ref ∈ [1, 2]) : ModelReachable twoLeavesRegistry ref :=
    ModelReachable.root ⟨⟨some "Sample.Tree", [], [1, 2]⟩, by simp [twoLeavesRegistry],
      by simpa using listed⟩
  have same : 1 = 2 := canonical 1 2 leafModel leafModel (root 1 (by simp)) (root 2 (by simp))
    rfl rfl rfl
  omega

end Stad.StadAnalyzer
