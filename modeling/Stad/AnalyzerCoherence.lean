import Stad.AnalyzerGrowth

/-!
The invariant of a whole registry run. It relates `AllModels` to the list of the
types that data-set members were expanded for, in the order of the run.
-/

namespace Stad.StadAnalyzer

open Bounded Bounded.Outcome Reachability Relation

variable {result : TypeCollectorResult}

def expandedTypes (result : TypeCollectorResult) (members : List MemberSerializationInfo) :
    List (Option String) :=
  members.filterMap fun member =>
    match getObjectInfo result member.type with
    | none => none
    | some info =>
      match anyContaining info.attributes "IgnoreMemberAttribute" with
      | .ok false => some member.type
      | _ => none

def rootTypes (result : TypeCollectorResult) (infos : List ObjectSerializationInfo) :
    List (Option String) :=
  infos.flatMap fun info =>
    match isDataSet info with
    | .ok true => expandedTypes result info.members
    | _ => []

/-- No root type is, or is reached through members from, an earlier root type. -/
def Separate (result : TypeCollectorResult) (roots : List (Option String)) : Prop :=
  roots.Pairwise fun earlier later => ¬ReflTransGen (MemberStep result) earlier later

/-- A model is a root, or the first of its type and reached from the type of a root. -/
def Explained (result : TypeCollectorResult) (models : List StadModel) (roots : Nat → Prop) :
    Prop :=
  ∀ (ref : Nat) (model : StadModel), models[ref]? = some model → roots ref ∨
    findModel models (some model.type) = some ref ∧ ∃ (rootRef : Nat) (root : StadModel),
      roots rootRef ∧ models[rootRef]? = some root ∧
      TransGen (MemberStep result) (some root.type) (some model.type)

structure Coherent (result : TypeCollectorResult) (done : List (Option String))
    (models : List StadModel) (roots : Nat → Prop) : Prop where
  built : AllBuildable result models
  closed : Closed result models
  described : ∀ model ∈ models, Described result model
  inside : ∀ ref, roots ref → ref < models.length
  covered : ∀ type, hasModel models type = true ↔
    ∃ root ∈ done, ReflTransGen (MemberStep result) root type
  distinct : (models.map StadModel.type).Nodup ↔ Separate result done
  explained : Explained result models roots

def Linked (models : List StadModel) : Prop :=
  ∀ model ∈ models, ∀ definition ∈ model.members,
    definition.model = findModel models definition.type

theorem findModel_append {left : List StadModel} {type : Option String} {ref : Nat}
    (found : findModel left type = some ref) (right : List StadModel) :
    findModel (left ++ right) type = some ref := by
  unfold findModel at found ⊢
  rw [List.findIdx?_append, found]
  rfl

theorem findModel_skip {left right : List StadModel} {type : Option String} {ref : Nat}
    (absent : hasModel left type = false) (found : findModel right type = some ref) :
    findModel (left ++ right) type = some (left.length + ref) := by
  have missing : findModel left type = none := by
    rw [findModel, List.findIdx?_eq_none_iff]
    simpa using hasModel_eq_false_iff.mp absent
  unfold findModel at missing found ⊢
  rw [List.findIdx?_append, missing, found]
  simp [Nat.add_comm]

theorem findModel_of_nodup {models : List StadModel} (unique : (models.map StadModel.type).Nodup)
    {ref : Nat} {model : StadModel} (placed : models[ref]? = some model) :
    findModel models (some model.type) = some ref := by
  obtain ⟨bound, same⟩ := List.getElem?_eq_some_iff.mp placed
  unfold findModel
  rw [List.findIdx?_eq_some_iff_getElem]
  refine ⟨bound, by simp [same], ?_⟩
  intro earlier below
  have apart := List.pairwise_iff_getElem.mp unique earlier ref
    (by rw [List.length_map]; omega) (by simpa using bound) below
  simp only [List.getElem_map, same] at apart
  simpa using apart

theorem Coherent.initial : Coherent result [] [] fun _ => False := by
  refine ⟨by simp [AllBuildable], ?_, by simp, by simp, by simp [hasModel], ?_, ?_⟩
  · intro source target present
    simp [hasModel] at present
  · simp [Separate]
  · intro ref model placed
    simp at placed

theorem Appended.types_nodup {source : Option String} {base added : List StadModel}
    {made : List StadModel × Nat} {last : StadModel}
    (appended : Appended result source base made added last)
    (free : ¬Lasso (MemberStep result) source) :
    (made.1.map StadModel.type).Nodup ↔
      (base.map StadModel.type).Nodup ∧ hasModel base source = false := by
  have apart : ∀ model ∈ added, model.type ≠ last.type := by
    intro model listed same
    have cycle := appended.grown.reached model listed
    rw [same, appended.named] at cycle
    exact free ⟨source, ReflTransGen.refl, cycle⟩
  have fresh : ∀ model ∈ added, ∀ other ∈ base, other.type ≠ model.type := by
    intro model listed other inBase same
    have absent := hasModel_eq_false_iff.mp (appended.grown.fresh model listed) other inBase
    exact absent (congrArg some same)
  have sourceAbsent : hasModel base source = false ↔ ∀ other ∈ base, other.type ≠ last.type := by
    rw [hasModel_eq_false_iff, ← appended.named]
    simp
  have tail : ((added ++ [last]).map StadModel.type).Nodup := by
    refine types_append_nodup.mpr ⟨appended.grown.unique, List.nodup_singleton _, ?_⟩
    intro model inAdded other inLast
    rw [List.mem_singleton.mp inLast]
    exact apart model inAdded
  rw [appended.models, List.append_assoc, types_append_nodup, sourceAbsent]
  constructor
  · rintro ⟨unique, _, disjoint⟩
    exact ⟨unique, fun other inBase => disjoint other inBase last (by simp)⟩
  · rintro ⟨unique, absent⟩
    refine ⟨unique, tail, ?_⟩
    intro other inBase model inTail
    rcases List.mem_append.mp inTail with inAdded | inLast
    · exact fresh model inAdded other inBase
    · rw [List.mem_singleton.mp inLast]
      exact absent other inBase

theorem Appended.covers {source : Option String} {base added : List StadModel}
    {made : List StadModel × Nat} {last : StadModel}
    (appended : Appended result source base made added last) (closed : Closed result base)
    (type : Option String) :
    hasModel made.1 type = true ↔
      hasModel base type = true ∨ ReflTransGen (MemberStep result) source type := by
  rw [appended.models, hasModel_append, Bool.or_eq_true]
  constructor
  · rintro (earlier | isLast)
    · rw [hasModel_append, Bool.or_eq_true] at earlier
      rcases earlier with inBase | inAdded
      · exact Or.inl inBase
      · obtain ⟨model, listed, named⟩ := hasModel_iff.mp inAdded
        rw [← named]
        exact Or.inr (appended.grown.reached model listed).to_reflTransGen
    · obtain ⟨model, listed, named⟩ := hasModel_iff.mp isLast
      rw [List.mem_singleton.mp listed, appended.named] at named
      rw [named]
      exact Or.inr ReflTransGen.refl
  · rintro (inBase | path)
    · rw [hasModel_append, inBase]
      exact Or.inl rfl
    · rcases ReflTransGen.cases_head path with same | ⟨next, first, rest⟩
      · rw [← same]
        exact Or.inr (hasModel_iff.mpr ⟨last, by simp, appended.named⟩)
      · left
        have present := appended.complete next first
        have closedNow := closed.grow appended.grown.ordered
        rcases Relation.reflTransGen_iff_eq_or_transGen.mp rest with same | onward
        · rw [same]
          exact present
        · exact closedNow.reaches present onward

theorem Appended.explained {source : Option String} {base added : List StadModel}
    {made : List StadModel × Nat} {last : StadModel} {roots : Nat → Prop}
    (appended : Appended result source base made added last)
    (explained : Explained result base roots) (inside : ∀ ref, roots ref → ref < base.length) :
    Explained result made.1 fun ref => roots ref ∨ ref = made.2 := by
  have lastPlaced : made.1[made.2]? = some last := by
    rw [appended.models, appended.place]
    exact List.getElem?_concat_length
  intro ref model placed
  by_cases inBase : ref < base.length
  · have oldPlaced : base[ref]? = some model := by
      rw [appended.models, List.append_assoc, List.getElem?_append_left inBase] at placed
      exact placed
    rcases explained ref model oldPlaced with
      isRoot | ⟨first, rootRef, root, isRoot, rootPlaced, path⟩
    · exact Or.inl (Or.inl isRoot)
    · refine Or.inr ⟨?_, rootRef, root, Or.inl isRoot, ?_, path⟩
      · rw [appended.models, List.append_assoc]
        exact findModel_append first _
      · rw [appended.models, List.append_assoc, List.getElem?_append_left (inside rootRef isRoot)]
        exact rootPlaced
  · by_cases isLast : ref = made.2
    · exact Or.inl (Or.inr isLast)
    · have notLast : ref ≠ base.length + added.length := by
        rw [← List.length_append, ← appended.place]
        exact isLast
      have addedPlaced : added[ref - base.length]? = some model := by
        rw [appended.models, List.append_assoc, List.getElem?_append_right (by omega)] at placed
        have bound : ref - base.length < added.length := by
          obtain ⟨bound, _⟩ := List.getElem?_eq_some_iff.mp placed
          simp only [List.length_append, List.length_singleton] at bound
          omega
        rw [List.getElem?_append_left bound] at placed
        exact placed
      have listed : model ∈ added := List.mem_of_getElem? addedPlaced
      right
      refine ⟨?_, made.2, last, Or.inr rfl, lastPlaced, ?_⟩
      · have first := findModel_of_nodup appended.grown.unique addedPlaced
        have skipped := findModel_skip (appended.grown.fresh model listed) first
        have offset : base.length + (ref - base.length) = ref := by omega
        rw [offset] at skipped
        rw [appended.models]
        exact findModel_append skipped _
      · rw [appended.named]
        exact appended.grown.reached model listed

theorem Coherent.append {done : List (Option String)} {base added : List StadModel}
    {roots : Nat → Prop} {source : Option String} {made : List StadModel × Nat}
    {last : StadModel} (coherent : Coherent result done base roots)
    (appended : Appended result source base made added last)
    (buildable : Buildable result source) (built : AllBuildable result made.1) :
    Coherent result (done ++ [source]) made.1 fun ref => roots ref ∨ ref = made.2 := by
  have ordered : Ordered result base (added ++ [last]) :=
    Ordered.snoc appended.grown.ordered fun target step =>
      appended.complete target (by rw [← appended.named]; exact step)
  have covers := appended.covers coherent.closed
  constructor
  · exact built
  · rw [appended.models, List.append_assoc]
    exact coherent.closed.grow ordered
  · intro model listed
    simp only [appended.models, List.mem_append, List.mem_singleton] at listed
    rcases listed with (inBase | inAdded) | isLast
    · exact coherent.described model inBase
    · exact appended.grown.described model inAdded
    · rw [isLast]
      exact appended.described
  · intro ref isRoot
    have size : made.1.length = base.length + added.length + 1 := by
      rw [appended.models, List.length_append, List.length_append, List.length_singleton]
    have place : made.2 = base.length + added.length := by
      rw [appended.place, List.length_append]
    rcases isRoot with old | new
    · have bound := coherent.inside ref old
      omega
    · omega
  · intro type
    rw [covers, coherent.covered]
    simp only [List.mem_append, List.mem_singleton]
    constructor
    · rintro (⟨root, listed, path⟩ | path)
      · exact ⟨root, Or.inl listed, path⟩
      · exact ⟨source, Or.inr rfl, path⟩
    · rintro ⟨root, listed | same, path⟩
      · exact Or.inl ⟨root, listed, path⟩
      · rw [same] at path
        exact Or.inr path
  · rw [appended.types_nodup buildable.2, coherent.distinct]
    have apart : hasModel base source = false ↔
        ∀ root ∈ done, ¬ReflTransGen (MemberStep result) root source := by
      rw [← Bool.not_eq_true, coherent.covered]
      simp
    rw [apart]
    simp [Separate, List.pairwise_append]
  · exact appended.explained coherent.explained coherent.inside

theorem linkModels_types (models : List StadModel) :
    (linkModels models).map StadModel.type = models.map StadModel.type := by
  simp [linkModels, Function.comp_def]

theorem hasModel_link (models : List StadModel) (type : Option String) :
    hasModel (linkModels models) type = hasModel models type := by
  simp [hasModel, linkModels, Function.comp_def]

theorem findModel_link (models : List StadModel) (type : Option String) :
    findModel (linkModels models) type = findModel models type := by
  simp [findModel, linkModels, List.findIdx?_map, Function.comp_def]

theorem linkModels_get {models : List StadModel} {ref : Nat} {linked : StadModel}
    (placed : (linkModels models)[ref]? = some linked) :
    ∃ model, models[ref]? = some model ∧ model.type = linked.type := by
  simp only [linkModels, List.getElem?_map, Option.map_eq_some_iff] at placed
  obtain ⟨model, found, same⟩ := placed
  exact ⟨model, found, by rw [← same]⟩

theorem linkModels_placed {models : List StadModel} {ref : Nat} {model : StadModel}
    (placed : models[ref]? = some model) :
    ∃ linked, (linkModels models)[ref]? = some linked ∧ linked.type = model.type := by
  refine ⟨_, List.getElem?_map .. |>.trans (congrArg _ placed), rfl⟩

theorem linkModels_linked (models : List StadModel) : Linked (linkModels models) := by
  intro linked listed definition member
  obtain ⟨model, _, same⟩ := List.mem_map.mp listed
  rw [← same] at member
  obtain ⟨old, _, sameDefinition⟩ := List.mem_map.mp member
  rw [findModel_link, ← sameDefinition]
  rfl

theorem Coherent.link {done : List (Option String)} {models : List StadModel}
    {roots : Nat → Prop} (coherent : Coherent result done models roots) :
    Coherent result done (linkModels models) roots := by
  constructor
  · exact coherent.built.link
  · intro source target present step
    rw [hasModel_link] at present ⊢
    exact coherent.closed source target present step
  · intro linked listed
    obtain ⟨model, member, same⟩ := List.mem_map.mp listed
    obtain ⟨info, found, pairs⟩ := coherent.described model member
    rw [← same]
    refine ⟨info, found, ?_⟩
    rw [← pairs]
    simp [MemberDefinition.setModel, Function.comp_def]
  · intro ref isRoot
    simpa [linkModels] using coherent.inside ref isRoot
  · intro type
    rw [hasModel_link]
    exact coherent.covered type
  · rw [linkModels_types]
    exact coherent.distinct
  · intro ref linked placed
    obtain ⟨model, oldPlaced, named⟩ := linkModels_get placed
    rcases coherent.explained ref model oldPlaced with
      isRoot | ⟨first, rootRef, root, isRoot, rootPlaced, path⟩
    · exact Or.inl isRoot
    · obtain ⟨linkedRoot, linkedPlaced, rootNamed⟩ := linkModels_placed rootPlaced
      rw [named] at first path
      rw [← rootNamed] at path
      exact Or.inr ⟨by rw [findModel_link]; exact first, rootRef, linkedRoot, isRoot, linkedPlaced,
        path⟩

theorem Coherent.congr {done : List (Option String)} {models : List StadModel}
    {roots roots' : Nat → Prop} (coherent : Coherent result done models roots)
    (same : ∀ ref, roots ref ↔ roots' ref) : Coherent result done models roots' := by
  have equal : roots = roots' := funext fun ref => propext (same ref)
  rw [← equal]
  exact coherent

end Stad.StadAnalyzer
