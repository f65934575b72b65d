import Stad.AnalyzerTotal

/-!
What a returning call of `MakeStadModel` does to `AllModels`: it appends a model
of every type reached through members that had none, each once and after the
models of its own member types, and the model of the expanded type at the end.
-/

namespace Stad.StadAnalyzer

open Bounded Bounded.Outcome Reachability Relation

variable {result : TypeCollectorResult}

def Described (result : TypeCollectorResult) (model : StadModel) : Prop :=
  ∃ info, getObjectInfo result (some model.type) = some info ∧
    model.members.map (fun definition => (definition.type, definition.name)) =
      info.members.map fun member => (member.type, member.name)

def Closed (result : TypeCollectorResult) (models : List StadModel) : Prop :=
  ∀ source target, hasModel models source = true → MemberStep result source target →
    hasModel models target = true

/-- Every appended model comes after models of its collected member types. -/
inductive Ordered (result : TypeCollectorResult) (base : List StadModel) : List StadModel → Prop
  | nil : Ordered result base []
  | snoc {added model} : Ordered result base added →
      (∀ target, MemberStep result (some model.type) target →
        hasModel (base ++ added) target = true) →
      Ordered result base (added ++ [model])

structure Grown (result : TypeCollectorResult) (source : Option String)
    (base added : List StadModel) : Prop where
  unique : (added.map StadModel.type).Nodup
  fresh : ∀ model ∈ added, hasModel base (some model.type) = false
  reached : ∀ model ∈ added, TransGen (MemberStep result) source (some model.type)
  described : ∀ model ∈ added, Described result model
  ordered : Ordered result base added

theorem hasModel_append {left right : List StadModel} {type : Option String} :
    hasModel (left ++ right) type = (hasModel left type || hasModel right type) := by
  simp [hasModel]

theorem hasModel_eq_false_iff {models : List StadModel} {type : Option String} :
    hasModel models type = false ↔ ∀ model ∈ models, some model.type ≠ type := by
  simp [hasModel]

theorem types_append_nodup {left right : List StadModel} :
    ((left ++ right).map StadModel.type).Nodup ↔
      (left.map StadModel.type).Nodup ∧ (right.map StadModel.type).Nodup ∧
        ∀ model ∈ left, ∀ other ∈ right, model.type ≠ other.type := by
  rw [List.map_append, List.nodup_append]
  simp

theorem Ordered.append {base first second : List StadModel} (ordered : Ordered result base first)
    (later : Ordered result (base ++ first) second) : Ordered result base (first ++ second) := by
  induction later with
  | nil =>
      rw [List.append_nil]
      exact ordered
  | snoc _ before ih =>
      rw [← List.append_assoc]
      refine Ordered.snoc ih ?_
      intro target step
      rw [← List.append_assoc]
      exact before target step

theorem Closed.grow {base added : List StadModel} (closed : Closed result base)
    (ordered : Ordered result base added) : Closed result (base ++ added) := by
  induction ordered with
  | nil =>
      rw [List.append_nil]
      exact closed
  | @snoc added model _ before ih =>
      intro source target present step
      rw [← List.append_assoc, hasModel_append, Bool.or_eq_true] at present ⊢
      rcases present with earlier | last
      · exact Or.inl (ih source target earlier step)
      · obtain ⟨found, listed, named⟩ := hasModel_iff.mp last
        rw [List.mem_singleton.mp listed] at named
        subst named
        exact Or.inl (before target step)

theorem Closed.reaches {models : List StadModel} (closed : Closed result models)
    {source target : Option String} (present : hasModel models source = true)
    (path : TransGen (MemberStep result) source target) : hasModel models target = true := by
  induction path with
  | single step => exact closed _ _ present step
  | tail _ step ih => exact closed _ _ ih step

theorem Grown.empty (source : Option String) (base : List StadModel) :
    Grown result source base [] :=
  ⟨List.nodup_nil, by simp, by simp, by simp, Ordered.nil⟩

theorem Grown.append {source : Option String} {base first second : List StadModel}
    (grown : Grown result source base first) (later : Grown result source (base ++ first) second) :
    Grown result source base (first ++ second) := by
  constructor
  · refine types_append_nodup.mpr ⟨grown.unique, later.unique, ?_⟩
    intro model inFirst other inSecond same
    have absent := later.fresh other inSecond
    rw [hasModel_append, Bool.or_eq_false_iff] at absent
    have apart := hasModel_eq_false_iff.mp absent.2 model inFirst
    exact apart (congrArg some same)
  · refine List.forall_mem_append.mpr ⟨grown.fresh, ?_⟩
    intro model inSecond
    have absent := later.fresh model inSecond
    rw [hasModel_append, Bool.or_eq_false_iff] at absent
    exact absent.1
  · exact List.forall_mem_append.mpr ⟨grown.reached, later.reached⟩
  · exact List.forall_mem_append.mpr ⟨grown.described, later.described⟩
  · exact grown.ordered.append later.ordered

theorem Grown.member {source target : Option String} {base added : List StadModel}
    {last : StadModel} (grown : Grown result target base added)
    (step : MemberStep result source target) (named : some last.type = target)
    (absent : hasModel base target = false) (free : ¬Lasso (MemberStep result) target)
    (described : Described result last)
    (before : ∀ next, MemberStep result target next → hasModel (base ++ added) next = true) :
    Grown result source base (added ++ [last]) := by
  have apart : ∀ model ∈ added, some model.type ≠ target := by
    intro model listed same
    have cycle := grown.reached model listed
    rw [same] at cycle
    exact free ⟨target, ReflTransGen.refl, cycle⟩
  subst named
  constructor
  · refine types_append_nodup.mpr ⟨grown.unique, List.nodup_singleton _, ?_⟩
    intro model inAdded other inLast same
    rw [List.mem_singleton.mp inLast] at same
    exact apart model inAdded (congrArg some same)
  · exact List.forall_mem_append.mpr ⟨grown.fresh, List.forall_mem_singleton.mpr absent⟩
  · refine List.forall_mem_append.mpr
      ⟨?_, List.forall_mem_singleton.mpr (TransGen.single step)⟩
    intro model inAdded
    exact TransGen.head step (grown.reached model inAdded)
  · exact List.forall_mem_append.mpr
      ⟨grown.described, List.forall_mem_singleton.mpr described⟩
  · exact Ordered.snoc grown.ordered before

/-- What a returning call for the type `source` appends to `base`. -/
structure Appended (result : TypeCollectorResult) (source : Option String)
    (base : List StadModel) (made : List StadModel × Nat) (added : List StadModel)
    (last : StadModel) : Prop where
  models : made.1 = base ++ added ++ [last]
  place : made.2 = (base ++ added).length
  named : some last.type = source
  described : Described result last
  grown : Grown result source base added
  complete : ∀ target, MemberStep result source target → hasModel (base ++ added) target = true

def CallsAppend (result : TypeCollectorResult) (call : MakeCall) : Prop :=
  ∀ argument made, call argument = value made →
    getObjectInfo result argument.2.fullName = some argument.2 →
    AllBuildable result argument.1 → Closed result argument.1 →
    ∃ added last, Appended result argument.2.fullName argument.1 made added last

structure LoopGrown (result : TypeCollectorResult) (source : Option String)
    (base : List StadModel) (done : List MemberSerializationInfo)
    (state : List StadModel × List MemberDefinition) : Prop where
  built : AllBuildable result state.1
  grows : ∃ added, state.1 = base ++ added ∧ Grown result source base added
  complete : ∀ member ∈ done, (getObjectInfo result member.type).isSome →
    hasModel state.1 member.type = true
  pairs : state.2.map (fun definition => (definition.type, definition.name)) =
    done.map fun member => (member.type, member.name)

theorem LoopGrown.unchanged {source : Option String} {base : List StadModel}
    {done : List MemberSerializationInfo} {member : MemberSerializationInfo}
    {state next : List StadModel × List MemberDefinition}
    (loop : LoopGrown result source base done state) (same : next.1 = state.1)
    (pairs : next.2.map (fun definition => (definition.type, definition.name)) =
      (done ++ [member]).map fun member => (member.type, member.name))
    (present : (getObjectInfo result member.type).isSome →
      hasModel state.1 member.type = true) :
    LoopGrown result source base (done ++ [member]) next := by
  rw [← same] at present
  constructor
  · rw [same]
    exact loop.built
  · rw [same]
    exact loop.grows
  · refine List.forall_mem_append.mpr ⟨?_, List.forall_mem_singleton.mpr present⟩
    rw [same]
    exact loop.complete
  · exact pairs

theorem LoopGrown.called {source : Option String} {base inner : List StadModel}
    {done : List MemberSerializationInfo} {member : MemberSerializationInfo} {model : StadModel}
    {state next : List StadModel × List MemberDefinition}
    (loop : LoopGrown result source base done state)
    (models : next.1 = state.1 ++ (inner ++ [model]))
    (pairs : next.2.map (fun definition => (definition.type, definition.name)) =
      (done ++ [member]).map fun member => (member.type, member.name))
    (built : AllBuildable result next.1) (grown : Grown result source state.1 (inner ++ [model]))
    (named : some model.type = member.type) :
    LoopGrown result source base (done ++ [member]) next := by
  obtain ⟨added, before, grownBefore⟩ := loop.grows
  constructor
  · exact built
  · refine ⟨added ++ (inner ++ [model]), by rw [models, before, List.append_assoc], ?_⟩
    rw [before] at grown
    exact grownBefore.append grown
  · refine List.forall_mem_append.mpr ⟨?_, List.forall_mem_singleton.mpr ?_⟩
    · intro other listed collected
      rw [models, hasModel_append, loop.complete other listed collected]
      rfl
    · intro _
      exact hasModel_iff.mpr ⟨model, by simp [models], named⟩
  · exact pairs

theorem members_grow {depth : Nat} (calls : CallsAppend result (makeStadModel result depth))
    {source : Option String} {info : ObjectSerializationInfo}
    (found : getObjectInfo result source = some info) {base : List StadModel}
    (built : AllBuildable result base) (closed : Closed result base)
    {last : List StadModel × List MemberDefinition}
    (run : info.members.foldlM (makeMember result (makeStadModel result depth)) (base, []) =
      value last) : LoopGrown result source base info.members last := by
  refine foldlM_induction run (fun done state => LoopGrown result source base done state)
    ⟨built, ⟨[], by simp, Grown.empty _ _⟩, by simp, rfl⟩ ?_
  intro done member rest state next split loop stepped
  obtain ⟨annotationInfo, _, definitions, outcome⟩ := makeMember_cases stepped
  have pairs : next.2.map (fun definition => (definition.type, definition.name)) =
      (done ++ [member]).map fun member => (member.type, member.name) := by
    simp [definitions, loop.pairs]
  rcases outcome with ⟨present, same⟩ | ⟨missing, same⟩ | ⟨target, made, absent, collected,
    returned, same⟩
  · exact loop.unchanged same pairs fun _ => present
  · exact loop.unchanged same pairs (by simp [missing])
  · have named := getObjectInfo_fullName collected
    have step : MemberStep result source target.fullName :=
      ⟨info, found, member, by simp [split], named.symm, by simp [named, collected]⟩
    have targetFound := getObjectInfo_self collected
    have closedNow : Closed result state.1 := by
      obtain ⟨added, models, grown⟩ := loop.grows
      rw [models]
      exact closed.grow grown.ordered
    obtain ⟨buildable, builtNext⟩ :=
      makeStadModel_buildable depth (state.1, target) made returned targetFound loop.built
    obtain ⟨inner, model, appended⟩ :=
      calls (state.1, target) made returned targetFound loop.built closedNow
    have innerGrown : Grown result source state.1 (inner ++ [model]) :=
      appended.grown.member step appended.named (by rw [named]; exact absent) buildable.2
        appended.described appended.complete
    refine loop.called ?_ pairs (by rw [same]; exact builtNext) innerGrown ?_
    · rw [same, appended.models, List.append_assoc]
    · rw [appended.named, named]

theorem makeStadModel_appends (depth : Nat) :
    CallsAppend result (makeStadModel result depth) := by
  induction depth with
  | zero =>
      intro argument made returned
      simp [makeStadModel] at returned
  | succ depth ih =>
      rintro ⟨base, info⟩ ⟨allModels, ref⟩ returned found built closed
      obtain ⟨expanded, annotationInfo, name, run, _, named, models, place⟩ :=
        makeStadModelBody_cases returned
      have loop := members_grow ih found built closed run
      obtain ⟨added, expandedModels, grown⟩ := loop.grows
      have complete : ∀ target, MemberStep result info.fullName target →
          hasModel (base ++ added) target = true := by
        intro target step
        obtain ⟨member, listed, same, collected⟩ := step.member found
        subst same
        rw [← expandedModels]
        exact loop.complete member listed collected
      rw [expandedModels] at models place
      refine ⟨added, _, models, place, named.symm, ⟨info, ?_, ?_⟩, grown, complete⟩
      · rw [← named]
        exact found
      · exact loop.pairs

end Stad.StadAnalyzer
