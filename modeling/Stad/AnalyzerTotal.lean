import Stad.AnalyzerRun

/-!
When the construction of a registry ends. A type is put into `AllModels` only
after all its members were expanded, so the recursion ends exactly when it never
gets to a cycle of member types before something throws.
-/

namespace Stad.StadAnalyzer

open Bounded Bounded.Outcome Reachability Relation

variable {result : TypeCollectorResult}

/-- Expanding `source` calls `MakeStadModel` for its member type `target`, if
`target` has no model yet: nothing about the members listed before it throws. -/
def CallStep (result : TypeCollectorResult) (source target : Option String) : Prop :=
  ∃ info before member after, getObjectInfo result source = some info ∧
    info.members = before ++ member :: after ∧ member.type = target ∧
    (getObjectInfo result target).isSome ∧ Readable member.attributes ∧
    ∀ earlier ∈ before, Readable earlier.attributes ∧ Buildable result earlier.type

/-- A data-set member of this type neither throws nor recurses forever. -/
def Settled (result : TypeCollectorResult) (type : Option String) : Prop :=
  ∃ info, getObjectInfo result type = some info ∧
    (Marked info true ∨ Marked info false ∧ Buildable result type)

/-- `MakeDataSetModel` gets to a data-set member of this type and expands it. -/
def RootCall (result : TypeCollectorResult) (type : Option String) : Prop :=
  ∃ earlierInfos dataSet laterInfos before member after info,
    result.collectedObjectInfo = earlierInfos ++ dataSet :: laterInfos ∧
    isDataSet dataSet = .ok true ∧ dataSet.members = before ++ member :: after ∧
    member.type = type ∧ getObjectInfo result type = some info ∧ Marked info false ∧
    (∀ earlier ∈ before, Settled result earlier.type) ∧
    ∀ earlier ∈ earlierInfos, isDataSet earlier = .ok false ∨
      isDataSet earlier = .ok true ∧ ∀ other ∈ earlier.members, Settled result other.type

/-- No expanded data-set member leads, through types that are expanded in turn,
to a type that is still under construction. -/
def NeverReenters (result : TypeCollectorResult) : Prop :=
  ∀ type, RootCall result type → ¬Lasso (CallStep result) type

def AllBuildable (result : TypeCollectorResult) (allModels : List StadModel) : Prop :=
  ∀ model ∈ allModels, Buildable result (some model.type)

theorem callStep_memberStep (source target : Option String)
    (step : CallStep result source target) : MemberStep result source target := by
  obtain ⟨info, before, member, after, found, split, same, collected, _⟩ := step
  exact ⟨info, found, member, by simp [split], same, collected⟩

theorem callStep_inside (source target : Option String) (step : CallStep result source target) :
    target ∈ names result :=
  memberStep_inside source target (callStep_memberStep source target step)

def CallsBuild (result : TypeCollectorResult) (call : MakeCall) : Prop :=
  ∀ argument made, call argument = value made →
    getObjectInfo result argument.2.fullName = some argument.2 →
    AllBuildable result argument.1 →
    Buildable result argument.2.fullName ∧ AllBuildable result made.1

theorem members_buildable {call : MakeCall} (calls : CallsBuild result call)
    {members : List MemberSerializationInfo}
    {first last : List StadModel × List MemberDefinition}
    (run : members.foldlM (makeMember result call) first = value last)
    (built : AllBuildable result first.1) :
    AllBuildable result last.1 ∧
      ∀ member ∈ members, Readable member.attributes ∧ Buildable result member.type := by
  refine foldlM_each run (fun state => AllBuildable result state.1) _ built ?_
  intro member state next holds stepped
  obtain ⟨annotationInfo, readable, _, outcome⟩ := makeMember_cases stepped
  have now : AllBuildable result next.1 ∧ Buildable result member.type := by
    rcases outcome with ⟨present, same⟩ | ⟨missing, same⟩ | ⟨info, made, _, found, returned, same⟩
    · obtain ⟨model, listed, named⟩ := hasModel_iff.mp present
      rw [same, ← named]
      exact ⟨holds, holds model listed⟩
    · rw [same]
      exact ⟨holds, buildable_of_uncollected missing⟩
    · have named := getObjectInfo_fullName found
      have outcome := calls (state.1, info) made returned (getObjectInfo_self found) holds
      rw [same, ← named]
      exact ⟨outcome.2, outcome.1⟩
  exact ⟨now.1, ⟨annotationInfo, readable⟩, now.2⟩

theorem makeStadModel_buildable (depth : Nat) :
    CallsBuild result (makeStadModel result depth) := by
  intro argument made returned
  revert argument made
  apply unroll_returned
  rintro recurse calls ⟨allModels, info⟩ ⟨allModels', ref⟩ body found built
  obtain ⟨expanded, annotationInfo, name, run, readable, named, appended, _⟩ :=
    makeStadModelBody_cases body
  obtain ⟨builtMembers, members⟩ := members_buildable calls run built
  have sound : Sound result info.fullName := by
    intro other otherFound
    rw [found, Option.some.injEq] at otherFound
    subst otherFound
    exact ⟨fun member listed => (members member listed).1, ⟨annotationInfo, readable⟩,
      by simp [named]⟩
  have buildable : Buildable result info.fullName :=
    Buildable.of_members found sound fun member listed => (members member listed).2
  refine ⟨buildable, ?_⟩
  intro model listed
  simp only [appended, List.mem_append, List.mem_singleton] at listed
  rcases listed with earlier | last
  · exact builtMembers model earlier
  · rw [last, ← named]
    exact buildable

theorem makeMember_safe {call : MakeCall} {member : MemberSerializationInfo}
    (readable : Readable member.attributes)
    (calls : ∀ info, getObjectInfo result member.type = some info →
      ∀ allModels thrown, call (allModels, info) ≠ error thrown)
    (state : List StadModel × List MemberDefinition) (thrown : Thrown) :
    makeMember result call state member ≠ error thrown := by
  obtain ⟨annotationInfo, readable⟩ := readable
  simp only [makeMember, readable, ofExcept_ok, value_bind]
  split
  · simp
  · split
    · simp
    · rename_i info found
      exact bind_ne_error (calls info found state.1 thrown) fun made => by simp

theorem makeStadModel_safe (depth : Nat) {info : ObjectSerializationInfo}
    (found : getObjectInfo result info.fullName = some info)
    (buildable : Buildable result info.fullName) (allModels : List StadModel)
    (thrown : Thrown) : makeStadModel result depth (allModels, info) ≠ error thrown := by
  induction depth generalizing info allModels thrown with
  | zero => simp [makeStadModel]
  | succ depth ih =>
      obtain ⟨members, readable, named⟩ := buildable.1 _ ReflTransGen.refl info found
      obtain ⟨annotationInfo, readable⟩ := readable
      obtain ⟨name, named⟩ := Option.ne_none_iff_exists'.mp named
      have loop : info.members.foldlM (makeMember result (makeStadModel result depth))
          (allModels, []) ≠ error thrown := by
        refine foldlM_safe ?_ (allModels, []) thrown
        intro member listed
        refine makeMember_safe (members member listed) ?_
        intro target targetFound
        refine ih (getObjectInfo_self targetFound) ?_
        rw [getObjectInfo_fullName targetFound]
        exact buildable.member found listed
      change makeStadModelBody result (makeStadModel result depth) (allModels, info) ≠ error thrown
      exact bind_ne_error loop fun expanded => by simp [readable, StadModel.create, named]

theorem members_safe {depth : Nat} {members : List MemberSerializationInfo}
    (safe : ∀ member ∈ members, Readable member.attributes ∧ Buildable result member.type)
    (first : List StadModel × List MemberDefinition) (thrown : Thrown) :
    members.foldlM (makeMember result (makeStadModel result depth)) first ≠ error thrown := by
  refine foldlM_safe ?_ first thrown
  intro member listed
  obtain ⟨readable, buildable⟩ := safe member listed
  refine makeMember_safe readable ?_
  intro info found
  refine makeStadModel_safe depth (getObjectInfo_self found) ?_
  rw [getObjectInfo_fullName found]
  exact buildable

theorem makeStadModel_endless (depth : Nat) {info : ObjectSerializationInfo}
    (found : getObjectInfo result info.fullName = some info)
    (lasso : Lasso (CallStep result) info.fullName) {allModels : List StadModel}
    (built : AllBuildable result allModels) :
    makeStadModel result depth (allModels, info) = exhausted := by
  induction depth generalizing info allModels with
  | zero => rfl
  | succ depth ih =>
      obtain ⟨target, step, onward⟩ := lasso.next
      obtain ⟨other, before, member, after, otherFound, split, same, collected, readable, earlier⟩ :=
        step
      rw [found, Option.some.injEq] at otherFound
      subst otherFound
      obtain ⟨targetInfo, targetFound⟩ := Option.isSome_iff_exists.mp collected
      have targetNamed := getObjectInfo_fullName targetFound
      have loop : info.members.foldlM (makeMember result (makeStadModel result depth))
          (allModels, []) = exhausted := by
        rw [split]
        refine foldlM_exhausted (members_safe earlier _) ?_
        intro state run
        have builtState := (members_buildable (makeStadModel_buildable depth) run built).1
        have unbuilt : hasModel state.1 target = false := by
          by_contra present
          obtain ⟨model, listed, named⟩ := hasModel_iff.mp (by simpa using present)
          have buildable := builtState model listed
          rw [named] at buildable
          exact buildable.2 (onward.mono callStep_memberStep)
        obtain ⟨annotationInfo, readable⟩ := readable
        have stuck : makeStadModel result depth (state.1, targetInfo) = exhausted :=
          ih (getObjectInfo_self targetFound) (by rw [targetNamed]; exact onward) builtState
        simp [makeMember, readable, unbuilt, same, targetFound, stuck]
      change makeStadModelBody result (makeStadModel result depth) (allModels, info) = exhausted
      simp [makeStadModelBody, loop]

theorem makeMember_ends {member : MemberSerializationInfo}
    {state : List StadModel × List MemberDefinition}
    (call : Readable member.attributes → ∀ info, getObjectInfo result member.type = some info →
      ∃ depth, makeStadModel result depth (state.1, info) ≠ exhausted) :
    ∃ depth, makeMember result (makeStadModel result depth) state member ≠ exhausted := by
  cases readable : makeAnnotationInfo member.attributes with
  | error thrown => exact ⟨0, by simp [makeMember, readable]⟩
  | ok annotationInfo =>
      by_cases present : hasModel state.1 member.type = true
      · exact ⟨0, by simp [makeMember, readable, present]⟩
      · cases found : getObjectInfo result member.type with
        | none => exact ⟨0, by simp [makeMember, readable, present, found]⟩
        | some info =>
            obtain ⟨depth, decided⟩ := call ⟨annotationInfo, readable⟩ info found
            refine ⟨depth, ?_⟩
            simp only [makeMember, readable, ofExcept_ok, value_bind, present, found]
            exact bind_ne_exhausted decided fun made => by simp

theorem makeStadModel_ends {type : Option String} {info : ObjectSerializationInfo}
    (found : getObjectInfo result type = some info)
    (finite : Acc (fun target source => CallStep result source target) type)
    {allModels : List StadModel} (built : AllBuildable result allModels) :
    ∃ depth, makeStadModel result depth (allModels, info) ≠ exhausted := by
  induction finite generalizing info allModels with
  | intro type _ ih =>
      have loop : ∃ depth, info.members.foldlM (makeMember result (makeStadModel result depth))
          (allModels, []) ≠ exhausted := by
        refine foldlM_decided makeMember_deepening ?_
        intro done member rest split depth state run
        obtain ⟨builtState, earlier⟩ :=
          members_buildable (makeStadModel_buildable depth) run built
        refine makeMember_ends ?_
        intro readable targetInfo target
        have step : CallStep result type member.type :=
          ⟨info, done, member, rest, found, split, rfl, by simp [target], readable, earlier⟩
        exact ih member.type step target builtState
      obtain ⟨depth, decided⟩ := loop
      refine ⟨depth + 1, ?_⟩
      change makeStadModelBody result (makeStadModel result depth) (allModels, info) ≠ exhausted
      refine bind_ne_exhausted decided fun expanded => ?_
      refine bind_ne_exhausted (by simp) fun annotationInfo => ?_
      exact bind_ne_exhausted (by simp) fun model => by simp

theorem dataSetMembers_settled {depth : Nat} {members : List MemberSerializationInfo}
    {first last : DataSetState}
    (run : members.foldlM (makeDataSetMember result depth) first = value last)
    (built : AllBuildable result first.allModels) :
    AllBuildable result last.allModels ∧ ∀ member ∈ members, Settled result member.type := by
  refine foldlM_each run (fun state => AllBuildable result state.allModels) _ built ?_
  intro member state next holds stepped
  obtain ⟨info, found, outcome⟩ := makeDataSetMember_cases stepped
  rcases outcome with ⟨marked, same⟩ | ⟨marked, made, returned, models, _⟩
  · rw [same]
    exact ⟨holds, info, found, Or.inl marked⟩
  · have named := getObjectInfo_fullName found
    obtain ⟨buildable, built⟩ := makeStadModel_buildable depth (state.allModels, info) made
      returned (getObjectInfo_self found) holds
    rw [named] at buildable
    rw [models]
    exact ⟨built, info, found, Or.inr ⟨marked, buildable⟩⟩

theorem AllBuildable.link {allModels : List StadModel} (built : AllBuildable result allModels) :
    AllBuildable result (linkModels allModels) := by
  intro linked listed
  obtain ⟨model, member, same⟩ := List.mem_map.mp listed
  rw [← same]
  exact built model member

def Passed (result : TypeCollectorResult) (info : ObjectSerializationInfo) : Prop :=
  isDataSet info = .ok false ∨
    isDataSet info = .ok true ∧ ∀ member ∈ info.members, Settled result member.type

theorem infos_passed {depth : Nat} {infos : List ObjectSerializationInfo}
    {first last : StadRegistry}
    (run : infos.foldlM (makeRegistryRound result depth) first = value last)
    (built : AllBuildable result first.models) :
    AllBuildable result last.models ∧ ∀ info ∈ infos, Passed result info := by
  refine foldlM_each run (fun state => AllBuildable result state.models) _ built ?_
  intro info state next holds stepped
  rcases makeRegistryRound_cases stepped with ⟨plain, same⟩ | ⟨defined, final, members, same⟩
  · rw [same]
    exact ⟨holds, Or.inl plain⟩
  · obtain ⟨built, settled⟩ := dataSetMembers_settled members holds
    rw [same]
    exact ⟨built.link, Or.inr ⟨defined, settled⟩⟩

theorem dataSetMembers_safe {depth : Nat} {members : List MemberSerializationInfo}
    (settled : ∀ member ∈ members, Settled result member.type) (first : DataSetState)
    (thrown : Thrown) :
    members.foldlM (makeDataSetMember result depth) first ≠ error thrown := by
  refine foldlM_safe ?_ first thrown
  intro member listed state thrown
  obtain ⟨info, found, marked | ⟨marked, buildable⟩⟩ := settled member listed
  · unfold Marked at marked
    simp [makeDataSetMember, found, marked]
  · unfold Marked at marked
    have named := getObjectInfo_fullName found
    have safe := makeStadModel_safe depth (getObjectInfo_self found)
      (by rw [named]; exact buildable) state.allModels thrown
    simp only [makeDataSetMember, found, marked, ofExcept_ok, value_bind]
    refine bind_ne_error safe fun made => ?_
    split <;> simp

theorem infos_safe {depth : Nat} {infos : List ObjectSerializationInfo}
    (passed : ∀ info ∈ infos, Passed result info) (first : StadRegistry) (thrown : Thrown) :
    infos.foldlM (makeRegistryRound result depth) first ≠ error thrown := by
  refine foldlM_safe ?_ first thrown
  intro info listed state thrown
  rcases passed info listed with plain | ⟨defined, settled⟩
  · simp [makeRegistryRound, plain]
  · simp only [makeRegistryRound, makeDataSetModel, defined, ofExcept_ok, value_bind, if_true]
    refine bind_ne_error ?_ fun made => by simp
    exact bind_ne_error (dataSetMembers_safe settled _ thrown) fun final => by simp

theorem makeRegistry_endless {type : Option String} (root : RootCall result type)
    (lasso : Lasso (CallStep result) type) (depth : Nat) :
    makeRegistry result depth = exhausted := by
  obtain ⟨earlierInfos, dataSet, laterInfos, before, member, after, info, infos, defined, members,
    same, found, marked, settled, passed⟩ := root
  have named := getObjectInfo_fullName found
  rw [makeRegistry, infos]
  refine foldlM_exhausted (infos_safe passed _) ?_
  intro state run
  have built := (infos_passed run (by simp [AllBuildable])).1
  have loop : dataSet.members.foldlM (makeDataSetMember result depth) ⟨state.models, [], []⟩ =
      exhausted := by
    rw [members]
    refine foldlM_exhausted (dataSetMembers_safe settled _) ?_
    intro inner innerRun
    have builtInner := (dataSetMembers_settled innerRun built).1
    have stuck : makeStadModel result depth (inner.allModels, info) = exhausted :=
      makeStadModel_endless depth (getObjectInfo_self found) (by rw [named]; exact lasso)
        builtInner
    unfold Marked at marked
    simp [makeDataSetMember, same, found, marked, stuck]
  simp [makeRegistryRound, makeDataSetModel, defined, loop]

theorem makeDataSetMember_ends {member : MemberSerializationInfo} {state : DataSetState}
    (call : ∀ info, getObjectInfo result member.type = some info → Marked info false →
      ∃ depth, makeStadModel result depth (state.allModels, info) ≠ exhausted) :
    ∃ depth, makeDataSetMember result depth state member ≠ exhausted := by
  cases found : getObjectInfo result member.type with
  | none => exact ⟨0, by simp [makeDataSetMember, found]⟩
  | some info =>
      cases marked : anyContaining info.attributes "IgnoreMemberAttribute" with
      | error thrown => exact ⟨0, by simp [makeDataSetMember, found, marked]⟩
      | ok ignored =>
          cases ignored with
          | true => exact ⟨0, by simp [makeDataSetMember, found, marked]⟩
          | false =>
              obtain ⟨depth, decided⟩ := call info found marked
              refine ⟨depth, ?_⟩
              simp only [makeDataSetMember, found, marked, ofExcept_ok, value_bind]
              refine bind_ne_exhausted decided fun made => ?_
              split <;> simp

theorem makeRegistryRound_ends {info : ObjectSerializationInfo} {state : StadRegistry}
    (members : isDataSet info = .ok true → ∃ depth, info.members.foldlM
      (makeDataSetMember result depth) ⟨state.models, [], []⟩ ≠ exhausted) :
    ∃ depth, makeRegistryRound result depth state info ≠ exhausted := by
  cases defined : isDataSet info with
  | error thrown => exact ⟨0, by simp [makeRegistryRound, defined]⟩
  | ok isDefined =>
      cases isDefined with
      | false => exact ⟨0, by simp [makeRegistryRound, defined]⟩
      | true =>
          obtain ⟨depth, decided⟩ := members defined
          refine ⟨depth, ?_⟩
          simp only [makeRegistryRound, makeDataSetModel, defined, ofExcept_ok, value_bind, if_true]
          refine bind_ne_exhausted ?_ fun made => by simp
          exact bind_ne_exhausted decided fun final => by simp

theorem makeRegistry_ends (free : NeverReenters result) : MakeRegistryEnds result := by
  refine foldlM_decided makeRegistryRound_deepening ?_
  intro earlierInfos dataSet laterInfos infos depth state run
  obtain ⟨built, passed⟩ := infos_passed run (by simp [AllBuildable])
  refine makeRegistryRound_ends ?_
  intro defined
  refine foldlM_decided makeDataSetMember_deepening ?_
  intro before member after members inner innerState innerRun
  obtain ⟨builtInner, settled⟩ := dataSetMembers_settled innerRun built
  refine makeDataSetMember_ends ?_
  intro info found marked
  have root : RootCall result member.type :=
    ⟨earlierInfos, dataSet, laterInfos, before, member, after, info, infos, defined, members, rfl,
      found, marked, settled, passed⟩
  have finite := acc_of_not_lasso (names result) callStep_inside (free member.type root)
  exact makeStadModel_ends found finite builtInner

/-- The construction of a registry ends exactly when it never gets back to a
type that is still under construction. -/
theorem makeRegistryEnds_iff (result : TypeCollectorResult) :
    MakeRegistryEnds result ↔ NeverReenters result := by
  constructor
  · rintro ⟨depth, decided⟩ type root lasso
    exact decided (makeRegistry_endless root lasso depth)
  · exact makeRegistry_ends

theorem makeRegistryEnds_of_acyclic (acyclic : ∀ type, ¬Lasso (MemberStep result) type) :
    MakeRegistryEnds result :=
  makeRegistry_ends fun type _ lasso => acyclic type (lasso.mono callStep_memberStep)

/-! `class Node { public Node Next; }` and `[DataSetDefinition] class Root { public Node Head; }`. -/

def nodeMember (name : String) : MemberSerializationInfo :=
  ⟨true, false, true, true, some "Sample.Node", name, "Node", none⟩

def nodeInfo : ObjectSerializationInfo :=
  ⟨"Sample_Node", some "Sample.Node", some "Sample", true, none, [nodeMember "Next"], some []⟩

def rootInfo : ObjectSerializationInfo :=
  ⟨"Sample_Root", some "Sample.Root", some "Sample", true, none, [nodeMember "Head"],
    some [⟨some "Stad.Annotation.DataSetDefinition",
      [.type (some "Stad.Annotation.DataSetDefinition")]⟩]⟩

def selfReferring : TypeCollectorResult := ⟨[nodeInfo, rootInfo], [], []⟩

theorem selfReferring_endless : ¬MakeRegistryEnds selfReferring := by
  have node : getObjectInfo selfReferring (some "Sample.Node") = some nodeInfo := by rfl
  have step : CallStep selfReferring (some "Sample.Node") (some "Sample.Node") :=
    ⟨nodeInfo, [], nodeMember "Next", [], node, rfl, rfl, by simp [node], ⟨_, rfl⟩, by simp⟩
  have root : RootCall selfReferring (some "Sample.Node") := by
    refine ⟨[nodeInfo], rootInfo, [], [], nodeMember "Head", [], nodeInfo, rfl, ?_, rfl, rfl, node,
      rfl, by simp, ?_⟩
    · rfl
    · intro earlier listed
      rw [List.mem_singleton.mp listed]
      exact Or.inl rfl
  rintro ⟨depth, decided⟩
  exact decided (makeRegistry_endless root ⟨_, ReflTransGen.refl, TransGen.single step⟩ depth)

end Stad.StadAnalyzer
