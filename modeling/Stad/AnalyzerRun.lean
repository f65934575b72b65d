import Stad.AnalyzerCore
import Stad.Reachability

/-!
What one step of the analyzer can do, and the graph of collected types that its
recursion walks. Types are known by name only, so the vertices are names.
-/

namespace Stad.StadAnalyzer

open Bounded Bounded.Outcome Reachability Relation

variable {result : TypeCollectorResult}

def names (result : TypeCollectorResult) : List (Option String) :=
  (result.collectedObjectInfo ++ result.collectedClosedTypeGenericInfo).map
    ObjectSerializationInfo.fullName

/-- The info of `source` has a member of the collected type `target`. -/
def MemberStep (result : TypeCollectorResult) (source target : Option String) : Prop :=
  ∃ info, getObjectInfo result source = some info ∧
    ∃ member ∈ info.members, member.type = target ∧ (getObjectInfo result target).isSome

def Readable (attributes : Option (List NeutralAttributeData)) : Prop :=
  ∃ annotationInfo, makeAnnotationInfo attributes = .ok annotationInfo

def Sound (result : TypeCollectorResult) (type : Option String) : Prop :=
  ∀ info, getObjectInfo result type = some info →
    (∀ member ∈ info.members, Readable member.attributes) ∧ Readable info.attributes ∧
      info.fullName ≠ none

def Marked (info : ObjectSerializationInfo) (ignored : Bool) : Prop :=
  anyContaining info.attributes "IgnoreMemberAttribute" = .ok ignored

/-- No cycle and no unsound type is reached from the type through members. -/
def Buildable (result : TypeCollectorResult) (type : Option String) : Prop :=
  (∀ reached, ReflTransGen (MemberStep result) type reached → Sound result reached) ∧
    ¬Lasso (MemberStep result) type

theorem hasModel_iff {allModels : List StadModel} {type : Option String} :
    hasModel allModels type = true ↔ ∃ model ∈ allModels, some model.type = type := by
  simp [hasModel]

theorem getObjectInfo_find (result : TypeCollectorResult) (type : Option String) :
    getObjectInfo result type =
      (result.collectedObjectInfo ++ result.collectedClosedTypeGenericInfo).find?
        (·.fullName = type) := by
  rw [getObjectInfo, List.find?_append]
  cases result.collectedObjectInfo.find? (·.fullName = type) with
  | some memberObjectInfo => rfl
  | none => rfl

theorem getObjectInfo_fullName {type : Option String} {info : ObjectSerializationInfo}
    (found : getObjectInfo result type = some info) : info.fullName = type := by
  rw [getObjectInfo_find] at found
  simpa using List.find?_some found

theorem getObjectInfo_self {type : Option String} {info : ObjectSerializationInfo}
    (found : getObjectInfo result type = some info) :
    getObjectInfo result info.fullName = some info := by
  rw [getObjectInfo_fullName found]
  exact found

theorem getObjectInfo_mem_names {type : Option String}
    (found : (getObjectInfo result type).isSome) : type ∈ names result := by
  obtain ⟨info, found⟩ := Option.isSome_iff_exists.mp found
  rw [← getObjectInfo_fullName found]
  rw [getObjectInfo_find] at found
  exact List.mem_map_of_mem (List.mem_of_find?_eq_some found)

theorem memberStep_inside (source target : Option String)
    (step : MemberStep result source target) : target ∈ names result := by
  obtain ⟨_, _, _, _, _, found⟩ := step
  exact getObjectInfo_mem_names found

theorem MemberStep.member {source target : Option String} {info : ObjectSerializationInfo}
    (step : MemberStep result source target) (found : getObjectInfo result source = some info) :
    ∃ member ∈ info.members, member.type = target ∧ (getObjectInfo result target).isSome := by
  obtain ⟨other, otherFound, member, listed, same, collected⟩ := step
  rw [found, Option.some.injEq] at otherFound
  subst otherFound
  exact ⟨member, listed, same, collected⟩

theorem Buildable.of_path {source target : Option String} (buildable : Buildable result source)
    (path : ReflTransGen (MemberStep result) source target) : Buildable result target :=
  ⟨fun reached onward => buildable.1 reached (path.trans onward),
    fun lasso => buildable.2 (lasso.of_path path)⟩

theorem buildable_of_uncollected {type : Option String}
    (missing : getObjectInfo result type = none) : Buildable result type := by
  have stuck (target : Option String) : ¬MemberStep result type target := by
    rintro ⟨info, found, _⟩
    simp [missing] at found
  constructor
  · intro reached path info found
    rcases path.cases_head with same | ⟨next, first, _⟩
    · subst same
      simp [missing] at found
    · exact absurd first (stuck next)
  · intro lasso
    obtain ⟨next, first, _⟩ := lasso.next
    exact stuck next first

theorem Buildable.member {type : Option String} {info : ObjectSerializationInfo}
    (buildable : Buildable result type) (found : getObjectInfo result type = some info)
    {member : MemberSerializationInfo} (listed : member ∈ info.members) :
    Buildable result member.type := by
  cases collected : getObjectInfo result member.type with
  | none => exact buildable_of_uncollected collected
  | some target =>
      have step : MemberStep result type member.type :=
        ⟨info, found, member, listed, rfl, by simp [collected]⟩
      exact buildable.of_path (ReflTransGen.single step)

theorem Buildable.of_members {type : Option String} {info : ObjectSerializationInfo}
    (found : getObjectInfo result type = some info) (sound : Sound result type)
    (members : ∀ member ∈ info.members, Buildable result member.type) :
    Buildable result type := by
  have next (target : Option String) (step : MemberStep result type target) :
      Buildable result target := by
    obtain ⟨member, listed, same, _⟩ := step.member found
    rw [← same]
    exact members member listed
  refine ⟨?_, ?_⟩
  · intro reached path
    rcases path.cases_head with same | ⟨target, first, rest⟩
    · subst same
      exact sound
    · exact (next target first).1 reached rest
  · intro lasso
    obtain ⟨target, first, onward⟩ := lasso.next
    exact (next target first).2 onward

theorem makeMember_cases {call : MakeCall} {state next : List StadModel × List MemberDefinition}
    {member : MemberSerializationInfo} (made : makeMember result call state member = value next) :
    ∃ annotationInfo, makeAnnotationInfo member.attributes = .ok annotationInfo ∧
      next.2 = state.2 ++ [⟨member.type, member.name, if member.isField then .field else .property,
        annotationInfo, none⟩] ∧
      ((hasModel state.1 member.type = true ∧ next.1 = state.1) ∨
        (getObjectInfo result member.type = none ∧ next.1 = state.1) ∨
        ∃ info made, hasModel state.1 member.type = false ∧
          getObjectInfo result member.type = some info ∧ call (state.1, info) = value made ∧
          next.1 = made.1) := by
  simp only [makeMember, bind_eq_value, ofExcept_eq_value] at made
  obtain ⟨annotationInfo, readable, made⟩ := made
  refine ⟨annotationInfo, readable, ?_⟩
  split at made
  · rename_i present
    simp only [pure_eq, value.injEq] at made
    subst made
    exact ⟨rfl, Or.inl ⟨present, rfl⟩⟩
  · rename_i absent
    split at made
    · rename_i missing
      simp only [pure_eq, value.injEq] at made
      subst made
      exact ⟨rfl, Or.inr (Or.inl ⟨missing, rfl⟩)⟩
    · rename_i info found
      simp only [bind_eq_value, pure_eq, value.injEq] at made
      obtain ⟨inner, returned, made⟩ := made
      subst made
      exact ⟨rfl, Or.inr (Or.inr ⟨info, inner, by simpa using absent, found, returned, rfl⟩)⟩

theorem members_keep {call : MakeCall} {members : List MemberSerializationInfo}
    {first last : List StadModel × List MemberDefinition}
    (run : members.foldlM (makeMember result call) first = value last)
    (holds : List StadModel → Prop) (start : holds first.1)
    (kept : ∀ allModels info made, getObjectInfo result info.fullName = some info →
      call (allModels, info) = value made → holds allModels → holds made.1) : holds last.1 := by
  refine foldlM_induction run (fun _ state => holds state.1) start ?_
  intro done member rest state next _ before stepped
  obtain ⟨_, _, _, outcome⟩ := makeMember_cases stepped
  rcases outcome with ⟨_, same⟩ | ⟨_, same⟩ | ⟨info, made, _, found, returned, same⟩
  · rw [same]
    exact before
  · rw [same]
    exact before
  · rw [same]
    exact kept state.1 info made (getObjectInfo_self found) returned before

theorem makeStadModelBody_cases {call : MakeCall} {allModels allModels' : List StadModel}
    {info : ObjectSerializationInfo} {ref : Nat}
    (made : makeStadModelBody result call (allModels, info) = value (allModels', ref)) :
    ∃ expanded annotationInfo name,
      info.members.foldlM (makeMember result call) (allModels, []) = value expanded ∧
      makeAnnotationInfo info.attributes = .ok annotationInfo ∧ info.fullName = some name ∧
      allModels' = expanded.1 ++
        [⟨name, Utility.toTypeCode (Utility.utf16 name), annotationInfo, expanded.2⟩] ∧
      ref = expanded.1.length := by
  simp only [makeStadModelBody, bind_eq_value, ofExcept_eq_value, pure_eq, value.injEq,
    Prod.mk.injEq] at made
  obtain ⟨expanded, run, annotationInfo, readable, model, created, appended, placed⟩ := made
  cases named : info.fullName with
  | none => simp [StadModel.create, named] at created
  | some name =>
      simp only [StadModel.create, named, Except.ok.injEq] at created
      refine ⟨expanded, annotationInfo, name, run, readable, rfl, ?_, placed.symm⟩
      rw [← appended, ← created]

theorem makeDataSetMember_cases {depth : Nat} {state next : DataSetState}
    {member : MemberSerializationInfo}
    (made : makeDataSetMember result depth state member = value next) :
    ∃ info, getObjectInfo result member.type = some info ∧
      ((Marked info true ∧ next = state) ∨
        Marked info false ∧ ∃ made,
          makeStadModel result depth (state.allModels, info) = value made ∧
          next.allModels = made.1 ∧
          if made.1[made.2]?.any fun memberModel => contains memberModel.type "StadKeyValueCollection"
          then next.listModels = state.listModels ++ [made.2] ∧
            next.singleModels = state.singleModels
          else next.listModels = state.listModels ∧
            next.singleModels = state.singleModels ++ [made.2]) := by
  unfold makeDataSetMember at made
  split at made
  · simp at made
  · rename_i info found
    refine ⟨info, found, ?_⟩
    simp only [bind_eq_value, ofExcept_eq_value] at made
    obtain ⟨ignored, marked, made⟩ := made
    cases ignored with
    | true =>
        simp only [if_true, pure_eq, value.injEq] at made
        exact Or.inl ⟨marked, made.symm⟩
    | false =>
        simp only [Bool.false_eq_true, if_false, bind_eq_value] at made
        obtain ⟨inner, returned, made⟩ := made
        refine Or.inr ⟨marked, inner, returned, ?_⟩
        split at made
        · rename_i isList
          simp only [pure_eq, value.injEq] at made
          subst made
          exact ⟨rfl, by simp [isList]⟩
        · rename_i isSingle
          simp only [pure_eq, value.injEq] at made
          subst made
          exact ⟨rfl, by simp [isSingle]⟩

theorem makeRegistryRound_cases {depth : Nat} {state next : StadRegistry}
    {info : ObjectSerializationInfo}
    (made : makeRegistryRound result depth state info = value next) :
    (isDataSet info = .ok false ∧ next = state) ∨
      isDataSet info = .ok true ∧ ∃ final,
        info.members.foldlM (makeDataSetMember result depth) ⟨state.models, [], []⟩ = value final ∧
        next = ⟨linkModels final.allModels,
          state.dataSets ++ [⟨info.fullName, final.listModels, final.singleModels⟩]⟩ := by
  simp only [makeRegistryRound, bind_eq_value, ofExcept_eq_value] at made
  obtain ⟨defined, isDefined, made⟩ := made
  cases defined with
  | false =>
      simp only [Bool.false_eq_true, if_false, pure_eq, value.injEq] at made
      exact Or.inl ⟨isDefined, made.symm⟩
  | true =>
      simp only [if_true, makeDataSetModel, bind_eq_value, pure_eq, value.injEq] at made
      obtain ⟨_, ⟨final, run, same⟩, made⟩ := made
      subst same
      exact Or.inr ⟨isDefined, final, run, made.symm⟩

theorem makeMember_agrees {call call' : MakeCall}
    (agrees : ∀ argument, Agrees (call argument) (call' argument))
    (state : List StadModel × List MemberDefinition) (member : MemberSerializationInfo) :
    Agrees (makeMember result call state member) (makeMember result call' state member) := by
  unfold makeMember
  refine Agrees.bind (Agrees.refl _) fun annotationInfo => ?_
  refine Agrees.ite (Agrees.refl _) ?_
  cases getObjectInfo result member.type with
  | none => exact Agrees.refl _
  | some info => exact Agrees.bind (agrees _) fun _ => Agrees.refl _

theorem makeStadModelBody_continuous : Continuous (makeStadModelBody result) := by
  rintro call call' agrees ⟨allModels, info⟩
  exact Agrees.bind (foldlM_agrees (makeMember_agrees agrees) _ _) fun _ => Agrees.refl _

theorem makeMember_deepening : Deepening fun depth =>
    makeMember result (makeStadModel result depth) :=
  fun _ _ le => makeMember_agrees (unroll_agrees makeStadModelBody_continuous le)

theorem makeDataSetMember_deepening : Deepening (makeDataSetMember result) := by
  intro depth deeper le state member
  unfold makeDataSetMember
  cases getObjectInfo result member.type with
  | none => exact Agrees.refl _
  | some info =>
      refine Agrees.bind (Agrees.refl _) fun ignored => ?_
      refine Agrees.ite (Agrees.refl _) ?_
      exact Agrees.bind (unroll_agrees makeStadModelBody_continuous le _) fun _ => Agrees.refl _

theorem makeRegistryRound_deepening : Deepening (makeRegistryRound result) := by
  intro depth deeper le state info
  unfold makeRegistryRound
  refine Agrees.bind (Agrees.refl _) fun defined => ?_
  refine Agrees.ite ?_ (Agrees.refl _)
  refine Agrees.bind ?_ fun _ => Agrees.refl _
  exact Agrees.bind (foldlM_agrees (makeDataSetMember_deepening depth deeper le) _ _)
    fun _ => Agrees.refl _

end Stad.StadAnalyzer
