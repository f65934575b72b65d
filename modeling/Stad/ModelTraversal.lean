import Stad.AnalyzerLinks
import Stad.Histories

/-!
What `MakeStadModel` does to any closed list of models when the member types have no
cycle: it ends, and behind the models that were there it puts one for every type
below the expanded one that had none, the member types first.
-/

namespace Stad.StadAnalyzer

open Bounded Bounded.Outcome Histories Reachability Relation

variable {result : TypeCollectorResult}

/-- The member-type graph: the info of `source` has a member of the type `target`. -/
def MemberType (result : TypeCollectorResult) (source target : Option String) : Prop :=
  ∃ info, getObjectInfo result source = some info ∧ ∃ member ∈ info.members, member.type = target

def Collected (result : TypeCollectorResult) (type : Option String) : Prop :=
  (getObjectInfo result type).isSome

/-- What a call for the type `source` puts behind the models of `base`. -/
structure Traversed (result : TypeCollectorResult) (source : Option String)
    (base : List StadModel) (made : List StadModel × Nat) (added : List StadModel)
    (last : StadModel) : Prop where
  models : made.1 = base ++ added ++ [last]
  place : made.2 = (base ++ added).length
  named : some last.type = source
  once : (added.map StadModel.type).Nodup
  added_iff : ∀ target, hasModel added target = true ↔
    TransGen (MemberType result) source target ∧ Collected result target ∧
      hasModel base target = false
  described : ∀ model ∈ added ++ [last], Described result model
  membersFirst : Along (fun earlier model => ∀ target, MemberType result (some model.type) target →
    Collected result target → hasModel (base ++ earlier) target = true) (added ++ [last])
  closed : Closed result made.1

theorem memberStep_iff {source target : Option String} :
    MemberStep result source target ↔
      MemberType result source target ∧ Collected result target := by
  constructor
  · rintro ⟨info, found, member, listed, same, collected⟩
    exact ⟨⟨info, found, member, listed, same⟩, collected⟩
  · rintro ⟨⟨info, found, member, listed, same⟩, collected⟩
    exact ⟨info, found, member, listed, same, collected⟩

theorem memberType_collected (source target : Option String)
    (step : MemberType result source target) : Collected result source := by
  obtain ⟨info, found, _⟩ := step
  simp [Collected, found]

theorem transGen_memberStep_iff {source target : Option String} :
    TransGen (MemberStep result) source target ↔
      TransGen (MemberType result) source target ∧ Collected result target := by
  rw [← transGen_inside_iff memberType_collected]
  have same : MemberStep result = fun source target =>
      MemberType result source target ∧ Collected result target := by
    funext source target
    exact propext memberStep_iff
  rw [same]

theorem Ordered.along {base added : List StadModel} (ordered : Ordered result base added) :
    Along (fun earlier model => ∀ target, MemberStep result (some model.type) target →
      hasModel (base ++ earlier) target = true) added := by
  induction ordered with
  | nil => exact along_nil _
  | snoc _ before ih => exact along_append_singleton.mpr ⟨ih, before⟩

theorem Appended.added_iff {source : Option String} {base added : List StadModel}
    {made : List StadModel × Nat} {last : StadModel}
    (appended : Appended result source base made added last) (closed : Closed result base)
    (free : ¬Lasso (MemberStep result) source) (target : Option String) :
    hasModel added target = true ↔
      TransGen (MemberStep result) source target ∧ hasModel base target = false := by
  constructor
  · intro present
    obtain ⟨model, listed, named⟩ := hasModel_iff.mp present
    rw [← named]
    exact ⟨appended.grown.reached model listed, appended.grown.fresh model listed⟩
  · rintro ⟨path, absent⟩
    have covered : hasModel made.1 target = true :=
      (appended.covers closed target).mpr (Or.inr path.to_reflTransGen)
    rw [appended.models, hasModel_append, hasModel_append, absent, Bool.false_or,
      Bool.or_eq_true] at covered
    rcases covered with inAdded | isLast
    · exact inAdded
    · obtain ⟨model, listed, named⟩ := hasModel_iff.mp isLast
      rw [List.mem_singleton.mp listed, appended.named] at named
      rw [← named] at path
      exact absurd ⟨source, ReflTransGen.refl, path⟩ free

theorem Appended.traversed {source : Option String} {base added : List StadModel}
    {made : List StadModel × Nat} {last : StadModel}
    (appended : Appended result source base made added last) (closed : Closed result base)
    (free : ¬Lasso (MemberStep result) source) : Traversed result source base made added last := by
  have ordered : Ordered result base (added ++ [last]) := by
    refine appended.grown.ordered.snoc ?_
    rw [appended.named]
    exact appended.complete
  refine ⟨appended.models, appended.place, appended.named, appended.grown.unique, ?_, ?_, ?_, ?_⟩
  · intro target
    rw [appended.added_iff closed free target, transGen_memberStep_iff, and_assoc]
  · exact List.forall_mem_append.mpr
      ⟨appended.grown.described, List.forall_mem_singleton.mpr appended.described⟩
  · intro earlier model later split target step collected
    exact ordered.along earlier model later split target (memberStep_iff.mpr ⟨step, collected⟩)
  · rw [appended.models, List.append_assoc]
    exact closed.grow ordered

theorem buildable_of_acyclic (acyclic : ∀ type, ¬Lasso (MemberStep result) type)
    (sound : ∀ type, Sound result type) (type : Option String) : Buildable result type :=
  ⟨fun reached _ => sound reached, acyclic type⟩

theorem makeStadModel_returns {type : Option String} {info : ObjectSerializationInfo}
    (acyclic : ∀ type, ¬Lasso (MemberStep result) type) (sound : ∀ type, Sound result type)
    (found : getObjectInfo result type = some info) (base : List StadModel) :
    ∃ depth made, makeStadModel result depth (base, info) = value made := by
  have buildable := buildable_of_acyclic acyclic sound
  have finite : Acc (fun target source => CallStep result source target) type :=
    acc_of_not_lasso (names result) callStep_inside
      fun lasso => acyclic type (lasso.mono callStep_memberStep)
  obtain ⟨depth, ends⟩ : ∃ depth, makeStadModel result depth (base, info) ≠ exhausted :=
    makeStadModel_ends found finite fun model _ => buildable (some model.type)
  cases returned : makeStadModel result depth (base, info) with
  | value made => exact ⟨depth, made, returned⟩
  | error thrown =>
      have safe := makeStadModel_safe depth (getObjectInfo_self found) (buildable _) base thrown
      exact absurd returned safe
  | exhausted => exact absurd returned ends

/-- Without cycles, null names and attributes that throw, every call for a collected type
ends and keeps a closed list closed. -/
theorem makeStadModel_traverses
    (acyclic : ∀ type, ¬TransGen (MemberType result) type type)
    (sound : ∀ type, Sound result type) {base : List StadModel} (closed : Closed result base)
    {type : Option String} {info : ObjectSerializationInfo}
    (found : getObjectInfo result type = some info) :
    ∃ depth made added last,
      (∀ deeper, depth ≤ deeper → makeStadModel result deeper (base, info) = value made) ∧
        Traversed result type base made added last := by
  have free : ∀ type, ¬Lasso (MemberStep result) type :=
    not_lasso_of_acyclic fun type cycle => acyclic type (transGen_memberStep_iff.mp cycle).1
  obtain ⟨depth, made, returned⟩ := makeStadModel_returns free sound found base
  have built : AllBuildable result base :=
    fun model _ => buildable_of_acyclic free sound (some model.type)
  obtain ⟨added, last, appended⟩ := makeStadModel_appends depth (base, info) made returned
    (getObjectInfo_self found) built closed
  rw [getObjectInfo_fullName found] at appended
  refine ⟨depth, made, added, last, ?_, appended.traversed closed (free type)⟩
  intro deeper le
  have agrees : Agrees (makeStadModel result depth (base, info))
      (makeStadModel result deeper (base, info)) :=
    unroll_agrees makeStadModelBody_continuous le _
  rw [returned] at agrees
  exact agrees (by simp)

/-! `class Branch { public Leaf Left; public Leaf Right; }` -/

def branchInfo : ObjectSerializationInfo :=
  ⟨"Sample_Branch", some "Sample.Branch", some "Sample", true, none,
    [leafMember "Left", leafMember "Right"], some []⟩

def branch : TypeCollectorResult := ⟨[leafInfo, branchInfo, int32Info], [], []⟩

theorem branch_cases {type : Option String} {info : ObjectSerializationInfo}
    (found : getObjectInfo branch type = some info) :
    info.fullName = type ∧ (info = leafInfo ∨ info = branchInfo ∨ info = int32Info) := by
  refine ⟨getObjectInfo_fullName found, ?_⟩
  rw [getObjectInfo_find] at found
  simpa [branch] using List.mem_of_find?_eq_some found

def branchRank (type : Option String) : Nat :=
  if type = some "Sample.Branch" then 2 else if type = some "Sample.Leaf" then 1 else 0

theorem branch_lower (source target : Option String) (step : MemberType branch source target) :
    branchRank target < branchRank source := by
  obtain ⟨info, found, member, listed, same⟩ := step
  obtain ⟨named, isLeaf | isBranch | isInt32⟩ := branch_cases found
  · subst same named isLeaf
    rw [List.mem_singleton.mp listed]
    decide
  · subst same named isBranch
    have leaves : ∀ member ∈ branchInfo.members, member.type = some "Sample.Leaf" := by
      simp [branchInfo, leafMember]
    rw [leaves member listed]
    decide
  · subst isInt32
    simp [int32Info] at listed

theorem branch_sound (type : Option String) : Sound branch type := by
  intro info found
  have plain : (∀ member ∈ info.members, member.attributes = none) ∧
      info.attributes = some [] ∧ info.fullName ≠ none := by
    obtain ⟨_, isLeaf | isBranch | isInt32⟩ := branch_cases found
    · simp [isLeaf, leafInfo]
    · simp [isBranch, branchInfo, leafMember]
    · simp [isInt32, int32Info]
  obtain ⟨members, own, named⟩ := plain
  refine ⟨?_, ?_, named⟩
  · intro member listed
    rw [members member listed]
    exact ⟨_, rfl⟩
  · rw [own]
    exact ⟨_, rfl⟩

theorem int32Model_closed : Closed branch [int32Model] := by
  intro source target present step
  obtain ⟨model, listed, named⟩ := hasModel_iff.mp present
  rw [List.mem_singleton.mp listed] at named
  subst named
  have int32 : getObjectInfo branch (some int32Model.type) = some int32Info := by rfl
  obtain ⟨member, inMembers, _⟩ := step.member int32
  simp [int32Info] at inMembers

theorem branch_traversed : ∃ depth made added last,
    (∀ deeper, depth ≤ deeper →
      makeStadModel branch deeper ([int32Model], branchInfo) = value made) ∧
      Traversed branch (some "Sample.Branch") [int32Model] made added last :=
  makeStadModel_traverses (acyclic_of_rank branchRank branch_lower) branch_sound
    int32Model_closed (by rfl)

end Stad.StadAnalyzer
