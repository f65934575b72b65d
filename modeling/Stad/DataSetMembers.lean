import Stad.AnalyzerLinks

/-!
What `MakeDataSetModel` makes of the members of a data set: which of them it
expands, which models that makes, and on which list each of these is put.
-/

namespace Stad.StadAnalyzer

open Bounded Bounded.Outcome

variable {result : TypeCollectorResult}

inductive Expands (result : TypeCollectorResult) (depth : Nat) :
    List StadModel → List MemberSerializationInfo → List Nat → List StadModel → Prop
  | nil {models} : Expands result depth models [] [] models
  | cons {models member info made rest refs last} :
      getObjectInfo result member.type = some info →
      makeStadModel result depth (models, info) = value made →
      Expands result depth made.1 rest refs last →
      Expands result depth models (member :: rest) (made.2 :: refs) last

def pick (kinds : List Bool) (refs : List Nat) (kind : Bool) : List Nat :=
  ((kinds.zip refs).filter fun pair => pair.1 = kind).map Prod.snd

def isExpanded (result : TypeCollectorResult) (member : MemberSerializationInfo) : Bool :=
  match getObjectInfo result member.type with
  | none => false
  | some info =>
    match anyContaining info.attributes "IgnoreMemberAttribute" with
    | .ok false => true
    | _ => false

def namesCollection (member : MemberSerializationInfo) : Bool :=
  contains (member.type.getD "") "StadKeyValueCollection"

theorem pick_cons (kind' : Bool) (kinds : List Bool) (ref : Nat) (refs : List Nat) (kind : Bool) :
    pick (kind' :: kinds) (ref :: refs) kind =
      if kind' = kind then ref :: pick kinds refs kind else pick kinds refs kind := by
  by_cases same : kind' = kind <;> simp [pick, same]

theorem pick_subset (kinds : List Bool) (refs : List Nat) (kind : Bool) :
    ∀ ref ∈ pick kinds refs kind, ref ∈ refs := by
  intro ref picked
  obtain ⟨pair, kept, same⟩ := List.mem_map.mp picked
  rw [← same]
  exact (List.of_mem_zip (List.mem_filter.mp kept).1).2

theorem pick_perm {kinds : List Bool} {refs : List Nat} (same : kinds.length = refs.length) :
    (pick kinds refs true ++ pick kinds refs false).Perm refs := by
  have all : (kinds.zip refs).map Prod.snd = refs := List.map_snd_zip (Nat.le_of_eq same.symm)
  have parts := (List.filter_append_perm (fun pair => pair.1 = true) (kinds.zip refs)).map Prod.snd
  rw [all, List.map_append] at parts
  simpa [pick] using parts

theorem Expands.length {depth : Nat} {models last : List StadModel}
    {members : List MemberSerializationInfo} {refs : List Nat}
    (expands : Expands result depth models members refs last) : refs.length = members.length := by
  induction expands with
  | nil => rfl
  | cons _ _ _ ih => simp [ih]

theorem Expands.functional {depth : Nat} {models last last' : List StadModel}
    {members : List MemberSerializationInfo} {refs refs' : List Nat}
    (expands : Expands result depth models members refs last)
    (expands' : Expands result depth models members refs' last') :
    refs = refs' ∧ last = last' := by
  induction expands generalizing refs' last' with
  | nil =>
      cases expands'
      exact ⟨rfl, rfl⟩
  | cons found returned _ ih =>
      cases expands' with
      | cons found' returned' rest =>
          rw [found, Option.some.injEq] at found'
          subst found'
          rw [returned, value.injEq] at returned'
          subst returned'
          obtain ⟨sameRefs, sameLast⟩ := ih rest
          exact ⟨by rw [sameRefs], sameLast⟩

/-- A returning call puts its model at the end, after what was there and what its members needed. -/
theorem makeStadModel_placed {depth : Nat} {argument : List StadModel × ObjectSerializationInfo}
    {made : List StadModel × Nat} (returned : makeStadModel result depth argument = value made) :
    ∃ added model, made.1 = argument.1 ++ added ++ [model] ∧
      made.2 = (argument.1 ++ added).length ∧ some model.type = argument.2.fullName := by
  revert argument made
  apply unroll_returned
  rintro recurse calls ⟨allModels, info⟩ ⟨allModels', ref⟩ body
  obtain ⟨expanded, annotationInfo, name, run, _, named, appended, placed⟩ :=
    makeStadModelBody_cases body
  have grows : ∃ added, expanded.1 = allModels ++ added := by
    refine members_keep run (fun models => ∃ added, models = allModels ++ added) ⟨[], by simp⟩ ?_
    rintro models target made _ returned ⟨added, before⟩
    obtain ⟨inner, model, appended, _⟩ := calls (models, target) made returned
    exact ⟨added ++ (inner ++ [model]), by rw [appended, before]; simp⟩
  obtain ⟨added, grown⟩ := grows
  exact ⟨added, _, by rw [appended, grown], by rw [placed, grown], named.symm⟩

theorem Expands.increasing {depth : Nat} {models last : List StadModel}
    {members : List MemberSerializationInfo} {refs : List Nat}
    (expands : Expands result depth models members refs last) :
    (∀ ref ∈ refs, models.length ≤ ref) ∧ refs.Pairwise (· < ·) := by
  induction expands with
  | nil => simp
  | @cons models member info made rest refs last _ returned _ ih =>
      obtain ⟨added, model, appended, placed, _⟩ := makeStadModel_placed returned
      have size : made.1.length = models.length + added.length + 1 := by
        simp only [appended, List.length_append, List.length_singleton]
      have place : made.2 = models.length + added.length := by
        simp only [placed, List.length_append]
      refine ⟨List.forall_mem_cons.mpr ⟨by omega, ?_⟩, List.pairwise_cons.mpr ⟨?_, ih.2⟩⟩
      · intro ref listed
        have above := ih.1 ref listed
        omega
      · intro ref listed
        have above := ih.1 ref listed
        omega

theorem Expands.named {depth : Nat} {models last : List StadModel}
    {members : List MemberSerializationInfo} {refs : List Nat}
    (expands : Expands result depth models members refs last) :
    ∀ member ∈ members, member.type ≠ none := by
  induction expands with
  | nil => simp
  | cons found returned _ ih =>
      obtain ⟨_, model, _, _, named⟩ := makeStadModel_placed returned
      rw [getObjectInfo_fullName found] at named
      exact List.forall_mem_cons.mpr ⟨by simp [← named], ih⟩

theorem dataSetMembers_expand {depth : Nat} {members : List MemberSerializationInfo}
    {first last : DataSetState}
    (run : members.foldlM (makeDataSetMember result depth) first = value last) :
    ∃ refs, Expands result depth first.allModels (members.filter (isExpanded result)) refs
        last.allModels ∧
      last.listModels = first.listModels ++
        pick ((members.filter (isExpanded result)).map namesCollection) refs true ∧
      last.singleModels = first.singleModels ++
        pick ((members.filter (isExpanded result)).map namesCollection) refs false := by
  induction members generalizing first with
  | nil =>
      simp only [List.foldlM_nil, pure_eq, value.injEq] at run
      subst run
      exact ⟨[], Expands.nil, by simp [pick], by simp [pick]⟩
  | cons member rest ih =>
      rw [List.foldlM_cons, bind_eq_value] at run
      obtain ⟨next, stepped, run⟩ := run
      obtain ⟨refs, expands, lists, singles⟩ := ih run
      obtain ⟨info, found, ⟨marked, same⟩ | ⟨marked, made, returned, models, outcome⟩⟩ :=
        makeDataSetMember_cases stepped
      · unfold Marked at marked
        have skipped : isExpanded result member = false := by simp [isExpanded, found, marked]
        subst same
        rw [List.filter_cons_of_neg (by simp [skipped])]
        exact ⟨refs, expands, lists, singles⟩
      · unfold Marked at marked
        have kept : isExpanded result member = true := by simp [isExpanded, found, marked]
        obtain ⟨added, model, appended, placed, named⟩ := makeStadModel_placed returned
        have atPlace : made.1[made.2]? = some model := by
          rw [appended, placed]
          exact List.getElem?_concat_length
        rw [getObjectInfo_fullName found] at named
        have decided : (made.1[made.2]?.any fun memberModel =>
            contains memberModel.type "StadKeyValueCollection") = namesCollection member := by
          simp [atPlace, namesCollection, ← named]
        rw [decided] at outcome
        rw [List.filter_cons_of_pos kept, List.map_cons]
        rw [models] at expands
        refine ⟨made.2 :: refs, Expands.cons found returned expands, ?_, ?_⟩
        · rw [pick_cons, lists]
          cases kind : namesCollection member with
          | true =>
              simp only [kind, if_true] at outcome
              simp [outcome.1]
          | false =>
              simp only [kind, Bool.false_eq_true, if_false] at outcome
              simp [outcome.1]
        · rw [pick_cons, singles]
          cases kind : namesCollection member with
          | true =>
              simp only [kind, if_true] at outcome
              simp [outcome.2]
          | false =>
              simp only [kind, Bool.false_eq_true, if_false] at outcome
              simp [outcome.2]

def typesAt (models : List StadModel) (refs : List Nat) : List (Option String) :=
  refs.map fun ref => models[ref]?.map StadModel.type

theorem typesAt_grow {models models' : List StadModel} {refs : List Nat} {added : List String}
    (grown : models'.map StadModel.type = models.map StadModel.type ++ added)
    (inside : ∀ ref ∈ refs, ref < models.length) : typesAt models' refs = typesAt models refs := by
  refine List.map_congr_left ?_
  intro ref listed
  have bound := inside ref listed
  rw [← List.getElem?_map, ← List.getElem?_map, grown,
    List.getElem?_append_left (by rw [List.length_map]; exact bound)]

theorem Expands.extends {depth : Nat} {models last : List StadModel}
    {members : List MemberSerializationInfo} {refs : List Nat}
    (expands : Expands result depth models members refs last) :
    ∃ added, last = models ++ added := by
  induction expands with
  | nil => exact ⟨[], by simp⟩
  | cons _ returned _ ih =>
      obtain ⟨inner, model, appended, _⟩ := makeStadModel_placed returned
      obtain ⟨added, same⟩ := ih
      exact ⟨inner ++ [model] ++ added, by rw [same, appended]; simp⟩

theorem Expands.placed {depth : Nat} {models last : List StadModel}
    {members : List MemberSerializationInfo} {refs : List Nat}
    (expands : Expands result depth models members refs last) :
    (∀ ref ∈ refs, ref < last.length) ∧ typesAt last refs = members.map (·.type) := by
  induction expands with
  | nil => simp [typesAt]
  | @cons models member info made rest refs last found returned onward ih =>
      obtain ⟨inner, model, appended, placed, named⟩ := makeStadModel_placed returned
      obtain ⟨added, same⟩ := onward.extends
      rw [getObjectInfo_fullName found] at named
      have atPlace : last[made.2]? = some model := by
        rw [same, appended, placed, List.append_assoc, List.getElem?_append_right (Nat.le_refl _)]
        simp
      obtain ⟨bound, _⟩ := List.getElem?_eq_some_iff.mp atPlace
      refine ⟨List.forall_mem_cons.mpr ⟨bound, ih.1⟩, ?_⟩
      rw [List.map_cons, ← ih.2, ← named]
      simp [typesAt, atPlace]

theorem makeDataSetModel_cases {depth : Nat} {allModels final : List StadModel}
    {info : ObjectSerializationInfo} {dataSet : DataSetModel}
    (returned : makeDataSetModel result depth allModels info = value (final, dataSet)) :
    ∃ state, info.members.foldlM (makeDataSetMember result depth) ⟨allModels, [], []⟩ =
        value state ∧ final = linkModels state.allModels ∧
      dataSet = ⟨info.fullName, state.listModels, state.singleModels⟩ := by
  simp only [makeDataSetModel, bind_eq_value, pure_eq, value.injEq, Prod.mk.injEq] at returned
  obtain ⟨state, run, models, made⟩ := returned
  exact ⟨state, run, models.symm, made.symm⟩

def TypeCarriesNone (result : TypeCollectorResult) (part : String)
    (member : MemberSerializationInfo) : Prop :=
  ∀ info, getObjectInfo result member.type = some info →
    ∀ data ∈ info.attributes.getD [], ∀ name, data.type = some name → contains name part = false

theorem firstContaining_isSome {part : String} {attributes : List NeutralAttributeData}
    {found : Option NeutralAttributeData} (searched : firstContaining part attributes = .ok found) :
    found.isSome = true ↔
      ∃ data ∈ attributes, ∃ name, data.type = some name ∧ contains name part = true := by
  induction attributes with
  | nil =>
      simp only [firstContaining, Except.ok.injEq] at searched
      simp [← searched]
  | cons data rest ih =>
      simp only [firstContaining] at searched
      cases named : data.type with
      | none => simp [named] at searched
      | some name =>
          simp only [named] at searched
          by_cases here : contains name part = true
          · simp only [here, if_true, Except.ok.injEq] at searched
            simp [← searched, named, here]
          · simp only [here, Bool.false_eq_true, if_false] at searched
            simp [ih searched, named, here]

theorem anyContaining_iff {part : String} {attributes : Option (List NeutralAttributeData)}
    {any : Bool} (searched : anyContaining attributes part = .ok any) :
    any = true ↔
      ∃ data ∈ attributes.getD [], ∃ name, data.type = some name ∧ contains name part = true := by
  cases attributes with
  | none => simp [anyContaining] at searched
  | some attributes =>
      simp only [anyContaining, except_bind_eq_ok] at searched
      obtain ⟨found, searched, same⟩ := searched
      simp only [pure, Except.pure, Except.ok.injEq] at same
      rw [← same, firstContaining_isSome searched, Option.getD_some]

theorem isExpanded_iff {depth : Nat} {members : List MemberSerializationInfo}
    {first last : DataSetState}
    (run : members.foldlM (makeDataSetMember result depth) first = value last) :
    ∀ member ∈ members, isExpanded result member = true ↔
      TypeCarriesNone result "IgnoreMemberAttribute" member := by
  intro member listed
  obtain ⟨state, next, stepped⟩ := foldlM_rounds run member listed
  obtain ⟨info, found, outcome⟩ := makeDataSetMember_cases stepped
  have searched : ∃ ignored, anyContaining info.attributes "IgnoreMemberAttribute" = .ok ignored := by
    rcases outcome with ⟨marked, _⟩ | ⟨marked, _⟩
    · exact ⟨true, marked⟩
    · exact ⟨false, marked⟩
  obtain ⟨ignored, searched⟩ := searched
  have carried := anyContaining_iff searched
  cases ignored with
  | true =>
      obtain ⟨data, inAttributes, name, named, has⟩ := carried.mp rfl
      have notExpanded : isExpanded result member = false := by simp [isExpanded, found, searched]
      rw [notExpanded]
      constructor
      · intro impossible
        cases impossible
      · intro none
        rw [none info found data inAttributes name named] at has
        cases has
  | false =>
      have expanded : isExpanded result member = true := by simp [isExpanded, found, searched]
      rw [expanded]
      refine ⟨fun _ => ?_, fun _ => rfl⟩
      intro other otherFound data inAttributes name named
      rw [found, Option.some.injEq] at otherFound
      subst otherFound
      by_contra has
      have impossible := carried.mpr ⟨data, inAttributes, name, named, by simpa using has⟩
      cases impossible

def definesDataSet (info : ObjectSerializationInfo) : Bool :=
  match isDataSet info with
  | .ok defined => defined
  | .error _ => false

structure DataSetOf (result : TypeCollectorResult) (models : List StadModel)
    (info : ObjectSerializationInfo) (dataSet : DataSetModel) : Prop where
  name : dataSet.name = info.fullName
  found : ∀ member ∈ info.members, (getObjectInfo result member.type).isSome
  inside : ∀ ref ∈ dataSet.listModels ++ dataSet.singleModels, ref < models.length
  types : (typesAt models (dataSet.listModels ++ dataSet.singleModels)).Perm
    ((info.members.filter (isExpanded result)).map (·.type))

theorem DataSetOf.grow {models models' : List StadModel} {info : ObjectSerializationInfo}
    {dataSet : DataSetModel} {added : List String} (made : DataSetOf result models info dataSet)
    (grown : models'.map StadModel.type = models.map StadModel.type ++ added) :
    DataSetOf result models' info dataSet := by
  have longer : models'.length = models.length + added.length := by
    rw [← List.length_map (f := StadModel.type), grown, List.length_append, List.length_map]
  refine ⟨made.name, made.found, ?_, ?_⟩
  · intro ref listed
    have bound := made.inside ref listed
    omega
  · rw [typesAt_grow grown made.inside]
    exact made.types

theorem dataSetMembers_dataSetOf {depth : Nat} {models : List StadModel}
    {info : ObjectSerializationInfo} {final : DataSetState}
    (run : info.members.foldlM (makeDataSetMember result depth) ⟨models, [], []⟩ = value final) :
    DataSetOf result final.allModels info ⟨info.fullName, final.listModels, final.singleModels⟩ ∧
      ∃ added, final.allModels = models ++ added := by
  obtain ⟨refs, expands, lists, singles⟩ := dataSetMembers_expand run
  simp only [List.nil_append] at lists singles
  have permuted : (final.listModels ++ final.singleModels).Perm refs := by
    rw [lists, singles]
    exact pick_perm (by rw [List.length_map, expands.length])
  obtain ⟨inside, types⟩ := expands.placed
  refine ⟨⟨rfl, ?_, ?_, ?_⟩, expands.extends⟩
  · intro member listed
    obtain ⟨state, next, stepped⟩ := foldlM_rounds run member listed
    obtain ⟨memberInfo, found, _⟩ := makeDataSetMember_cases stepped
    simp [found]
  · exact fun ref listed => inside ref (permuted.mem_iff.mp listed)
  · rw [← types]
    exact permuted.map _

/-- What holds of every data set when it is made, and still when models are added,
holds of the data sets of a returned registry, one for each info that defines one. -/
theorem makeRegistry_each {depth : Nat} {registry : StadRegistry}
    (returned : makeRegistry result depth = value registry)
    {relation : List StadModel → ObjectSerializationInfo → DataSetModel → Prop}
    (made : ∀ models info final,
      info.members.foldlM (makeDataSetMember result depth) ⟨models, [], []⟩ = value final →
      relation final.allModels info ⟨info.fullName, final.listModels, final.singleModels⟩)
    (grow : ∀ models models' added info dataSet, relation models info dataSet →
      models'.map StadModel.type = models.map StadModel.type ++ added →
      relation models' info dataSet) :
    List.Forall₂ (relation registry.models)
      (result.collectedObjectInfo.filter definesDataSet) registry.dataSets := by
  refine foldlM_induction returned (fun passed state =>
    List.Forall₂ (relation state.models) (passed.filter definesDataSet) state.dataSets) ?_ ?_
  · exact List.Forall₂.nil
  · intro passed info rest state next _ holds stepped
    rw [List.filter_append]
    rcases makeRegistryRound_cases stepped with ⟨plain, same⟩ | ⟨defined, final, run, same⟩
    · have skipped : definesDataSet info = false := by simp [definesDataSet, plain]
      rw [same, List.filter_cons_of_neg (by simp [skipped]), List.filter_nil, List.append_nil]
      exact holds
    · have kept : definesDataSet info = true := by simp [definesDataSet, defined]
      obtain ⟨_, added, grown⟩ := dataSetMembers_dataSetOf run
      have types : (linkModels final.allModels).map StadModel.type =
          state.models.map StadModel.type ++ added.map StadModel.type := by
        rw [linkModels_types, grown, List.map_append]
      have linked : (linkModels final.allModels).map StadModel.type =
          final.allModels.map StadModel.type ++ [] := by
        rw [linkModels_types, List.append_nil]
      rw [same, List.filter_cons_of_pos kept, List.filter_nil]
      refine List.rel_append (holds.imp fun earlier dataSet before => ?_)
        (List.Forall₂.cons ?_ List.Forall₂.nil)
      · exact grow _ _ _ earlier dataSet before types
      · exact grow _ _ _ info _ (made _ info final run) linked

theorem makeRegistry_dataSets {depth : Nat} {registry : StadRegistry}
    (returned : makeRegistry result depth = value registry) :
    List.Forall₂ (DataSetOf result registry.models)
      (result.collectedObjectInfo.filter definesDataSet) registry.dataSets :=
  makeRegistry_each returned (fun _ _ _ run => (dataSetMembers_dataSetOf run).1)
    fun _ _ _ _ _ made grown => made.grow grown

end Stad.StadAnalyzer
