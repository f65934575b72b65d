import Stad.AnalyzerCoherence
import Stad.PairedLists

/-!
Apart from its links a model is a copy of the info that its type finds, whatever
was in `AllModels` when it was made.
-/

namespace Stad.StadAnalyzer

open Bounded Bounded.Outcome

variable {result : TypeCollectorResult}

structure Transcribes (definition : MemberDefinition) (member : MemberSerializationInfo) :
    Prop where
  type : definition.type = member.type
  name : definition.name = member.name
  kind : definition.kind = if member.isField then .field else .property
  annotationInfo : makeAnnotationInfo member.attributes = .ok definition.annotationInfo

def Transcribed (result : TypeCollectorResult) (model : StadModel) : Prop :=
  ∃ info, getObjectInfo result (some model.type) = some info ∧
    model.typeCode = Utility.toTypeCode (Utility.utf16 model.type) ∧
    makeAnnotationInfo info.attributes = .ok model.annotationInfo ∧
    List.Forall₂ Transcribes model.members info.members

theorem foldlM_transcribes {call : MakeCall} {allModels : List StadModel}
    {members : List MemberSerializationInfo} {expanded : List StadModel × List MemberDefinition}
    (run : members.foldlM (makeMember result call) (allModels, []) = value expanded) :
    List.Forall₂ Transcribes expanded.2 members := by
  refine foldlM_induction run (fun done state => List.Forall₂ Transcribes state.2 done)
    List.Forall₂.nil ?_
  rintro done member rest state next _ definitions stepped
  obtain ⟨annotationInfo, readable, definition, _⟩ := makeMember_cases stepped
  rw [definition]
  exact List.rel_append definitions
    (List.Forall₂.cons ⟨rfl, rfl, rfl, readable⟩ List.Forall₂.nil)

/-- The model that a call makes lists the members of its info, whichever models it made before. -/
theorem makeStadModel_transcribes {depth : Nat}
    {argument : List StadModel × ObjectSerializationInfo} {made : List StadModel × Nat}
    (returned : makeStadModel result depth argument = value made) :
    ∃ model, made.1[made.2]? = some model ∧
      List.Forall₂ Transcribes model.members argument.2.members := by
  revert argument made
  apply unroll_returned
  rintro recurse _ ⟨allModels, info⟩ ⟨allModels', ref⟩ body
  obtain ⟨expanded, annotationInfo, name, run, _, _, appended, placed⟩ :=
    makeStadModelBody_cases body
  refine ⟨⟨name, Utility.toTypeCode (Utility.utf16 name), annotationInfo, expanded.2⟩, ?_,
    foldlM_transcribes run⟩
  rw [appended, placed]
  exact List.getElem?_concat_length

theorem makeStadModel_transcribed {depth : Nat} {argument : List StadModel × ObjectSerializationInfo}
    {made : List StadModel × Nat} (returned : makeStadModel result depth argument = value made)
    (found : getObjectInfo result argument.2.fullName = some argument.2)
    (before : ∀ model ∈ argument.1, Transcribed result model) :
    ∀ model ∈ made.1, Transcribed result model := by
  revert argument made
  apply unroll_returned
  rintro recurse calls ⟨allModels, info⟩ ⟨allModels', ref⟩ body found before
  obtain ⟨expanded, annotationInfo, name, run, readable, named, appended, _⟩ :=
    makeStadModelBody_cases body
  have expands : ∀ model ∈ expanded.1, Transcribed result model := by
    refine members_keep run (fun models => ∀ model ∈ models, Transcribed result model) before ?_
    intro models target made targetFound returned earlier
    exact calls (models, target) made returned targetFound earlier
  rw [appended]
  refine List.forall_mem_append.mpr ⟨expands, List.forall_mem_singleton.mpr ?_⟩
  exact ⟨info, by rw [← named]; exact found, rfl, readable, foldlM_transcribes run⟩

theorem Transcribed.link {models : List StadModel}
    (transcribed : ∀ model ∈ models, Transcribed result model) :
    ∀ model ∈ linkModels models, Transcribed result model := by
  intro linked listed
  obtain ⟨model, member, same⟩ := List.mem_map.mp listed
  obtain ⟨info, found, code, readable, definitions⟩ := transcribed model member
  rw [← same]
  refine ⟨info, found, code, readable, ?_⟩
  rw [List.forall₂_map_left_iff]
  exact definitions.imp fun _ _ same => ⟨same.type, same.name, same.kind, same.annotationInfo⟩

theorem makeRegistry_transcribed {depth : Nat} {registry : StadRegistry}
    (returned : makeRegistry result depth = value registry) :
    ∀ model ∈ registry.models, Transcribed result model := by
  refine foldlM_induction returned
    (fun _ state => ∀ model ∈ state.models, Transcribed result model) (by simp) ?_
  intro done info rest state next _ holds stepped
  rcases makeRegistryRound_cases stepped with ⟨_, same⟩ | ⟨_, final, run, same⟩
  · rw [same]
    exact holds
  · rw [same]
    refine Transcribed.link ?_
    refine foldlM_induction run
      (fun _ state => ∀ model ∈ state.allModels, Transcribed result model) holds ?_
    intro done member rest state next _ models stepped
    obtain ⟨target, found, ⟨_, same⟩ | ⟨_, made, returned, added, _⟩⟩ :=
      makeDataSetMember_cases stepped
    · rw [same]
      exact models
    · rw [added]
      exact makeStadModel_transcribed returned (getObjectInfo_self found) models

end Stad.StadAnalyzer
