import Stad.DataSetMembers
import Stad.RuntimeTypes

/-!
How the members of a data set are divided into list models and single models.
The division is made on the full name of the member's type, so it is the right
one as long as no other name mentions the name of the collection.
-/

namespace Stad.StadAnalyzer

open Bounded Bounded.Outcome RuntimeType WordSearch

variable {result : TypeCollectorResult}

/-- The models of the members, divided into lists and singles, in member order. -/
def SplitByKind (result : TypeCollectorResult) (depth : Nat) (allModels : List StadModel)
    (members : List MemberSerializationInfo) (kinds : List Bool) (dataSet : DataSetModel) : Prop :=
  ∃ refs last, Expands result depth allModels members refs last ∧
    dataSet.listModels = pick kinds refs true ∧ dataSet.singleModels = pick kinds refs false

def stadKeyValueCollection : Declaration where
  assembly := "Stad, Version=1.0.0.0, Culture=neutral, PublicKeyToken=null"
  nameSpace := some "Stad.Container"
  path := [("StadKeyValueCollection", 1)]

def isStadKeyValueCollection : RuntimeType → Bool
  | .declared declaration _ => declaration = stadKeyValueCollection
  | _ => false

theorem pick_injective {kinds texts : List Bool} {refs : List Nat} (unique : refs.Nodup)
    (kindsLength : kinds.length = refs.length) (textsLength : texts.length = refs.length)
    (same : pick kinds refs true = pick texts refs true) : kinds = texts := by
  induction refs generalizing kinds texts with
  | nil =>
      rw [List.length_nil, List.length_eq_zero_iff] at kindsLength textsLength
      rw [kindsLength, textsLength]
  | cons ref refs ih =>
      obtain ⟨kind, kinds, rfl⟩ := List.exists_cons_of_length_eq_add_one kindsLength
      obtain ⟨text, texts, rfl⟩ := List.exists_cons_of_length_eq_add_one textsLength
      simp only [List.length_cons, Nat.add_right_cancel_iff] at kindsLength textsLength
      obtain ⟨absent, unique⟩ := List.nodup_cons.mp unique
      rw [pick_cons, pick_cons] at same
      cases kind with
      | true =>
          cases text with
          | true =>
              simp only [if_true, List.cons.injEq, true_and] at same
              rw [ih unique kindsLength textsLength same]
          | false =>
              simp only [if_true, Bool.false_eq_true, if_false] at same
              have listed : ref ∈ pick texts refs true := by
                rw [← same]
                exact List.mem_cons_self
              exact absurd (pick_subset texts refs true ref listed) absent
      | false =>
          cases text with
          | true =>
              simp only [if_true, Bool.false_eq_true, if_false] at same
              have listed : ref ∈ pick kinds refs true := by
                rw [same]
                exact List.mem_cons_self
              exact absurd (pick_subset kinds refs true ref listed) absent
          | false =>
              simp only [Bool.false_eq_true, if_false] at same
              rw [ih unique kindsLength textsLength same]

theorem splitByKind_iff {depth : Nat} {allModels final : List StadModel}
    {info : ObjectSerializationInfo} {dataSet : DataSetModel} {kinds : List Bool}
    (length : kinds.length = info.members.length)
    (returned : makeDataSetModel result depth allModels info = value (final, dataSet)) :
    SplitByKind result depth allModels info.members kinds dataSet ↔
      (∀ member ∈ info.members, isExpanded result member = true) ∧
        kinds = info.members.map namesCollection := by
  obtain ⟨state, run, _, made⟩ := makeDataSetModel_cases returned
  obtain ⟨refs, expands, lists, singles⟩ := dataSetMembers_expand run
  simp only [List.nil_append] at lists singles
  constructor
  · rintro ⟨refs', last, expands', lists', singles'⟩
    rw [made] at lists' singles'
    simp only [lists, singles] at lists' singles'
    have told : ((info.members.filter (isExpanded result)).map namesCollection).length =
        refs.length := by
      rw [List.length_map, expands.length]
    have given : kinds.length = refs'.length := by
      rw [length, expands'.length]
    have placed := pick_perm told
    have placed' := pick_perm given
    rw [lists', singles'] at placed
    have counted := (placed'.symm.trans placed).length_eq
    rw [expands.length, expands'.length] at counted
    have all : info.members.filter (isExpanded result) = info.members :=
      List.filter_eq_self.mpr (List.length_filter_eq_length_iff.mp counted.symm)
    rw [all] at expands lists'
    obtain ⟨same, _⟩ := expands.functional expands'
    rw [same] at lists'
    have unique : refs'.Nodup :=
      expands'.increasing.2.imp fun below => Nat.ne_of_lt below
    refine ⟨List.filter_eq_self.mp all, ?_⟩
    refine (pick_injective unique ?_ given lists').symm
    rw [List.length_map, expands'.length]
  · rintro ⟨all, same⟩
    rw [List.filter_eq_self.mpr all] at expands lists singles
    refine ⟨refs, state.allModels, expands, ?_, ?_⟩
    · rw [made, same]
      exact lists
    · rw [made, same]
      exact singles

theorem collection_alphabetic : Alphabetic "StadKeyValueCollection" :=
  Word.of_all (by decide) rfl

theorem kind_told_iff {type : RuntimeType} {member : MemberSerializationInfo}
    (typed : member.type = type.fullName) (named : member.type ≠ none) :
    isStadKeyValueCollection type = namesCollection member ↔
      (isStadKeyValueCollection type = false → ¬Mentions "StadKeyValueCollection" type) := by
  obtain ⟨name, named⟩ := Option.ne_none_iff_exists'.mp named
  have mentions := contains_fullName_iff collection_alphabetic type (typed.symm.trans named)
  have told : namesCollection member = true ↔ Mentions "StadKeyValueCollection" type := by
    rw [namesCollection, named, Option.getD_some]
    exact mentions
  cases kind : isStadKeyValueCollection type with
  | true =>
      have own : Mentions "StadKeyValueCollection" type := by
        cases type with
        | declared declaration arguments =>
            simp only [isStadKeyValueCollection, decide_eq_true_eq] at kind
            subst kind
            have listed : ("StadKeyValueCollection", 1) ∈ stadKeyValueCollection.path :=
              List.mem_cons_self
            exact Mentions.name listed (by decide)
        | _ => cases kind
      simp [told.mpr own]
  | false =>
      rw [← told]
      cases namesCollection member <;> simp

theorem kinds_told_iff {types : List RuntimeType} {members : List MemberSerializationInfo}
    (typed : List.Forall₂ (fun member type => member.type = type.fullName) members types)
    (named : ∀ member ∈ members, member.type ≠ none) :
    types.map isStadKeyValueCollection = members.map namesCollection ↔
      ∀ type ∈ types, isStadKeyValueCollection type = false →
        ¬Mentions "StadKeyValueCollection" type := by
  induction typed with
  | nil => simp
  | cons here _ ih =>
      obtain ⟨namedHere, namedRest⟩ := List.forall_mem_cons.mp named
      rw [List.map_cons, List.map_cons, List.cons.injEq, List.forall_mem_cons,
        kind_told_iff here namedHere, ih namedRest]

/-- The members of a data set are divided by what they are exactly when no type
of a member has an attribute that looks like `IgnoreMember`, and no type that is
not a collection itself mentions the name of the collection anywhere. -/
theorem makeDataSetModel_splitByKind_iff {depth : Nat} {allModels final : List StadModel}
    {info : ObjectSerializationInfo} {dataSet : DataSetModel} {types : List RuntimeType}
    (returned : makeDataSetModel result depth allModels info = value (final, dataSet))
    (typed : List.Forall₂ (fun member type => member.type = type.fullName) info.members types) :
    SplitByKind result depth allModels info.members (types.map isStadKeyValueCollection) dataSet ↔
      (∀ member ∈ info.members, TypeCarriesNone result "IgnoreMemberAttribute" member) ∧
        ∀ type ∈ types, isStadKeyValueCollection type = false →
          ¬Mentions "StadKeyValueCollection" type := by
  obtain ⟨state, run, _, _⟩ := makeDataSetModel_cases returned
  have length : (types.map isStadKeyValueCollection).length = info.members.length := by
    rw [List.length_map, typed.length_eq]
  have expanded : (∀ member ∈ info.members, isExpanded result member = true) ↔
      ∀ member ∈ info.members, TypeCarriesNone result "IgnoreMemberAttribute" member :=
    forall₂_congr (isExpanded_iff run)
  rw [splitByKind_iff length returned, ← expanded]
  refine and_congr_right fun all => kinds_told_iff typed ?_
  obtain ⟨refs, expands, _⟩ := dataSetMembers_expand run
  rw [List.filter_eq_self.mpr all] at expands
  exact expands.named

/-! A data set with a `Leaf` and a `StadKeyValueCollection<Leaf>`, and one with a member of
`class StadKeyValueCollectionSettings {}`. -/

def sampleAssembly : String := "Sample, Version=1.0.0.0, Culture=neutral, PublicKeyToken=null"

def sampleType (name : String) : RuntimeType :=
  .declared ⟨sampleAssembly, some "Sample", [(name, 0)]⟩ []

def emptyInfo (name : String) : ObjectSerializationInfo :=
  ⟨"Sample_" ++ name, some ("Sample." ++ name), some "Sample", true, none, [], some []⟩

def memberOf (name : String) : MemberSerializationInfo :=
  ⟨true, false, true, true, some ("Sample." ++ name), "Value", name, none⟩

def dataSetOf (name : String) : ObjectSerializationInfo :=
  ⟨"Sample_Tree", some "Sample.Tree", some "Sample", true, none, [memberOf name], some []⟩

def oneMember (name : String) : TypeCollectorResult := ⟨[emptyInfo name, dataSetOf name], [], []⟩

def emptyModel (name : String) : StadModel :=
  ⟨"Sample." ++ name, Utility.toTypeCode (Utility.utf16 ("Sample." ++ name)), ⟨none⟩, []⟩

def leafTable : RuntimeType := .declared stadKeyValueCollection [sampleType "Leaf"]

def tableInfo : ObjectSerializationInfo :=
  ⟨"Stad_Container_StadKeyValueCollection`1", leafTable.fullName, some "Stad.Container", true, none,
    [⟨true, false, false, true, some "Sample.Leaf", "Item", "Leaf", some []⟩],
    some [⟨some "Utf8Json.JsonFormatterAttribute",
      [.type (some "Stad.Container.StadKeyValueCollectionJsonFormatter`1"), .null]⟩]⟩

def leafAndTable : List MemberSerializationInfo :=
  [memberOf "Leaf", ⟨true, false, true, true, leafTable.fullName, "Table",
    "StadKeyValueCollection", some []⟩]

def forest : TypeCollectorResult :=
  ⟨[emptyInfo "Leaf", { dataSetOf "Leaf" with members := leafAndTable }], [], [tableInfo]⟩

theorem leaf_mentions_none : ¬Mentions "StadKeyValueCollection" (sampleType "Leaf") := by
  intro mentions
  cases mentions with
  | nameSpace named mentioned =>
      cases named
      exact absurd mentioned (by decide)
  | name listed mentioned =>
      rw [List.mem_singleton.mp listed] at mentioned
      exact absurd mentioned (by decide)
  | argument listed _ => cases listed
  | argumentAssembly listed _ => cases listed

theorem leafAndTable_unmarked :
    ∀ member ∈ leafAndTable, TypeCarriesNone forest "IgnoreMemberAttribute" member := by
  rintro member listed info found data carried name named
  have listed : member = memberOf "Leaf" ∨
      member = ⟨true, false, true, true, leafTable.fullName, "Table", "StadKeyValueCollection",
        some []⟩ := by
    simpa [leafAndTable] using listed
  rcases listed with rfl | rfl
  · obtain rfl : emptyInfo "Leaf" = info := Option.some.inj found
    cases carried
  · obtain rfl : tableInfo = info := Option.some.inj found
    rw [List.mem_singleton.mp carried] at named
    cases named
    decide

set_option maxRecDepth 2000 in
theorem forest_splitByKind :
    SplitByKind forest 2 [] leafAndTable [false, true] ⟨some "Sample.Tree", [1], [0]⟩ := by
  obtain ⟨final, returned⟩ : ∃ final, makeDataSetModel forest 2 []
      { dataSetOf "Leaf" with members := leafAndTable } =
        value (final, ⟨some "Sample.Tree", [1], [0]⟩) := ⟨_, rfl⟩
  have typed : List.Forall₂ (fun member type => member.type = type.fullName) leafAndTable
      [sampleType "Leaf", leafTable] :=
    .cons (by rfl) (.cons (by rfl) .nil)
  refine (makeDataSetModel_splitByKind_iff returned typed).mpr ⟨leafAndTable_unmarked, ?_⟩
  intro type listed single
  rcases List.mem_cons.mp listed with rfl | listed
  · exact leaf_mentions_none
  · rw [List.mem_singleton.mp listed] at single
    cases single

theorem settings_in_listModels :
    makeDataSetModel (oneMember "StadKeyValueCollectionSettings") 1 []
        (dataSetOf "StadKeyValueCollectionSettings") =
      value ([emptyModel "StadKeyValueCollectionSettings"], ⟨some "Sample.Tree", [0], []⟩) ∧
    (∀ info ∈ (oneMember "StadKeyValueCollectionSettings").collectedObjectInfo,
      info.attributes = some []) ∧
    (memberOf "StadKeyValueCollectionSettings").type =
      (sampleType "StadKeyValueCollectionSettings").fullName ∧
    ¬SplitByKind (oneMember "StadKeyValueCollectionSettings") 1 []
      [memberOf "StadKeyValueCollectionSettings"]
      ([sampleType "StadKeyValueCollectionSettings"].map isStadKeyValueCollection)
      ⟨some "Sample.Tree", [0], []⟩ := by
  refine ⟨by rfl, by decide, by rfl, ?_⟩
  rintro ⟨refs, last, _, lists, _⟩
  have kinds : [sampleType "StadKeyValueCollectionSettings"].map isStadKeyValueCollection = [false] := by
    decide
  have none : pick [false] refs true = [] := by
    cases refs <;> rfl
  rw [kinds, none] at lists
  cases lists

end Stad.StadAnalyzer
