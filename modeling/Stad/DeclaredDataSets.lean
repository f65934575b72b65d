import Stad.DataSetMembers
import Stad.PairedLists

/-!
Which collected types become data sets. The class of an attribute is known by its
full name, and the analyzer only looks for a word in it.
-/

namespace Stad.StadAnalyzer

open Bounded Bounded.Outcome PairedLists

variable {result : TypeCollectorResult}

/-- Reflection and Roslyn write the full name of one class differently. -/
def namesDataSetDefinition (type : Option String) : Bool :=
  type = some "Stad.Annotation.DataSetDefinition" ||
    type = some "global::Stad.Annotation.DataSetDefinition"

def carriesDataSetDefinition (info : ObjectSerializationInfo) : Bool :=
  (info.attributes.getD []).any fun data => namesDataSetDefinition data.type

/-- One data set for each info that carries the class, in the order of the infos. -/
def DeclaredOnly (result : TypeCollectorResult) (registry : StadRegistry) : Prop :=
  registry.dataSets.map (·.name) =
    (result.collectedObjectInfo.filter carriesDataSetDefinition).map (·.fullName)

/-- The word is a part of the name of some attribute class of the info. -/
def MentionsDataSetDefinition (info : ObjectSerializationInfo) : Prop :=
  ∃ data ∈ info.attributes.getD [], ∃ name, data.type = some name ∧
    contains name "DataSetDefinition" = true

theorem contains_of_names {type : Option String} (names : namesDataSetDefinition type = true) :
    ∃ name, type = some name ∧ contains name "DataSetDefinition" = true := by
  rw [namesDataSetDefinition, Bool.or_eq_true, decide_eq_true_eq, decide_eq_true_eq] at names
  rcases names with reflected | displayed
  · exact ⟨_, reflected, by decide⟩
  · exact ⟨_, displayed, by decide⟩

theorem mentions_of_carries {info : ObjectSerializationInfo}
    (carries : carriesDataSetDefinition info = true) : MentionsDataSetDefinition info := by
  obtain ⟨data, listed, names⟩ := List.any_eq_true.mp carries
  exact ⟨data, listed, contains_of_names names⟩

theorem isDataSet_iff {info : ObjectSerializationInfo} {defined : Bool}
    (tested : isDataSet info = .ok defined) :
    defined = true ↔ MentionsDataSetDefinition info := by
  unfold isDataSet at tested
  split at tested
  · rename_i empty
    have none : info.attributes.getD [] = [] := by
      simpa [isDefaultOrEmpty] using empty
    cases tested
    simp [MentionsDataSetDefinition, none]
  · exact anyContaining_iff tested

theorem definesDataSet_iff {depth : Nat} {registry : StadRegistry}
    (returned : makeRegistry result depth = value registry) :
    ∀ info ∈ result.collectedObjectInfo,
      definesDataSet info = true ↔ MentionsDataSetDefinition info := by
  intro info listed
  obtain ⟨state, next, stepped⟩ := foldlM_rounds returned info listed
  rcases makeRegistryRound_cases stepped with ⟨plain, _⟩ | ⟨defined, _⟩
  · rw [definesDataSet, plain]
    exact isDataSet_iff plain
  · rw [definesDataSet, defined]
    exact isDataSet_iff defined

def SameName (_ : List StadModel) (info : ObjectSerializationInfo) (dataSet : DataSetModel) : Prop :=
  dataSet.name = info.fullName

theorem makeRegistry_names {depth : Nat} {registry : StadRegistry}
    (returned : makeRegistry result depth = value registry) :
    registry.dataSets.map (·.name) =
      (result.collectedObjectInfo.filter definesDataSet).map (·.fullName) := by
  have each : List.Forall₂ (SameName registry.models)
      (result.collectedObjectInfo.filter definesDataSet) registry.dataSets :=
    makeRegistry_each returned (fun _ _ _ _ => rfl) fun _ _ _ _ _ same _ => same
  exact map_eq_map each.flip

theorem filter_wider_iff {α β : Type} {items : List α} (key : α → β) {wide narrow : α → Bool}
    (wider : ∀ item ∈ items, narrow item = true → wide item = true) :
    (items.filter wide).map key = (items.filter narrow).map key ↔
      ∀ item ∈ items, wide item = true → narrow item = true := by
  constructor
  · intro same item listed isWide
    have lengths : (items.filter narrow).length = (items.filter wide).length := by
      rw [← List.length_map key, ← same, List.length_map]
    rw [← filter_eq_of_length wider lengths item listed]
    exact isWide
  · intro narrower
    congr 1
    refine List.filter_congr fun item listed => ?_
    exact Bool.eq_iff_iff.mpr ⟨narrower item listed, wider item listed⟩

/-- Only declared types become data sets exactly when the word is never a part of
another name on an undeclared one. -/
theorem makeRegistry_declaredOnly_iff {depth : Nat} {registry : StadRegistry}
    (returned : makeRegistry result depth = value registry) :
    DeclaredOnly result registry ↔ ∀ info ∈ result.collectedObjectInfo,
      MentionsDataSetDefinition info → carriesDataSetDefinition info = true := by
  have defines := definesDataSet_iff returned
  have wider : ∀ info ∈ result.collectedObjectInfo,
      carriesDataSetDefinition info = true → definesDataSet info = true :=
    fun info listed carries => (defines info listed).mpr (mentions_of_carries carries)
  rw [DeclaredOnly, makeRegistry_names returned, filter_wider_iff _ wider]
  constructor
  · intro narrower info listed mentions
    exact narrower info listed ((defines info listed).mpr mentions)
  · intro carries info listed defined
    exact carries info listed ((defines info listed).mp defined)

/-! Three classes, the second of which is not declared as a data set. -/

def attributed (name attributeClass : String) : ObjectSerializationInfo :=
  ⟨"Sample_" ++ name, some ("Sample." ++ name), some "Sample", true, none, [],
    some [⟨some attributeClass, []⟩]⟩

def declaredAround (attributeClass : String) : TypeCollectorResult :=
  ⟨[attributed "Settings" "Stad.Annotation.DataSetDefinition", attributed "Notes" attributeClass,
    attributed "Levels" "Stad.Annotation.DataSetDefinition"], [], []⟩

def settingsAndLevels : StadRegistry :=
  ⟨[], [⟨some "Sample.Settings", [], []⟩, ⟨some "Sample.Levels", [], []⟩]⟩

theorem makeRegistry_declaredAround :
    makeRegistry (declaredAround "System.ObsoleteAttribute") 0 = value settingsAndLevels := by
  rfl

theorem declared_only :
    DeclaredOnly (declaredAround "System.ObsoleteAttribute") settingsAndLevels := by
  refine (makeRegistry_declaredOnly_iff makeRegistry_declaredAround).mpr ?_
  intro info listed mentions
  rcases List.mem_cons.mp listed with rfl | listed
  · decide
  rcases List.mem_cons.mp listed with rfl | listed
  · obtain ⟨data, carried, name, named, mentioned⟩ := mentions
    rw [List.mem_singleton.mp carried] at named
    cases named
    exact absurd mentioned (by decide)
  · rw [List.mem_singleton.mp listed]
    decide

def settingsNotesAndLevels : StadRegistry :=
  ⟨[], [⟨some "Sample.Settings", [], []⟩, ⟨some "Sample.Notes", [], []⟩,
    ⟨some "Sample.Levels", [], []⟩]⟩

theorem notDeclared_dataSet :
    makeRegistry (declaredAround "Sample.NoDataSetDefinitionAttribute") 0 =
        value settingsNotesAndLevels ∧
      ¬DeclaredOnly (declaredAround "Sample.NoDataSetDefinitionAttribute")
        settingsNotesAndLevels := by
  refine ⟨by rfl, fun declared => ?_⟩
  have names : ((declaredAround "Sample.NoDataSetDefinitionAttribute").collectedObjectInfo.filter
      carriesDataSetDefinition).map (·.fullName) =
      [some "Sample.Settings", some "Sample.Levels"] := by decide
  rw [DeclaredOnly, names] at declared
  exact absurd declared (by decide)

end Stad.StadAnalyzer
