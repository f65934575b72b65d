import Stad.AnalyzerCore
import Stad.Descripters
import Stad.DirectoryHistory

/-!
The buttons that open data sources and assemblies, beside the descripters that show what was
opened. The sources are in directories, and what a descripter asks of them never fails, so a
click that comes to a setter gets through it.
-/

namespace Stad

def DataSetModel.toText (model : DataSetModel) : String :=
  "[" ++ model.name.getD "" ++ "|List:" ++ toString model.listModels.length ++ " Single:" ++
    toString model.singleModels.length ++ "]"

def StadRegistry.toText (registry : StadRegistry) : String :=
  String.intercalate "," (registry.dataSets.map DataSetModel.toText)

namespace OpenedView

open Interleaving Descripters StadApplication.Events LocalFileDataSource

def dataSources : ISource LocalFileDataSource where
  isAvailable source := .ok source.isAvailable
  toText _ := "Stad.Core.Source.Data.LocalFileDataSource"

/-- An assembly source in a directory is its path, and always available. -/
def assemblySources : ISource (List Char) where
  isAvailable _ := .ok true
  toText _ := "Stad.Core.Source.Assembly.LocalFileAssemblySource"

def elements (source : LocalFileDataSource) : List String :=
  source.getDataSets.map fun dataSet => String.ofList dataSet.name

def answers : Answers LocalFileDataSource StadRegistry DataSetModel where
  getDataSets source := .ok (elements source)
  registryText := StadRegistry.toText
  dataSets registry := registry.dataSets

abbrev View := ViewState LocalFileDataSource (List Char) StadRegistry DataSetModel

abbrev Deed := Action LocalFileDataSource (List Char) StadRegistry

inductive Party (ι : Type) where
  | openData (click : ι)
  | openAssembly (click : ι)
  | descripter (kind : DescripterKind) (which : ι)
  deriving DecidableEq

/-- A click that catches an exception shows its message. `broken` is one that a setter threw. -/
inductive Phase where
  | idle
  | initializing (rootPath : List Char)
  | makingRegistry
  | refused
  | failed (thrown : Thrown)
  | broken (thrown : Thrown)
  | completed
  deriving DecidableEq, Repr

inductive Event (platform : Platform) (β : Type) where
  | selected (rootPath : List Char)
  | initialized (tree : DirectoryTree platform β)
  | registryMade (outcome : Except Thrown (Option StadRegistry))
  | built

variable {platform : Platform} {β ι : Type}

def setting (view : View) (setter : SetterCall LocalFileDataSource (List Char) StadRegistry)
    (next : Phase) : View × Phase :=
  match call dataSources assemblySources answers view setter with
  | (view, .error thrown) => (view, .broken thrown)
  | (view, .ok ()) => (view, next)

/-- `Button_Click` of `DataSourceCandidate`. -/
def openData (view : View) : Phase → Event platform β → Option (View × Phase)
  | .idle, .selected rootPath => some (view, .initializing rootPath)
  | .initializing rootPath, .initialized tree =>
      match runInitialize tree (.create rootPath) with
      | .error thrown => some (view, .failed thrown)
      | .ok (_, false) => some (view, .refused)
      | .ok (dataSource, true) =>
          some (setting view (.setDataSource (some dataSource)) .completed)
  | _, _ => none

/-- `Button_Click` of `AssemblySourceCandidate`. Its `Initialize` does nothing. -/
def openAssembly (view : View) : Phase → Event platform β → Option (View × Phase)
  | .idle, .selected rootPath => some (view, .initializing rootPath)
  | .initializing rootPath, .initialized _ =>
      some (setting view (.setAssemblySource (some rootPath)) .makingRegistry)
  | .makingRegistry, .registryMade outcome =>
      match outcome with
      | .error thrown => some (view, .failed thrown)
      | .ok none => some (view, .refused)
      | .ok (some stadRegistry) =>
          some (setting view (.setStadRegistry (some stadRegistry)) .completed)
  | _, _ => none

def build (kind : DescripterKind) (view : View) : Phase → Event platform β → Option (View × Phase)
  | .idle, .built =>
      some ({ view with descripters := view.descripters ++ [kind.built] }, .completed)
  | _, _ => none

def session (ι : Type) (platform : Platform) (β : Type) :
    System (Party ι) View Phase (Event platform β) where
  initial := ⟨⟨⟨none, none, none⟩, []⟩, fun _ => .idle⟩
  act
    | .openData _ => openData
    | .openAssembly _ => openAssembly
    | .descripter kind _ => fun view => build kind view

/-! What was done, and what it leaves to be seen. -/

def deedOf (party : Party ι) (before after : Phase)
    (stored : StoredValues LocalFileDataSource (List Char) StadRegistry) : Option Deed :=
  match party, before, after with
  | .openData _, .initializing _, .completed => some (.call (.setDataSource stored.dataSource))
  | .openAssembly _, .initializing _, .makingRegistry =>
      some (.call (.setAssemblySource stored.assemblySource))
  | .openAssembly _, .makingRegistry, .completed =>
      some (.call (.setStadRegistry stored.stadRegistry))
  | .descripter kind _, .idle, .completed => some (.build kind)
  | _, _, _ => none

def deed (move : Move (Party ι) View Phase) : Option Deed :=
  deedOf move.actor (move.before.own move.actor) (move.after.own move.actor)
    move.after.shared.stored

def setsDataSource : Deed → Bool
  | .call (.setDataSource _) => true
  | _ => false

def setsStadRegistry : Deed → Bool
  | .call (.setStadRegistry _) => true
  | _ => false

/-- What is stored, if it was set after the descripter was built, and nothing otherwise. -/
def sees (stored : StoredValues LocalFileDataSource (List Char) StadRegistry) :
    DescripterKind × List Deed → Descripter DataSetModel
  | (.dataSource, since) => .dataSource
      ((if since.any setsDataSource then stored.dataSource else none).elim [] elements)
  | (.assemblySource, since) =>
      let stadRegistry := if since.any setsStadRegistry then stored.stadRegistry else none
      .assemblySource (stadRegistry.elim "Header" StadRegistry.toText)
        (stadRegistry.elim [] fun registry => registry.dataSets)

/-- The source was made for a path that was selected, and found its data sets when it was
initialized. -/
def Found (possible : Event platform β → Prop) (source : LocalFileDataSource) : Prop :=
  ∃ rootPath tree, possible (.selected rootPath) ∧ possible (.initialized tree) ∧
    runInitialize tree (.create rootPath) = .ok (source, true)

/-- What is done to the view: nothing is set to null, and a source only that was found. -/
inductive Sound (possible : Event platform β → Prop) : Deed → Prop
  | build (kind : DescripterKind) : Sound possible (.build kind)
  | dataSource {source : LocalFileDataSource} (found : Found possible source) :
      Sound possible (.call (.setDataSource (some source)))
  | assemblySource (rootPath : List Char) :
      Sound possible (.call (.setAssemblySource (some rootPath)))
  | stadRegistry {registry : StadRegistry} (made : possible (.registryMade (.ok (some registry)))) :
      Sound possible (.call (.setStadRegistry (some registry)))

variable {possible : Event platform β → Prop}

theorem initialized_true {tree : DirectoryTree platform β} {rootPath : List Char}
    {source : LocalFileDataSource}
    (initialized : runInitialize tree (.create rootPath) = .ok (source, true)) :
    source.isAvailable = true ∧ source.getDataSets = dataSetsIn tree rootPath ∧
      source.getDataSets ≠ [] := by
  obtain ⟨names, listed, dataSets⟩ := runInitialize_cases initialized
  have found : source.getDataSets = dataSetsIn tree rootPath := by
    rw [getDataSets, dataSets, dataSetsIn, listed, Option.getD_some]
  rw [runInitialize, enumerateDirectories, create, listed] at initialized
  obtain ⟨same, nonempty⟩ := Prod.mk.inj (Except.ok.inj initialized)
  have available : source.isAvailable = true := by
    rw [← same]
    exact nonempty
  have some : (!source.dataSets.isEmpty) = true := by
    rw [← same]
    exact nonempty
  exact ⟨available, found, by simpa [getDataSets] using some⟩

/-! The click on an assembly, as it is without the view. -/

inductive Stands : Phase → OpenPhase StadRegistry → Prop
  | idle : Stands .idle .idle
  | initializing (rootPath : List Char) : Stands (.initializing rootPath) .initializing
  | makingRegistry : Stands .makingRegistry .makingRegistry
  | refused (made : Option StadRegistry) : Stands .refused (.failed made)
  | failed (thrown : Thrown) (made : Option StadRegistry) : Stands (.failed thrown) (.failed made)
  | broken (thrown : Thrown) (made : Option StadRegistry) : Stands (.broken thrown) (.failed made)
  | completed (made : StadRegistry) : Stands .completed (.completed made)

def pair (view : View) : ApplicationState (List Char) StadRegistry :=
  ⟨view.stored.assemblySource, view.stored.stadRegistry⟩

theorem setting_cases (view : View)
    (setter : SetterCall LocalFileDataSource (List Char) StadRegistry)
    (valid : checked dataSources assemblySources setter = .ok ()) (next : Phase) :
    (setting view setter next).1.stored = setter.store view.stored ∧
      ((setting view setter next).2 = next ∨
        ∃ thrown, (setting view setter next).2 = .broken thrown) := by
  rw [setting, call, valid]
  dsimp only
  cases raised : (Descripters.raiseEvent answers setter.eventType (setter.store view.stored)
      view.descripters).2 with
  | error thrown => exact ⟨rfl, Or.inr ⟨thrown, rfl⟩⟩
  | ok => exact ⟨rfl, Or.inl rfl⟩

theorem openAssembly_follows {view : View} {phase : Phase} {happened : Event platform β}
    {acted : View × Phase} {rootPath : List Char} {own : OpenPhase StadRegistry}
    (selected : ∀ other, phase = .initializing other → other = rootPath)
    (stands : Stands phase own) (step : openAssembly view phase happened = some acted) :
    ∃ event own', AssemblySourceCandidate.buttonClick rootPath (pair view) own event =
      some (pair acted.1, own') ∧ Stands acted.2 own' := by
  cases stands with
  | idle =>
      cases happened with
      | selected other =>
          cases step
          exact ⟨.click, .initializing, rfl, .initializing other⟩
      | _ => cases step
  | initializing other =>
      cases happened with
      | initialized tree =>
          cases step
          cases selected other rfl
          obtain ⟨stored, goesOn | ⟨thrown, broken⟩⟩ := setting_cases view
            (.setAssemblySource (some rootPath)) (assertAvailable_ok_iff.mpr ⟨rootPath, rfl, rfl⟩)
            .makingRegistry
          · refine ⟨.initialized (.ok true) true (.ok ()), .makingRegistry, ?_, ?_⟩
            · rw [pair, pair, stored]
              rfl
            · rw [goesOn]
              exact .makingRegistry
          · refine ⟨.initialized (.ok true) true (.error thrown), .failed none, ?_, ?_⟩
            · rw [pair, pair, stored]
              rfl
            · rw [broken]
              exact .broken thrown none
      | _ => cases step
  | makingRegistry =>
      cases happened with
      | registryMade outcome =>
          match outcome with
          | .error thrown =>
              cases step
              exact ⟨.registryMade (.error thrown) (.ok ()), .failed none, rfl, .failed thrown none⟩
          | .ok none =>
              cases step
              exact ⟨.registryMade (.ok none) (.ok ()), .failed none, rfl, .refused none⟩
          | .ok (some made) =>
              cases step
              obtain ⟨stored, goesOn | ⟨thrown, broken⟩⟩ := setting_cases view
                (.setStadRegistry (some made)) rfl .completed
              · refine ⟨.registryMade (.ok (some made)) (.ok ()), .completed made, ?_, ?_⟩
                · rw [pair, pair, stored]
                  rfl
                · rw [goesOn]
                  exact .completed made
              · refine ⟨.registryMade (.ok (some made)) (.error thrown), .failed (some made), ?_, ?_⟩
                · rw [pair, pair, stored]
                  rfl
                · rw [broken]
                  exact .broken thrown (some made)
      | _ => cases step
  | _ => cases happened <;> cases step

/-! A setter that is given something, and a source only that is available, goes through. -/

theorem onStadEvent_ok {stored : StoredValues LocalFileDataSource (List Char) StadRegistry}
    {type : StadEventType} (held : type = .dataSourceChanged → stored.dataSource.isSome)
    (descripter : Descripter DataSetModel) :
    ∃ shown, onStadEvent answers type stored descripter = .ok shown := by
  cases descripter with
  | dataSource shown =>
      rw [onStadEvent]
      by_cases changed : type = .dataSourceChanged
      · obtain ⟨source, isSource⟩ := Option.isSome_iff_exists.mp (held changed)
        rw [if_pos changed, isSource]
        exact ⟨_, rfl⟩
      · rw [if_neg changed]
        exact ⟨_, rfl⟩
  | assemblySource title shown =>
      rw [onStadEvent]
      split
      · split <;> exact ⟨_, rfl⟩
      · exact ⟨_, rfl⟩

theorem raiseEvent_goesThrough {stored : StoredValues LocalFileDataSource (List Char) StadRegistry}
    {type : StadEventType} (held : type = .dataSourceChanged → stored.dataSource.isSome)
    (descripters : List (Descripter DataSetModel)) :
    (Descripters.raiseEvent answers type stored descripters).2 = .ok () := by
  induction descripters with
  | nil => rfl
  | cons descripter rest ih =>
      obtain ⟨shown, answered⟩ := onStadEvent_ok held descripter
      rw [Descripters.raiseEvent, answered]
      exact ih

theorem Found.isAvailable {source : LocalFileDataSource} (found : Found possible source) :
    source.isAvailable = true := by
  obtain ⟨rootPath, tree, _, _, initialized⟩ := found
  exact (initialized_true initialized).1

theorem sound_checked {setter : SetterCall LocalFileDataSource (List Char) StadRegistry}
    (sound : Sound possible (.call setter)) :
    checked dataSources assemblySources setter = .ok () := by
  cases sound with
  | dataSource found =>
      exact assertAvailable_ok_iff.mpr ⟨_, rfl, congrArg Except.ok found.isAvailable⟩
  | assemblySource rootPath => exact assertAvailable_ok_iff.mpr ⟨rootPath, rfl, rfl⟩
  | stadRegistry made => rfl

theorem setting_eq {view : View}
    {setter : SetterCall LocalFileDataSource (List Char) StadRegistry}
    (sound : Sound possible (.call setter)) (next : Phase) :
    setting view setter next =
      (perform dataSources assemblySources answers view (.call setter), next) := by
  have held : setter.eventType = .dataSourceChanged →
      (setter.store view.stored).dataSource.isSome := by
    cases sound with
    | dataSource found => exact fun _ => rfl
    | assemblySource rootPath => exact nofun
    | stadRegistry made => exact nofun
  rw [setting, perform, call, sound_checked sound]
  simp only [raiseEvent_goesThrough held]

theorem perform_stored {view : View}
    {setter : SetterCall LocalFileDataSource (List Char) StadRegistry}
    (sound : Sound possible (.call setter)) :
    (perform dataSources assemblySources answers view (.call setter)).stored =
      setter.store view.stored := by
  rw [perform, call, sound_checked sound]

structure Effect (possible : Event platform β → Prop) (party : Party ι) (view : View)
    (phase : Phase) (acted : View × Phase) : Prop where
  performed : (deedOf party phase acted.2 acted.1.stored = none ∧ acted.1 = view) ∨
    ∃ action, deedOf party phase acted.2 acted.1.stored = some action ∧
      Sound possible action ∧
      acted.1 = perform dataSources assemblySources answers view action
  chosen : ∀ rootPath, acted.2 = .initializing rootPath → possible (.selected rootPath)
  unbroken : ∀ thrown, acted.2 ≠ .broken thrown
  whole : ∀ click, party = .openData click →
    phase ≠ .completed ∧ (acted.1 = view ∨ acted.2 = .completed)

section Steps

variable {party : Party ι} {view : View} {phase : Phase} {happened : Event platform β}
  {acted : View × Phase} {click : ι}

theorem setting_effect {setter : SetterCall LocalFileDataSource (List Char) StadRegistry}
    {next : Phase} (sound : Sound possible (.call setter))
    (done : deedOf party phase next (setter.store view.stored) = some (.call setter))
    (goesOn : next = .makingRegistry ∨ next = .completed)
    (whole : ∀ click, party = .openData click → phase ≠ .completed ∧ next = .completed) :
    Effect possible party view phase (setting view setter next) := by
  rw [setting_eq sound]
  refine ⟨Or.inr ⟨.call setter, ?_, sound, rfl⟩, ?_, ?_,
    fun click isClick => (whole click isClick).imp_right Or.inr⟩
  · rw [perform_stored sound]
    exact done
  · rintro rootPath rfl
    cases goesOn <;> contradiction
  · rintro thrown rfl
    cases goesOn <;> contradiction

theorem openData_effect (allowed : possible happened)
    (chosen : ∀ rootPath, phase = .initializing rootPath → possible (.selected rootPath))
    (step : openData view phase happened = some acted) :
    Effect possible (.openData click) view phase acted := by
  cases phase with
  | idle =>
      cases happened with
      | selected rootPath =>
          cases step
          exact ⟨Or.inl ⟨rfl, rfl⟩, by rintro _ ⟨⟩; exact allowed, by simp, by simp⟩
      | _ => cases step
  | initializing rootPath =>
      cases happened with
      | initialized tree =>
          rw [openData] at step
          cases initialized : runInitialize tree (.create rootPath) with
          | error thrown =>
              rw [initialized] at step
              cases step
              exact ⟨Or.inl ⟨rfl, rfl⟩, by simp, by simp, by simp⟩
          | ok returned =>
              obtain ⟨dataSource, found⟩ := returned
              rw [initialized] at step
              cases found with
              | false =>
                  cases step
                  exact ⟨Or.inl ⟨rfl, rfl⟩, by simp, by simp, by simp⟩
              | true =>
                  cases step
                  have found : Found possible dataSource :=
                    ⟨rootPath, tree, chosen rootPath rfl, allowed, initialized⟩
                  exact setting_effect (.dataSource found) rfl (Or.inr rfl) (by simp)
      | _ => cases step
  | _ => cases happened <;> cases step

theorem openAssembly_effect (allowed : possible happened)
    (step : openAssembly view phase happened = some acted) :
    Effect possible (.openAssembly click) view phase acted := by
  cases phase with
  | idle =>
      cases happened with
      | selected rootPath =>
          cases step
          exact ⟨Or.inl ⟨rfl, rfl⟩, by rintro _ ⟨⟩; exact allowed, by simp, nofun⟩
      | _ => cases step
  | initializing rootPath =>
      cases happened with
      | initialized tree =>
          cases step
          have sound : Sound possible (.call (.setAssemblySource (some rootPath))) :=
            .assemblySource rootPath
          exact setting_effect sound rfl (Or.inl rfl) nofun
      | _ => cases step
  | makingRegistry =>
      cases happened with
      | registryMade outcome =>
          match outcome with
          | .error thrown =>
              cases step
              exact ⟨Or.inl ⟨rfl, rfl⟩, by simp, by simp, nofun⟩
          | .ok none =>
              cases step
              exact ⟨Or.inl ⟨rfl, rfl⟩, by simp, by simp, nofun⟩
          | .ok (some stadRegistry) =>
              cases step
              exact setting_effect (.stadRegistry allowed) rfl (Or.inr rfl) nofun
      | _ => cases step
  | _ => cases happened <;> cases step

theorem build_effect {kind : DescripterKind} (step : build kind view phase happened = some acted) :
    Effect possible (.descripter kind click) view phase acted := by
  cases phase with
  | idle =>
      cases happened with
      | built =>
          cases step
          exact ⟨Or.inr ⟨.build kind, rfl, .build kind, rfl⟩, by simp, by simp, nofun⟩
      | _ => cases step
  | _ => cases happened <;> cases step

theorem session_effect (allowed : possible happened)
    (chosen : ∀ rootPath, phase = .initializing rootPath → possible (.selected rootPath))
    (step : (session ι platform β).act party view phase happened = some acted) :
    Effect possible party view phase acted := by
  cases party with
  | openData click => exact openData_effect allowed chosen step
  | openAssembly click => exact openAssembly_effect allowed step
  | descripter kind which => exact build_effect step

end Steps

/-! The view after a run. -/

theorem getLast_since {α γ : Type} {f : α → Option γ} {since actions : List α}
    (suffix : since <:+ actions) :
    (since.filterMap f).getLast? =
      if since.any (fun action => (f action).isSome) then (actions.filterMap f).getLast?
      else none := by
  obtain ⟨before, rfl⟩ := suffix
  cases some : since.any fun action => (f action).isSome with
  | true =>
      have nonempty : since.filterMap f ≠ [] := by
        obtain ⟨action, listed, isSome⟩ := List.any_eq_true.mp some
        rintro empty
        rw [List.filterMap_eq_nil_iff.mp empty action listed] at isSome
        cases isSome
      rw [if_pos rfl, List.filterMap_append, List.getLast?_append_of_ne_nil _ nonempty]
  | false =>
      have empty : since.filterMap f = [] := by
        simpa [List.any_eq_false] using some
      rw [empty]
      rfl

theorem setsDataSource_eq {action : Deed} (sound : Sound possible action) :
    setsDataSource action = (accepted dataSources action).isSome := by
  cases sound with
  | dataSource found => simp [setsDataSource, accepted, dataSources, found.isAvailable]
  | _ => rfl

theorem setsStadRegistry_eq {action : Deed} (sound : Sound possible action) :
    setsStadRegistry action = (given action).join.isSome := by
  cases sound <;> rfl

theorem given_join {actions : List Deed} (sound : ∀ action ∈ actions, Sound possible action) :
    (actions.filterMap given).getLast?.join =
      (actions.filterMap fun action => (given action).join).getLast? := by
  have same : actions.filterMap given =
      (actions.filterMap fun action => (given action).join).map some := by
    rw [List.map_filterMap]
    apply List.filterMap_congr
    intro action listed
    cases sound action listed <;> rfl
  rw [same, List.getLast?_map]
  cases (actions.filterMap fun action => (given action).join).getLast? <;> rfl

theorem any_eq {actions : List Deed} {p q : Deed → Bool}
    (same : ∀ action ∈ actions, p action = q action) : actions.any p = actions.any q := by
  induction actions with
  | nil => rfl
  | cons action rest ih =>
      rw [List.any_cons, List.any_cons, same action List.mem_cons_self,
        ih fun other listed => same other (List.mem_cons_of_mem _ listed)]

theorem shown_eq {actions since : List Deed} {kind : DescripterKind}
    (sound : ∀ action ∈ actions, Sound possible action) (suffix : since <:+ actions) :
    shown dataSources answers since kind =
      sees (run dataSources assemblySources answers actions).stored (kind, since) := by
  obtain ⟨dataSource, stadRegistry, _⟩ := run_view dataSources assemblySources answers actions
  have later (action : Deed) (listed : action ∈ since) : Sound possible action :=
    sound action (suffix.subset listed)
  cases kind with
  | dataSource =>
      have named : since.filterMap (answered dataSources answers) =
          (since.filterMap (accepted dataSources)).map elements := by
        rw [List.map_filterMap]
        apply List.filterMap_congr
        intro action _
        rw [answered]
        cases accepted dataSources action <;> rfl
      have last := getLast_since (f := accepted dataSources) suffix
      rw [← any_eq fun action listed => setsDataSource_eq (later action listed), ← dataSource] at last
      rw [shown, sees, named, List.getLast?_map, last]
      cases (if since.any setsDataSource = true then
        (run dataSources assemblySources answers actions).stored.dataSource else none) <;> rfl
  | assemblySource =>
      have last := getLast_since (f := fun action => (given action).join) suffix
      rw [← any_eq fun action listed => setsStadRegistry_eq (later action listed),
        ← given_join sound, ← stadRegistry] at last
      rw [shown, sees, given_join later, last]
      rfl

theorem accepted_found {action : Deed} {source : LocalFileDataSource}
    (sound : Sound possible action) (set : accepted dataSources action = some source) :
    Found possible source := by
  cases sound with
  | dataSource found =>
      rw [accepted] at set
      split at set
      · cases set
        exact found
      · cases set
  | _ => cases set

theorem given_made {action : Deed} {registry : StadRegistry} (sound : Sound possible action)
    (set : (given action).join = some registry) :
    possible (.registryMade (.ok (some registry))) := by
  cases sound with
  | stadRegistry made =>
      cases set
      exact made
  | _ => cases set

structure Reached (possible : Event platform β → Prop)
    (moves : List (Move (Party ι) View Phase)) (world : Interleaving.World (Party ι) View Phase) :
    Prop where
  view : world.shared = run dataSources assemblySources answers (moves.filterMap deed)
  sound : ∀ action ∈ moves.filterMap deed, Sound possible action
  chosen : ∀ party rootPath, world.own party = .initializing rootPath →
    possible (.selected rootPath)
  unbroken : ∀ party thrown, world.own party ≠ .broken thrown
  whole : ∀ click, ∀ move ∈ moves, move.actor = .openData click →
    move.after.shared = move.before.shared ∨ world.own (.openData click) = .completed

variable [DecidableEq ι]

theorem reached_step {moves : List (Move (Party ι) View Phase)}
    {world next : Interleaving.World (Party ι) View Phase} {party : Party ι}
    {happened : Event platform β} (reached : Reached possible moves world)
    (allowed : possible happened)
    (stepped : (session ι platform β).step world party happened = some next) :
    Reached possible (moves ++ [⟨party, world, next⟩]) next := by
  obtain ⟨acted, others⟩ := System.step_some stepped
  obtain ⟨view, chosen, unbroken, whole⟩ := session_effect allowed (reached.chosen party) acted
  let move : Move (Party ι) View Phase := ⟨party, world, next⟩
  have view : (deed move = none ∧ next.shared = world.shared) ∨
      ∃ action, deed move = some action ∧ Sound possible action ∧
        next.shared = perform dataSources assemblySources answers world.shared action := view
  have deeds : (moves ++ [move]).filterMap deed = moves.filterMap deed ++ (deed move).toList := by
    rw [List.filterMap_append]
    cases done : deed move <;> simp [done]
  refine ⟨?_, ?_, ?_, ?_, ?_⟩
  · rw [deeds]
    rcases view with ⟨none, same⟩ | ⟨action, done, _, performed⟩
    · rw [none, Option.toList_none, List.append_nil, same]
      exact reached.view
    · rw [done, Option.toList_some, run, List.foldl_append, ← run, ← reached.view]
      exact performed
  · rw [deeds]
    refine List.forall_mem_append.mpr ⟨reached.sound, ?_⟩
    rcases view with ⟨none, _⟩ | ⟨action, done, sound, _⟩
    · rw [none]
      exact nofun
    · rw [done]
      exact List.forall_mem_singleton.mpr sound
  · intro other rootPath initializing
    by_cases own : other = party
    · rw [own] at initializing
      exact chosen rootPath initializing
    · rw [others other own] at initializing
      exact reached.chosen other rootPath initializing
  · intro other thrown broken
    by_cases own : other = party
    · rw [own] at broken
      exact unbroken thrown broken
    · rw [others other own] at broken
      exact reached.unbroken other thrown broken
  · intro click
    by_cases own : .openData click = party
    · obtain ⟨unfinished, kept⟩ := whole click own.symm
      refine List.forall_mem_append.mpr ⟨?_, List.forall_mem_singleton.mpr ?_⟩
      · intro earlier listed isClick
        refine Or.inl ((reached.whole click earlier listed isClick).resolve_right ?_)
        rw [own]
        exact unfinished
      · rw [own]
        exact fun _ => kept
    · rw [others _ own]
      refine List.forall_mem_append.mpr ⟨reached.whole click, List.forall_mem_singleton.mpr ?_⟩
      exact fun isClick => absurd isClick.symm own

theorem run_reached {moves : List (Move (Party ι) View Phase)}
    {world : Interleaving.World (Party ι) View Phase}
    (run : (session ι platform β).Run (fun _ _ happened => possible happened) moves world) :
    Reached possible moves world := by
  refine run.invariant (Reached possible) ⟨rfl, nofun, nofun, nofun, nofun⟩ ?_
  intro moves world party happened next reached allowed stepped
  exact reached_step reached allowed stepped

/-- In every order of clicks and of descripters being built, no setter throws, a click that
opens a data source does so as a whole or leaves the view as it was, and the view shows what is
stored, which is a source with data sets and a registry that was made. -/
theorem view_upToDate {moves : List (Move (Party ι) View Phase)}
    {world : Interleaving.World (Party ι) View Phase}
    (run : (session ι platform β).Run (fun _ _ happened => possible happened) moves world) :
    (∀ party thrown, world.own party ≠ .broken thrown) ∧
    (∀ click, world.own (.openData click) = .completed ∨
      ∀ move ∈ moves, move.actor = .openData click → move.after.shared = move.before.shared) ∧
    world.shared.descripters = (built (moves.filterMap deed)).map (sees world.shared.stored) ∧
    (∀ source, world.shared.stored.dataSource = some source → ∃ rootPath tree,
      possible (.selected rootPath) ∧ possible (.initialized tree) ∧
        source.getDataSets = dataSetsIn tree rootPath ∧ source.getDataSets ≠ []) ∧
    ∀ registry, world.shared.stored.stadRegistry = some registry →
      possible (.registryMade (.ok (some registry))) := by
  have reached := run_reached run
  obtain ⟨dataSource, stadRegistry, descripters⟩ :=
    run_view dataSources assemblySources answers (moves.filterMap deed)
  rw [← reached.view] at dataSource stadRegistry descripters
  refine ⟨reached.unbroken, ?_, ?_, ?_, ?_⟩
  · intro click
    by_cases finished : world.own (.openData click) = .completed
    · exact Or.inl finished
    · exact Or.inr fun move listed isClick =>
        (reached.whole click move listed isClick).resolve_right finished
  · rw [descripters]
    apply List.map_congr_left
    rintro ⟨kind, since⟩ listed
    rw [reached.view]
    exact shown_eq reached.sound (since_suffix listed)
  · intro source stored
    rw [dataSource] at stored
    obtain ⟨action, done, set⟩ := List.mem_filterMap.mp (List.mem_of_getLast? stored)
    obtain ⟨rootPath, tree, selected, happened, initialized⟩ :=
      accepted_found (reached.sound action done) set
    exact ⟨rootPath, tree, selected, happened, (initialized_true initialized).2⟩
  · intro registry stored
    rw [stadRegistry, given_join reached.sound] at stored
    obtain ⟨action, done, set⟩ := List.mem_filterMap.mp (List.mem_of_getLast? stored)
    exact given_made (reached.sound action done) set

/-! The second click selects a directory that is not there, and the second descripter is built
after the source was set. -/

theorem commonTree_upToDate :
    ∃ (moves : List (Move (Party Nat) View Phase))
      (world : Interleaving.World (Party Nat) View Phase),
      world.own (.openData 1) = .failed (.exception "Could not find a part of the path") ∧
      world.shared.descripters = [.dataSource ["Common"], .dataSource []] ∧
      (∀ party thrown, world.own party ≠ .broken thrown) ∧
      world.shared.descripters = (built (moves.filterMap deed)).map (sees world.shared.stored) := by
  let clicks := session Nat .unix (List DataSetItem)
  have shown : clicks.FreeRun _ _ := .step .initial trivial
    (show clicks.step _ (.descripter .dataSource 0) .built = some _ from rfl)
  have selected : clicks.FreeRun _ _ := .step shown trivial
    (show clicks.step _ (.openData 0) (.selected "Data".toList) = some _ from rfl)
  have misplaced : clicks.FreeRun _ _ := .step selected trivial
    (show clicks.step _ (.openData 1) (.selected "Date".toList) = some _ from rfl)
  have opened : clicks.FreeRun _ _ := .step misplaced trivial
    (show clicks.step _ (.openData 0) (.initialized commonTree) = some _ from rfl)
  have shownLate : clicks.FreeRun _ _ := .step opened trivial
    (show clicks.step _ (.descripter .dataSource 1) .built = some _ from rfl)
  have missed : clicks.FreeRun _ _ := .step shownLate trivial
    (show clicks.step _ (.openData 1) (.initialized commonTree) = some _ from rfl)
  have upToDate := view_upToDate missed
  exact ⟨_, _, rfl, rfl, upToDate.1, upToDate.2.2.1⟩

end OpenedView

end Stad
