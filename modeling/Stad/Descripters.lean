import Mathlib.Data.List.Induction
import Stad.ApplicationEvents

/-!
The descripters of the WPF view, which show the data source and the registry. They subscribe
when they are built, are told of changes only, and never unsubscribe, so what one shows goes
by the changes since it was built.
-/

namespace Stad.Descripters

open StadApplication.Events

structure Answers (δ ρ μ : Type) where
  getDataSets : δ → Except Thrown (List String)
  registryText : ρ → String
  dataSets : ρ → List μ

inductive Descripter (μ : Type) where
  | dataSource (dataSetElements : List String)
  | assemblySource (title : String) (dataSetElements : List μ)
  deriving DecidableEq, Repr

inductive DescripterKind where
  | dataSource
  | assemblySource
  deriving DecidableEq, Repr

variable {δ α ρ μ : Type}

def DescripterKind.built : DescripterKind → Descripter μ
  | .dataSource => .dataSource []
  | .assemblySource => .assemblySource "Header" []

/-- The data sets are there before the old elements go, and without a registry the title stays. -/
def onStadEvent (answers : Answers δ ρ μ) (type : StadEventType) (stored : StoredValues δ α ρ) :
    Descripter μ → Except Thrown (Descripter μ)
  | .dataSource elements =>
      if type = .dataSourceChanged then
        match stored.dataSource with
        | none => throw .nullReference
        | some dataSource => do
            let dataSets ← answers.getDataSets dataSource
            return .dataSource dataSets
      else return .dataSource elements
  | .assemblySource title elements =>
      if type = .stadRegistryChanged then
        match stored.stadRegistry with
        | none => return .assemblySource title []
        | some stadRegistry =>
            return .assemblySource (answers.registryText stadRegistry) (answers.dataSets stadRegistry)
      else return .assemblySource title elements

/-- The event goes to the descripters in the order in which they were built, up to the first
that throws. -/
def raiseEvent (answers : Answers δ ρ μ) (type : StadEventType) (stored : StoredValues δ α ρ) :
    List (Descripter μ) → List (Descripter μ) × Except Thrown Unit
  | [] => ([], .ok ())
  | descripter :: rest =>
      match onStadEvent answers type stored descripter with
      | .error thrown => (descripter :: rest, .error thrown)
      | .ok shown =>
          let later := raiseEvent answers type stored rest
          (shown :: later.1, later.2)

structure ViewState (δ α ρ μ : Type) where
  stored : StoredValues δ α ρ
  descripters : List (Descripter μ)

inductive Action (δ α ρ : Type) where
  | build (kind : DescripterKind)
  | call (setter : SetterCall δ α ρ)

def checked (dataSources : ISource δ) (assemblySources : ISource α) :
    SetterCall δ α ρ → Except Thrown Unit
  | .setDataSource dataSource => assertAvailable dataSources dataSource
  | .setAssemblySource assemblySource => assertAvailable assemblySources assemblySource
  | .setStadRegistry _ => .ok ()

def call (dataSources : ISource δ) (assemblySources : ISource α) (answers : Answers δ ρ μ)
    (state : ViewState δ α ρ μ) (setter : SetterCall δ α ρ) :
    ViewState δ α ρ μ × Except Thrown Unit :=
  match checked dataSources assemblySources setter with
  | .error thrown => (state, .error thrown)
  | .ok () =>
      let stored := setter.store state.stored
      let raised := raiseEvent answers setter.eventType stored state.descripters
      (⟨stored, raised.1⟩, raised.2)

/-- Who calls a setter catches what it throws. -/
def perform (dataSources : ISource δ) (assemblySources : ISource α) (answers : Answers δ ρ μ)
    (state : ViewState δ α ρ μ) : Action δ α ρ → ViewState δ α ρ μ
  | .build kind => { state with descripters := state.descripters ++ [kind.built] }
  | .call setter => (call dataSources assemblySources answers state setter).1

def run (dataSources : ISource δ) (assemblySources : ISource α) (answers : Answers δ ρ μ)
    (actions : List (Action δ α ρ)) : ViewState δ α ρ μ :=
  actions.foldl (perform dataSources assemblySources answers) ⟨⟨none, none, none⟩, []⟩

/-! What the view comes to, by the actions that were done. -/

section History

variable (dataSources : ISource δ) (answers : Answers δ ρ μ)

def accepted : Action δ α ρ → Option δ
  | .call (.setDataSource (some dataSource)) =>
      if dataSources.isAvailable dataSource = .ok true then some dataSource else none
  | _ => none

def answered (action : Action δ α ρ) : Option (List String) :=
  (accepted dataSources action).bind fun dataSource => (answers.getDataSets dataSource).toOption

def given : Action δ α ρ → Option (Option ρ)
  | .call (.setStadRegistry stadRegistry) => some stadRegistry
  | _ => none

def shown (since : List (Action δ α ρ)) : DescripterKind → Descripter μ
  | .dataSource => .dataSource ((since.filterMap (answered dataSources answers)).getLast?.getD [])
  | .assemblySource => .assemblySource
      ((since.filterMap fun action => (given action).join).getLast?.elim "Header"
        answers.registryText)
      ((since.filterMap given).getLast?.join.elim [] answers.dataSets)

def built : List (Action δ α ρ) → List (DescripterKind × List (Action δ α ρ))
  | [] => []
  | .build kind :: rest => (kind, rest) :: built rest
  | .call _ :: rest => built rest

end History

section Run

variable {dataSources : ISource δ} {assemblySources : ISource α} {answers : Answers δ ρ μ}

def subscriber (answers : Answers δ ρ μ) (descripter : Descripter μ) : Subscriber δ α ρ :=
  fun type stored => (onStadEvent answers type stored descripter).map fun _ => ()

theorem raiseEvent_outcome (type : StadEventType) (stored : StoredValues δ α ρ) (place : Nat)
    (descripters : List (Descripter μ)) :
    (raiseEvent answers type stored descripters).2 =
      (invoke stored type place (descripters.map (subscriber answers))).2 := by
  induction descripters generalizing place with
  | nil => rfl
  | cons descripter rest ih =>
      rw [raiseEvent, List.map_cons, invoke]
      cases answer : onStadEvent answers type stored descripter with
      | error thrown => simp [subscriber, answer, Except.map]
      | ok shown => simp [subscriber, answer, Except.map, ih (place + 1)]

theorem call_eq (state : ViewState δ α ρ μ) (setter : SetterCall δ α ρ) :
    (call dataSources assemblySources answers state setter).1.stored =
        (setter.call dataSources assemblySources (state.descripters.map (subscriber answers))
          state.stored).stored ∧
      (call dataSources assemblySources answers state setter).2 =
        (setter.call dataSources assemblySources (state.descripters.map (subscriber answers))
          state.stored).outcome := by
  cases setter with
  | setStadRegistry stadRegistry => exact ⟨rfl, raiseEvent_outcome _ _ 0 _⟩
  | setDataSource dataSource =>
      cases valid : assertAvailable dataSources dataSource with
      | error thrown => simp [call, checked, SetterCall.call, setDataSource, setChecked, valid]
      | ok =>
          simp only [call, checked, SetterCall.call, setDataSource, setChecked, valid]
          exact ⟨rfl, raiseEvent_outcome _ _ 0 _⟩
  | setAssemblySource assemblySource =>
      cases valid : assertAvailable assemblySources assemblySource with
      | error thrown => simp [call, checked, SetterCall.call, setAssemblySource, setChecked, valid]
      | ok =>
          simp only [call, checked, SetterCall.call, setAssemblySource, setChecked, valid]
          exact ⟨rfl, raiseEvent_outcome _ _ 0 _⟩

theorem built_append_call (actions : List (Action δ α ρ)) (setter : SetterCall δ α ρ) :
    built (actions ++ [.call setter]) =
      (built actions).map fun built => (built.1, built.2 ++ [.call setter]) := by
  induction actions with
  | nil => rfl
  | cons action rest ih => cases action <;> simp [built, ih]

theorem built_append_build (actions : List (Action δ α ρ)) (kind : DescripterKind) :
    built (actions ++ [.build kind]) =
      (built actions).map (fun built => (built.1, built.2 ++ [.build kind])) ++ [(kind, [])] := by
  induction actions with
  | nil => rfl
  | cons action rest ih => cases action <;> simp [built, ih]

theorem shown_append_build (since : List (Action δ α ρ)) (kind other : DescripterKind) :
    shown dataSources answers (since ++ [.build kind]) other =
      shown dataSources answers since other := by
  cases other <;> simp [shown, answered, accepted, given]

def told (answers : Answers δ ρ μ) (type : StadEventType) (stored : StoredValues δ α ρ)
    (descripter : Descripter μ) : Descripter μ :=
  (onStadEvent answers type stored descripter).toOption.getD descripter

theorem told_of_throws {type : StadEventType} {stored : StoredValues δ α ρ}
    {descripter : Descripter μ} {thrown : Thrown}
    (throws : onStadEvent answers type stored descripter = .error thrown) (other : Descripter μ) :
    told answers type stored other = other := by
  cases descripter with
  | assemblySource title elements =>
      simp only [onStadEvent] at throws
      split at throws
      · split at throws <;> cases throws
      · cases throws
  | dataSource elements =>
      simp only [onStadEvent] at throws
      split at throws
      · rename_i isDataSource
        cases other with
        | assemblySource title others => simp [told, onStadEvent, isDataSource, pure, Except.pure, Except.toOption]
        | dataSource others =>
            cases held : stored.dataSource with
            | none => simp [told, onStadEvent, isDataSource, held, throw, throwThe, MonadExceptOf.throw, Except.toOption]
            | some dataSource =>
                cases asked : answers.getDataSets dataSource with
                | ok dataSets => simp [held, asked, bind, Except.bind, pure, Except.pure] at throws
                | error other => simp [told, onStadEvent, isDataSource, held, asked, bind, Except.bind, Except.toOption]
      · cases throws

theorem raiseEvent_told (type : StadEventType) (stored : StoredValues δ α ρ)
    (descripters : List (Descripter μ)) :
    (raiseEvent answers type stored descripters).1 = descripters.map (told answers type stored) := by
  induction descripters with
  | nil => rfl
  | cons descripter rest ih =>
      rw [List.map_cons, raiseEvent]
      cases answer : onStadEvent answers type stored descripter with
      | ok shown => simp [told, answer, ih, Except.toOption]
      | error thrown =>
          have same : rest.map (told answers type stored) = rest :=
            (List.map_congr_left fun other _ => told_of_throws answer other).trans (List.map_id rest)
          rw [told_of_throws answer, same]

theorem told_shown {setter : SetterCall δ α ρ}
    (valid : checked dataSources assemblySources setter = .ok ()) (stored : StoredValues δ α ρ)
    (since : List (Action δ α ρ)) (kind : DescripterKind) :
    told answers setter.eventType (setter.store stored) (shown dataSources answers since kind) =
      shown dataSources answers (since ++ [.call setter]) kind := by
  cases setter with
  | setDataSource dataSource =>
      obtain ⟨source, isSource, available⟩ := assertAvailable_ok_iff.mp valid
      rw [Option.mem_def] at isSource
      cases kind with
      | assemblySource =>
          simp [told, onStadEvent, SetterCall.eventType, shown, given, pure, Except.pure,
            Except.toOption]
      | dataSource =>
          cases asked : answers.getDataSets source <;>
            simp [told, onStadEvent, SetterCall.eventType, SetterCall.store, shown, answered,
              accepted, isSource, available, asked, bind, Except.bind, pure, Except.pure,
              Except.toOption]
  | setAssemblySource assemblySource =>
      cases kind <;> simp [told, onStadEvent, SetterCall.eventType, shown, answered, accepted, given,
        pure, Except.pure, Except.toOption]
  | setStadRegistry stadRegistry =>
      cases stadRegistry <;> cases kind <;>
        simp [told, onStadEvent, SetterCall.eventType, SetterCall.store, shown, answered, accepted,
          given, pure, Except.pure, Except.toOption]

theorem refused {setter : SetterCall δ α ρ} {thrown : Thrown}
    (invalid : checked dataSources assemblySources setter = .error thrown) :
    accepted dataSources (.call setter) = none ∧ given (.call setter) = none := by
  cases setter with
  | setDataSource dataSource =>
      have unavailable := assertAvailable_throws_iff.mp ⟨thrown, invalid⟩
      cases dataSource with
      | none => exact ⟨rfl, rfl⟩
      | some source => simp [accepted, given, unavailable source rfl]
  | setAssemblySource assemblySource => exact ⟨rfl, rfl⟩
  | setStadRegistry stadRegistry => cases invalid

theorem shown_append_refused {setter : SetterCall δ α ρ} {thrown : Thrown}
    (invalid : checked dataSources assemblySources setter = .error thrown)
    (since : List (Action δ α ρ)) (kind : DescripterKind) :
    shown dataSources answers (since ++ [.call setter]) kind = shown dataSources answers since kind := by
  obtain ⟨notAccepted, notGiven⟩ := refused invalid
  cases kind <;> simp [shown, answered, notAccepted, notGiven]

theorem stored_append {setter : SetterCall δ α ρ}
    (valid : checked dataSources assemblySources setter = .ok ()) {stored : StoredValues δ α ρ}
    {actions : List (Action δ α ρ)}
    (dataSource : stored.dataSource = (actions.filterMap (accepted dataSources)).getLast?)
    (stadRegistry : stored.stadRegistry = (actions.filterMap given).getLast?.join) :
    (setter.store stored).dataSource =
        ((actions ++ [Action.call setter]).filterMap (accepted dataSources)).getLast? ∧
      (setter.store stored).stadRegistry =
        ((actions ++ [Action.call setter]).filterMap given).getLast?.join := by
  cases setter with
  | setDataSource source =>
      obtain ⟨source, isSource, available⟩ := assertAvailable_ok_iff.mp valid
      rw [Option.mem_def] at isSource
      simp [SetterCall.store, accepted, given, isSource, available, stadRegistry]
  | setAssemblySource assemblySource =>
      simp [SetterCall.store, accepted, given, dataSource, stadRegistry]
  | setStadRegistry registry => simp [SetterCall.store, accepted, given, dataSource]

theorem since_suffix {actions : List (Action δ α ρ)} {kind : DescripterKind}
    {since : List (Action δ α ρ)} (listed : (kind, since) ∈ built actions) : since <:+ actions := by
  induction actions with
  | nil => cases listed
  | cons action rest ih =>
      cases action with
      | call setter => exact (ih listed).trans (List.suffix_cons _ rest)
      | build other =>
          rcases List.mem_cons.mp listed with same | later
          · cases same
            exact List.suffix_cons _ _
          · exact (ih later).trans (List.suffix_cons _ rest)

theorem run_view (dataSources : ISource δ) (assemblySources : ISource α) (answers : Answers δ ρ μ)
    (actions : List (Action δ α ρ)) :
    (run dataSources assemblySources answers actions).stored.dataSource =
        (actions.filterMap (accepted dataSources)).getLast? ∧
      (run dataSources assemblySources answers actions).stored.stadRegistry =
        (actions.filterMap given).getLast?.join ∧
      (run dataSources assemblySources answers actions).descripters =
        (built actions).map fun built => shown dataSources answers built.2 built.1 := by
  induction actions using List.reverseRecOn with
  | nil => exact ⟨rfl, rfl, rfl⟩
  | append_singleton actions action ih =>
      obtain ⟨dataSource, stadRegistry, descripters⟩ := ih
      have last : run dataSources assemblySources answers (actions ++ [action]) =
          perform dataSources assemblySources answers
            (run dataSources assemblySources answers actions) action :=
        List.foldl_append
      rw [last]
      generalize run dataSources assemblySources answers actions = state at *
      cases action with
      | build kind =>
          refine ⟨by simpa [perform, accepted] using dataSource,
            by simpa [perform, given] using stadRegistry, ?_⟩
          rw [perform, built_append_build, List.map_append, List.map_map, descripters]
          simp only [Function.comp_def, shown_append_build]
          cases kind <;> rfl
      | call setter =>
          cases valid : checked dataSources assemblySources setter with
          | error thrown =>
              obtain ⟨notAccepted, notGiven⟩ := refused valid
              have same : perform dataSources assemblySources answers state (.call setter) = state := by
                rw [perform, call, valid]
              rw [same, built_append_call, List.map_map, descripters]
              refine ⟨by simpa [notAccepted] using dataSource, by simpa [notGiven] using stadRegistry, ?_⟩
              simp only [Function.comp_def, shown_append_refused valid]
          | ok =>
              have next : perform dataSources assemblySources answers state (.call setter) =
                  ⟨setter.store state.stored, state.descripters.map
                    (told answers setter.eventType (setter.store state.stored))⟩ := by
                rw [perform, call, valid, ← raiseEvent_told]
              rw [next, built_append_call, List.map_map, descripters, List.map_map]
              obtain ⟨stores, storesRegistry⟩ := stored_append valid dataSource stadRegistry
              exact ⟨stores, storesRegistry, by simp only [Function.comp_def, told_shown valid]⟩

/-- The whole view after any actions: it shows what the setters gave it to show, and a
descripter that was there when the registry was last set shows that registry's data sets. -/
theorem run_shows (dataSources : ISource δ) (assemblySources : ISource α) (answers : Answers δ ρ μ)
    (actions : List (Action δ α ρ)) :
    (run dataSources assemblySources answers actions).stored.dataSource =
        (actions.filterMap (accepted dataSources)).getLast? ∧
      (run dataSources assemblySources answers actions).stored.stadRegistry =
        (actions.filterMap given).getLast?.join ∧
      (run dataSources assemblySources answers actions).descripters =
        ((built actions).map fun built => shown dataSources answers built.2 built.1) ∧
      ∀ since, (.assemblySource, since) ∈ built actions → since.filterMap given ≠ [] →
        ∃ title, shown dataSources answers since .assemblySource = .assemblySource title
          ((run dataSources assemblySources answers actions).stored.stadRegistry.elim []
            answers.dataSets) := by
  obtain ⟨dataSource, stadRegistry, descripters⟩ :=
    run_view dataSources assemblySources answers actions
  refine ⟨dataSource, stadRegistry, descripters, ?_⟩
  intro since listed changed
  obtain ⟨before, whole⟩ := since_suffix listed
  have last : (actions.filterMap given).getLast? = (since.filterMap given).getLast? := by
    rw [← whole, List.filterMap_append, List.getLast?_append_of_ne_nil _ changed]
  rw [stadRegistry, last]
  exact ⟨_, rfl⟩

/-! What was set before a descripter was built is not shown, and a title outlives its registry. -/

example :
    (run ⟨fun _ : Unit => .ok true, fun _ => ""⟩ ⟨fun _ : Unit => .ok true, fun _ => ""⟩
      ⟨fun _ => .ok [], fun text => text, fun text => [text]⟩
      [.build .assemblySource, .call (.setStadRegistry (some "R")), .build .assemblySource,
        .call (.setStadRegistry none), .build .dataSource,
        .call (.setDataSource (some ()))]).descripters =
      [.assemblySource "R" [], .assemblySource "Header" [], .dataSource []] := by
  decide

end Run

end Stad.Descripters
