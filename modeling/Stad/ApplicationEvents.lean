import Mathlib.Data.List.Range
import Stad.OpeningAssembly

/-!
The setters of `StadApplication` with the subscribers of its event. The value is
stored before the first subscriber is called, so a setter takes effect as a whole
only if it refuses its source or no subscriber throws.
-/

namespace Stad.StadApplication.Events

inductive StadEventType where
  | undefined
  | dataSourceChanged
  | assemblySourceChanged
  | stadRegistryChanged
  deriving DecidableEq, Repr

structure StoredValues (δ α ρ : Type) where
  dataSource : Option δ
  assemblySource : Option α
  stadRegistry : Option ρ
  deriving DecidableEq, Repr

structure ISource (σ : Type) where
  isAvailable : σ → Except Thrown Bool
  toText : σ → String

/-- A subscriber sees the event and the stored values. -/
abbrev Subscriber (δ α ρ : Type) := StadEventType → StoredValues δ α ρ → Except Thrown Unit

abbrev Notification := Nat × StadEventType

structure Called (δ α ρ : Type) where
  stored : StoredValues δ α ρ
  notified : List Notification
  outcome : Except Thrown Unit

variable {δ α ρ σ : Type}

def assertAvailable (sources : ISource σ) (source : Option σ) : Except Thrown Unit :=
  match source with
  | none => .error .nullReference
  | some source => do
    if ← sources.isAvailable source then return ()
    else throw (.exception ("Source not available : " ++ sources.toText source))

def invoke (stored : StoredValues δ α ρ) (type : StadEventType) :
    Nat → List (Subscriber δ α ρ) → List Notification × Except Thrown Unit
  | _, [] => ([], .ok ())
  | place, subscriber :: rest =>
    match subscriber type stored with
    | .error thrown => ([(place, type)], .error thrown)
    | .ok () =>
      let later := invoke stored type (place + 1) rest
      ((place, type) :: later.1, later.2)

def raiseEvent (subscribers : List (Subscriber δ α ρ)) (type : StadEventType)
    (stored : StoredValues δ α ρ) : Called δ α ρ :=
  let invoked := invoke stored type 0 subscribers
  ⟨stored, invoked.1, invoked.2⟩

def setChecked (subscribers : List (Subscriber δ α ρ)) (checked : Except Thrown Unit)
    (type : StadEventType) (before after : StoredValues δ α ρ) : Called δ α ρ :=
  match checked with
  | .error thrown => ⟨before, [], .error thrown⟩
  | .ok () => raiseEvent subscribers type after

def setDataSource (sources : ISource δ) (subscribers : List (Subscriber δ α ρ))
    (stored : StoredValues δ α ρ) (dataSource : Option δ) : Called δ α ρ :=
  setChecked subscribers (assertAvailable sources dataSource) .dataSourceChanged stored
    { stored with dataSource }

def setAssemblySource (sources : ISource α) (subscribers : List (Subscriber δ α ρ))
    (stored : StoredValues δ α ρ) (assemblySource : Option α) : Called δ α ρ :=
  setChecked subscribers (assertAvailable sources assemblySource) .assemblySourceChanged stored
    { stored with assemblySource }

def setStadRegistry (subscribers : List (Subscriber δ α ρ)) (stored : StoredValues δ α ρ)
    (stadRegistry : Option ρ) : Called δ α ρ :=
  setChecked subscribers (.ok ()) .stadRegistryChanged stored { stored with stadRegistry }

inductive SetterCall (δ α ρ : Type) where
  | setDataSource (dataSource : Option δ)
  | setAssemblySource (assemblySource : Option α)
  | setStadRegistry (stadRegistry : Option ρ)
  deriving DecidableEq, Repr

namespace SetterCall

def call (dataSources : ISource δ) (assemblySources : ISource α)
    (subscribers : List (Subscriber δ α ρ)) (stored : StoredValues δ α ρ) :
    SetterCall δ α ρ → Called δ α ρ
  | .setDataSource dataSource => Events.setDataSource dataSources subscribers stored dataSource
  | .setAssemblySource assemblySource =>
    Events.setAssemblySource assemblySources subscribers stored assemblySource
  | .setStadRegistry stadRegistry => Events.setStadRegistry subscribers stored stadRegistry

def eventType : SetterCall δ α ρ → StadEventType
  | .setDataSource _ => .dataSourceChanged
  | .setAssemblySource _ => .assemblySourceChanged
  | .setStadRegistry _ => .stadRegistryChanged

def store (stored : StoredValues δ α ρ) : SetterCall δ α ρ → StoredValues δ α ρ
  | .setDataSource dataSource => { stored with dataSource }
  | .setAssemblySource assemblySource => { stored with assemblySource }
  | .setStadRegistry stadRegistry => { stored with stadRegistry }

/-- The source is null, or not available, or does not answer. -/
def Refused (dataSources : ISource δ) (assemblySources : ISource α) : SetterCall δ α ρ → Prop
  | .setDataSource dataSource => ∀ source ∈ dataSource, dataSources.isAvailable source ≠ .ok true
  | .setAssemblySource assemblySource =>
    ∀ source ∈ assemblySource, assemblySources.isAvailable source ≠ .ok true
  | .setStadRegistry _ => False

end SetterCall

def everyOnce (count : Nat) (type : StadEventType) : List Notification :=
  (List.range count).map fun place => (place, type)

inductive AllOrNothing (count : Nat) (type : StadEventType) (before after : StoredValues δ α ρ)
    (called : Called δ α ρ) : Prop
  | nothing (thrown : Thrown) (throws : called.outcome = .error thrown)
      (unchanged : called.stored = before) (silent : called.notified = [])
  | all (returns : called.outcome = .ok ()) (changed : called.stored = after)
      (once : called.notified.Perm (everyOnce count type))

theorem assertAvailable_ok_iff {sources : ISource σ} {source : Option σ} :
    assertAvailable sources source = .ok () ↔
      ∃ given ∈ source, sources.isAvailable given = .ok true := by
  cases source with
  | none => simp [assertAvailable]
  | some given =>
      cases answered : sources.isAvailable given with
      | error thrown => simp [assertAvailable, answered, bind, Except.bind]
      | ok available =>
          cases available <;> simp [assertAvailable, answered, bind, Except.bind, pure, Except.pure]

theorem assertAvailable_throws_iff {sources : ISource σ} {source : Option σ} :
    (∃ thrown, assertAvailable sources source = .error thrown) ↔
      ∀ given ∈ source, sources.isAvailable given ≠ .ok true := by
  have accepted : assertAvailable sources source = .ok () ↔ _ := assertAvailable_ok_iff
  cases checked : assertAvailable sources source with
  | error thrown =>
      rw [checked] at accepted
      simpa using accepted
  | ok =>
      rw [checked] at accepted
      simpa using accepted

section
variable {stored : StoredValues δ α ρ} {type : StadEventType}

theorem invoke_all {subscribers : List (Subscriber δ α ρ)}
    (quiet : ∀ subscriber ∈ subscribers, subscriber type stored = .ok ()) (place : Nat) :
    invoke stored type place subscribers =
      ((List.range' place subscribers.length).map fun place => (place, type), .ok ()) := by
  induction subscribers generalizing place with
  | nil => rfl
  | cons subscriber rest ih =>
      obtain ⟨here, later⟩ := List.forall_mem_cons.mp quiet
      simp only [invoke, here, ih later, List.length_cons, List.range'_succ, List.map_cons]

theorem invoke_returns {subscribers : List (Subscriber δ α ρ)} {place : Nat}
    (returned : (invoke stored type place subscribers).2 = .ok ()) :
    ∀ subscriber ∈ subscribers, subscriber type stored = .ok () := by
  induction subscribers generalizing place with
  | nil => simp
  | cons subscriber rest ih =>
      simp only [invoke] at returned
      cases here : subscriber type stored with
      | error thrown => simp [here] at returned
      | ok =>
          simp only [here] at returned
          exact List.forall_mem_cons.mpr ⟨here, ih returned⟩

theorem invoke_notifies {subscribers : List (Subscriber δ α ρ)} {place : Nat} {thrown : Thrown}
    (throws : (invoke stored type place subscribers).2 = .error thrown) :
    (invoke stored type place subscribers).1 ≠ [] := by
  cases subscribers with
  | nil => cases throws
  | cons subscriber rest =>
      simp only [invoke]
      cases subscriber type stored with
      | error thrown' => simp
      | ok => simp

end

theorem setChecked_allOrNothing_iff (subscribers : List (Subscriber δ α ρ))
    (checked : Except Thrown Unit) (type : StadEventType) (before after : StoredValues δ α ρ) :
    AllOrNothing subscribers.length type before after
        (setChecked subscribers checked type before after) ↔
      (∃ thrown, checked = .error thrown) ∨
        ∀ subscriber ∈ subscribers, subscriber type after = .ok () := by
  cases checked with
  | error thrown => exact iff_of_true (.nothing thrown rfl rfl rfl) (Or.inl ⟨thrown, rfl⟩)
  | ok =>
      constructor
      · rintro (⟨thrown, throws, _, silent⟩ | ⟨returns, _, _⟩)
        · exact absurd silent (invoke_notifies throws)
        · exact Or.inr (invoke_returns returns)
      · rintro (⟨thrown, impossible⟩ | quiet)
        · cases impossible
        · have invoked := invoke_all quiet 0
          refine .all (congrArg Prod.snd invoked) rfl (List.Perm.of_eq ?_)
          rw [everyOnce, List.range_eq_range']
          exact congrArg Prod.fst invoked

/-- A setter does all or nothing exactly when it refuses what it is given or every
subscriber returns. -/
theorem call_allOrNothing_iff (dataSources : ISource δ) (assemblySources : ISource α)
    (subscribers : List (Subscriber δ α ρ)) (stored : StoredValues δ α ρ)
    (setter : SetterCall δ α ρ) :
    AllOrNothing subscribers.length setter.eventType stored (setter.store stored)
        (setter.call dataSources assemblySources subscribers stored) ↔
      setter.Refused dataSources assemblySources ∨ ∀ subscriber ∈ subscribers,
        subscriber setter.eventType (setter.store stored) = .ok () := by
  cases setter with
  | setDataSource dataSource =>
      rw [SetterCall.Refused, ← assertAvailable_throws_iff]
      exact setChecked_allOrNothing_iff ..
  | setAssemblySource assemblySource =>
      rw [SetterCall.Refused, ← assertAvailable_throws_iff]
      exact setChecked_allOrNothing_iff ..
  | setStadRegistry stadRegistry =>
      have unchecked : (∃ thrown, (.ok () : Except Thrown Unit) = .error thrown) ↔ False := by simp
      rw [SetterCall.Refused, ← unchecked]
      exact setChecked_allOrNothing_iff subscribers (.ok ()) .stadRegistryChanged stored
        { stored with stadRegistry }

/-! A data source that is available, and a subscriber that throws after one that does not. -/

theorem throwingSubscriber_keepsValue :
    let subscribers : List (Subscriber Unit Unit Unit) :=
      [fun _ _ => .ok (), fun _ _ => .error .invalidOperation]
    let called := setDataSource ⟨fun _ => .ok true, fun _ => ""⟩ subscribers ⟨none, none, none⟩
      (some ())
    called = ⟨⟨some (), none, none⟩, [(0, .dataSourceChanged), (1, .dataSourceChanged)],
        .error .invalidOperation⟩ ∧
      ¬AllOrNothing 2 .dataSourceChanged ⟨none, none, none⟩ ⟨some (), none, none⟩ called := by
  refine ⟨rfl, ?_⟩
  rintro (⟨thrown, _, unchanged, _⟩ | ⟨returns, _, _⟩)
  · cases unchanged
  · cases returns

/-! The two values that an opening action sets. -/

def opened (stored : StoredValues δ α ρ) : ApplicationState α ρ :=
  ⟨stored.assemblySource, stored.stadRegistry⟩

/-- The action takes as given how the subscribers return, which is what their list decides. -/
theorem opened_setAssemblySource {sources : ISource α} {assemblySource : α} {isAvailable : Bool}
    (answers : sources.isAvailable assemblySource = .ok isAvailable)
    (named : sources.toText assemblySource = "Stad.Core.Source.Assembly.LocalFileAssemblySource")
    (subscribers : List (Subscriber δ α ρ)) (stored : StoredValues δ α ρ) :
    StadApplication.setAssemblySource (opened stored) assemblySource isAvailable
        (invoke { stored with assemblySource := some assemblySource } .assemblySourceChanged 0
          subscribers).2 =
      (opened (setAssemblySource sources subscribers stored (some assemblySource)).stored,
        (setAssemblySource sources subscribers stored (some assemblySource)).outcome) := by
  cases isAvailable with
  | true =>
      have checked : assertAvailable sources (some assemblySource) = .ok () :=
        assertAvailable_ok_iff.mpr ⟨assemblySource, rfl, answers⟩
      simp only [setAssemblySource, checked, setChecked]
      rfl
  | false =>
      have checked : assertAvailable sources (some assemblySource) = .error (.exception
          "Source not available : Stad.Core.Source.Assembly.LocalFileAssemblySource") := by
        simp only [assertAvailable, answers, named]
        rfl
      simp only [setAssemblySource, checked, setChecked]
      rfl

theorem opened_setStadRegistry (subscribers : List (Subscriber δ α ρ))
    (stored : StoredValues δ α ρ) (stadRegistry : ρ) :
    StadApplication.setStadRegistry (opened stored) stadRegistry
        (invoke { stored with stadRegistry := some stadRegistry } .stadRegistryChanged 0
          subscribers).2 =
      (opened (setStadRegistry subscribers stored (some stadRegistry)).stored,
        (setStadRegistry subscribers stored (some stadRegistry)).outcome) := rfl

end Stad.StadApplication.Events
