import Stad.AnnotationCore
import Stad.Interleaving

/-!
The action that opens an assembly, `Button_Click` of `AssemblySourceCandidate`. It
waits for `Initialize` and for `MakeRegistry`, and other actions run meanwhile. Each
action makes a source of its own, so the sources stand for the actions.
-/

namespace Stad

open Interleaving

structure ApplicationState (source registry : Type) where
  assemblySource : Option source
  stadRegistry : Option registry
  deriving DecidableEq, Repr

inductive OpenPhase (registry : Type) where
  | idle
  | initializing
  | makingRegistry
  | failed (made : Option registry)
  | completed (made : registry)
  deriving DecidableEq, Repr

/-- How a step goes on that the code does not decide: `raised` is how the subscribers of
the event that is raised return. -/
inductive OpenEvent (registry : Type) where
  | click
  | initialized (outcome : Except Thrown Bool) (isAvailable : Bool) (raised : Except Thrown Unit)
  | registryMade (outcome : Except Thrown (Option registry)) (raised : Except Thrown Unit)

variable {source registry : Type}

def OpenPhase.made : OpenPhase registry → Option registry
  | failed made => made
  | completed made => some made
  | _ => none

namespace StadApplication

def assertAvailable (isAvailable : Bool) : Except Thrown Unit :=
  if isAvailable then .ok ()
  else .error (.exception
    "Source not available : Stad.Core.Source.Assembly.LocalFileAssemblySource")

/-- The state is changed before the event is raised, so also when a subscriber throws. -/
def setAssemblySource (state : ApplicationState source registry) (assemblySource : source)
    (isAvailable : Bool) (raised : Except Thrown Unit) :
    ApplicationState source registry × Except Thrown Unit :=
  match assertAvailable isAvailable with
  | .error thrown => (state, .error thrown)
  | .ok () => ({ state with assemblySource := some assemblySource }, raised)

def setStadRegistry (state : ApplicationState source registry) (stadRegistry : registry)
    (raised : Except Thrown Unit) : ApplicationState source registry × Except Thrown Unit :=
  ({ state with stadRegistry := some stadRegistry }, raised)

end StadApplication

namespace AssemblySourceCandidate

open StadApplication

def buttonClick (assemblySource : source) (state : ApplicationState source registry) :
    OpenPhase registry → OpenEvent registry →
      Option (ApplicationState source registry × OpenPhase registry)
  | .idle, .click => some (state, .initializing)
  | .initializing, .initialized outcome isAvailable raised =>
    match outcome with
    | .error _ => some (state, .failed none)
    | .ok false => some (state, .failed none)
    | .ok true =>
      match setAssemblySource state assemblySource isAvailable raised with
      | (state, .error _) => some (state, .failed none)
      | (state, .ok ()) => some (state, .makingRegistry)
  | .makingRegistry, .registryMade outcome raised =>
    match outcome with
    | .error _ => some (state, .failed none)
    | .ok none => some (state, .failed none)
    | .ok (some stadRegistry) =>
      match setStadRegistry state stadRegistry raised with
      | (state, .error _) => some (state, .failed (some stadRegistry))
      | (state, .ok ()) => some (state, .completed stadRegistry)
  | _, _ => none

def openings (source registry : Type) :
    System source (ApplicationState source registry) (OpenPhase registry) (OpenEvent registry) where
  initial := ⟨⟨none, none⟩, fun _ => .idle⟩
  act := buttonClick

abbrev Opening (source registry : Type) :=
  World source (ApplicationState source registry) (OpenPhase registry)

abbrev OpeningMove (source registry : Type) :=
  Move source (ApplicationState source registry) (OpenPhase registry)

def NoneInProgress (world : Opening source registry) : Prop :=
  ∀ action, world.own action ≠ .initializing ∧ world.own action ≠ .makingRegistry

def Matched (world : Opening source registry) : Prop :=
  (world.shared.assemblySource = none ∧ world.shared.stadRegistry = none) ∨
    ∃ current made, world.shared.assemblySource = some current ∧
      world.shared.stadRegistry = some made ∧ (world.own current).made = some made

def HasFailed (world : Opening source registry) (action : source) : Prop :=
  ∃ made, world.own action = .failed made

/-- What is required after a run: the pair is matched whenever no action is in
progress, and no move of an action that failed has changed it. -/
def BelongsToSource (moves : List (OpeningMove source registry)) (world : Opening source registry) :
    Prop :=
  (NoneInProgress world → Matched world) ∧
    ∀ move ∈ moves, HasFailed world move.actor → move.before.shared = move.after.shared

/-- The action does not fail once its source is set, and its registry comes while its
source is current or the current source still waits for its own. -/
def Undisturbed (world : Opening source registry) (action : source) : OpenEvent registry → Prop
  | .click => True
  | .initialized outcome isAvailable raised =>
    outcome = .ok true → isAvailable = true → raised = .ok ()
  | .registryMade outcome raised => (∃ made, outcome = .ok (some made)) ∧ raised = .ok () ∧
    ∃ current, world.shared.assemblySource = some current ∧
      (current = action ∨ world.own current = .makingRegistry)

def Settled (world : Opening source registry) : Prop :=
  (world.shared.assemblySource = none ∧ world.shared.stadRegistry = none) ∨
    ∃ current, world.shared.assemblySource = some current ∧
      (world.own current = .makingRegistry ∨
        ∃ made, world.shared.stadRegistry = some made ∧ world.own current = .completed made)

def MovesKept (moves : List (OpeningMove source registry)) (world : Opening source registry) :
    Prop :=
  ∀ move ∈ moves, move.before.shared = move.after.shared ∨
    world.own move.actor = .makingRegistry ∨ ∃ made, world.own move.actor = .completed made

theorem Settled.matched {world : Opening source registry} (settled : Settled world)
    (none : NoneInProgress world) : Matched world := by
  refine settled.imp_right ?_
  rintro ⟨current, isCurrent, waits | ⟨made, set, completed⟩⟩
  · exact absurd waits (none current).2
  · exact ⟨current, made, isCurrent, set, by rw [completed]; rfl⟩

theorem MovesKept.failed {moves : List (OpeningMove source registry)}
    {world : Opening source registry} (kept : MovesKept moves world) :
    ∀ move ∈ moves, HasFailed world move.actor → move.before.shared = move.after.shared := by
  rintro move listed ⟨made, failed⟩
  simpa [failed] using kept move listed

section Steps

variable [DecidableEq source]

theorem undisturbed_cases {world next : Opening source registry} {action : source}
    {happened : OpenEvent registry} (undisturbed : Undisturbed world action happened)
    (stepped : (openings source registry).step world action happened = some next) :
    (next.shared = world.shared ∧ (world.own action = .idle ∨ world.own action = .initializing)) ∨
    (next.shared = { world.shared with assemblySource := some action } ∧
      next.own action = .makingRegistry) ∨
    ∃ made, next.shared = { world.shared with stadRegistry := some made } ∧
      next.own action = .completed made ∧
      ∃ current, world.shared.assemblySource = some current ∧
        (current = action ∨ world.own current = .makingRegistry) := by
  have acted := (System.step_some stepped).1
  simp only [openings] at acted
  generalize world.own action = phase at acted ⊢
  cases phase with
  | idle =>
      cases happened with
      | click =>
          simp only [buttonClick, Option.some.injEq, Prod.mk.injEq] at acted
          exact Or.inl ⟨acted.1.symm, Or.inl rfl⟩
      | _ => simp [buttonClick] at acted
  | initializing =>
      cases happened with
      | initialized outcome isAvailable raised =>
          match outcome, isAvailable with
          | .error _, _ | .ok false, _ | .ok true, false =>
              simp only [buttonClick, setAssemblySource, assertAvailable, Bool.false_eq_true,
                if_false, Option.some.injEq, Prod.mk.injEq] at acted
              exact Or.inl ⟨acted.1.symm, Or.inr rfl⟩
          | .ok true, true =>
              have silent := undisturbed rfl rfl
              subst silent
              simp only [buttonClick, setAssemblySource, assertAvailable, if_true,
                Option.some.injEq, Prod.mk.injEq] at acted
              exact Or.inr (Or.inl ⟨acted.1.symm, acted.2.symm⟩)
      | _ => simp [buttonClick] at acted
  | makingRegistry =>
      cases happened with
      | registryMade outcome raised =>
          obtain ⟨⟨made, returned⟩, silent, waits⟩ := undisturbed
          subst returned silent
          simp only [buttonClick, setStadRegistry, Option.some.injEq, Prod.mk.injEq] at acted
          exact Or.inr (Or.inr ⟨made, acted.1.symm, acted.2.symm, waits⟩)
      | _ => simp [buttonClick] at acted
  | failed made => cases happened <;> simp [buttonClick] at acted
  | completed made => cases happened <;> simp [buttonClick] at acted

theorem settled_step {world next : Opening source registry} {action : source}
    {happened : OpenEvent registry} (settled : Settled world)
    (undisturbed : Undisturbed world action happened)
    (stepped : (openings source registry).step world action happened = some next) :
    Settled next := by
  have others := (System.step_some stepped).2
  rcases undisturbed_cases undisturbed stepped with
    ⟨same, before⟩ | ⟨set, waits⟩ | ⟨made, set, completed, current, isCurrent, waits⟩
  · rw [Settled, same]
    refine settled.imp_right ?_
    rintro ⟨current, isCurrent, progress⟩
    have different : current ≠ action := by
      rintro rfl
      rcases before with before | before <;> simp [before] at progress
    exact ⟨current, isCurrent, by rw [others current different]; exact progress⟩
  · exact Or.inr ⟨action, by rw [set], Or.inl waits⟩
  · refine Or.inr ⟨current, by rw [set]; exact isCurrent, ?_⟩
    by_cases own : current = action
    · exact Or.inr ⟨made, by rw [set], by rw [own]; exact completed⟩
    · rw [others current own]
      exact Or.inl (waits.resolve_left own)

theorem movesKept_step {moves : List (OpeningMove source registry)}
    {world next : Opening source registry} {action : source} {happened : OpenEvent registry}
    (kept : MovesKept moves world) (undisturbed : Undisturbed world action happened)
    (stepped : (openings source registry).step world action happened = some next) :
    MovesKept (moves ++ [⟨action, world, next⟩]) next := by
  have others := (System.step_some stepped).2
  have latest : world.shared = next.shared ∨ next.own action = .makingRegistry ∨
      ∃ made, next.own action = .completed made := by
    rcases undisturbed_cases undisturbed stepped with ⟨same, _⟩ | ⟨_, waits⟩ | ⟨made, _, completed, _⟩
    · exact Or.inl same.symm
    · exact Or.inr (Or.inl waits)
    · exact Or.inr (Or.inr ⟨made, completed⟩)
  refine List.forall_mem_append.mpr ⟨?_, List.forall_mem_singleton.mpr latest⟩
  intro move listed
  by_cases own : move.actor = action
  · rw [own]
    rcases undisturbed_cases undisturbed stepped with
      ⟨_, before⟩ | ⟨_, waits⟩ | ⟨made, _, completed, _⟩
    · left
      have earlier := kept move listed
      rw [own] at earlier
      rcases before with before | before <;> simpa [before] using earlier
    · exact Or.inr (Or.inl waits)
    · exact Or.inr (Or.inr ⟨made, completed⟩)
  · rw [others move.actor own]
    exact kept move listed

/-- After a run of undisturbed steps, in whatever order, the registry belongs to the source. -/
theorem undisturbed_belongsToSource {moves : List (OpeningMove source registry)}
    {world : Opening source registry}
    (run : (openings source registry).Run Undisturbed moves world) :
    BelongsToSource moves world := by
  have invariant : Settled world ∧ MovesKept moves world := by
    refine run.invariant (fun moves world => Settled world ∧ MovesKept moves world)
      ⟨Or.inl ⟨rfl, rfl⟩, by simp [MovesKept]⟩ ?_
    intro moves world action happened next holds undisturbed stepped
    exact ⟨settled_step holds.1 undisturbed stepped, movesKept_step holds.2 undisturbed stepped⟩
  exact ⟨invariant.1.matched, invariant.2.failed⟩

end Steps

/-! The second source is set while the first registry is still being made. Then a directory
with a file that is no assembly, on which `MakeRegistry` throws. -/

theorem overlapping_run :
    ∃ moves world, (openings Nat Nat).Run Undisturbed moves world ∧
      world.shared = ⟨some 1, some 11⟩ := by
  have first : (openings Nat Nat).Run Undisturbed _ _ :=
    .step .initial (show Undisturbed _ 0 .click from trivial) rfl
  have second : (openings Nat Nat).Run Undisturbed _ _ :=
    .step first (show Undisturbed _ 1 .click from trivial) rfl
  have firstSet : (openings Nat Nat).Run Undisturbed _ _ :=
    .step second (show Undisturbed _ 0 (.initialized (.ok true) true (.ok ())) from
      fun _ _ => rfl) rfl
  have secondSet : (openings Nat Nat).Run Undisturbed _ _ :=
    .step firstSet (show Undisturbed _ 1 (.initialized (.ok true) true (.ok ())) from
      fun _ _ => rfl) rfl
  have firstMade : (openings Nat Nat).Run Undisturbed _ _ :=
    .step secondSet (show Undisturbed _ 0 (.registryMade (.ok (some 10)) (.ok ())) from
      ⟨⟨10, rfl⟩, rfl, 1, rfl, Or.inr rfl⟩) rfl
  have secondMade : (openings Nat Nat).Run Undisturbed _ _ :=
    .step firstMade (show Undisturbed _ 1 (.registryMade (.ok (some 11)) (.ok ())) from
      ⟨⟨11, rfl⟩, rfl, 1, rfl, Or.inl rfl⟩) rfl
  exact ⟨_, _, secondMade, rfl⟩

theorem overlapping_belongsToSource :
    ∃ (moves : List (OpeningMove Nat Nat)) (world : Opening Nat Nat),
      world.shared = ⟨some 1, some 11⟩ ∧ BelongsToSource moves world := by
  obtain ⟨moves, world, run, shared⟩ := overlapping_run
  exact ⟨moves, world, shared, undisturbed_belongsToSource run⟩

def AnyStep (_ : Opening source registry) (_ : source) (_ : OpenEvent registry) : Prop := True

theorem failedOpening_disagrees :
    ∃ moves world, (openings Nat Nat).Run AnyStep moves world ∧ NoneInProgress world ∧
      HasFailed world 0 ∧ world.shared = ⟨some 0, none⟩ ∧ ¬Matched world := by
  have clicked : (openings Nat Nat).Run AnyStep _ _ :=
    .step .initial (show AnyStep _ 0 .click from trivial) rfl
  have initialized : (openings Nat Nat).Run AnyStep _ _ :=
    .step clicked (show AnyStep _ 0 (.initialized (.ok true) true (.ok ())) from trivial) rfl
  have failed : (openings Nat Nat).Run AnyStep _ _ :=
    .step initialized (show AnyStep _ 0 (.registryMade (.error (.exception
      "Bad IL format.")) (.ok ())) from trivial) rfl
  refine ⟨_, _, failed, ?_, ⟨none, rfl⟩, rfl, ?_⟩
  · intro action
    by_cases first : action = 0
    · subst first
      exact ⟨by simp, by simp⟩
    · simp [Function.update_of_ne first, openings]
  · rintro (⟨unset, _⟩ | ⟨current, made, _, set, _⟩)
    · cases unset
    · cases set

end AssemblySourceCandidate

end Stad
