import Stad.AnnotationCore
import Stad.Interleaving

/-!
Calls of `StadSettings.Initialize`, any number of them and in any order. The first to
exchange the flag registers the resolvers, and every other call takes the raised flag
for the finished registration.
-/

namespace Stad.StadSettings

open Interleaving

structure SettingsState where
  initStateUnsafe : Int64
  installed : Bool
  deriving DecidableEq, Repr

inductive CallPhase where
  | idle
  | registering
  | returned
  | failed (thrown : Thrown)
  deriving DecidableEq, Repr

inductive CallEvent where
  | exchange
  | registered (outcome : Except Thrown Unit)

/-- `RegisterAndSetAsDefault` installs the resolvers, or throws and installs nothing. -/
def runInitialize (state : SettingsState) : CallPhase → CallEvent → Option (SettingsState × CallPhase)
  | .idle, .exchange =>
    let exchanged := { state with initStateUnsafe := 1 }
    if state.initStateUnsafe = 1 then some (exchanged, .returned) else some (exchanged, .registering)
  | .registering, .registered (.ok ()) => some ({ state with installed := true }, .returned)
  | .registering, .registered (.error thrown) => some (state, .failed thrown)
  | _, _ => none

variable {call : Type}

def settings (call : Type) : System call SettingsState CallPhase CallEvent where
  initial := ⟨⟨0, false⟩, fun _ => .idle⟩
  act _ := runInitialize

abbrev SettingsWorld (call : Type) := World call SettingsState CallPhase

abbrev SettingsMove (call : Type) := Move call SettingsState CallPhase

def ReturnsInstalled (move : SettingsMove call) : Prop :=
  move.after.own move.actor = .returned → move.after.shared.installed = true

def Busy (phase : CallPhase) : Prop := phase = .registering ∨ ∃ thrown, phase = .failed thrown

/-- If the move begins a call, none is registering and none has failed. -/
def Undisputed (move : SettingsMove call) : Prop :=
  move.before.own move.actor = .idle → ∀ other, ¬Busy (move.before.own other)

structure OneRegistration (world : SettingsWorld call) : Prop where
  untouched : world.shared.initStateUnsafe ≠ 1 →
    world.shared.installed = false ∧ ∀ other, world.own other = .idle
  single : ∀ first second, Busy (world.own first) → Busy (world.own second) → first = second
  installed_iff : world.shared.initStateUnsafe = 1 →
    (world.shared.installed = true ↔ ∀ other, ¬Busy (world.own other))

theorem not_busy_idle : ¬Busy .idle := by
  simp [Busy]

theorem not_busy_returned : ¬Busy .returned := by
  simp [Busy]

inductive CallStep (state : SettingsState) : CallPhase → SettingsState → CallPhase → Prop
  | passed (raised : state.initStateUnsafe = 1) : CallStep state .idle state .returned
  | began (lowered : state.initStateUnsafe ≠ 1) :
      CallStep state .idle { state with initStateUnsafe := 1 } .registering
  | installed : CallStep state .registering { state with installed := true } .returned
  | failed (thrown : Thrown) : CallStep state .registering state (.failed thrown)

theorem runInitialize_step {state next : SettingsState} {phase phase' : CallPhase}
    {event : CallEvent} (acted : runInitialize state phase event = some (next, phase')) :
    CallStep state phase next phase' := by
  cases phase with
  | idle =>
      cases event with
      | exchange =>
          simp only [runInitialize] at acted
          split at acted
          · rename_i raised
            cases acted
            have same : { state with initStateUnsafe := 1 } = state := by rw [← raised]
            rw [same]
            exact .passed raised
          · rename_i lowered
            cases acted
            exact .began lowered
      | registered outcome => cases acted
  | registering =>
      cases event with
      | exchange => cases acted
      | registered outcome =>
          cases outcome with
          | ok =>
              cases acted
              exact .installed
          | error thrown =>
              cases acted
              exact .failed thrown
  | returned => cases acted
  | failed thrown => cases acted

section
variable {world next : SettingsWorld call} {actor : call}

theorem busy_iff (others : ∀ other, other ≠ actor → next.own other = world.own other)
    (alike : Busy (next.own actor) ↔ Busy (world.own actor)) (other : call) :
    Busy (next.own other) ↔ Busy (world.own other) := by
  by_cases acting : other = actor
  · rw [acting]
    exact alike
  · rw [others other acting]

theorem OneRegistration.raised (kept : OneRegistration world) (begun : world.own actor ≠ .idle) :
    world.shared.initStateUnsafe = 1 := by
  by_contra lowered
  exact begun ((kept.untouched lowered).2 actor)

theorem OneRegistration.congr (kept : OneRegistration world) (shared : next.shared = world.shared)
    (raised : world.shared.initStateUnsafe = 1)
    (alike : ∀ other, Busy (next.own other) ↔ Busy (world.own other)) : OneRegistration next where
  untouched := by
    intro lowered
    rw [shared] at lowered
    exact absurd raised lowered
  single := by
    intro first second busy busy'
    exact kept.single first second ((alike first).mp busy) ((alike second).mp busy')
  installed_iff := by
    intro _
    rw [shared, kept.installed_iff raised]
    exact forall_congr' fun other => not_congr (alike other).symm

theorem OneRegistration.began (kept : OneRegistration world)
    (lowered : world.shared.initStateUnsafe ≠ 1)
    (shared : next.shared = { world.shared with initStateUnsafe := 1 })
    (registering : next.own actor = .registering)
    (others : ∀ other, other ≠ actor → next.own other = world.own other) :
    OneRegistration next := by
  obtain ⟨uninstalled, idle⟩ := kept.untouched lowered
  have only : ∀ other, Busy (next.own other) → other = actor := by
    intro other busy
    by_contra different
    rw [others other different, idle other] at busy
    exact not_busy_idle busy
  refine ⟨?_, ?_, ?_⟩
  · intro stillLowered
    rw [shared] at stillLowered
    exact absurd rfl stillLowered
  · intro first second busy busy'
    rw [only first busy, only second busy']
  · intro _
    rw [shared]
    constructor
    · intro installed
      rw [uninstalled] at installed
      cases installed
    · intro noneBusy
      exact absurd (Or.inl registering) (noneBusy actor)

theorem OneRegistration.installed (kept : OneRegistration world)
    (registering : world.own actor = .registering)
    (shared : next.shared = { world.shared with installed := true })
    (returned : next.own actor = .returned)
    (others : ∀ other, other ≠ actor → next.own other = world.own other) :
    OneRegistration next := by
  have begun : world.own actor ≠ .idle := by simp [registering]
  have raised := kept.raised begun
  have noneBusy : ∀ other, ¬Busy (next.own other) := by
    intro other busy
    by_cases acting : other = actor
    · rw [acting, returned] at busy
      exact not_busy_returned busy
    · rw [others other acting] at busy
      exact acting (kept.single other actor busy (Or.inl registering))
  refine ⟨?_, ?_, ?_⟩
  · intro lowered
    rw [shared] at lowered
    exact absurd raised lowered
  · intro first second busy _
    exact absurd busy (noneBusy first)
  · intro _
    rw [shared]
    exact iff_of_true rfl noneBusy

theorem oneRegistration_step (kept : OneRegistration world)
    (step : CallStep world.shared (world.own actor) next.shared (next.own actor))
    (others : ∀ other, other ≠ actor → next.own other = world.own other) :
    OneRegistration next := by
  generalize before : world.own actor = phase at step
  generalize after : next.own actor = phase' at step
  generalize shared : next.shared = state at step
  cases step with
  | passed raised =>
      refine kept.congr shared raised (busy_iff others ?_)
      rw [before, after]
      exact iff_of_false not_busy_returned not_busy_idle
  | began lowered => exact kept.began lowered shared after others
  | installed => exact kept.installed before shared after others
  | failed thrown =>
      have begun : world.own actor ≠ .idle := by simp [before]
      refine kept.congr shared (kept.raised begun) (busy_iff others ?_)
      rw [before, after]
      exact iff_of_true (Or.inr ⟨thrown, rfl⟩) (Or.inl rfl)

theorem returnsInstalled_iff (kept : OneRegistration world)
    (step : CallStep world.shared (world.own actor) next.shared (next.own actor)) :
    ReturnsInstalled ⟨actor, world, next⟩ ↔ Undisputed ⟨actor, world, next⟩ := by
  simp only [ReturnsInstalled, Undisputed]
  generalize before : world.own actor = phase at step
  generalize after : next.own actor = phase' at step
  generalize shared : next.shared = state at step
  cases step with
  | passed raised => simpa using kept.installed_iff raised
  | began lowered =>
      obtain ⟨_, idle⟩ := kept.untouched lowered
      simp [idle, not_busy_idle]
  | installed => simp
  | failed thrown => simp

end

variable [DecidableEq call]

theorem run_oneRegistration {moves : List (SettingsMove call)} {world : SettingsWorld call}
    (run : (settings call).FreeRun moves world) :
    OneRegistration world ∧ ∀ move ∈ moves, ReturnsInstalled move ↔ Undisputed move := by
  refine run.invariant (fun moves world => OneRegistration world ∧
    ∀ move ∈ moves, ReturnsInstalled move ↔ Undisputed move) ⟨?_, by simp⟩ ?_
  · refine ⟨fun _ => ⟨rfl, fun _ => rfl⟩, ?_, ?_⟩
    · intro first second busy _
      exact absurd busy not_busy_idle
    · intro raised
      have lowered : (0 : Int64) ≠ 1 := by decide
      exact absurd raised lowered
  · rintro moves world actor event next ⟨kept, earlier⟩ _ stepped
    obtain ⟨acted, others⟩ := System.step_some stepped
    have step := runInitialize_step acted
    refine ⟨oneRegistration_step kept step others, List.forall_mem_append.mpr ⟨earlier, ?_⟩⟩
    exact List.forall_mem_singleton.mpr (returnsInstalled_iff kept step)

/-- In any order of the steps, every call returns with the resolvers installed exactly
when no call begins while another one registers or after one has failed. -/
theorem run_returnsInstalled_iff {moves : List (SettingsMove call)} {world : SettingsWorld call}
    (run : (settings call).FreeRun moves world) :
    (∀ move ∈ moves, ReturnsInstalled move) ↔ ∀ move ∈ moves, Undisputed move :=
  forall₂_congr (run_oneRegistration run).2

/-! One call registers and returns, and another one comes after it. Then the second call
exchanges the flag while the first still registers. -/

theorem second_after_first :
    ∃ moves world, (settings Bool).FreeRun moves world ∧ moves.length = 3 ∧
      ∀ move ∈ moves, ReturnsInstalled move := by
  have began : (settings Bool).FreeRun _ _ :=
    .step .initial trivial (show (settings Bool).step _ true .exchange = some _ from rfl)
  have registered : (settings Bool).FreeRun _ _ :=
    .step began trivial (show (settings Bool).step _ true (.registered (.ok ())) = some _ from rfl)
  have passed : (settings Bool).FreeRun _ _ :=
    .step registered trivial (show (settings Bool).step _ false .exchange = some _ from rfl)
  refine ⟨_, _, passed, rfl, (run_returnsInstalled_iff passed).mpr ?_⟩
  intro move listed
  simp only [List.nil_append, List.cons_append, List.mem_cons, List.not_mem_nil, or_false] at listed
  rcases listed with rfl | rfl | rfl
  · exact fun _ _ => not_busy_idle
  · intro idle
    cases idle
  · intro _ other
    cases other with
    | false => exact not_busy_idle
    | true => exact not_busy_returned

theorem second_overtakes :
    ∃ moves world, (settings Bool).FreeRun moves world ∧
      ¬∀ move ∈ moves, ReturnsInstalled move := by
  have began : (settings Bool).FreeRun _ _ :=
    .step .initial trivial (show (settings Bool).step _ true .exchange = some _ from rfl)
  have passed : (settings Bool).FreeRun _ _ :=
    .step began trivial (show (settings Bool).step _ false .exchange = some _ from rfl)
  refine ⟨_, _, passed, fun returns => ?_⟩
  have installed := returns _ (List.mem_append_right _ (List.mem_singleton_self _)) rfl
  cases installed

end Stad.StadSettings
