import Stad.AnnotationCore
import Stad.Interleaving

/-!
`ServerApplication.Run` beside the handlers of the `Terminate` requests that the server
dispatches. `Run` makes the token and the completion source after it has started the
server, so that a handler may come before them.
-/

namespace Stad

open Interleaving

/-- What `Run` and the handlers share. A token is whether it is cancelled, and a
completion source whether it is completed. -/
structure ServerState where
  started : Bool
  killed : Bool
  terminateToken : Option Bool
  serverTerminateCompletionSource : Option Bool
  deriving DecidableEq, Repr

inductive ServerParty (ρ : Type) where
  | run
  | handler (request : ρ)
  deriving DecidableEq, Repr

inductive ServerPhase where
  | idle
  | started
  | tokenCreated
  | sourceCreated
  | polling
  | killing
  | killed
  | completed
  | dispatched
  | waiting
  | replied
  | failed (thrown : Thrown)
  deriving DecidableEq, Repr

/-- `returned` is how a call into the library comes back. -/
inductive ServerEvent where
  | next
  | returned (outcome : Except Thrown Unit)

namespace ServerApplication

def isServerTerminated (state : ServerState) : Bool :=
  state.serverTerminateCompletionSource.getD false

def run (state : ServerState) : ServerPhase → ServerEvent → Option (ServerState × ServerPhase)
  | .idle, .returned (.ok ()) => some ({ state with started := true }, .started)
  | .idle, .returned (.error thrown) => some (state, .failed thrown)
  | .started, .next => some ({ state with terminateToken := some false }, .tokenCreated)
  | .tokenCreated, .next =>
    some ({ state with serverTerminateCompletionSource := some false }, .sourceCreated)
  | .sourceCreated, .returned (.ok ()) => some (state, .polling)
  | .sourceCreated, .returned (.error thrown) => some (state, .failed thrown)
  | .polling, .next =>
    match state.terminateToken with
    | none => some (state, .failed .nullReference)
    | some false => some (state, .polling)
    | some true => some (state, .killing)
  | .killing, .returned (.ok ()) => some ({ state with killed := true }, .killed)
  | .killing, .returned (.error thrown) => some (state, .failed thrown)
  | .killed, .next =>
    match state.serverTerminateCompletionSource with
    | none => some (state, .failed .nullReference)
    | some true => some (state, .failed .invalidOperation)
    | some false => some ({ state with serverTerminateCompletionSource := some true }, .completed)
  | _, _ => none

end ServerApplication

namespace StadServiceImpl

open ServerApplication

/-- The server dispatches requests from its start until it is killed. -/
def terminate (state : ServerState) : ServerPhase → ServerEvent → Option (ServerState × ServerPhase)
  | .idle, .next => if state.started && !state.killed then some (state, .dispatched) else none
  | .dispatched, .next =>
    match state.terminateToken with
    | none => some (state, .failed .nullReference)
    | some _ => some ({ state with terminateToken := some true }, .waiting)
  | .waiting, .next =>
    if isServerTerminated state then some (state, .replied) else some (state, .waiting)
  | _, _ => none

end StadServiceImpl

namespace ServerApplication

variable {ρ : Type}

def server (ρ : Type) : System (ServerParty ρ) ServerState ServerPhase ServerEvent where
  initial := ⟨⟨false, false, none, none⟩, fun _ => .idle⟩
  act
    | .run => run
    | .handler _ => StadServiceImpl.terminate

abbrev ServerWorld (ρ : Type) := World (ServerParty ρ) ServerState ServerPhase

abbrev ServerMove (ρ : Type) := Move (ServerParty ρ) ServerState ServerPhase

def Answerable [DecidableEq ρ] (world : ServerWorld ρ) (request : ρ) : Prop :=
  ∃ made last, (server ρ).steps world made = some last ∧ last.own (.handler request) = .replied

/-- The request has been dispatched, and its handler neither returns nor throws so far. -/
def Pending (world : ServerWorld ρ) (request : ρ) : Prop :=
  world.own (.handler request) = .dispatched ∨ world.own (.handler request) = .waiting

/-- What is required after a run: no request has failed, none that is pending is lost, and a
reply comes after `KillAsync` only. -/
structure Serves [DecidableEq ρ] (world : ServerWorld ρ) : Prop where
  noneFails : ∀ request thrown, world.own (.handler request) ≠ .failed thrown
  noneLost : ∀ request, Pending world request → Answerable world request
  killedFirst : ∀ request, world.own (.handler request) = .replied → world.shared.killed = true

/-- The handler makes its first step between the start of the server and the next
statement of `Run`. -/
structure Early (move : ServerMove ρ) (request : ρ) : Prop where
  actor : move.actor = .handler request
  first : move.before.own (.handler request) = .dispatched
  justStarted : move.before.own .run = .started

def Timely (move : ServerMove ρ) : Prop := ∀ request, ¬Early move request

/-- `Run` has thrown, in the self test or in `KillAsync`, and a request is still pending. -/
def Abandoned (world : ServerWorld ρ) : Prop :=
  ∃ thrown request, world.own .run = .failed thrown ∧ Pending world request

structure Staged (state : ServerState) (phase : ServerPhase) : Prop where
  ofRun : phase ≠ .dispatched ∧ phase ≠ .waiting ∧ phase ≠ .replied
  unstarted : phase = .idle → state.started = false
  untokened : phase = .idle ∨ phase = .started → state.terminateToken = none
  tokened : state.started = true → phase ≠ .started → state.terminateToken ≠ none
  created : phase = .sourceCreated ∨ phase = .polling ∨ phase = .killing ∨ phase = .killed →
    state.serverTerminateCompletionSource = some false
  killed : phase = .killed ∨ phase = .completed → state.killed = true
  terminated : state.serverTerminateCompletionSource = some true ↔ phase = .completed

structure Handled (state : ServerState) (phase : ServerPhase) : Prop where
  started : phase ≠ .idle → state.started = true
  cancelled : phase = .waiting ∨ phase = .replied → state.terminateToken = some true
  killed : phase = .replied → state.killed = true

structure Grows (before after : ServerState) : Prop where
  started : before.started = true → after.started = true
  cancelled : before.terminateToken = some true → after.terminateToken = some true
  killed : before.killed = true → after.killed = true

theorem Grows.refl (state : ServerState) : Grows state state := ⟨id, id, id⟩

theorem Handled.grow {before after : ServerState} {phase : ServerPhase}
    (handled : Handled before phase) (grows : Grows before after) : Handled after phase where
  started := fun received => grows.started (handled.started received)
  cancelled := fun later => grows.cancelled (handled.cancelled later)
  killed := fun replied => grows.killed (handled.killed replied)

inductive RunStep (state : ServerState) : ServerPhase → ServerState → ServerPhase → Prop
  | start : RunStep state .idle { state with started := true } .started
  | createToken : RunStep state .started { state with terminateToken := some false } .tokenCreated
  | createSource : RunStep state .tokenCreated
      { state with serverTerminateCompletionSource := some false } .sourceCreated
  | selfTest : RunStep state .sourceCreated state .polling
  | poll : RunStep state .polling state .polling
  | stop : RunStep state .polling state .killing
  | kill : RunStep state .killing { state with killed := true } .killed
  | complete : RunStep state .killed
      { state with serverTerminateCompletionSource := some true } .completed
  | fail {phase thrown} : phase ≠ .started → phase ≠ .completed →
      (∀ earlier, phase ≠ .failed earlier) → RunStep state phase state (.failed thrown)

theorem run_step {state next : ServerState} {phase phase' : ServerPhase} {event : ServerEvent}
    (stepped : run state phase event = some (next, phase')) : RunStep state phase next phase' := by
  unfold run at stepped
  split at stepped
  all_goals try split at stepped
  all_goals simp only [Option.some.injEq, Prod.mk.injEq, reduceCtorEq] at stepped
  all_goals obtain ⟨rfl, rfl⟩ := stepped
  all_goals constructor <;> simp

theorem RunStep.not_failed {state next : ServerState} {phase' : ServerPhase} {thrown : Thrown} :
    ¬RunStep state (.failed thrown) next phase' := by
  intro step
  cases step with
  | fail _ _ going => exact going thrown rfl

theorem run_staged {state next : ServerState} {phase phase' : ServerPhase}
    (staged : Staged state phase) (step : RunStep state phase next phase') :
    Staged next phase' ∧ Grows state next := by
  obtain ⟨ofRun, unstarted, untokened, tokened, created, killed, terminated⟩ := staged
  cases step with
  | start =>
      exact ⟨⟨by simp, nofun, fun _ => untokened (by simp), fun _ different => absurd rfl different,
        by simp, by simp, by simpa using terminated⟩, ⟨fun _ => rfl, id, id⟩⟩
  | createToken =>
      refine ⟨⟨by simp, nofun, by simp, by simp, by simp, by simp, by simpa using terminated⟩,
        ⟨id, fun cancelled => ?_, id⟩⟩
      rw [untokened (by simp)] at cancelled
      cases cancelled
  | createSource =>
      exact ⟨⟨by simp, nofun, by simp, fun started _ => tokened started (by simp), fun _ => rfl, by simp,
        by simp⟩, ⟨id, id, id⟩⟩
  | selfTest =>
      exact ⟨⟨by simp, nofun, by simp, fun started _ => tokened started (by simp),
        fun _ => created (by simp), by simp, by simpa using terminated⟩, Grows.refl _⟩
  | poll => exact ⟨⟨ofRun, unstarted, untokened, tokened, created, killed, terminated⟩, Grows.refl _⟩
  | stop =>
      exact ⟨⟨by simp, nofun, by simp, fun started _ => tokened started (by simp),
        fun _ => created (by simp), by simp, by simpa using terminated⟩, Grows.refl _⟩
  | kill =>
      exact ⟨⟨by simp, nofun, by simp, fun started _ => tokened started (by simp),
        fun _ => created (by simp), fun _ => rfl, by simpa using terminated⟩,
        ⟨id, id, fun _ => rfl⟩⟩
  | complete =>
      exact ⟨⟨by simp, nofun, by simp, fun started _ => tokened started (by simp), by simp,
        fun _ => killed (by simp), by simp⟩, ⟨id, id, id⟩⟩
  | fail notStarted notCompleted =>
      refine ⟨⟨by simp, nofun, by simp, fun started _ => tokened started notStarted, by simp, by simp, ?_⟩,
        Grows.refl _⟩
      simpa [terminated] using notCompleted

inductive HandlerStep (state : ServerState) : ServerPhase → ServerState → ServerPhase → Prop
  | dispatch : state.started = true → HandlerStep state .idle state .dispatched
  | fail : state.terminateToken = none →
      HandlerStep state .dispatched state (.failed .nullReference)
  | cancel : state.terminateToken ≠ none →
      HandlerStep state .dispatched { state with terminateToken := some true } .waiting
  | wait : HandlerStep state .waiting state .waiting
  | reply : state.serverTerminateCompletionSource = some true →
      HandlerStep state .waiting state .replied

theorem terminate_step {state next : ServerState} {phase phase' : ServerPhase} {event : ServerEvent}
    (stepped : StadServiceImpl.terminate state phase event = some (next, phase')) :
    HandlerStep state phase next phase' := by
  unfold StadServiceImpl.terminate at stepped
  split at stepped
  · split at stepped
    · rename_i accepts
      simp only [Option.some.injEq, Prod.mk.injEq] at stepped
      obtain ⟨rfl, rfl⟩ := stepped
      rw [Bool.and_eq_true] at accepts
      exact .dispatch accepts.1
    · cases stepped
  · split at stepped
    · rename_i untokened
      simp only [Option.some.injEq, Prod.mk.injEq] at stepped
      obtain ⟨rfl, rfl⟩ := stepped
      exact .fail untokened
    · rename_i cancelled tokened
      simp only [Option.some.injEq, Prod.mk.injEq] at stepped
      obtain ⟨rfl, rfl⟩ := stepped
      exact .cancel (by simp [tokened])
  · split at stepped
    · rename_i terminated
      simp only [Option.some.injEq, Prod.mk.injEq] at stepped
      obtain ⟨rfl, rfl⟩ := stepped
      refine .reply ?_
      simpa [isServerTerminated, Option.getD_eq_iff] using terminated
    · simp only [Option.some.injEq, Prod.mk.injEq] at stepped
      obtain ⟨rfl, rfl⟩ := stepped
      exact .wait
  · cases stepped

theorem HandlerStep.sameSource {state next : ServerState} {phase phase' : ServerPhase}
    (step : HandlerStep state phase next phase') :
    next.serverTerminateCompletionSource = state.serverTerminateCompletionSource := by
  cases step <;> rfl

theorem HandlerStep.terminated {state next : ServerState} {phase : ServerPhase}
    (step : HandlerStep state phase next .replied) :
    state.serverTerminateCompletionSource = some true := by
  cases step with
  | reply terminated => exact terminated

theorem handler_staged {state next : ServerState} {phase phase' run : ServerPhase}
    (staged : Staged state run) (handled : Handled state phase)
    (step : HandlerStep state phase next phase') :
    Staged next run ∧ Handled next phase' ∧ Grows state next := by
  cases step with
  | dispatch started => exact ⟨staged, ⟨fun _ => started, by simp, nofun⟩, Grows.refl _⟩
  | fail => exact ⟨staged, ⟨fun _ => handled.started (by simp), by simp, nofun⟩, Grows.refl _⟩
  | cancel tokened =>
      have started := handled.started (by simp)
      refine ⟨⟨staged.ofRun, staged.unstarted, ?_, by simp, staged.created, staged.killed, staged.terminated⟩,
        ⟨fun _ => started, fun _ => rfl, nofun⟩, ⟨id, fun _ => rfl, id⟩⟩
      intro early
      exact absurd (staged.untokened early) tokened
  | wait => exact ⟨staged, handled, Grows.refl _⟩
  | reply terminated =>
      have killed := staged.killed (Or.inr (staged.terminated.mp terminated))
      exact ⟨staged, ⟨fun _ => handled.started (by simp), fun _ => handled.cancelled (Or.inl rfl),
        fun _ => killed⟩, Grows.refl _⟩

theorem fails_iff_early {state next : ServerState} {phase phase' run : ServerPhase}
    (staged : Staged state run) (handled : Handled state phase)
    (step : HandlerStep state phase next phase') :
    (∃ thrown, phase' = .failed thrown) ↔ phase = .dispatched ∧ run = .started := by
  cases step with
  | fail untokened =>
      have started := handled.started (by simp)
      have justStarted : run = .started := by
        by_contra different
        exact staged.tokened started different untokened
      simp [justStarted]
  | cancel tokened =>
      have notStarted : run ≠ .started := fun same => tokened (staged.untokened (Or.inr same))
      simp [notStarted]
  | _ => simp

structure Kept (moves : List (ServerMove ρ)) (world : ServerWorld ρ) : Prop where
  staged : Staged world.shared (world.own .run)
  handled : ∀ request, Handled world.shared (world.own (.handler request))
  failed : ∀ request, (∃ thrown, world.own (.handler request) = .failed thrown) ↔
    ∃ move ∈ moves, Early move request

theorem early_append {moves : List (ServerMove ρ)} {latest : ServerMove ρ}
    {request : ρ} : (∃ move ∈ moves ++ [latest], Early move request) ↔
      (∃ move ∈ moves, Early move request) ∨ Early latest request := by
  simp [List.mem_append, or_and_right, exists_or]

section Runs

variable [DecidableEq ρ]

theorem Kept.step {moves : List (ServerMove ρ)} {world next : ServerWorld ρ}
    {actor : ServerParty ρ} {event : ServerEvent} (kept : Kept moves world)
    (stepped : (server ρ).step world actor event = some next) :
    Kept (moves ++ [⟨actor, world, next⟩]) next := by
  obtain ⟨acted, others⟩ := System.step_some stepped
  cases actor with
  | run =>
      obtain ⟨staged, grows⟩ := run_staged kept.staged (run_step acted)
      refine ⟨staged, fun request => ?_, fun request => ?_⟩
      · rw [others _ (by simp)]
        exact (kept.handled request).grow grows
      · have notEarly : ¬Early ⟨.run, world, next⟩ request := fun early => nomatch early.actor
        rw [others _ (by simp), early_append, kept.failed request, or_iff_left notEarly]
  | handler acting =>
      have step := terminate_step acted
      obtain ⟨staged, handled, grows⟩ := handler_staged kept.staged (kept.handled acting) step
      refine ⟨?_, fun request => ?_, fun request => ?_⟩
      · rw [others _ (by simp)]
        exact staged
      · by_cases own : request = acting
        · rw [own]
          exact handled
        · rw [others _ (by simp [own])]
          exact (kept.handled request).grow grows
      · rw [early_append]
        by_cases own : request = acting
        · have fails := fails_iff_early kept.staged (kept.handled acting) step
          have notYet : ¬∃ move ∈ moves, Early move acting := by
            rw [← kept.failed acting]
            rintro ⟨thrown, failed⟩
            rw [failed] at step
            cases step
          rw [own, fails, or_iff_right notYet]
          exact ⟨fun early => ⟨rfl, early.1, early.2⟩, fun early => ⟨early.first, early.justStarted⟩⟩
        · have notEarly : ¬Early ⟨.handler acting, world, next⟩ request := by
            intro early
            exact own (ServerParty.handler.inj early.actor).symm
          rw [others _ (by simp [own]), kept.failed request, or_iff_left notEarly]

theorem run_kept {moves : List (ServerMove ρ)} {world : ServerWorld ρ}
    (run : (server ρ).FreeRun moves world) : Kept moves world := by
  refine run.invariant Kept ?_ fun _ _ _ _ _ kept _ stepped => kept.step stepped
  exact ⟨⟨by simp [server], fun _ => rfl, fun _ => rfl, nofun, by simp [server], by simp [server], by simp [server]⟩,
    fun request => ⟨fun received => absurd rfl received, by simp [server], nofun⟩,
    fun request => by simp [server]⟩

/-! A request that is pending. -/

def stepsLeft : ServerPhase → Nat
  | .tokenCreated => 5
  | .sourceCreated => 4
  | .polling => 3
  | .killing => 2
  | .killed => 1
  | _ => 0

omit [DecidableEq ρ] in
theorem run_goesOn {state : ServerState} {phase : ServerPhase} (staged : Staged state phase)
    (cancelled : state.terminateToken = some true) (going : ∀ thrown, phase ≠ .failed thrown) :
    phase = .completed ∨ ∃ event next phase', run state phase event = some (next, phase') ∧
      stepsLeft phase' < stepsLeft phase ∧ ∀ thrown, phase' ≠ .failed thrown := by
  have created := staged.created
  have ofRun := staged.ofRun
  cases phase with
  | idle => simp [staged.untokened (Or.inl rfl)] at cancelled
  | started => simp [staged.untokened (Or.inr rfl)] at cancelled
  | tokenCreated => exact Or.inr ⟨.next, _, _, rfl, by decide, nofun⟩
  | sourceCreated => exact Or.inr ⟨.returned (.ok ()), _, _, rfl, by decide, nofun⟩
  | polling =>
      exact Or.inr ⟨.next, state, .killing, by simp [run, cancelled], by decide, nofun⟩
  | killing => exact Or.inr ⟨.returned (.ok ()), _, _, rfl, by decide, nofun⟩
  | killed =>
      have uncompleted := created (by simp)
      exact Or.inr ⟨.next, { state with serverTerminateCompletionSource := some true }, .completed,
        by simp [run, uncompleted], by decide, nofun⟩
  | completed => exact Or.inl rfl
  | failed thrown => exact absurd rfl (going thrown)
  | dispatched => simp at ofRun
  | waiting => simp at ofRun
  | replied => simp at ofRun

theorem Answerable.of_step {world next : ServerWorld ρ} {actor : ServerParty ρ}
    {event : ServerEvent} {request : ρ} (stepped : (server ρ).step world actor event = some next)
    (answerable : Answerable next request) : Answerable world request := by
  obtain ⟨made, last, followed, replied⟩ := answerable
  exact ⟨_, last, (System.steps_cons stepped made).trans followed, replied⟩

theorem answerable_of_going {world : ServerWorld ρ} {request : ρ}
    (staged : Staged world.shared (world.own .run))
    (cancelled : world.shared.terminateToken = some true)
    (going : ∀ thrown, world.own .run ≠ .failed thrown)
    (waits : world.own (.handler request) = .waiting) : Answerable world request := by
  generalize left : stepsLeft (world.own .run) = count
  induction count using Nat.strongRecOn generalizing world with
  | ind count ih =>
      rcases run_goesOn staged cancelled going with completed | ⟨event, next, phase', ran, fewer, goes⟩
      · have terminated := staged.terminated.mpr completed
        have replies : StadServiceImpl.terminate world.shared .waiting .next =
            some (world.shared, .replied) := by
          simp [StadServiceImpl.terminate, isServerTerminated, terminated]
        rw [← waits] at replies
        have stepped : (server ρ).step world (.handler request) .next = some _ :=
          System.step_of_act replies
        exact ⟨_, _, System.steps_cons stepped [], by simp⟩
      · have stepped : (server ρ).step world .run event = some _ := System.step_of_act ran
        obtain ⟨staged', grows⟩ := run_staged staged (run_step ran)
        refine .of_step stepped ?_
        exact ih (stepsLeft phase') (left ▸ fewer) (by simpa using staged')
          (grows.cancelled cancelled) (by simpa using goes) (by simpa using waits) (by simp)

theorem answerable_of_begun {world : ServerWorld ρ} {request : ρ}
    (staged : Staged world.shared (world.own .run)) (tokened : world.shared.terminateToken ≠ none)
    (going : ∀ thrown, world.own .run ≠ .failed thrown)
    (dispatched : world.own (.handler request) = .dispatched)
    (handled : Handled world.shared .dispatched) : Answerable world request := by
  have cancels : StadServiceImpl.terminate world.shared .dispatched .next =
      some ({ world.shared with terminateToken := some true }, .waiting) := by
    obtain ⟨cancelled, token⟩ := Option.ne_none_iff_exists'.mp tokened
    simp [StadServiceImpl.terminate, token]
  obtain ⟨staged, _, _⟩ := handler_staged staged handled (terminate_step cancels)
  rw [← dispatched] at cancels
  have stepped : (server ρ).step world (.handler request) .next = some _ :=
    System.step_of_act cancels
  refine .of_step stepped ?_
  exact answerable_of_going (by simpa using staged) rfl (by simpa using going) (by simp)

theorem answerable_of_dispatched {world : ServerWorld ρ} {request : ρ}
    (staged : Staged world.shared (world.own .run))
    (handled : Handled world.shared (world.own (.handler request)))
    (going : ∀ thrown, world.own .run ≠ .failed thrown)
    (dispatched : world.own (.handler request) = .dispatched) : Answerable world request := by
  rw [dispatched] at handled
  by_cases tokened : world.shared.terminateToken = none
  · have justStarted : world.own .run = .started := by
      by_contra later
      exact staged.tokened (handled.started (by simp)) later tokened
    have creates : run world.shared .started .next =
        some ({ world.shared with terminateToken := some false }, .tokenCreated) := rfl
    rw [justStarted] at staged
    obtain ⟨created, grows⟩ := run_staged staged (run_step creates)
    rw [← justStarted] at creates
    have stepped : (server ρ).step world .run .next = some _ := System.step_of_act creates
    refine .of_step stepped ?_
    exact answerable_of_begun (by simpa using created) nofun (by simp) (by simpa using dispatched)
      (handled.grow grows)
  · exact answerable_of_begun staged tokened going dispatched handled

theorem not_answerable_of_failed {world : ServerWorld ρ} {request : ρ} {thrown : Thrown}
    (staged : Staged world.shared (world.own .run)) (failed : world.own .run = .failed thrown)
    (pending : Pending world request) : ¬Answerable world request := by
  rintro ⟨made, last, followed, replied⟩
  let unanswered (world : ServerWorld ρ) : Prop := world.own .run = .failed thrown ∧
    world.shared.serverTerminateCompletionSource ≠ some true ∧
    world.own (.handler request) ≠ .replied
  have start : unanswered world := by
    refine ⟨failed, ?_, ?_⟩
    · rw [Ne, staged.terminated, failed]
      simp
    · rcases pending with dispatched | waits
      · simp [dispatched]
      · simp [waits]
  have kept : unanswered last := by
    refine System.steps_invariant unanswered ?_ start followed
    rintro world actor event next ⟨failed, uncompleted, notReplied⟩ stepped
    obtain ⟨acted, others⟩ := System.step_some stepped
    cases actor with
    | run =>
        have step := run_step acted
        rw [failed] at step
        exact absurd step RunStep.not_failed
    | handler acting =>
        have step := terminate_step acted
        refine ⟨by rw [others _ (by simp), failed], by rw [step.sameSource]; exact uncompleted, ?_⟩
        by_cases own : request = acting
        · intro replies
          rw [← own, replies] at step
          exact uncompleted step.terminated
        · rw [others _ (by simp [own])]
          exact notReplied
  exact kept.2.2 replied

/-- In any order of the steps, the requests are served exactly when no handler begins
right after the server has started and `Run` does not throw while one is pending. -/
theorem serves_iff {moves : List (ServerMove ρ)} {world : ServerWorld ρ}
    (run : (server ρ).FreeRun moves world) :
    Serves world ↔ (∀ move ∈ moves, Timely move) ∧ ¬Abandoned world := by
  have kept := run_kept run
  constructor
  · intro serves
    refine ⟨fun move listed request early => ?_, ?_⟩
    · obtain ⟨thrown, failed⟩ := (kept.failed request).mpr ⟨move, listed, early⟩
      exact serves.noneFails request thrown failed
    · rintro ⟨thrown, request, failed, pending⟩
      exact not_answerable_of_failed kept.staged failed pending (serves.noneLost request pending)
  · rintro ⟨timely, notAbandoned⟩
    refine ⟨fun request thrown failed => ?_, fun request pending => ?_, fun request replied => ?_⟩
    · obtain ⟨move, listed, early⟩ := (kept.failed request).mp ⟨thrown, failed⟩
      exact timely move listed request early
    · have going : ∀ thrown, world.own .run ≠ .failed thrown :=
        fun thrown failed => notAbandoned ⟨thrown, request, failed, pending⟩
      rcases pending with dispatched | waits
      · exact answerable_of_dispatched kept.staged (kept.handled request) going dispatched
      · have cancelled := (kept.handled request).cancelled (Or.inl waits)
        exact answerable_of_going kept.staged cancelled going waits
    · exact (kept.handled request).killed replied

end Runs

/-! Two requests: `true` is dispatched before the token is there and cancels it after that,
and `false` is dispatched and has not begun. Then one that begins too early. -/

theorem twoRequests_served :
    ∃ moves world, (server Bool).FreeRun moves world ∧ world.own (.handler true) = .waiting ∧
      world.own (.handler false) = .dispatched ∧ Serves world := by
  have started : (server Bool).FreeRun _ _ :=
    .step .initial (show True from trivial) (show (server Bool).step _ .run
      (.returned (.ok ())) = some _ from rfl)
  have dispatched : (server Bool).FreeRun _ _ :=
    .step started trivial (show (server Bool).step _ (.handler true) .next = some _ from rfl)
  have tokenCreated : (server Bool).FreeRun _ _ :=
    .step dispatched trivial (show (server Bool).step _ .run .next = some _ from rfl)
  have cancelled : (server Bool).FreeRun _ _ :=
    .step tokenCreated trivial (show (server Bool).step _ (.handler true) .next = some _ from rfl)
  have another : (server Bool).FreeRun _ _ :=
    .step cancelled trivial (show (server Bool).step _ (.handler false) .next = some _ from rfl)
  refine ⟨_, _, another, rfl, rfl, (serves_iff another).mpr ⟨?_, ?_⟩⟩
  · intro move listed request early
    simp only [List.nil_append, List.cons_append, List.mem_cons, List.not_mem_nil, or_false]
      at listed
    rcases listed with rfl | rfl | rfl | rfl | rfl
    · cases early.actor
    · cases early.actor
      cases early.first
    · cases early.actor
    · cases early.justStarted
    · cases early.justStarted
  · rintro ⟨thrown, request, failed, _⟩
    cases failed

theorem earlyRequest_fails :
    ∃ moves world, (server Unit).FreeRun moves world ∧
      world.own (.handler ()) = .failed .nullReference ∧ ¬Serves world := by
  have started : (server Unit).FreeRun _ _ :=
    .step .initial (show True from trivial) (show (server Unit).step _ .run
      (.returned (.ok ())) = some _ from rfl)
  have dispatched : (server Unit).FreeRun _ _ :=
    .step started trivial (show (server Unit).step _ (.handler ()) .next = some _ from rfl)
  have failed : (server Unit).FreeRun _ _ :=
    .step dispatched trivial (show (server Unit).step _ (.handler ()) .next = some _ from rfl)
  exact ⟨_, _, failed, rfl, fun serves => serves.noneFails () .nullReference rfl⟩

end ServerApplication

end Stad
