import Mathlib.Logic.Function.Basic

/-!
Parties that act one at a time on a state they share. What a party does depends on
the shared state and its own, so a run is any order of their steps.
-/

namespace Interleaving

structure World (party shared own : Type) where
  shared : shared
  own : party → own

structure System (party shared own event : Type) where
  initial : World party shared own
  act : party → shared → own → event → Option (shared × own)

structure Move (party shared own : Type) where
  actor : party
  before : World party shared own
  after : World party shared own

variable {party shared own event : Type} [DecidableEq party]

namespace System

variable {system : System party shared own event}

def step (system : System party shared own event) (world : World party shared own)
    (actor : party) (happened : event) : Option (World party shared own) :=
  (system.act actor world.shared (world.own actor) happened).map fun acted =>
    ⟨acted.1, Function.update world.own actor acted.2⟩

def steps (system : System party shared own event) (world : World party shared own)
    (made : List (party × event)) : Option (World party shared own) :=
  made.foldlM (fun world made => system.step world made.1 made.2) world

/-- The runs whose steps are all allowed, with the moves that were made. -/
inductive Run (system : System party shared own event)
    (allowed : World party shared own → party → event → Prop) :
    List (Move party shared own) → World party shared own → Prop
  | initial : Run system allowed [] system.initial
  | step {moves world actor happened next} : Run system allowed moves world →
      allowed world actor happened → system.step world actor happened = some next →
      Run system allowed (moves ++ [⟨actor, world, next⟩]) next

abbrev FreeRun (system : System party shared own event) :=
  system.Run fun _ _ _ => True

theorem step_some {world next : World party shared own} {actor : party} {happened : event}
    (stepped : system.step world actor happened = some next) :
    system.act actor world.shared (world.own actor) happened =
        some (next.shared, next.own actor) ∧
      ∀ other, other ≠ actor → next.own other = world.own other := by
  obtain ⟨⟨acted, ownNext⟩, outcome, same⟩ := Option.map_eq_some_iff.mp stepped
  subst same
  refine ⟨by simp [outcome], ?_⟩
  intro other different
  exact Function.update_of_ne different _ _

theorem step_of_act {world : World party shared own} {actor : party} {happened : event}
    {acted : shared × own}
    (outcome : system.act actor world.shared (world.own actor) happened = some acted) :
    system.step world actor happened =
      some ⟨acted.1, Function.update world.own actor acted.2⟩ := by
  rw [step, outcome, Option.map_some]

theorem steps_cons {world next : World party shared own} {actor : party} {happened : event}
    (stepped : system.step world actor happened = some next) (rest : List (party × event)) :
    system.steps world ((actor, happened) :: rest) = system.steps next rest := by
  rw [steps, List.foldlM_cons, stepped]
  rfl

theorem steps_invariant (holds : World party shared own → Prop)
    (kept : ∀ world actor happened next, holds world →
      system.step world actor happened = some next → holds next)
    {made : List (party × event)} {world last : World party shared own} (start : holds world)
    (followed : system.steps world made = some last) : holds last := by
  induction made generalizing world with
  | nil =>
      have same : world = last := by simpa [steps] using followed
      rw [← same]
      exact start
  | cons first rest ih =>
      obtain ⟨next, stepped, followed⟩ := Option.bind_eq_some_iff.mp followed
      exact ih (kept world first.1 first.2 next start stepped) followed

theorem Run.invariant {allowed : World party shared own → party → event → Prop}
    {moves : List (Move party shared own)} {world : World party shared own}
    (run : system.Run allowed moves world)
    (holds : List (Move party shared own) → World party shared own → Prop)
    (atStart : holds [] system.initial)
    (kept : ∀ moves world actor happened next, holds moves world → allowed world actor happened →
      system.step world actor happened = some next → holds (moves ++ [⟨actor, world, next⟩]) next) :
    holds moves world := by
  induction run with
  | initial => exact atStart
  | step _ permitted stepped ih => exact kept _ _ _ _ _ ih permitted stepped

end System

end Interleaving
