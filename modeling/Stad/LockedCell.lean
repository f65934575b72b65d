import Mathlib.Data.List.Nodup
import Stad.Interleaving

/-!
A cell that is changed under a lock and looked at without it. Whatever the order of the
steps, the answers are those of calls that come one after another, each with the cell to
itself, in the order in which they took effect.
-/

namespace LockedCell

open Interleaving

structure Cell (party value : Type) where
  content : value
  holder : Option party

inductive Request (value ε : Type) where
  | change (operation : value → Except ε value)
  | look

inductive Answer (value ε : Type) where
  | done
  | thrown (exception : ε)
  | seen (snapshot : value)
  deriving DecidableEq, Repr

inductive Phase (value ε : Type) where
  | idle
  | entered
  | loaded (snapshot : value)
  | leaving (answer : Answer value ε)
  | returned (answer : Answer value ε)
  deriving DecidableEq, Repr

def Phase.answer? {value ε : Type} : Phase value ε → Option (Answer value ε)
  | .leaving answer => some answer
  | .returned answer => some answer
  | _ => none

def Phase.inside {value ε : Type} : Phase value ε → Bool
  | .idle => false
  | .returned _ => false
  | _ => true

variable {party value ε : Type}

/-- The lock is left also when the operation throws. -/
def actChange (operation : value → Except ε value) (actor : party) (cell : Cell party value) :
    Phase value ε → Option (Cell party value × Phase value ε)
  | .idle =>
      match cell.holder with
      | none => some (⟨cell.content, some actor⟩, .entered)
      | some _ => none
  | .entered => some (cell, .loaded cell.content)
  | .loaded snapshot =>
      match operation snapshot with
      | .ok changed => some (⟨changed, cell.holder⟩, .leaving .done)
      | .error exception => some (cell, .leaving (.thrown exception))
  | .leaving answer => some (⟨cell.content, none⟩, .returned answer)
  | .returned _ => none

def actLook (cell : Cell party value) :
    Phase value ε → Option (Cell party value × Phase value ε)
  | .idle => some (cell, .returned (.seen cell.content))
  | _ => none

def act (request : party → Request value ε) (actor : party) (cell : Cell party value)
    (phase : Phase value ε) (_ : Unit) : Option (Cell party value × Phase value ε) :=
  match request actor with
  | .change operation => actChange operation actor cell phase
  | .look => actLook cell phase

def system (request : party → Request value ε) (initial : value) :
    System party (Cell party value) (Phase value ε) Unit where
  initial := ⟨⟨initial, none⟩, fun _ => .idle⟩
  act := act request

def Request.perform (content : value) : Request value ε → value
  | .look => content
  | .change operation =>
      match operation content with
      | .ok changed => changed
      | .error _ => content

def Request.answerOn (content : value) : Request value ε → Answer value ε
  | .look => .seen content
  | .change operation =>
      match operation content with
      | .ok _ => .done
      | .error exception => .thrown exception

def serial (request : party → Request value ε) (initial : value) (turns : List party) : value :=
  turns.foldl (fun content actor => (request actor).perform content) initial

def takesEffect (move : Move party (Cell party value) (Phase value ε)) : Bool :=
  (move.before.own move.actor).answer?.isNone && (move.after.own move.actor).answer?.isSome

def turns (moves : List (Move party (Cell party value) (Phase value ε))) : List party :=
  (moves.filter takesEffect).map Move.actor

inductive Step (request : Request value ε) (actor : party) (cell : Cell party value) :
    Phase value ε → Cell party value → Phase value ε → Prop
  | enter (asked : request ≠ .look) (free : cell.holder = none) :
      Step request actor cell .idle ⟨cell.content, some actor⟩ .entered
  | load : Step request actor cell .entered cell (.loaded cell.content)
  | carryOut {changed : value} {answer : Answer value ε} (snapshot : value)
      (alone : snapshot = cell.content →
        request.perform snapshot = changed ∧ request.answerOn snapshot = answer) :
      Step request actor cell (.loaded snapshot) ⟨changed, cell.holder⟩ (.leaving answer)
  | leave (answer : Answer value ε) :
      Step request actor cell (.leaving answer) ⟨cell.content, none⟩ (.returned answer)
  | look (asked : request = .look) :
      Step request actor cell .idle cell (.returned (.seen cell.content))

theorem act_step {request : party → Request value ε} {actor : party} {cell next : Cell party value}
    {phase phase' : Phase value ε} (acted : act request actor cell phase () = some (next, phase')) :
    Step (request actor) actor cell phase next phase' := by
  rw [act] at acted
  cases asked : request actor with
  | look =>
      cases phase with
      | idle =>
          simp only [asked, actLook, Option.some.injEq, Prod.mk.injEq] at acted
          obtain ⟨rfl, rfl⟩ := acted
          exact .look rfl
      | _ => simp [asked, actLook] at acted
  | change operation =>
      simp only [asked] at acted
      cases phase with
      | idle =>
          cases free : cell.holder with
          | some other => simp [actChange, free] at acted
          | none =>
              simp only [actChange, free, Option.some.injEq, Prod.mk.injEq] at acted
              obtain ⟨rfl, rfl⟩ := acted
              exact .enter nofun free
      | entered =>
          simp only [actChange, Option.some.injEq, Prod.mk.injEq] at acted
          obtain ⟨rfl, rfl⟩ := acted
          exact .load
      | loaded snapshot =>
          cases carried : operation snapshot with
          | ok changed =>
              simp only [actChange, carried, Option.some.injEq, Prod.mk.injEq] at acted
              obtain ⟨rfl, rfl⟩ := acted
              exact .carryOut snapshot fun _ => by
                simp [Request.perform, Request.answerOn, carried]
          | error exception =>
              simp only [actChange, carried, Option.some.injEq, Prod.mk.injEq] at acted
              obtain ⟨rfl, rfl⟩ := acted
              exact .carryOut snapshot fun same => by
                simp [Request.perform, Request.answerOn, carried, ← same]
      | leaving answer =>
          simp only [actChange, Option.some.injEq, Prod.mk.injEq] at acted
          obtain ⟨rfl, rfl⟩ := acted
          exact .leave answer
      | returned answer => simp [actChange] at acted

/-- The calls so far come to calls one after another. -/
structure Serialized (request : party → Request value ε) (initial : value)
    (moves : List (Move party (Cell party value) (Phase value ε)))
    (world : World party (Cell party value) (Phase value ε)) : Prop where
  inside : ∀ actor, (world.own actor).inside = true ↔ world.shared.holder = some actor
  changes : ∀ actor, (world.own actor).inside = true → request actor ≠ .look
  current : ∀ actor snapshot, world.own actor = .loaded snapshot → snapshot = world.shared.content
  content : world.shared.content = serial request initial (turns moves)
  answered : ∀ actor answer, (world.own actor).answer? = some answer →
    ∃ before after, turns moves = before ++ actor :: after ∧
      answer = (request actor).answerOn (serial request initial before)
  took : ∀ actor ∈ turns moves, (world.own actor).answer?.isSome
  once : (turns moves).Nodup

variable {request : party → Request value ε} {initial : value}

theorem initial_serialized : Serialized request initial [] (system request initial).initial where
  inside := by simp [system, Phase.inside]
  changes := by simp [system, Phase.inside]
  current := by simp [system]
  content := rfl
  answered := by simp [system, Phase.answer?]
  took := by simp [turns]
  once := List.nodup_nil

theorem serial_append (before after : List party) :
    serial request initial (before ++ after) =
      serial request (serial request initial before) after :=
  List.foldl_append

theorem turns_append (moves : List (Move party (Cell party value) (Phase value ε)))
    (move : Move party (Cell party value) (Phase value ε)) :
    turns (moves ++ [move]) =
      if takesEffect move then turns moves ++ [move.actor] else turns moves := by
  cases effect : takesEffect move <;> simp [turns, effect]

section Steps

variable {moves : List (Move party (Cell party value) (Phase value ε))}
  {world next : World party (Cell party value) (Phase value ε)} {actor : party}

theorem Serialized.inside_kept (kept : Serialized request initial moves world)
    (others : ∀ other, other ≠ actor → next.own other = world.own other)
    (sameHolder : next.shared.holder = world.shared.holder)
    (sameInside : (next.own actor).inside = (world.own actor).inside) (other : party) :
    (next.own other).inside = true ↔ next.shared.holder = some other := by
  rw [sameHolder, ← kept.inside other]
  by_cases own : other = actor
  · rw [own, sameInside]
  · rw [others other own]

theorem Serialized.changes_kept (kept : Serialized request initial moves world)
    (others : ∀ other, other ≠ actor → next.own other = world.own other)
    (changes : (next.own actor).inside = true → request actor ≠ .look) (other : party)
    (inside : (next.own other).inside = true) : request other ≠ .look := by
  by_cases own : other = actor
  · rw [own] at inside ⊢
    exact changes inside
  · rw [others other own] at inside
    exact kept.changes other inside

theorem Serialized.quiet (kept : Serialized request initial moves world)
    (others : ∀ other, other ≠ actor → next.own other = world.own other)
    (same : next.shared.content = world.shared.content)
    (inside : ∀ other, (next.own other).inside = true ↔ next.shared.holder = some other)
    (changes : (next.own actor).inside = true → request actor ≠ .look)
    (current : ∀ snapshot, next.own actor = .loaded snapshot → snapshot = world.shared.content)
    (answer : (next.own actor).answer? = (world.own actor).answer?) :
    Serialized request initial (moves ++ [⟨actor, world, next⟩]) next := by
  have answers (other : party) : (next.own other).answer? = (world.own other).answer? := by
    by_cases own : other = actor
    · rw [own, answer]
    · rw [others other own]
  have noTurn : turns (moves ++ [⟨actor, world, next⟩]) = turns moves := by
    rw [turns_append, takesEffect, answer]
    cases (world.own actor).answer? <;> rfl
  refine ⟨inside, kept.changes_kept others changes, ?_, ?_, ?_, ?_, ?_⟩
  · intro other snapshot loaded
    rw [same]
    by_cases own : other = actor
    · rw [own] at loaded
      exact current snapshot loaded
    · rw [others other own] at loaded
      exact kept.current other snapshot loaded
  · rw [same, noTurn, kept.content]
  · simpa only [noTurn, answers] using kept.answered
  · simpa only [noTurn, answers] using kept.took
  · rw [noTurn]
    exact kept.once

theorem Serialized.turn (kept : Serialized request initial moves world)
    (others : ∀ other, other ≠ actor → next.own other = world.own other)
    (performed : next.shared.content = (request actor).perform world.shared.content)
    (inside : ∀ other, (next.own other).inside = true ↔ next.shared.holder = some other)
    (changes : (next.own actor).inside = true → request actor ≠ .look)
    (current : ∀ other snapshot, next.own other = .loaded snapshot →
      snapshot = next.shared.content)
    (unanswered : (world.own actor).answer? = none)
    (answer : (next.own actor).answer? = some ((request actor).answerOn world.shared.content)) :
    Serialized request initial (moves ++ [⟨actor, world, next⟩]) next := by
  have turn : turns (moves ++ [⟨actor, world, next⟩]) = turns moves ++ [actor] := by
    rw [turns_append, takesEffect, unanswered, answer]
    rfl
  have new : actor ∉ turns moves := by
    intro known
    simpa [unanswered] using kept.took actor known
  refine ⟨inside, kept.changes_kept others changes, current, ?_, ?_, ?_, ?_⟩
  · rw [turn, serial_append, performed, kept.content]
    rfl
  · intro other given answers
    rw [turn]
    by_cases own : other = actor
    · subst own
      refine ⟨turns moves, [], by simp, ?_⟩
      rw [answer, kept.content, Option.some.injEq] at answers
      exact answers.symm
    · rw [others other own] at answers
      obtain ⟨before, after, ordered, agrees⟩ := kept.answered other given answers
      exact ⟨before, after ++ [actor], by simp [ordered], agrees⟩
  · intro other known
    rw [turn, List.mem_append, List.mem_singleton] at known
    by_cases own : other = actor
    · rw [own, answer]
      rfl
    · rw [others other own]
      exact kept.took other (known.resolve_right own)
  · rw [turn]
    exact List.nodup_append.mpr ⟨kept.once, List.nodup_singleton actor, by
      intro known isKnown other isOther same
      rw [same, List.mem_singleton.mp isOther] at isKnown
      exact new isKnown⟩

theorem Serialized.step (kept : Serialized request initial moves world)
    (step : Step (request actor) actor world.shared (world.own actor) next.shared (next.own actor))
    (others : ∀ other, other ≠ actor → next.own other = world.own other) :
    Serialized request initial (moves ++ [⟨actor, world, next⟩]) next := by
  obtain ⟨cell, own⟩ := next
  dsimp only at others step
  generalize isPhase : world.own actor = phase at step
  generalize isPhase' : own actor = phase' at step
  cases step with
  | enter asked free =>
      refine kept.quiet others rfl ?_ (fun _ => asked) (by simp [isPhase'])
        (by simp [isPhase, isPhase', Phase.answer?])
      intro other
      by_cases same : other = actor
      · simp [same, isPhase', Phase.inside]
      · have outside := kept.inside other
        change (own other).inside = true ↔ some actor = some other
        rw [others other same, outside, free]
        simp [Ne.symm same]
  | load =>
      have asked := kept.changes actor (by simp [isPhase, Phase.inside])
      refine kept.quiet others rfl (kept.inside_kept others rfl ?_) (fun _ => asked) ?_ ?_
      · simp [isPhase, isPhase', Phase.inside]
      · simp [isPhase']
      · simp [isPhase, isPhase', Phase.answer?]
  | carryOut snapshot alone =>
      have isCurrent := kept.current actor snapshot isPhase
      have holds := (kept.inside actor).mp (by simp [isPhase, Phase.inside])
      obtain ⟨performed, answers⟩ := alone isCurrent
      rw [isCurrent] at performed answers
      have asked := kept.changes actor (by simp [isPhase, Phase.inside])
      refine kept.turn others performed.symm (kept.inside_kept others rfl ?_) (fun _ => asked) ?_ ?_ ?_
      · simp [isPhase, isPhase', Phase.inside]
      · intro other snapshot' loaded
        by_cases same : other = actor
        · simp [same, isPhase'] at loaded
        · have loaded : own other = .loaded snapshot' := loaded
          rw [others other same] at loaded
          have alsoHolds := (kept.inside other).mp (by simp [loaded, Phase.inside])
          rw [holds, Option.some.injEq] at alsoHolds
          exact absurd alsoHolds.symm same
      · simp [isPhase, Phase.answer?]
      · simp [isPhase', Phase.answer?, answers]
  | leave answer =>
      have holds := (kept.inside actor).mp (by simp [isPhase, Phase.inside])
      refine kept.quiet others rfl ?_ (by simp [isPhase', Phase.inside]) (by simp [isPhase'])
        (by simp [isPhase, isPhase', Phase.answer?])
      intro other
      by_cases same : other = actor
      · simp [same, isPhase', Phase.inside]
      · have outside := kept.inside other
        change (own other).inside = true ↔ none = some other
        rw [others other same, outside, holds]
        simp [Ne.symm same]
  | look asked =>
      refine kept.turn others (by rw [asked]; rfl) (kept.inside_kept others rfl ?_)
        (by simp [isPhase', Phase.inside]) ?_ ?_ ?_
      · simp [isPhase, isPhase', Phase.inside]
      · intro other snapshot loaded
        by_cases same : other = actor
        · simp [same, isPhase'] at loaded
        · have loaded : own other = .loaded snapshot := loaded
          rw [others other same] at loaded
          exact kept.current other snapshot loaded
      · simp [isPhase, Phase.answer?]
      · simp [isPhase', Phase.answer?, asked, Request.answerOn]

end Steps

theorem act_inside {request : party → Request value ε} {actor : party} {cell : Cell party value}
    {phase : Phase value ε} (inside : phase.inside = true) (asked : request actor ≠ .look) :
    (act request actor cell phase ()).isSome := by
  rw [act]
  cases change : request actor with
  | look => exact absurd change asked
  | change operation =>
      cases phase with
      | idle => simp [Phase.inside] at inside
      | returned answer => simp [Phase.inside] at inside
      | loaded snapshot => cases carried : operation snapshot <;> simp [actChange, carried]
      | _ => rfl

theorem Serialized.goes_on [DecidableEq party]
    {moves : List (Move party (Cell party value) (Phase value ε))}
    {world : World party (Cell party value) (Phase value ε)}
    (kept : Serialized request initial moves world) {actor : party}
    (going : ∀ answer, world.own actor ≠ .returned answer) :
    ∃ other, (other = actor ∨ world.shared.holder = some other) ∧
      ((system request initial).step world other ()).isSome := by
  have steps (other : party)
      (acts : (act request other world.shared (world.own other) ()).isSome) :
      ((system request initial).step world other ()).isSome := by
    simpa [System.step, system] using acts
  have insideSteps (other : party) (inside : (world.own other).inside = true) :
      ((system request initial).step world other ()).isSome :=
    steps other (act_inside inside (kept.changes other inside))
  cases isPhase : world.own actor with
  | returned answer => exact absurd isPhase (going answer)
  | idle =>
      cases held : world.shared.holder with
      | some other => exact ⟨other, Or.inr rfl, insideSteps other ((kept.inside other).mpr held)⟩
      | none =>
          refine ⟨actor, Or.inl rfl, steps actor ?_⟩
          cases asked : request actor <;> simp [act, asked, isPhase, actChange, actLook, held]
  | _ => exact ⟨actor, Or.inl rfl, insideSteps actor (by simp [isPhase, Phase.inside])⟩

/-- Whatever the order of the steps, they come to calls one after another. -/
theorem run_serialized [DecidableEq party]
    {moves : List (Move party (Cell party value) (Phase value ε))}
    {world : World party (Cell party value) (Phase value ε)}
    (run : (system request initial).FreeRun moves world) :
    Serialized request initial moves world := by
  refine run.invariant (Serialized request initial) initial_serialized ?_
  intro moves world actor _ next kept _ stepped
  obtain ⟨acted, others⟩ := System.step_some stepped
  exact kept.step (act_step acted) others

end LockedCell
