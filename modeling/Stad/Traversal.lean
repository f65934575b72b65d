import Mathlib.Data.List.Nodup
import Mathlib.Data.Set.Finite.Basic
import Mathlib.Logic.Relation
import Stad.Bounded

/-!
Depth-first traversal of a graph that may be infinite and may have cycles. A
vertex is marked before its children are explored and finished after them, so
what a call adds is new, closed under children up to what was marked before,
and reached from the vertex the call was made for.
-/

namespace Traversal

open Bounded Bounded.Outcome

variable {ε α : Type}

structure State (α : Type) where
  visited : List α
  finished : List α

def Edge (children : α → List α) (vertex child : α) : Prop := child ∈ children vertex

def Reached (children : α → List α) (roots : List α) (vertex : α) : Prop :=
  ∃ root ∈ roots, Relation.ReflTransGen (Edge children) root vertex

theorem Reached.root {children : α → List α} {roots : List α} {root : α} (listed : root ∈ roots) :
    Reached children roots root := ⟨root, listed, .refl⟩

theorem Reached.mono {children : α → List α} {roots roots' : List α} {vertex : α}
    (within : ∀ root ∈ roots, root ∈ roots') (reached : Reached children roots vertex) :
    Reached children roots' vertex := by
  obtain ⟨root, listed, path⟩ := reached
  exact ⟨root, within root listed, path⟩

theorem Reached.child {children : α → List α} {roots : List α} {vertex child : α}
    (reached : Reached children roots vertex) (edge : child ∈ children vertex) :
    Reached children roots child := by
  obtain ⟨root, listed, path⟩ := reached
  exact ⟨root, listed, path.tail edge⟩

theorem Reached.through {children : α → List α} {parent vertex : α}
    (reached : Reached children (children parent) vertex) : Reached children [parent] vertex := by
  obtain ⟨child, edge, path⟩ := reached
  exact ⟨parent, List.mem_singleton_self parent, .head edge path⟩

/-- What exploring some roots may do to the state: `new` lists what it finished. -/
structure Explored (children : α → List α) (roots : List α) (first last : State α)
    (new : List α) : Prop where
  finished : last.finished = first.finished ++ new
  visited : ∀ vertex, vertex ∈ last.visited ↔ vertex ∈ first.visited ∨ vertex ∈ new
  nodup : new.Nodup
  fresh : ∀ vertex ∈ new, vertex ∉ first.visited
  reached : ∀ vertex ∈ new, Reached children roots vertex
  roots : ∀ root ∈ roots, root ∈ last.visited
  closed : ∀ vertex ∈ new, ∀ child ∈ children vertex, child ∈ last.visited

variable {children : α → List α}

theorem Explored.refl (state : State α) : Explored children [] state state [] where
  finished := (List.append_nil _).symm
  visited := by simp
  nodup := List.nodup_nil
  fresh := by simp
  reached := by simp
  roots := by simp
  closed := by simp

theorem Explored.known {state : State α} {vertex : α} (marked : vertex ∈ state.visited) :
    Explored children [vertex] state state [] where
  finished := (List.append_nil _).symm
  visited := by simp
  nodup := List.nodup_nil
  fresh := by simp
  reached := by simp
  roots := by simpa using marked
  closed := by simp

theorem Explored.append {roots roots' new new' : List α} {first middle last : State α}
    (before : Explored children roots first middle new)
    (after : Explored children roots' middle last new') :
    Explored children (roots ++ roots') first last (new ++ new') := by
  have kept : ∀ vertex ∈ middle.visited, vertex ∈ last.visited :=
    fun vertex marked => (after.visited vertex).mpr (Or.inl marked)
  constructor
  · rw [after.finished, before.finished, List.append_assoc]
  · intro vertex
    rw [after.visited, before.visited, List.mem_append, or_assoc]
  · have apart : List.Disjoint new new' := by
      intro vertex early late
      exact after.fresh vertex late ((before.visited vertex).mpr (Or.inr early))
    exact List.Nodup.append before.nodup after.nodup apart
  · intro vertex added marked
    rcases List.mem_append.mp added with early | late
    · exact before.fresh vertex early marked
    · exact after.fresh vertex late ((before.visited vertex).mpr (Or.inl marked))
  · intro vertex added
    rcases List.mem_append.mp added with early | late
    · exact (before.reached vertex early).mono fun _ => List.mem_append_left roots'
    · exact (after.reached vertex late).mono fun _ => List.mem_append_right roots
  · intro root listed
    rcases List.mem_append.mp listed with early | late
    · exact kept root (before.roots root early)
    · exact after.roots root late
  · intro vertex added child edge
    rcases List.mem_append.mp added with early | late
    · exact kept child (before.closed vertex early child edge)
    · exact after.closed vertex late child edge

theorem Explored.finish {first last : State α} {vertex : α} {new : List α}
    (unmarked : vertex ∉ first.visited)
    (explored : Explored children (children vertex)
      { first with visited := vertex :: first.visited } last new) :
    Explored children [vertex] first { last with finished := last.finished ++ [vertex] }
      (new ++ [vertex]) := by
  have marked : vertex ∈ last.visited :=
    (explored.visited vertex).mpr (Or.inl (List.mem_cons_self))
  constructor
  · simp [explored.finished]
  · intro other
    rw [explored.visited other, List.mem_cons, List.mem_append, List.mem_singleton]
    tauto
  · have apart : List.Disjoint new [vertex] := by
      intro other added same
      rw [List.mem_singleton.mp same] at added
      exact explored.fresh vertex added List.mem_cons_self
    exact List.Nodup.append explored.nodup (List.nodup_singleton vertex) apart
  · intro other added
    rcases List.mem_append.mp added with below | same
    · exact fun old => explored.fresh other below (List.mem_cons_of_mem vertex old)
    · rw [List.mem_singleton.mp same]
      exact unmarked
  · intro other added
    rcases List.mem_append.mp added with below | same
    · exact (explored.reached other below).through
    · exact Reached.root same
  · intro root listed
    rw [List.mem_singleton.mp listed]
    exact marked
  · intro other added child edge
    rcases List.mem_append.mp added with below | same
    · exact explored.closed other below child edge
    · rw [List.mem_singleton.mp same] at edge
      exact explored.roots child edge

theorem explored_foldlM {call : State α → α → Outcome ε (State α)}
    (each : ∀ state vertex next, call state vertex = value next →
      ∃ new, Explored children [vertex] state next new)
    {roots : List α} {first last : State α}
    (returned : roots.foldlM call first = value last) :
    ∃ new, Explored children roots first last new := by
  apply foldlM_induction returned (fun done state => ∃ new, Explored children done first state new)
  · exact ⟨[], Explored.refl first⟩
  · rintro done root rest state next - ⟨new, sofar⟩ stepped
    obtain ⟨new', explored⟩ := each state root next stepped
    exact ⟨new ++ new', sofar.append explored⟩

section Explore

variable [DecidableEq α]

def exploreBody (children : α → List α) (call : State α × α → Outcome ε (State α)) :
    State α × α → Outcome ε (State α) :=
  fun (state, vertex) =>
    if vertex ∈ state.visited then return state
    else do
      let explored ← (children vertex).foldlM (fun state child => call (state, child))
        { state with visited := vertex :: state.visited }
      return { explored with finished := explored.finished ++ [vertex] }

def explore (children : α → List α) (depth : Nat) (state : State α) (vertex : α) :
    Outcome ε (State α) :=
  unroll (exploreBody children) depth (state, vertex)

def exploreAll (children : α → List α) (depth : Nat) (roots : List α) : Outcome ε (State α) :=
  roots.foldlM (explore children depth) ⟨[], []⟩

theorem exploreBody_continuous :
    Continuous (exploreBody children : (State α × α → Outcome ε (State α)) → _) := by
  rintro call call' agrees ⟨state, vertex⟩
  refine Agrees.ite (Agrees.refl _) ?_
  exact Agrees.bind (foldlM_agrees (fun state child => agrees (state, child)) _ _)
    fun _ => Agrees.refl _

theorem explore_safe (depth : Nat) (state : State α) (vertex : α) (thrown : ε) :
    explore children depth state vertex ≠ error thrown := by
  induction depth generalizing state vertex thrown with
  | zero => simp [explore]
  | succ depth ih =>
      rw [explore, unroll_succ, exploreBody]
      split
      · simp
      · exact bind_ne_error (foldlM_safe (fun child _ state => ih state child) _ thrown) (by simp)

theorem exploreAll_safe (depth : Nat) (roots : List α) (thrown : ε) :
    exploreAll children depth roots ≠ error thrown :=
  foldlM_safe (fun vertex _ state => explore_safe depth state vertex) _ thrown

theorem explore_explored {depth : Nat} {state next : State α} {vertex : α}
    (returned : explore children depth state vertex = (value next : Outcome ε (State α))) :
    ∃ new, Explored children [vertex] state next new := by
  suffices general : ∀ (argument : State α × α) (next : State α),
      unroll (exploreBody children) depth argument = (value next : Outcome ε (State α)) →
      ∃ new, Explored children [argument.2] argument.1 next new from general (state, vertex) next returned
  apply unroll_returned
  rintro call correct ⟨state, vertex⟩ next returned
  simp only [exploreBody] at returned
  split at returned
  · rename_i marked
    have same : state = next := by simpa using returned
    rw [← same]
    exact ⟨[], Explored.known marked⟩
  · rename_i unmarked
    obtain ⟨last, looped, ended⟩ := bind_eq_value.mp returned
    obtain ⟨new, explored⟩ := explored_foldlM
      (fun state child next stepped => correct (state, child) next stepped) looped
    have final : { last with finished := last.finished ++ [vertex] } = next := by
      simpa using ended
    rw [← final]
    exact ⟨new ++ [vertex], explored.finish unmarked⟩

/-- A traversal that returns has finished every vertex reached from the roots, once. -/
theorem exploreAll_returned {depth : Nat} {roots : List α} {last : State α}
    (returned : exploreAll children depth roots = (value last : Outcome ε (State α))) :
    last.finished.Nodup ∧ ∀ vertex, vertex ∈ last.finished ↔ Reached children roots vertex := by
  obtain ⟨new, explored⟩ := explored_foldlM (fun _ _ _ => explore_explored) returned
  have all : last.finished = new := by simpa using explored.finished
  have marked : ∀ vertex, vertex ∈ last.visited ↔ vertex ∈ new := by
    simpa using explored.visited
  rw [all]
  refine ⟨explored.nodup, fun vertex => ⟨explored.reached vertex, ?_⟩⟩
  rintro ⟨root, listed, path⟩
  induction path with
  | refl => exact (marked root).mp (explored.roots root listed)
  | tail _ edge ih => exact (marked _).mp (explored.closed _ ih _ edge)

/-! A traversal inside finitely many vertices returns. -/

def unvisited (inside : Finset α) (state : State α) : Nat :=
  (inside.filter fun vertex => vertex ∉ state.visited).card

theorem unvisited_le {inside : Finset α} {first last : State α}
    (grown : ∀ vertex ∈ first.visited, vertex ∈ last.visited) :
    unvisited inside last ≤ unvisited inside first := by
  apply Finset.card_le_card
  intro vertex
  simp only [Finset.mem_filter]
  rintro ⟨within, unmarked⟩
  exact ⟨within, fun marked => unmarked (grown vertex marked)⟩

theorem unvisited_lt {inside : Finset α} {state : State α} {vertex : α} (within : vertex ∈ inside)
    (unmarked : vertex ∉ state.visited) :
    unvisited inside { state with visited := vertex :: state.visited } < unvisited inside state := by
  apply Finset.card_lt_card
  rw [Finset.ssubset_iff_of_subset]
  · exact ⟨vertex, by simp [within, unmarked], by simp⟩
  · intro other
    simp only [Finset.mem_filter, List.mem_cons, not_or]
    exact fun kept => ⟨kept.1, kept.2.2⟩

theorem foldlM_returns {call : State α → α → Outcome ε (State α)} {inside : Finset α} {depth : Nat}
    (grows : ∀ state vertex next, call state vertex = value next →
      ∀ other ∈ state.visited, other ∈ next.visited)
    (each : ∀ state, unvisited inside state < depth → ∀ vertex ∈ inside,
      ∃ next, call state vertex = value next)
    {roots : List α} (within : ∀ root ∈ roots, root ∈ inside)
    (state : State α) (enough : unvisited inside state < depth) :
    ∃ next, roots.foldlM call state = value next := by
  induction roots generalizing state with
  | nil => exact ⟨state, rfl⟩
  | cons root rest ih =>
      obtain ⟨next, stepped⟩ := each state enough root (within root List.mem_cons_self)
      have smaller : unvisited inside next ≤ unvisited inside state :=
        unvisited_le (grows state root next stepped)
      obtain ⟨last, looped⟩ := ih (fun other listed => within other (List.mem_cons_of_mem root listed))
        next (by omega)
      exact ⟨last, by simp [List.foldlM_cons, stepped, looped]⟩

theorem explore_grows {depth : Nat} {state next : State α} {vertex : α}
    (returned : explore children depth state vertex = (value next : Outcome ε (State α))) :
    ∀ other ∈ state.visited, other ∈ next.visited := by
  obtain ⟨new, explored⟩ := explore_explored returned
  exact fun other marked => (explored.visited other).mpr (Or.inl marked)

theorem explore_returns {inside : Finset α}
    (closed : ∀ vertex ∈ inside, ∀ child ∈ children vertex, child ∈ inside)
    (depth : Nat) (state : State α) (enough : unvisited inside state < depth)
    (vertex : α) (within : vertex ∈ inside) :
    ∃ next, explore children depth state vertex = (value next : Outcome ε (State α)) := by
  induction depth generalizing state vertex with
  | zero => omega
  | succ depth ih =>
      by_cases marked : vertex ∈ state.visited
      · exact ⟨state, by simp [explore, exploreBody, marked]⟩
      · have fewer := unvisited_lt within marked
        obtain ⟨last, looped⟩ := foldlM_returns (fun _ _ _ => explore_grows) ih
          (closed vertex within) { state with visited := vertex :: state.visited } (by omega)
        refine ⟨{ last with finished := last.finished ++ [vertex] }, ?_⟩
        unfold explore at looped
        simp [explore, exploreBody, marked, looped]

theorem exploreAll_returns {roots : List α}
    (finite : {vertex | Reached children roots vertex}.Finite) :
    ∃ depth last, exploreAll children depth roots = (value last : Outcome ε (State α)) := by
  let inside := finite.toFinset
  have member : ∀ vertex, vertex ∈ inside ↔ Reached children roots vertex := by
    simp [inside]
  have closed : ∀ vertex ∈ inside, ∀ child ∈ children vertex, child ∈ inside := by
    intro vertex within child edge
    exact (member child).mpr (((member vertex).mp within).child edge)
  refine ⟨unvisited inside ⟨[], []⟩ + 1, ?_⟩
  have within : ∀ root ∈ roots, root ∈ inside :=
    fun root listed => (member root).mpr (Reached.root listed)
  exact foldlM_returns (fun _ _ _ => explore_grows) (explore_returns closed _) within _
    (Nat.lt_succ_self _)

end Explore

end Traversal
