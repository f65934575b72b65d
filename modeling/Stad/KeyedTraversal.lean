import Mathlib.Data.Finset.Card
import Mathlib.Logic.Relation
import Stad.Bounded

/-!
Depth-first traversal where a vertex is marked by its key. Vertices without a key are
passed over, and of several vertices with one key only the first is expanded. When the
keys that can be reached are finitely many the traversal ends whatever the edges are, and
when vertices with one key have the same children it marks exactly those keys.
-/

namespace KeyedTraversal

open Bounded Bounded.Outcome Relation

variable {ε ν κ : Type}

/-- A child may turn out to be unreadable when its turn comes. -/
structure Graph (ε ν κ : Type) where
  locate : ν → Option κ
  children : ν → List (Except ε ν)

def Graph.Edge (graph : Graph ε ν κ) (parent child : ν) : Prop :=
  (graph.locate parent).isSome ∧ Except.ok child ∈ graph.children parent

def Graph.Reached (graph : Graph ε ν κ) (roots : List (Except ε ν)) (vertex : ν) : Prop :=
  ∃ root, Except.ok root ∈ roots ∧ ReflTransGen graph.Edge root vertex

def Graph.Covers (graph : Graph ε ν κ) (marked : List κ) (roots : List (Except ε ν)) : Prop :=
  ∀ root ∈ roots, ∃ vertex, root = .ok vertex ∧ ∀ key ∈ graph.locate vertex, key ∈ marked

/-- Vertices with one key have the same children. -/
def Graph.Consistent (graph : Graph ε ν κ) : Prop :=
  ∀ vertex other key, graph.locate vertex = some key → graph.locate other = some key →
    graph.children vertex = graph.children other

theorem Graph.Covers.mono {graph : Graph ε ν κ} {marked marked' : List κ}
    {roots : List (Except ε ν)} (covers : graph.Covers marked roots)
    (grown : ∀ key ∈ marked, key ∈ marked') : graph.Covers marked' roots := by
  intro root listed
  obtain ⟨vertex, readable, located⟩ := covers root listed
  exact ⟨vertex, readable, fun key found => grown key (located key found)⟩

/-- What exploring some roots may do to the marked keys. -/
structure Explored (graph : Graph ε ν κ) (roots : List (Except ε ν)) (first last new : List κ) :
    Prop where
  appended : last = first ++ new
  nodup : new.Nodup
  fresh : ∀ key ∈ new, key ∉ first
  expanded : ∀ key ∈ new, ∃ vertex, graph.Reached roots vertex ∧ graph.locate vertex = some key ∧
    graph.Covers last (graph.children vertex)
  covers : graph.Covers last roots

section Explored

variable {graph : Graph ε ν κ}

theorem Graph.Reached.mono {roots roots' : List (Except ε ν)} {vertex : ν}
    (within : ∀ root ∈ roots, root ∈ roots') (reached : graph.Reached roots vertex) :
    graph.Reached roots' vertex := by
  obtain ⟨root, listed, path⟩ := reached
  exact ⟨root, within _ listed, path⟩

theorem Explored.nothing (marked : List κ) : Explored graph [] marked marked [] :=
  ⟨(List.append_nil _).symm, List.nodup_nil, by simp, by simp, by simp [Graph.Covers]⟩

theorem Explored.known {marked : List κ} {vertex : ν}
    (known : ∀ key ∈ graph.locate vertex, key ∈ marked) :
    Explored graph [.ok vertex] marked marked [] := by
  refine ⟨(List.append_nil _).symm, List.nodup_nil, by simp, by simp, ?_⟩
  intro root listed
  exact ⟨vertex, List.mem_singleton.mp listed, known⟩

theorem Explored.append {roots roots' : List (Except ε ν)} {first middle last new new' : List κ}
    (before : Explored graph roots first middle new)
    (after : Explored graph roots' middle last new') :
    Explored graph (roots ++ roots') first last (new ++ new') := by
  have kept : ∀ key ∈ middle, key ∈ last := by
    intro key marked
    rw [after.appended]
    exact List.mem_append_left _ marked
  constructor
  · rw [after.appended, before.appended, List.append_assoc]
  · refine List.Nodup.append before.nodup after.nodup ?_
    intro key early late
    apply after.fresh key late
    rw [before.appended]
    exact List.mem_append_right _ early
  · intro key added marked
    rcases List.mem_append.mp added with early | late
    · exact before.fresh key early marked
    · apply after.fresh key late
      rw [before.appended]
      exact List.mem_append_left _ marked
  · intro key added
    rcases List.mem_append.mp added with early | late
    · obtain ⟨vertex, reached, located, covers⟩ := before.expanded key early
      exact ⟨vertex, reached.mono fun _ => List.mem_append_left _, located, covers.mono kept⟩
    · obtain ⟨vertex, reached, located, covers⟩ := after.expanded key late
      exact ⟨vertex, reached.mono fun _ => List.mem_append_right _, located, covers⟩
  · intro root listed
    rcases List.mem_append.mp listed with early | late
    · exact (before.covers.mono kept) root early
    · exact after.covers root late

theorem Explored.expand {vertex : ν} {key : κ} {first last new : List κ}
    (located : graph.locate vertex = some key) (unmarked : key ∉ first)
    (explored : Explored graph (graph.children vertex) (first ++ [key]) last new) :
    Explored graph [.ok vertex] first last (key :: new) := by
  have fresh : ∀ other ∈ new, other ∉ first ++ [key] := explored.fresh
  constructor
  · rw [explored.appended, List.append_assoc]
    rfl
  · refine List.nodup_cons.mpr ⟨fun again => fresh key again ?_, explored.nodup⟩
    simp
  · intro other added
    rcases List.mem_cons.mp added with rfl | below
    · exact unmarked
    · exact fun marked => fresh other below (List.mem_append_left _ marked)
  · intro other added
    rcases List.mem_cons.mp added with rfl | below
    · exact ⟨vertex, ⟨vertex, List.mem_singleton_self _, .refl⟩, located, explored.covers⟩
    · obtain ⟨lower, ⟨child, listed, path⟩, lowerKey, covers⟩ := explored.expanded other below
      have edge : graph.Edge vertex child := ⟨by rw [located]; rfl, listed⟩
      exact ⟨lower, ⟨vertex, List.mem_singleton_self _, .head edge path⟩, lowerKey, covers⟩
  · intro root listed
    refine ⟨vertex, List.mem_singleton.mp listed, fun found same => ?_⟩
    rw [located] at same
    cases same
    rw [explored.appended]
    simp

def visit (call : ν × List κ → Outcome ε (List κ)) (marked : List κ) (child : Except ε ν) :
    Outcome ε (List κ) := do
  let vertex ← ofExcept child
  call (vertex, marked)

theorem foldlM_explored {call : ν × List κ → Outcome ε (List κ)}
    (each : ∀ vertex marked next, call (vertex, marked) = value next →
      ∃ new, Explored graph [.ok vertex] marked next new)
    {roots : List (Except ε ν)} {first last : List κ}
    (returned : roots.foldlM (visit call) first = value last) :
    ∃ new, Explored graph roots first last new := by
  refine foldlM_induction returned (fun done marked => ∃ new, Explored graph done first marked new)
    ⟨[], Explored.nothing first⟩ ?_
  rintro done root rest marked next - ⟨new, sofar⟩ stepped
  obtain ⟨vertex, readable, called⟩ := bind_eq_value.mp stepped
  rw [ofExcept_eq_value.mp readable]
  obtain ⟨new', explored⟩ := each vertex marked next called
  exact ⟨new ++ new', sofar.append explored⟩

end Explored

section Traverse

variable [DecidableEq κ]

def body (graph : Graph ε ν κ) (call : ν × List κ → Outcome ε (List κ)) :
    ν × List κ → Outcome ε (List κ) :=
  fun (vertex, marked) =>
    match graph.locate vertex with
    | none => return marked
    | some key =>
        if key ∈ marked then return marked
        else (graph.children vertex).foldlM (visit call) (marked ++ [key])

def traverse (graph : Graph ε ν κ) (depth : Nat) (roots : List (Except ε ν)) (marked : List κ) :
    Outcome ε (List κ) :=
  roots.foldlM (visit (unroll (body graph) depth)) marked

variable {graph : Graph ε ν κ}

theorem unroll_explored {depth : Nat} {vertex : ν} {marked last : List κ}
    (returned : unroll (body graph) depth (vertex, marked) = value last) :
    ∃ new, Explored graph [.ok vertex] marked last new := by
  suffices general : ∀ (argument : ν × List κ) (last : List κ),
      unroll (body graph) depth argument = value last →
      ∃ new, Explored graph [.ok argument.1] argument.2 last new from
    general (vertex, marked) last returned
  apply unroll_returned
  rintro call correct ⟨vertex, marked⟩ last returned
  simp only [body] at returned
  split at returned
  · rename_i absent
    have same : marked = last := by simpa using returned
    exact same ▸ ⟨[], Explored.known (by simp [absent])⟩
  · rename_i key located
    split at returned
    · rename_i known
      have same : marked = last := by simpa using returned
      refine same ▸ ⟨[], Explored.known ?_⟩
      intro other found
      rw [located] at found
      cases found
      exact known
    · rename_i unmarked
      obtain ⟨new, explored⟩ := foldlM_explored
        (fun child before next stepped => correct (child, before) next stepped) returned
      exact ⟨key :: new, explored.expand located unmarked⟩

/-- A traversal marks keys of vertices it can reach, each once, and leaves no child of the
vertices that it has expanded unmarked. -/
theorem traverse_returned {depth : Nat} {roots : List (Except ε ν)} {last : List κ}
    (returned : traverse graph depth roots [] = value last) :
    last.Nodup ∧ graph.Covers last roots ∧
      ∀ key ∈ last, ∃ vertex, graph.Reached roots vertex ∧ graph.locate vertex = some key ∧
        graph.Covers last (graph.children vertex) := by
  obtain ⟨new, explored⟩ := foldlM_explored (fun _ _ _ => unroll_explored) returned
  have all : last = new := by simpa using explored.appended
  subst all
  exact ⟨explored.nodup, explored.covers, explored.expanded⟩

theorem traverse_mem_iff (consistent : graph.Consistent) {depth : Nat}
    {roots : List (Except ε ν)} {last : List κ}
    (returned : traverse graph depth roots [] = value last) (key : κ) :
    key ∈ last ↔ ∃ vertex, graph.Reached roots vertex ∧ graph.locate vertex = some key := by
  obtain ⟨_, covers, expanded⟩ := traverse_returned returned
  constructor
  · intro marked
    obtain ⟨vertex, reached, located, _⟩ := expanded key marked
    exact ⟨vertex, reached, located⟩
  · rintro ⟨vertex, ⟨root, listed, path⟩, located⟩
    have all : ∀ found ∈ graph.locate vertex, found ∈ last := by
      clear located
      induction path with
      | refl =>
          obtain ⟨same, readable, known⟩ := covers _ listed
          cases readable
          exact known
      | @tail parent child _ edge ih =>
          obtain ⟨hasKey, inChildren⟩ := edge
          obtain ⟨parentKey, parentLocated⟩ := Option.isSome_iff_exists.mp hasKey
          obtain ⟨twin, _, twinLocated, below⟩ := expanded parentKey (ih parentKey parentLocated)
          rw [consistent twin parent parentKey twinLocated parentLocated] at below
          obtain ⟨same, readable, known⟩ := below _ inChildren
          cases readable
          exact known
    exact all key located

/-! A traversal of finitely many keys ends. -/

def unmarked (inside : Finset κ) (marked : List κ) : Nat :=
  (inside.filter fun key => key ∉ marked).card

theorem unmarked_le {inside : Finset κ} {marked marked' : List κ}
    (grown : ∀ key ∈ marked, key ∈ marked') : unmarked inside marked' ≤ unmarked inside marked := by
  apply Finset.card_le_card
  intro key
  simp only [Finset.mem_filter]
  exact fun ⟨within, new⟩ => ⟨within, fun old => new (grown key old)⟩

theorem unmarked_lt {inside : Finset κ} {marked : List κ} {key : κ} (within : key ∈ inside)
    (new : key ∉ marked) : unmarked inside (marked ++ [key]) < unmarked inside marked := by
  apply Finset.card_lt_card
  rw [Finset.ssubset_iff_of_subset]
  · exact ⟨key, by simp [within, new], by simp⟩
  · intro other
    simp only [Finset.mem_filter, List.mem_append, List.mem_singleton, not_or]
    exact fun kept => ⟨kept.1, kept.2.1⟩

theorem foldlM_ends {call : ν × List κ → Outcome ε (List κ)} {inside : Finset κ} {depth : Nat}
    (grows : ∀ vertex marked next, call (vertex, marked) = value next →
      ∀ key ∈ marked, key ∈ next)
    {roots : List (Except ε ν)}
    (each : ∀ vertex, Except.ok vertex ∈ roots → ∀ marked, unmarked inside marked < depth →
      call (vertex, marked) ≠ exhausted)
    (marked : List κ) (enough : unmarked inside marked < depth) :
    roots.foldlM (visit call) marked ≠ exhausted := by
  induction roots generalizing marked with
  | nil => simp
  | cons root rest ih =>
      rw [List.foldlM_cons]
      cases root with
      | error thrown => simp [visit]
      | ok vertex =>
          have step : visit call marked (.ok vertex) = call (vertex, marked) := rfl
          rw [step]
          cases called : call (vertex, marked) with
          | value next =>
              have smaller : unmarked inside next ≤ unmarked inside marked :=
                unmarked_le (grows vertex marked next called)
              exact ih (fun other listed => each other (List.mem_cons_of_mem _ listed)) next
                (Nat.lt_of_le_of_lt smaller enough)
          | error thrown => simp
          | exhausted => exact absurd called (each vertex List.mem_cons_self marked enough)

theorem unroll_grows {depth : Nat} {vertex : ν} {marked next : List κ}
    (returned : unroll (body graph) depth (vertex, marked) = value next) :
    ∀ key ∈ marked, key ∈ next := by
  obtain ⟨new, explored⟩ := unroll_explored returned
  intro key member
  rw [explored.appended]
  exact List.mem_append_left _ member

theorem unroll_ends {inside : Finset κ} {depth : Nat} {vertex : ν}
    (located : ∀ other key, ReflTransGen graph.Edge vertex other →
      graph.locate other = some key → key ∈ inside)
    (marked : List κ) (enough : unmarked inside marked < depth) :
    unroll (body graph) depth (vertex, marked) ≠ exhausted := by
  induction depth generalizing vertex marked with
  | zero => omega
  | succ depth ih =>
      rw [unroll_succ]
      unfold body
      simp only
      split
      · simp
      · rename_i key found
        split
        · simp
        · rename_i new
          have fewer := unmarked_lt (located vertex key .refl found) new
          refine foldlM_ends (fun _ _ _ => unroll_grows) (fun child listed => ih ?_) _ (by omega)
          have edge : graph.Edge vertex child := ⟨by rw [found]; rfl, listed⟩
          exact fun other key path => located other key (.head edge path)

theorem traverse_ends {inside : Finset κ} {roots : List (Except ε ν)}
    (located : ∀ vertex key, graph.Reached roots vertex → graph.locate vertex = some key →
      key ∈ inside) (marked : List κ) :
    traverse graph (inside.card + 1) roots marked ≠ exhausted := by
  refine foldlM_ends (fun _ _ _ => unroll_grows) (fun root listed => unroll_ends ?_) marked
    (Nat.lt_succ_of_le (Finset.card_filter_le _ _))
  exact fun vertex key path => located vertex key ⟨root, listed, path⟩

theorem body_continuous (graph : Graph ε ν κ) : Continuous (body graph) := by
  rintro call call' agrees ⟨vertex, marked⟩
  simp only [body]
  split
  · exact Agrees.refl _
  · refine Agrees.ite (Agrees.refl _) (foldlM_agrees (fun before child => ?_) _ _)
    exact Agrees.bind (Agrees.refl _) fun other => agrees (other, before)

end Traverse

end KeyedTraversal
