import Stad.Bounded
import Mathlib.Logic.Relation
import Mathlib.Order.WellFounded

/-!
Walks that work on a vertex, walk its children, and work on the vertex again. They
do not remember where they have been: a vertex with two parents is walked twice, and
a walk ends exactly when no path from its start goes on for ever. What it does is the
list of its arrivals and departures, taken in turn.
-/

namespace TreeWalk

open Bounded Bounded.Outcome Relation

variable {ε α σ : Type}

structure Walker (ε α σ : Type) where
  enter : α → σ → Outcome ε (σ × List α)
  leave : α → σ → Outcome ε σ

namespace Walker

def body (walker : Walker ε α σ) (call : α × σ → Outcome ε σ) : α × σ → Outcome ε σ :=
  fun (vertex, state) => do
    let (entered, children) ← walker.enter vertex state
    let walked ← children.foldlM (fun state child => call (child, state)) entered
    walker.leave vertex walked

def walk (walker : Walker ε α σ) (depth : Nat) (vertex : α) (state : σ) : Outcome ε σ :=
  unroll walker.body depth (vertex, state)

theorem body_continuous (walker : Walker ε α σ) : Continuous walker.body := by
  rintro call call' agrees ⟨vertex, state⟩
  refine Agrees.bind (Agrees.refl _) fun ⟨entered, children⟩ => ?_
  refine Agrees.bind (foldlM_agrees (fun state child => agrees (child, state)) children entered) ?_
  exact fun _ => Agrees.refl _

theorem walk_congr {walker walker' : Walker ε α σ} {inside : α → Prop}
    (enters : ∀ vertex, inside vertex → ∀ state, walker.enter vertex state = walker'.enter vertex state)
    (leaves : ∀ vertex, inside vertex → ∀ state, walker.leave vertex state = walker'.leave vertex state)
    (closed : ∀ vertex, inside vertex → ∀ state entered children,
      walker.enter vertex state = value (entered, children) → ∀ child ∈ children, inside child)
    (depth : Nat) {vertex : α} (within : inside vertex) (state : σ) :
    walker.walk depth vertex state = walker'.walk depth vertex state := by
  induction depth generalizing vertex state with
  | zero => rfl
  | succ depth ih =>
      change walker.body (unroll walker.body depth) (vertex, state) =
        walker'.body (unroll walker'.body depth) (vertex, state)
      simp only [body, ← enters vertex within, ← leaves vertex within]
      cases entering : walker.enter vertex state with
      | error thrown => rfl
      | exhausted => rfl
      | value pair =>
          have loop := foldlM_congr_of_mem (fun child listed state =>
            ih (closed vertex within _ _ _ entering child listed) state) pair.1
          unfold walk at loop
          simp only [value_bind, loop]

end Walker

inductive Event (α : Type) where
  | enter (vertex : α)
  | leave (vertex : α)
  deriving DecidableEq, Repr

def trace (children : α → List α) : Nat → α → List (Event α)
  | 0, _ => []
  | depth + 1, vertex =>
      .enter vertex :: (children vertex).flatMap (trace children depth) ++ [.leave vertex]

structure Deeds (α σ : Type) where
  children : α → List α
  entering : α → σ → σ
  leaving : α → σ → σ

def Deeds.act (deeds : Deeds α σ) (state : σ) : Event α → σ
  | .enter vertex => deeds.entering vertex state
  | .leave vertex => deeds.leaving vertex state

structure Performs (walker : Walker ε α σ) (deeds : Deeds α σ) : Prop where
  enter : ∀ {vertex state entered}, walker.enter vertex state = value entered →
    entered = (deeds.entering vertex state, deeds.children vertex)
  leave : ∀ {vertex state left}, walker.leave vertex state = value left →
    left = deeds.leaving vertex state

section Walk

variable {walker : Walker ε α σ} {deeds : Deeds α σ}

theorem foldlM_trace {call : α × σ → Outcome ε σ} (steps : α → List (Event α))
    (each : ∀ child state next, call (child, state) = value next →
      next = (steps child).foldl deeds.act state)
    {children : List α} {first last : σ}
    (returned : children.foldlM (fun state child => call (child, state)) first = value last) :
    last = (children.flatMap steps).foldl deeds.act first := by
  refine foldlM_induction returned
    (fun done state => state = (done.flatMap steps).foldl deeds.act first) rfl ?_
  intro done child rest state next _ sofar stepped
  rw [List.flatMap_append, List.foldl_append, ← sofar, List.flatMap_singleton]
  exact each child state next stepped

/-- A walk that returns has done what its arrivals and departures do, in their order. -/
theorem walk_returned (performs : Performs walker deeds) (depth : Nat) {vertex : α}
    {state last : σ} (returned : walker.walk depth vertex state = value last) :
    last = (trace deeds.children depth vertex).foldl deeds.act state := by
  induction depth generalizing vertex state last with
  | zero => simp [Walker.walk] at returned
  | succ depth ih =>
      rw [Walker.walk, unroll_succ, Walker.body] at returned
      obtain ⟨⟨entered, children⟩, enter, returned⟩ := bind_eq_value.mp returned
      obtain ⟨walked, looped, leave⟩ := bind_eq_value.mp returned
      cases performs.enter enter
      have below := foldlM_trace (trace deeds.children depth)
        (fun child state next stepped => ih stepped) looped
      rw [performs.leave leave, below]
      simp [trace, Deeds.act, List.foldl_append]

theorem walk_acc (performs : Performs walker deeds) {depth : Nat} {vertex : α} {state last : σ}
    (returned : walker.walk depth vertex state = value last) :
    Acc (fun child parent => child ∈ deeds.children parent) vertex := by
  suffices general : ∀ (argument : α × σ) (last : σ),
      unroll walker.body depth argument = value last →
      Acc (fun child parent => child ∈ deeds.children parent) argument.1 from
    general (vertex, state) last returned
  apply unroll_returned
  rintro call correct ⟨vertex, state⟩ last returned
  obtain ⟨⟨entered, children⟩, enter, returned⟩ := bind_eq_value.mp returned
  obtain ⟨walked, looped, _⟩ := bind_eq_value.mp returned
  cases performs.enter enter
  refine Acc.intro vertex fun child listed => ?_
  obtain ⟨before, after, called⟩ := foldlM_rounds looped child listed
  exact correct (child, before) after called

theorem foldlM_walks {depth : Nat} {children : List α}
    (each : ∀ child ∈ children, ∀ state, ∃ last, walker.walk depth child state = value last)
    (state : σ) :
    ∃ last, children.foldlM (fun state child => walker.walk depth child state) state =
      value last := by
  induction children generalizing state with
  | nil => exact ⟨state, rfl⟩
  | cons child rest ih =>
      obtain ⟨next, stepped⟩ := each child (by simp) state
      obtain ⟨last, looped⟩ := ih (fun other listed => each other (by simp [listed])) next
      exact ⟨last, by simp [List.foldlM_cons, stepped, looped]⟩

theorem exists_depth (children : List α)
    (each : ∀ child ∈ children, ∃ depth, ∀ state, ∃ last,
      walker.walk depth child state = value last) :
    ∃ depth, ∀ child ∈ children, ∀ state, ∃ last, walker.walk depth child state = value last := by
  refine exists_common (fun depth deeper child le enough state => ?_) each
  obtain ⟨last, returned⟩ := enough state
  exact ⟨last, (unroll_agrees walker.body_continuous le (child, state)).value returned⟩

def Sound (walker : Walker ε α σ) (vertex : α) : Prop :=
  (∀ state, ∃ entered, walker.enter vertex state = value entered) ∧
    ∀ state, ∃ left, walker.leave vertex state = value left

theorem walk_returns (performs : Performs walker deeds) {vertex : α}
    (sound : ∀ other, ReflTransGen (fun parent child => child ∈ deeds.children parent) vertex other →
      Sound walker other)
    (ends : Acc (fun child parent => child ∈ deeds.children parent) vertex) :
    ∃ depth, ∀ state, ∃ last, walker.walk depth vertex state = value last := by
  induction ends with
  | intro vertex _ ih =>
      have each : ∀ child ∈ deeds.children vertex, ∃ depth, ∀ state, ∃ last,
          walker.walk depth child state = value last :=
        fun child listed => ih child listed fun other path => sound other (.head listed path)
      obtain ⟨depth, enough⟩ := exists_depth _ each
      refine ⟨depth + 1, fun state => ?_⟩
      obtain ⟨entered, enter⟩ := (sound vertex .refl).1 state
      cases performs.enter enter
      obtain ⟨walked, looped⟩ := foldlM_walks enough (deeds.entering vertex state)
      obtain ⟨left, leave⟩ := (sound vertex .refl).2 walked
      refine ⟨left, ?_⟩
      unfold Walker.walk at looped
      simp [Walker.walk, Walker.body, enter, looped, leave]

/-- A walk that meets no failure returns exactly when all paths from its start end. -/
theorem walk_returns_iff (performs : Performs walker deeds) {vertex : α}
    (sound : ∀ other, ReflTransGen (fun parent child => child ∈ deeds.children parent) vertex other →
      Sound walker other) (state : σ) :
    (∃ depth last, walker.walk depth vertex state = value last) ↔
      Acc (fun child parent => child ∈ deeds.children parent) vertex := by
  constructor
  · rintro ⟨depth, last, returned⟩
    exact walk_acc performs returned
  · intro ends
    obtain ⟨depth, enough⟩ := walk_returns performs sound ends
    exact ⟨depth, enough state⟩

end Walk

/-! The vertices in the order of their arrivals and of their departures. -/

def Event.entered : Event α → Option α
  | .enter vertex => some vertex
  | .leave _ => none

def Event.left : Event α → Option α
  | .enter _ => none
  | .leave vertex => some vertex

def preorder (children : α → List α) : Nat → α → List α
  | 0, _ => []
  | depth + 1, vertex => vertex :: (children vertex).flatMap (preorder children depth)

def postorder (children : α → List α) : Nat → α → List α
  | 0, _ => []
  | depth + 1, vertex => (children vertex).flatMap (postorder children depth) ++ [vertex]

theorem trace_entered (children : α → List α) (depth : Nat) (vertex : α) :
    (trace children depth vertex).filterMap Event.entered = preorder children depth vertex := by
  induction depth generalizing vertex with
  | zero => rfl
  | succ depth ih =>
      simp only [trace, preorder, List.cons_append, List.filterMap_cons, Event.entered,
        List.filterMap_append, List.filterMap_nil, List.append_nil]
      rw [List.filterMap_flatMap]
      simp only [ih]

theorem trace_left (children : α → List α) (depth : Nat) (vertex : α) :
    (trace children depth vertex).filterMap Event.left = postorder children depth vertex := by
  induction depth generalizing vertex with
  | zero => rfl
  | succ depth ih =>
      simp only [trace, postorder, List.cons_append, List.filterMap_cons, Event.left,
        List.filterMap_append, List.filterMap_nil]
      rw [List.filterMap_flatMap]
      simp only [ih]

theorem foldl_entered (deeds : Deeds α σ) {τ : Type} (view : σ → τ) (step : τ → α → τ)
    (entering : ∀ vertex state, view (deeds.entering vertex state) = step (view state) vertex)
    (leaving : ∀ vertex state, view (deeds.leaving vertex state) = view state)
    (events : List (Event α)) (state : σ) :
    view (events.foldl deeds.act state) = (events.filterMap Event.entered).foldl step (view state) := by
  induction events generalizing state with
  | nil => rfl
  | cons event rest ih =>
      rw [List.foldl_cons, ih]
      cases event with
      | enter vertex => simp [Deeds.act, Event.entered, entering]
      | leave vertex => simp [Deeds.act, Event.entered, List.filterMap_cons, leaving]

theorem foldl_left (deeds : Deeds α σ) {τ : Type} (view : σ → τ) (step : τ → α → τ)
    (entering : ∀ vertex state, view (deeds.entering vertex state) = view state)
    (leaving : ∀ vertex state, view (deeds.leaving vertex state) = step (view state) vertex)
    (events : List (Event α)) (state : σ) :
    view (events.foldl deeds.act state) = (events.filterMap Event.left).foldl step (view state) := by
  induction events generalizing state with
  | nil => rfl
  | cons event rest ih =>
      rw [List.foldl_cons, ih]
      cases event with
      | enter vertex => simp [Deeds.act, Event.left, List.filterMap_cons, entering]
      | leave vertex => simp [Deeds.act, Event.left, leaving]

theorem mem_preorder {children : α → List α} {depth : Nat} {vertex other : α}
    (listed : other ∈ preorder children depth vertex) :
    ReflTransGen (fun parent child => child ∈ children parent) vertex other := by
  induction depth generalizing vertex with
  | zero => cases listed
  | succ depth ih =>
      rcases List.mem_cons.mp listed with rfl | below
      · exact .refl
      · obtain ⟨child, edge, below⟩ := List.mem_flatMap.mp below
        exact .head edge (ih below)

theorem walk_reaches {walker : Walker ε α σ} {deeds : Deeds α σ} (performs : Performs walker deeds)
    {depth : Nat} {vertex other : α} {state last : σ}
    (returned : walker.walk depth vertex state = value last)
    (reached : ReflTransGen (fun parent child => child ∈ deeds.children parent) vertex other) :
    other ∈ preorder deeds.children depth vertex := by
  induction depth generalizing vertex state last with
  | zero => simp [Walker.walk] at returned
  | succ depth ih =>
      rcases ReflTransGen.cases_head reached with rfl | ⟨child, edge, path⟩
      · exact List.mem_cons_self
      · rw [Walker.walk, unroll_succ, Walker.body] at returned
        obtain ⟨⟨entered, children⟩, enter, returned⟩ := bind_eq_value.mp returned
        obtain ⟨walked, looped, _⟩ := bind_eq_value.mp returned
        cases performs.enter enter
        obtain ⟨before, after, called⟩ := foldlM_rounds looped child edge
        exact List.mem_cons_of_mem _ (List.mem_flatMap.mpr ⟨child, edge, ih called path⟩)

theorem walk_visits {walker : Walker ε α σ} {deeds : Deeds α σ} (performs : Performs walker deeds)
    {depth : Nat} {vertex other : α} {state last : σ}
    (returned : walker.walk depth vertex state = value last)
    (reached : ReflTransGen (fun parent child => child ∈ deeds.children parent) vertex other) :
    (∃ before entered, walker.enter other before = value entered) ∧
      ∃ before left, walker.leave other before = value left := by
  induction depth generalizing vertex state last with
  | zero => simp [Walker.walk] at returned
  | succ depth ih =>
      rw [Walker.walk, unroll_succ, Walker.body] at returned
      obtain ⟨⟨entered, children⟩, enter, returned⟩ := bind_eq_value.mp returned
      obtain ⟨walked, looped, leave⟩ := bind_eq_value.mp returned
      rcases ReflTransGen.cases_head reached with rfl | ⟨child, edge, path⟩
      · exact ⟨⟨state, _, enter⟩, walked, last, leave⟩
      · cases performs.enter enter
        obtain ⟨before, after, called⟩ := foldlM_rounds looped child edge
        exact ih called path

theorem exists_common_of_acc {children : α → List α} {holds : Nat → α → Prop}
    (kept : ∀ fuel more vertex, fuel ≤ more → holds fuel vertex → holds more vertex) {vertex : α}
    (ends : Acc (fun child parent => child ∈ children parent) vertex)
    (each : ∀ other, ReflTransGen (fun parent child => child ∈ children parent) vertex other →
      ∃ fuel, holds fuel other) :
    ∃ fuel, ∀ other, ReflTransGen (fun parent child => child ∈ children parent) vertex other →
      holds fuel other := by
  induction ends with
  | intro vertex _ ih =>
      obtain ⟨here, holdsHere⟩ := each vertex .refl
      have below : ∃ fuel, ∀ child ∈ children vertex, ∀ other,
          ReflTransGen (fun parent child => child ∈ children parent) child other →
          holds fuel other := by
        refine exists_common (fun fuel more child le enough other path => ?_) ?_
        · exact kept fuel more other le (enough other path)
        · exact fun child edge => ih child edge fun other path => each other (.head edge path)
      obtain ⟨there, holdsThere⟩ := below
      refine ⟨max here there, fun other reached => ?_⟩
      rcases ReflTransGen.cases_head reached with rfl | ⟨child, edge, path⟩
      · exact kept here _ _ (Nat.le_max_left _ _) holdsHere
      · exact kept there _ _ (Nat.le_max_right _ _) (holdsThere child edge other path)

theorem acc_iff_of_map {β : Type} {children : α → List α} {below : β → List β} (image : α → β)
    {vertex : α} (simulates : ∀ other,
      ReflTransGen (fun parent child => child ∈ children parent) vertex other →
      (children other).map image = below (image other)) :
    Acc (fun child parent => child ∈ children parent) vertex ↔
      Acc (fun child parent => child ∈ below parent) (image vertex) := by
  constructor
  · intro ends
    induction ends with
    | intro vertex _ ih =>
        refine Acc.intro _ fun child edge => ?_
        rw [← simulates vertex .refl] at edge
        obtain ⟨source, listed, rfl⟩ := List.mem_map.mp edge
        exact ih source listed fun other path => simulates other (.head listed path)
  · intro ends
    generalize stands : image vertex = target at ends
    induction ends generalizing vertex with
    | intro target _ ih =>
        refine Acc.intro _ fun child listed => ?_
        have edge : image child ∈ below target := by
          rw [← stands, ← simulates vertex .refl]
          exact List.mem_map_of_mem listed
        exact ih (image child) edge (fun other path => simulates other (.head listed path)) rfl

end TreeWalk
