import Mathlib.Data.List.Induction

/-!
Recursion run to a bounded depth. A body that may call itself is unrolled a
given number of times, and a run that would call deeper than that is exhausted.
More depth never changes a run that is not exhausted, so ending means that some
depth is enough, and a run can be reasoned about one call at a time.
-/

namespace Bounded

inductive Outcome (ε α : Type) where
  | value (result : α)
  | error (thrown : ε)
  | exhausted
  deriving DecidableEq, Repr

namespace Outcome

variable {ε α β : Type}

protected def bind (first : Outcome ε α) (next : α → Outcome ε β) : Outcome ε β :=
  match first with
  | value result => next result
  | error thrown => error thrown
  | exhausted => exhausted

instance : Monad (Outcome ε) where
  pure := Outcome.value
  bind := Outcome.bind

instance : LawfulMonad (Outcome ε) := LawfulMonad.mk' (Outcome ε)
  (by intro _ outcome; cases outcome <;> rfl)
  (by intro _ _ _ _; rfl)
  (by intro _ _ _ outcome _ _; cases outcome <;> rfl)

def ofExcept : Except ε α → Outcome ε α
  | .ok result => value result
  | .error thrown => error thrown

@[simp] theorem pure_eq (result : α) : (pure result : Outcome ε α) = value result := rfl

@[simp] theorem value_bind (result : α) (next : α → Outcome ε β) :
    (value result >>= next) = next result := rfl

@[simp] theorem error_bind (thrown : ε) (next : α → Outcome ε β) :
    ((error thrown : Outcome ε α) >>= next) = error thrown := rfl

@[simp] theorem exhausted_bind (next : α → Outcome ε β) :
    ((exhausted : Outcome ε α) >>= next) = exhausted := rfl

@[simp] theorem bind_value (first : Outcome ε α) : (first >>= value) = first := by
  cases first <;> rfl

@[simp] theorem ofExcept_ok (result : α) :
    (ofExcept (.ok result) : Outcome ε α) = value result := rfl

@[simp] theorem ofExcept_error (thrown : ε) :
    (ofExcept (.error thrown) : Outcome ε α) = error thrown := rfl

theorem bind_eq_value {first : Outcome ε α} {next : α → Outcome ε β} {result : β} :
    (first >>= next) = value result ↔
      ∃ middle, first = value middle ∧ next middle = value result := by
  cases first with
  | value middle => simp
  | error thrown => simp
  | exhausted => simp

@[simp] theorem map_value (view : α → β) (result : α) :
    (view <$> (value result : Outcome ε α)) = value (view result) := rfl

theorem map_eq_value {first : Outcome ε α} {view : α → β} {result : β} :
    (view <$> first) = value result ↔ ∃ middle, first = value middle ∧ view middle = result := by
  rw [map_eq_pure_bind, bind_eq_value]
  simp

theorem bind_ne_exhausted {first : Outcome ε α} {next : α → Outcome ε β}
    (decided : first ≠ exhausted) (rest : ∀ middle, next middle ≠ exhausted) :
    (first >>= next) ≠ exhausted := by
  cases first with
  | value middle => exact rest middle
  | error thrown => simp
  | exhausted => exact absurd rfl decided

theorem bind_ne_error {first : Outcome ε α} {next : α → Outcome ε β} {thrown : ε}
    (calm : first ≠ error thrown) (rest : ∀ middle, next middle ≠ error thrown) :
    (first >>= next) ≠ error thrown := by
  cases first with
  | value middle => exact rest middle
  | error other => simpa using calm
  | exhausted => simp

@[simp] theorem ofExcept_eq_value {attempt : Except ε α} {result : α} :
    ofExcept attempt = value result ↔ attempt = .ok result := by
  cases attempt <;> simp

@[simp] theorem ofExcept_ne_exhausted (attempt : Except ε α) : ofExcept attempt ≠ exhausted := by
  cases attempt <;> simp

end Outcome

open Outcome

variable {ε α β σ τ : Type}

theorem except_bind_eq_ok {first : Except ε α} {next : α → Except ε β} {result : β} :
    (first >>= next) = .ok result ↔ ∃ middle, first = .ok middle ∧ next middle = .ok result := by
  cases first with
  | ok middle => simp [bind, Except.bind]
  | error thrown => simp [bind, Except.bind]

theorem except_map_eq_ok {first : Except ε α} {view : α → β} {result : β} :
    (view <$> first) = .ok result ↔ ∃ middle, first = .ok middle ∧ view middle = result := by
  cases first with
  | ok middle => simp [Functor.map, Except.map]
  | error thrown => simp [Functor.map, Except.map]

theorem mapM_returns_iff {read : α → Except ε β} {items : List α} :
    (∃ results, items.mapM read = .ok results) ↔ ∀ item ∈ items, ∃ result, read item = .ok result := by
  induction items with
  | nil => simp [pure, Except.pure]
  | cons item rest ih =>
      rw [List.forall_mem_cons, ← ih, List.mapM_cons]
      constructor
      · rintro ⟨results, returned⟩
        obtain ⟨result, here, returned⟩ := except_bind_eq_ok.mp returned
        obtain ⟨results, later, _⟩ := except_bind_eq_ok.mp returned
        exact ⟨⟨result, here⟩, results, later⟩
      · rintro ⟨⟨result, here⟩, results, later⟩
        refine ⟨result :: results, except_bind_eq_ok.mpr ⟨result, here, ?_⟩⟩
        exact except_bind_eq_ok.mpr ⟨results, later, rfl⟩

theorem forM_returns_iff {read : α → Except ε Unit} {items : List α} :
    items.forM read = .ok () ↔ ∀ item ∈ items, read item = .ok () := by
  induction items with
  | nil => simp [pure, Except.pure]
  | cons item rest ih =>
      have unfolded : (item :: rest).forM read = (do read item; rest.forM read) := rfl
      rw [List.forall_mem_cons, ← ih, unfolded, except_bind_eq_ok]
      exact ⟨fun ⟨(), here, later⟩ => ⟨here, later⟩, fun ⟨here, later⟩ => ⟨(), here, later⟩⟩

theorem mem_mapM_iff {read : α → Except ε β} {items : List α} {results : List β}
    (returned : items.mapM read = .ok results) {result : β} :
    result ∈ results ↔ ∃ item ∈ items, read item = .ok result := by
  induction items generalizing results with
  | nil =>
      cases returned
      simp
  | cons item rest ih =>
      rw [List.mapM_cons] at returned
      obtain ⟨first, here, returned⟩ := except_bind_eq_ok.mp returned
      obtain ⟨others, later, same⟩ := except_bind_eq_ok.mp returned
      cases same
      simp [ih later, here, eq_comm]

/-- A loop returns exactly when each of its items has a round that returns, if that does not
depend on the states that the loop can come to. -/
theorem foldlM_returns_iff {step : σ → α → Except ε σ} (invariant : σ → Prop)
    {possible : α → Prop}
    (each : ∀ state item, invariant state → ((∃ next, step state item = .ok next) ↔ possible item))
    (kept : ∀ state item next, invariant state → step state item = .ok next → invariant next)
    {items : List α} {state : σ} (start : invariant state) :
    (∃ last, items.foldlM step state = .ok last) ↔ ∀ item ∈ items, possible item := by
  induction items generalizing state with
  | nil => simp [pure, Except.pure]
  | cons item rest ih =>
      rw [List.forall_mem_cons, ← each state item start, List.foldlM_cons]
      constructor
      · rintro ⟨last, returned⟩
        obtain ⟨next, stepped, looped⟩ := except_bind_eq_ok.mp returned
        exact ⟨⟨next, stepped⟩, (ih (kept state item next start stepped)).mp ⟨last, looped⟩⟩
      · rintro ⟨⟨next, stepped⟩, later⟩
        obtain ⟨last, looped⟩ := (ih (kept state item next start stepped)).mpr later
        exact ⟨last, except_bind_eq_ok.mpr ⟨next, stepped, looped⟩⟩

/-- `deeper` decides whatever `shallow` has decided. -/
def Agrees (shallow deeper : Outcome ε α) : Prop :=
  shallow ≠ exhausted → deeper = shallow

theorem Agrees.refl (outcome : Outcome ε α) : Agrees outcome outcome := fun _ => rfl

theorem Agrees.value {shallow deeper : Outcome ε α} (agrees : Agrees shallow deeper) {result : α}
    (returned : shallow = value result) : deeper = value result :=
  (agrees (by simp [returned])).trans returned

theorem Agrees.bind {shallow deeper : Outcome ε α} {next next' : α → Outcome ε β}
    (first : Agrees shallow deeper) (rest : ∀ middle, Agrees (next middle) (next' middle)) :
    Agrees (shallow >>= next) (deeper >>= next') := by
  intro decided
  cases shallow with
  | value middle =>
      rw [first (by simp)]
      exact rest middle decided
  | error thrown =>
      rw [first (by simp)]
      rfl
  | exhausted => exact absurd rfl decided

theorem Agrees.ite {condition : Prop} [Decidable condition]
    {left left' right right' : Outcome ε α}
    (whenTrue : Agrees left left') (whenFalse : Agrees right right') :
    Agrees (if condition then left else right) (if condition then left' else right') := by
  split
  · exact whenTrue
  · exact whenFalse

def EndsIn (property : α → Prop) : Outcome ε α → Prop
  | value result => property result
  | error _ => True
  | exhausted => False

@[simp] theorem endsIn_value {property : α → Prop} {result : α} :
    EndsIn property (value result : Outcome ε α) ↔ property result := Iff.rfl

@[simp] theorem endsIn_error {property : α → Prop} {thrown : ε} :
    EndsIn property (error thrown : Outcome ε α) := trivial

theorem EndsIn.ne_exhausted {property : α → Prop} {outcome : Outcome ε α}
    (ends : EndsIn property outcome) : outcome ≠ exhausted := by
  rintro rfl
  exact ends

theorem EndsIn.of_returned {property property' : α → Prop} {outcome : Outcome ε α}
    (ends : EndsIn property outcome)
    (returned : ∀ result, outcome = value result → property' result) :
    EndsIn property' outcome := by
  cases outcome with
  | value result => exact returned result rfl
  | error thrown => trivial
  | exhausted => exact ends.elim

theorem endsIn_ofExcept (attempt : Except ε α) : EndsIn (fun _ => True) (ofExcept attempt) := by
  cases attempt <;> trivial

theorem EndsIn.bind {property : α → Prop} {property' : β → Prop} {first : Outcome ε α}
    {next : α → Outcome ε β} (ends : EndsIn property first)
    (rest : ∀ middle, property middle → EndsIn property' (next middle)) :
    EndsIn property' (first >>= next) := by
  cases first with
  | value middle => exact rest middle ends
  | error thrown => trivial
  | exhausted => exact ends.elim

/-! Loops that thread a state through a list. -/

theorem foldlM_endsIn {step : σ → α → Outcome ε σ} {invariant : σ → Prop} {items : List α}
    (each : ∀ item ∈ items, ∀ state, invariant state → EndsIn invariant (step state item))
    {first : σ} (start : invariant first) : EndsIn invariant (items.foldlM step first) := by
  induction items generalizing first with
  | nil => exact start
  | cons item rest ih =>
      obtain ⟨here, later⟩ := List.forall_mem_cons.mp each
      rw [List.foldlM_cons]
      exact (here first start).bind fun next kept => ih later kept

theorem foldlM_agrees {step step' : σ → α → Outcome ε σ}
    (each : ∀ state item, Agrees (step state item) (step' state item))
    (items : List α) (state : σ) :
    Agrees (items.foldlM step state) (items.foldlM step' state) := by
  induction items generalizing state with
  | nil => exact Agrees.refl _
  | cons item rest ih =>
      simp only [List.foldlM_cons]
      exact Agrees.bind (each state item) ih

/-- The loop rule: what holds before the loop and survives each round holds after it. -/
theorem foldlM_induction {step : σ → α → Outcome ε σ} {items : List α} {first last : σ}
    (finished : items.foldlM step first = value last) (invariant : List α → σ → Prop)
    (start : invariant [] first)
    (round : ∀ done item rest state next, items = done ++ item :: rest →
      invariant done state → step state item = value next → invariant (done ++ [item]) next) :
    invariant items last := by
  suffices general : ∀ rest done state, items = done ++ rest → invariant done state →
      rest.foldlM step state = value last → invariant items last from
    general items [] first rfl start finished
  intro rest
  induction rest with
  | nil =>
      intro done state split holds ended
      simp only [List.foldlM_nil, pure_eq, value.injEq] at ended
      subst ended
      rw [split, List.append_nil]
      exact holds
  | cons item rest ih =>
      intro done state split holds ended
      simp only [List.foldlM_cons, bind_eq_value] at ended
      obtain ⟨next, stepped, ended⟩ := ended
      exact ih (done ++ [item]) next (by simp [split])
        (round done item rest state next split holds stepped) ended

theorem foldlM_each {step : σ → α → Outcome ε σ} {items : List α} {first last : σ}
    (finished : items.foldlM step first = value last) (invariant : σ → Prop)
    (property : α → Prop) (start : invariant first)
    (round : ∀ item state next, invariant state → step state item = value next →
      invariant next ∧ property item) :
    invariant last ∧ ∀ item ∈ items, property item := by
  refine foldlM_induction finished
    (fun done state => invariant state ∧ ∀ item ∈ done, property item) ⟨start, by simp⟩ ?_
  intro done item rest state next _ holds stepped
  obtain ⟨kept, fresh⟩ := round item state next holds.1 stepped
  exact ⟨kept, List.forall_mem_append.mpr ⟨holds.2, List.forall_mem_singleton.mpr fresh⟩⟩

theorem foldlM_safe {step : σ → α → Outcome ε σ} {items : List α}
    (calm : ∀ item ∈ items, ∀ state thrown, step state item ≠ error thrown) (first : σ)
    (thrown : ε) : items.foldlM step first ≠ error thrown := by
  induction items generalizing first with
  | nil => simp
  | cons item rest ih =>
      obtain ⟨here, later⟩ := List.forall_mem_cons.mp calm
      rw [List.foldlM_cons]
      exact bind_ne_error (here first thrown) fun next => ih later next

theorem foldlM_exhausted {step : σ → α → Outcome ε σ} {before after : List α} {item : α}
    {first : σ} (safe : ∀ thrown, before.foldlM step first ≠ error thrown)
    (stuck : ∀ state, before.foldlM step first = value state → step state item = exhausted) :
    (before ++ item :: after).foldlM step first = exhausted := by
  simp only [List.foldlM_append, List.foldlM_cons]
  cases run : before.foldlM step first with
  | value state => simp [stuck state run]
  | error thrown => exact absurd run (safe thrown)
  | exhausted => rfl

theorem foldlM_view_of_mem {step : σ → α → Outcome ε σ} {step' : τ → α → Outcome ε τ}
    {view : σ → τ} {items : List α}
    (each : ∀ item ∈ items, ∀ state, step' (view state) item = view <$> step state item) (state : σ) :
    items.foldlM step' (view state) = view <$> items.foldlM step state := by
  induction items generalizing state with
  | nil => rfl
  | cons item rest ih =>
      obtain ⟨here, later⟩ := List.forall_mem_cons.mp each
      simp only [List.foldlM_cons, here, bind_map_left, map_bind, ih later]

theorem foldlM_congr_of_mem {step step' : σ → α → Outcome ε σ} {items : List α}
    (each : ∀ item ∈ items, ∀ state, step state item = step' state item) (state : σ) :
    items.foldlM step state = items.foldlM step' state := by
  induction items generalizing state with
  | nil => rfl
  | cons item rest ih =>
      obtain ⟨here, later⟩ := List.forall_mem_cons.mp each
      rw [List.foldlM_cons, List.foldlM_cons, here]
      exact bind_congr fun next => ih later next

theorem foldlM_follows {step : σ → α → Outcome ε σ} {step' : τ → α → Outcome ε τ}
    (related : σ → τ → Prop)
    (each : ∀ state state' item next', related state state' → step' state' item = value next' →
      ∃ next, step state item = value next ∧ related next next')
    {items : List α} {state : σ} {state' last' : τ} (start : related state state')
    (returned : items.foldlM step' state' = value last') :
    ∃ last, items.foldlM step state = value last ∧ related last last' := by
  induction items generalizing state state' with
  | nil =>
      have same : state' = last' := by simpa using returned
      exact ⟨state, rfl, by rw [← same]; exact start⟩
  | cons item rest ih =>
      rw [List.foldlM_cons] at returned
      obtain ⟨next', stepped, looped⟩ := bind_eq_value.mp returned
      obtain ⟨next, followed, kept⟩ := each state state' item next' start stepped
      obtain ⟨last, ended, keptLast⟩ := ih kept looped
      exact ⟨last, by rw [List.foldlM_cons, followed, value_bind, ended], keptLast⟩

theorem foldlM_rounds {step : σ → α → Outcome ε σ} {items : List α} {first last : σ}
    (returned : items.foldlM step first = value last) :
    ∀ item ∈ items, ∃ state next, step state item = value next := by
  refine (foldlM_each returned (fun _ => True) _ trivial ?_).2
  intro item state next _ stepped
  exact ⟨trivial, state, next, stepped⟩

def Deepening (step : Nat → σ → α → Outcome ε σ) : Prop :=
  ∀ depth deeper, depth ≤ deeper → ∀ state item,
    Agrees (step depth state item) (step deeper state item)

theorem foldlM_decided {step : Nat → σ → α → Outcome ε σ} (deepening : Deepening step)
    {items : List α} {first : σ}
    (each : ∀ done item rest, items = done ++ item :: rest → ∀ depth state,
      done.foldlM (step depth) first = value state → ∃ enough, step enough state item ≠ exhausted) :
    ∃ depth, items.foldlM (step depth) first ≠ exhausted := by
  induction items using List.reverseRecOn with
  | nil => exact ⟨0, by simp⟩
  | append_singleton prior item ih =>
      obtain ⟨depth, decided⟩ := ih fun done item' rest split =>
        each done item' (rest ++ [item]) (by simp [split])
      cases run : prior.foldlM (step depth) first with
      | value state =>
          obtain ⟨enough, settled⟩ := each prior item [] rfl depth state run
          refine ⟨max depth enough, ?_⟩
          have sameRun := foldlM_agrees (deepening depth _ (Nat.le_max_left depth enough))
            prior first decided
          have sameStep := deepening enough _ (Nat.le_max_right depth enough) state item settled
          rw [List.foldlM_append, sameRun, run]
          simpa [sameStep] using settled
      | error thrown => exact ⟨depth, by simp [List.foldlM_append, run]⟩
      | exhausted => exact absurd run decided

/-- A loop returns at some depth exactly when each of its rounds does, if that does not
depend on the states. -/
theorem foldlM_value_iff {step : Nat → σ → α → Outcome ε σ} (deepening : Deepening step)
    {possible : α → Prop}
    (each : ∀ state item, (∃ depth next, step depth state item = value next) ↔ possible item)
    {items : List α} (first : σ) :
    (∃ depth last, items.foldlM (step depth) first = value last) ↔
      ∀ item ∈ items, possible item := by
  induction items generalizing first with
  | nil => simp
  | cons item rest ih =>
      simp only [List.foldlM_cons, bind_eq_value, List.forall_mem_cons, ← each first item]
      constructor
      · rintro ⟨depth, last, next, stepped, looped⟩
        exact ⟨⟨depth, next, stepped⟩, (ih next).mp ⟨depth, last, looped⟩⟩
      · rintro ⟨⟨shallow, next, stepped⟩, later⟩
        obtain ⟨deep, last, looped⟩ := (ih next).mpr later
        have here := deepening shallow (max shallow deep) (Nat.le_max_left _ _) first item
        have there := foldlM_agrees (deepening deep (max shallow deep) (Nat.le_max_right _ _))
          rest next
        exact ⟨max shallow deep, last, next, here.value stepped, there.value looped⟩

theorem exists_common {holds : Nat → α → Prop}
    (kept : ∀ fuel more item, fuel ≤ more → holds fuel item → holds more item) {items : List α}
    (each : ∀ item ∈ items, ∃ fuel, holds fuel item) : ∃ fuel, ∀ item ∈ items, holds fuel item := by
  induction items with
  | nil => exact ⟨0, by simp⟩
  | cons item rest ih =>
      obtain ⟨⟨little, here⟩, later⟩ := List.forall_mem_cons.mp each
      obtain ⟨much, there⟩ := ih later
      refine ⟨max little much, List.forall_mem_cons.mpr ⟨?_, fun other listed => ?_⟩⟩
      · exact kept little _ item (Nat.le_max_left _ _) here
      · exact kept much _ other (Nat.le_max_right _ _) (there other listed)

/-! Unrolling a recursive body. -/

def unroll (body : (α → Outcome ε β) → α → Outcome ε β) : Nat → α → Outcome ε β
  | 0, _ => exhausted
  | depth + 1, argument => body (unroll body depth) argument

def Continuous (body : (α → Outcome ε β) → α → Outcome ε β) : Prop :=
  ∀ call call', (∀ argument, Agrees (call argument) (call' argument)) →
    ∀ argument, Agrees (body call argument) (body call' argument)

section Unroll

variable {body : (α → Outcome ε β) → α → Outcome ε β}

@[simp] theorem unroll_zero (argument : α) : unroll body 0 argument = exhausted := rfl

@[simp] theorem unroll_succ (depth : Nat) (argument : α) :
    unroll body (depth + 1) argument = body (unroll body depth) argument := rfl

theorem unroll_agrees_succ (continuous : Continuous body) (depth : Nat) (argument : α) :
    Agrees (unroll body depth argument) (unroll body (depth + 1) argument) := by
  induction depth generalizing argument with
  | zero => exact fun decided => absurd rfl decided
  | succ depth ih => exact continuous _ _ ih argument

theorem unroll_agrees (continuous : Continuous body) {depth deeper : Nat} (le : depth ≤ deeper)
    (argument : α) : Agrees (unroll body depth argument) (unroll body deeper argument) := by
  induction le with
  | refl => exact Agrees.refl _
  | step _ ih =>
      intro decided
      have same := ih decided
      rw [unroll_agrees_succ continuous _ argument (by rw [same]; exact decided), same]

/-- Partial correctness: a property of results that one call hands on holds of every result. -/
theorem unroll_returned {property : α → β → Prop}
    (call : ∀ recurse : α → Outcome ε β,
      (∀ argument result, recurse argument = value result → property argument result) →
      ∀ argument result, body recurse argument = value result → property argument result)
    (depth : Nat) (argument : α) (result : β)
    (returned : unroll body depth argument = value result) : property argument result := by
  induction depth generalizing argument result with
  | zero => simp at returned
  | succ depth ih => exact call (unroll body depth) ih argument result returned

end Unroll

end Bounded
