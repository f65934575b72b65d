import Mathlib.Data.List.Basic

/-!
A reader that takes one value off the start of a sequence, an element at a time.
It may end with the element it is at, or in front of it, and it never looks at
what follows. Where the sequence stops in the middle of a value, what was read
may still stand for a value, as the digits of a number do.
-/

namespace Incremental

inductive Progress (σ : Type) where
  | more (state : σ)
  | ended
  | endedBefore
  | broken
  deriving DecidableEq, Repr

structure Reader (σ β : Type) where
  start : σ
  step : σ → β → Progress σ
  mayEnd : σ → Bool

inductive Found (σ β : Type) where
  | value (text : List β)
  | unfinished (state : σ)
  | broken
  deriving DecidableEq, Repr

variable {σ β : Type}

def Found.prepend (read : List β) : Found σ β → Found σ β
  | .value text => .value (read ++ text)
  | .unfinished state => .unfinished state
  | .broken => .broken

namespace Reader

variable (reader : Reader σ β)

def run : σ → List β → Found σ β
  | state, [] => .unfinished state
  | state, element :: rest =>
    match reader.step state element with
    | .more next => (run next rest).prepend [element]
    | .ended => .value [element]
    | .endedBefore => .value []
    | .broken => .broken

def read (input : List β) : Found σ β := reader.run reader.start input

def textOf (input : List β) : Option (List β) :=
  match reader.read input with
  | .value text => some text
  | .unfinished state => if reader.mayEnd state then some input else none
  | .broken => none

/-- Whatever was read of a value can be continued to a longer one. -/
def Continuable : Prop :=
  ∀ input state, reader.read input = .unfinished state →
    ∃ more text, reader.textOf (input ++ more) = some text ∧ input.length < text.length

variable {reader}

/-- Once a value has ended, or cannot be one, what follows does not matter. -/
theorem run_append {state : σ} {input : List β}
    (decided : ∀ last, reader.run state input ≠ .unfinished last) (more : List β) :
    reader.run state (input ++ more) = reader.run state input := by
  induction input generalizing state with
  | nil => exact absurd rfl (decided state)
  | cons element rest ih =>
      rw [List.cons_append, run, run]
      cases stepped : reader.step state element with
      | more next =>
          have later : ∀ last, reader.run next rest ≠ .unfinished last := by
            intro last unfinished
            apply decided last
            rw [run, stepped]
            simp [unfinished, Found.prepend]
          simp [ih later]
      | ended => rfl
      | endedBefore => rfl
      | broken => rfl

theorem run_append_unfinished {state last : σ} {input : List β}
    (unfinished : reader.run state input = .unfinished last) (more : List β) :
    reader.run state (input ++ more) = (reader.run last more).prepend input := by
  induction input generalizing state with
  | nil =>
      have same : state = last := by simpa [run] using unfinished
      rw [same, List.nil_append]
      cases reader.run last more <;> rfl
  | cons element rest ih =>
      rw [run] at unfinished
      rw [List.cons_append, run]
      cases stepped : reader.step state element with
      | more next =>
          have later : reader.run next rest = .unfinished last := by
            rw [stepped] at unfinished
            cases found : reader.run next rest <;> simp [found, Found.prepend] at unfinished ⊢
            exact unfinished
          simp only [ih later]
          cases reader.run last more <;> rfl
      | ended => simp [stepped] at unfinished
      | endedBefore => simp [stepped] at unfinished
      | broken => simp [stepped] at unfinished

theorem textOf_append {input : List β} (decided : ∀ last, reader.read input ≠ .unfinished last)
    (more : List β) : reader.textOf (input ++ more) = reader.textOf input := by
  have same : reader.read (input ++ more) = reader.read input := run_append decided more
  unfold textOf
  rw [same]
  cases found : reader.read input with
  | value text => rfl
  | unfinished last => exact absurd found (decided last)
  | broken => rfl

theorem textOf_unfinished {input text : List β} {last : σ}
    (unfinished : reader.read input = .unfinished last) (read : reader.textOf input = some text) :
    text = input := by
  unfold textOf at read
  rw [unfinished] at read
  simp only at read
  split at read
  · exact (Option.some.inj read).symm
  · simp at read

end Reader

end Incremental
