import Mathlib.Data.List.Induction
import Mathlib.Logic.Function.Basic

/-!
Histories of operations, oldest first. A condition on an operation may look at the
operations before it, and a store by key holds what its writes and resets leave.
-/

namespace Histories

section Along

variable {α : Type} {condition : List α → α → Prop}

def Along (condition : List α → α → Prop) (history : List α) : Prop :=
  ∀ before operation after, history = before ++ operation :: after → condition before operation

theorem along_nil (condition : List α → α → Prop) : Along condition [] := by
  intro before operation after split
  simp at split

theorem along_append_singleton {history : List α} {last : α} :
    Along condition (history ++ [last]) ↔ Along condition history ∧ condition history last := by
  constructor
  · intro along
    refine ⟨?_, along history last [] rfl⟩
    intro before operation after split
    exact along before operation (after ++ [last]) (by simp [split])
  · rintro ⟨along, atLast⟩ before operation after split
    rcases List.eq_nil_or_concat after with none | ⟨rest, final, more⟩
    · rw [none] at split
      obtain ⟨same, sameLast⟩ := List.append_inj' split rfl
      obtain rfl := List.singleton_inj.mp sameLast
      rw [← same]
      exact atLast
    · rw [more, List.concat_eq_append, ← List.cons_append, ← List.append_assoc] at split
      exact along before operation rest (List.append_inj' split rfl).1

theorem Along.invariant {invariant : List α → Prop} {history : List α}
    (along : Along condition history) (start : invariant [])
    (step : ∀ before operation, invariant before → condition before operation →
      invariant (before ++ [operation])) : invariant history := by
  induction history using List.reverseRecOn with
  | nil => exact start
  | append_singleton before operation ih =>
      obtain ⟨earlier, met⟩ := along_append_singleton.mp along
      exact step before operation (ih earlier) met

/-- Two conditions agree along every history when they agree wherever an invariant holds
that the second preserves. -/
theorem along_congr {other : List α → α → Prop} {invariant : List α → Prop}
    (start : invariant [])
    (step : ∀ before operation, invariant before → other before operation →
      invariant (before ++ [operation]))
    (agree : ∀ before operation, invariant before →
      (condition before operation ↔ other before operation)) (history : List α) :
    Along condition history ↔ Along other history := by
  induction history using List.reverseRecOn with
  | nil => exact iff_of_true (along_nil condition) (along_nil other)
  | append_singleton before operation ih =>
      rw [along_append_singleton, along_append_singleton, ih]
      refine and_congr_right fun earlier => ?_
      exact agree before operation (earlier.invariant start step)

end Along

section Store

variable {κ α : Type} {β : κ → Type}

inductive Change (β : κ → Type) where
  | write (key : κ) (value : β key)
  | keep
  | reset

def Change.Spares (key : κ) : Change β → Prop
  | .write other _ => other ≠ key
  | .keep => True
  | .reset => False

variable [DecidableEq κ]

def Change.apply (store : ∀ key, Option (β key)) : Change β → ∀ key, Option (β key)
  | .write key value => Function.update store key (some value)
  | .keep => store
  | .reset => fun _ => none

def latest (change : α → Change β) (history : List α) : ∀ key, Option (β key) :=
  history.foldl (fun store operation => (change operation).apply store) fun _ => none

variable {change : α → Change β}

@[simp] theorem latest_nil (key : κ) : latest change [] key = none := rfl

theorem latest_append_singleton (history : List α) (last : α) :
    latest change (history ++ [last]) = (change last).apply (latest change history) := by
  rw [latest, List.foldl_append]
  rfl

theorem Change.Spares.apply {key : κ} {operation : Change β} (spares : operation.Spares key)
    (store : ∀ key, Option (β key)) : operation.apply store key = store key := by
  cases operation with
  | write other value => exact Function.update_of_ne (Ne.symm spares) _ _
  | keep => rfl
  | reset => exact absurd spares id

theorem latest_append_of_spared {key : κ} {earlier later : List α}
    (spared : ∀ operation ∈ later, (change operation).Spares key) :
    latest change (earlier ++ later) key = latest change earlier key := by
  induction later using List.reverseRecOn with
  | nil => rw [List.append_nil]
  | append_singleton between last ih =>
      obtain ⟨before, atLast⟩ := List.forall_mem_append.mp spared
      rw [← List.append_assoc, latest_append_singleton,
        (List.forall_mem_singleton.mp atLast).apply]
      exact ih before

/-- The store holds the value of the last write, if no later operation overwrites or resets it. -/
theorem latest_eq_some_iff {history : List α} {key : κ} {value : β key} :
    latest change history key = some value ↔ ∃ earlier operation later,
      history = earlier ++ operation :: later ∧ change operation = .write key value ∧
        ∀ next ∈ later, (change next).Spares key := by
  constructor
  · induction history using List.reverseRecOn with
    | nil => simp
    | append_singleton before last ih =>
        intro held
        by_cases spares : (change last).Spares key
        · rw [latest_append_singleton, spares.apply] at held
          obtain ⟨earlier, operation, later, split, written, spared⟩ := ih held
          refine ⟨earlier, operation, later ++ [last], by simp [split], written, ?_⟩
          exact List.forall_mem_append.mpr ⟨spared, List.forall_mem_singleton.mpr spares⟩
        · refine ⟨before, last, [], rfl, ?_, by simp⟩
          rw [latest_append_singleton] at held
          cases changed : change last with
          | write other written =>
              rw [changed] at held spares
              obtain rfl : other = key := not_not.mp spares
              have same : some written = some value := by simpa [Change.apply] using held
              rw [Option.some.inj same]
          | keep =>
              rw [changed] at spares
              exact absurd trivial spares
          | reset =>
              rw [changed] at held
              simp [Change.apply] at held
  · rintro ⟨earlier, operation, later, split, written, spared⟩
    rw [split, ← List.singleton_append, ← List.append_assoc, latest_append_of_spared spared,
      latest_append_singleton, written]
    exact Function.update_self _ _ _

end Store

end Histories
