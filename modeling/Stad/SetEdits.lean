import Mathlib.Data.List.Induction

/-!
A set that is changed by additions and removals, one after another. What is in it in
the end goes by the last change of each item.
-/

namespace SetEdits

variable {κ : Type}

inductive Edit (κ : Type) where
  | add (item : κ)
  | remove (item : κ)
  deriving DecidableEq, Repr

def Edit.item : Edit κ → κ
  | .add item => item
  | .remove item => item

variable [DecidableEq κ]

def Edit.apply (present : List κ) : Edit κ → List κ
  | .add item => if item ∈ present then present else present ++ [item]
  | .remove item => present.filter fun other => other ≠ item

def applyAll (present : List κ) (edits : List (Edit κ)) : List κ := edits.foldl Edit.apply present

def lastEdit (edits : List (Edit κ)) (item : κ) : Option (Edit κ) :=
  edits.reverse.find? fun edit => edit.item = item

theorem mem_apply_iff {present : List κ} {edit : Edit κ} {item : κ} :
    item ∈ edit.apply present ↔ edit = .add item ∨ item ∈ present ∧ edit ≠ .remove item := by
  cases edit with
  | add other =>
      simp only [Edit.apply, Edit.add.injEq, ne_eq, reduceCtorEq, not_false_eq_true, and_true]
      split
      · constructor
        · exact Or.inr
        · rintro (rfl | known)
          · assumption
          · exact known
      · rw [List.mem_append, List.mem_singleton, or_comm, eq_comm]
  | remove other =>
      have other_ne : item ≠ other ↔ other ≠ item := ne_comm
      simp [Edit.apply, other_ne]

@[simp] theorem applyAll_append (present : List κ) (edits edits' : List (Edit κ)) :
    applyAll present (edits ++ edits') = applyAll (applyAll present edits) edits' :=
  List.foldl_append

theorem applyAll_flatMap {α : Type} (edits : α → List (Edit κ)) (items : List α)
    (present : List κ) : items.foldl (fun present item => applyAll present (edits item)) present =
      applyAll present (items.flatMap edits) := by
  induction items generalizing present with
  | nil => rfl
  | cons item rest ih => rw [List.foldl_cons, ih, List.flatMap_cons, applyAll_append]

theorem nodup_applyAll {present : List κ} (nodup : present.Nodup) (edits : List (Edit κ)) :
    (applyAll present edits).Nodup := by
  induction edits generalizing present with
  | nil => exact nodup
  | cons edit rest ih =>
      refine ih ?_
      cases edit with
      | add item =>
          rw [Edit.apply]
          split
          · exact nodup
          · rename_i new
            exact List.nodup_append.mpr ⟨nodup, by simp, by grind⟩
      | remove item => exact nodup.filter _

/-- An item is in the set in the end when its last change added it, or when it was there
and nothing changed it. -/
theorem mem_applyAll_iff {present : List κ} {edits : List (Edit κ)} {item : κ} :
    item ∈ applyAll present edits ↔ lastEdit edits item = some (.add item) ∨
      item ∈ present ∧ lastEdit edits item = none := by
  induction edits using List.reverseRecOn with
  | nil => simp [applyAll, lastEdit]
  | append_singleton edits edit ih =>
      rw [applyAll_append]
      change item ∈ edit.apply (applyAll present edits) ↔ _
      rw [mem_apply_iff, ih]
      cases edit with
      | add other =>
          by_cases same : other = item
          · simp [lastEdit, Edit.item, same]
          · simp [lastEdit, Edit.item, same]
      | remove other =>
          by_cases same : other = item
          · simp [lastEdit, Edit.item, same]
          · simp [lastEdit, Edit.item, same]

end SetEdits
