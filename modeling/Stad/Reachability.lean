import Mathlib.Data.Set.Card
import Mathlib.Data.Set.Finite.List
import Mathlib.Logic.Relation
import Mathlib.Order.WellFounded

/-!
Paths of a step relation. A lasso is a path that runs into a cycle. When all
steps lead into a finite list, a vertex without a lasso has only finite paths.
When no cycle has a heavy step, the heavy steps on the paths to a vertex are bounded.
-/

namespace Reachability

open Relation

variable {α : Type} {step : α → α → Prop}

def Lasso (step : α → α → Prop) (start : α) : Prop :=
  ∃ knot, ReflTransGen step start knot ∧ TransGen step knot knot

theorem Lasso.next {start : α} (lasso : Lasso step start) :
    ∃ next, step start next ∧ Lasso step next := by
  obtain ⟨knot, path, cycle⟩ := lasso
  rcases ReflTransGen.cases_head path with same | ⟨next, first, rest⟩
  · subst same
    obtain ⟨next, first, back⟩ := TransGen.head'_iff.mp cycle
    exact ⟨next, first, start, back, cycle⟩
  · exact ⟨next, first, knot, rest, cycle⟩

theorem Lasso.of_path {start middle : α} (path : ReflTransGen step start middle)
    (lasso : Lasso step middle) : Lasso step start := by
  obtain ⟨knot, onward, cycle⟩ := lasso
  exact ⟨knot, path.trans onward, cycle⟩

theorem Lasso.mono {wider : α → α → Prop} (included : ∀ source target, step source target →
    wider source target) {start : α} (lasso : Lasso step start) : Lasso wider start := by
  obtain ⟨knot, path, cycle⟩ := lasso
  exact ⟨knot, ReflTransGen.mono included _ _ path, TransGen.mono included _ _ cycle⟩

theorem not_lasso_of_acyclic (acyclic : ∀ vertex, ¬TransGen step vertex vertex) (start : α) :
    ¬Lasso step start := by
  rintro ⟨knot, _, cycle⟩
  exact acyclic knot cycle

theorem acyclic_of_rank (rank : α → Nat)
    (lower : ∀ source target, step source target → rank target < rank source) (vertex : α) :
    ¬TransGen step vertex vertex := by
  have falls (target : α) (path : TransGen step vertex target) : rank target < rank vertex := by
    induction path with
    | single first => exact lower _ _ first
    | tail _ next ih => exact Nat.lt_trans (lower _ _ next) ih
  intro cycle
  exact Nat.lt_irrefl _ (falls vertex cycle)

theorem not_lasso_of_acc {start : α} (ends : Acc (fun target source => step source target) start) :
    ¬Lasso step start := by
  induction ends with
  | intro source _ ih =>
      intro lasso
      obtain ⟨target, first, onward⟩ := lasso.next
      exact ih target first onward

/-- When every step leaves from inside, a path that ends inside stays inside. -/
theorem transGen_inside_iff {inside : α → Prop}
    (leaves : ∀ source target, step source target → inside source) {start last : α} :
    TransGen (fun source target => step source target ∧ inside target) start last ↔
      TransGen step start last ∧ inside last := by
  constructor
  · intro path
    refine ⟨TransGen.mono (fun _ _ first => first.1) _ _ path, ?_⟩
    cases path with
    | single first => exact first.2
    | tail _ next => exact next.2
  · rintro ⟨path, isInside⟩
    induction path with
    | single first => exact TransGen.single ⟨first, isInside⟩
    | tail _ next ih => exact (ih (leaves _ _ next)).tail ⟨next, isInside⟩

/-- In a finite graph every path from a vertex without a lasso is finite. -/
theorem acc_of_not_lasso (vertices : List α) (inside : ∀ source target, step source target →
    target ∈ vertices) {start : α} (free : ¬Lasso step start) :
    Acc (fun target source => step source target) start := by
  let Reached := { vertex // vertex ∈ vertices ∧ ReflTransGen step start vertex }
  have finite : Finite Reached :=
    ((List.finite_toSet vertices).subset fun _ reached => reached.1).to_subtype
  let below (target source : Reached) : Prop := TransGen step source.1 target.1
  have transitive : IsTrans Reached below := ⟨fun _ _ _ first second => second.trans first⟩
  have irreflexive : Std.Irrefl below :=
    ⟨fun reached cycle => free ⟨reached.1, reached.2.2, cycle⟩⟩
  have wellFounded : WellFounded below := Finite.wellFounded_of_trans_of_irrefl below
  have each (reached : Reached) : Acc (fun target source => step source target) reached.1 := by
    induction reached using wellFounded.induction with
    | _ reached ih =>
        refine Acc.intro _ fun target first => ?_
        exact ih ⟨target, inside _ _ first, reached.2.2.tail first⟩ (TransGen.single first)
  exact Acc.intro _ fun target first =>
    each ⟨target, inside _ _ first, ReflTransGen.single first⟩

/-- The vertices with a heavy step on a path from them. -/
def Before (step heavy : α → α → Prop) (vertex : α) : Set α :=
  {first | ∃ source target, ReflTransGen step first source ∧ heavy source target ∧
    ReflTransGen step target vertex}

theorem before_step {heavy : α → α → Prop} {source target : α} (first : step source target) :
    Before step heavy source ⊆ Before step heavy target := by
  rintro vertex ⟨left, right, before, isHeavy, after⟩
  exact ⟨left, right, before, isHeavy, after.tail first⟩

theorem exists_rank [Finite α] (step heavy : α → α → Prop)
    (included : ∀ source target, heavy source target → step source target)
    (acyclic : ∀ source target, heavy source target → ¬ReflTransGen step target source) :
    ∃ rank : α → Nat, (∀ source target, step source target → rank source ≤ rank target) ∧
      ∀ source target, heavy source target → rank source < rank target := by
  refine ⟨fun vertex => (Before step heavy vertex).ncard, ?_, ?_⟩
  · intro source target first
    exact Set.ncard_le_ncard (before_step first) (Set.toFinite _)
  · intro source target isHeavy
    refine Set.ncard_lt_ncard ?_ (Set.toFinite _)
    rw [Set.ssubset_iff_of_subset (before_step (included source target isHeavy))]
    refine ⟨source, ⟨source, target, .refl, isHeavy, .refl⟩, ?_⟩
    rintro ⟨left, right, before, isHeavy', after⟩
    exact acyclic left right isHeavy' (after.trans before)

end Reachability
