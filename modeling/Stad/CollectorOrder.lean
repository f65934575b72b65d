import Stad.CollectorOutcome

/-!
The order in which assemblies and their types are enumerated does not matter:
two traversals of the same graph finish the same types, and sorted by names that
tell them apart, the same entries make the same arrays.
-/

namespace Stad.TypeCollectorForAssembly

open Bounded Bounded.Outcome TypeCollector

variable {τ : Type}

/-- The types have different names, which the comparer orders strictly. -/
structure Told (graph : TypeGraph τ) (comparer : Comparer) (included : τ → Prop) : Prop where
  distinct : ∀ type type', included type → included type' →
    graph.fullName type = graph.fullName type' → type = type'
  ordered : ∀ type type', included type → included type' →
    comparer.le (graph.fullName type) (graph.fullName type') = true →
    comparer.le (graph.fullName type') (graph.fullName type) = true →
    graph.fullName type = graph.fullName type'

theorem orderBy_eq (comparer : Comparer) {α : Type} (key : α → Option String)
    {infos infos' : List α} (permuted : infos.Perm infos')
    (strict : ∀ first ∈ infos, ∀ second ∈ infos, comparer.le (key first) (key second) = true →
      comparer.le (key second) (key first) = true → first = second) :
    comparer.orderBy key infos = comparer.orderBy key infos' := by
  have sorted := orderBy_perm comparer key infos
  have sorted' := orderBy_perm comparer key infos'
  apply List.Perm.eq_of_pairwise _ (orderBy_sorted comparer key infos)
    (orderBy_sorted comparer key infos')
  · exact sorted.trans (permuted.trans sorted'.symm)
  · intro first second listed listed' le ge
    have inFirst := sorted.mem_iff.mp listed
    have inSecond := permuted.mem_iff.mpr (sorted'.mem_iff.mp listed')
    exact strict first inFirst second inSecond le ge

theorem orderBy_entries_eq {graph : TypeGraph τ} {comparer : Comparer} {included : τ → Prop}
    (told : Told graph comparer included) {types types' : List τ} (permuted : types.Perm types')
    (listed : ∀ type ∈ types, included type) (select : τ → Bool) {α : Type}
    (key : α → Option String) (entry : τ → α) (keyed : ∀ type, key (entry type) = graph.fullName type) :
    comparer.orderBy key ((types.filter select).map entry) =
      comparer.orderBy key ((types'.filter select).map entry) := by
  apply orderBy_eq comparer key ((permuted.filter select).map entry)
  intro first inFirst second inSecond le ge
  obtain ⟨type, kept, rfl⟩ := List.mem_map.mp inFirst
  obtain ⟨type', kept', rfl⟩ := List.mem_map.mp inSecond
  rw [keyed, keyed] at le ge
  have included := listed type (List.mem_filter.mp kept).1
  have included' := listed type' (List.mem_filter.mp kept').1
  have same := told.ordered type type' included included' le ge
  rw [told.distinct type type' included included' same]

theorem resultOf_eq {graph : TypeGraph τ} {comparer : Comparer} {included : τ → Prop}
    (told : Told graph comparer included) {types types' : List τ} (permuted : types.Perm types')
    (listed : ∀ type ∈ types, included type) :
    resultOf graph comparer types = resultOf graph comparer types' := by
  have objects := orderBy_entries_eq told permuted listed (isObject graph) (·.fullName)
    (objectEntry graph) (fun _ => rfl)
  have enums := orderBy_entries_eq told permuted listed graph.isEnum (·.fullName)
    (enumEntry graph) (fun _ => rfl)
  have generics := orderBy_entries_eq told permuted listed (isOtherGeneric graph) (·.fullName)
    (objectEntry graph) (fun _ => rfl)
  simp only [resultOf, Workspace.toResult, workspaceOf, objects, enums, generics]

theorem reachable_perm {edge : τ → τ → Prop} {targets targets' : List τ}
    (permuted : targets.Perm targets') (type : τ) :
    Reachable edge targets type ↔ Reachable edge targets' type := by
  simp only [Reachable, permuted.mem_iff]

variable [DecidableEq τ]

def Collects (graph : TypeGraph τ) (comparer : Comparer) (targets : List τ)
    (result : TypeCollectorResult) : Prop :=
  ∃ depth, collect graph comparer targets depth = value result

/-- What `MakeRegistry(IAssemblySource)` comes to once the target types are loaded. -/
def MakesRegistry (graph : TypeGraph τ) (comparer : Comparer) (targets : List τ)
    (registry : Outcome Thrown StadRegistry) : Prop :=
  ∃ result, Collects graph comparer targets result ∧ registry ≠ exhausted ∧
    ∃ depth, StadAnalyzer.makeRegistry result depth = registry

theorem collects_same {graph : TypeGraph τ} {comparer : Comparer} {targets targets' : List τ}
    (permuted : targets.Perm targets')
    (told : Told graph comparer (Reachable (Leads graph) targets))
    {result result' : TypeCollectorResult} (collects : Collects graph comparer targets result)
    (collects' : Collects graph comparer targets' result') : result = result' := by
  obtain ⟨depth, returned⟩ := collects
  obtain ⟨depth', returned'⟩ := collects'
  obtain ⟨types, nodup, reached, same⟩ := collect_returned returned
  obtain ⟨types', nodup', reached', same'⟩ := collect_returned returned'
  have sameTypes : types.Perm types' := by
    rw [List.perm_ext_iff_of_nodup nodup nodup']
    intro type
    rw [reached, reached', reachable_perm permuted]
  rw [same, same']
  exact resultOf_eq told sameTypes fun type => (reached type).mp

/-- Permuted targets are collected into the same arrays and make the same registry, or
neither list can be collected. -/
theorem collect_orderFree (graph : TypeGraph τ) (comparer : Comparer) {targets targets' : List τ}
    (permuted : targets.Perm targets')
    (finite : {type | Reachable (Leads graph) targets type}.Finite)
    (told : Told graph comparer (Reachable (Leads graph) targets)) :
    ((∀ type, Reachable (Leads graph) targets type → Readable graph type) →
      ∃ result, ∀ other, (Collects graph comparer targets other ↔ other = result) ∧
        (Collects graph comparer targets' other ↔ other = result)) ∧
    ((∃ type, Reachable (Leads graph) targets type ∧ ¬Readable graph type) →
      (Throws graph comparer targets ∧ Throws graph comparer targets') ∧
        ∀ result, ¬Collects graph comparer targets result ∧ ¬Collects graph comparer targets' result) ∧
    ∀ registry, MakesRegistry graph comparer targets registry ↔
      MakesRegistry graph comparer targets' registry := by
  have sameTypes (type : τ) : Reachable (Leads graph) targets' type ↔
      Reachable (Leads graph) targets type := (reachable_perm permuted type).symm
  have finite' : {type | Reachable (Leads graph) targets' type}.Finite :=
    finite.subset fun type => (sameTypes type).mp
  have never {types : List τ} (unreadable : ∃ type, Reachable (Leads graph) types type ∧
      ¬Readable graph type) (result : TypeCollectorResult) : ¬Collects graph comparer types result := by
    rintro ⟨depth, returned⟩
    obtain ⟨type, reachable, unread⟩ := unreadable
    exact unread (collect_readable returned type reachable)
  have both (readable : ∀ type, Reachable (Leads graph) targets type → Readable graph type) :
      ∃ result, ∀ other, (Collects graph comparer targets other ↔ other = result) ∧
        (Collects graph comparer targets' other ↔ other = result) := by
    obtain ⟨depth, result, returned⟩ := collect_succeeds_iff.mpr ⟨finite, readable⟩
    obtain ⟨depth', result', returned'⟩ := collect_succeeds_iff.mpr
      ⟨finite', fun type reachable => readable type ((sameTypes type).mp reachable)⟩
    have collects : Collects graph comparer targets result := ⟨depth, returned⟩
    have collects' : Collects graph comparer targets' result' := ⟨depth', returned'⟩
    have same := collects_same permuted told collects collects'
    refine ⟨result, fun other => ⟨⟨?_, ?_⟩, ⟨?_, ?_⟩⟩⟩
    · intro collected
      rw [collects_same permuted told collected collects', same]
    · rintro rfl
      exact collects
    · intro collected
      exact (collects_same permuted told collects collected).symm
    · rintro rfl
      rw [same]
      exact collects'
  refine ⟨both, ?_, fun registry => ?_⟩
  · intro unreadable
    have unreadable' : ∃ type, Reachable (Leads graph) targets' type ∧ ¬Readable graph type := by
      simpa only [sameTypes] using unreadable
    exact ⟨⟨(collect_reachable graph comparer targets finite).2.mpr unreadable,
      (collect_reachable graph comparer targets' finite').2.mpr unreadable'⟩,
      fun result => ⟨never unreadable result, never unreadable' result⟩⟩
  · by_cases readable : ∀ type, Reachable (Leads graph) targets type → Readable graph type
    · obtain ⟨result, only⟩ := both readable
      simp only [MakesRegistry, (only _).1, (only _).2]
    · push Not at readable
      have unreadable' : ∃ type, Reachable (Leads graph) targets' type ∧ ¬Readable graph type := by
        simpa only [sameTypes] using readable
      simp only [MakesRegistry, never readable, never unreadable', false_and, exists_false]

theorem parentAndChild_told : Told parentAndChild ordinal
    (Reachable (Leads parentAndChild) [true, false]) where
  distinct := by
    rintro (_ | _) (_ | _) - - same
    · rfl
    · exact absurd same (by decide)
    · exact absurd same (by decide)
    · rfl
  ordered := by
    rintro (_ | _) (_ | _) - - le ge
    · rfl
    · exact absurd ge (by decide)
    · exact absurd le (by decide)
    · rfl

theorem parentAndChild_orderFree :
    (∃ result, ∀ other, (Collects parentAndChild ordinal [true, false] other ↔ other = result) ∧
      (Collects parentAndChild ordinal [false, true] other ↔ other = result)) ∧
    ∀ registry, MakesRegistry parentAndChild ordinal [true, false] registry ↔
      MakesRegistry parentAndChild ordinal [false, true] registry := by
  have orderFree := collect_orderFree parentAndChild ordinal (List.Perm.swap false true [])
    (Set.toFinite _) parentAndChild_told
  exact ⟨orderFree.1 fun type _ => parentAndChild_readable type, orderFree.2.2⟩

theorem userAndAddress_neverCollected :
    {type | Reachable (Leads userAndAddress) [true, false] type}.Finite ∧
    Told userAndAddress ordinal (Reachable (Leads userAndAddress) [true, false]) ∧
    ¬∃ result, ∀ other, (Collects userAndAddress ordinal [true, false] other ↔ other = result) ∧
      (Collects userAndAddress ordinal [false, true] other ↔ other = result) := by
  refine ⟨Set.toFinite _, ⟨?_, ?_⟩, ?_⟩
  · rintro (_ | _) (_ | _) - - same
    · rfl
    · exact absurd same (by decide)
    · exact absurd same (by decide)
    · rfl
  · rintro (_ | _) (_ | _) - - le ge
    · rfl
    · exact absurd ge (by decide)
    · exact absurd le (by decide)
    · rfl
  · rintro ⟨result, only⟩
    obtain ⟨depth, returned⟩ := (only result).1.mpr rfl
    exact user_unreadable (collect_readable returned true ⟨true, by simp, .refl⟩)

end Stad.TypeCollectorForAssembly
