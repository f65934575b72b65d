import Mathlib.Data.List.Forall2
import Mathlib.Data.List.Nodup

/-!
Lists whose items are related one by one: what carries over from one list to the
other, and from two lists that are related to a third. Two selections of one list
are compared by their lengths, and two orders of one list by what a key finds in them.
-/

namespace PairedLists

theorem forall₂_maps {α α' β γ : Type} {relation : β → γ → Prop} {left : α → β} {right : α → γ}
    {left' : α' → β} {right' : α' → γ} {items : List α} {items' : List α'} :
    List.Forall₂ relation (items.map left ++ items'.map left') (items.map right ++ items'.map right') ↔
      (∀ item ∈ items, relation (left item) (right item)) ∧
        ∀ item ∈ items', relation (left' item) (right' item) := by
  induction items with
  | nil => simp [List.forall₂_map_left_iff, List.forall₂_map_right_iff, List.forall₂_same]
  | cons item rest ih => simp [ih, and_assoc]

theorem forall₂_iff_of {α β : Type} {related claimed : α → β → Prop} {property : α → Prop}
    {left : List α} {right : List β} (pairs : List.Forall₂ related left right)
    (each : ∀ first second, related first second → (claimed first second ↔ property first)) :
    List.Forall₂ claimed left right ↔ ∀ first ∈ left, property first := by
  induction pairs with
  | nil => simp
  | cons here _ ih => rw [List.forall₂_cons, List.forall_mem_cons, each _ _ here, ih]

theorem map_eq_map {α β γ : Type} {key : α → γ} {key' : β → γ} {items : List α} {items' : List β}
    (all : List.Forall₂ (fun first second => key first = key' second) items items') :
    items.map key = items'.map key' := by
  rw [← List.forall₂_eq_eq_eq, List.forall₂_map_left_iff, List.forall₂_map_right_iff]
  exact all

theorem forall₂_right {α β : Type} {relation : α → β → Prop} {items : List α} {items' : List β}
    (all : List.Forall₂ relation items items') :
    ∀ second ∈ items', ∃ first ∈ items, relation first second := by
  induction all with
  | nil => simp
  | cons related _ ih =>
      refine List.forall_mem_cons.mpr ⟨⟨_, List.mem_cons_self, related⟩, ?_⟩
      intro second listed
      obtain ⟨first, inItems, same⟩ := ih second listed
      exact ⟨first, List.mem_cons_of_mem _ inItems, same⟩

theorem forall₂_join {α β γ : Type} {relation : α → γ → Prop} {relation' : β → γ → Prop}
    {items : List α} {items' : List β} {sources : List γ}
    (all : List.Forall₂ relation items sources) (all' : List.Forall₂ relation' items' sources) :
    List.Forall₂ (fun first second => ∃ source, relation first source ∧ relation' second source)
      items items' := by
  induction all generalizing items' with
  | nil =>
      cases all'
      exact List.Forall₂.nil
  | cons related _ ih =>
      cases all' with
      | cons related' rest => exact List.Forall₂.cons ⟨_, related, related'⟩ (ih rest)

theorem forall₂_find? {α β : Type} {relation : α → β → Prop} {holds : α → Bool} {holds' : β → Bool}
    (agree : ∀ first second, relation first second → holds first = holds' second)
    {items : List α} {items' : List β} (all : List.Forall₂ relation items items') :
    items.find? holds = none ∧ items'.find? holds' = none ∨
      ∃ (index : Nat) (first : α) (second : β), items[index]? = some first ∧
        items'[index]? = some second ∧ items.find? holds = some first ∧
        items'.find? holds' = some second := by
  induction all with
  | nil => exact Or.inl ⟨rfl, rfl⟩
  | @cons first second rest rest' related _ ih =>
      have same := agree first second related
      cases here : holds first with
      | true =>
          rw [here] at same
          exact Or.inr ⟨0, first, second, rfl, rfl, List.find?_cons_of_pos here,
            List.find?_cons_of_pos same.symm⟩
      | false =>
          rw [here] at same
          rw [List.find?_cons_of_neg (by simp [here]), List.find?_cons_of_neg (by simp [← same])]
          rcases ih with none | ⟨index, found, found', placed, placed', rest⟩
          · exact Or.inl none
          · exact Or.inr ⟨index + 1, found, found', placed, placed', rest⟩

theorem forall₂_filter_at {α β : Type} {relation : α → β → Prop} {kept : α → Bool} {items : List α}
    {made : List β} (all : List.Forall₂ relation (items.filter kept) made) {index : Nat} {item : α}
    (placed : items[index]? = some item) (isKept : kept item = true) :
    ∃ other, made[((items.take index).filter kept).length]? = some other ∧ relation item other := by
  obtain ⟨bound, same⟩ := List.getElem?_eq_some_iff.mp placed
  have parts : items.filter kept = (items.take index).filter kept ++
      item :: (items.drop (index + 1)).filter kept := by
    rw [← List.filter_cons_of_pos isKept, ← List.filter_append, ← same,
      ← List.drop_eq_getElem_cons bound, List.take_append_drop]
  have onward := List.forall₂_drop ((items.take index).filter kept).length all
  rw [parts, List.drop_left, List.forall₂_cons_left_iff] at onward
  obtain ⟨other, rest, related, _, here⟩ := onward
  refine ⟨other, ?_, related⟩
  rw [← Nat.add_zero ((items.take index).filter kept).length, ← List.getElem?_drop, here]
  rfl

/-- A wider selection that is no longer selects the same. -/
theorem filter_eq_of_length {α : Type} {items : List α} {wide narrow : α → Bool}
    (wider : ∀ item ∈ items, narrow item = true → wide item = true)
    (lengths : (items.filter narrow).length = (items.filter wide).length) :
    ∀ item ∈ items, wide item = narrow item := by
  have within : (items.filter wide).filter narrow = items.filter narrow := by
    rw [List.filter_filter]
    refine List.filter_congr fun item listed => ?_
    cases isNarrow : narrow item with
    | true => simp [wider item listed isNarrow]
    | false => rfl
  rw [← within, List.length_filter_eq_length_iff] at lengths
  intro item listed
  rw [Bool.eq_iff_iff]
  exact ⟨fun isWide => lengths item (List.mem_filter.mpr ⟨listed, isWide⟩), wider item listed⟩

section Keys

variable {α β : Type} [DecidableEq β] {key : α → β} {items items' : List α}

theorem find?_key_iff (distinct : (items.map key).Nodup) {wanted : β} {item : α} :
    items.find? (key · = wanted) = some item ↔ item ∈ items ∧ key item = wanted := by
  constructor
  · intro found
    exact ⟨List.mem_of_find?_eq_some found, by simpa using List.find?_some found⟩
  · rintro ⟨listed, rfl⟩
    have some' : (items.find? (key · = key item)).isSome :=
      List.find?_isSome.mpr ⟨item, listed, decide_eq_true rfl⟩
    obtain ⟨other, found⟩ := Option.isSome_iff_exists.mp some'
    have same : key other = key item := by simpa using List.find?_some found
    rw [found, List.inj_on_of_nodup_map distinct (List.mem_of_find?_eq_some found) listed same]

theorem find?_key_perm (distinct : (items.map key).Nodup) (permuted : items.Perm items')
    (wanted : β) : items.find? (key · = wanted) = items'.find? (key · = wanted) := by
  have distinct' : (items'.map key).Nodup := (permuted.map key).nodup_iff.mp distinct
  apply Option.ext
  intro item
  rw [find?_key_iff distinct, find?_key_iff distinct', permuted.mem_iff]

end Keys

end PairedLists
