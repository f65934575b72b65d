import Mathlib.Data.List.Infix

/-!
Looking for a word in a text that is put together from parts. A word none of
whose letters stands in a separator is found in the whole exactly when it is
found in one of the parts.
-/

namespace WordSearch

variable {α : Type} {letter : α → Prop} {word separator : List α}

structure Word (letter : α → Prop) (word : List α) : Prop where
  nonempty : word ≠ []
  letters : ∀ item ∈ word, letter item

def Separates (letter : α → Prop) (separator : List α) : Prop :=
  ∀ item ∈ separator, ¬letter item

theorem Word.of_all {isLetter : α → Bool} (nonempty : word ≠ [])
    (checked : word.all isLetter = true) : Word (fun item => isLetter item = true) word :=
  ⟨nonempty, List.all_eq_true.mp checked⟩

theorem Separates.of_all {isLetter : α → Bool} (checked : separator.all (!isLetter ·) = true) :
    Separates (fun item => isLetter item = true) separator := by
  intro item listed
  simpa using List.all_eq_true.mp checked item listed

theorem Word.not_infix (isWord : Word letter word) (separates : Separates letter separator) :
    ¬word <:+: separator := by
  intro found
  obtain ⟨item, rest, same⟩ := List.exists_cons_of_ne_nil isWord.nonempty
  have listed : item ∈ word := by simp [same]
  exact separates item (found.subset listed) (isWord.letters item listed)

theorem Word.infix_separator_append (isWord : Word letter word)
    (separates : Separates letter separator) (right : List α) :
    word <:+: separator ++ right ↔ word <:+: right := by
  constructor
  · intro found
    rcases List.infix_append_iff_ne_nil.mp found with inside | after | ⟨first, second, nonempty, _,
      split, suffix, _⟩
    · exact absurd inside (isWord.not_infix separates)
    · exact after
    · obtain ⟨item, rest, same⟩ := List.exists_cons_of_ne_nil nonempty
      have listed : item ∈ first := by simp [same]
      have inWord : item ∈ word := by
        rw [split]
        exact List.mem_append_left second listed
      exact absurd (isWord.letters item inWord) (separates item (suffix.subset listed))
  · exact List.infix_append_of_infix_right

theorem Word.infix_separated (isWord : Word letter word) (nonempty : separator ≠ [])
    (separates : Separates letter separator) (left right : List α) :
    word <:+: left ++ (separator ++ right) ↔ word <:+: left ∨ word <:+: right := by
  rw [List.infix_append_iff_ne_nil, isWord.infix_separator_append separates]
  constructor
  · rintro (before | after | ⟨first, second, _, secondNonempty, split, _, isPrefix⟩)
    · exact Or.inl before
    · exact Or.inr after
    · obtain ⟨mark, marks, same⟩ := List.exists_cons_of_ne_nil nonempty
      obtain ⟨item, rest, sameSecond⟩ := List.exists_cons_of_ne_nil secondNonempty
      rw [same, sameSecond, List.cons_append, List.cons_prefix_cons] at isPrefix
      have inWord : item ∈ word := by simp [split, sameSecond]
      have notLetter := separates mark (by simp [same])
      rw [← isPrefix.1] at notLetter
      exact absurd (isWord.letters item inWord) notLetter
  · rintro (before | after)
    · exact Or.inl before
    · exact Or.inr (Or.inl after)

theorem Word.infix_append_separator (isWord : Word letter word)
    (separates : Separates letter separator) (left : List α) :
    word <:+: left ++ separator ↔ word <:+: left := by
  by_cases empty : separator = []
  · rw [empty, List.append_nil]
  · have split := isWord.infix_separated empty separates left []
    rw [List.append_nil, List.infix_nil] at split
    simpa [isWord.nonempty] using split

theorem Word.infix_intercalate (isWord : Word letter word) (nonempty : separator ≠ [])
    (separates : Separates letter separator) (parts : List (List α)) :
    word <:+: separator.intercalate parts ↔ ∃ part ∈ parts, word <:+: part := by
  induction parts with
  | nil => simp [isWord.nonempty]
  | cons part rest ih =>
      cases rest with
      | nil => simp
      | cons next rest =>
          rw [List.intercalate_cons_cons, List.append_assoc,
            isWord.infix_separated nonempty separates, ih]
          simp

end WordSearch
