import Mathlib.Data.List.DropRight

/-!
Paths as texts. Separators divide a path into its components, and two paths mean
the same place when they have the same components and both or neither of them
start at the root. A name can be put inside a path by writing it right behind the
text only where the text ends with a separator or is empty.
-/

namespace PathText

variable {α : Type} (isSeparator : α → Bool)

def single (name : List α) : List (List α) := if name.isEmpty then [] else [name]

def componentsFrom (name : List α) : List α → List (List α)
  | [] => single name
  | letter :: rest =>
    if isSeparator letter then single name ++ componentsFrom [] rest
    else componentsFrom (name ++ [letter]) rest

def components (path : List α) : List (List α) := componentsFrom isSeparator [] path

def isRooted (path : List α) : Bool := path.head?.any isSeparator

structure Place (α : Type) where
  rooted : Bool
  names : List (List α)
  deriving DecidableEq, Repr

def place (path : List α) : Place α := ⟨isRooted isSeparator path, components isSeparator path⟩

def Place.inside (directory : Place α) (name : List α) : Place α :=
  { directory with names := directory.names ++ [name] }

def fileName (path : List α) : List α := path.rtakeWhile fun letter => !isSeparator letter

def combine (separator : α) (path name : List α) : List α :=
  if (fileName isSeparator path).isEmpty then path ++ name else path ++ separator :: name

structure IsName (name : List α) : Prop where
  nonempty : name ≠ []
  plain : ∀ letter ∈ name, isSeparator letter = false

variable {isSeparator}

theorem IsName.of_all {name : List α} (nonempty : name ≠ [])
    (checked : name.all (!isSeparator ·) = true) : IsName isSeparator name := by
  refine ⟨nonempty, fun letter listed => ?_⟩
  simpa using List.all_eq_true.mp checked letter listed

@[simp] theorem single_nil : single ([] : List α) = [] := rfl

theorem single_of_ne_nil {name : List α} (nonempty : name ≠ []) : single name = [name] := by
  simp [single, nonempty]

theorem componentsFrom_plain {text : List α} (plain : ∀ letter ∈ text, isSeparator letter = false)
    (name : List α) : componentsFrom isSeparator name text = single (name ++ text) := by
  induction text generalizing name with
  | nil => simp [componentsFrom]
  | cons letter rest ih =>
      obtain ⟨here, later⟩ := List.forall_mem_cons.mp plain
      rw [componentsFrom, here, if_neg (by simp), ih later, List.append_assoc, List.singleton_append]

theorem componentsFrom_append {separator : α} (separates : isSeparator separator = true)
    (name left right : List α) :
    componentsFrom isSeparator name (left ++ separator :: right) =
      componentsFrom isSeparator name left ++ components isSeparator right := by
  induction left generalizing name with
  | nil => simp [componentsFrom, separates, components]
  | cons letter rest ih =>
      rw [List.cons_append, componentsFrom, componentsFrom]
      by_cases ends : isSeparator letter = true
      · rw [if_pos ends, if_pos ends, ih, List.append_assoc]
      · rw [if_neg ends, if_neg ends, ih]

theorem components_nonempty {name path : List α} :
    ∀ component ∈ componentsFrom isSeparator name path, component ≠ [] := by
  have ofSingle : ∀ name : List α, ∀ component ∈ single name, component ≠ [] := by
    intro name component listed
    by_cases empty : name = []
    · simp [empty] at listed
    · rw [single_of_ne_nil empty, List.mem_singleton] at listed
      rw [listed]
      exact empty
  induction path generalizing name with
  | nil => exact ofSingle name
  | cons letter rest ih =>
      rw [componentsFrom]
      split
      · exact List.forall_mem_append.mpr ⟨ofSingle name, ih⟩
      · exact ih

theorem fileName_plain (path : List α) :
    ∀ letter ∈ fileName isSeparator path, isSeparator letter = false := by
  intro letter listed
  simpa using List.mem_rtakeWhile_imp listed

theorem path_cases (isSeparator : α → Bool) (path : List α) :
    fileName isSeparator path = path ∨ ∃ front separator, isSeparator separator = true ∧
      path = front ++ separator :: fileName isSeparator path := by
  induction path using List.reverseRecOn with
  | nil => exact Or.inl rfl
  | append_singleton front letter ih =>
      by_cases ends : isSeparator letter = true
      · refine Or.inr ⟨front, letter, ends, ?_⟩
        rw [fileName, List.rtakeWhile_concat_neg _ _ _ (by simp [ends])]
      · have step : fileName isSeparator (front ++ [letter]) =
            fileName isSeparator front ++ [letter] :=
          List.rtakeWhile_concat_pos _ _ _ (by simpa using ends)
        rcases ih with plain | ⟨before, separator, separates, split⟩
        · exact Or.inl (by rw [step, plain])
        · refine Or.inr ⟨before, separator, separates, ?_⟩
          rw [step, ← List.cons_append, ← List.append_assoc, ← split]

theorem components_append (isSeparator : α → Bool) (path : List α) : ∃ parents, ∀ text,
    (∀ letter ∈ text, isSeparator letter = false) →
    components isSeparator (path ++ text) = parents ++ single (fileName isSeparator path ++ text) := by
  have prolonged : ∀ text, (∀ letter ∈ text, isSeparator letter = false) →
      ∀ letter ∈ fileName isSeparator path ++ text, isSeparator letter = false :=
    fun text plain => List.forall_mem_append.mpr ⟨fileName_plain path, plain⟩
  rcases path_cases isSeparator path with plain | ⟨front, separator, separates, split⟩
  · refine ⟨[], fun text textPlain => ?_⟩
    have all := prolonged text textPlain
    rw [plain] at all ⊢
    rw [components, componentsFrom_plain all]
    rfl
  · refine ⟨components isSeparator front, fun text textPlain => ?_⟩
    have whole : path ++ text = front ++ separator :: (fileName isSeparator path ++ text) := by
      rw [← List.cons_append, ← List.append_assoc, ← split]
    rw [whole, components, componentsFrom_append separates, components,
      componentsFrom_plain (prolonged text textPlain)]
    rfl

theorem components_eq_nil {path : List α} (none : components isSeparator path = []) :
    fileName isSeparator path = [] := by
  obtain ⟨parents, appended⟩ := components_append isSeparator path
  have own := appended [] (by simp)
  rw [List.append_nil, List.append_nil, none] at own
  by_contra nonempty
  rw [single_of_ne_nil nonempty] at own
  simp at own

theorem isRooted_append {path text : List α} (plain : ∀ letter ∈ text, isSeparator letter = false) :
    isRooted isSeparator (path ++ text) = isRooted isSeparator path := by
  cases path with
  | nil =>
      cases text with
      | nil => rfl
      | cons letter rest => simp [isRooted, plain]
  | cons letter rest => rfl

/-- The last component is the text after the last separator exactly when that is
not empty, as long as there is a component at all. -/
theorem last_component_iff {path : List α} :
    (∀ last, (components isSeparator path).getLast? = some last →
      fileName isSeparator path = last) ↔
    fileName isSeparator path ≠ [] ∨ components isSeparator path = [] := by
  obtain ⟨parents, appended⟩ := components_append isSeparator path
  have own := appended [] (by simp)
  rw [List.append_nil, List.append_nil] at own
  constructor
  · intro agrees
    by_cases none : components isSeparator path = []
    · exact Or.inr none
    · have isLast := List.getLast?_eq_some_getLast none
      left
      rw [agrees _ isLast]
      exact components_nonempty _ (List.mem_of_getLast? isLast)
  · rintro (nonempty | none) last isLast
    · rw [own, single_of_ne_nil nonempty, List.getLast?_concat, Option.some.injEq] at isLast
      exact isLast
    · simp [none] at isLast

/-- A name written right behind a path is inside it exactly when nothing comes
after the last separator of the path. -/
theorem place_append_iff {path name : List α} (isName : IsName isSeparator name) :
    place isSeparator (path ++ name) = (place isSeparator path).inside name ↔
      fileName isSeparator path = [] := by
  obtain ⟨parents, appended⟩ := components_append isSeparator path
  have own := appended [] (by simp)
  rw [List.append_nil, List.append_nil] at own
  have nonempty : fileName isSeparator path ++ name ≠ [] := by simp [isName.nonempty]
  simp only [place, Place.inside, Place.mk.injEq, isRooted_append isName.plain, true_and,
    appended name isName.plain, own, single_of_ne_nil nonempty, List.append_assoc,
    List.append_cancel_left_eq]
  by_cases empty : fileName isSeparator path = []
  · simp [empty]
  · simp [single_of_ne_nil empty, empty]

theorem place_combine {separator : α} (separates : isSeparator separator = true)
    {path name : List α} (isName : IsName isSeparator name) :
    place isSeparator (combine isSeparator separator path name) =
      (place isSeparator path).inside name := by
  unfold combine
  split
  · rename_i empty
    exact (place_append_iff isName).mpr (by simpa using empty)
  · rename_i nonempty
    have rooted : isRooted isSeparator (path ++ separator :: name) = isRooted isSeparator path := by
      cases path with
      | nil => simp [fileName] at nonempty
      | cons letter rest => rfl
    have names : components isSeparator (path ++ separator :: name) =
        components isSeparator path ++ [name] := by
      rw [components, componentsFrom_append separates, components,
        componentsFrom_plain isName.plain, List.nil_append, single_of_ne_nil isName.nonempty]
      rfl
    rw [place, rooted, names]
    rfl

theorem combine_append (separator : α) (path name text : List α) :
    combine isSeparator separator path name ++ text =
      combine isSeparator separator path (name ++ text) := by
  unfold combine
  split <;> simp

theorem IsName.append {name text : List α} (isName : IsName isSeparator name)
    (plain : ∀ letter ∈ text, isSeparator letter = false) : IsName isSeparator (name ++ text) :=
  ⟨by simp [isName.nonempty], List.forall_mem_append.mpr ⟨isName.plain, plain⟩⟩

end PathText
