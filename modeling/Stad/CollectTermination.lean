import Stad.CollectorReachable
import Stad.TermExpansion

/-!
When the collector ends on declarations that instantiate each other. Types are
terms over the declared types and their type parameters. A declared type is a
symbol with as many arguments as it has type parameters, its templates are the types
of its visible members, and an enum is sealed.
-/

namespace Stad.TypeCollectorForAssembly

open Bounded Bounded.Outcome FirstOrder.Language Relation TermExpansion TypeCollector

variable {L : FirstOrder.Language.{0, 0}}

def parameters {arity : Nat} (declared : L.Functions arity) (index : Fin arity) :
    L.Term (ArgumentSlot L) :=
  .var ⟨⟨arity, declared⟩, index⟩

/-- What reflection answers about declared types and their instances. A type on its
own parameters is the definition, whose arguments may be left out. Nothing is said of
type parameters, which have the members of their constraints. -/
structure Reflects (graph : TypeGraph (L.Term (ArgumentSlot L))) (T : Templates L) : Prop where
  isEnum : ∀ {arity : Nat} (declared : L.Functions arity) (arguments : Fin arity → L.Term (ArgumentSlot L)),
    graph.isEnum (.func declared arguments) = T.isSealed declared
  isGenericType : ∀ {arity : Nat} (declared : L.Functions arity)
    (arguments : Fin arity → L.Term (ArgumentSlot L)),
    graph.isGenericType (.func declared arguments) = decide (0 < arity)
  genericTypeArguments : ∀ {arity : Nat} (declared : L.Functions arity)
    (arguments : Fin arity → L.Term (ArgumentSlot L)), arguments ≠ parameters declared →
    graph.genericTypeArguments (.func declared arguments) = List.ofFn arguments
  definition : ∀ {arity : Nat} (declared : L.Functions arity),
    ∀ type ∈ graph.genericTypeArguments (.func declared (parameters declared)),
      ∃ index, type = parameters declared index
  memberTypes : ∀ {arity : Nat} (declared : L.Functions arity)
    (arguments : Fin arity → L.Term (ArgumentSlot L)), T.isSealed declared = false →
    ∀ type, type ∈ memberTypes graph (.func declared arguments) ↔
      ∃ template ∈ T.templates declared, type = template.subst arguments

/-- The targets, and what the type parameters that come up have as members. -/
def starts (graph : TypeGraph (L.Term (ArgumentSlot L))) (targets : List (L.Term (ArgumentSlot L))) :
    Set (L.Term (ArgumentSlot L)) :=
  {type | type ∈ targets ∨
    ∃ letter, Reachable (Leads graph) targets (.var letter) ∧ Leads graph (.var letter) type}

section Graph

variable {graph : TypeGraph (L.Term (ArgumentSlot L))} {T : Templates L}

theorem Reflects.leads_iff (reflects : Reflects graph T) {arity : Nat}
    {declared : L.Functions arity} {arguments : Fin arity → L.Term (ArgumentSlot L)}
    {type : L.Term (ArgumentSlot L)} :
    Leads graph (.func declared arguments) type ↔ T.isSealed declared = false ∧
      (0 < arity ∧ type ∈ graph.genericTypeArguments (.func declared arguments) ∨
        ∃ template ∈ T.templates declared, type = template.subst arguments) := by
  rw [← mem_children_iff, children, reflects.isEnum, reflects.isGenericType]
  cases opened : T.isSealed declared with
  | true => simp
  | false =>
      by_cases generic : 0 < arity
      · simp [generic, reflects.memberTypes declared arguments opened]
      · simp [generic, reflects.memberTypes declared arguments opened]

theorem Reflects.expands (reflects : Reflects graph T) {arity : Nat} {declared : L.Functions arity}
    {arguments : Fin arity → L.Term (ArgumentSlot L)} {child : L.Term (ArgumentSlot L)}
    (leads : Leads graph (.func declared arguments) child) :
    Expands T (.func declared arguments) child := by
  obtain ⟨opened, ⟨_, listed⟩ | ⟨template, listed, same⟩⟩ := reflects.leads_iff.mp leads
  · by_cases own : arguments = parameters declared
    · rw [own] at listed
      obtain ⟨index, same⟩ := reflects.definition declared child listed
      rw [same, ← own]
      exact Expands.argument opened index
    · rw [reflects.genericTypeArguments declared arguments own, List.mem_ofFn] at listed
      obtain ⟨index, same⟩ := listed
      rw [← same]
      exact Expands.argument opened index
  · rw [same]
    exact Expands.template opened listed

/-- The collector follows every expansion but for the parameters of a definition. -/
theorem Reflects.leads (reflects : Reflects graph T) {type child : L.Term (ArgumentSlot L)}
    (expands : Expands T type child) : Leads graph type child ∨ ∃ letter, child = .var letter := by
  cases expands with
  | @argument arity declared arguments opened index =>
      by_cases own : arguments = parameters declared
      · exact Or.inr ⟨_, congrFun own index⟩
      · refine Or.inl (reflects.leads_iff.mpr ⟨opened, Or.inl ⟨index.pos, ?_⟩⟩)
        rw [reflects.genericTypeArguments declared arguments own]
        exact List.mem_ofFn.mpr ⟨index, rfl⟩
  | template opened listed =>
      exact Or.inl (reflects.leads_iff.mpr ⟨opened, Or.inr ⟨_, listed, rfl⟩⟩)

theorem starts_finite [Finite (Head L)] (graph : TypeGraph (L.Term (ArgumentSlot L)))
    (targets : List (L.Term (ArgumentSlot L))) : (starts graph targets).Finite := by
  have members : (⋃ letter : ArgumentSlot L, {type | type ∈ children graph (.var letter)}).Finite :=
    Set.finite_iUnion fun letter => List.finite_toSet _
  refine ((List.finite_toSet targets).union members).subset ?_
  rintro type (listed | ⟨letter, _, leads⟩)
  · exact Or.inl listed
  · exact Or.inr (Set.mem_iUnion.mpr ⟨letter, mem_children_iff.mpr leads⟩)

theorem Reflects.reachable_finite_iff [Finite (Head L)] (reflects : Reflects graph T)
    (targets : List (L.Term (ArgumentSlot L))) :
    {type | Reachable (Leads graph) targets type}.Finite ↔
      (expansions T (starts graph targets)).Finite := by
  constructor
  · intro finite
    refine (finite.union (Set.finite_range Term.var)).subset ?_
    rintro type ⟨start, isStart, path⟩
    induction path with
    | refl =>
        rcases isStart with listed | ⟨letter, ⟨target, listed, path⟩, leads⟩
        · exact Or.inl ⟨start, listed, .refl⟩
        · exact Or.inl ⟨target, listed, path.tail leads⟩
    | tail _ expands ih =>
        rcases ih with ⟨target, listed, path⟩ | ⟨letter, same⟩
        · rcases reflects.leads expands with leads | ⟨letter, same⟩
          · exact Or.inl ⟨target, listed, path.tail leads⟩
          · exact Or.inr ⟨letter, same.symm⟩
        · rw [← same] at expands
          cases expands
  · intro finite
    refine finite.subset ?_
    rintro type ⟨target, listed, path⟩
    induction path with
    | refl => exact ⟨target, Or.inl listed, .refl⟩
    | @tail before child path leads ih =>
        cases before with
        | var letter => exact ⟨child, Or.inr ⟨letter, ⟨target, listed, path⟩, leads⟩, .refl⟩
        | func declared arguments =>
            obtain ⟨start, isStart, expanded⟩ := ih
            exact ⟨start, isStart, expanded.tail (reflects.expands leads)⟩

variable [∀ arity, DecidableEq (L.Functions arity)]

/-- `Collect` returns exactly when no argument of a type that comes up is passed on
through members and comes back to its place inside a larger type, and the attributes of
what comes up can be read. -/
theorem collect_returns_iff [Finite (Head L)] (reflects : Reflects graph T) (comparer : Comparer)
    (targets : List (L.Term (ArgumentSlot L))) :
    (∃ depth result, collect graph comparer targets depth = value result) ↔
      ¬GrowingCycle T (starts graph targets) ∧
        ∀ type, Reachable (Leads graph) targets type → Readable graph type := by
  rw [collect_succeeds_iff, reflects.reachable_finite_iff,
    expansions_finite_iff (starts_finite graph targets)]

end Graph

/-! `class Cell<T>` with the field `Next`, of type `Cell<T>` or, if `isNested`, of type
`Cell<Cell<T>>`. -/

inductive CellName : Nat → Type where
  | cell : CellName 1
  deriving DecidableEq

abbrev cells : FirstOrder.Language.{0, 0} := ⟨CellName, fun _ => Empty⟩

def cellOf {α : Type} (argument : cells.Term α) : cells.Term α := .func CellName.cell fun _ => argument

def cellTemplates (isNested : Bool) : Templates cells where
  templates
    | .cell => [if isNested then cellOf (cellOf (.var 0)) else cellOf (.var 0)]
  isSealed _ := false

def cellDefinition : cells.Term (ArgumentSlot cells) := cellOf (.var ⟨⟨1, .cell⟩, 0⟩)

def cellGraph (isNested : Bool) : TypeGraph (cells.Term (ArgumentSlot cells)) where
  name
    | .var _ => "T"
    | .func _ _ => "Cell`1"
  nameSpace _ := some "Sample"
  fullName type := if type = cellDefinition then some "Sample.Cell`1" else none
  isEnum _ := false
  isGenericType
    | .var _ => false
    | .func _ _ => true
  isValueType _ := false
  enumUnderlyingType := .ok
  genericTypeArguments
    | .var _ => []
    | .func declared arguments =>
      if .func declared arguments = cellDefinition then [] else List.ofFn arguments
  getProperties _ := []
  getFields
    | .var _ => []
    | .func declared arguments => ((cellTemplates isNested).templates declared).map fun template =>
      ⟨"Next", template.subst arguments, true, false, false, []⟩
  getCustomAttributes _ := []
  genericName := by
    intro type _ name named
    split at named
    · cases named
      rfl
    · cases named

instance : Finite (Head cells) := by
  refine Finite.of_injective (fun _ => ()) ?_
  rintro ⟨_, ⟨⟩⟩ ⟨_, ⟨⟩⟩ _
  rfl

theorem cellDefinition_eq :
    cellDefinition = .func CellName.cell (parameters (L := cells) CellName.cell) := by
  refine congrArg (Term.func (L := cells) CellName.cell) (funext fun index => ?_)
  rw [Subsingleton.elim index 0]
  rfl

theorem cellGraph_reflects (isNested : Bool) :
    Reflects (cellGraph isNested) (cellTemplates isNested) where
  isEnum _ _ := rfl
  isGenericType
    | .cell, _ => rfl
  genericTypeArguments
    | .cell, arguments, other => by
      have different : Term.func CellName.cell arguments ≠ cellDefinition := by
        rw [cellDefinition_eq]
        intro same
        cases same
        exact other rfl
      exact if_neg different
  definition
    | .cell => by
      have none : (cellGraph isNested).genericTypeArguments
          (.func CellName.cell (parameters (L := cells) CellName.cell)) = [] := by
        simp [cellGraph, cellDefinition_eq]
      rw [none]
      simp
  memberTypes
    | .cell, arguments, _ => by
      intro type
      simp [memberTypes, visibleProperties, visibleFields, cellGraph, cellTemplates, visible,
        memberOfField]

theorem cellGraph_readable (isNested : Bool) (type : cells.Term (ArgumentSlot cells)) :
    Readable (cellGraph isNested) type :=
  ⟨⟨by simp [cellGraph], by simp [cellGraph]⟩, by simp [cellGraph], by simp [cellGraph]⟩

theorem cellTemplates_stay (roots : Set (cells.Term (ArgumentSlot cells))) :
    ¬GrowingCycle (cellTemplates false) roots := by
  rintro ⟨source, target, _, grows, _⟩
  cases grows with
  | @through _ _ from' _ _ _ slot _ opened listed part inside proper =>
      cases from'
      have is := List.mem_singleton.mp listed
      rw [is] at part
      cases part with
      | whole => exact proper (congrArg Term.var (Subsingleton.elim _ _))
      | argument _ _ below => cases below

theorem cell_returns :
    ∃ depth result, collect (cellGraph false) ordinal [cellDefinition] depth = value result :=
  (collect_returns_iff (cellGraph_reflects false) ordinal [cellDefinition]).mpr
    ⟨cellTemplates_stay _, fun type _ => cellGraph_readable false type⟩

theorem cellTemplates_grow (roots : Set (cells.Term (ArgumentSlot cells)))
    (listed : cellDefinition ∈ roots) : GrowingCycle (cellTemplates true) roots := by
  have inside : (0 : Fin 1) ∈ (cellOf (.var 0) : cells.Term (Fin 1)).varFinset := by decide
  have part : Part (cellTemplates true) (cellOf (cellOf (.var 0)) : cells.Term (Fin 1))
      (.func CellName.cell fun _ => cellOf (.var 0)) := .whole
  refine ⟨⟨⟨1, .cell⟩, 0⟩, ⟨⟨1, .cell⟩, 0⟩, ?_, ?_, .refl⟩
  · exact Used.root listed .whole
  · refine Grows.through rfl (List.mem_singleton_self _) part inside ?_
    intro same
    cases same

theorem nestedCell_never_returns :
    Reflects (cellGraph true) (cellTemplates true) ∧ (∀ type, Readable (cellGraph true) type) ∧
      ∀ depth result, collect (cellGraph true) ordinal [cellDefinition] depth ≠ value result := by
  refine ⟨cellGraph_reflects true, cellGraph_readable true, ?_⟩
  intro depth result returned
  have finite := (collect_succeeds_iff.mp ⟨depth, result, returned⟩).1
  have grown := cellTemplates_grow (starts (cellGraph true) [cellDefinition])
    (Or.inl (List.mem_singleton_self _))
  exact infinite_of_growingCycle grown
    (((cellGraph_reflects true).reachable_finite_iff [cellDefinition]).mp finite)

end Stad.TypeCollectorForAssembly
