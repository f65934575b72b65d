import Mathlib.Data.Finite.Sigma
import Mathlib.ModelTheory.Syntax
import Mathlib.Order.Lattice.Nat
import Stad.Reachability

/-!
Terms that expand into their arguments and into the templates of their head, with
the arguments in place of the variables. Whether finitely many terms expand
into finitely many is decided by the templates: an argument can grow without bound
exactly when it comes back, inside a larger one, to the place it was passed from.
-/

namespace TermExpansion

open FirstOrder.Language Reachability Relation

variable {L : FirstOrder.Language.{0, 0}} {α β : Type}

/-- The symbols with their numbers of arguments, and the places of these. -/
abbrev Head (L : FirstOrder.Language.{0, 0}) := Σ arity, L.Functions arity

abbrev ArgumentSlot (L : FirstOrder.Language.{0, 0}) := Σ head : Head L, Fin head.1

structure Templates (L : FirstOrder.Language.{0, 0}) where
  templates : ∀ {arity : Nat}, L.Functions arity → List (L.Term (Fin arity))
  isSealed : ∀ {arity : Nat}, L.Functions arity → Bool

def height : L.Term α → Nat
  | .var _ => 0
  | .func _ arguments => (Finset.univ.sup fun index => height (arguments index)) + 1

theorem height_argument {arity : Nat} (head : L.Functions arity) (arguments : Fin arity → L.Term α)
    (index : Fin arity) : height (arguments index) < height (.func head arguments) :=
  Nat.lt_succ_of_le (Finset.le_sup (f := fun index => height (arguments index))
    (Finset.mem_univ index))

theorem height_func_le {arity bound : Nat} {head : L.Functions arity}
    {arguments : Fin arity → L.Term α} :
    height (.func head arguments) ≤ bound + 1 ↔ ∀ index, height (arguments index) ≤ bound := by
  simp [height]

section Substitution

variable [DecidableEq α] {values : α → L.Term β}

theorem mem_varFinset_func {arity : Nat} {head : L.Functions arity}
    {arguments : Fin arity → L.Term α} {letter : α} :
    letter ∈ (Term.func head arguments).varFinset ↔
      ∃ index, letter ∈ (arguments index).varFinset := by
  simp

theorem height_subst_le {term : L.Term α} {bound : Nat}
    (small : ∀ letter ∈ term.varFinset, height (values letter) ≤ bound) :
    height (term.subst values) ≤ height term + bound := by
  induction term with
  | var letter =>
      have here := small letter (by simp)
      simpa [Term.subst, height] using here
  | func head arguments ih =>
      have each : ∀ index, height ((arguments index).subst values) ≤
          (Finset.univ.sup fun index => height (arguments index)) + bound := by
        intro index
        have below := ih index fun letter inside => small letter (mem_varFinset_func.mpr ⟨index, inside⟩)
        have highest := Finset.le_sup (f := fun index => height (arguments index))
          (Finset.mem_univ index)
        exact below.trans (Nat.add_le_add_right highest bound)
      have all := Finset.sup_le fun index (_ : index ∈ Finset.univ) => each index
      simp only [Term.subst, height]
      omega

theorem height_le_subst {term : L.Term α} {letter : α} (inside : letter ∈ term.varFinset) :
    height (values letter) ≤ height (term.subst values) := by
  induction term with
  | var other =>
      rw [Term.varFinset, Finset.mem_singleton] at inside
      rw [inside, Term.subst]
  | func head arguments ih =>
      obtain ⟨index, inside⟩ := mem_varFinset_func.mp inside
      exact (ih index inside).trans
        (height_argument head (fun index => (arguments index).subst values) index).le

theorem height_lt_subst {term : L.Term α} {letter : α} (inside : letter ∈ term.varFinset)
    (proper : term ≠ .var letter) : height (values letter) < height (term.subst values) := by
  cases term with
  | var other =>
      rw [Term.varFinset, Finset.mem_singleton] at inside
      exact absurd (by rw [inside]) proper
  | func head arguments =>
      obtain ⟨index, inside⟩ := mem_varFinset_func.mp inside
      exact (height_le_subst inside).trans_lt
        (height_argument head (fun index => (arguments index).subst values) index)

end Substitution

theorem finite_height_le [Finite (Head L)] [Finite α] (bound : Nat) :
    {term : L.Term α | height term ≤ bound}.Finite := by
  induction bound with
  | zero =>
      refine (Set.finite_range Term.var).subset ?_
      rintro (letter | ⟨head, arguments⟩) low
      · exact ⟨letter, rfl⟩
      · cases low
  | succ bound ih =>
      have applied : ∀ head : Head L,
          ((fun arguments => Term.func head.2 arguments) ''
            {arguments : Fin head.1 → L.Term α | ∀ index, height (arguments index) ≤ bound}).Finite :=
        fun head => (Set.Finite.pi' fun _ => ih).image _
      refine ((Set.finite_range Term.var).union (Set.finite_iUnion applied)).subset ?_
      rintro (letter | ⟨head, arguments⟩) low
      · exact Or.inl ⟨letter, rfl⟩
      · refine Or.inr (Set.mem_iUnion.mpr ⟨⟨_, head⟩, arguments, ?_, rfl⟩)
        exact height_func_le.mp low

section Expansion

variable (T : Templates L)

inductive Expands : L.Term α → L.Term α → Prop
  | argument {arity : Nat} {head : L.Functions arity} {arguments : Fin arity → L.Term α}
      (opened : T.isSealed head = false) (index : Fin arity) :
      Expands (.func head arguments) (arguments index)
  | template {arity : Nat} {head : L.Functions arity} {arguments : Fin arity → L.Term α}
      {template : L.Term (Fin arity)} (opened : T.isSealed head = false)
      (listed : template ∈ T.templates head) :
      Expands (.func head arguments) (template.subst arguments)

def expansions (roots : Set (L.Term α)) : Set (L.Term α) :=
  {term | ∃ root ∈ roots, ReflTransGen (Expands T) root term}

/-- The subterms that are not below a sealed head. -/
inductive Part : L.Term α → L.Term α → Prop
  | whole {term : L.Term α} : Part term term
  | argument {arity : Nat} {head : L.Functions arity} {arguments : Fin arity → L.Term α}
      {term : L.Term α} (opened : T.isSealed head = false) (index : Fin arity)
      (below : Part (arguments index) term) : Part (.func head arguments) term

inductive Used (roots : Set (L.Term α)) : Head L → Prop
  | root {root : L.Term α} {arity : Nat} {head : L.Functions arity}
      {arguments : Fin arity → L.Term α} (listed : root ∈ roots)
      (part : Part T root (.func head arguments)) : Used roots ⟨arity, head⟩
  | template {outer arity : Nat} {from' : L.Functions outer} {head : L.Functions arity}
      {template : L.Term (Fin outer)} {arguments : Fin arity → L.Term (Fin outer)}
      (earlier : Used roots ⟨outer, from'⟩) (opened : T.isSealed from' = false)
      (listed : template ∈ T.templates from') (part : Part T template (.func head arguments)) :
      Used roots ⟨arity, head⟩

/-- A template of the first head passes the argument in the first slot on to the
second slot, alone or inside a larger term. -/
inductive Passes : ArgumentSlot L → ArgumentSlot L → Prop
  | through {outer arity : Nat} {from' : L.Functions outer} {head : L.Functions arity}
      {template : L.Term (Fin outer)} {arguments : Fin arity → L.Term (Fin outer)}
      {slot : Fin outer} {index : Fin arity} (opened : T.isSealed from' = false)
      (listed : template ∈ T.templates from') (part : Part T template (.func head arguments))
      (inside : slot ∈ (arguments index).varFinset) :
      Passes ⟨⟨outer, from'⟩, slot⟩ ⟨⟨arity, head⟩, index⟩

inductive Grows : ArgumentSlot L → ArgumentSlot L → Prop
  | through {outer arity : Nat} {from' : L.Functions outer} {head : L.Functions arity}
      {template : L.Term (Fin outer)} {arguments : Fin arity → L.Term (Fin outer)}
      {slot : Fin outer} {index : Fin arity} (opened : T.isSealed from' = false)
      (listed : template ∈ T.templates from') (part : Part T template (.func head arguments))
      (inside : slot ∈ (arguments index).varFinset) (proper : arguments index ≠ .var slot) :
      Grows ⟨⟨outer, from'⟩, slot⟩ ⟨⟨arity, head⟩, index⟩

/-- What is passed on from a slot that comes up returns to it and has grown. -/
def GrowingCycle (roots : Set (L.Term α)) : Prop :=
  ∃ source target, Used T roots source.1 ∧ Grows T source target ∧
    ReflTransGen (Passes T) target source

variable {T} {roots : Set (L.Term α)}

theorem Grows.passes {source target : ArgumentSlot L} (grows : Grows T source target) :
    Passes T source target := by
  cases grows with
  | through opened listed part inside _ => exact Passes.through opened listed part inside

theorem Part.reached {term part : L.Term α} (isPart : Part T term part) :
    ReflTransGen (Expands T) term part := by
  induction isPart with
  | whole => exact .refl
  | argument opened index _ ih => exact ih.head (Expands.argument opened index)

theorem Part.subst {term part : L.Term α} (isPart : Part T term part) (values : α → L.Term β) :
    Part T (term.subst values) (part.subst values) := by
  induction isPart with
  | whole => exact .whole
  | argument opened index _ ih => exact Part.argument opened index ih

theorem Part.of_subst {term : L.Term α} {values : α → L.Term β} {arity : Nat}
    {head : L.Functions arity} {arguments : Fin arity → L.Term β}
    (isPart : Part T (term.subst values) (.func head arguments)) :
    (∃ inner, Part T term (.func head inner) ∧ arguments = fun index => (inner index).subst values) ∨
      ∃ letter, Part T term (.var letter) ∧ Part T (values letter) (.func head arguments) := by
  induction term with
  | var letter => exact Or.inr ⟨letter, .whole, isPart⟩
  | func outer inner ih =>
      cases isPart with
      | whole => exact Or.inl ⟨inner, .whole, rfl⟩
      | argument opened index below =>
          rcases ih index below with ⟨part, isPart, same⟩ | ⟨letter, isPart, inValue⟩
          · exact Or.inl ⟨part, .argument opened index isPart, same⟩
          · exact Or.inr ⟨letter, .argument opened index isPart, inValue⟩

theorem expansions_part {term part : L.Term α} (reached : term ∈ expansions T roots)
    (isPart : Part T term part) : part ∈ expansions T roots := by
  obtain ⟨root, listed, path⟩ := reached
  exact ⟨root, listed, path.trans isPart.reached⟩

theorem expansions_template {outer arity : Nat} {from' : L.Functions outer}
    {values : Fin outer → L.Term α} {template : L.Term (Fin outer)} {head : L.Functions arity}
    {arguments : Fin arity → L.Term (Fin outer)}
    (reached : Term.func from' values ∈ expansions T roots) (opened : T.isSealed from' = false)
    (listed : template ∈ T.templates from') (part : Part T template (.func head arguments)) :
    Term.func head (fun index => (arguments index).subst values) ∈ expansions T roots := by
  obtain ⟨root, inRoots, path⟩ := reached
  have expanded : template.subst values ∈ expansions T roots :=
    ⟨root, inRoots, path.tail (Expands.template opened listed)⟩
  exact expansions_part expanded (part.subst values)

theorem Used.reached {head : Head L} (used : Used T roots head) :
    ∃ arguments, Term.func head.2 arguments ∈ expansions T roots := by
  induction used with
  | root listed part => exact ⟨_, expansions_part ⟨_, listed, .refl⟩ part⟩
  | template _ opened listed part ih =>
      obtain ⟨values, reached⟩ := ih
      exact ⟨_, expansions_template reached opened listed part⟩

def HoldsAt (T : Templates L) (roots : Set (L.Term α)) (slot : ArgumentSlot L) (bound : Nat) : Prop :=
  ∃ arguments, Term.func slot.1.2 arguments ∈ expansions T roots ∧
    bound ≤ height (arguments slot.2)

theorem HoldsAt.passes {source target : ArgumentSlot L} {bound : Nat}
    (holds : HoldsAt T roots source bound) (passes : Passes T source target) :
    HoldsAt T roots target bound := by
  cases passes with
  | through opened listed part inside =>
      obtain ⟨values, reached, high⟩ := holds
      exact ⟨_, expansions_template reached opened listed part, high.trans (height_le_subst inside)⟩

theorem HoldsAt.grows {source target : ArgumentSlot L} {bound : Nat}
    (holds : HoldsAt T roots source bound) (grows : Grows T source target) :
    HoldsAt T roots target (bound + 1) := by
  cases grows with
  | through opened listed part inside proper =>
      obtain ⟨values, reached, high⟩ := holds
      exact ⟨_, expansions_template reached opened listed part,
        high.trans_lt (height_lt_subst inside proper)⟩

theorem HoldsAt.path {source target : ArgumentSlot L} {bound : Nat} (holds : HoldsAt T roots source bound)
    (path : ReflTransGen (Passes T) source target) : HoldsAt T roots target bound := by
  induction path with
  | refl => exact holds
  | tail _ passes ih => exact ih.passes passes

theorem infinite_of_growingCycle (cycle : GrowingCycle T roots) :
    ¬(expansions T roots).Finite := by
  obtain ⟨source, target, used, grows, path⟩ := cycle
  have unbounded : ∀ bound, HoldsAt T roots source bound := by
    intro bound
    induction bound with
    | zero =>
        obtain ⟨arguments, reached⟩ := used.reached
        exact ⟨arguments, reached, Nat.zero_le _⟩
    | succ bound ih => exact (ih.grows grows).path path
  intro finite
  obtain ⟨highest, above⟩ := (finite.image height).bddAbove
  obtain ⟨arguments, reached, high⟩ := unbounded highest
  have below := above (Set.mem_image_of_mem height reached)
  have higher := height_argument source.1.2 arguments source.2
  omega

theorem Part.height_le {term part : L.Term α} (isPart : Part T term part) :
    height part ≤ height term := by
  induction isPart with
  | whole => exact Nat.le_refl _
  | argument _ index _ ih => exact ih.trans (height_argument _ _ index).le

/-- The heads that come up are used, and how high their arguments are depends on
how often what is in their slots has grown. -/
def Bounded (T : Templates L) (roots : Set (L.Term α)) (rank : ArgumentSlot L → Nat) (highest : Nat)
    (term : L.Term α) : Prop :=
  ∀ (arity : Nat) (head : L.Functions arity) (arguments : Fin arity → L.Term α),
    Part T term (.func head arguments) → Used T roots ⟨arity, head⟩ ∧
      ∀ index, height (arguments index) ≤ highest * (rank ⟨⟨arity, head⟩, index⟩ + 1)

section Ranked

variable {rank : ArgumentSlot L → Nat} {highest : Nat}

theorem bounded_root (low : ∀ root ∈ roots, height root ≤ highest) {root : L.Term α}
    (listed : root ∈ roots) : Bounded T roots rank highest root := by
  intro arity head arguments part
  refine ⟨Used.root listed part, ?_⟩
  intro index
  have below := (height_argument head arguments index).le.trans part.height_le
  exact (below.trans (low root listed)).trans (Nat.le_mul_of_pos_right _ (Nat.succ_pos _))

theorem bounded_instance {outer arity : Nat} {from' : L.Functions outer}
    {values : Fin outer → L.Term α} {template : L.Term (Fin outer)} {head : L.Functions arity}
    {arguments : Fin arity → L.Term (Fin outer)} (opened : T.isSealed from' = false)
    (listed : template ∈ T.templates from') (part : Part T template (.func head arguments))
    (keeps : ∀ target, ∀ slot, Passes T ⟨⟨outer, from'⟩, slot⟩ target →
      rank ⟨⟨outer, from'⟩, slot⟩ ≤ rank target)
    (rises : ∀ target, ∀ slot, Grows T ⟨⟨outer, from'⟩, slot⟩ target →
      rank ⟨⟨outer, from'⟩, slot⟩ < rank target)
    (low : height template ≤ highest)
    (below : ∀ slot, height (values slot) ≤ highest * (rank ⟨⟨outer, from'⟩, slot⟩ + 1))
    (index : Fin arity) : height ((arguments index).subst values) ≤
      highest * (rank ⟨⟨arity, head⟩, index⟩ + 1) := by
  by_cases alone : ∃ slot, arguments index = .var slot
  · obtain ⟨slot, same⟩ := alone
    have passes : Passes T ⟨⟨outer, from'⟩, slot⟩ ⟨⟨arity, head⟩, index⟩ :=
      Passes.through opened listed part (by simp [same])
    rw [same]
    exact (below slot).trans
      (Nat.mul_le_mul_left highest (Nat.succ_le_succ (keeps _ slot passes)))
  · have small : ∀ slot ∈ (arguments index).varFinset,
        height (values slot) ≤ highest * rank ⟨⟨arity, head⟩, index⟩ := by
      intro slot inside
      have grows : Grows T ⟨⟨outer, from'⟩, slot⟩ ⟨⟨arity, head⟩, index⟩ :=
        Grows.through opened listed part inside fun same => alone ⟨slot, same⟩
      exact (below slot).trans (Nat.mul_le_mul_left highest (rises _ slot grows))
    have inner := (height_argument head arguments index).le.trans part.height_le
    have instance' := height_subst_le small
    rw [Nat.mul_succ]
    omega

theorem bounded_expands
    (keeps : ∀ source target, Used T roots source.1 ∧ Passes T source target →
      rank source ≤ rank target)
    (rises : ∀ source target, Used T roots source.1 ∧ Grows T source target →
      rank source < rank target)
    (low : ∀ head : Head L, ∀ template ∈ T.templates head.2, height template ≤ highest)
    {term next : L.Term α} (bounded : Bounded T roots rank highest term)
    (expands : Expands T term next) : Bounded T roots rank highest next := by
  intro arity head arguments part
  cases expands with
  | argument opened index => exact bounded arity head arguments (.argument opened index part)
  | template opened listed =>
      obtain ⟨used, below⟩ := bounded _ _ _ .whole
      rcases part.of_subst with ⟨inner, isPart, same⟩ | ⟨slot, _, inValue⟩
      · refine ⟨used.template opened listed isPart, ?_⟩
        rw [same]
        exact bounded_instance opened listed isPart (fun target slot passes => keeps _ _ ⟨used, passes⟩)
          (fun target slot grows => rises _ _ ⟨used, grows⟩) (low ⟨_, _⟩ _ listed) below
      · exact bounded arity head arguments (.argument opened slot inValue)

end Ranked

theorem exists_highest [Finite (Head L)] (T : Templates L) (finite : roots.Finite) :
    ∃ highest, (∀ root ∈ roots, height root ≤ highest) ∧
      ∀ head : Head L, ∀ template ∈ T.templates head.2, height template ≤ highest := by
  have rootHeights : (height '' roots).Finite := finite.image _
  have templateHeights : (⋃ head : Head L,
      height '' {template | template ∈ T.templates head.2}).Finite :=
    Set.finite_iUnion fun head => (List.finite_toSet (T.templates head.2)).image _
  obtain ⟨highest, above⟩ := (rootHeights.union templateHeights).bddAbove
  refine ⟨highest, ?_, ?_⟩
  · intro root listed
    exact above (Or.inl (Set.mem_image_of_mem height listed))
  · intro head template listed
    exact above (Or.inr (Set.mem_iUnion.mpr ⟨head, Set.mem_image_of_mem height listed⟩))

theorem finite_of_no_growingCycle [Finite (Head L)] [Finite α] (finite : roots.Finite)
    (free : ¬GrowingCycle T roots) : (expansions T roots).Finite := by
  obtain ⟨rank, keeps, rises⟩ := exists_rank
    (fun source target : ArgumentSlot L => Used T roots source.1 ∧ Passes T source target)
    (fun source target => Used T roots source.1 ∧ Grows T source target)
    (fun source target grows => ⟨grows.1, grows.2.passes⟩)
    (fun source target grows path => free ⟨source, target, grows.1, grows.2,
      ReflTransGen.mono (fun _ _ step => step.2) _ _ path⟩)
  obtain ⟨highest, lowRoots, lowTemplates⟩ := exists_highest T finite
  have bounded : ∀ term ∈ expansions T roots, Bounded T roots rank highest term := by
    rintro term ⟨root, listed, path⟩
    induction path with
    | refl => exact bounded_root lowRoots listed
    | tail _ expands ih => exact bounded_expands keeps rises lowTemplates ih expands
  obtain ⟨top, above⟩ := (Set.finite_range rank).bddAbove
  refine (finite_height_le (highest * (top + 1) + 1)).subset ?_
  intro term reached
  cases term with
  | var letter => exact Nat.zero_le _
  | func head arguments =>
      refine height_func_le.mpr fun index => ?_
      have ranked := above (Set.mem_range_self ⟨⟨_, head⟩, index⟩)
      exact ((bounded _ reached _ head arguments .whole).2 index).trans
        (Nat.mul_le_mul_left highest (Nat.succ_le_succ ranked))

/-- Finitely many terms come up exactly when nothing that is passed on grows in a circle. -/
theorem expansions_finite_iff [Finite (Head L)] [Finite α] (finite : roots.Finite) :
    (expansions T roots).Finite ↔ ¬GrowingCycle T roots := by
  constructor
  · intro few cycle
    exact infinite_of_growingCycle cycle few
  · exact finite_of_no_growingCycle finite

end Expansion

end TermExpansion
