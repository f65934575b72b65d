import Stad.CollectorReachable

/-!
How a run of `TypeCollectorForAssembly` ends. Over finitely many types it always does, if
only by the exception of an attribute that cannot be created or read.
-/

namespace Stad.TypeCollectorForAssembly

open Bounded Bounded.Outcome Relation Traversal TypeCollector

section Ends

variable {τ : Type} {graph : TypeGraph τ} {inside : Finset τ}

theorem getObjectInfo_endsIn {call : CollectCall τ} {invariant : Workspace τ → Prop} {type : τ}
    (each : ∀ child ∈ memberTypes graph type, ∀ workspace, invariant workspace →
      EndsIn invariant (call (workspace, child)))
    {workspace : Workspace τ} (start : invariant workspace) :
    EndsIn (fun _ => True) (getObjectInfo graph call workspace type) := by
  have round (state : MemberState τ) (kept : invariant state.1) (member : MemberSerializationInfo)
      (memberType : τ) (listed : visible member = true → memberType ∈ memberTypes graph type) :
      EndsIn (fun state => invariant state.1) (collectMember call state member memberType) := by
    rw [collectMember_eq]
    cases shown : visible member with
    | true => exact (each memberType (listed shown) state.1 kept).bind fun workspace kept => kept
    | false => exact kept
  have properties : EndsIn (fun state => invariant state.1)
      ((graph.getProperties type).foldlM (collectProperty graph call) (workspace, [])) := by
    refine foldlM_endsIn (fun item declared state kept => ?_) start
    refine (endsIn_ofExcept _).bind fun attributes _ => round state kept _ _ fun shown => ?_
    exact List.mem_append_left _ (List.mem_map_of_mem (List.mem_filter.mpr ⟨declared, shown⟩))
  refine properties.bind fun middle kept => ?_
  have fields : EndsIn (fun state => invariant state.1)
      ((graph.getFields type).foldlM (collectField graph call) middle) := by
    refine foldlM_endsIn (fun item declared state kept => round state kept _ _ fun shown => ?_) kept
    exact List.mem_append_right _ (List.mem_map_of_mem (List.mem_filter.mpr ⟨declared, shown⟩))
  exact fields.bind fun collected _ => (endsIn_ofExcept _).bind fun _ _ => trivial

variable [DecidableEq τ]

theorem collectCoreBody_endsIn {call : CollectCall τ} (invariant : Workspace τ → Prop)
    {workspace : Workspace τ} {type : τ} (unknown : type ∉ workspace.alreadyCollected)
    (each : ∀ child ∈ children graph type, ∀ workspace, invariant workspace →
      EndsIn invariant (call (workspace, child)))
    (start : invariant
      { workspace with alreadyCollected := type :: workspace.alreadyCollected }) :
    EndsIn (fun _ => True) (collectCoreBody graph call (workspace, type)) := by
  simp only [collectCoreBody, if_neg unknown]
  cases enum : graph.isEnum type with
  | true => exact (endsIn_ofExcept _).bind fun _ _ => (endsIn_ofExcept _).bind fun _ _ => trivial
  | false =>
      cases generic : graph.isGenericType type with
      | true =>
          simp only [children, enum, generic, Bool.false_eq_true, if_false, if_true,
            List.mem_append] at each
          simp only [collectGeneric, not_isArraySegment generic]
          have arguments : EndsIn invariant ((graph.genericTypeArguments type).foldlM
              (fun workspace item => call (workspace, item))
              { workspace with alreadyCollected := type :: workspace.alreadyCollected }) :=
            foldlM_endsIn (fun item listed state => each item (Or.inl listed) state) start
          exact arguments.bind fun middle kept => (getObjectInfo_endsIn
            (fun child listed => each child (Or.inr listed)) kept).bind fun _ _ => trivial
      | false =>
          simp only [children, enum, generic, Bool.false_eq_true, if_false] at each
          exact (getObjectInfo_endsIn each start).bind fun _ _ => trivial

theorem collectCore_grows {depth : Nat} {workspace next : Workspace τ} {type : τ}
    (returned : collectCore graph depth (workspace, type) = value next) :
    ∀ other ∈ workspace.alreadyCollected, other ∈ next.alreadyCollected := by
  induction depth generalizing workspace next type with
  | zero => simp [collectCore] at returned
  | succ depth ih =>
      have body : collectCore graph (depth + 1) =
          collectCoreBody graph (collectCore graph depth) := rfl
      rw [body] at returned
      by_cases known : type ∈ workspace.alreadyCollected
      · simp only [collectCoreBody, if_pos known, pure_eq, value.injEq] at returned
        rw [← returned]
        exact fun _ => id
      · rw [collectCoreBody_eq (collectCoreBody_readable known returned) known] at returned
        obtain ⟨last, looped, added⟩ := map_eq_value.mp returned
        have kept := foldlM_induction looped
          (fun _ state => ∀ other ∈ workspace.alreadyCollected, other ∈ state.alreadyCollected)
          (fun _ => List.mem_cons_of_mem _)
          fun _ _ _ _ _ _ earlier stepped other listed => ih stepped other (earlier other listed)
        rw [← added, addEntry_alreadyCollected]
        exact kept

theorem collectCore_endsIn
    (closed : ∀ type ∈ inside, ∀ child ∈ children graph type, child ∈ inside) {depth : Nat}
    {workspace : Workspace τ} (enough : unvisited inside ⟨workspace.alreadyCollected, []⟩ < depth)
    {type : τ} (within : type ∈ inside) :
    EndsIn (fun next => unvisited inside ⟨next.alreadyCollected, []⟩ ≤
        unvisited inside ⟨workspace.alreadyCollected, []⟩)
      (collectCore graph depth (workspace, type)) := by
  suffices ends : EndsIn (fun _ => True) (collectCore graph depth (workspace, type)) from
    ends.of_returned fun next returned => unvisited_le (collectCore_grows returned)
  induction depth generalizing workspace type with
  | zero => omega
  | succ depth ih =>
      have body : collectCore graph (depth + 1) =
          collectCoreBody graph (collectCore graph depth) := rfl
      rw [body]
      by_cases known : type ∈ workspace.alreadyCollected
      · simp [collectCoreBody, known]
      · have fewer : unvisited inside ⟨type :: workspace.alreadyCollected, []⟩ <
            unvisited inside ⟨workspace.alreadyCollected, []⟩ :=
          @unvisited_lt τ _ inside ⟨workspace.alreadyCollected, []⟩ type within known
        refine collectCoreBody_endsIn
          (fun state => unvisited inside ⟨state.alreadyCollected, []⟩ < depth) known ?_ ?_
        · intro child listed state below
          refine (ih below (closed type within child listed)).of_returned ?_
          intro next returned
          exact (unvisited_le (collectCore_grows returned)).trans_lt below
        · exact lt_of_lt_of_le fewer (Nat.lt_succ_iff.mp enough)

theorem collect_ends {targets : List τ}
    (finite : {type | Reachable (Leads graph) targets type}.Finite) (comparer : Comparer) :
    ∃ depth, collect graph comparer targets depth ≠ exhausted := by
  let inside := finite.toFinset
  have member (type : τ) : type ∈ inside ↔ Reachable (Leads graph) targets type := by simp [inside]
  have closed : ∀ type ∈ inside, ∀ child ∈ children graph type, child ∈ inside :=
    fun type within child listed => (member child).mpr (((member type).mp within).child listed)
  refine ⟨unvisited inside ⟨[], []⟩ + 1, ?_⟩
  have looped : EndsIn (fun next : Workspace τ => unvisited inside ⟨next.alreadyCollected, []⟩ ≤
      unvisited inside ⟨[], []⟩) (targets.foldlM
        (fun workspace item => collectCore graph (unvisited inside ⟨[], []⟩ + 1) (workspace, item))
        ⟨[], [], [], []⟩) := by
    refine foldlM_endsIn (fun item listed state below => ?_) (Nat.le_refl _)
    have ends := collectCore_endsIn closed (Nat.lt_succ_of_le below)
      ((member item).mpr ⟨item, listed, .refl⟩)
    exact ends.of_returned fun next returned =>
      (unvisited_le (collectCore_grows returned)).trans below
  have ends : EndsIn (fun _ => True) (collect graph comparer targets
      (unvisited inside ⟨[], []⟩ + 1)) := looped.bind fun _ _ => trivial
  exact ends.ne_exhausted

end Ends

section Depth

variable {τ : Type} {graph : TypeGraph τ} {call call' : CollectCall τ}

theorem collectMember_deepens (each : ∀ argument, Agrees (call argument) (call' argument))
    (state : MemberState τ) (member : MemberSerializationInfo) (memberType : τ) :
    Agrees (collectMember call state member memberType)
      (collectMember call' state member memberType) :=
  Agrees.ite (Agrees.refl _) (Agrees.bind (each _) fun _ => Agrees.refl _)

theorem getObjectInfo_deepens (each : ∀ argument, Agrees (call argument) (call' argument))
    (workspace : Workspace τ) (type : τ) :
    Agrees (getObjectInfo graph call workspace type) (getObjectInfo graph call' workspace type) := by
  have property (state : MemberState τ) (item : PropertyInfo τ) :
      Agrees (collectProperty graph call state item) (collectProperty graph call' state item) :=
    Agrees.bind (Agrees.refl _) fun _ => collectMember_deepens each _ _ _
  have field (state : MemberState τ) (item : FieldInfo τ) :
      Agrees (collectField graph call state item) (collectField graph call' state item) :=
    collectMember_deepens each _ _ _
  exact Agrees.bind (foldlM_agrees property _ _) fun _ =>
    Agrees.bind (foldlM_agrees field _ _) fun _ => Agrees.refl _

variable [DecidableEq τ]

theorem collectCoreBody_continuous (graph : TypeGraph τ) : Continuous (collectCoreBody graph) := by
  rintro call call' each ⟨workspace, type⟩
  have described (workspace : Workspace τ) :=
    @getObjectInfo_deepens τ graph call call' each workspace type
  refine Agrees.ite (Agrees.refl _) (Agrees.ite (Agrees.refl _) (Agrees.ite ?_ ?_))
  · refine Agrees.ite (Agrees.refl _) (Agrees.bind ?_ fun middle => ?_)
    · exact foldlM_agrees (fun _ _ => each _) _ _
    · exact Agrees.bind (described middle) fun _ => Agrees.refl _
  · exact Agrees.bind (described _) fun _ => Agrees.refl _

/-- More depth changes nothing once a run of `Collect` has ended. -/
theorem collect_agrees {comparer : Comparer} {depth deeper : Nat} (le : depth ≤ deeper)
    (targets : List τ) :
    Agrees (collect graph comparer targets depth) (collect graph comparer targets deeper) :=
  Agrees.bind (foldlM_agrees (fun _ _ => unroll_agrees (collectCoreBody_continuous graph) le _) _ _)
    fun _ => Agrees.refl _

end Depth

variable {τ : Type} [DecidableEq τ]

def Throws (graph : TypeGraph τ) (comparer : Comparer) (targets : List τ) : Prop :=
  ∃ depth thrown, collect graph comparer targets depth = error thrown

/-- Over finitely many types `Collect` ends. It returns the reachable ones if each of
them can be read, and throws if not. -/
theorem collect_reachable (graph : TypeGraph τ) (comparer : Comparer) (targets : List τ)
    (finite : {type | Reachable (Leads graph) targets type}.Finite) :
    (CollectsReachable (Leads graph) graph comparer targets ↔
      ∀ type, Reachable (Leads graph) targets type → Readable graph type) ∧
    (Throws graph comparer targets ↔
      ∃ type, Reachable (Leads graph) targets type ∧ ¬Readable graph type) := by
  refine ⟨⟨?_, ?_⟩, ?_, ?_⟩
  · rintro ⟨⟨depth, result, returned⟩, _⟩
    exact collect_readable returned
  · intro readable
    refine ⟨collect_succeeds_iff.mpr ⟨finite, readable⟩, ?_⟩
    intro depth result returned
    obtain ⟨types, nodup, reached, same⟩ := collect_returned returned
    rw [same]
    exact resultOf_holds graph comparer nodup reached
  · rintro ⟨depth, thrown, threw⟩
    by_contra none
    push Not at none
    rw [collect_eq none, map_eq_pure_bind] at threw
    exact bind_ne_error (exploreAll_safe depth targets thrown) (by simp) threw
  · rintro ⟨type, reachable, unreadable⟩
    obtain ⟨depth, ended⟩ := collect_ends finite comparer
    cases ran : collect graph comparer targets depth with
    | value result => exact absurd (collect_readable ran type reachable) unreadable
    | error thrown => exact ⟨depth, thrown, ran⟩
    | exhausted => exact absurd ran ended

theorem parentAndChild_reachable :
    CollectsReachable (Leads parentAndChild) parentAndChild ordinal [true, false, true] :=
  (collect_reachable parentAndChild ordinal [true, false, true] (Set.toFinite _)).1.mpr
    fun type _ => parentAndChild_readable type

/-- The edges when the arguments of a generic enum count as well. -/
def LeadsThroughEnums {α : Type} (graph : TypeGraph α) (type child : α) : Prop :=
  Leads graph type child ∨
    graph.isGenericType type = true ∧ child ∈ graph.genericTypeArguments type

/-- `0` is the class `Holder` with a field of type `Outer<Leaf>.Kind`, `1` that type, an enum
declared in a generic class, and `2` the class `Leaf`. -/
def kindOfLeaf : TypeGraph (Fin 3) where
  name type := ["Holder", "Kind", "Leaf"].getD type ""
  nameSpace _ := some "Sample"
  fullName type :=
    ["Sample.Holder", "Sample.Outer`1+Kind[[Sample.Leaf]]", "Sample.Leaf"][type.val]?
  isEnum type := type == 1
  isGenericType type := type == 1
  isValueType type := type == 1
  enumUnderlyingType := .ok
  genericTypeArguments type := if type = 1 then [2] else []
  getProperties _ := []
  getFields type := if type = 0 then [⟨"Kind", 1, true, false, false, []⟩] else []
  getCustomAttributes _ := []
  genericName := by decide

theorem kindOfLeaf_readable : ∀ type, Readable kindOfLeaf type := by decide

/-- `[Display(Name = "E-mail")]`, three of whose getters throw what nobody has set. -/
def displayAttribute : CustomAttribute :=
  ⟨"System.ComponentModel.DataAnnotations.DisplayAttribute", true, false, .ok (),
    [.ok .null, .ok (.string "E-mail"), .ok .null, .ok .null, .ok .null, .ok .null,
      .error (.exception "Exception has been thrown by the target of an invocation."),
      .error (.exception "Exception has been thrown by the target of an invocation."),
      .error (.exception "Exception has been thrown by the target of an invocation."),
      .ok (.type (some "System.ComponentModel.DataAnnotations.DisplayAttribute"))]⟩

/-- `true` is the class `User` with a property of type `Address` that is to be displayed, and
`false` the class `Address`. -/
def userAndAddress : TypeGraph Bool where
  name type := if type then "User" else "Address"
  nameSpace _ := some "Sample"
  fullName type := some (if type then "Sample.User" else "Sample.Address")
  isEnum _ := false
  isGenericType _ := false
  isValueType _ := false
  enumUnderlyingType := .ok
  genericTypeArguments _ := []
  getProperties type :=
    if type then [⟨"Address", false, some ⟨true⟩, some ⟨true⟩, [displayAttribute], []⟩] else []
  getFields _ := []
  getCustomAttributes _ := []
  genericName := by simp

theorem user_unreadable : ¬Readable userAndAddress true := by
  intro readable
  have shown := (readable.ofProperties rfl _ (List.mem_singleton_self _)).shown
  exact absurd (shown displayAttribute (List.mem_singleton_self _) (.error (.exception
    "Exception has been thrown by the target of an invocation.")) (by decide)) (by decide)

theorem userAndAddress_throws :
    ¬CollectsReachable (LeadsThroughEnums userAndAddress) userAndAddress ordinal [true] := by
  rintro ⟨⟨depth, result, returned⟩, _⟩
  exact user_unreadable (collect_readable returned true ⟨true, by simp, .refl⟩)

theorem kindOfLeaf_misses_argument :
    ({type | Reachable (LeadsThroughEnums kindOfLeaf) [0] type}.Finite ∧
      (∀ type, Readable kindOfLeaf type) ∧
      ¬CollectsReachable (LeadsThroughEnums kindOfLeaf) kindOfLeaf ordinal [0]) ∧
    {type | Reachable (LeadsThroughEnums userAndAddress) [true] type}.Finite ∧
      ¬CollectsReachable (LeadsThroughEnums userAndAddress) userAndAddress ordinal [true] := by
  refine ⟨⟨Set.toFinite _, kindOfLeaf_readable, ?_⟩, Set.toFinite _, userAndAddress_throws⟩
  rintro ⟨⟨depth, result, returned⟩, exact⟩
  obtain ⟨types, nodup, reached, enums, generics, objects⟩ := (exact depth result returned).entries
  obtain ⟨types', nodup', reached', same⟩ := collect_returned returned
  have toKind : LeadsThroughEnums kindOfLeaf 0 1 := Or.inl (mem_children_iff.mp (by decide))
  have toLeaf : LeadsThroughEnums kindOfLeaf 1 2 := Or.inr (by decide)
  have needed : 2 ∈ types :=
    (reached 2).mpr ⟨0, List.mem_singleton_self 0, (ReflTransGen.single toKind).tail toLeaf⟩
  have listed : objectEntry kindOfLeaf 2 ∈ result.collectedObjectInfo :=
    objects.mem_iff.mpr (List.mem_map_of_mem (List.mem_filter.mpr ⟨needed, rfl⟩))
  have missed : 2 ∉ types' := by
    intro found
    obtain ⟨target, isTarget, path⟩ := (reached' 2).mp found
    have step : ∀ type child : Fin 3, child ∈ children kindOfLeaf type → child ≠ 2 := by decide
    rcases path.cases_tail with same | ⟨before, _, edge⟩
    · rw [List.mem_singleton.mp isTarget] at same
      cases same
    · exact step before 2 (mem_children_iff.mpr edge) rfl
  rw [same, mem_objectInfo] at listed
  obtain ⟨type, found, plain, described⟩ := listed
  have named : ∀ type : Fin 3, kindOfLeaf.fullName type = kindOfLeaf.fullName 2 → type = 2 := by
    decide
  have isLeaf := named type (congrArg ObjectSerializationInfo.fullName described)
  exact missed (isLeaf ▸ found)

end Stad.TypeCollectorForAssembly
