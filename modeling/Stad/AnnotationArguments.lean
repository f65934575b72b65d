import Stad.AnnotationMapping

/-!
The way of an annotation through its neutral form. The values of all public
members are listed in the order in which reflection shows the members, and read
back by position.
-/

namespace Stad

open StadAnalyzer Bounded

inductive RangeMember where
  | intStart
  | intEnd
  | floatStart
  | floatEnd
  | typeId
  deriving DecidableEq, Repr

inductive SingleMember where
  | field
  | typeId
  deriving DecidableEq, Repr

structure MemberOrder where
  range : List RangeMember
  name : List SingleMember
  desc : List SingleMember
  reference : List SingleMember
  rangeAll : range.Perm [.intStart, .intEnd, .floatStart, .floatEnd, .typeId]
  nameAll : name.Perm [.field, .typeId]
  descAll : desc.Perm [.field, .typeId]
  referenceAll : reference.Perm [.field, .typeId]

def stringArgument : Option String → Argument
  | none => .null
  | some text => .string text

def linesArgument : Option (List (Option String)) → Argument
  | none => .null
  | some lines => .stringArray lines

inductive Constructed where
  | rangeOfInts (start stop : Int32)
  | rangeOfFloats (start stop : UInt32)
  | name (text : Option String)
  | desc (lines : Option (List (Option String)))
  | reference (typeFullName : Option String)
  deriving DecidableEq, Repr

namespace Constructed

def annotationClass : Constructed → AnnotationClass
  | rangeOfInts .. | rangeOfFloats .. => .range
  | name _ => .name
  | desc _ => .desc
  | reference _ => .reference

def value : Constructed → StadAnnotation
  | rangeOfInts start stop => .range (RangeAttribute.ofInts start stop)
  | rangeOfFloats start stop => .range (RangeAttribute.ofFloats start stop)
  | name text => .name ⟨text⟩
  | desc lines => .desc ⟨lines⟩
  | reference typeFullName => .reference ⟨typeFullName⟩

end Constructed

/-- `TypeId` is the class of the attribute unless it is overridden. -/
def rangeValue (range : RangeAttribute) : RangeMember → Argument
  | .intStart => .int range.intStart
  | .intEnd => .int range.intEnd
  | .floatStart => .float range.floatStart
  | .floatEnd => .float range.floatEnd
  | .typeId => .type (some AnnotationClass.range.fullName)

def singleValue (annotationClass : AnnotationClass) (value : Argument) : SingleMember → Argument
  | .field => value
  | .typeId => .type (some annotationClass.fullName)

def Constructed.memberValues (order : MemberOrder) : Constructed → List Argument
  | rangeOfInts start stop => order.range.map (rangeValue (RangeAttribute.ofInts start stop))
  | rangeOfFloats start stop => order.range.map (rangeValue (RangeAttribute.ofFloats start stop))
  | name text => order.name.map (singleValue .name (stringArgument text))
  | desc lines => order.desc.map (singleValue .desc (linesArgument lines))
  | reference typeFullName =>
    order.reference.map (singleValue .reference (stringArgument typeFullName))

def Constructed.toCustomAttribute (order : MemberOrder) (made : Constructed) : CustomAttribute where
  classFullName := made.annotationClass.fullName
  inherited := true
  allowMultiple := false
  created := .ok ()
  memberValues := (made.memberValues order).map .ok

/-- `FromArgument` gets the annotation back from its neutral form. -/
def Survives (order : MemberOrder) (made : Constructed) : Prop :=
  ∃ data, NeutralAttributeData.fromCustomAttribute (made.toCustomAttribute order) = .ok data ∧
    made.annotationClass.fromArgument data.arguments = .ok made.value

/-- The values that are read are those of the fields, and the others are the default. -/
def ReadInOrder (order : MemberOrder) : Constructed → Prop
  | .rangeOfInts start stop => order.range.take 2 = [.intStart, .intEnd] ∨
      order.range.take 2 = [.intEnd, .intStart] ∧ start = stop
  | .rangeOfFloats start stop => (order.range.take 2 = [.intStart, .intEnd] ∨
      order.range.take 2 = [.intEnd, .intStart]) ∧ start = 0 ∧ stop = 0
  | .name _ => order.name.head? = some .field
  | .desc _ => order.desc.head? = some .field
  | .reference _ => order.reference.head? = some .field

theorem castString_argument (text : Option String) : castString (stringArgument text) = .ok text := by
  cases text <;> rfl

theorem castStringArray_argument (lines : Option (List (Option String))) :
    castStringArray (linesArgument lines) = .ok lines := by
  cases lines <;> rfl

theorem single_first {members : List SingleMember} (all : members.Perm [.field, .typeId]) :
    ∃ first rest, members = first :: rest :=
  List.exists_cons_of_ne_nil fun empty => by simp [empty] at all

theorem range_firstTwo (order : MemberOrder) :
    ∃ first second rest, order.range = first :: second :: rest ∧ first ≠ second := by
  have length := order.rangeAll.length_eq
  have unique := order.rangeAll.nodup_iff.mpr (by decide)
  match same : order.range, length, unique with
  | first :: second :: rest, _, unique =>
      exact ⟨first, second, rest, rfl, fun equal => by simp [equal] at unique⟩

theorem fromArgument_two {first second : Argument} {rest : List Argument} {range : RangeAttribute} :
    RangeAttribute.fromArgument (first :: second :: rest) = .ok range ↔
      castInt first = .ok range.intStart ∧ castInt second = .ok range.intEnd ∧
        range.floatStart = 0 ∧ range.floatEnd = 0 := by
  rcases range with ⟨intStart, intEnd, floatStart, floatEnd⟩
  cases start : castInt first with
  | error thrown => simp [RangeAttribute.fromArgument, item, start, bind, Except.bind]
  | ok startValue =>
      cases stop : castInt second with
      | error thrown => simp [RangeAttribute.fromArgument, item, start, stop, bind, Except.bind]
      | ok stopValue =>
          simp [RangeAttribute.fromArgument, RangeAttribute.ofInts, item, start, stop, bind,
            Except.bind, pure, Except.pure, eq_comm]

@[simp] theorem castInt_int (value : Int32) : castInt (.int value) = .ok value := rfl

@[simp] theorem castInt_float (bits : UInt32) : castInt (.float bits) = .error .invalidCast := rfl

@[simp] theorem castInt_type (fullName : Option String) :
    castInt (.type fullName) = .error .invalidCast := rfl

theorem castInt_rangeValue {range : RangeAttribute} {shown : RangeMember} {value : Int32} :
    castInt (rangeValue range shown) = .ok value ↔
      (shown = .intStart ∧ range.intStart = value) ∨ (shown = .intEnd ∧ range.intEnd = value) := by
  cases shown <;> simp [rangeValue]

theorem rangeArguments_iff (order : MemberOrder) (range : RangeAttribute) :
    RangeAttribute.fromArgument (order.range.map (rangeValue range)) = .ok range ↔
      (order.range.take 2 = [.intStart, .intEnd] ∨
        order.range.take 2 = [.intEnd, .intStart] ∧ range.intStart = range.intEnd) ∧
      range.floatStart = 0 ∧ range.floatEnd = 0 := by
  obtain ⟨first, second, rest, same, different⟩ := range_firstTwo order
  rw [same, List.map_cons, List.map_cons, fromArgument_two, castInt_rangeValue, castInt_rangeValue,
    ← and_assoc]
  refine and_congr_left fun _ => ?_
  simp only [List.take_succ_cons, List.take_zero, List.cons.injEq, and_true]
  constructor
  · rintro ⟨isStart | ⟨isEnd, _⟩, ⟨isStart', equal⟩ | isEnd'⟩
    · exact absurd (isStart.trans isStart'.symm) different
    · exact Or.inl ⟨isStart, isEnd'⟩
    · exact Or.inr ⟨⟨isEnd, isStart'⟩, equal⟩
    · exact absurd (isEnd.trans isEnd'.symm) different
  · rintro (⟨isStart, isEnd⟩ | ⟨⟨isEnd, isStart⟩, equal⟩)
    · exact ⟨Or.inl isStart, Or.inr isEnd⟩
    · exact ⟨Or.inr ⟨isEnd, equal.symm⟩, Or.inl ⟨isStart, equal⟩⟩

theorem single_iff {α : Type} {members : List SingleMember}
    (all : members.Perm [.field, .typeId]) (annotationClass : AnnotationClass) (value : Argument)
    {cast : Argument → Except Thrown α} {read : α} (reads : cast value = .ok read)
    (refuses : ∀ name, cast (.type name) = .error .invalidCast) :
    (item (members.map (singleValue annotationClass value)) 0).bind cast = .ok read ↔
      members.head? = some .field := by
  obtain ⟨first, rest, same⟩ := single_first all
  rw [same, List.map_cons, List.head?_cons]
  cases first with
  | field => simp [item, singleValue, reads, Except.bind]
  | typeId => simp [item, singleValue, refuses, Except.bind]

theorem bind_pure_iff {α β : Type} {made : Except Thrown α} {wrap : α → β}
    (injective : Function.Injective wrap) {read : α} :
    (made >>= fun value => pure (wrap value)) = .ok (wrap read) ↔ made = .ok read := by
  cases made with
  | error thrown => simp [bind, Except.bind]
  | ok value => simp [bind, Except.bind, pure, Except.pure, injective.eq_iff]

theorem mapM_ok (values : List Argument) :
    (values.map Except.ok).mapM id = (.ok values : Except Thrown (List Argument)) := by
  induction values with
  | nil => rfl
  | cons value rest ih =>
      rw [List.map_cons, List.mapM_cons, ih]
      rfl

theorem survives_arguments (order : MemberOrder) (made : Constructed) :
    Survives order made ↔
      made.annotationClass.fromArgument (made.memberValues order) = .ok made.value := by
  have turned : NeutralAttributeData.fromCustomAttribute (made.toCustomAttribute order) =
      .ok ⟨some made.annotationClass.fullName, made.memberValues order⟩ := by
    rw [NeutralAttributeData.fromCustomAttribute, Constructed.toCustomAttribute, mapM_ok]
    rfl
  simp [Survives, turned]

/-- An annotation survives exactly when its fields are listed where they are read
and it has nothing in a field that is not read. -/
theorem survives_iff (order : MemberOrder) (made : Constructed) :
    Survives order made ↔ ReadInOrder order made := by
  rw [survives_arguments]
  cases made with
  | rangeOfInts start stop =>
      refine (bind_pure_iff fun _ _ => StadAnnotation.range.inj).trans
        ((rangeArguments_iff order _).trans ?_)
      simp [ReadInOrder, RangeAttribute.ofInts]
  | rangeOfFloats start stop =>
      refine (bind_pure_iff fun _ _ => StadAnnotation.range.inj).trans
        ((rangeArguments_iff order _).trans ?_)
      simp [ReadInOrder, RangeAttribute.ofFloats]
  | name text =>
      refine (bind_pure_iff fun _ _ => StadAnnotation.name.inj).trans (Iff.trans ?_
        (single_iff order.nameAll .name _ (castString_argument text) fun _ => rfl))
      rw [NameAttribute.fromArgument, ← bind_assoc]
      exact bind_pure_iff fun _ _ => NameAttribute.mk.inj
  | desc lines =>
      refine (bind_pure_iff fun _ _ => StadAnnotation.desc.inj).trans (Iff.trans ?_
        (single_iff order.descAll .desc _ (castStringArray_argument lines) fun _ => rfl))
      rw [DescAttribute.fromArgument, ← bind_assoc]
      exact bind_pure_iff fun _ _ => DescAttribute.mk.inj
  | reference typeFullName =>
      refine (bind_pure_iff fun _ _ => StadAnnotation.reference.inj).trans (Iff.trans ?_
        (single_iff order.referenceAll .reference _ (castString_argument typeFullName)
          fun _ => rfl))
      rw [ReferenceAttribute.fromArgument, ← bind_assoc]
      exact bind_pure_iff fun _ _ => ReferenceAttribute.mk.inj

/-! The order of the runtime, properties before fields. -/

def typeIdFirst : MemberOrder where
  range := [.typeId, .intStart, .intEnd, .floatStart, .floatEnd]
  name := [.typeId, .field]
  desc := [.typeId, .field]
  reference := [.typeId, .field]
  rangeAll := by decide
  nameAll := by decide
  descAll := by decide
  referenceAll := by decide

def fieldsFirst : MemberOrder where
  range := [.intStart, .intEnd, .floatStart, .floatEnd, .typeId]
  name := [.field, .typeId]
  desc := [.field, .typeId]
  reference := [.field, .typeId]
  rangeAll := by decide
  nameAll := by decide
  descAll := by decide
  referenceAll := by decide

theorem annotations_lost :
    (AnnotationClass.name.fromArgument ((Constructed.name (some "Level")).memberValues typeIdFirst) =
        .error .invalidCast ∧ ¬Survives typeIdFirst (.name (some "Level"))) ∧
    (AnnotationClass.range.fromArgument
        ((Constructed.rangeOfFloats 1065353216 1073741824).memberValues fieldsFirst) =
        .ok (.range (RangeAttribute.ofInts 0 0)) ∧
      ¬Survives fieldsFirst (.rangeOfFloats 1065353216 1073741824)) := by
  refine ⟨⟨by rfl, ?_⟩, by rfl, ?_⟩
  · rw [survives_arguments]
    decide
  · rw [survives_arguments]
    decide

end Stad
