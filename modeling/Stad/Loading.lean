import Mathlib.Data.List.Nodup
import Stad.Bounded
import Stad.LoadingCore

/-!
What `LoadDataAsync` leaves in the object it returns. For a class every round
updates the one object; for a struct every round updates a box that is dropped,
so that the members keep what the constructor gave them.
-/

namespace Stad.StadSerializer

open ReflectionUtility

variable {τ ν : Type}

/-- The member that a name means: the first field of that name, else a settable property. -/
def Names (type : TargetType τ ν) (name : String) : Slot → Prop
  | .field position => ∃ field, type.fields[position]? = some field ∧ field.name = name ∧
      ∀ earlier < position, ∀ other, type.fields[earlier]? = some other → other.name ≠ name
  | .property position => (∀ field ∈ type.fields, field.name ≠ name) ∧
      ∃ property, type.properties[position]? = some property ∧ property.name = name ∧
        property.canWrite = true

def typeOf (type : TargetType τ ν) : Slot → Option τ
  | .field position => (type.fields[position]?).map (·.fieldType)
  | .property position => (type.properties[position]?).map (·.propertyType)

/-- Where there is no field of the name, only one property has it. -/
def Unambiguous (type : TargetType τ ν) (name : String) : Prop :=
  (∀ field ∈ type.fields, field.name ≠ name) →
    ∀ (position position' : Nat) (property property' : PropertyMember τ),
      type.properties[position]? = some property → type.properties[position']? = some property' →
      property.name = name → property'.name = name → position = position'

/-- Each named member holds its value, and every other one what it held before. -/
def Filled (type : TargetType τ ν) (items : List DataSetItem) (values : DataSetItem → ν)
    (before after : Contents ν) : Prop :=
  ∀ slot, (∀ item ∈ items, Names type item.name slot → after slot = values item) ∧
    ((∀ item ∈ items, ¬ Names type item.name slot) → after slot = before slot)

def LoadsInto (type : TargetType τ ν) (isInstance : τ → ν → Bool) (dataSet : DataSet τ ν)
    (items : List DataSetItem) (values : DataSetItem → ν) : Prop :=
  ∃ result contents, loadDataAsync type isInstance (some dataSet) = .ok result ∧
    contentsOf result.1 result.2 = some contents ∧
    Filled type items values type.constructed contents

def Supplies (type : TargetType τ ν) (isInstance : τ → ν → Bool) (dataSet : DataSet τ ν)
    (item : DataSetItem) (value : ν) : Prop :=
  ∃ slot memberType, Names type item.name slot ∧ typeOf type slot = some memberType ∧
    dataSet.loadAsync (some memberType) item = .ok value ∧ isInstance memberType value = true

structure Provides (type : TargetType τ ν) (isInstance : τ → ν → Bool) (dataSet : DataSet τ ν)
    (items : List DataSetItem) (values : DataSetItem → ν) : Prop where
  getItems : dataSet.getItems = some items
  distinct : (items.map (·.name)).Nodup
  supplies : ∀ item ∈ items, Supplies type isInstance dataSet item (values item)

theorem Names.name_eq {type : TargetType τ ν} {name name' : String} {slot : Slot}
    (names : Names type name slot) (names' : Names type name' slot) : name = name' := by
  cases slot with
  | field position =>
      obtain ⟨field, found, same, _⟩ := names
      obtain ⟨field', found', same', _⟩ := names'
      rw [found] at found'
      rw [← same, ← same', Option.some.inj found']
  | property position =>
      obtain ⟨_, property, found, same, _⟩ := names
      obtain ⟨_, property', found', same', _⟩ := names'
      rw [found] at found'
      rw [← same, ← same', Option.some.inj found']

theorem Names.slot_eq {type : TargetType τ ν} {name : String} {slot slot' : Slot}
    (unambiguous : Unambiguous type name) (names : Names type name slot)
    (names' : Names type name slot') : slot = slot' := by
  cases slot with
  | field position =>
      obtain ⟨field, found, same, first⟩ := names
      cases slot' with
      | field position' =>
          obtain ⟨field', found', same', first'⟩ := names'
          rcases Nat.lt_trichotomy position position' with before | rfl | after
          · exact absurd same (first' position before field found)
          · rfl
          · exact absurd same' (first position' after field' found')
      | property position' => exact absurd same (names'.1 field (List.mem_of_getElem? found))
  | property position =>
      obtain ⟨noField, property, found, same, _⟩ := names
      cases slot' with
      | field position' =>
          obtain ⟨field', found', same', _⟩ := names'
          exact absurd same' (noField field' (List.mem_of_getElem? found'))
      | property position' =>
          obtain ⟨_, property', found', same', _⟩ := names'
          rw [unambiguous noField position position' property property' found found' same same']

theorem getField_none_iff {type : TargetType τ ν} {name : String} :
    type.getField name = none ↔ ∀ field ∈ type.fields, field.name ≠ name := by
  unfold TargetType.getField
  rw [List.find?_eq_none]
  constructor
  · intro none field listed same
    obtain ⟨position, found⟩ := List.mem_iff_getElem?.mp listed
    have indexed : (field, position) ∈ type.fields.zipIdx :=
      List.mk_mem_zipIdx_iff_getElem?.mpr found
    exact none (field, position) indexed (by simpa using same)
  · intro none indexed listed same
    have found := List.mem_zipIdx_iff_getElem?.mp listed
    exact none indexed.1 (List.mem_of_getElem? found) (by simpa using same)

theorem getField_some {type : TargetType τ ν} {name : String} {field : FieldMember τ × Nat}
    (found : type.getField name = some field) :
    Names type name (.field field.2) ∧ typeOf type (.field field.2) = some field.1.fieldType := by
  obtain ⟨same, position, bound, placed, first⟩ := List.find?_eq_some_iff_getElem.mp found
  rw [List.getElem_zipIdx, Nat.zero_add] at placed
  have inFields : position < type.fields.length := by simpa using bound
  have at' : type.fields[field.2]? = some field.1 := by
    rw [← placed]
    exact List.getElem?_eq_getElem inFields
  refine ⟨⟨field.1, at', by simpa using same, ?_⟩, by simp [typeOf, at']⟩
  intro earlier before other found' sameName
  have samePosition : field.2 = position := by rw [← placed]
  rw [samePosition] at before
  have different := first earlier before
  have there : type.fields[earlier] = other :=
    Option.some.inj ((List.getElem?_eq_getElem (by omega)).symm.trans found')
  rw [List.getElem_zipIdx, there] at different
  simp [sameName] at different

theorem mem_properties {type : TargetType τ ν} {name : String} {property : PropertyMember τ × Nat} :
    property ∈ type.properties.zipIdx.filter (fun property => property.1.name = name) ↔
      type.properties[property.2]? = some property.1 ∧ property.1.name = name := by
  rw [List.mem_filter, List.mem_zipIdx_iff_getElem?, decide_eq_true_eq]

theorem listed_property {type : TargetType τ ν} {name : String} {position : Nat}
    {property : PropertyMember τ} (found : type.properties[position]? = some property)
    (same : property.name = name) :
    (property, position) ∈ type.properties.zipIdx.filter (fun property => property.1.name = name) :=
  mem_properties.mpr ⟨found, same⟩

theorem properties_nodup (type : TargetType τ ν) (name : String) :
    (type.properties.zipIdx.filter fun property => property.1.name = name).Nodup := by
  apply List.Nodup.filter
  apply List.Nodup.of_map Prod.snd
  rw [List.zipIdx_map_snd]
  exact List.nodup_range'

theorem getProperty_named {type : TargetType τ ν} {name : String} {position : Nat}
    {property : PropertyMember τ} (unambiguous : Unambiguous type name)
    (noField : ∀ field ∈ type.fields, field.name ≠ name)
    (found : type.properties[position]? = some property) (same : property.name = name) :
    type.getProperty name = .ok (some (property, position)) := by
  have nodup := properties_nodup type name
  have listed := listed_property found same
  have only : ∀ other ∈ type.properties.zipIdx.filter (fun property => property.1.name = name),
      other = (property, position) := by
    intro other isListed
    obtain ⟨found', same'⟩ := mem_properties.mp isListed
    have samePosition := unambiguous noField other.2 position other.1 property found' found same' same
    rw [samePosition, found] at found'
    exact Prod.ext (Option.some.inj found').symm samePosition
  unfold TargetType.getProperty
  cases candidates : type.properties.zipIdx.filter (fun property => property.1.name = name) with
  | nil => simp [candidates] at listed
  | cons first rest =>
      rw [candidates] at nodup only
      cases rest with
      | nil => rw [only first List.mem_cons_self]
      | cons second rest =>
          have firstSame := only first List.mem_cons_self
          have secondSame := only second (List.mem_cons_of_mem first List.mem_cons_self)
          rw [firstSame, secondSame] at nodup
          simp at nodup

theorem getProperty_ambiguous {type : TargetType τ ν} {name : String}
    (ambiguous : ¬ Unambiguous type name) :
    (∀ field ∈ type.fields, field.name ≠ name) ∧
      type.getProperty name = .error .ambiguousMatch := by
  unfold Unambiguous at ambiguous
  push Not at ambiguous
  obtain ⟨noField, position, position', property, property', found, found', same, same', apart⟩ :=
    ambiguous
  refine ⟨noField, ?_⟩
  have listed := listed_property found same
  have listed' := listed_property found' same'
  unfold TargetType.getProperty
  cases candidates : type.properties.zipIdx.filter (fun property => property.1.name = name) with
  | nil => simp [candidates] at listed
  | cons first rest =>
      cases rest with
      | nil =>
          rw [candidates, List.mem_singleton] at listed listed'
          exact absurd (congrArg Prod.snd (listed.trans listed'.symm)) apart
      | cons second rest => rfl

/-! One round. -/

section
variable {type : TargetType τ ν} {isInstance : τ → ν → Bool} {dataSet : DataSet τ ν}

theorem findMember_named {item : DataSetItem} {slot : Slot}
    (unambiguous : Unambiguous type item.name) (names : Names type item.name slot) :
    ∃ memberType, typeOf type slot = some memberType ∧
      findMember type item = .ok (some (slot, memberType)) ∧
      ∀ isInstance heap address value, isInstance memberType value = true →
        setValue type isInstance heap address item value =
          .ok (heap.modify address fun contents => Function.update contents slot value, true) := by
  cases found : type.getField item.name with
  | some field =>
      obtain ⟨namesField, fieldType⟩ := getField_some found
      have same := names.slot_eq unambiguous namesField
      refine ⟨field.1.fieldType, by rw [same, fieldType], by simp [findMember, found, same], ?_⟩
      intro isInstance heap address value fits
      simp only [setValue, found, assign, fits, if_true, same]
      rfl
  | none =>
      have noField := getField_none_iff.mp found
      cases slot with
      | field position =>
          obtain ⟨field, placed, same, _⟩ := names
          exact absurd same (noField field (List.mem_of_getElem? placed))
      | property position =>
          obtain ⟨_, property, placed, same, canWrite⟩ := names
          have located := getProperty_named unambiguous noField placed same
          refine ⟨property.propertyType, by simp [typeOf, placed], ?_, ?_⟩
          · simp only [findMember, found, located]
            rfl
          · intro isInstance heap address value fits
            simp only [setValue, found, located, assign]
            simp [bind, Except.bind, canWrite, fits]
            rfl

theorem findMember_ambiguous {item : DataSetItem} (ambiguous : ¬ Unambiguous type item.name) :
    findMember type item = .error .ambiguousMatch := by
  obtain ⟨noField, thrown⟩ := getProperty_ambiguous ambiguous
  simp only [findMember, getField_none_iff.mpr noField, thrown]
  rfl

theorem loadItem_boxed {item : DataSetItem} {slot : Slot} {value : ν} {heap heap' heap'' : Heap ν}
    {address address' : Nat} {result : Variable ν} (unambiguous : Unambiguous type item.name)
    (supplies : Supplies type isInstance dataSet item value) (names : Names type item.name slot)
    (first : box heap result = .ok (heap', address))
    (second : box heap' result = .ok (heap'', address')) :
    loadItem type isInstance dataSet (heap, result) item =
      .ok (heap''.modify address' fun contents => Function.update contents slot value, result) := by
  obtain ⟨slot', memberType, names', isOfType, loaded, fits⟩ := supplies
  obtain rfl := names.slot_eq unambiguous names'
  obtain ⟨memberType', isOfType', found, sets⟩ := findMember_named unambiguous names
  obtain rfl : memberType = memberType' := Option.some.inj (isOfType.symm.trans isOfType')
  simp only [loadItem, first, found, second, bind, Except.bind, Option.map_some, loaded,
    sets isInstance heap'' address' value fits]
  rfl

theorem loadItem_reference {item : DataSetItem} {slot : Slot} {value : ν} (contents : Contents ν)
    (unambiguous : Unambiguous type item.name)
    (supplies : Supplies type isInstance dataSet item value) (names : Names type item.name slot) :
    loadItem type isInstance dataSet ([contents], .reference 0) item =
      .ok ([Function.update contents slot value], .reference 0) := by
  have boxed : box [contents] (.reference 0) = .ok ([contents], 0) := rfl
  exact loadItem_boxed unambiguous supplies names boxed boxed

theorem loadItem_inline {item : DataSetItem} {value : ν} (heap : Heap ν) (contents : Contents ν)
    (unambiguous : Unambiguous type item.name)
    (supplies : Supplies type isInstance dataSet item value) :
    ∃ heap', loadItem type isInstance dataSet (heap, .inline contents) item =
      .ok (heap', .inline contents) := by
  obtain ⟨slot, _, names, _⟩ := id supplies
  exact ⟨_, loadItem_boxed unambiguous supplies names rfl rfl⟩

theorem loadItem_unambiguous {item : DataSetItem} {state next : Heap ν × Variable ν}
    (returned : loadItem type isInstance dataSet state item = .ok next) :
    Unambiguous type item.name := by
  by_contra ambiguous
  unfold loadItem at returned
  obtain ⟨target, _, returned⟩ := Bounded.except_bind_eq_ok.mp returned
  obtain ⟨memberInfo, found, _⟩ := Bounded.except_bind_eq_ok.mp returned
  rw [findMember_ambiguous ambiguous] at found
  cases found

/-! All rounds. -/

theorem Filled.nil (values : DataSetItem → ν) (contents : Contents ν) :
    Filled type [] values contents contents := by
  intro slot
  simp

theorem Filled.cons {item : DataSetItem} {rest : List DataSetItem} {values : DataSetItem → ν}
    {slot : Slot} {before after : Contents ν} (unambiguous : Unambiguous type item.name)
    (names : Names type item.name slot) (apart : ∀ other ∈ rest, other.name ≠ item.name)
    (filled : Filled type rest values (Function.update before slot (values item)) after) :
    Filled type (item :: rest) values before after := by
  intro slot'
  obtain ⟨named, unnamed⟩ := filled slot'
  constructor
  · intro other listed namesOther
    rcases List.mem_cons.mp listed with rfl | later
    · have same := names.slot_eq unambiguous namesOther
      have free : ∀ other' ∈ rest, ¬ Names type other'.name slot' := by
        intro other' listed' names'
        exact apart other' listed' (names'.name_eq namesOther)
      rw [unnamed free, ← same, Function.update_self]
    · exact named other later namesOther
  · intro free
    have different : slot' ≠ slot := by
      intro same
      rw [← same] at names
      exact free item List.mem_cons_self names
    rw [unnamed fun other listed => free other (List.mem_cons_of_mem item listed),
      Function.update_of_ne different]

theorem foldlM_reference {items : List DataSetItem} {values : DataSetItem → ν}
    (contents : Contents ν) (unambiguous : ∀ item ∈ items, Unambiguous type item.name)
    (distinct : (items.map (·.name)).Nodup)
    (supplies : ∀ item ∈ items, Supplies type isInstance dataSet item (values item)) :
    ∃ contents', items.foldlM (loadItem type isInstance dataSet) ([contents], .reference 0) =
      .ok ([contents'], .reference 0) ∧ Filled type items values contents contents' := by
  induction items generalizing contents with
  | nil => exact ⟨contents, rfl, Filled.nil values contents⟩
  | cons item rest ih =>
      obtain ⟨here, later⟩ := List.forall_mem_cons.mp unambiguous
      obtain ⟨supplied, suppliesLater⟩ := List.forall_mem_cons.mp supplies
      obtain ⟨apart, distinctLater⟩ := List.nodup_cons.mp distinct
      obtain ⟨slot, _, names, _⟩ := id supplied
      obtain ⟨contents', looped, filled⟩ :=
        ih (Function.update contents slot (values item)) later distinctLater suppliesLater
      refine ⟨contents', ?_, Filled.cons here names ?_ filled⟩
      · rw [List.foldlM_cons, loadItem_reference contents here supplied names]
        exact looped
      · intro other listed same
        exact apart (List.mem_map.mpr ⟨other, listed, same⟩)

theorem foldlM_inline {items : List DataSetItem} {values : DataSetItem → ν} (heap : Heap ν)
    (contents : Contents ν) (unambiguous : ∀ item ∈ items, Unambiguous type item.name)
    (supplies : ∀ item ∈ items, Supplies type isInstance dataSet item (values item)) :
    ∃ heap', items.foldlM (loadItem type isInstance dataSet) (heap, .inline contents) =
      .ok (heap', .inline contents) := by
  induction items generalizing heap with
  | nil => exact ⟨heap, rfl⟩
  | cons item rest ih =>
      obtain ⟨here, later⟩ := List.forall_mem_cons.mp unambiguous
      obtain ⟨supplied, suppliesLater⟩ := List.forall_mem_cons.mp supplies
      obtain ⟨heap', loaded⟩ := loadItem_inline heap contents here supplied
      obtain ⟨heap'', looped⟩ := ih heap' later suppliesLater
      refine ⟨heap'', ?_⟩
      rw [List.foldlM_cons, loaded]
      exact looped

theorem foldlM_unambiguous {items : List DataSetItem} {state last : Heap ν × Variable ν}
    (returned : items.foldlM (loadItem type isInstance dataSet) state = .ok last) :
    ∀ item ∈ items, Unambiguous type item.name := by
  induction items generalizing state with
  | nil => simp
  | cons item rest ih =>
      rw [List.foldlM_cons] at returned
      obtain ⟨next, loaded, looped⟩ := Bounded.except_bind_eq_ok.mp returned
      exact List.forall_mem_cons.mpr ⟨loadItem_unambiguous loaded, ih looped⟩

theorem loadDataAsync_provided {items : List DataSetItem} {values : DataSetItem → ν}
    (provides : Provides type isInstance dataSet items values) :
    loadDataAsync type isInstance (some dataSet) =
      items.foldlM (loadItem type isInstance dataSet) (new type) := by
  simp only [loadDataAsync, provides.getItems]

theorem loadDataAsync_class {items : List DataSetItem} {values : DataSetItem → ν}
    (provides : Provides type isInstance dataSet items values) (kind : type.isValueType = false)
    (unambiguous : ∀ item ∈ items, Unambiguous type item.name) :
    LoadsInto type isInstance dataSet items values := by
  obtain ⟨contents, looped, filled⟩ :=
    foldlM_reference type.constructed unambiguous provides.distinct provides.supplies
  have start : new type = ([type.constructed], .reference 0) := by simp [new, kind]
  refine ⟨([contents], .reference 0), contents, ?_, rfl, filled⟩
  rw [loadDataAsync_provided provides, start, looped]

theorem loadDataAsync_struct {items : List DataSetItem} {values : DataSetItem → ν}
    (provides : Provides type isInstance dataSet items values) (kind : type.isValueType = true)
    (unambiguous : ∀ item ∈ items, Unambiguous type item.name) :
    ∃ heap, loadDataAsync type isInstance (some dataSet) =
      .ok (heap, .inline type.constructed) := by
  obtain ⟨heap, looped⟩ := foldlM_inline [] type.constructed unambiguous provides.supplies
  have start : new type = ([], .inline type.constructed) := by simp [new, kind]
  exact ⟨heap, by rw [loadDataAsync_provided provides, start, looped]⟩

end

/-- Filled is what is not ambiguous, in a class or with the values it has anyway. -/
theorem loadDataAsync_fills_iff {type : TargetType τ ν} {isInstance : τ → ν → Bool}
    {dataSet : DataSet τ ν} {items : List DataSetItem} {values : DataSetItem → ν}
    (provides : Provides type isInstance dataSet items values) :
    LoadsInto type isInstance dataSet items values ↔
      (∀ item ∈ items, Unambiguous type item.name) ∧
        (type.isValueType = false ∨
          ∀ item ∈ items, ∀ slot, Names type item.name slot →
            values item = type.constructed slot) := by
  constructor
  · rintro ⟨result, contents, returned, holds, filled⟩
    have unambiguous : ∀ item ∈ items, Unambiguous type item.name := by
      rw [loadDataAsync_provided provides] at returned
      exact foldlM_unambiguous returned
    refine ⟨unambiguous, ?_⟩
    by_cases kind : type.isValueType = true
    · right
      intro item listed slot names
      obtain ⟨heap, loaded⟩ := loadDataAsync_struct provides kind unambiguous
      obtain rfl := Except.ok.inj (loaded.symm.trans returned)
      obtain rfl : type.constructed = contents := Option.some.inj holds
      exact ((filled slot).1 item listed names).symm
    · left
      exact Bool.eq_false_iff.mpr kind
  · rintro ⟨unambiguous, harmless⟩
    rcases harmless with kind | equal
    · exact loadDataAsync_class provides kind unambiguous
    · by_cases kind : type.isValueType = true
      · obtain ⟨heap, loaded⟩ := loadDataAsync_struct provides kind unambiguous
        refine ⟨(heap, .inline type.constructed), type.constructed, loaded, rfl, ?_⟩
        intro slot
        exact ⟨fun item listed names => (equal item listed slot names).symm, fun _ => rfl⟩
      · exact loadDataAsync_class provides (Bool.eq_false_iff.mpr kind) unambiguous

/-! A class or struct with two fields and a property, and a data set for all but `Note`. -/

def player (isValueType : Bool) : TargetType String (Nat ⊕ String) where
  isValueType := isValueType
  fields := [⟨"Level", "Int32"⟩, ⟨"Note", "String"⟩]
  properties := [⟨"Name", "String", true⟩]
  constructed slot := if slot = .field 0 then .inl 1 else .inr "none"
  zeroed slot := if slot = .field 0 then .inl 0 else .inr ""

def isInstanceOf (type : String) : Nat ⊕ String → Bool
  | .inl _ => type == "Int32"
  | .inr _ => type == "String"

def playerItems : List DataSetItem := [⟨"Name", 6, .json⟩, ⟨"Level", 1, .json⟩]

def playerValue (item : DataSetItem) : Nat ⊕ String :=
  if item.name = "Level" then .inl 7 else .inr "Hero"

def playerData : DataSet String (Nat ⊕ String) where
  name := "Player"
  getItems := some playerItems
  loadAsync _ item := .ok (playerValue item)

theorem level_named (isValueType : Bool) : Names (player isValueType) "Level" (.field 0) :=
  ⟨⟨"Level", "Int32"⟩, rfl, rfl, by intro earlier before; omega⟩

theorem name_named (isValueType : Bool) : Names (player isValueType) "Name" (.property 0) :=
  ⟨by simp [player], ⟨"Name", "String", true⟩, rfl, rfl, rfl⟩

theorem playerData_provides (isValueType : Bool) :
    Provides (player isValueType) isInstanceOf playerData playerItems playerValue where
  getItems := rfl
  distinct := by decide
  supplies := by
    intro item listed
    have listed : item = ⟨"Name", 6, .json⟩ ∨ item = ⟨"Level", 1, .json⟩ := by
      simpa [playerItems] using listed
    rcases listed with rfl | rfl
    · exact ⟨.property 0, "String", name_named isValueType, rfl, rfl, rfl⟩
    · exact ⟨.field 0, "Int32", level_named isValueType, rfl, rfl, rfl⟩

theorem player_unambiguous (isValueType : Bool) (name : String) :
    Unambiguous (player isValueType) name := by
  intro _ position position' property property' found found' _ _
  have bound := (List.getElem?_eq_some_iff.mp found).1
  have bound' := (List.getElem?_eq_some_iff.mp found').1
  simp only [player, List.length_singleton] at bound bound'
  omega

theorem player_class_fills :
    LoadsInto (player false) isInstanceOf playerData playerItems playerValue :=
  (loadDataAsync_fills_iff (playerData_provides false)).mpr
    ⟨fun item _ => player_unambiguous false item.name, Or.inl rfl⟩

theorem player_struct_unfilled :
    Provides (player true) isInstanceOf playerData playerItems playerValue ∧
      ¬LoadsInto (player true) isInstanceOf playerData playerItems playerValue := by
  refine ⟨playerData_provides true, ?_⟩
  rintro ⟨result, contents, returned, holds, filled⟩
  obtain rfl := Except.ok.inj returned
  obtain rfl : (player true).constructed = contents := Option.some.inj holds
  have kept := (filled (.field 0)).1 ⟨"Level", 1, .json⟩ (by decide) (level_named true)
  exact absurd kept (by decide)

end Stad.StadSerializer
