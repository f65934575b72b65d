import Mathlib.Data.List.Perm.Basic
import Stad.Loading

/-!
The order of a manifest. In a class every item has a storage of its own, found by
its name alone, so two rounds write the same members whichever comes first. When two
rounds give the same in either order, so does the whole loop for every order of the list.
-/

namespace CommutingSteps

variable {m : Type → Type} [Monad m] [LawfulMonad m] {σ τ α : Type}

def Commute (step : σ → α → m σ) (first second : α) : Prop :=
  ∀ state, (step state first >>= fun next => step next second) =
    step state second >>= fun next => step next first

theorem foldlM_perm {step : σ → α → m σ} {items items' : List α} (permuted : items.Perm items')
    (commute : ∀ first ∈ items, ∀ second ∈ items, first ≠ second → Commute step first second)
    (state : σ) : items.foldlM step state = items'.foldlM step state := by
  induction permuted generalizing state with
  | nil => rfl
  | cons item _ ih =>
      simp only [List.foldlM_cons]
      have later := ih fun first listed second listed' =>
        commute first (List.mem_cons_of_mem item listed) second (List.mem_cons_of_mem item listed')
      exact bind_congr later
  | swap first second rest =>
      simp only [List.foldlM_cons, ← bind_assoc]
      by_cases same : second = first
      · rw [same]
      · have swapped := commute second (by simp) first (by simp) same state
        rw [swapped]
  | trans left _ ihLeft ihRight =>
      rw [ihLeft commute, ihRight]
      intro first listed second listed'
      exact commute first (left.mem_iff.mpr listed) second (left.mem_iff.mpr listed')

theorem foldlM_map {step : σ → α → m σ} {step' : τ → α → m τ} {view : σ → τ}
    (each : ∀ state item, step' (view state) item = view <$> step state item)
    (items : List α) (state : σ) :
    items.foldlM step' (view state) = view <$> items.foldlM step state := by
  induction items generalizing state with
  | nil => simp
  | cons item rest ih => simp only [List.foldlM_cons, each, bind_map_left, map_bind, ih]

variable {ε : Type}

theorem foldlM_toOption (step : σ → α → Except ε σ) (items : List α) (state : σ) :
    (items.foldlM step state).toOption =
      items.foldlM (fun state item => (step state item).toOption) state := by
  induction items generalizing state with
  | nil => rfl
  | cons item rest ih =>
      simp only [List.foldlM_cons]
      cases step state item with
      | ok next => exact ih next
      | error thrown => rfl

end CommutingSteps

namespace Stad.StadSerializer

open ReflectionUtility CommutingSteps

variable {τ ν : Type}

def storedIn (type : TargetType τ ν) (isInstance : τ → ν → Bool) (item : DataSetItem)
    (value : ν) : Except Thrown (Option Slot) :=
  match type.getField item.name with
  | some field =>
    if isInstance field.1.fieldType value then .ok (some (.field field.2)) else .error .argument
  | none => do
    match ← type.getProperty item.name with
    | some property =>
      if property.1.canWrite && isInstance property.1.propertyType value then
        .ok (some (.property property.2))
      else .error .argument
    | none => .ok none

/-- What one round writes. It does not look at the object. -/
def written (type : TargetType τ ν) (isInstance : τ → ν → Bool) (dataSet : DataSet τ ν)
    (item : DataSetItem) : Except Thrown (Option (Slot × ν)) := do
  let memberInfo ← findMember type item
  let value ← dataSet.loadAsync (memberInfo.map Prod.snd) item
  let slot ← storedIn type isInstance item value
  return slot.map fun slot => (slot, value)

def put (contents : Contents ν) : Option (Slot × ν) → Contents ν
  | none => contents
  | some (slot, value) => Function.update contents slot value

def putItem (type : TargetType τ ν) (isInstance : τ → ν → Bool) (dataSet : DataSet τ ν)
    (contents : Contents ν) (item : DataSetItem) : Except Thrown (Contents ν) :=
  put contents <$> written type isInstance dataSet item

def held (contents : Contents ν) : Heap ν × Variable ν := ([contents], .reference 0)

/-- Both fail, or both return objects with the same members. -/
inductive SameOutcome : Except Thrown (Heap ν × Variable ν) →
    Except Thrown (Heap ν × Variable ν) → Prop where
  | failed (thrown thrown' : Thrown) : SameOutcome (.error thrown) (.error thrown')
  | returned {result result' : Heap ν × Variable ν} {contents : Contents ν}
      (holds : contentsOf result.1 result.2 = some contents)
      (holds' : contentsOf result'.1 result'.2 = some contents) :
      SameOutcome (.ok result) (.ok result')

section
variable {type : TargetType τ ν} {isInstance : τ → ν → Bool} {dataSet : DataSet τ ν}

theorem getProperty_some {name : String} {property : PropertyMember τ × Nat}
    (located : type.getProperty name = .ok (some property)) :
    type.properties[property.2]? = some property.1 ∧ property.1.name = name := by
  unfold TargetType.getProperty at located
  split at located
  · cases located
  · rename_i only candidates
    cases located
    exact mem_properties.mp (by simp [candidates])
  · cases located

theorem storedIn_names {item : DataSetItem} {value : ν} {slot : Slot}
    (stored : storedIn type isInstance item value = .ok (some slot)) :
    Names type item.name slot := by
  unfold storedIn at stored
  split at stored
  · rename_i field found
    obtain ⟨names, _⟩ := getField_some found
    split at stored
    · cases stored
      exact names
    · cases stored
  · rename_i noField
    obtain ⟨property, located, stored⟩ := Bounded.except_bind_eq_ok.mp stored
    cases property with
    | none => cases stored
    | some property =>
        obtain ⟨placed, same⟩ := getProperty_some located
        simp only at stored
        split at stored
        · rename_i writable
          cases stored
          rw [Bool.and_eq_true] at writable
          exact ⟨getField_none_iff.mp noField, property.1, placed, same, writable.1⟩
        · cases stored

theorem written_names {item : DataSetItem} {slot : Slot} {value : ν}
    (writes : written type isInstance dataSet item = .ok (some (slot, value))) :
    Names type item.name slot := by
  obtain ⟨_, _, writes⟩ := Bounded.except_bind_eq_ok.mp writes
  obtain ⟨_, _, writes⟩ := Bounded.except_bind_eq_ok.mp writes
  obtain ⟨stored, found, writes⟩ := Bounded.except_bind_eq_ok.mp writes
  cases stored with
  | none => cases writes
  | some slot' =>
      cases writes
      exact storedIn_names found

theorem setValue_held (contents : Contents ν) (item : DataSetItem) (value : ν) :
    setValue type isInstance [contents] 0 item value =
      (fun slot => ([put contents (slot.map fun slot => (slot, value))], slot.isSome)) <$>
        storedIn type isInstance item value := by
  unfold setValue storedIn assign
  cases type.getField item.name with
  | some field =>
      by_cases fits : isInstance field.1.fieldType value = true
      · simp only [fits, if_true]
        rfl
      · simp only [fits]
        rfl
  | none =>
      cases type.getProperty item.name with
      | error thrown => rfl
      | ok located =>
          cases located with
          | none => rfl
          | some property =>
              by_cases canWrite : property.1.canWrite = true
              · by_cases fits : isInstance property.1.propertyType value = true
                · simp [bind, Except.bind, canWrite, fits]
                  rfl
                · simp [bind, Except.bind, canWrite, fits]
              · simp [bind, Except.bind, canWrite]
                rfl

theorem loadItem_held (contents : Contents ν) (item : DataSetItem) :
    loadItem type isInstance dataSet (held contents) item =
      held <$> putItem type isInstance dataSet contents item := by
  have boxed : box [contents] (.reference 0) = .ok ([contents], 0) := rfl
  unfold loadItem putItem written held
  simp only [boxed]
  cases findMember type item with
  | error thrown => rfl
  | ok memberInfo =>
      simp only [bind, Except.bind]
      cases dataSet.loadAsync (memberInfo.map Prod.snd) item with
      | error thrown => rfl
      | ok value =>
          simp only [boxed, setValue_held]
          cases storedIn type isInstance item value with
          | error thrown => rfl
          | ok slot => rfl

theorem put_comm (contents : Contents ν) {first second : Option (Slot × ν)}
    (apart : ∀ slot value slot' value', first = some (slot, value) →
      second = some (slot', value') → slot ≠ slot') :
    put (put contents first) second = put (put contents second) first := by
  cases first with
  | none => rfl
  | some entry =>
      cases second with
      | none => rfl
      | some entry' =>
          have different := apart entry.1 entry.2 entry'.1 entry'.2 rfl rfl
          exact Function.update_comm different entry.2 entry'.2 contents

theorem putItem_commute {first second : DataSetItem} (different : first.name ≠ second.name) :
    Commute (fun contents item => (putItem type isInstance dataSet contents item).toOption)
      first second := by
  intro contents
  simp only [putItem]
  cases writes : written type isInstance dataSet first with
  | error thrown =>
      cases written type isInstance dataSet second with
      | error thrown' => rfl
      | ok stored' => rfl
  | ok stored =>
      cases writes' : written type isInstance dataSet second with
      | error thrown' => rfl
      | ok stored' =>
          apply congrArg some
          apply put_comm
          rintro slot value slot' value' rfl rfl rfl
          exact different ((written_names writes).name_eq (written_names writes'))

theorem foldlM_held (items : List DataSetItem) (contents : Contents ν) :
    items.foldlM (loadItem type isInstance dataSet) (held contents) =
      held <$> items.foldlM (putItem type isInstance dataSet) contents :=
  foldlM_map loadItem_held items contents

theorem foldlM_putItem_perm {items items' : List DataSetItem} (permuted : items.Perm items')
    (distinct : (items.map (·.name)).Nodup) (contents : Contents ν) :
    (items.foldlM (putItem type isInstance dataSet) contents).toOption =
      (items'.foldlM (putItem type isInstance dataSet) contents).toOption := by
  rw [foldlM_toOption, foldlM_toOption]
  apply foldlM_perm permuted
  intro first listed second listed' different
  apply putItem_commute
  intro same
  exact different (List.inj_on_of_nodup_map distinct listed listed' same)

theorem sameOutcome_held {loaded loaded' : Except Thrown (Contents ν)}
    (same : loaded.toOption = loaded'.toOption) :
    SameOutcome (held <$> loaded) (held <$> loaded') := by
  cases loaded with
  | error thrown =>
      cases loaded' with
      | error thrown' => exact .failed thrown thrown'
      | ok contents' => cases same
  | ok contents =>
      cases loaded' with
      | error thrown' => cases same
      | ok contents' =>
          cases same
          exact .returned rfl rfl

end

/-- `items` and `items'` are what `GetItems` gives in the two runs. -/
theorem loadDataAsync_perm {type : TargetType τ ν} {isInstance : τ → ν → Bool}
    {dataSet : DataSet τ ν} {items items' : List DataSetItem}
    (isClass : type.isValueType = false) (permuted : items.Perm items')
    (distinct : (items.map (·.name)).Nodup) :
    SameOutcome
      (loadDataAsync type isInstance (some { dataSet with getItems := some items }))
      (loadDataAsync type isInstance (some { dataSet with getItems := some items' })) := by
  have start : new type = held type.constructed := by simp [new, held, isClass]
  have step : ∀ given, loadItem type isInstance { dataSet with getItems := given } =
      loadItem type isInstance dataSet := fun _ => rfl
  simp only [loadDataAsync, start, step, foldlM_held]
  exact sameOutcome_held (foldlM_putItem_perm permuted distinct type.constructed)

def twoFields : TargetType Unit Nat where
  isValueType := false
  fields := [⟨"Name", ()⟩, ⟨"Level", ()⟩]
  properties := [⟨"Name", (), true⟩]
  constructed := fun _ => 0
  zeroed := fun _ => 0

def sizes : DataSet Unit Nat where
  name := "Sizes"
  getItems := none
  loadAsync := fun _ item => .ok item.sizeBytes.toNatClampNeg

def threeItems : List DataSetItem := [⟨"Name", 5, .json⟩, ⟨"Level", 6, .json⟩, ⟨"Age", 7, .json⟩]

theorem threeItems_reversed :
    SameOutcome
      (loadDataAsync twoFields (fun _ _ => true) (some { sizes with getItems := some threeItems }))
      (loadDataAsync twoFields (fun _ _ => true)
        (some { sizes with getItems := some threeItems.reverse })) :=
  loadDataAsync_perm rfl (List.reverse_perm threeItems).symm (by decide)

end Stad.StadSerializer
